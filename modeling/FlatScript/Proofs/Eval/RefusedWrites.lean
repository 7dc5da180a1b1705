import FlatScript.Proofs.Eval.CutShort

/-!
# Refused writes

A host may take only so many writes and refuse the next one.  A run against it is cut off exactly at
that write: its output is what was written before, its input is what had not been read by then, and
its frame is what it was when the write was tried.

To say what things were like at a write, the evaluation is repeated with a host that takes all
writes and records them, `Node.evalRecorded`.  A host does not see frames, so the evaluation shows
it the frame at which it starts upon a call: all writes are made by calls, and while one goes on the
frame of the caller does not change.
-/

namespace FlatScript

/-- A write, and how things were when it was made. -/
structure Moment where
  text : String
  /-- The lines that were still to be read. -/
  input : List String
  /-- The frame of the evaluation, which was at a call. -/
  frame : Option Frame

/-- What has been written at the given moments. -/
def Moment.texts (moments : List Moment) : String :=
  String.join (moments.map Moment.text)

/-- A host that takes all writes and records them. -/
structure Recorder where
  /-- The lines that are still to be read. -/
  input : List String
  /-- The writes so far. -/
  writes : List Moment := []
  /-- The frame of the evaluation, while it is at a call. -/
  caller : Option Frame := none

namespace Recorder

/-- Takes a write and records it. -/
def write (text : String) : HostM Recorder Unit := fun host =>
  .ok () { host with writes := host.writes ++ [⟨text, host.input, host.caller⟩] }

/-- Takes the first of the lines. -/
def readLine : HostM Recorder (Option String) := fun host =>
  .ok host.input.head? { host with input := host.input.tail }

instance : Host Recorder := ⟨write, readLine⟩

/-- The state with which a call starts.  The host is shown the frame of the caller, or still that of
the first caller if the call is made in the course of another one. -/
def calling (state : State Recorder) : State Recorder :=
  ⟨state.frame, { state.host with caller := state.host.caller.or (some state.frame) }⟩

/-- Does what a call goes to, and shows the host the frame of the caller meanwhile. -/
def during (action : EvalM Recorder Value) : EvalM Recorder Value := fun state =>
  match action (calling state) with
  | .ok value after =>
    .ok value { after with host := { after.host with caller := state.host.caller } }
  | .error halt after =>
    .error halt { after with host := { after.host with caller := state.host.caller } }

end Recorder

/-- Evaluates a tree with the standard builtins and records what it writes. -/
def Node.evalRecorded : Nat → Node → EvalM Recorder Value
  | 0, _ => throw .outOfFuel
  | fuel + 1, node =>
    let enter := callWith (evalRecorded fuel)
    stageWith (evalRecorded fuel)
      (fun name frame => (target Builtins.standard enter name frame).map fun run values =>
        Recorder.during (run values)) fuel node

/-! ### What calls go to -/

namespace Recorder

/-- What is done during a call stops as it does with a host that has been shown the caller. -/
theorem during_of_stopped {action : EvalM Recorder Value} {state : State Recorder}
    {stop : Except (Halt EvalError) Value} {after : Frame} {left : Recorder}
    (haction : action (calling state) = EvalM.stopped stop ⟨after, left⟩) :
    during action state =
      EvalM.stopped stop ⟨after, { left with caller := state.host.caller }⟩ := by
  unfold during
  rw [haction]
  cases stop <;> rfl

/-- What is recorded during a call stays recorded. -/
theorem left_during_writes (action : EvalM Recorder Value) (state : State Recorder) :
    (EvalM.left (during action state)).host.writes =
      (EvalM.left (action (calling state))).host.writes := by
  unfold during
  cases action (calling state) <;> rfl

end Recorder

/-- Whatever a call goes to leaves the frame of the caller as it is. -/
theorem Node.left_target_frame {σ : Type} {builtins : Builtins σ} {eval : Node → EvalM σ Value}
    {name : String} {frame : Frame} {run : List Value → EvalM σ Value}
    (hrun : target builtins (callWith eval) name frame = some run) (values : List Value)
    (state : State σ) : (EvalM.left (run values state)).frame = state.frame := by
  unfold target at hrun
  split at hrun
  · cases hrun
    exact EvalM.left_onHost_frame _ state
  · obtain ⟨declaration, -, rfl⟩ := Option.map_eq_some_iff.mp hrun
    exact left_callWith_frame eval declaration values state

/-! ### The refused write -/

namespace Refusing

variable (output : String) (limit : Option Nat)

/-- The first host takes no more writes than the limit, if there is one; the second records all of
them.  `caller` is the frame that it has been shown. -/
def cutting (caller : Option Frame) : Cutting MemoryHost Recorder where
  hosts host recorder := recorder.caller = caller ∧
    (∀ bound, limit = some bound → recorder.writes.length ≤ bound) ∧
    host = ⟨output ++ Moment.texts recorder.writes, recorder.input,
      limit.map (· - recorder.writes.length)⟩
  reason := .writeRefused
  since own left recorder := ∃ bound moment, limit = some bound ∧
    recorder.writes[bound]? = some moment ∧ moment.frame = caller.or (some own) ∧
    left = ⟨output ++ Moment.texts (recorder.writes.take bound), moment.input, some 0⟩

variable {output limit} {caller : Option Frame}

/-- The writes that are recorded do not go away.  Of the frames only the one that the host is shown
at a call of the run at hand matters. -/
theorem since_mono {caller' : Option Frame} {own own' : Frame} {left : MemoryHost}
    {recorder later : Recorder} (hsince : (cutting output limit caller).since own left recorder)
    (hcaller : caller.or (some own) = caller'.or (some own'))
    (hlater : recorder.writes <+: later.writes) :
    (cutting output limit caller').since own' left later := by
  obtain ⟨bound, moment, hlimit, hmoment, hframe, hleft⟩ := hsince
  obtain ⟨more, hmore⟩ := hlater
  have hbound : bound < recorder.writes.length := (List.getElem?_eq_some_iff.mp hmoment).1
  refine ⟨bound, moment, hlimit, ?_, hframe.trans hcaller, ?_⟩
  · rw [← hmore, List.getElem?_append_left hbound, hmoment]
  · rw [← hmore, List.take_append_of_le_length (Nat.le_of_lt hbound), hleft]

/-- A write is refused just if as many are recorded as the limit allows. -/
theorem cutShort_write (own : Frame) (text : String) :
    (cutting output limit (some own)).CutShort
      (EvalM.onHost (Host.write text)) (EvalM.onHost (Host.write text)) := by
  refine Cutting.CutShort.onHost ?_ fun _ _ _ hsince =>
    since_mono hsince rfl (List.prefix_append _ _)
  rintro _ recorder ⟨hcaller, hbound, rfl⟩
  let moment : Moment := ⟨text, recorder.input, recorder.caller⟩
  let later : Recorder := { recorder with writes := recorder.writes ++ [moment] }
  have htexts : output ++ Moment.texts recorder.writes ++ text =
      output ++ Moment.texts later.writes := by
    simp [Moment.texts, later, moment, String.append_assoc]
  have hlength : later.writes.length = recorder.writes.length + 1 := by simp [later]
  cases limit with
  | none =>
      refine Or.inl ⟨.ok (), _, later, ⟨hcaller, nofun, rfl⟩, ?_, rfl⟩
      rw [← htexts]
      rfl
  | some bound =>
      rcases Nat.eq_or_lt_of_le (hbound bound rfl) with hfull | hroom
      · -- The write is refused, and it is the one that is recorded next.
        have htake : later.writes.take bound = recorder.writes := by
          rw [← hfull]
          exact List.take_left
        refine Or.inr ⟨⟨output ++ Moment.texts recorder.writes, recorder.input, some 0⟩, ?_,
          fun _ => ⟨bound, moment, rfl, ?_, hcaller, ?_⟩⟩
        · have hnone : bound - recorder.writes.length = 0 := by omega
          rw [Option.map_some, hnone]
          rfl
        · rw [← hfull]
          exact List.getElem?_concat_length
        · change _ = MemoryHost.mk (output ++ Moment.texts (later.writes.take bound)) _ _
          rw [htake]
      · obtain ⟨left, hleft⟩ : ∃ left, bound - recorder.writes.length = left + 1 :=
          ⟨bound - recorder.writes.length - 1, by omega⟩
        have hlater : bound - later.writes.length = left := by omega
        refine Or.inl ⟨.ok (), _, later, ⟨hcaller, ?_, rfl⟩, ?_, rfl⟩
        · intro bound' hlimit
          cases hlimit
          omega
        · rw [← htexts, Option.map_some, Option.map_some, hleft, hlater]
          rfl

/-- Asking for a line records nothing. -/
theorem cutShort_nextLine :
    (cutting output limit caller).CutShort
      (EvalM.onHost Builtin.nextLine) (EvalM.onHost Builtin.nextLine) := by
  refine Cutting.CutShort.onHost ?_ ?_
  · rintro _ ⟨input, writes, caller⟩ ⟨rfl, hbound, rfl⟩
    cases input with
    | nil =>
        exact Or.inl ⟨.error .endOfInput, _, ⟨[], writes, caller⟩, ⟨rfl, hbound, rfl⟩, rfl, rfl⟩
    | cons line input =>
        exact Or.inl ⟨.ok (.str line), _, ⟨input, writes, caller⟩, ⟨rfl, hbound, rfl⟩, rfl, rfl⟩
  · rintro _ _ ⟨input, writes, _⟩ hsince
    cases input with
    | nil => exact hsince
    | cons line input => exact hsince

/-- An action that leaves its frame alone, compared with what it does during a call. -/
theorem cutShort_during {run : EvalM MemoryHost Value} {other : EvalM Recorder Value}
    (hkeeps : ∀ state, (EvalM.left (run state)).frame = state.frame)
    (hrun : ∀ own, (cutting output limit (some own)).CutShort run other) :
    (cutting output limit caller).CutShort run (Recorder.during other) := by
  have hshow (caller : Option Frame) (frame : Frame) :
      ∃ shown, caller.or (some frame) = some shown := by
    cases caller <;> exact ⟨_, rfl⟩
  refine ⟨fun frame host recorder hhosts => ?_, fun own left state hsince => ?_⟩
  · obtain ⟨rfl, hbound, hhost⟩ := hhosts
    obtain ⟨shown, hshown⟩ := hshow recorder.caller frame
    have hinner : (cutting output limit (some shown)).hosts host
        (Recorder.calling ⟨frame, recorder⟩).host := ⟨hshown, hbound, hhost⟩
    rcases (hrun shown).compare frame hinner with
      ⟨stop, after, left, left', ⟨-, hbound', hleft⟩, hfirst, hsecond⟩ |
      ⟨after, left, hfirst, hsince⟩
    · exact Or.inl ⟨stop, after, left, { left' with caller := recorder.caller },
        ⟨rfl, hbound', hleft⟩, hfirst, Recorder.during_of_stopped hsecond⟩
    · -- The run that is cut short is still in the frame of the caller.
      have hafter : after = frame := by
        have hframe := hkeeps ⟨frame, host⟩
        rw [hfirst] at hframe
        exact hframe
      subst hafter
      have hwrites := Recorder.left_during_writes other ⟨after, recorder⟩
      exact Or.inr ⟨after, left, hfirst,
        since_mono hsince hshown.symm ⟨[], (List.append_nil _).trans hwrites.symm⟩⟩
  · obtain ⟨shown, hshown⟩ := hshow caller own
    have hinner : (cutting output limit (some shown)).since own left state.host :=
      since_mono hsince hshown List.prefix_rfl
    have hlater := (hrun shown).goesOn own left (Recorder.calling state) hinner
    have hwrites := Recorder.left_during_writes other state
    exact since_mono hlater hshown.symm ⟨[], (List.append_nil _).trans hwrites.symm⟩

/-- What is done in the course of a call, whoever the caller is. -/
def inCall (output : String) (limit : Option Nat) : Congruence MemoryHost Recorder where
  Rel run other := ∀ own, (cutting output limit (some own)).CutShort run other
  rel_pure value _ := .pure value
  rel_bind hrun hnext own := .bind (hrun own) fun value => hnext value own
  rel_look hnext own := .look fun frame hframe => hnext frame hframe own

/-- What a call goes to, if evaluation in the course of a call is cut short.  There the frame of the
caller is settled, so that it does not matter in which frame the body of a function is left. -/
theorem cutShort_target {eval : Node → EvalM MemoryHost Value} {eval' : Node → EvalM Recorder Value}
    (heval : ∀ node, (inCall output limit).Rel (eval node) (eval' node)) (name : String)
    (frame : Frame) :
    Option.Rel
      (fun run run' => ∀ values, (cutting output limit caller).CutShort (run values) (run' values))
      (Node.target Builtins.standard (Node.callWith eval) name frame)
      ((Node.target Builtins.standard (Node.callWith eval') name frame).map
        fun run values => Recorder.during (run values)) := by
  have hbuiltins : (inCall output limit).SameBuiltins Builtins.standard Builtins.standard :=
    (inCall output limit).standard (fun text own => cutShort_write own text)
      fun _ => cutShort_nextLine
  have henter (declaration : Declaration Node) (values : List Value) : (inCall output limit).Rel
      (Node.callWith eval declaration values) (Node.callWith eval' declaration values) :=
    fun own => .bind (.inFrame (fun _ _ _ _ hsince => hsince) _ (heval declaration.body own))
      fun after => .pure after.returned
  have htarget : Option.Rel (fun run run' => ∀ values,
      (inCall output limit).Rel (run values) (run' values))
      (Node.target Builtins.standard (Node.callWith eval) name frame)
      (Node.target Builtins.standard (Node.callWith eval') name frame) :=
    (inCall output limit).target hbuiltins fun declaration _ => henter declaration
  have hkeeps (run : List Value → EvalM MemoryHost Value)
      (hrun : Node.target Builtins.standard (Node.callWith eval) name frame = some run)
      (values : List Value) (state : State MemoryHost) :
      (EvalM.left (run values state)).frame = state.frame :=
    Node.left_target_frame hrun values state
  generalize Node.target Builtins.standard (Node.callWith eval) name frame = found at htarget hkeeps
  generalize Node.target Builtins.standard (Node.callWith eval') name frame = found' at htarget
  cases htarget with
  | none => exact .none
  | some hrun => exact .some fun values => cutShort_during (hkeeps _ rfl values) (hrun values)

/-- **An evaluation with a limited number of writes is cut short** where the recorded one goes on.
The induction is on the fuel. -/
theorem cutShort_evalRecorded (output : String) (limit : Option Nat) (fuel : Nat) (node : Node)
    (caller : Option Frame) :
    (cutting output limit caller).CutShort
      (node.eval Builtins.standard fuel) (node.evalRecorded fuel) := by
  induction fuel generalizing node caller with
  | zero => exact .halt .outOfFuel
  | succ fuel ih =>
      rw [Node.eval, Node.evalWith_eq_stageWith, Node.evalRecorded]
      refine (cutting output limit caller).congruence.stageWith
        (fun _ error _ _ => .halt (.failed error)) (fun update _ => .update update)
        (fun _ _ _ => .halt .outOfFuel) (fun child _ => ih child caller) ?_
      intro name args _ frame _
      exact cutShort_target (fun body own => ih body (some own)) name frame

/-- To begin with nothing is recorded, and the limit is what the host has left. -/
theorem cutting_start (output : String) (limit : Option Nat) (lines : List String) :
    (cutting output limit none).hosts ⟨output, lines, limit⟩ ⟨lines, [], none⟩ := by
  refine ⟨rfl, fun bound _ => Nat.zero_le bound, ?_⟩
  cases limit <;> simp [Moment.texts]

end Refusing

/-- **A refused write cuts a run off exactly there.**  Take a run against a host that takes all
writes, and record its writes.  With a host that takes as many or more, the run ends in the same
way, with the same frame, output and remaining input.  With a host that takes fewer, it fails since
a write is refused.  Then its output is what was written before that write, and its frame and the
lines that it leaves are what they were when the recorded run made the write. -/
theorem refused_write_cuts_run (node : Node) (fuel : Nat) (frame : Frame) (output : String)
    (lines : List String) (outcome : Except EvalError Value) (after : State MemoryHost)
    (hrun : node.eval Builtins.standard fuel ⟨frame, MemoryHost.mk output lines none⟩ =
      EvalM.ended outcome after) :
    ∃ writes : List Moment,
      node.evalRecorded fuel ⟨frame, ⟨lines, [], none⟩⟩ =
        EvalM.ended outcome ⟨after.frame, ⟨after.host.input, writes, none⟩⟩ ∧
      after.host.output = output ++ Moment.texts writes ∧
      ∀ limit,
        (writes.length ≤ limit →
          node.eval Builtins.standard fuel ⟨frame, MemoryHost.mk output lines (some limit)⟩ =
            EvalM.ended outcome ⟨after.frame,
              ⟨after.host.output, after.host.input, some (limit - writes.length)⟩⟩) ∧
        ∀ hlimit : limit < writes.length, ∃ own, writes[limit].frame = some own ∧
          node.eval Builtins.standard fuel ⟨frame, MemoryHost.mk output lines (some limit)⟩ =
            EvalM.ended (.error (.host .writeRefused)) ⟨own,
              ⟨output ++ Moment.texts (writes.take limit), writes[limit].input, some 0⟩⟩ := by
  obtain ⟨own, host⟩ := after
  -- Without a limit, the recorded run is the run itself.
  have hplain := Refusing.cutShort_evalRecorded output none fuel node none
  rcases hplain.ended (Refusing.cutting_start output none lines) hrun with
    ⟨⟨input, writes, _⟩, ⟨rfl, -, rfl⟩, hrecorded⟩ | ⟨-, bound, moment, hnone, -⟩
  · refine ⟨writes, hrecorded, rfl, fun limit => ?_⟩
    have hshort := Refusing.cutShort_evalRecorded output (some limit) fuel node none
    rcases hshort.ended_other (Refusing.cutting_start output (some limit) lines) hrecorded with
      ⟨_, ⟨-, hbound, rfl⟩, hends⟩ | ⟨own, _, hends, bound, moment, hlimit, hmoment, hframe, rfl⟩
    · exact ⟨fun _ => hends, fun hlimit => absurd (hbound limit rfl) (Nat.not_le.mpr hlimit)⟩
    · cases hlimit
      obtain ⟨hlimit, rfl⟩ := List.getElem?_eq_some_iff.mp hmoment
      exact ⟨fun hfits => absurd hfits (Nat.not_le.mpr hlimit), fun _ => ⟨own, hframe, hends⟩⟩
  · cases hnone

/-- A program with a function that writes, and then asks for its value. -/
def asksInCall : Node :=
  .program
    [.assign "x" (.integer 1),
      .declare ⟨"f", [], .block [.call "print" [.string "in"], .ret (.call "input" [.string "?"])]⟩,
      .assign "x" (.call "f" []), .call "print" [.read "x"]]

/-- The program writes three times.  If the second write is refused, which is the prompt, no line is
read and the variable is not assigned.  If three writes are taken the program ends as it does with a
host that takes any number. -/
theorem asksInCall_cut_at_prompt :
    (∃ after, asksInCall.eval Builtins.standard 8 ⟨{}, MemoryHost.mk "" ["a", "b"] none⟩ =
        EvalM.ended (.ok .none) after ∧ after.host = ⟨"in\n?a\n", ["b"], none⟩) ∧
      (∃ own, asksInCall.eval Builtins.standard 8 ⟨{}, MemoryHost.mk "" ["a", "b"] (some 1)⟩ =
          EvalM.ended (.error (.host .writeRefused)) ⟨own, ⟨"in\n", ["a", "b"], some 0⟩⟩ ∧
        own.vars["x"]? = some (.int 1)) ∧
      ∃ own, asksInCall.eval Builtins.standard 8 ⟨{}, MemoryHost.mk "" ["a", "b"] (some 3)⟩ =
          EvalM.ended (.ok .none) ⟨own, ⟨"in\n?a\n", ["b"], some 0⟩⟩ ∧
        own.vars["x"]? = some (.str "a") := by
  obtain ⟨own, hrun, hassigned⟩ : ∃ own : Frame,
      asksInCall.eval Builtins.standard 8 ⟨{}, MemoryHost.mk "" ["a", "b"] none⟩ =
        EvalM.ended (.ok .none) ⟨own, ⟨"in\n?a\n", ["b"], none⟩⟩ ∧
      own.vars["x"]? = some (.str "a") := ⟨_, rfl, rfl⟩
  obtain ⟨writes, hrecorded, -, hlimit⟩ := refused_write_cuts_run _ _ _ _ _ _ _ hrun
  have hwrites : (writes.map fun moment =>
      (moment.text, moment.input, moment.frame.map fun frame => frame.vars["x"]?)) =
      [("in\n", ["a", "b"], some (some (.int 1))), ("?", ["a", "b"], some (some (.int 1))),
        ("a\n", ["b"], some (some (.str "a")))] := by
    have hleft : writes =
        (EvalM.left (asksInCall.evalRecorded 8 ⟨{}, ⟨["a", "b"], [], none⟩⟩)).host.writes := by
      rw [hrecorded, EvalM.left_ended]
    rw [hleft]
    decide +kernel
  obtain ⟨first, _, rfl, hfirst, hwrites⟩ := List.map_eq_cons_iff.mp hwrites
  obtain ⟨second, _, rfl, hsecond, hwrites⟩ := List.map_eq_cons_iff.mp hwrites
  obtain ⟨last, _, rfl, -, hwrites⟩ := List.map_eq_cons_iff.mp hwrites
  cases List.map_eq_nil_iff.mp hwrites
  obtain ⟨htext, -⟩ := Prod.mk.inj hfirst
  obtain ⟨hinput, hvars⟩ := Prod.mk.inj (Prod.mk.inj hsecond).2
  obtain ⟨before, hbefore, hcut⟩ := (hlimit 1).2 (show 1 < 3 by decide)
  have hframe : second.frame = some before := hbefore
  rw [hframe] at hvars
  refine ⟨⟨_, hrun, rfl⟩, ⟨before, ?_, Option.some.inj hvars⟩, own, (hlimit 3).1 (Nat.le_refl 3),
    hassigned⟩
  rw [hcut]
  simp [Moment.texts, htext, hinput]

end FlatScript
