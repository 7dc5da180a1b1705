import FlatScript.Proofs.Eval.Coupling
import FlatScript.Proofs.Trees.Measures

/-!
# Calls are nested like declarations

A call starts without any declared functions, so all that a function can call is what its own body
declares.  The functions whose calls are active at one time are therefore nested in each other in
the program: none of them is active twice, and there are no more of them than declarations are
nested.

To speak of the calls that are active, evaluation is run against a host that is `Watched`: it keeps
the list of active functions and everything that this list has been.  A watched evaluation also has
a limit.  A call that would be nested deeper is refused, and that ends the evaluation.
-/

namespace FlatScript

/-! ### Watched evaluation -/

/-- A host, and a record of the calls of declared functions. -/
structure Watched (σ : Type) where
  host : σ
  /-- The functions whose calls are active, the innermost first. -/
  active : List (Declaration Node) := []
  /-- All that `active` has been up to now. -/
  history : List (List (Declaration Node)) := [[]]
  /-- The function whose call was refused, if there was one. -/
  refused : Option (Declaration Node) := none

namespace Watched

variable {σ α : Type}

/-- The record when other calls are active than before. -/
def become (watched : Watched σ) (active : List (Declaration Node)) : Watched σ :=
  { watched with active := active, history := active :: watched.history }

/-- Runs the call of a function, which is active for as long as the call takes.  If more calls would
be active than the limit permits, the call is refused. -/
def entering (limit : Nat) (declaration : Declaration Node) (call : EvalM (Watched σ) α) :
    EvalM (Watched σ) α := fun state =>
  let outside := state.host.active
  if outside.length < limit then
    match call { state with host := state.host.become (declaration :: outside) } with
    | .ok value after => .ok value { after with host := after.host.become outside }
    | .error halt after => .error halt { after with host := after.host.become outside }
  else .error .outOfFuel { state with host := { state.host with refused := some declaration } }

/-- Acts on the host that is watched. -/
def onHost (action : HostM σ α) : HostM (Watched σ) α := fun watched =>
  match action watched.host with
  | .ok value host => .ok value { watched with host := host }
  | .error error host => .error error { watched with host := host }

/-- The state that a watched evaluation has left, however it has ended. -/
def left : EStateM.Result (Halt EvalError) (State (Watched σ)) α → Watched σ
  | .ok _ after => after.host
  | .error _ after => after.host

/-- The result of an evaluation without the record of its calls. -/
def forget : EStateM.Result (Halt EvalError) (State (Watched σ)) α →
    EStateM.Result (Halt EvalError) (State σ) α
  | .ok value after => .ok value ⟨after.frame, after.host.host⟩
  | .error halt after => .error halt ⟨after.frame, after.host.host⟩

end Watched

/-- The builtins, with a host that is watched. -/
def Builtins.watched {σ : Type} (builtins : Builtins σ) : Builtins (Watched σ) :=
  builtins.map fun _ builtin => ⟨builtin.name, fun values => Watched.onHost (builtin.run values)⟩

namespace Node

variable {σ : Type}

/-- Evaluates a tree like `eval`, and records the calls. -/
def evalWatched (builtins : Builtins (Watched σ)) (limit : Nat) :
    Nat → Node → EvalM (Watched σ) Value
  | 0, _ => throw .outOfFuel
  | fuel + 1, node =>
    let eval := evalWatched builtins limit fuel
    let enter := fun declaration values =>
      Watched.entering limit declaration (callWith eval declaration values)
    layerWith eval enter builtins fuel node

/-- Evaluates a tree with a limit on the number of active calls.  The error is the function whose
call went beyond the limit. -/
def evalLimited (builtins : Builtins σ) (limit fuel : Nat) (node : Node) (state : State σ) :
    Except (Declaration Node) (EStateM.Result (Halt EvalError) (State σ) Value) :=
  let result :=
    node.evalWatched builtins.watched limit fuel ⟨state.frame, { host := state.host }⟩
  match (Watched.left result).refused with
  | some declaration => .error declaration
  | none => .ok (Watched.forget result)

/-- All that the list of active functions is in the course of an evaluation. -/
def callHistory (builtins : Builtins σ) (limit fuel : Nat) (node : Node) (state : State σ) :
    List (List (Declaration Node)) :=
  (Watched.left
    (node.evalWatched builtins.watched limit fuel ⟨state.frame, { host := state.host }⟩)).history

/-! ### Nested declarations -/

/-- The declaration stands in the tree, below its root and outside the bodies of other functions. -/
def Declares (node : Node) (declaration : Declaration Node) : Prop :=
  ∃ child ∈ node.children, (Node.declare declaration).Occurs child

/-- The tree that runs inside active calls: the body of the innermost function, or the program. -/
def running (program : Node) : List (Declaration Node) → Node
  | [] => program
  | declaration :: _ => declaration.body

/-- Each function is declared in the body of the next one, and the last one in the program. -/
inductive Nested (program : Node) : List (Declaration Node) → Prop
  | nil : Nested program []
  | cons {declaration : Declaration Node} {active : List (Declaration Node)}
      (hdeclares : (running program active).Declares declaration)
      (hnested : Nested program active) : Nested program (declaration :: active)

/-- What occurs in a part occurs in the whole. -/
theorem Occurs.trans {part middle whole : Node} (hpart : part.Occurs middle)
    (hmiddle : middle.Occurs whole) : part.Occurs whole := by
  induction hmiddle with
  | here => exact hpart
  | inside hchild _ ih => exact .inside hchild ih

/-- What is declared in a tree that also has a call is declared below its root. -/
theorem declares_of_occurs {whole : Node} {declaration : Declaration Node} {name : String}
    {args : List Node} (hdeclare : (Node.declare declaration).Occurs whole)
    (hcall : (Node.call name args).Occurs whole) : whole.Declares declaration := by
  cases hdeclare with
  | inside hchild hdeclare => exact ⟨_, hchild, hdeclare⟩
  | here =>
      -- A declaration alone has nothing below its root, so no call either.
      cases hcall with
      | inside hchild => cases hchild

/-- A function is less deep than the tree that declares it. -/
theorem Declares.declDepth_lt {node : Node} {declaration : Declaration Node}
    (hdeclares : node.Declares declaration) : declaration.body.declDepth < node.declDepth := by
  obtain ⟨child, hchild, hdeclare⟩ := hdeclares
  have hoccurs := declDepth_le_of_occurs (.inside hchild hdeclare)
  rw [declDepth_declare] at hoccurs
  exact hoccurs

namespace Nested

variable {program : Node} {active : List (Declaration Node)}

/-- Each active call takes away one level of nested declarations. -/
theorem length_add_declDepth_le (hnested : Nested program active) :
    active.length + (running program active).declDepth ≤ program.declDepth := by
  induction hnested with
  | nil => exact Nat.le_of_eq (Nat.zero_add _)
  | @cons declaration active hdeclares _ ih =>
      have hless : declaration.body.declDepth < (running program active).declDepth :=
        hdeclares.declDepth_lt
      simp only [List.length_cons, running]
      omega

/-- The innermost body is the least deep of all. -/
theorem declDepth_running_le (hnested : Nested program active) :
    ∀ outer ∈ active, (running program active).declDepth ≤ outer.body.declDepth := by
  induction hnested with
  | nil => exact nofun
  | @cons declaration active hdeclares _ ih =>
      intro outer houter
      rcases List.mem_cons.mp houter with rfl | houter
      · exact Nat.le_refl _
      · have hless := hdeclares.declDepth_lt
        have hrest := ih outer houter
        exact Nat.le_of_lt (Nat.lt_of_lt_of_le hless hrest)

/-- No function is active twice. -/
theorem nodup (hnested : Nested program active) : active.Nodup := by
  induction hnested with
  | nil => exact List.nodup_nil
  | @cons declaration active hdeclares hnested ih =>
      refine List.nodup_cons.mpr ⟨fun hmem => ?_, ih⟩
      have hless := hdeclares.declDepth_lt
      have hleast := hnested.declDepth_running_le declaration hmem
      omega

end Nested

/-! ### Watched and plain evaluation -/

/-- What a record says in the course of the given active calls: no call has been refused, and only
nested functions have been active. -/
structure Records (program : Node) (active : List (Declaration Node)) (host : σ)
    (watched : Watched σ) : Prop where
  host_eq : watched.host = host
  active_eq : watched.active = active
  not_refused : watched.refused = none
  nested : ∀ past ∈ watched.history, Nested program past

/-- The record goes on when other nested functions are active. -/
theorem Records.become {program : Node} {active other : List (Declaration Node)} {host : σ}
    {watched : Watched σ} (hrecords : Records program active host watched)
    (hother : Nested program other) : Records program other host (watched.become other) where
  host_eq := hrecords.host_eq
  active_eq := rfl
  not_refused := hrecords.not_refused
  nested := List.forall_mem_cons.mpr ⟨hother, hrecords.nested⟩

/-- Plain and watched evaluation in the course of the given active calls, in frames whose functions
stand in the tree `root`. -/
def watching (program root : Node) (active : List (Declaration Node)) :
    Coupling σ (Watched σ) where
  functions declaration := (Node.declare declaration).Occurs root
  hosts := Records program active
  halts _ := True

/-- Builtins do not notice that they are watched. -/
theorem watching_builtins (builtins : Builtins σ) (program root : Node)
    (active : List (Declaration Node)) :
    (watching program root active).SameBuiltins builtins builtins.watched := by
  intro name
  have hwatched : builtins.watched[name]? = builtins[name]?.map fun builtin =>
      ⟨builtin.name, fun values => Watched.onHost (builtin.run values)⟩ :=
    Std.TreeMap.getElem?_map
  cases hbuiltin : builtins[name]? with
  | none => exact Or.inl ⟨rfl, by rw [hwatched, hbuiltin]; rfl⟩
  | some builtin =>
      refine Or.inr ⟨builtin, _, rfl, by rw [hwatched, hbuiltin]; rfl, ?_⟩
      intro values host watched hrecords
      have hhost : watched.host = host := hrecords.host_eq
      -- The host becomes what it becomes unwatched; the record stays as it is.
      have hleft : ∀ after : σ, Records program active after { watched with host := after } :=
        fun after => ⟨rfl, hrecords.active_eq, hrecords.not_refused, hrecords.nested⟩
      cases hrun : builtin.run values host with
      | ok value after =>
          refine ⟨.ok value, after, _, hleft after, rfl, ?_⟩
          simp [Watched.onHost, hhost, hrun, HostM.ended]
      | error error after =>
          refine ⟨.error error, after, _, hleft after, rfl, ?_⟩
          simp [Watched.onHost, hhost, hrun, HostM.ended]

/-- A call within the limit is not refused, and while it runs one more function is active. -/
theorem entering_coupled {program root : Node} {active : List (Declaration Node)}
    {declaration : Declaration Node} {limit : Nat} (hlimit : active.length < limit)
    (hactive : Nested program active) (hnested : Nested program (declaration :: active))
    {call : EvalM σ Value} {callWatched : EvalM (Watched σ) Value}
    (hcall : (watching program root (declaration :: active)).Coupled call callWatched) :
    (watching program root active).Coupled call
      (Watched.entering limit declaration callWatched) := by
  intro frame host watched hframe hrecords
  have houtside : watched.active = active := hrecords.active_eq
  obtain ⟨stop, after, left, left', hafter, hleft, hhalts, hplain, hwatched⟩ :=
    hcall hframe (hrecords.become hnested)
  refine ⟨stop, after, left, left'.become active, hafter, hleft.become hactive, hhalts, hplain, ?_⟩
  cases stop with
  | ok value => simp [Watched.entering, houtside, hlimit, hwatched, EvalM.stopped]
  | error halt => simp [Watched.entering, houtside, hlimit, hwatched, EvalM.stopped]

/-- **Watched evaluation goes like plain evaluation**, if the limit is no less than the depth of the
declarations.  The induction is on the fuel; a call goes over from the running tree to the body of a
function that is declared in it. -/
theorem evalWatched_coupled (builtins : Builtins σ) {program : Node} {limit : Nat}
    (hlimit : program.declDepth ≤ limit) (fuel : Nat) {active : List (Declaration Node)}
    (hactive : Nested program active) {node : Node}
    (hnode : node.Occurs (running program active)) :
    (watching program (running program active) active).Coupled (node.eval builtins fuel)
      (node.evalWatched builtins.watched limit fuel) := by
  induction fuel generalizing active node with
  | zero => exact .halt trivial
  | succ fuel ih =>
      rw [eval, evalWith_eq_layerWith, evalWatched]
      refine layerWith_coupled (fun _ _ => trivial) (watching_builtins builtins program _ active)
        ?_ ?_ (fun _ _ _ => trivial) ?_
      · intro child hchild
        exact ih hactive (Occurs.trans (.inside hchild .here) hnode)
      · intro declaration hdeclare
        rw [hdeclare] at hnode
        exact hnode
      · intro name args hcall declaration hdeclared values
        have hdeclares : (running program active).Declares declaration :=
          declares_of_occurs hdeclared (hcall ▸ hnode)
        have hnested : Nested program (declaration :: active) := .cons hdeclares hactive
        have hroom : active.length < limit := by
          have hdepth := hnested.length_add_declDepth_le
          rw [List.length_cons] at hdepth
          omega
        have hbody : (watching program declaration.body (declaration :: active)).Coupled
            (declaration.body.eval builtins fuel)
            (declaration.body.evalWatched builtins.watched limit fuel) := ih hnested .here
        have hrun : (watching program (running program active) (declaration :: active)).Coupled
            (callWith (eval builtins fuel) declaration values)
            (callWith (evalWatched builtins.watched limit fuel) declaration values) := by
          refine callWith_coupled hbody ?_ ?_ ?_ values
          · exact fun _ _ hhosts => hhosts
          · exact fun _ _ hhosts => hhosts
          · exact fun _ _ => trivial
        exact entering_coupled hroom hactive hnested hrun

/-- **Active calls are nested declarations.**  Take any program, builtins and host, and a run of the
program in a fresh frame.  At every moment of the run each active function is declared in the body
of the one that called it, and the outermost in the program; no function is active twice; and no
more functions are active than declarations are nested in the program.  So an evaluation with that
limit on active calls, or a larger one, refuses no call and ends as evaluation does. -/
theorem active_calls_nested (builtins : Builtins σ) (program : Node) (host : σ) (fuel limit : Nat)
    (hlimit : program.declDepth ≤ limit) :
    program.evalLimited builtins limit fuel ⟨{}, host⟩ =
        .ok (program.eval builtins fuel ⟨{}, host⟩) ∧
      ∀ active ∈ program.callHistory builtins limit fuel ⟨{}, host⟩,
        Nested program active ∧ active.Nodup ∧ active.length ≤ program.declDepth := by
  have hstart : Records program [] host { host := host } :=
    ⟨rfl, rfl, rfl, by simpa using Nested.nil⟩
  have hcoupled : (watching program program []).Coupled (program.eval builtins fuel)
      (program.evalWatched builtins.watched limit fuel) :=
    evalWatched_coupled builtins hlimit fuel .nil .here
  obtain ⟨stop, after, left, left', -, hleft, -, hplain, hwatched⟩ :=
    hcoupled Frame.allFunctions_empty hstart
  have hleftBy : Watched.left (EvalM.stopped stop ⟨after, left'⟩) = left' := by
    cases stop <;> rfl
  refine ⟨?_, fun active hactive => ?_⟩
  · have hforget : Watched.forget (EvalM.stopped stop ⟨after, left'⟩) =
        EvalM.stopped stop ⟨after, left⟩ := by
      cases stop <;> simp [EvalM.stopped, Watched.forget, hleft.host_eq]
    simp only [evalLimited, hwatched, hleftBy, hleft.not_refused, hforget, hplain]
  · rw [callHistory, hwatched, hleftBy] at hactive
    have hnested := hleft.nested active hactive
    have hdepth := hnested.length_add_declDepth_le
    exact ⟨hnested, hnested.nodup, by omega⟩

/-- A function whose body declares and calls another function of the same name. -/
def callsNamesake : Node :=
  .program
    [.declare ⟨"f", ["n"], .block
      [.declare ⟨"f", ["n"], .block [.ret (.binary (.read "n") .plus (.integer 1))]⟩,
        .ret (.call "f" [.call "f" [.read "n"]])]⟩,
      .assign "x" (.call "f" [.integer 5])]

/-- Two calls are active at one time of this run, and they are calls of different functions.  With a
limit of two the run ends as without. -/
theorem callsNamesake_active_calls :
    callsNamesake.declDepth = 2 ∧
      callsNamesake.evalLimited (∅ : Builtins Unit) 2 20 ⟨{}, ()⟩ =
        .ok (callsNamesake.eval ∅ 20 ⟨{}, ()⟩) ∧
      ∃ active ∈ callsNamesake.callHistory (∅ : Builtins Unit) 2 20 ⟨{}, ()⟩,
        active.length = 2 ∧ Nested callsNamesake active ∧ active.Nodup := by
  have hdepth : callsNamesake.declDepth = 2 := by decide
  obtain ⟨hended, hnested⟩ :=
    active_calls_nested (∅ : Builtins Unit) callsNamesake () 20 2 (Nat.le_of_eq hdepth)
  have hdeepest : (callsNamesake.callHistory (∅ : Builtins Unit) 2 20 ⟨{}, ()⟩).any
      (fun active => active.length == 2) = true := by rfl
  obtain ⟨active, hactive, hlength⟩ := List.any_eq_true.mp hdeepest
  obtain ⟨hchain, hnodup, -⟩ := hnested active hactive
  exact ⟨hdepth, hended, active, hactive, beq_iff_eq.mp hlength, hchain, hnodup⟩

/-- With a limit of one, the inner call is refused. -/
example : ∃ refused, callsNamesake.evalLimited (∅ : Builtins Unit) 1 20 ⟨{}, ()⟩ = .error refused :=
  ⟨_, rfl⟩

end Node

end FlatScript
