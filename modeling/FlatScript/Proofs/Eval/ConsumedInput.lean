import FlatScript.Proofs.Eval.Completion
import FlatScript.Proofs.Eval.CutShort

/-!
# Output and consumed input

With the standard builtins a run appends to the output of its host and takes lines off the front of
its input.  What was written before it does not matter to the run, and neither do the lines that it
leaves: it goes the same way with any other lines in their place.

There is one exception.  A run that fails since the input has ended does see that there is nothing
behind what it has consumed.  With more input it goes on instead, and writes more.
-/

namespace FlatScript

/-- A host with an output and lines to read, which takes any number of writes. -/
abbrev MemoryHost.holding (output : String) (input : List String) : MemoryHost :=
  ⟨output, input, none⟩

open MemoryHost (holding)

namespace Reading

variable (output output' : String) (lines more : List String)

/-- The second run starts with an output of its own, and has more lines behind those of the first.
The first is cut short when it asks for a line behind its own; the second then takes that line. -/
def cutting : Cutting MemoryHost MemoryHost where
  hosts host host' := ∃ written consumed rest, lines = consumed ++ rest ∧
    host = holding (output ++ written) rest ∧ host' = holding (output' ++ written) (rest ++ more)
  reason := .endOfInput
  since _ left host' := ∃ written further taken rest, left = holding (output ++ written) [] ∧
    host' = holding (output' ++ written ++ further) rest ∧ taken ≠ [] ∧ more = taken ++ rest

/-- Writing does not depend on the input. -/
theorem cutShort_write (text : String) :
    (cutting output output' lines more).CutShort
      (EvalM.onHost (Host.write text)) (EvalM.onHost (Host.write text)) := by
  refine Cutting.CutShort.onHost ?_ ?_
  · rintro _ _ ⟨written, consumed, rest, hlines, rfl, rfl⟩
    refine Or.inl ⟨.ok (), _, _, ⟨written ++ text, consumed, rest, hlines, ?_, ?_⟩, rfl, rfl⟩
    · rw [← String.append_assoc]
    · rw [← String.append_assoc]
  · rintro _ left _ ⟨written, further, taken, rest, hleft, rfl, htaken, hmore⟩
    refine ⟨written, further ++ text, taken, rest, hleft, ?_, htaken, hmore⟩
    rw [← String.append_assoc]
    rfl

/-- Asking for a line cuts a run short if the lines are used up. -/
theorem cutShort_nextLine :
    (cutting output output' lines more).CutShort
      (EvalM.onHost Builtin.nextLine) (EvalM.onHost Builtin.nextLine) := by
  refine Cutting.CutShort.onHost ?_ ?_
  · rintro _ _ ⟨written, consumed, rest, hlines, rfl, rfl⟩
    cases rest with
    | cons line rest =>
        refine Or.inl ⟨.ok (.str line), _, _, ⟨written, consumed ++ [line], rest, ?_, rfl, rfl⟩,
          rfl, rfl⟩
        rw [hlines, List.append_assoc, List.singleton_append]
    | nil =>
        cases more with
        | nil =>
            exact Or.inl ⟨.error .endOfInput, _, _, ⟨written, consumed, [], hlines, rfl, rfl⟩, rfl,
              rfl⟩
        | cons line more =>
            refine Or.inr ⟨_, rfl, fun _ => ?_⟩
            exact ⟨written, "", [line], more, rfl, by rw [String.append_empty]; rfl, nofun, rfl⟩
  · rintro _ left _ ⟨written, further, taken, rest, hleft, rfl, htaken, hmore⟩
    cases rest with
    | nil => exact ⟨written, further, taken, [], hleft, rfl, htaken, hmore⟩
    | cons line rest =>
        refine ⟨written, further, taken ++ [line], rest, hleft, rfl, by simp, ?_⟩
        rw [hmore, List.append_assoc, List.singleton_append]

/-- A whole evaluation is cut short at most where a line is missing. -/
theorem cutShort_eval (fuel : Nat) (node : Node) :
    (cutting output output' lines more).CutShort
      (node.eval Builtins.standard fuel) (node.eval Builtins.standard fuel) := by
  let related := (cutting output output' lines more).congruence
  have hbuiltins : related.SameBuiltins Builtins.standard Builtins.standard :=
    related.standard (cutShort_write output output' lines more)
      (cutShort_nextLine output output' lines more)
  exact related.eval hbuiltins (fun _ error _ => Cutting.CutShort.halt (.failed error))
    (Cutting.CutShort.halt .outOfFuel) Cutting.CutShort.update
    (fun start _ _ hrun => Cutting.CutShort.inFrame (fun _ _ _ _ hsince => hsince) start hrun)
    fuel node

/-- To begin with, nothing has been written or consumed. -/
theorem cutting_start :
    (cutting output output' lines more).hosts (holding output lines)
      (holding output' (lines ++ more)) := by
  refine ⟨"", [], lines, rfl, ?_, ?_⟩
  · rw [String.append_empty]
  · rw [String.append_empty]

end Reading

namespace Node

variable {node : Node} {fuel : Nat} {frame after : Frame} {output written : String}
  {consumed rest : List String} {outcome : Except EvalError Value}

/-- An evaluation appends to the output and takes lines off the front of the input. -/
theorem eval_appends_and_consumes {lines : List String} {left : State MemoryHost}
    (heval : node.eval Builtins.standard fuel ⟨frame, holding output lines⟩ =
      EvalM.ended outcome left) :
    ∃ written consumed rest, lines = consumed ++ rest ∧
      left.host = holding (output ++ written) rest := by
  have hshort := Reading.cutShort_eval output output lines [] fuel node
  rcases hshort.ended (Reading.cutting_start output output lines []) heval with
    ⟨_, ⟨written, consumed, rest, hlines, hleft, -⟩, -⟩ |
    ⟨-, _, _, taken, rest, -, -, htaken, hmore⟩
  · exact ⟨written, consumed, rest, hlines, hleft⟩
  · exact absurd (List.append_eq_nil_iff.mp hmore.symm).1 htaken

/-- The lines that an evaluation leaves can be taken away: the lines that it consumes are enough. -/
theorem eval_of_consumed
    (heval : node.eval Builtins.standard fuel ⟨frame, holding output (consumed ++ rest)⟩ =
      EvalM.ended outcome ⟨after, holding (output ++ written) rest⟩) :
    node.eval Builtins.standard fuel ⟨frame, holding output consumed⟩ =
      EvalM.ended outcome ⟨after, holding (output ++ written) []⟩ := by
  have hshort := Reading.cutShort_eval output output consumed rest fuel node
  rcases hshort.ended_other (Reading.cutting_start output output consumed rest) heval with
    ⟨left, ⟨written', _, unread, -, rfl, hleft⟩, hfirst⟩ |
    ⟨_, _, -, _, _, taken, unread, -, hleft, htaken, hmore⟩
  · injection hleft with houtput hinput
    have hunread : unread = [] := List.self_eq_append_left.mp hinput
    rw [hfirst, ← houtput, hunread]
  · -- Cut short, it would have left lines of which the other run has taken some.
    injection hleft with _ hinput
    rw [← hinput] at hmore
    exact absurd (List.self_eq_append_left.mp hmore) htaken

/-- With other lines behind those that it consumes, an evaluation goes the same way; or it had
failed for want of a line, and then what it has written is written all the same. -/
theorem eval_with_more
    (heval : node.eval Builtins.standard fuel ⟨frame, holding output consumed⟩ =
      EvalM.ended outcome ⟨after, holding (output ++ written) []⟩)
    (output' : String) (more : List String) :
    node.eval Builtins.standard fuel ⟨frame, holding output' (consumed ++ more)⟩ =
        EvalM.ended outcome ⟨after, holding (output' ++ written) more⟩ ∨
      outcome = .error (.host .endOfInput) ∧ more ≠ [] ∧
        ∃ further, (EvalM.left (node.eval Builtins.standard fuel
            ⟨frame, holding output' (consumed ++ more)⟩)).host.output =
          output' ++ written ++ further := by
  have hshort := Reading.cutShort_eval output output' consumed more fuel node
  rcases hshort.ended (Reading.cutting_start output output' consumed more) heval with
    ⟨_, ⟨written', _, unread, -, hleft, rfl⟩, hsecond⟩ |
    ⟨houtcome, written', further, taken, unread, hleft, hhost, htaken, hmore⟩
  · injection hleft with houtput hinput
    have hwritten : written = written' := (String.append_right_inj output).mp houtput
    rw [hwritten, hsecond, ← hinput, List.nil_append]
    exact Or.inl rfl
  · injection hleft with houtput
    have hwritten : written = written' := (String.append_right_inj output).mp houtput
    refine Or.inr ⟨houtcome, ?_, further, ?_⟩
    · rintro rfl
      exact htaken (List.append_eq_nil_iff.mp hmore.symm).1
    · rw [hhost, hwritten]

end Node

/-! ### The end of the input -/

/-- Failing for want of a line only when there is none. -/
def exhausting : Congruence MemoryHost MemoryHost where
  Rel run _ := ∀ state after, run state = .error (.failed (.host .endOfInput)) after →
    after.host.input = []
  rel_pure _ _ _ := nofun
  rel_bind {_ _ run _ next _} hrun hnext state after hends := by
    cases hfirst : run state with
    | ok value middle =>
        rw [EvalM.bind_of_ok hfirst] at hends
        exact hnext value middle after hends
    | error halt middle =>
        rw [EvalM.bind_of_error hfirst] at hends
        cases hends
        exact hrun state after hfirst
  rel_look hnext state after := hnext state.frame trivial state after

/-- **The input has ended if a run fails since it has.** -/
theorem Node.eval_exhausting (fuel : Nat) (node : Node) :
    exhausting.Rel (node.eval Builtins.standard fuel) (node.eval Builtins.standard fuel) := by
  have hwrite (text : String) : exhausting.Rel
      (EvalM.onHost (Host.write text)) (EvalM.onHost (Host.write text)) := by
    rintro ⟨frame, ⟨output, lines, writesLeft⟩⟩ after hends
    rcases writesLeft with _ | _ | writesLeft <;> cases hends
  have hline : exhausting.Rel
      (EvalM.onHost Builtin.nextLine) (EvalM.onHost Builtin.nextLine) := by
    rintro ⟨frame, ⟨output, lines, writesLeft⟩⟩ after hends
    cases lines with
    | nil =>
        cases hends
        rfl
    | cons line lines => cases hends
  refine exhausting.eval (exhausting.standard hwrite hline) ?_ ?_ ?_ ?_ fuel node
  · intro α error hhost state after hends
    cases hends
    exact absurd rfl (hhost .endOfInput)
  · intro state after hends
    cases hends
  · intro update state after hends
    cases hends
  · intro start run _ hrun state after hends
    unfold EvalM.inFrame at hends
    cases hfirst : run { state with frame := start } with
    | ok value middle =>
        rw [hfirst] at hends
        cases hends
    | error halt middle =>
        rw [hfirst] at hends
        cases hends
        exact hrun { state with frame := start } middle hfirst

/-- **A run depends only on the input that it consumes.**  It appends to the output and takes lines
off the front of the input.  With another output before, and other lines behind those that it
consumes, it completes in the same way, appends the same text and leaves the other lines; unless it
fails since the input has ended, and there are other lines.  Then it has left none itself, and with
them any run that completes begins by writing the same text. -/
theorem run_depends_on_consumed_input (node : Node) (frame : Frame) (output : String)
    (lines : List String) (outcome : Except EvalError Value) (after : State MemoryHost)
    (hrun : node.Completes Builtins.standard ⟨frame, holding output lines⟩ outcome after) :
    ∃ written consumed rest,
      after.host = holding (output ++ written) rest ∧ lines = consumed ++ rest ∧
      (∀ output' more, outcome ≠ .error (.host .endOfInput) ∨ more = [] →
        node.Completes Builtins.standard ⟨frame, holding output' (consumed ++ more)⟩ outcome
          ⟨after.frame, holding (output' ++ written) more⟩) ∧
      (outcome = .error (.host .endOfInput) → rest = [] ∧
        ∀ output' more outcome' after',
          node.Completes Builtins.standard ⟨frame, holding output' (consumed ++ more)⟩ outcome'
            after' →
          ∃ further, after'.host.output = output' ++ written ++ further) := by
  obtain ⟨fuel, heval⟩ := hrun
  obtain ⟨written, consumed, rest, rfl, hhost⟩ := Node.eval_appends_and_consumes heval
  obtain ⟨own, host⟩ := after
  obtain rfl : host = holding (output ++ written) rest := hhost
  have hexact := Node.eval_of_consumed heval
  refine ⟨written, consumed, rest, rfl, rfl, ?_, ?_⟩
  · intro output' more hsees
    rcases Node.eval_with_more hexact output' more with hmore | ⟨hends, hmore, -⟩
    · exact ⟨fuel, hmore⟩
    · rcases hsees with hother | hnone
      · exact absurd hends hother
      · exact absurd hnone hmore
  · rintro rfl
    refine ⟨Node.eval_exhausting fuel node _ _ heval, ?_⟩
    rintro output' more outcome' after' ⟨fuel', heval'⟩
    -- With the larger amount of fuel both runs end as they did.
    have hmax := (Node.eval_alike Builtins.standard (Nat.le_max_left fuel fuel') node).ended_again
      hexact
    have hmax' := (Node.eval_alike Builtins.standard (Nat.le_max_right fuel fuel') node).ended_again
      heval'
    rcases Node.eval_with_more hmax output' more with hsame | ⟨-, -, further, houtput⟩
    · obtain ⟨-, rfl⟩ := EvalM.ended_inj (hmax'.symm.trans hsame)
      exact ⟨"", by rw [String.append_empty]⟩
    · rw [hmax', EvalM.left_ended] at houtput
      exact ⟨further, houtput⟩

/-- A choice whose predicate asks for a line.  If the line fits it is asked for once more. -/
def asksTwice : Node :=
  .choice ⟨.binary (.call "input" [.string "?"]) .equal (.string "y"),
    .block [.call "print" [.string "first"]]⟩ [] ⟨.bool true, .block []⟩

/-- The choice consumes two lines, whatever else there is.  With one line only it fails after it has
asked twice, and with any others behind that one it asks twice as well. -/
theorem asksTwice_depends_on_consumed_lines :
    asksTwice.Completes Builtins.standard ⟨{}, holding "" ["y", "y", "z"]⟩ (.ok .none)
        ⟨{}, holding "??first\n" ["z"]⟩ ∧
      (∀ output' more, asksTwice.Completes Builtins.standard
        ⟨{}, holding output' ("y" :: "y" :: more)⟩ (.ok .none)
        ⟨{}, holding (output' ++ "??first\n") more⟩) ∧
      asksTwice.Completes Builtins.standard ⟨{}, holding "" ["y"]⟩ (.error (.host .endOfInput))
        ⟨{}, holding "??" []⟩ ∧
      ∀ output' more outcome' after',
        asksTwice.Completes Builtins.standard ⟨{}, holding output' ("y" :: more)⟩ outcome' after' →
        ∃ further, after'.host.output = output' ++ "??" ++ further := by
  have htwo : asksTwice.Completes Builtins.standard ⟨{}, holding "" ["y", "y", "z"]⟩ (.ok .none)
      ⟨{}, holding "??first\n" ["z"]⟩ := ⟨6, rfl⟩
  have hone : asksTwice.Completes Builtins.standard ⟨{}, holding "" ["y"]⟩
      (.error (.host .endOfInput)) ⟨{}, holding "??" []⟩ := ⟨6, rfl⟩
  refine ⟨htwo, ?_, hone, ?_⟩
  · obtain ⟨written, consumed, rest, hhost, hlines, hmore, -⟩ :=
      run_depends_on_consumed_input _ _ _ _ _ _ htwo
    injection hhost with houtput hinput
    rw [String.empty_append] at houtput
    subst houtput hinput
    obtain rfl : ["y", "y"] = consumed := List.append_cancel_right hlines
    exact fun output' more => hmore output' more (Or.inl nofun)
  · obtain ⟨written, consumed, rest, hhost, hlines, -, hends⟩ :=
      run_depends_on_consumed_input _ _ _ _ _ _ hone
    injection hhost with houtput hinput
    rw [String.empty_append] at houtput
    subst houtput hinput
    obtain rfl : ["y"] = consumed := by rw [hlines, List.append_nil]
    exact (hends rfl).2

end FlatScript
