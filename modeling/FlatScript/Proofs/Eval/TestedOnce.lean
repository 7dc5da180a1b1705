import FlatScript.Proofs.Trees.Choices

/-!
# Testing a predicate once more

Evaluation finds the branch of a choice by testing predicates, and then runs this branch, which
tests its predicate a second time.  `ChoosesOnce` is the meaning that one expects instead: the
predicates are tested in order and each of them once, up to the first that is true, and the body of
that branch runs, or the body of the last branch if there is none.

The two are the same unless the predicate of the branch that is taken acts on the host.  A predicate
leaves the frame as it was, whatever the functions that it calls assign, declare and return; so if
the host is as before too, then the second test starts where the first did, and comes to the same.
-/

namespace FlatScript

namespace EvalM

variable {σ α β : Type}

/-- Two actions in a row end if the first succeeds and the second ends, or if the first fails. -/
theorem bind_eq_ended {run : EvalM σ α} {next : α → EvalM σ β} {state after : State σ}
    {outcome : Except EvalError β} :
    (run >>= next) state = ended outcome after ↔
      (∃ value middle, run state = .ok value middle ∧ next value middle = ended outcome after) ∨
        ∃ error, outcome = .error error ∧ run state = ended (.error error) after := by
  cases hrun : run state with
  | ok value middle =>
      rw [bind_of_ok hrun]
      constructor
      · intro hnext
        exact Or.inl ⟨value, middle, rfl, hnext⟩
      · rintro (⟨_, _, ⟨⟩, hnext⟩ | ⟨error, -, herror⟩)
        · exact hnext
        · cases herror
  | error halt middle =>
      rw [bind_of_error hrun]
      constructor
      · intro hended
        cases outcome with
        | ok value => cases hended
        | error error =>
            cases hended
            exact Or.inr ⟨error, rfl, rfl⟩
      · rintro (⟨_, _, hok, -⟩ | ⟨error, rfl, herror⟩)
        · cases hok
        · cases herror
          rfl

end EvalM

namespace Node

variable {σ : Type} {builtins : Builtins σ}

/-- From some amount of fuel on, an evaluation that completes ends as it does. -/
theorem Completes.eventually {node : Node} {state after : State σ}
    {outcome : Except EvalError Value} (hcompletes : node.Completes builtins state outcome after) :
    ∃ enough, ∀ fuel, enough ≤ fuel →
      node.eval builtins fuel state = EvalM.ended outcome after := by
  obtain ⟨enough, heval⟩ := hcompletes
  exact ⟨enough, fun fuel hfuel => (eval_alike builtins hfuel node).ended_again heval⟩

/-! ### Each predicate once -/

/-- **What a choice means if each predicate is tested once.**  `otherwise` is the body that runs if
no predicate is true. -/
inductive ChoosesOnce (builtins : Builtins σ) (otherwise : Node) :
    List (Branch Node) → State σ → Except EvalError Value → State σ → Prop
  /-- No predicate is true. -/
  | none {state after : State σ} {outcome : Except EvalError Value}
      (hbody : otherwise.Completes builtins state outcome after) :
      ChoosesOnce builtins otherwise [] state (outcome.map fun _ => .none) after
  /-- The predicate is true. -/
  | taken {branch : Branch Node} {branches : List (Branch Node)} {state middle after : State σ}
      {outcome : Except EvalError Value}
      (htest : branch.predicate.Completes builtins state (.ok (.bool true)) middle)
      (hbody : branch.body.Completes builtins middle outcome after) :
      ChoosesOnce builtins otherwise (branch :: branches) state (outcome.map fun _ => .none) after
  /-- The predicate is false. -/
  | passed {branch : Branch Node} {branches : List (Branch Node)} {state middle after : State σ}
      {outcome : Except EvalError Value}
      (htest : branch.predicate.Completes builtins state (.ok (.bool false)) middle)
      (hmore : ChoosesOnce builtins otherwise branches middle outcome after) :
      ChoosesOnce builtins otherwise (branch :: branches) state outcome after
  /-- The predicate fails. -/
  | failed {branch : Branch Node} {branches : List (Branch Node)} {state after : State σ}
      {error : EvalError} (htest : branch.predicate.Completes builtins state (.error error) after) :
      ChoosesOnce builtins otherwise (branch :: branches) state (.error error) after
  /-- The predicate is no truth value. -/
  | untrue {branch : Branch Node} {branches : List (Branch Node)} {state after : State σ}
      {value : Value} (htest : branch.predicate.Completes builtins state (.ok value) after)
      (hvalue : ∀ truth, value ≠ .bool truth) :
      ChoosesOnce builtins otherwise (branch :: branches) state
        (.error (.typeMismatch (.condition value.type))) after

/-- `Selects builtins branches state branch before after`: of the branches, `branch` is the first
whose predicate is true, and its first test leads from the state `before` to the state `after`. -/
inductive Selects (builtins : Builtins σ) :
    List (Branch Node) → State σ → Branch Node → State σ → State σ → Prop
  | here {branch : Branch Node} {branches : List (Branch Node)} {state after : State σ}
      (htest : branch.predicate.Completes builtins state (.ok (.bool true)) after) :
      Selects builtins (branch :: branches) state branch state after
  | later {branch chosen : Branch Node} {branches : List (Branch Node)}
      {state middle before after : State σ}
      (htest : branch.predicate.Completes builtins state (.ok (.bool false)) middle)
      (hmore : Selects builtins branches middle chosen before after) :
      Selects builtins (branch :: branches) state chosen before after

/-- The test of the branch that is taken, if there is one, leaves the host as it was. -/
def Quiet (builtins : Builtins σ) (branches : List (Branch Node)) (state : State σ) : Prop :=
  ∀ branch before after, Selects builtins branches state branch before after →
    after.host = before.host

/-- A choice stays quiet behind a branch whose predicate is false. -/
theorem Quiet.later {branch : Branch Node} {branches : List (Branch Node)} {state middle : State σ}
    (hquiet : Quiet builtins (branch :: branches) state)
    (htest : branch.predicate.Completes builtins state (.ok (.bool false)) middle) :
    Quiet builtins branches middle :=
  fun chosen before after hselects => hquiet chosen before after (.later htest hselects)

/-- The predicate of the branch that is taken leaves the whole state as it was. -/
theorem Quiet.state_eq {branch : Branch Node} {branches : List (Branch Node)}
    {state after : State σ} (hquiet : Quiet builtins (branch :: branches) state)
    (hvalue : branch.predicate.IsValueTree)
    (htest : branch.predicate.Completes builtins state (.ok (.bool true)) after) :
    after = state := by
  have hhost := hquiet branch state after (.here htest)
  have hframe := htest.frame_eq hvalue
  obtain ⟨frame, host⟩ := after
  cases hframe
  cases hhost
  rfl

/-! ### Tests -/

/-- What a test makes of how its predicate has completed. -/
def truthOf : Except EvalError Value → Except EvalError Bool
  | .ok (.bool truth) => .ok truth
  | .ok value => .error (.typeMismatch (.condition value.type))
  | .error error => .error error

/-- What has a truth value is a truth value. -/
theorem truthOf_eq_ok {result : Except EvalError Value} {truth : Bool}
    (hresult : truthOf result = .ok truth) : result = .ok (.bool truth) := by
  cases result with
  | error error => cases hresult
  | ok value =>
      cases value with
      | bool found =>
          cases hresult
          rfl
      | int | str | none => cases hresult

/-- A test fails if its predicate does, or if this is no truth value. -/
theorem truthOf_eq_error {result : Except EvalError Value} {error : EvalError}
    (hresult : truthOf result = .error error) :
    result = .error error ∨ ∃ value, result = .ok value ∧ (∀ truth, value ≠ .bool truth) ∧
      error = .typeMismatch (.condition value.type) := by
  cases result with
  | error found =>
      cases hresult
      exact Or.inl rfl
  | ok value =>
      cases value with
      | bool truth => cases hresult
      | int | str | none =>
          cases hresult
          refine Or.inr ⟨_, rfl, ?_, rfl⟩
          intro truth hvalue
          cases hvalue

/-- A test ends where its predicate does. -/
theorem testWith_of_ended {eval : Node → EvalM σ Value} {predicate : Node} {state after : State σ}
    {result : Except EvalError Value} (heval : eval predicate state = EvalM.ended result after) :
    testWith eval predicate state = EvalM.ended (truthOf result) after := by
  cases result with
  | error error => exact EvalM.bind_of_error heval _
  | ok value =>
      rw [testWith, EvalM.bind_of_ok heval]
      cases value <;> rfl

/-- A test that ends has a predicate that completes. -/
theorem completes_of_testWith {fuel : Nat} {predicate : Node} {state after : State σ}
    {outcome : Except EvalError Bool}
    (htest : testWith (eval builtins fuel) predicate state = EvalM.ended outcome after) :
    ∃ result, truthOf result = outcome ∧ predicate.Completes builtins state result after := by
  have hknown : ∀ result middle, predicate.eval builtins fuel state = EvalM.ended result middle →
      ∃ result, truthOf result = outcome ∧ predicate.Completes builtins state result after := by
    intro result middle heval
    obtain ⟨rfl, rfl⟩ := EvalM.ended_inj (htest.symm.trans (testWith_of_ended heval))
    exact ⟨result, rfl, fuel, heval⟩
  cases heval : predicate.eval builtins fuel state with
  | ok value middle => exact hknown (.ok value) middle heval
  | error halt middle =>
      cases halt with
      | failed error => exact hknown (.error error) middle heval
      | outOfFuel =>
          rw [testWith, EvalM.bind_of_error heval] at htest
          exact absurd htest.symm EvalM.ended_ne_outOfFuel

/-- Running a branch whose predicate is true is running its body. -/
theorem runBranchWith_of_true {eval : Node → EvalM σ Value} {branch : Branch Node}
    {state middle : State σ} (htest : eval branch.predicate state = .ok (.bool true) middle) :
    runBranchWith eval branch state = (eval branch.body >>= fun _ => pure .none) middle := by
  have hended : eval branch.predicate state = EvalM.ended (.ok (.bool true)) middle := htest
  have htrue : testWith eval branch.predicate state = .ok true middle := testWith_of_ended hended
  rw [runBranchWith, EvalM.bind_of_ok htrue]
  rfl

/-- The value of a body is dropped. -/
theorem dropped_eq_ended {run : EvalM σ Value} {state after : State σ}
    {outcome : Except EvalError Value} :
    (run >>= fun _ => pure .none) state = EvalM.ended outcome after ↔
      ∃ result, outcome = result.map (fun _ => Value.none) ∧
        run state = EvalM.ended result after := by
  rw [EvalM.bind_eq_ended]
  constructor
  · rintro (⟨value, middle, hrun, hpure⟩ | ⟨error, rfl, hrun⟩)
    · have hended : EvalM.ended (.ok Value.none) middle = EvalM.ended outcome after := hpure
      obtain ⟨rfl, rfl⟩ := EvalM.ended_inj hended
      exact ⟨.ok value, rfl, hrun⟩
    · exact ⟨.error error, rfl, hrun⟩
  · rintro ⟨result, rfl, hrun⟩
    cases result with
    | ok value => exact Or.inl ⟨value, after, hrun, rfl⟩
    | error error => exact Or.inr ⟨error, rfl, hrun⟩

/-! ### Once or twice -/

/-- The last branch of a choice is run without regard to its predicate. -/
theorem runBranchWith_last {last : Branch Node} (hlast : last.predicate = .bool true) (fuel : Nat)
    (state : State σ) :
    runBranchWith (eval builtins fuel) last state =
      (last.body.eval builtins fuel >>= fun _ => pure .none) state := by
  cases fuel with
  | zero =>
      rw [runBranchWith, testWith, hlast]
      rfl
  | succ fuel =>
      refine runBranchWith_of_true ?_
      rw [hlast]
      rfl

section Choice

variable {last : Branch Node} {branches : List (Branch Node)}

/-- A test that succeeds has a predicate with that truth value. -/
theorem completes_of_test {fuel : Nat} {predicate : Node} {state after : State σ} {truth : Bool}
    (htest : testWith (eval builtins fuel) predicate state = .ok truth after) :
    predicate.Completes builtins state (.ok (.bool truth)) after := by
  have hended : testWith (eval builtins fuel) predicate state =
      EvalM.ended (.ok truth) after := htest
  obtain ⟨result, hresult, hcompletes⟩ := completes_of_testWith hended
  rwa [truthOf_eq_ok hresult] at hcompletes

/-- A choice that ends has chosen as if it had tested each predicate once. -/
theorem choosesOnce_of_run {fuel : Nat} {state after : State σ} {outcome : Except EvalError Value}
    (hvalues : ∀ branch ∈ branches, branch.predicate.IsValueTree)
    (hlast : last.predicate = .bool true) (hquiet : Quiet builtins branches state)
    (hrun : runChoiceWith (eval builtins fuel) last branches state = EvalM.ended outcome after) :
    ChoosesOnce builtins last.body branches state outcome after := by
  induction branches generalizing state with
  | nil =>
      rw [runChoiceWith, runBranchWith_last hlast, dropped_eq_ended] at hrun
      obtain ⟨result, rfl, hbody⟩ := hrun
      exact .none ⟨fuel, hbody⟩
  | cons branch branches ih =>
      obtain ⟨hvalue, hvalues⟩ := List.forall_mem_cons.mp hvalues
      rw [runChoiceWith, EvalM.bind_eq_ended] at hrun
      rcases hrun with ⟨truth, middle, htest, hrest⟩ | ⟨error, rfl, htest⟩
      · have hcompletes := completes_of_test htest
        cases truth with
        | false => exact .passed hcompletes (ih hvalues (hquiet.later hcompletes) hrest)
        | true =>
            -- The second test starts where the first did.
            obtain rfl := hquiet.state_eq hvalue hcompletes
            rw [if_pos rfl, runBranchWith, EvalM.bind_of_ok htest] at hrest
            obtain ⟨result, rfl, hbody⟩ := dropped_eq_ended.mp hrest
            exact .taken hcompletes ⟨fuel, hbody⟩
      · obtain ⟨result, hresult, hcompletes⟩ := completes_of_testWith htest
        rcases truthOf_eq_error hresult with rfl | ⟨value, rfl, hvalue, rfl⟩
        · exact .failed hcompletes
        · exact .untrue hcompletes hvalue

/-- A choice that tests each predicate once is what the evaluation comes to, from some amount of
fuel on. -/
theorem ChoosesOnce.run {state after : State σ} {outcome : Except EvalError Value}
    (hvalues : ∀ branch ∈ branches, branch.predicate.IsValueTree)
    (hlast : last.predicate = .bool true) (hquiet : Quiet builtins branches state)
    (hchooses : ChoosesOnce builtins last.body branches state outcome after) :
    ∃ enough, ∀ fuel, enough ≤ fuel →
      runChoiceWith (eval builtins fuel) last branches state = EvalM.ended outcome after := by
  induction hchooses with
  | none hbody =>
      obtain ⟨enough, hended⟩ := hbody.eventually
      refine ⟨enough, fun fuel hfuel => ?_⟩
      rw [runChoiceWith, runBranchWith_last hlast, dropped_eq_ended]
      exact ⟨_, rfl, hended fuel hfuel⟩
  | @taken branch branches state middle after outcome htest hbody =>
      obtain rfl := hquiet.state_eq (hvalues branch List.mem_cons_self) htest
      obtain ⟨enough, htested⟩ := htest.eventually
      obtain ⟨enough', hended⟩ := hbody.eventually
      refine ⟨max enough enough', fun fuel hfuel => ?_⟩
      have htrue := testWith_of_ended (htested fuel (by omega))
      rw [runChoiceWith, EvalM.bind_of_ok htrue, if_pos rfl, runBranchWith, EvalM.bind_of_ok htrue]
      exact dropped_eq_ended.mpr ⟨_, rfl, hended fuel (by omega)⟩
  | @passed branch branches state middle after outcome htest _ ih =>
      obtain ⟨enough, htested⟩ := htest.eventually
      obtain ⟨enough', hended⟩ := ih (List.forall_mem_cons.mp hvalues).2 (hquiet.later htest)
      refine ⟨max enough enough', fun fuel hfuel => ?_⟩
      have hfalse := testWith_of_ended (htested fuel (by omega))
      rw [runChoiceWith, EvalM.bind_of_ok hfalse]
      exact hended fuel (by omega)
  | failed htest =>
      obtain ⟨enough, htested⟩ := htest.eventually
      refine ⟨enough, fun fuel hfuel => ?_⟩
      exact EvalM.bind_of_error (testWith_of_ended (htested fuel hfuel)) _
  | @untrue branch branches state after value htest hvalue =>
      obtain ⟨enough, htested⟩ := htest.eventually
      refine ⟨enough, fun fuel hfuel => ?_⟩
      have hmismatch := testWith_of_ended (htested fuel hfuel)
      cases value with
      | bool truth => exact absurd rfl (hvalue truth)
      | int | str | none => exact EvalM.bind_of_error hmismatch _

end Choice

/-- **Testing the predicate of a branch a second time goes unnoticed.**  Take any choice in a
program that is read, whatever its tokens are, and evaluate it in any state.  If the branch that it
takes has a predicate whose test leaves the host as it was, or if it takes none, be it that no
predicate is true, that one fails or that one never ends, then it completes exactly as if each
predicate were tested once: with the same result, in the same frame and with the same host.  So it
completes at all if and only if it would then. -/
theorem choice_as_if_tested_once {start stop : Cursor} {program : Node}
    (hread : Parser.readProgram start = .ok program stop) {first last : Branch Node}
    {others : List (Branch Node)} (hwithin : (Node.choice first others last).Within program)
    (builtins : Builtins σ) (state : State σ) (hquiet : Quiet builtins (first :: others) state) :
    (∀ outcome after, (Node.choice first others last).Completes builtins state outcome after ↔
      ChoosesOnce builtins last.body (first :: others) state outcome after) ∧
    ((∃ outcome after, (Node.choice first others last).Completes builtins state outcome after) ↔
      ∃ outcome after, ChoosesOnce builtins last.body (first :: others) state outcome after) := by
  obtain ⟨hvalues, hlast⟩ := Grammar.readProgram_testsValues hread first others last hwithin
  have hsame : ∀ outcome after,
      (Node.choice first others last).Completes builtins state outcome after ↔
        ChoosesOnce builtins last.body (first :: others) state outcome after := by
    intro outcome after
    constructor
    · rintro ⟨fuel, heval⟩
      cases fuel with
      | zero => exact absurd heval.symm EvalM.ended_ne_outOfFuel
      | succ fuel => exact choosesOnce_of_run hvalues hlast hquiet heval
    · intro hchooses
      obtain ⟨enough, hrun⟩ := hchooses.run hvalues hlast hquiet
      exact ⟨enough + 1, hrun enough (Nat.le_refl enough)⟩
  exact ⟨hsame, exists_congr fun outcome => exists_congr (hsame outcome)⟩

/-- A function that counts up to its argument and tells whether it has got there. -/
def countsUp : Declaration Node :=
  ⟨"f", ["n"], .block
    [.assign "i" (.integer 0),
      .loop (.binary (.read "i") .less (.read "n"))
        (.block [.assign "i" (.binary (.read "i") .plus (.integer 1))]),
      .ret (.binary (.read "i") .equal (.read "n"))]⟩

/-- A branch that asks for a line. -/
def askingBranch : Branch Node :=
  ⟨.binary (.call "input" []) .equal (.string "y"), .block []⟩

/-- A branch that calls the function. -/
def countingBranch : Branch Node :=
  ⟨.call "f" [.integer 2], .block [.call "print" [.read "i"]]⟩

/-- A frame with the function and a variable that the function has too, with a host. -/
def counted (output : String) (input : List String) : State MemoryHost :=
  ⟨(({} : Frame).assign "i" (.int 7)).declare countsUp, { output := output, input := input }⟩

/-- The first predicate takes a line and is false; the second is true and does not touch the host.
One line is taken, and one is written. -/
theorem askingBranch_countingBranch_tested_once :
    Script.tree "if input() == \"y\" \x7b\x7d elseif f(2) \x7b print(i) \x7d" =
      .ok (.program [.choice askingBranch [countingBranch] Branch.absent]) ∧
    Quiet Builtins.standard [askingBranch, countingBranch] (counted "" ["n", "y"]) ∧
    ChoosesOnce Builtins.standard .void [askingBranch, countingBranch] (counted "" ["n", "y"])
      (.ok .none) (counted "7\n" ["y"]) := by
  have htokens : tokenize "if input() == \"y\" \x7b\x7d elseif f(2) \x7b print(i) \x7d" =
      .ok [⟨.ifWord, .text "if", ⟨0, 2⟩⟩, ⟨.word, .text "input", ⟨3, 8⟩⟩,
        ⟨.leftParen, .text "(", ⟨8, 9⟩⟩, ⟨.rightParen, .text ")", ⟨9, 10⟩⟩,
        ⟨.equal, .text "==", ⟨11, 13⟩⟩, ⟨.string, .text "y", ⟨14, 17⟩⟩,
        ⟨.leftBrace, .text "\x7b", ⟨18, 19⟩⟩, ⟨.rightBrace, .text "\x7d", ⟨19, 20⟩⟩,
        ⟨.elseifWord, .text "elseif", ⟨21, 27⟩⟩, ⟨.word, .text "f", ⟨28, 29⟩⟩,
        ⟨.leftParen, .text "(", ⟨29, 30⟩⟩, ⟨.integer, .integer 2, ⟨30, 31⟩⟩,
        ⟨.rightParen, .text ")", ⟨31, 32⟩⟩, ⟨.leftBrace, .text "\x7b", ⟨33, 34⟩⟩,
        ⟨.word, .text "print", ⟨35, 40⟩⟩, ⟨.leftParen, .text "(", ⟨40, 41⟩⟩,
        ⟨.word, .text "i", ⟨41, 42⟩⟩, ⟨.rightParen, .text ")", ⟨42, 43⟩⟩,
        ⟨.rightBrace, .text "\x7d", ⟨44, 45⟩⟩, Token.endAt 45] :=
    tokenize_of_toOption (by decide +kernel)
  have htree : Script.tree "if input() == \"y\" \x7b\x7d elseif f(2) \x7b print(i) \x7d" =
      .ok (.program [.choice askingBranch [countingBranch] Branch.absent]) :=
    Script.tree_eq_ok_iff.mpr ⟨_, htokens, rfl⟩
  have hasking : askingBranch.predicate.Completes Builtins.standard (counted "" ["n", "y"])
      (.ok (.bool false)) (counted "" ["y"]) := ⟨5, rfl⟩
  have hcounting : countingBranch.predicate.Completes Builtins.standard (counted "" ["y"])
      (.ok (.bool true)) (counted "" ["y"]) := ⟨9, rfl⟩
  have hcompletes : (Node.choice askingBranch [countingBranch] Branch.absent).Completes
      Builtins.standard (counted "" ["n", "y"]) (.ok .none) (counted "7\n" ["y"]) := ⟨10, rfl⟩
  have hquiet : Quiet Builtins.standard [askingBranch, countingBranch] (counted "" ["n", "y"]) := by
    intro branch before after hselects
    cases hselects with
    | here htest => cases (hasking.unique htest).1
    | later htest hmore =>
        obtain ⟨-, rfl⟩ := hasking.unique htest
        cases hmore with
        | here htest =>
            obtain ⟨-, rfl⟩ := hcounting.unique htest
            rfl
        | later _ hmore => cases hmore
  obtain ⟨start, stop, hread⟩ := Script.readProgram_of_tree htree
  have hwithin : (Node.choice askingBranch [countingBranch] Branch.absent).Within
      (.program [.choice askingBranch [countingBranch] Branch.absent]) :=
    .inside List.mem_cons_self .here
  obtain ⟨hsame, -⟩ :=
    choice_as_if_tested_once hread hwithin Builtins.standard (counted "" ["n", "y"]) hquiet
  exact ⟨htree, hquiet, (hsame _ _).mp hcompletes⟩

end Node

end FlatScript
