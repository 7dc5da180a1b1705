import FlatScript.Proofs.Eval.Dependence

/-!
# Relations that evaluation respects

A relation between actions is a congruence if actions that are put together in the same way from
related ones are related again.  Most of what can be said of an evaluation, or of two evaluations of
one tree side by side, is a congruence: what it keeps of its frame, how its host fares, where it
goes like another one.

`Congruence.stageWith` is the step: one layer of evaluation is related to another if the evaluations
of the parts are, and whatever calls go to.  `Congruence.eval` is the whole run, by induction on the
fuel.  With the standard builtins all that is left to look at is a write and the reading of a line.
-/

namespace FlatScript

open FlatScript.Frame

/-- A relation between actions against two kinds of host that respects how actions are put together.
A relation that does not look at its second action is a property of actions. -/
structure Congruence (σ τ : Type) where
  Rel : {α : Type} → EvalM σ α → EvalM τ α → Prop
  /-- The frames in which the actions are compared. -/
  frames : Frame → Prop := fun _ => True
  rel_pure {α : Type} (value : α) : Rel (pure value) (pure value)
  rel_bind {α β : Type} {run : EvalM σ α} {other : EvalM τ α} {next : α → EvalM σ β}
    {next' : α → EvalM τ β} (hrun : Rel run other)
    (hnext : ∀ value, Rel (next value) (next' value)) : Rel (run >>= next) (other >>= next')
  rel_look {α : Type} {next : Frame → EvalM σ α} {next' : Frame → EvalM τ α}
    (hnext : ∀ frame, frames frame → Rel (next frame) (next' frame)) :
    Rel (EvalM.frame >>= next) (EvalM.frame >>= next')

/-! ### What actions leave behind -/

namespace EvalM

variable {σ α β : Type}

/-- The state that an action leaves, however it has stopped. -/
def left : EStateM.Result (Halt EvalError) (State σ) α → State σ
  | .ok _ after => after
  | .error _ after => after

/-- What an action leaves has a property that another action then keeps. -/
theorem left_bind (holds : State σ → Prop) {run : EvalM σ α} {next : α → EvalM σ β}
    {state : State σ} (hrun : holds (left (run state)))
    (hnext : ∀ value middle, holds middle → holds (left (next value middle))) :
    holds (left ((run >>= next) state)) := by
  cases hfirst : run state with
  | ok value middle =>
      rw [hfirst] at hrun
      rw [bind_of_ok hfirst]
      exact hnext value middle hrun
  | error halt after =>
      rw [hfirst] at hrun
      rw [bind_of_error hfirst]
      exact hrun

/-- An action of the host leaves the frame as it is. -/
theorem left_onHost_frame (action : HostM σ α) (state : State σ) :
    (left (onHost action state)).frame = state.frame := by
  unfold onHost
  cases action state.host <;> rfl

/-- An action in a frame of its own leaves the frame as it is. -/
theorem left_inFrame_frame (start : Frame) (action : EvalM σ α) (state : State σ) :
    (left (inFrame start action state)).frame = state.frame := by
  unfold inFrame
  cases action { state with frame := start } <;> rfl

end EvalM

/-- The call of a declared function leaves the frame of the caller as it is. -/
theorem Node.left_callWith_frame {σ : Type} (eval : Node → EvalM σ Value)
    (declaration : Declaration Node) (values : List Value) (state : State σ) :
    (EvalM.left (callWith eval declaration values state)).frame = state.frame :=
  EvalM.left_bind (fun after => after.frame = state.frame)
    (EvalM.left_inFrame_frame _ _ state) fun _ _ hframe => hframe

/-! ### What a tree does by itself -/

/-- A result in 64 bits that is missing is an overflow. -/
theorem Value.ofInt64?_eq_error {result : Option Int64} {error : EvalError}
    (hresult : Value.ofInt64? result = .error error) : error = .integerOverflow := by
  cases result with
  | none =>
      cases hresult
      rfl
  | some value => cases hresult

namespace Token.Kind

/-- Operators do not fail like a host. -/
theorem applyBinary_ne_host (op : Token.Kind) (lhs rhs : Value) (reason : HostError) :
    op.applyBinary lhs rhs ≠ .error (.host reason) := by
  fun_cases applyBinary op lhs rhs <;> grind [rejects, Value.ofInt, Value.ofInt64?_eq_error]

/-- Neither do signs. -/
theorem applyUnary_ne_host (op : Token.Kind) (value : Value) (reason : HostError) :
    op.applyUnary value ≠ .error (.host reason) := by
  fun_cases applyUnary op value <;> grind [Value.ofInt]

end Token.Kind

namespace Node

variable {σ : Type}

/-- The failures that a tree can come to by itself, when none of its parts fails. -/
def Raises : Node → EvalError → Prop
  | .binary _ op _, error => ∃ left right, op.applyBinary left right = .error error
  | .unary op _, error => ∃ value, op.applyUnary value = .error error
  | .read name, error => error = .undefinedVariable name
  | .guarded _, error | .choice _ _ _, error | .loop _ _, error =>
    ∃ found, error = .typeMismatch (.condition found)
  | .call name _, error => error = .undefinedFunction name ∨ ∃ reason, error = .host reason
  | _, _ => False

/-- The updates that a tree makes by itself, when its parts have been evaluated. -/
def Performs : Node → Update → Prop
  | .assign name _, update => ∃ value, update = .assign name value
  | .declare declaration, update => update = .declare declaration
  | .ret _, update => ∃ value, update = .setPending value
  | _, _ => False

/-- What a call of a name goes to in a frame: a builtin, if there is one of that name, and a
declared function otherwise. -/
def target (builtins : Builtins σ) (enter : Declaration Node → List Value → EvalM σ Value)
    (name : String) (frame : Frame) : Option (List Value → EvalM σ Value) :=
  match builtins[name]? with
  | some builtin => some fun values => EvalM.onHost (builtin.run values)
  | none => frame.functions[name]?.map enter

/-- One layer of evaluation, with what calls go to left open. -/
def stageWith (eval : Node → EvalM σ Value)
    (target : String → Frame → Option (List Value → EvalM σ Value)) (fuel : Nat) :
    Node → EvalM σ Value
  | .call name args => do
    match target name (← EvalM.frame) with
    | some run =>
      let values ← evalAllWith eval args
      run values
    | none => EvalM.fail (.undefinedFunction name)
  -- The builtins matter to no other tree.
  | node => evalWith eval ∅ fuel node

/-- One layer of evaluation, with the way in which a declared function is called left open. -/
def layerWith (eval : Node → EvalM σ Value)
    (enter : Declaration Node → List Value → EvalM σ Value) (builtins : Builtins σ) (fuel : Nat) :
    Node → EvalM σ Value
  | .call name args => do
    match builtins[name]? with
    | some builtin =>
      let values ← evalAllWith eval args
      EvalM.onHost (builtin.run values)
    | none =>
      match (← EvalM.frame).functions[name]? with
      | some declaration =>
        let values ← evalAllWith eval args
        enter declaration values
      | none => EvalM.fail (.undefinedFunction name)
  | node => evalWith eval builtins fuel node

/-- Evaluation calls a function by running its body in a frame of its own. -/
theorem evalWith_eq_layerWith (eval : Node → EvalM σ Value) (builtins : Builtins σ) (fuel : Nat)
    (node : Node) :
    evalWith eval builtins fuel node = layerWith eval (callWith eval) builtins fuel node := by
  cases node <;> rfl

/-- A layer is the stage whose calls go to a builtin or else are entered. -/
theorem layerWith_eq_stageWith (eval : Node → EvalM σ Value)
    (enter : Declaration Node → List Value → EvalM σ Value) (builtins : Builtins σ) (fuel : Nat)
    (node : Node) :
    layerWith eval enter builtins fuel node = stageWith eval (target builtins enter) fuel node := by
  cases node with
  | call name args =>
      rw [layerWith, stageWith]
      unfold target
      cases builtins[name]? with
      | some builtin => rfl
      | none =>
          funext state
          simp only [EvalM.frame_bind_run]
          cases state.frame.functions[name]? <;> rfl
  | _ => rfl

/-- One layer of evaluation is such a stage. -/
theorem evalWith_eq_stageWith (eval : Node → EvalM σ Value) (builtins : Builtins σ) (fuel : Nat)
    (node : Node) :
    evalWith eval builtins fuel node =
      stageWith eval (target builtins (callWith eval)) fuel node := by
  rw [evalWith_eq_layerWith, layerWith_eq_stageWith]

end Node

/-! ### One layer of evaluation -/

namespace Congruence

open Node

variable {σ τ α β : Type} (related : Congruence σ τ)

/-- Given results are related, if their failures are. -/
theorem ofExcept {result : Except EvalError α}
    (hfails : ∀ error, result = .error error →
      related.Rel (EvalM.fail error : EvalM σ α) (EvalM.fail error)) :
    related.Rel (EvalM.ofExcept result) (EvalM.ofExcept result) := by
  cases result with
  | ok value => exact related.rel_pure value
  | error error => exact hfails error rfl

/-- A loop, which may run out of fuel. -/
theorem repeatWhile {test : EvalM σ Bool} {test' : EvalM τ Bool} {action : EvalM σ Value}
    {action' : EvalM τ Value} (htest : related.Rel test test')
    (haction : related.Rel action action')
    (hfuel : related.Rel (throw .outOfFuel : EvalM σ Value) (throw .outOfFuel)) (fuel : Nat) :
    related.Rel (EvalM.repeatWhile test action fuel) (EvalM.repeatWhile test' action' fuel) := by
  induction fuel with
  | zero => exact hfuel
  | succ fuel ih =>
      refine related.rel_bind htest fun holds => ?_
      cases holds with
      | false => exact related.rel_pure Value.none
      | true => exact related.rel_bind haction fun _ => ih

section Layer

variable {eval : Node → EvalM σ Value} {eval' : Node → EvalM τ Value}

/-- Tests are related if their predicates are. -/
theorem testWith
    (hfails : ∀ found, related.Rel
      (EvalM.fail (.typeMismatch (.condition found)) : EvalM σ Bool)
      (EvalM.fail (.typeMismatch (.condition found))))
    {predicate : Node} (hpredicate : related.Rel (eval predicate) (eval' predicate)) :
    related.Rel (Node.testWith eval predicate) (Node.testWith eval' predicate) := by
  refine related.rel_bind hpredicate fun value => ?_
  cases value with
  | bool value => exact related.rel_pure value
  | int | str | none => exact hfails _

/-- Evaluating one tree after another keeps the relation. -/
theorem evalAllWith {nodes : List Node}
    (hnodes : ∀ node ∈ nodes, related.Rel (eval node) (eval' node)) :
    related.Rel (Node.evalAllWith eval nodes) (Node.evalAllWith eval' nodes) := by
  induction nodes with
  | nil => exact related.rel_pure []
  | cons node nodes ih =>
      obtain ⟨hnode, hnodes⟩ := List.forall_mem_cons.mp hnodes
      exact related.rel_bind hnode fun value => related.rel_bind (ih hnodes) fun values =>
        related.rel_pure (value :: values)

/-- Running one statement after another keeps the relation. -/
theorem runAllWith {nodes : List Node}
    (hnodes : ∀ node ∈ nodes, related.Rel (eval node) (eval' node)) :
    related.Rel (Node.runAllWith eval nodes) (Node.runAllWith eval' nodes) := by
  induction nodes with
  | nil => exact related.rel_pure Value.none
  | cons node nodes ih =>
      obtain ⟨hnode, hnodes⟩ := List.forall_mem_cons.mp hnodes
      exact related.rel_bind hnode fun _ => ih hnodes

section Branches

variable
  (hfails : ∀ found, related.Rel (EvalM.fail (.typeMismatch (.condition found)) : EvalM σ Bool)
    (EvalM.fail (.typeMismatch (.condition found))))

include hfails

/-- Branches are related if their predicates and bodies are. -/
theorem runBranchWith {branch : Branch Node}
    (hpredicate : related.Rel (eval branch.predicate) (eval' branch.predicate))
    (hbody : related.Rel (eval branch.body) (eval' branch.body)) :
    related.Rel (Node.runBranchWith eval branch) (Node.runBranchWith eval' branch) := by
  refine related.rel_bind (related.testWith hfails hpredicate) fun holds => ?_
  cases holds with
  | false => exact related.rel_pure Value.none
  | true => exact related.rel_bind hbody fun _ => related.rel_pure Value.none

/-- Choices are related if their branches are. -/
theorem runChoiceWith {last : Branch Node} {branches : List (Branch Node)}
    (hbranches : ∀ branch ∈ last :: branches,
      related.Rel (eval branch.predicate) (eval' branch.predicate) ∧
        related.Rel (eval branch.body) (eval' branch.body)) :
    related.Rel (Node.runChoiceWith eval last branches)
      (Node.runChoiceWith eval' last branches) := by
  obtain ⟨hlast, hbranches⟩ := List.forall_mem_cons.mp hbranches
  induction branches with
  | nil => exact related.runBranchWith hfails hlast.1 hlast.2
  | cons branch branches ih =>
      obtain ⟨hbranch, hothers⟩ := List.forall_mem_cons.mp hbranches
      refine related.rel_bind (related.testWith hfails hbranch.1) fun holds => ?_
      cases holds with
      | false => exact ih (List.forall_mem_cons.mpr ⟨hlast, hothers⟩) hothers
      | true => exact related.runBranchWith hfails hbranch.1 hbranch.2

end Branches

/-- **Layers are related** if the evaluations of the parts are, the failures and updates of the tree
itself, and what a call goes to.  With a loop, so has to be a lack of fuel. -/
theorem stageWith {target : String → Frame → Option (List Value → EvalM σ Value)}
    {target' : String → Frame → Option (List Value → EvalM τ Value)} {fuel : Nat} {node : Node}
    (hfails : ∀ (α : Type) (error : EvalError), node.Raises error →
      (∀ reason, error ≠ .host reason) →
        related.Rel (EvalM.fail error : EvalM σ α) (EvalM.fail error))
    (hupdates : ∀ update, node.Performs update →
      related.Rel (EvalM.modifyFrame (·.apply update)) (EvalM.modifyFrame (·.apply update)))
    (hloop : ∀ condition body, node = .loop condition body →
      related.Rel (throw .outOfFuel : EvalM σ Value) (throw .outOfFuel))
    (hchild : ∀ child ∈ node.children, related.Rel (eval child) (eval' child))
    (hcall : ∀ name args, node = .call name args → ∀ frame, related.frames frame →
      Option.Rel (fun run run' => ∀ values, related.Rel (run values) (run' values))
        (target name frame) (target' name frame)) :
    related.Rel (Node.stageWith eval target fuel node)
      (Node.stageWith eval' target' fuel node) := by
  cases node with
  | integer | string | bool | void => exact related.rel_pure _
  | binary lhs op rhs =>
      refine related.rel_bind (hchild lhs (by simp [children])) fun left => ?_
      refine related.rel_bind (hchild rhs (by simp [children])) fun right => ?_
      refine related.ofExcept fun error herror => hfails _ error ⟨left, right, herror⟩ ?_
      rintro reason rfl
      exact Token.Kind.applyBinary_ne_host op left right reason herror
  | unary op arg =>
      refine related.rel_bind (hchild arg (by simp [children])) fun value => ?_
      refine related.ofExcept fun error herror => hfails _ error ⟨value, herror⟩ ?_
      rintro reason rfl
      exact Token.Kind.applyUnary_ne_host op value reason herror
  | read name =>
      refine related.rel_look fun frame _ => ?_
      cases frame.vars[name]? with
      | none => exact hfails _ _ rfl (by rintro _ ⟨⟩)
      | some value => exact related.rel_pure value
  | assign name value =>
      refine related.rel_bind (hchild value (by simp [children])) fun result => ?_
      exact related.rel_bind (hupdates (.assign name result) ⟨result, rfl⟩) fun _ =>
        related.rel_pure _
  | block body => exact related.runAllWith hchild
  | program body => exact related.runAllWith hchild
  | guarded branch =>
      exact related.runBranchWith (fun found => hfails _ _ ⟨found, rfl⟩ (by rintro _ ⟨⟩))
        (hchild _ (by simp [children])) (hchild _ (by simp [children]))
  | choice first others last =>
      refine related.runChoiceWith (fun found => hfails _ _ ⟨found, rfl⟩ (by rintro _ ⟨⟩))
        fun branch hbranch => ⟨hchild _ ?_, hchild _ ?_⟩
      · exact List.mem_flatMap.mpr ⟨branch, hbranch, by simp⟩
      · exact List.mem_flatMap.mpr ⟨branch, hbranch, by simp⟩
  | declare declaration =>
      exact related.rel_bind (hupdates (.declare declaration) rfl) fun _ => related.rel_pure _
  | call name args =>
      refine related.rel_look fun frame hframe => ?_
      have htarget := hcall name args rfl frame hframe
      generalize target name frame = found at htarget
      generalize target' name frame = found' at htarget
      cases htarget with
      | none => exact hfails _ _ (Or.inl rfl) (by rintro _ ⟨⟩)
      | some hrun => exact related.rel_bind (related.evalAllWith hchild) hrun
  | ret value =>
      refine related.rel_bind (hchild value (by simp [children])) fun result => ?_
      exact related.rel_bind (hupdates (.setPending result) ⟨result, rfl⟩) fun _ =>
        related.rel_pure _
  | loop condition body =>
      have htest := related.testWith (fun found => hfails _ _ ⟨found, rfl⟩ (by rintro _ ⟨⟩))
        (hchild condition (by simp [children]))
      exact related.repeatWhile htest (hchild body (by simp [children]))
        (hloop condition body rfl) fuel

end Layer

/-! ### Whole evaluations -/

/-- Both sides have builtins of the same names, and these are related. -/
def SameBuiltins (builtins : Builtins σ) (builtins' : Builtins τ) : Prop :=
  ∀ name : String, Option.Rel
    (fun builtin builtin' => ∀ values,
      related.Rel (EvalM.onHost (builtin.run values)) (EvalM.onHost (builtin'.run values)))
    builtins[name]? builtins'[name]?

/-- With related builtins, calls go to related actions if they do so with the functions that are
declared. -/
theorem target {builtins : Builtins σ} {builtins' : Builtins τ}
    (hbuiltins : related.SameBuiltins builtins builtins')
    {enter : Declaration Node → List Value → EvalM σ Value}
    {enter' : Declaration Node → List Value → EvalM τ Value} {name : String} {frame : Frame}
    (henter : ∀ declaration, frame.functions[name]? = some declaration →
      ∀ values, related.Rel (enter declaration values) (enter' declaration values)) :
    Option.Rel (fun run run' => ∀ values, related.Rel (run values) (run' values))
      (Node.target builtins enter name frame) (Node.target builtins' enter' name frame) := by
  have hfound := hbuiltins name
  unfold Node.target
  generalize builtins[name]? = found at hfound
  generalize builtins'[name]? = found' at hfound
  cases hfound with
  | some hbuiltin => exact .some hbuiltin
  | none =>
      cases hdeclared : frame.functions[name]? with
      | none => exact .none
      | some declaration => exact .some (henter declaration hdeclared)

/-- **Evaluations are related** if the builtins are, and if the relation holds of failures, of the
lack of fuel, of updates, and of related actions that are given a frame of their own.  The induction
is on the fuel. -/
theorem eval {builtins : Builtins σ} {builtins' : Builtins τ}
    (hbuiltins : related.SameBuiltins builtins builtins')
    (hfails : ∀ (α : Type) (error : EvalError), (∀ reason, error ≠ .host reason) →
      related.Rel (EvalM.fail error : EvalM σ α) (EvalM.fail error))
    (hfuel : related.Rel (throw .outOfFuel : EvalM σ Value) (throw .outOfFuel))
    (hupdates : ∀ update,
      related.Rel (EvalM.modifyFrame (·.apply update)) (EvalM.modifyFrame (·.apply update)))
    (hinFrame : ∀ (start : Frame) {run : EvalM σ Value} {other : EvalM τ Value},
      related.Rel run other → related.Rel (EvalM.inFrame start run) (EvalM.inFrame start other))
    (fuel : Nat) (node : Node) :
    related.Rel (node.eval builtins fuel) (node.eval builtins' fuel) := by
  induction fuel generalizing node with
  | zero => exact hfuel
  | succ fuel ih =>
      rw [Node.eval, Node.eval, evalWith_eq_stageWith, evalWith_eq_stageWith]
      refine related.stageWith (fun α error _ => hfails α error) (fun update _ => hupdates update)
        (fun _ _ _ => hfuel) (fun child _ => ih child) ?_
      intro name args _ frame _
      refine related.target hbuiltins fun declaration _ values => ?_
      exact related.rel_bind (hinFrame _ (ih declaration.body)) fun after =>
        related.rel_pure after.returned

end Congruence

/-! ### The standard builtins -/

/-- Two actions of the host, one after the other, are one action of the host. -/
theorem EvalM.onHost_bind {σ α β : Type} (action : HostM σ α) (next : α → HostM σ β) :
    EvalM.onHost (action >>= next) =
      EvalM.onHost action >>= fun value => EvalM.onHost (next value) := by
  funext state
  cases haction : action state.host with
  | ok value after =>
      have hfirst : EvalM.onHost action state = .ok value { state with host := after } := by
        simp [EvalM.onHost, haction]
      rw [EvalM.bind_of_ok hfirst]
      simp [EvalM.onHost, Bind.bind, EStateM.bind, haction]
  | error error after =>
      have hfirst : EvalM.onHost action state =
          .error (.failed (.host error)) { state with host := after } := by
        simp [EvalM.onHost, haction]
      rw [EvalM.bind_of_error hfirst]
      simp [EvalM.onHost, Bind.bind, EStateM.bind, haction]

/-- What `input` does behind its prompt: it reads a line, and the end of the input is an error. -/
def Builtin.nextLine {σ : Type} [Host σ] : HostM σ Value := do
  match ← Host.readLine with
  | some line => return .str line
  | none => throw .endOfInput

/-- **The standard builtins are related** if writing is, and the reading of a line. -/
theorem Congruence.standard {σ τ : Type} [Host σ] [Host τ] (related : Congruence σ τ)
    (hwrite : ∀ text, related.Rel (EvalM.onHost (Host.write text : HostM σ Unit))
      (EvalM.onHost (Host.write text)))
    (hline : related.Rel (EvalM.onHost (Builtin.nextLine : HostM σ Value))
      (EvalM.onHost Builtin.nextLine)) :
    related.SameBuiltins Builtins.standard Builtins.standard := by
  have hprint (values : List Value) :
      related.Rel (EvalM.onHost (Builtin.print values : HostM σ Value))
        (EvalM.onHost (Builtin.print values)) := by
    rw [Builtin.print, Builtin.print, EvalM.onHost_bind, EvalM.onHost_bind]
    exact related.rel_bind (hwrite _) fun _ => related.rel_pure Value.none
  have hinput (values : List Value) :
      related.Rel (EvalM.onHost (Builtin.input values : HostM σ Value))
        (EvalM.onHost (Builtin.input values)) := by
    cases values with
    | nil => exact hline
    | cons value values =>
        have hprompt {ρ : Type} [Host ρ] : (Builtin.input (value :: values) : HostM ρ Value) =
            Host.write (Builtin.joined (value :: values)) >>= fun _ => Builtin.nextLine := rfl
        rw [hprompt, hprompt, EvalM.onHost_bind, EvalM.onHost_bind]
        exact related.rel_bind (hwrite _) fun _ => hline
  intro name
  simp only [Builtins.standard, Builtins.register, Std.TreeMap.getElem?_insert]
  split
  · exact .some hinput
  · split
    · exact .some hprint
    · exact .none

end FlatScript
