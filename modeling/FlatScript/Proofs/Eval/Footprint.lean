import FlatScript.Proofs.Eval.Completion

/-!
# What an evaluation leaves behind in its frame

However an evaluation completes, with a value or with a failure in the middle, its frame has changed
only where the tree says so: a variable that is assigned in it, a function that is declared in it,
or the return value if it has a return statement.  Nothing that the frame held is lost.

Expressions make no updates at all.  The functions that they call may assign, declare and return as
they like, since they do so in frames of their own.
-/

namespace FlatScript

namespace Node

variable {σ : Type} {builtins : Builtins σ} {node : Node}

/-- The trees that stand for values: literals, variables, operators and calls. -/
inductive IsValueTree : Node → Prop
  | integer (value : Int64) : IsValueTree (.integer value)
  | string (value : String) : IsValueTree (.string value)
  | bool (value : Bool) : IsValueTree (.bool value)
  | read (name : String) : IsValueTree (.read name)
  | unary {op : Token.Kind} {arg : Node} (harg : IsValueTree arg) : IsValueTree (.unary op arg)
  | binary {lhs rhs : Node} {op : Token.Kind} (hlhs : IsValueTree lhs) (hrhs : IsValueTree rhs) :
      IsValueTree (.binary lhs op rhs)
  | call {name : String} {args : List Node} (hargs : ∀ arg ∈ args, IsValueTree arg) :
      IsValueTree (.call name args)

/-- The parts of a tree of values are such trees. -/
theorem IsValueTree.of_mem_children {child : Node} (hnode : node.IsValueTree)
    (hchild : child ∈ node.children) : child.IsValueTree := by
  cases hnode with
  | integer | string | bool | read => cases hchild
  | unary harg => exact List.mem_singleton.mp hchild ▸ harg
  | binary hlhs hrhs =>
      simp only [children, List.mem_cons, List.not_mem_nil, or_false] at hchild
      rcases hchild with rfl | rfl
      · exact hlhs
      · exact hrhs
  | call hargs => exact hargs child hchild

/-- Whatever stands in such a tree is such a tree. -/
theorem IsValueTree.of_occurs {part : Node} (hnode : node.IsValueTree) (hpart : part.Occurs node) :
    part.IsValueTree := by
  induction hpart with
  | here => exact hnode
  | inside hchild _ ih => exact ih (hnode.of_mem_children hchild)

/-- Such a tree makes no updates. -/
theorem IsValueTree.not_makes (hnode : node.IsValueTree) (update : Frame.Update) :
    ¬node.Makes update := by
  intro hmakes
  cases update with
  | assign name value =>
      obtain ⟨_, hassign⟩ := hmakes
      cases hnode.of_occurs hassign
  | declare declaration => cases hnode.of_occurs hmakes
  | setPending value =>
      obtain ⟨_, hret⟩ := hmakes
      cases hnode.of_occurs hret

/-- A completed evaluation has made updates of its tree. -/
theorem Completes.updates {state after : State σ} {outcome : Except EvalError Value}
    (hcompletes : node.Completes builtins state outcome after) :
    ∃ updates, (∀ update ∈ updates, node.Makes update) ∧
      after.frame = state.frame.applyAll updates := by
  obtain ⟨updates, hmakes, hframe, -⟩ := hcompletes.of_agree (Scope.Agree.refl _ state.frame)
  exact ⟨updates, hmakes, hframe⟩

/-- A cell that has changed is written by an update of the tree. -/
theorem Completes.makes_of_ne {state after : State σ} {outcome : Except EvalError Value}
    (hcompletes : node.Completes builtins state outcome after) (cell : Frame.Cell)
    (hne : cell.look after.frame ≠ cell.look state.frame) :
    ∃ update, node.Makes update ∧ update.cell = cell := by
  obtain ⟨updates, hmakes, hframe⟩ := hcompletes.updates
  rw [hframe] at hne
  rcases Frame.look_applyAll cell updates with ⟨⟨update, hmem, hcell⟩, -⟩ | hkeep
  · exact ⟨update, hmakes update hmem, hcell⟩
  · exact absurd (hkeep state.frame) hne

/-- A cell that held something still does. -/
theorem Completes.look_ne_none {state after : State σ} {outcome : Except EvalError Value}
    (hcompletes : node.Completes builtins state outcome after) (cell : Frame.Cell)
    (hheld : cell.look state.frame ≠ none) : cell.look after.frame ≠ none := by
  obtain ⟨updates, -, hframe⟩ := hcompletes.updates
  rw [hframe]
  rcases Frame.look_applyAll cell updates with ⟨-, content, hcontent⟩ | hkeep
  · rw [hcontent]
    exact nofun
  · rwa [hkeep]

/-- A tree that stands for a value leaves the frame as it was. -/
theorem Completes.frame_eq {state after : State σ} {outcome : Except EvalError Value}
    (hcompletes : node.Completes builtins state outcome after) (hnode : node.IsValueTree) :
    after.frame = state.frame := by
  obtain ⟨updates, hmakes, hframe⟩ := hcompletes.updates
  obtain rfl : updates = [] := List.eq_nil_iff_forall_not_mem.mpr fun update hmem =>
    hnode.not_makes update (hmakes update hmem)
  exact hframe

/-- An action that is followed by one that cannot fail has itself failed, if the whole has. -/
theorem ended_error_of_bind {α β : Type} {run : EvalM σ α} {next : α → EvalM σ β}
    {state after : State σ} {error : EvalError}
    (hnext : ∀ value middle, ∃ result last, next value middle = .ok result last)
    (hended : (run >>= next) state = EvalM.ended (.error error) after) :
    run state = EvalM.ended (.error error) after := by
  cases hrun : run state with
  | ok value middle =>
      obtain ⟨result, last, hok⟩ := hnext value middle
      rw [EvalM.bind_of_ok hrun, hok] at hended
      cases hended
  | error halt middle =>
      rw [EvalM.bind_of_error hrun] at hended
      cases hended
      rfl

/-- An assignment fails only where its value does. -/
theorem Completes.of_assign_error {name : String} {value : Node} {state after : State σ}
    {error : EvalError}
    (hcompletes : (Node.assign name value).Completes builtins state (.error error) after) :
    value.Completes builtins state (.error error) after := by
  obtain ⟨fuel, heval⟩ := hcompletes
  cases fuel with
  | zero => cases heval
  | succ fuel => exact ⟨fuel, ended_error_of_bind (fun _ _ => ⟨_, _, rfl⟩) heval⟩

/-- A return statement fails only where its value does. -/
theorem Completes.of_ret_error {value : Node} {state after : State σ} {error : EvalError}
    (hcompletes : (Node.ret value).Completes builtins state (.error error) after) :
    value.Completes builtins state (.error error) after := by
  obtain ⟨fuel, heval⟩ := hcompletes
  cases fuel with
  | zero => cases heval
  | succ fuel => exact ⟨fuel, ended_error_of_bind (fun _ _ => ⟨_, _, rfl⟩) heval⟩

/-- **The write footprint of an evaluation.**  When the evaluation of a tree has completed, with a
value or a failure, a variable differs only if the tree assigns it, a function only if the tree
declares one of its name, and the return value only if the tree has a return statement; and whatever
the frame held before it still holds.  A tree that stands for a value leaves the frame as it was,
and so does an assignment or a return of such a tree that fails. -/
theorem eval_write_footprint (builtins : Builtins σ) (node : Node) (frame : Frame) (host : σ)
    (outcome : Except EvalError Value) (after : State σ)
    (hcompletes : node.Completes builtins ⟨frame, host⟩ outcome after) :
    (∀ name : String, after.frame.vars[name]? ≠ frame.vars[name]? →
      ∃ value, (Node.assign name value).Occurs node) ∧
    (∀ name : String, after.frame.functions[name]? ≠ frame.functions[name]? →
      ∃ declaration : Declaration Node,
        declaration.name = name ∧ (Node.declare declaration).Occurs node) ∧
    (after.frame.pending ≠ frame.pending → ∃ value, (Node.ret value).Occurs node) ∧
    (∀ name : String, frame.vars[name]? ≠ none → after.frame.vars[name]? ≠ none) ∧
    (∀ name : String, frame.functions[name]? ≠ none → after.frame.functions[name]? ≠ none) ∧
    (frame.pending ≠ none → after.frame.pending ≠ none) ∧
    (node.IsValueTree → after.frame = frame) ∧
    ∀ (value : Node) (error : EvalError), value.IsValueTree → outcome = .error error →
      (node = .ret value ∨ ∃ name, node = .assign name value) → after.frame = frame := by
  refine ⟨fun name hne => ?_, fun name hne => ?_, fun hne => ?_,
    fun name => hcompletes.look_ne_none (.var name),
    fun name => hcompletes.look_ne_none (.function name),
    hcompletes.look_ne_none .pending, hcompletes.frame_eq, ?_⟩
  · obtain ⟨update, hmakes, hcell⟩ := hcompletes.makes_of_ne (.var name) hne
    cases update with
    | assign target value =>
        cases hcell
        exact hmakes
    | declare | setPending => cases hcell
  · obtain ⟨update, hmakes, hcell⟩ := hcompletes.makes_of_ne (.function name) hne
    cases update with
    | declare declaration =>
        cases hcell
        exact ⟨declaration, rfl, hmakes⟩
    | assign | setPending => cases hcell
  · obtain ⟨update, hmakes, hcell⟩ := hcompletes.makes_of_ne .pending hne
    cases update with
    | setPending value => exact hmakes
    | assign | declare => cases hcell
  · rintro value error hvalue rfl (rfl | ⟨name, rfl⟩)
    · exact hcompletes.of_ret_error.frame_eq hvalue
    · exact hcompletes.of_assign_error.frame_eq hvalue

/-- A function that assigns, declares and returns. -/
def meddles : Declaration Node :=
  ⟨"f", [], .block
    [.assign "y" (.integer 9), .declare ⟨"g", [], .block []⟩, .ret (.integer 3)]⟩

/-- An assignment whose value fails behind a call of that function. -/
def failsMidway : Node :=
  .assign "y" (.binary (.call "f" []) .plus (.read "z"))

/-- A frame with the function and the variable. -/
def meddledFrame : Frame :=
  (({} : Frame).assign "y" (.int 1)).declare meddles

/-- The assignment fails, and the frame is as before. -/
theorem failsMidway_frame_eq :
    ∃ after : State Unit,
      failsMidway.Completes ∅ ⟨meddledFrame, ()⟩ (.error (.undefinedVariable "z")) after ∧
        after.frame.vars["y"]? ≠ none ∧ after.frame = meddledFrame := by
  have hvalue : IsValueTree (.binary (.call "f" []) .plus (.read "z")) :=
    .binary (.call nofun) (.read "z")
  obtain ⟨after, hcompletes⟩ : ∃ after : State Unit,
      failsMidway.Completes ∅ ⟨meddledFrame, ()⟩ (.error (.undefinedVariable "z")) after :=
    ⟨_, 6, rfl⟩
  obtain ⟨-, -, -, hkept, -, -, -, hfails⟩ := eval_write_footprint _ _ _ _ _ _ hcompletes
  exact ⟨after, hcompletes, hkept "y" nofun, hfails _ _ hvalue rfl (Or.inr ⟨"y", rfl⟩)⟩

end Node

end FlatScript
