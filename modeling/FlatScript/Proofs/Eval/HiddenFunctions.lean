import Mathlib.Data.List.Forall2
import FlatScript.Proofs.Eval.Completion
import FlatScript.Proofs.Eval.Coupling
import FlatScript.Proofs.Trees.Measures

/-!
# Functions that builtins hide

A call looks for a builtin first.  A function that is declared under the name of a builtin is
hidden by it: it stands in the table of functions, but no call gets there.  So it does not matter
which parameters and which body such a function has.

Two trees are the same but for hidden functions if they differ in nothing else, wherever these
functions are declared: also inside of other functions, which may be called.  Their evaluations go
in step, from call to call and from round to round of their loops, and what differs in the end is
hidden again.
-/

namespace FlatScript

/-! ### Trees that differ in hidden functions -/

/-- Branches with related predicates and related bodies. -/
inductive Branch.Related {α : Type} (related : α → α → Prop) : Branch α → Branch α → Prop
  | intro {predicate predicate' body body' : α} (hpredicate : related predicate predicate')
      (hbody : related body body') : Related related ⟨predicate, body⟩ ⟨predicate', body'⟩

/-- Declarations of one function: any two under the name of a builtin, and otherwise two with the
same parameters and with related bodies. -/
inductive Declaration.SameUnlessHidden {σ α : Type} (builtins : Builtins σ)
    (related : α → α → Prop) : Declaration α → Declaration α → Prop
  | hidden {name : String} (hname : name ∈ builtins) (params params' : List String)
      (body body' : α) :
      SameUnlessHidden builtins related ⟨name, params, body⟩ ⟨name, params', body'⟩
  | same (name : String) (params : List String) {body body' : α} (hbody : related body body') :
      SameUnlessHidden builtins related ⟨name, params, body⟩ ⟨name, params, body'⟩

/-- Trees that are the same but for the parameters and bodies of functions that are declared under
the names of builtins. -/
inductive Node.SameButHidden {σ : Type} (builtins : Builtins σ) : Node → Node → Prop
  | integer (value : Int64) : SameButHidden builtins (.integer value) (.integer value)
  | string (value : String) : SameButHidden builtins (.string value) (.string value)
  | bool (value : Bool) : SameButHidden builtins (.bool value) (.bool value)
  | void : SameButHidden builtins .void .void
  | binary {lhs lhs' rhs rhs' : Node} (op : Token.Kind) (hlhs : SameButHidden builtins lhs lhs')
      (hrhs : SameButHidden builtins rhs rhs') :
      SameButHidden builtins (.binary lhs op rhs) (.binary lhs' op rhs')
  | unary {arg arg' : Node} (op : Token.Kind) (harg : SameButHidden builtins arg arg') :
      SameButHidden builtins (.unary op arg) (.unary op arg')
  | read (name : String) : SameButHidden builtins (.read name) (.read name)
  | assign {value value' : Node} (name : String) (hvalue : SameButHidden builtins value value') :
      SameButHidden builtins (.assign name value) (.assign name value')
  | block {body body' : List Node} (hbody : List.Forall₂ (SameButHidden builtins) body body') :
      SameButHidden builtins (.block body) (.block body')
  | program {body body' : List Node} (hbody : List.Forall₂ (SameButHidden builtins) body body') :
      SameButHidden builtins (.program body) (.program body')
  | guarded {branch branch' : Branch Node}
      (hbranch : Branch.Related (SameButHidden builtins) branch branch') :
      SameButHidden builtins (.guarded branch) (.guarded branch')
  | choice {first first' last last' : Branch Node} {others others' : List (Branch Node)}
      (hfirst : Branch.Related (SameButHidden builtins) first first')
      (hothers : List.Forall₂ (Branch.Related (SameButHidden builtins)) others others')
      (hlast : Branch.Related (SameButHidden builtins) last last') :
      SameButHidden builtins (.choice first others last) (.choice first' others' last')
  | declare {declaration declaration' : Declaration Node}
      (hsame : Declaration.SameUnlessHidden builtins (SameButHidden builtins) declaration
        declaration') :
      SameButHidden builtins (.declare declaration) (.declare declaration')
  | call {args args' : List Node} (name : String)
      (hargs : List.Forall₂ (SameButHidden builtins) args args') :
      SameButHidden builtins (.call name args) (.call name args')
  | ret {value value' : Node} (hvalue : SameButHidden builtins value value') :
      SameButHidden builtins (.ret value) (.ret value')
  | loop {condition condition' body body' : Node}
      (hcondition : SameButHidden builtins condition condition')
      (hbody : SameButHidden builtins body body') :
      SameButHidden builtins (.loop condition body) (.loop condition' body')

section Trees

variable {σ : Type} (builtins : Builtins σ)

/-- Nothing has to differ. -/
theorem Node.SameButHidden.refl (node : Node) : node.SameButHidden builtins node := by
  induction hheight : node.height using Nat.strongRecOn generalizing node with
  | ind height ih =>
      have hparts : ∀ part ∈ node.parts, part.SameButHidden builtins part := by
        intro part hpart
        exact ih part.height (hheight ▸ height_lt_of_mem_parts hpart) part rfl
      cases node with
      | integer value => exact .integer value
      | string value => exact .string value
      | bool value => exact .bool value
      | void => exact .void
      | read name => exact .read name
      | binary lhs op rhs =>
          exact .binary op (hparts lhs (by simp [parts, children]))
            (hparts rhs (by simp [parts, children]))
      | unary op arg => exact .unary op (hparts arg (by simp [parts, children]))
      | assign name value => exact .assign name (hparts value (by simp [parts, children]))
      | block body => exact .block (List.forall₂_same.mpr hparts)
      | program body => exact .program (List.forall₂_same.mpr hparts)
      | call name args => exact .call name (List.forall₂_same.mpr hparts)
      | guarded branch =>
          exact .guarded (.intro (hparts _ (by simp [parts, children]))
            (hparts _ (by simp [parts, children])))
      | choice first others last =>
          have hbranches : ∀ branch ∈ last :: first :: others,
              Branch.Related (SameButHidden builtins) branch branch := by
            intro branch hbranch
            refine .intro (hparts branch.predicate ?_) (hparts branch.body ?_)
            · exact List.mem_flatMap.mpr ⟨branch, hbranch, by simp⟩
            · exact List.mem_flatMap.mpr ⟨branch, hbranch, by simp⟩
          obtain ⟨hlast, hbranches⟩ := List.forall_mem_cons.mp hbranches
          obtain ⟨hfirst, hothers⟩ := List.forall_mem_cons.mp hbranches
          exact .choice hfirst (List.forall₂_same.mpr hothers) hlast
      | declare declaration =>
          exact .declare (.same declaration.name declaration.params
            (hparts declaration.body (by simp [parts])))
      | ret value => exact .ret (hparts value (by simp [parts, children]))
      | loop condition body =>
          exact .loop (hparts condition (by simp [parts, children]))
            (hparts body (by simp [parts, children]))

/-- Frames that are the same but for hidden functions. -/
structure Frame.SameButHidden (first second : Frame) : Prop where
  vars : first.vars = second.vars
  pending : first.pending = second.pending
  functions : ∀ name : String,
    Option.Rel (Declaration.SameUnlessHidden builtins (Node.SameButHidden builtins))
      first.functions[name]? second.functions[name]?
  /-- A table may have a function under a name that is not its own.  For a call it is the name in
  the table that counts. -/
  called : ∀ name : String, name ∉ builtins →
    Option.Rel (fun declaration declaration' => declaration.params = declaration'.params ∧
      declaration.body.SameButHidden builtins declaration'.body)
      first.functions[name]? second.functions[name]?

end Trees

namespace Frame.SameButHidden

variable {σ : Type} {builtins : Builtins σ} {first second : Frame}

/-- A frame does not differ from itself. -/
theorem refl (builtins : Builtins σ) (frame : Frame) : frame.SameButHidden builtins frame := by
  refine ⟨rfl, rfl, fun name => ?_, fun name _ => ?_⟩
  · cases frame.functions[name]? with
    | none => exact .none
    | some declaration =>
        exact .some (.same declaration.name declaration.params (.refl builtins declaration.body))
  · cases frame.functions[name]? with
    | none => exact .none
    | some declaration => exact .some ⟨rfl, .refl builtins declaration.body⟩

theorem assign (hsame : first.SameButHidden builtins second) (name : String) (value : Value) :
    (first.assign name value).SameButHidden builtins (second.assign name value) :=
  ⟨congrArg (·.insert name value) hsame.vars, hsame.pending, hsame.functions, hsame.called⟩

theorem setPending (hsame : first.SameButHidden builtins second) (value : Value) :
    (first.setPending value).SameButHidden builtins (second.setPending value) :=
  ⟨hsame.vars, rfl, hsame.functions, hsame.called⟩

/-- Both tables get the function under the same name. -/
theorem declare (hsame : first.SameButHidden builtins second)
    {declaration declaration' : Declaration Node}
    (hdeclared : Declaration.SameUnlessHidden builtins (Node.SameButHidden builtins) declaration
      declaration') :
    (first.declare declaration).SameButHidden builtins (second.declare declaration') := by
  have hname : declaration'.name = declaration.name := by
    cases hdeclared <;> rfl
  refine ⟨hsame.vars, hsame.pending, fun name => ?_, fun name hvisible => ?_⟩
  · simp only [Frame.declare, Std.TreeMap.getElem?_insert, hname]
    split
    · exact .some hdeclared
    · exact hsame.functions name
  · simp only [Frame.declare, Std.TreeMap.getElem?_insert, hname]
    split
    · rename_i hcompare
      obtain rfl : declaration.name = name := Std.LawfulEqOrd.eq_of_compare hcompare
      cases hdeclared with
      | hidden hhidden => exact absurd hhidden hvisible
      | same _ _ hbody => exact .some ⟨rfl, hbody⟩
    · exact hsame.called name hvisible

end Frame.SameButHidden

/-! ### Evaluations in step -/

/-- From frames that are the same but for hidden functions, both actions stop in the same way, with
the same host, and with such frames again. -/
def InStep {σ α : Type} (builtins : Builtins σ) (run other : EvalM σ α) : Prop :=
  ∀ ⦃first second : Frame⦄ (host : σ), first.SameButHidden builtins second →
    ∃ (stop : Except (Halt EvalError) α) (after after' : Frame) (left : σ),
      after.SameButHidden builtins after' ∧
      run ⟨first, host⟩ = EvalM.stopped stop ⟨after, left⟩ ∧
      other ⟨second, host⟩ = EvalM.stopped stop ⟨after', left⟩

namespace InStep

variable {σ α β : Type} {builtins : Builtins σ} {run other : EvalM σ α}

theorem pure (value : α) : InStep builtins (pure value : EvalM σ α) (pure value) :=
  fun first second host hsame => ⟨.ok value, first, second, host, hsame, rfl, rfl⟩

theorem halt (reason : Halt EvalError) :
    InStep builtins (throw reason : EvalM σ α) (throw reason) :=
  fun first second host hsame => ⟨.error reason, first, second, host, hsame, rfl, rfl⟩

/-- Results that are given are the same on both sides. -/
theorem ofExcept (result : Except EvalError α) :
    InStep builtins (EvalM.ofExcept result : EvalM σ α) (EvalM.ofExcept result) := by
  cases result with
  | ok value => exact .pure value
  | error error => exact .halt (.failed error)

/-- The hosts are the same, and so is what they do. -/
theorem onHost (action : HostM σ α) :
    InStep builtins (EvalM.onHost action) (EvalM.onHost action) := by
  intro first second host hsame
  obtain ⟨outcome, left, haction⟩ : ∃ outcome left, action host = HostM.ended outcome left := by
    cases action host with
    | ok value left => exact ⟨.ok value, left, rfl⟩
    | error error left => exact ⟨.error error, left, rfl⟩
  exact ⟨_, first, second, left, hsame, EvalM.onHost_of_ended haction,
    EvalM.onHost_of_ended haction⟩

/-- Changes of the frame after which the two frames still differ in nothing that is not hidden. -/
theorem modifyFrame {change change' : Frame → Frame}
    (hchange : ∀ first second : Frame, first.SameButHidden builtins second →
      (change first).SameButHidden builtins (change' second)) :
    InStep builtins (EvalM.modifyFrame change : EvalM σ Unit) (EvalM.modifyFrame change') :=
  fun first second host hsame =>
    ⟨.ok (), change first, change' second, host, hchange first second hsame, rfl, rfl⟩

/-- One action after another. -/
theorem bind {next next' : α → EvalM σ β} (hrun : InStep builtins run other)
    (hnext : ∀ value, InStep builtins (next value) (next' value)) :
    InStep builtins (run >>= next) (other >>= next') := by
  intro first second host hsame
  obtain ⟨stop, middle, middle', left, hmiddle, hfirst, hsecond⟩ := hrun host hsame
  cases stop with
  | error halt =>
      exact ⟨.error halt, middle, middle', left, hmiddle, EvalM.bind_of_error hfirst next,
        EvalM.bind_of_error hsecond next'⟩
  | ok value =>
      obtain ⟨stop, after, after', last, hafter, hrest, hrest'⟩ := hnext value left hmiddle
      exact ⟨stop, after, after', last, hafter, (EvalM.bind_of_ok hfirst next).trans hrest,
        (EvalM.bind_of_ok hsecond next').trans hrest'⟩

/-- Looking at the frame. -/
theorem frame_bind {look look' : Frame → EvalM σ β}
    (hlook : ∀ first second : Frame, first.SameButHidden builtins second →
      InStep builtins (look first) (look' second)) :
    InStep builtins (EvalM.frame >>= look) (EvalM.frame >>= look') :=
  fun first second host hsame => hlook first second hsame host hsame

/-- Loops go in step from round to round. -/
theorem repeatWhile {test test' : EvalM σ Bool} {action action' : EvalM σ Value}
    (htest : InStep builtins test test') (haction : InStep builtins action action') (fuel : Nat) :
    InStep builtins (EvalM.repeatWhile test action fuel)
      (EvalM.repeatWhile test' action' fuel) := by
  induction fuel with
  | zero => exact .halt .outOfFuel
  | succ fuel ih =>
      refine bind htest fun holds => ?_
      cases holds with
      | false => exact .pure Value.none
      | true => exact bind haction fun _ => ih

/-- Both actions end in the same way, or both run out of fuel. -/
theorem ended_or_outOfFuel (hrun : InStep builtins run other) {first second : Frame}
    (hsame : first.SameButHidden builtins second) (host : σ) :
    (∃ (outcome : Except EvalError α) (after after' : Frame) (left : σ),
      after.SameButHidden builtins after' ∧
      run ⟨first, host⟩ = EvalM.ended outcome ⟨after, left⟩ ∧
      other ⟨second, host⟩ = EvalM.ended outcome ⟨after', left⟩) ∨
    (∃ after, run ⟨first, host⟩ = .error .outOfFuel after) ∧
      ∃ after', other ⟨second, host⟩ = .error .outOfFuel after' := by
  obtain ⟨stop, after, after', left, hafter, hfirst, hsecond⟩ := hrun host hsame
  cases stop with
  | ok value => exact Or.inl ⟨.ok value, after, after', left, hafter, hfirst, hsecond⟩
  | error halt =>
      cases halt with
      | failed error => exact Or.inl ⟨.error error, after, after', left, hafter, hfirst, hsecond⟩
      | outOfFuel => exact Or.inr ⟨⟨_, hfirst⟩, _, hsecond⟩

end InStep

namespace Node

variable {σ : Type} {builtins : Builtins σ}

section Layer

variable {eval : Node → EvalM σ Value}

/-- A call stops as the body does in a frame of its own, and has what is returned there. -/
theorem callWith_of_stopped {declaration : Declaration Node} {values : List Value}
    {frame after : Frame} {host left : σ} {stop : Except (Halt EvalError) Value}
    (hbody : eval declaration.body ⟨Frame.ofCall declaration.params values, host⟩ =
      EvalM.stopped stop ⟨after, left⟩) :
    callWith eval declaration values ⟨frame, host⟩ =
      EvalM.stopped (stop.map fun _ => after.returned) ⟨frame, left⟩ := by
  have hinner : EvalM.inFrame (Frame.ofCall declaration.params values) (eval declaration.body)
      ⟨frame, host⟩ = EvalM.stopped (stop.map fun _ => after) ⟨frame, left⟩ :=
    EvalM.inFrame_of_stopped hbody
  cases stop with
  | error halt => exact EvalM.bind_of_error hinner _
  | ok value => exact EvalM.bind_of_ok hinner _

/-- Calls go in step if the bodies do, since both start in the same frame. -/
theorem callWith_inStep {declaration declaration' : Declaration Node}
    (hparams : declaration.params = declaration'.params)
    (hbody : InStep builtins (eval declaration.body) (eval declaration'.body))
    (values : List Value) :
    InStep builtins (callWith eval declaration values) (callWith eval declaration' values) := by
  intro first second host hsame
  obtain ⟨stop, after, after', left, hafter, hfirst, hsecond⟩ :=
    hbody host (.refl builtins (Frame.ofCall declaration.params values))
  rw [hparams] at hsecond
  refine ⟨_, first, second, left, hsame, callWith_of_stopped hfirst, ?_⟩
  rw [callWith_of_stopped hsecond, Frame.returned, Frame.returned, hafter.pending]

variable (heval : ∀ {node node' : Node}, node.SameButHidden builtins node' →
  InStep builtins (eval node) (eval node'))

include heval

/-- Tests go in step. -/
theorem testWith_inStep {predicate predicate' : Node}
    (hpredicate : predicate.SameButHidden builtins predicate') :
    InStep builtins (testWith eval predicate) (testWith eval predicate') := by
  refine (heval hpredicate).bind fun value => ?_
  cases value with
  | bool value => exact .pure value
  | int | str | none => exact .halt _

/-- Arguments go in step, one after another. -/
theorem evalAllWith_inStep {nodes nodes' : List Node}
    (hnodes : List.Forall₂ (SameButHidden builtins) nodes nodes') :
    InStep builtins (evalAllWith eval nodes) (evalAllWith eval nodes') := by
  induction hnodes with
  | nil => exact .pure []
  | cons hnode _ ih =>
      exact (heval hnode).bind fun value => ih.bind fun values => .pure (value :: values)

/-- Statements go in step, one after another. -/
theorem runAllWith_inStep {nodes nodes' : List Node}
    (hnodes : List.Forall₂ (SameButHidden builtins) nodes nodes') :
    InStep builtins (runAllWith eval nodes) (runAllWith eval nodes') := by
  induction hnodes with
  | nil => exact .pure Value.none
  | cons hnode _ ih => exact (heval hnode).bind fun _ => ih

/-- Branches go in step: their tests have the same result. -/
theorem runBranchWith_inStep {branch branch' : Branch Node}
    (hbranch : Branch.Related (SameButHidden builtins) branch branch') :
    InStep builtins (runBranchWith eval branch) (runBranchWith eval branch') := by
  obtain ⟨hpredicate, hbody⟩ := hbranch
  refine (testWith_inStep heval hpredicate).bind fun holds => ?_
  cases holds with
  | false => exact .pure Value.none
  | true => exact (heval hbody).bind fun _ => .pure Value.none

/-- Choices go in step: the same branch is taken. -/
theorem runChoiceWith_inStep {last last' : Branch Node} {branches branches' : List (Branch Node)}
    (hlast : Branch.Related (SameButHidden builtins) last last')
    (hbranches : List.Forall₂ (Branch.Related (SameButHidden builtins)) branches branches') :
    InStep builtins (runChoiceWith eval last branches) (runChoiceWith eval last' branches') := by
  induction hbranches with
  | nil => exact runBranchWith_inStep heval hlast
  | cons hbranch _ ih =>
      obtain ⟨hpredicate, hbody⟩ := hbranch
      refine (testWith_inStep heval hpredicate).bind fun holds => ?_
      cases holds with
      | false => exact ih
      | true => exact runBranchWith_inStep heval (.intro hpredicate hbody)

/-- **One layer of evaluation goes in step**, if the evaluations of the parts do.  At a call there
are three cases, and hidden functions are in none of them: there is a builtin of the name, there is
a function that no builtin hides, or there is neither. -/
theorem evalWith_inStep (fuel : Nat) {node node' : Node}
    (hnode : node.SameButHidden builtins node') :
    InStep builtins (evalWith eval builtins fuel node) (evalWith eval builtins fuel node') := by
  cases hnode with
  | integer | string | bool | void => exact .pure _
  | binary op hlhs hrhs =>
      exact (heval hlhs).bind fun left => (heval hrhs).bind fun right => .ofExcept _
  | unary op harg => exact (heval harg).bind fun value => .ofExcept _
  | read name =>
      refine .frame_bind fun first second hsame => ?_
      rw [hsame.vars]
      cases second.vars[name]? with
      | none => exact .halt _
      | some value => exact .pure value
  | assign name hvalue =>
      refine (heval hvalue).bind fun result => ?_
      exact (InStep.modifyFrame fun _ _ hsame => hsame.assign name result).bind fun _ => .pure _
  | block hbody => exact runAllWith_inStep heval hbody
  | program hbody => exact runAllWith_inStep heval hbody
  | guarded hbranch => exact runBranchWith_inStep heval hbranch
  | choice hfirst hothers hlast =>
      exact runChoiceWith_inStep heval hlast (.cons hfirst hothers)
  | declare hdeclared =>
      exact (InStep.modifyFrame fun _ _ hsame => hsame.declare hdeclared).bind fun _ => .pure _
  | call name hargs =>
      rw [evalWith, evalWith]
      cases hbuiltin : builtins[name]? with
      | some builtin => exact (evalAllWith_inStep heval hargs).bind fun values => .onHost _
      | none =>
          have hname : name ∉ builtins := by
            simp [Std.TreeMap.mem_iff_isSome_getElem?, hbuiltin]
          refine .frame_bind fun first second hsame => ?_
          have hfound := hsame.called name hname
          generalize first.functions[name]? = found at hfound
          generalize second.functions[name]? = found' at hfound
          cases hfound with
          | none => exact .halt _
          | some hfound =>
              exact (evalAllWith_inStep heval hargs).bind
                (callWith_inStep hfound.1 (heval hfound.2))
  | ret hvalue =>
      refine (heval hvalue).bind fun result => ?_
      exact (InStep.modifyFrame fun _ _ hsame => hsame.setPending result).bind fun _ => .pure _
  | loop hcondition hbody =>
      exact (testWith_inStep heval hcondition).repeatWhile (heval hbody) fuel

end Layer

/-- **Evaluations of trees that are the same but for hidden functions go in step**, with any fuel.
No hidden body is ever evaluated, so they even use their fuel alike. -/
theorem eval_inStep (fuel : Nat) {node node' : Node} (hnode : node.SameButHidden builtins node') :
    InStep builtins (node.eval builtins fuel) (node'.eval builtins fuel) := by
  induction fuel generalizing node node' with
  | zero => exact .halt .outOfFuel
  | succ fuel ih => exact evalWith_inStep ih fuel hnode

/-- **Functions under the names of builtins are inert.**  Take two trees that are the same but for
the parameters and bodies of such functions.  In one frame and against one host, the evaluation of
the one completes if and only if that of the other does.  Then both have the same value or error,
the same host, variables and return value, and tables with the same functions, which again are the
same but for the parameters and bodies of functions under the names of builtins. -/
theorem hidden_functions_are_inert (builtins : Builtins σ) (node node' : Node)
    (hnode : node.SameButHidden builtins node') (frame : Frame) (host : σ) :
    ((∃ outcome after, node.Completes builtins ⟨frame, host⟩ outcome after) ↔
      ∃ outcome after, node'.Completes builtins ⟨frame, host⟩ outcome after) ∧
    ∀ outcome outcome' after after', node.Completes builtins ⟨frame, host⟩ outcome after →
      node'.Completes builtins ⟨frame, host⟩ outcome' after' →
      outcome = outcome' ∧ after.host = after'.host ∧
      after.frame.vars = after'.frame.vars ∧ after.frame.pending = after'.frame.pending ∧
      ∀ name : String,
        Option.Rel (Declaration.SameUnlessHidden builtins (SameButHidden builtins))
          after.frame.functions[name]? after'.frame.functions[name]? := by
  have hboth (fuel : Nat) :=
    (eval_inStep fuel hnode).ended_or_outOfFuel (.refl builtins frame) host
  refine ⟨⟨?_, ?_⟩, ?_⟩
  · rintro ⟨outcome, after, fuel, hfirst⟩
    rcases hboth fuel with ⟨outcome', _, _, _, _, -, hsecond⟩ | ⟨⟨_, hfuel⟩, -⟩
    · exact ⟨outcome', _, fuel, hsecond⟩
    · exact absurd (hfirst.symm.trans hfuel) EvalM.ended_ne_outOfFuel
  · rintro ⟨outcome, after, fuel, hsecond⟩
    rcases hboth fuel with ⟨outcome', _, _, _, _, hfirst, -⟩ | ⟨-, _, hfuel⟩
    · exact ⟨outcome', _, fuel, hfirst⟩
    · exact absurd (hsecond.symm.trans hfuel) EvalM.ended_ne_outOfFuel
  · rintro outcome outcome' after after' ⟨fuel, hfirst⟩ hcompletes'
    rcases hboth fuel with ⟨_, _, _, _, hframes, hrun, hrun'⟩ | ⟨⟨_, hfuel⟩, -⟩
    · obtain ⟨rfl, rfl⟩ := EvalM.ended_inj (hfirst.symm.trans hrun)
      obtain ⟨rfl, rfl⟩ := hcompletes'.unique ⟨fuel, hrun'⟩
      exact ⟨rfl, rfl, hframes.vars, hframes.pending, hframes.functions⟩
    · exact absurd (hfirst.symm.trans hfuel) EvalM.ended_ne_outOfFuel

/-- A program with a function that declares `print` anew before it prints, given what it declares
there. -/
def printsBehind (params : List String) (body : Node) : Node :=
  .program
    [.declare ⟨"greet", [], .block [.declare ⟨"print", params, body⟩, .call "print" [.string "hi"],
      .ret (.integer 1)]⟩,
    .assign "x" (.call "greet" [])]

/-- Two such programs end alike: one whose `print` would return its argument, and one whose `print`
would never end. -/
theorem printsBehind_inert :
    ∃ after after' : State MemoryHost,
      (printsBehind ["text"] (.block [.ret (.read "text")])).Completes Builtins.standard ⟨{}, {}⟩
        (.ok .none) after ∧
      (printsBehind [] (.loop (.bool true) .void)).Completes Builtins.standard ⟨{}, {}⟩
        (.ok .none) after' ∧
      after.host.output = "hi\n" ∧ after.host = after'.host ∧
      after.frame.vars = after'.frame.vars := by
  have hnode : (printsBehind ["text"] (.block [.ret (.read "text")])).SameButHidden
      (Builtins.standard : Builtins MemoryHost) (printsBehind [] (.loop (.bool true) .void)) := by
    have hprint : "print" ∈ (Builtins.standard : Builtins MemoryHost) := by decide
    refine .program (.cons (.declare (.same "greet" [] (.block ?_))) (List.forall₂_same.mpr ?_))
    · exact .cons (.declare (.hidden hprint _ _ _ _))
        (List.forall₂_same.mpr fun node _ => .refl _ node)
    · exact fun node _ => .refl _ node
  obtain ⟨hiff, hsame⟩ := hidden_functions_are_inert _ _ _ hnode {} {}
  obtain ⟨after, hcompletes, houtput⟩ : ∃ after : State MemoryHost,
      (printsBehind ["text"] (.block [.ret (.read "text")])).Completes Builtins.standard ⟨{}, {}⟩
        (.ok .none) after ∧ after.host.output = "hi\n" := ⟨_, ⟨7, rfl⟩, rfl⟩
  obtain ⟨outcome', after', hcompletes'⟩ := hiff.mp ⟨_, _, hcompletes⟩
  obtain ⟨rfl, hhost, hvars, -⟩ := hsame _ _ _ _ hcompletes hcompletes'
  exact ⟨after, after', hcompletes, hcompletes', houtput, hhost, hvars⟩

end Node

end FlatScript
