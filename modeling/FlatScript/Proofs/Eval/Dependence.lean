import FlatScript.Proofs.Eval.Scope

/-!
# The scope of a tree

What an evaluation looks up and changes in its frame can be read off the tree: it looks up the
variables that are read and the functions that are called somewhere in it, and it makes the
assignments, declarations and returns that occur in it.  The bodies of declared functions do not
count, since they are only evaluated in frames of their own.

`Node.eval_alike` is the theorem: within this scope, an evaluation is alike in frames that agree,
with any fuel that is enough.  It is an induction on the fuel, with one case for each kind of tree.
-/

namespace FlatScript

namespace Node

/-- The trees directly below a tree.  The body of a declared function is not among them. -/
def children : Node → List Node
  | .integer _ | .string _ | .bool _ | .void | .read _ | .declare _ => []
  | .binary lhs _ rhs => [lhs, rhs]
  | .unary _ arg => [arg]
  | .assign _ value => [value]
  | .block body | .program body => body
  | .guarded branch => [branch.predicate, branch.body]
  | .choice first others last =>
    (last :: first :: others).flatMap fun branch => [branch.predicate, branch.body]
  | .call _ args => args
  | .ret value => [value]
  | .loop condition body => [condition, body]

/-- `part.Occurs whole`: the tree `part` stands in `whole`, outside the bodies of the functions that
are declared there. -/
inductive Occurs (part : Node) : Node → Prop
  | here : Occurs part part
  | inside {whole child : Node} (hchild : child ∈ whole.children) (hoccurs : Occurs part child) :
      Occurs part whole

open FlatScript.Frame

/-- The updates that a tree can make. -/
def Makes (node : Node) : Update → Prop
  | .assign name _ => ∃ value, (Node.assign name value).Occurs node
  | .declare declaration => (Node.declare declaration).Occurs node
  | .setPending _ => ∃ value, (Node.ret value).Occurs node

variable {σ : Type}

/-- The scope of a tree: the variables that it reads, the functions that it calls and that are no
builtins, and the updates that it makes. -/
def scope (builtins : Builtins σ) (node : Node) : Scope where
  reads name := (Node.read name).Occurs node
  calls name := builtins[name]? = none ∧ ∃ args, (Node.call name args).Occurs node
  writes := node.Makes

/-- The scope of a child is within that of the tree. -/
theorem scope_within (builtins : Builtins σ) {child node : Node} (hchild : child ∈ node.children) :
    (child.scope builtins).Within (node.scope builtins) where
  reads _ hreads := .inside hchild hreads
  calls _ hcalls := ⟨hcalls.1, hcalls.2.imp fun _ hcall => .inside hchild hcall⟩
  writes update hwrites := by
    cases update with
    | assign name value => exact hwrites.imp fun _ hassign => .inside hchild hassign
    | declare declaration => exact .inside hchild hwrites
    | setPending value => exact hwrites.imp fun _ hret => .inside hchild hret

section Layer

variable {scope : Scope} {eval evalAgain : Node → EvalM σ Value}

/-- Tests keep to the scope of their predicates. -/
theorem testWith_alike {predicate : Node}
    (hpredicate : scope.Alike (eval predicate) (evalAgain predicate)) :
    scope.Alike (testWith eval predicate) (testWith evalAgain predicate) := by
  refine hpredicate.bind fun value => ?_
  cases value with
  | bool value => exact .pure value
  | int | str | none => exact .fail _

/-- Evaluating one tree after another keeps to the scope. -/
theorem evalAllWith_alike {nodes : List Node}
    (hnodes : ∀ node ∈ nodes, scope.Alike (eval node) (evalAgain node)) :
    scope.Alike (evalAllWith eval nodes) (evalAllWith evalAgain nodes) := by
  induction nodes with
  | nil => exact .pure []
  | cons node nodes ih =>
      obtain ⟨hnode, hnodes⟩ := List.forall_mem_cons.mp hnodes
      exact hnode.bind fun value => (ih hnodes).bind fun values => .pure (value :: values)

/-- Running one statement after another keeps to the scope. -/
theorem runAllWith_alike {nodes : List Node}
    (hnodes : ∀ node ∈ nodes, scope.Alike (eval node) (evalAgain node)) :
    scope.Alike (runAllWith eval nodes) (runAllWith evalAgain nodes) := by
  induction nodes with
  | nil => exact .pure Value.none
  | cons node nodes ih =>
      obtain ⟨hnode, hnodes⟩ := List.forall_mem_cons.mp hnodes
      exact hnode.bind fun _ => ih hnodes

/-- Branches keep to the scope of their predicates and bodies. -/
theorem runBranchWith_alike {branch : Branch Node}
    (hpredicate : scope.Alike (eval branch.predicate) (evalAgain branch.predicate))
    (hbody : scope.Alike (eval branch.body) (evalAgain branch.body)) :
    scope.Alike (runBranchWith eval branch) (runBranchWith evalAgain branch) := by
  refine (testWith_alike hpredicate).bind fun holds => ?_
  cases holds with
  | false => exact .pure Value.none
  | true => exact hbody.bind fun _ => .pure Value.none

/-- Choices keep to the scope of their branches, the last included. -/
theorem runChoiceWith_alike {last : Branch Node} {branches : List (Branch Node)}
    (hbranches : ∀ branch ∈ last :: branches,
      scope.Alike (eval branch.predicate) (evalAgain branch.predicate) ∧
        scope.Alike (eval branch.body) (evalAgain branch.body)) :
    scope.Alike (runChoiceWith eval last branches) (runChoiceWith evalAgain last branches) := by
  obtain ⟨hlast, hbranches⟩ := List.forall_mem_cons.mp hbranches
  induction branches with
  | nil => exact runBranchWith_alike hlast.1 hlast.2
  | cons branch branches ih =>
      obtain ⟨hbranch, hothers⟩ := List.forall_mem_cons.mp hbranches
      refine (testWith_alike hbranch.1).bind fun holds => ?_
      cases holds with
      | false => exact ih (List.forall_mem_cons.mpr ⟨hlast, hothers⟩) hothers
      | true => exact runBranchWith_alike hbranch.1 hbranch.2

/-- A call runs the body in a frame of its own, so what the body does has no part in the scope. -/
theorem callWith_alike {inner : Scope} {declaration : Declaration Node} (args : List Value)
    (hbody : inner.Alike (eval declaration.body) (evalAgain declaration.body)) :
    scope.Alike (callWith eval declaration args) (callWith evalAgain declaration args) :=
  (hbody.inFrame _).bind fun frame => .pure frame.returned

end Layer

/-- **One layer of evaluation keeps to the scope of its tree**, if the evaluation of every part
keeps to the scope of the part. -/
theorem evalWith_alike (builtins : Builtins σ) {eval evalAgain : Node → EvalM σ Value}
    (heval : ∀ part : Node, (part.scope builtins).Alike (eval part) (evalAgain part))
    {fuel fuelAgain : Nat} (hfuel : fuel ≤ fuelAgain) (node : Node) :
    (node.scope builtins).Alike (evalWith eval builtins fuel node)
      (evalWith evalAgain builtins fuelAgain node) := by
  have hchild : ∀ child ∈ node.children,
      (node.scope builtins).Alike (eval child) (evalAgain child) :=
    fun child hmem => (heval child).widen (scope_within builtins hmem)
  cases node with
  | integer value => exact .pure _
  | string value => exact .pure _
  | bool value => exact .pure _
  | void => exact .pure _
  | binary lhs op rhs =>
      refine (hchild lhs (by simp [children])).bind fun left => ?_
      refine (hchild rhs (by simp [children])).bind fun right => ?_
      exact .ofExcept _
  | unary op arg => exact (hchild arg (by simp [children])).bind fun value => .ofExcept _
  | read name =>
      refine .frame_bind fun first second hagree => ?_
      rw [hagree.vars name .here]
      cases second.vars[name]? with
      | none => exact .fail _
      | some value => exact .pure value
  | assign name value =>
      refine (hchild value (by simp [children])).bind fun result => ?_
      have hwrites : ((Node.assign name value).scope builtins).writes (.assign name result) :=
        ⟨value, .here⟩
      exact (Scope.Alike.update hwrites).bind fun _ => .pure _
  | block body => exact runAllWith_alike hchild
  | program body => exact runAllWith_alike hchild
  | guarded branch =>
      exact runBranchWith_alike (hchild _ (by simp [children])) (hchild _ (by simp [children]))
  | choice first others last =>
      refine runChoiceWith_alike fun branch hbranch => ⟨hchild _ ?_, hchild _ ?_⟩
      · exact List.mem_flatMap.mpr ⟨branch, hbranch, by simp⟩
      · exact List.mem_flatMap.mpr ⟨branch, hbranch, by simp⟩
  | declare declaration =>
      have hwrites : ((Node.declare declaration).scope builtins).writes (.declare declaration) :=
        .here
      exact (Scope.Alike.update hwrites).bind fun _ => .pure _
  | call name args =>
      rw [evalWith, evalWith]
      cases hbuiltin : builtins[name]? with
      | some builtin => exact (evalAllWith_alike hchild).bind fun values => .onHost _
      | none =>
          refine .frame_bind fun first second hagree => ?_
          rw [hagree.functions name ⟨hbuiltin, args, .here⟩]
          cases second.functions[name]? with
          | none => exact .fail _
          | some declaration =>
              -- The scope of the body plays no part: it runs in a frame of its own.
              exact (evalAllWith_alike hchild).bind fun values =>
                callWith_alike values (heval declaration.body)
  | ret value =>
      refine (hchild value (by simp [children])).bind fun result => ?_
      have hwrites : ((Node.ret value).scope builtins).writes (.setPending result) :=
        ⟨value, .here⟩
      exact (Scope.Alike.update hwrites).bind fun _ => .pure _
  | loop condition body =>
      exact (testWith_alike (hchild condition (by simp [children]))).repeatWhile
        (hchild body (by simp [children])) hfuel

/-- **Evaluation keeps to the scope of its tree**, and more fuel changes nothing about a run that
ends. -/
theorem eval_alike (builtins : Builtins σ) {fuel fuelAgain : Nat} (hfuel : fuel ≤ fuelAgain)
    (node : Node) :
    (node.scope builtins).Alike (node.eval builtins fuel) (node.eval builtins fuelAgain) := by
  induction fuel generalizing node fuelAgain with
  | zero => exact .outOfFuel
  | succ fuel ih =>
      obtain ⟨fuelAgain, rfl⟩ : ∃ more, fuelAgain = more + 1 := ⟨fuelAgain - 1, by omega⟩
      exact evalWith_alike builtins (fun part => ih (by omega) part) (by omega) node

end Node

end FlatScript
