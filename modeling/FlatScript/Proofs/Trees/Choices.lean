import FlatScript.Proofs.Eval.Footprint
import FlatScript.Proofs.Eval.Operators

/-!
# The choices of a program

Whatever tokens a program is read from, the predicates of its choices are trees that stand for
values, and the last branch of each choice is always taken.  This holds of the choices at any depth
and of those in the bodies of functions.

It is a fact about the grammar.  The tokens need not be such as a source has, so the names and
numbers in the tree can be any.
-/

namespace FlatScript

namespace Node

/-- Whatever stands in a tree that stands for a value, be it in the body of a function, is such a
tree: there are no functions in it. -/
theorem IsValueTree.of_within {part node : Node} (hnode : node.IsValueTree)
    (hpart : part.Within node) : part.IsValueTree := by
  induction hpart with
  | here => exact hnode
  | @inside whole between hbetween _ ih =>
      refine ih (hnode.of_mem_children ?_)
      cases hnode <;> exact hbetween

/-- Each choice in the tree tests trees that stand for values, and its last branch is always taken.
-/
def TestsValues (node : Node) : Prop :=
  ∀ (first : Branch Node) (others : List (Branch Node)) (last : Branch Node),
    (Node.choice first others last).Within node →
      (∀ branch ∈ first :: others, branch.predicate.IsValueTree) ∧ last.predicate = .bool true

/-- There is no choice in a tree that stands for a value. -/
theorem IsValueTree.testsValues {node : Node} (hnode : node.IsValueTree) : node.TestsValues := by
  intro first others last hwithin
  cases hnode.of_within hwithin

/-- A tree that is no choice passes on what its parts are. -/
theorem testsValues_of_parts {node : Node}
    (hnode : ∀ first others last, node ≠ .choice first others last)
    (hparts : ∀ part ∈ node.parts, part.TestsValues) : node.TestsValues := by
  intro first others last hwithin
  cases hwithin with
  | here => exact absurd rfl (hnode first others last)
  | inside hbetween hwithin => exact hparts _ hbetween first others last hwithin

/-- A choice, given its predicates and what its bodies are. -/
theorem testsValues_choice {first last : Branch Node} {others : List (Branch Node)}
    (hvalues : ∀ branch ∈ first :: others, branch.predicate.IsValueTree)
    (hlast : last.predicate = .bool true)
    (hbodies : ∀ branch ∈ last :: first :: others, branch.body.TestsValues) :
    (Node.choice first others last).TestsValues := by
  have hpredicates : ∀ branch ∈ last :: first :: others, branch.predicate.TestsValues := by
    refine List.forall_mem_cons.mpr ⟨?_, fun branch hbranch => (hvalues branch hbranch).testsValues⟩
    rw [hlast]
    exact (IsValueTree.bool true).testsValues
  intro first' others' last' hwithin
  cases hwithin with
  | here => exact ⟨hvalues, hlast⟩
  | inside hbetween hwithin =>
      obtain ⟨branch, hbranch, hpart⟩ := List.mem_flatMap.mp hbetween
      rcases List.mem_cons.mp hpart with rfl | hpart
      · exact hpredicates branch hbranch first' others' last' hwithin
      · rw [List.mem_singleton.mp hpart] at hwithin
        exact hbodies branch hbranch first' others' last' hwithin

end Node

namespace Grammar

open Node

/-- The meanings of a phrase that stand for values. -/
def Phrase.MeansValue : (phrase : Phrase) → phrase.Meaning → Prop
  | .expression _ | .call | .item .argument => IsValueTree
  | .links _ => fun extend => ∀ lhs, lhs.IsValueTree → (extend lhs).IsValueTree
  | .items .argument | .moreItems .argument => fun args => ∀ arg ∈ args, arg.IsValueTree
  | .item .parameter => fun _ => True
  | .items .parameter | .moreItems .parameter => fun _ => True

/-- **An expression stands for a value.** -/
theorem Phrase.Derivation.meansValue {phrase : Phrase} (d : phrase.Derivation) :
    phrase.MeansValue d.meaning := by
  induction d with
  | integer token value => exact .integer value
  | signed sign arg ih => exact .unary ih
  | parens left inner right ih => exact ih
  | trueWord token => exact .bool true
  | falseWord token => exact .bool false
  | string token => exact .string _
  | called inner ih => exact ih
  | read name => exact .read _
  | chain first tail ihfirst ihtail => exact ihtail _ ihfirst
  | noLink => exact fun lhs hlhs => hlhs
  | link op operand tail ihoperand ihtail =>
      exact fun lhs hlhs => ihtail _ (.binary hlhs ihoperand)
  | call name left args right ih => exact .call ih
  | argument sum ih => exact ih
  | parameter name => trivial
  | @noItems sort =>
      cases sort with
      | argument => exact nofun
      | parameter => trivial
  | @someItems sort first others ihfirst ihothers =>
      cases sort with
      | argument => exact List.forall_mem_cons.mpr ⟨ihfirst, ihothers⟩
      | parameter => trivial
  | @lastItem sort =>
      cases sort with
      | argument => exact nofun
      | parameter => trivial
  | @nextItem sort comma first others ihfirst ihothers =>
      cases sort with
      | argument => exact List.forall_mem_cons.mpr ⟨ihfirst, ihothers⟩
      | parameter => trivial

/-- The meanings of a clause whose choices test values. -/
def Clause.TestsValues : (clause : Clause) → clause.Meaning → Prop
  | .statement _ | .block _ | .program => Node.TestsValues
  | .statements _ => fun nodes => ∀ node ∈ nodes, node.TestsValues
  | .otherBranches => fun branches => ∀ branch ∈ branches,
    branch.predicate.IsValueTree ∧ branch.body.TestsValues
  | .lastBranch => fun branch => branch.predicate = .bool true ∧ branch.body.TestsValues

/-- **What the grammar derives tests values.** -/
theorem Clause.Derivation.testsValues {clause : Clause} (d : clause.Derivation) :
    clause.TestsValues d.meaning := by
  induction d with
  | assign varWord name sign value =>
      exact testsValues_of_parts nofun (List.forall_mem_singleton.mpr value.meansValue.testsValues)
  | choice ifWord predicate body others last ihbody ihothers ihlast =>
      refine testsValues_choice ?_ ihlast.1 ?_
      · exact List.forall_mem_cons.mpr
          ⟨predicate.meansValue, fun branch hbranch => (ihothers branch hbranch).1⟩
      · refine List.forall_mem_cons.mpr ⟨ihlast.2, List.forall_mem_cons.mpr ⟨ihbody, ?_⟩⟩
        exact fun branch hbranch => (ihothers branch hbranch).2
  | declare funcWord name left params right body ihbody =>
      exact testsValues_of_parts nofun (List.forall_mem_singleton.mpr ihbody)
  | call inner => exact IsValueTree.testsValues inner.meansValue
  | loop whileWord condition body ihbody =>
      refine testsValues_of_parts nofun (List.forall_mem_cons.mpr ⟨?_, ?_⟩)
      · exact IsValueTree.testsValues condition.meansValue
      · exact List.forall_mem_singleton.mpr ihbody
  | ret returnWord value =>
      exact testsValues_of_parts nofun (List.forall_mem_singleton.mpr value.meansValue.testsValues)
  | noStatement => exact nofun
  | nextStatement first others ihfirst ihothers =>
      exact List.forall_mem_cons.mpr ⟨ihfirst, ihothers⟩
  | block left body right ihbody => exact testsValues_of_parts nofun ihbody
  | noBranch => exact nofun
  | nextBranch elseifWord predicate body others ihbody ihothers =>
      exact List.forall_mem_cons.mpr ⟨⟨predicate.meansValue, ihbody⟩, ihothers⟩
  | noElse => exact ⟨rfl, testsValues_of_parts nofun nofun⟩
  | elseBranch elseWord body ihbody => exact ⟨rfl, ihbody⟩
  | program body finish ihbody => exact testsValues_of_parts nofun ihbody

/-- From any place among any tokens, the program that is read tests values. -/
theorem readProgram_testsValues {start after : Cursor} {program : Node}
    (hread : Parser.readProgram start = .ok program after) : program.TestsValues := by
  rw [Parser.readProgram, Parser.remaining_bind] at hread
  obtain ⟨nodes, middle, hstatements, hrest⟩ := Parser.bind_eq_ok.mp hread
  obtain ⟨-, hpure⟩ := expect_eof_bind_eq_ok hrest
  obtain ⟨rfl, -⟩ := Parser.pure_eq_ok.mp hpure
  obtain ⟨d, rfl, -⟩ := statements_sound _ false (Nat.le_refl _) hstatements
  exact testsValues_of_parts (by rintro _ _ _ ⟨⟩) d.testsValues

end Grammar

/-- The tree of a script is a program that is read. -/
theorem Script.readProgram_of_tree {source : String} {program : Node}
    (htree : Script.tree source = .ok program) :
    ∃ start after, Parser.readProgram start = .ok program after := by
  obtain ⟨tokens, -, hprogram⟩ := Script.tree_eq_ok_iff.mp htree
  rw [Node.ofTokens] at hprogram
  split at hprogram
  · next read after hread =>
      cases hprogram
      exact ⟨_, after, hread⟩
  · cases hprogram

end FlatScript
