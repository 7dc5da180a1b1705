import FlatScript.Proofs.Eval.Dependence

/-!
# Measures of trees

A measure of a tree is worked out from the measures of its parts, and the body of a declared
function is a part of the declaration.  `Node.fold` is this recursion, and `Node.fold_eq` says what
it does in one equation for all kinds of trees.

Three measures are taken: how deep function declarations are nested in each other, how high the tree
is, and whether it is free of loops.
-/

namespace FlatScript

namespace Node

/-- The trees directly below a tree, the body of a declared function among them. -/
def parts : Node → List Node
  | .declare declaration => [declaration.body]
  | node => node.children

theorem mem_parts_of_mem_children {child node : Node} (hchild : child ∈ node.children) :
    child ∈ node.parts := by
  cases node with
  | declare => cases hchild
  | _ => exact hchild

variable {α : Type}

mutual

/-- Combines a tree with what its parts come to, from the leaves to the root. -/
def fold (combine : Node → List α → α) : Node → α
  | .integer value => combine (.integer value) []
  | .string value => combine (.string value) []
  | .bool value => combine (.bool value) []
  | .void => combine .void []
  | .binary lhs op rhs => combine (.binary lhs op rhs) [lhs.fold combine, rhs.fold combine]
  | .unary op arg => combine (.unary op arg) [arg.fold combine]
  | .read name => combine (.read name) []
  | .assign name value => combine (.assign name value) [value.fold combine]
  | .block body => combine (.block body) (foldNodes combine body)
  | .program body => combine (.program body) (foldNodes combine body)
  | .guarded branch => combine (.guarded branch) (foldBranch combine branch)
  | .choice first others last =>
    combine (.choice first others last)
      (foldBranch combine last ++ (foldBranch combine first ++ foldBranches combine others))
  | .declare declaration => combine (.declare declaration) [foldBody combine declaration]
  | .call name args => combine (.call name args) (foldNodes combine args)
  | .ret value => combine (.ret value) [value.fold combine]
  | .loop condition body =>
    combine (.loop condition body) [condition.fold combine, body.fold combine]

/-- What several trees come to. -/
def foldNodes (combine : Node → List α → α) : List Node → List α
  | [] => []
  | node :: nodes => node.fold combine :: foldNodes combine nodes

/-- What the two trees of a branch come to. -/
def foldBranch (combine : Node → List α → α) : Branch Node → List α
  | ⟨predicate, body⟩ => [predicate.fold combine, body.fold combine]

/-- What the trees of several branches come to. -/
def foldBranches (combine : Node → List α → α) : List (Branch Node) → List α
  | [] => []
  | branch :: branches => foldBranch combine branch ++ foldBranches combine branches

/-- What the body of a declaration comes to. -/
def foldBody (combine : Node → List α → α) : Declaration Node → α
  | ⟨_, _, body⟩ => body.fold combine

end

section Fold

variable (combine : Node → List α → α)

/-- A list of trees is folded tree by tree. -/
theorem foldNodes_eq_map (nodes : List Node) :
    foldNodes combine nodes = nodes.map (fold combine) := by
  induction nodes with
  | nil => rfl
  | cons node nodes ih => rw [foldNodes, ih, List.map_cons]

theorem foldBranch_eq_map (branch : Branch Node) :
    foldBranch combine branch = [branch.predicate, branch.body].map (fold combine) := by
  obtain ⟨predicate, body⟩ := branch
  rfl

theorem foldBranches_eq_map (branches : List (Branch Node)) :
    foldBranches combine branches =
      (branches.flatMap fun branch => [branch.predicate, branch.body]).map (fold combine) := by
  induction branches with
  | nil => rfl
  | cons branch branches ih =>
      rw [foldBranches, ih, foldBranch_eq_map, List.flatMap_cons, List.map_append]

/-- **A tree is folded with what its parts are folded to.** -/
theorem fold_eq (node : Node) :
    node.fold combine = combine node (node.parts.map (fold combine)) := by
  cases node with
  | block body =>
      rw [fold, foldNodes_eq_map]
      rfl
  | program body =>
      rw [fold, foldNodes_eq_map]
      rfl
  | call name args =>
      rw [fold, foldNodes_eq_map]
      rfl
  | guarded branch =>
      rw [fold, foldBranch_eq_map]
      rfl
  | choice first others last =>
      rw [fold, foldBranch_eq_map, foldBranch_eq_map, foldBranches_eq_map]
      rfl
  | declare declaration =>
      obtain ⟨name, params, body⟩ := declaration
      rfl
  | _ => rfl

end Fold

/-- Whether all that a tree is made of passes a check, the bodies of its functions included. -/
def all (check : Node → Bool) : Node → Bool :=
  fold fun node parts => check node && parts.all id

/-- A check holds all over a tree if it holds of the root and all over each part. -/
theorem all_iff {check : Node → Bool} {node : Node} :
    node.all check = true ↔
      check node = true ∧ ∀ part ∈ node.parts, part.all check = true := by
  rw [all, fold_eq, Bool.and_eq_true, List.all_map, List.all_eq_true]
  rfl

/-! ### Nesting of declarations -/

/-- Whether a tree is a function declaration. -/
def isDeclare : Node → Bool
  | .declare _ => true
  | _ => false

/-- How many function declarations are nested in each other, at the most. -/
def declDepth : Node → Nat :=
  fold fun node depths => (depths.max?).getD 0 + if node.isDeclare then 1 else 0

/-- A declaration is one deeper than its body. -/
theorem declDepth_declare (declaration : Declaration Node) :
    (Node.declare declaration).declDepth = declaration.body.declDepth + 1 := by
  rw [declDepth, fold_eq]
  rfl

/-- Declarations are nested in a child no deeper than in its tree. -/
theorem declDepth_le_of_mem_children {child node : Node} (hchild : child ∈ node.children) :
    child.declDepth ≤ node.declDepth := by
  have hpart := mem_parts_of_mem_children hchild
  have hmax := List.le_max?_getD_of_mem (k := 0) (List.mem_map_of_mem (f := declDepth) hpart)
  have hnode : node.declDepth =
      ((node.parts.map declDepth).max?).getD 0 + if node.isDeclare then 1 else 0 := by
    rw [declDepth, fold_eq]
  omega

/-- What stands in a tree is nested no deeper than the tree. -/
theorem declDepth_le_of_occurs {part whole : Node} (hoccurs : part.Occurs whole) :
    part.declDepth ≤ whole.declDepth := by
  induction hoccurs with
  | here => exact Nat.le_refl _
  | inside hchild _ ih => exact Nat.le_trans ih (declDepth_le_of_mem_children hchild)

/-! ### Height -/

/-- How many trees there are on the longest way from the root to a leaf. -/
def height : Node → Nat :=
  fold fun _ heights => (heights.max?).getD 0 + 1

/-- A tree is higher by one than its highest part. -/
theorem height_eq (node : Node) :
    node.height = ((node.parts.map height).max?).getD 0 + 1 := by
  rw [height, fold_eq]

theorem height_pos (node : Node) : 0 < node.height := by
  rw [height_eq]
  exact Nat.succ_pos _

/-- A part is less high than the tree. -/
theorem height_lt_of_mem_parts {part node : Node} (hpart : part ∈ node.parts) :
    part.height < node.height := by
  have hmax := List.le_max?_getD_of_mem (k := 0) (List.mem_map_of_mem (f := height) hpart)
  rw [height_eq node]
  omega

/-! ### Loops -/

/-- Whether a tree is a loop. -/
def isLoop : Node → Bool
  | .loop _ _ => true
  | _ => false

/-- Whether there is no loop in a tree, the bodies of its functions included. -/
def loopFree : Node → Bool :=
  fold fun node parts => !node.isLoop && parts.all id

/-- The parts of a tree without loops have none. -/
theorem loopFree_of_mem_parts {part node : Node} (hnode : node.loopFree = true)
    (hpart : part ∈ node.parts) : part.loopFree = true := by
  exact (all_iff.mp hnode).2 part hpart

theorem not_loop_of_loopFree {node : Node} (hnode : node.loopFree = true) (condition body : Node) :
    node ≠ .loop condition body := by
  rintro rfl
  rw [loopFree, fold_eq] at hnode
  cases hnode

end Node

end FlatScript
