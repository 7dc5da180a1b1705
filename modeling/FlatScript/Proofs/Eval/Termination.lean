import FlatScript.Proofs.Eval.Completion
import FlatScript.Proofs.Eval.Coupling
import FlatScript.Proofs.Trees.Measures

/-!
# Trees without loops

Evaluation does not follow the tree that it starts with: a call goes over to a body that is kept in
the frame.  But a call starts with no functions, so in the body all that can be called is declared
in the body, and is less high than it.  The height of what can still be called becomes smaller with
each call, and between calls the height of the tree at hand does.

So the evaluation of a tree without loops completes, if the functions that are declared beforehand
have no loops either.  How much fuel it takes depends on the tree and on these functions only.
-/

namespace FlatScript

namespace Node

variable {σ : Type}

/-- A run that does not lack fuel, in frames whose functions have no loops and are less high than
the bound. -/
def ending (bound : Nat) : Coupling σ σ where
  functions declaration :=
    declaration.body.loopFree = true ∧ declaration.body.height < bound
  hosts := Eq
  halts reason := reason ≠ .outOfFuel

/-- **Without loops, fuel is enough** if it exceeds the square of a bound by the height of the tree.
The bound is on the height of the tree and of all functions.  The outer induction is on the bound,
which becomes smaller with each call; the inner one is on the fuel. -/
theorem eval_ending (builtins : Builtins σ) (bound fuel : Nat) {node : Node}
    (hnode : node.loopFree = true) (hheight : node.height ≤ bound)
    (hfuel : node.height + bound * bound ≤ fuel) :
    (ending bound).Coupled (node.eval builtins fuel) (node.eval builtins fuel) := by
  induction bound using Nat.strongRecOn generalizing fuel node with
  | ind bound ihBound =>
      induction fuel generalizing node with
      | zero =>
          have hpos := node.height_pos
          omega
      | succ fuel ih =>
          rw [eval, evalWith_eq_layerWith]
          refine layerWith_coupled (by rintro _ _ ⟨⟩) (.refl rfl builtins) ?_ ?_ ?_ ?_
          · intro child hchild
            have hpart := mem_parts_of_mem_children hchild
            have hlower := height_lt_of_mem_parts hpart
            exact ih (loopFree_of_mem_parts hnode hpart) (by omega) (by omega)
          · intro declaration hdeclare
            subst hdeclare
            have hbody : declaration.body ∈ (Node.declare declaration).parts :=
              List.mem_singleton.mpr rfl
            have hlower := height_lt_of_mem_parts hbody
            exact ⟨loopFree_of_mem_parts hnode hbody, by omega⟩
          · intro condition body hloop
            exact absurd hloop (not_loop_of_loopFree hnode condition body)
          · intro name args _ declaration hdeclaration values
            obtain ⟨hbody, hlower⟩ := hdeclaration
            -- The body has the square of its own height to call what it declares.
            have hsquare : (declaration.body.height + 1) * (declaration.body.height + 1) ≤
                bound * bound := Nat.mul_le_mul hlower hlower
            have hpos := node.height_pos
            have henough : declaration.body.height +
                declaration.body.height * declaration.body.height ≤ fuel := by
              rw [Nat.add_mul, Nat.mul_add] at hsquare
              omega
            have hends := ihBound declaration.body.height hlower fuel hbody (Nat.le_refl _) henough
            refine callWith_coupled hends ?_ ?_ ?_ values
            · exact fun _ _ hhosts => hhosts
            · exact fun _ _ hhosts => hhosts
            · exact fun _ hhalt => hhalt

/-- A frame has finitely many functions, so their heights are bounded. -/
theorem exists_height_bound (frame : Frame) :
    ∃ bound, frame.AllFunctions fun declaration => declaration.body.height < bound := by
  let heights := frame.functions.toList.map fun entry => entry.2.body.height
  refine ⟨heights.max?.getD 0 + 1, ?_⟩
  intro name declaration hdeclared
  have hentry : (name, declaration) ∈ frame.functions.toList :=
    Std.TreeMap.mem_toList_iff_getElem?_eq_some.mpr hdeclared
  have hmem : declaration.body.height ∈ heights := List.mem_map.mpr ⟨_, hentry, rfl⟩
  exact Nat.lt_succ_of_le (List.le_max?_getD_of_mem hmem)

/-- **The evaluation of a tree without loops completes**, in every frame whose functions have no
loops.  There is an amount of fuel with which it ends, with a value or a failure, for all builtins
and hosts, and more fuel changes nothing. -/
theorem loopFree_eval_completes (node : Node) (frame : Frame) (hnode : node.loopFree = true)
    (hframe : frame.AllFunctions fun declaration => declaration.body.loopFree = true) :
    ∃ enough, ∀ (builtins : Builtins σ) (host : σ), ∃ outcome after, ∀ fuel, enough ≤ fuel →
      node.eval builtins fuel ⟨frame, host⟩ = EvalM.ended outcome after := by
  obtain ⟨functionBound, hfunctions⟩ := exists_height_bound frame
  let bound := max node.height functionBound
  have hheight : node.height ≤ bound := Nat.le_max_left _ _
  refine ⟨node.height + bound * bound, fun builtins host => ?_⟩
  have hstart : frame.AllFunctions (ending (σ := σ) bound).functions := by
    intro name declaration hdeclared
    have hlower := hfunctions name declaration hdeclared
    exact ⟨hframe name declaration hdeclared, Nat.lt_of_lt_of_le hlower (Nat.le_max_right _ _)⟩
  obtain ⟨stop, after, left, -, -, -, hhalts, heval, -⟩ :=
    eval_ending builtins bound _ hnode hheight (Nat.le_refl _) hstart (rfl : host = host)
  have hended : ∃ outcome,
      EvalM.stopped stop ⟨after, left⟩ = EvalM.ended outcome ⟨after, left⟩ := by
    cases stop with
    | ok value => exact ⟨.ok value, rfl⟩
    | error halt =>
        cases halt with
        | failed error => exact ⟨.error error, rfl⟩
        | outOfFuel => exact absurd rfl (hhalts .outOfFuel rfl)
  obtain ⟨outcome, hended⟩ := hended
  refine ⟨outcome, ⟨after, left⟩, fun fuel hfuel => ?_⟩
  exact (eval_alike builtins hfuel node).ended_again (heval.trans hended)

/-- A function that declares and calls a function of its own. -/
def addsTwice : Declaration Node :=
  ⟨"f", ["n"], .block
    [.declare ⟨"g", ["n"], .block [.ret (.binary (.read "n") .plus (.integer 1))]⟩,
      .ret (.call "g" [.call "g" [.read "n"]])]⟩

/-- Statements that call the function, replace it, and call what has taken its place. -/
def replacesFunction : Node :=
  .program
    [.assign "x" (.call "f" [.call "f" [.integer 1]]), .declare ⟨"f", [], .block []⟩,
      .assign "y" (.call "f" [.read "x"]), .call "g" []]

/-- The function is not declared outside of its body, so the last call fails; the evaluation
completes all the same. -/
theorem replacesFunction_completes :
    replacesFunction.loopFree = true ∧
      ∃ enough, ∀ (builtins : Builtins Unit), ∃ outcome after, ∀ fuel, enough ≤ fuel →
        replacesFunction.eval builtins fuel ⟨({} : Frame).declare addsTwice, ()⟩ =
          EvalM.ended outcome after := by
  have hnode : replacesFunction.loopFree = true := by decide
  have hframe : (({} : Frame).declare addsTwice).AllFunctions
      fun declaration => declaration.body.loopFree = true := by
    have hdeclared : ∀ declaration, Frame.Update.declare addsTwice = .declare declaration →
        declaration.body.loopFree = true := by
      intro declaration hdeclare
      cases hdeclare
      decide
    exact Frame.allFunctions_empty.apply hdeclared
  obtain ⟨enough, hcompletes⟩ := loopFree_eval_completes replacesFunction _ hnode hframe
  exact ⟨hnode, enough, fun builtins => hcompletes builtins ()⟩

end Node

end FlatScript
