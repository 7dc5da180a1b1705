import FlatScript.Proofs.Eval.Dependence

/-!
# Completed evaluations

An evaluation completes if it ends, with a value or with a failure, for some amount of fuel.  It
completes in one way only, and in frames that agree on what the tree looks up it completes in the
same way.
-/

namespace FlatScript

/-- Actions that are alike end alike, if the first of them ends. -/
theorem Scope.Alike.ended {σ α : Type} {scope : Scope} {run again : EvalM σ α}
    (halike : scope.Alike run again) {first second : Frame} (hagree : scope.Agree first second)
    {host : σ} {outcome : Except EvalError α} {after : State σ}
    (hrun : run ⟨first, host⟩ = EvalM.ended outcome after) :
    ∃ updates, (∀ update ∈ updates, scope.writes update) ∧
      after.frame = first.applyAll updates ∧
      again ⟨second, host⟩ = EvalM.ended outcome ⟨second.applyAll updates, after.host⟩ := by
  rcases halike host hagree with ⟨_, hfuel⟩ | ⟨_, updates, _, hwrites, hfirst, hsecond⟩
  · exact absurd (hrun.symm.trans hfuel) EvalM.ended_ne_outOfFuel
  · obtain ⟨rfl, rfl⟩ := EvalM.ended_inj (hrun.symm.trans hfirst)
    exact ⟨updates, hwrites, rfl, hsecond⟩

/-- More fuel changes nothing about a run that ends. -/
theorem Scope.Alike.ended_again {σ α : Type} {scope : Scope} {run again : EvalM σ α}
    (halike : scope.Alike run again) {state : State σ} {outcome : Except EvalError α}
    {after : State σ} (hrun : run state = EvalM.ended outcome after) :
    again state = EvalM.ended outcome after := by
  obtain ⟨updates, -, hframe, hagain⟩ := halike.ended (Scope.Agree.refl _ state.frame) hrun
  rw [← hframe] at hagain
  exact hagain

namespace Node

variable {σ : Type} {builtins : Builtins σ} {node : Node}

/-- With enough fuel, the evaluation ends in the given way and state. -/
def Completes (builtins : Builtins σ) (node : Node) (state : State σ)
    (outcome : Except EvalError Value) (after : State σ) : Prop :=
  ∃ fuel, node.eval builtins fuel state = EvalM.ended outcome after

/-- With enough fuel, the values of trees are found from left to right. -/
def CompletesAll (builtins : Builtins σ) (nodes : List Node) (state : State σ)
    (outcome : Except EvalError (List Value)) (after : State σ) : Prop :=
  ∃ fuel, evalAllWith (eval builtins fuel) nodes state = EvalM.ended outcome after

/-- An evaluation completes in one way only. -/
theorem Completes.unique {state after after' : State σ} {outcome outcome' : Except EvalError Value}
    (hfirst : node.Completes builtins state outcome after)
    (hsecond : node.Completes builtins state outcome' after') :
    outcome = outcome' ∧ after = after' := by
  obtain ⟨fuel, hfirst⟩ := hfirst
  obtain ⟨fuel', hsecond⟩ := hsecond
  -- With the larger amount of fuel both runs end as they did.
  have hmax := (eval_alike builtins (Nat.le_max_left fuel fuel') node).ended_again hfirst
  have hmax' := (eval_alike builtins (Nat.le_max_right fuel fuel') node).ended_again hsecond
  exact EvalM.ended_inj (hmax.symm.trans hmax')

/-- In a frame that agrees, an evaluation completes in the same way and makes the same updates. -/
theorem Completes.of_agree {first second : Frame}
    (hagree : (node.scope builtins).Agree first second) {host : σ}
    {outcome : Except EvalError Value} {after : State σ}
    (hfirst : node.Completes builtins ⟨first, host⟩ outcome after) :
    ∃ updates, (∀ update ∈ updates, node.Makes update) ∧ after.frame = first.applyAll updates ∧
      node.Completes builtins ⟨second, host⟩ outcome ⟨second.applyAll updates, after.host⟩ := by
  obtain ⟨fuel, hfirst⟩ := hfirst
  obtain ⟨updates, hwrites, hframe, hsecond⟩ :=
    (eval_alike builtins (Nat.le_refl fuel) node).ended hagree hfirst
  exact ⟨updates, hwrites, hframe, fuel, hsecond⟩

end Node

end FlatScript
