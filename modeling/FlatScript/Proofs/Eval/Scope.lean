import FlatScript.Eval.Run
import FlatScript.Proofs.Eval.Updates

/-!
# What an evaluation reads and writes

An action on a frame is confined to a scope if the frame matters to it only by the variables and
functions that the scope lets it look up, and if all it does to the frame is a list of updates that
the scope permits.

`Scope.Alike run again` says this of two actions at once, which are thought of as one evaluation
with different fuel: started in frames that agree on what may be looked up, `run` runs out of fuel,
or both end in the same way, with the same host, and after the same updates.  With one frame for
both it says that more fuel changes nothing about a run that ends; with one action for both it says
what a run depends on and what it changes.

There is a rule for each way of building an action.
-/

namespace FlatScript

open FlatScript.Frame

/-- What an action may look up and change. -/
structure Scope where
  /-- The variables that may be looked up. -/
  reads : String → Prop
  /-- The functions that may be looked up. -/
  calls : String → Prop
  /-- The updates that may be made. -/
  writes : Update → Prop

namespace EvalM

variable {σ α β : Type}

/-- The result of an action that has ended in the given way and state. -/
def ended (outcome : Except EvalError α) (after : State σ) :
    EStateM.Result (Halt EvalError) (State σ) α :=
  match outcome with
  | .ok value => .ok value after
  | .error error => .error (.failed error) after

/-- How and where an action ends can be told from the result. -/
theorem ended_inj {outcome outcome' : Except EvalError α} {after after' : State σ}
    (hended : ended outcome after = ended outcome' after') :
    outcome = outcome' ∧ after = after' := by
  cases outcome <;> cases outcome' <;> cases hended <;> exact ⟨rfl, rfl⟩

/-- What ends does not run out of fuel. -/
theorem ended_ne_outOfFuel {outcome : Except EvalError α} {after after' : State σ} :
    ended outcome after ≠ .error .outOfFuel after' := by
  cases outcome <;> exact nofun

/-- Behind an action with a value, the next goes on with it. -/
theorem bind_of_ok {run : EvalM σ α} {state middle : State σ} {value : α}
    (hrun : run state = .ok value middle) (next : α → EvalM σ β) :
    (run >>= next) state = next value middle := by
  simp [Bind.bind, EStateM.bind, hrun]

/-- Behind an action that halts there is nothing. -/
theorem bind_of_error {run : EvalM σ α} {state middle : State σ} {halt : Halt EvalError}
    (hrun : run state = .error halt middle) (next : α → EvalM σ β) :
    (run >>= next) state = .error halt middle := by
  simp [Bind.bind, EStateM.bind, hrun]

/-- To look at the frame is to be given it. -/
theorem frame_bind_run (next : Frame → EvalM σ β) (state : State σ) :
    (EvalM.frame >>= next) state = next state.frame state := rfl

end EvalM

namespace Scope

/-- Two frames agree on all that may be looked up. -/
structure Agree (scope : Scope) (first second : Frame) : Prop where
  vars : ∀ name, scope.reads name → first.vars[name]? = second.vars[name]?
  functions : ∀ name, scope.calls name → first.functions[name]? = second.functions[name]?

theorem Agree.refl (scope : Scope) (frame : Frame) : scope.Agree frame frame :=
  ⟨fun _ _ => rfl, fun _ _ => rfl⟩

theorem Agree.symm {scope : Scope} {first second : Frame} (hagree : scope.Agree first second) :
    scope.Agree second first :=
  ⟨fun name hname => (hagree.vars name hname).symm,
    fun name hname => (hagree.functions name hname).symm⟩

/-- Frames that agree still do so after the same update, whatever it is. -/
theorem Agree.apply {scope : Scope} {first second : Frame} (hagree : scope.Agree first second)
    (update : Update) : scope.Agree (first.apply update) (second.apply update) := by
  cases update with
  | assign target value =>
      refine ⟨fun name hname => ?_, hagree.functions⟩
      simp only [Frame.apply, Frame.assign, Std.TreeMap.getElem?_insert, hagree.vars name hname]
  | declare declaration =>
      refine ⟨hagree.vars, fun name hname => ?_⟩
      simp only [Frame.apply, Frame.declare, Std.TreeMap.getElem?_insert,
        hagree.functions name hname]
  | setPending value => exact ⟨hagree.vars, hagree.functions⟩

/-- Frames that agree still do so after the same updates. -/
theorem Agree.applyAll {scope : Scope} {first second : Frame} (hagree : scope.Agree first second)
    (updates : List Update) : scope.Agree (first.applyAll updates) (second.applyAll updates) := by
  induction updates generalizing first second with
  | nil => exact hagree
  | cons update updates ih => exact ih (hagree.apply update)

variable {σ α β : Type}

/-- Both actions end alike: in the same way, with the same host, and after the same permitted
updates. -/
def EndAlike (scope : Scope) (run again : EvalM σ α) (first second : Frame) (host : σ) : Prop :=
  ∃ (outcome : Except EvalError α) (updates : List Update) (after : σ),
    (∀ update ∈ updates, scope.writes update) ∧
    run ⟨first, host⟩ = EvalM.ended outcome ⟨first.applyAll updates, after⟩ ∧
    again ⟨second, host⟩ = EvalM.ended outcome ⟨second.applyAll updates, after⟩

/-- From frames that agree, the first action runs out of fuel or both end alike. -/
def Alike (scope : Scope) (run again : EvalM σ α) : Prop :=
  ∀ ⦃first second : Frame⦄ (host : σ), scope.Agree first second →
    (∃ after, run ⟨first, host⟩ = .error .outOfFuel after) ∨
      scope.EndAlike run again first second host

/-- A scope within another. -/
structure Within (inner outer : Scope) : Prop where
  reads : ∀ name, inner.reads name → outer.reads name
  calls : ∀ name, inner.calls name → outer.calls name
  writes : ∀ update, inner.writes update → outer.writes update

namespace Alike

variable {scope : Scope} {run again : EvalM σ α} {next nextAgain : α → EvalM σ β}

/-- What is confined to a scope is confined to a wider one. -/
theorem widen {inner : Scope} (halike : inner.Alike run again) (hwithin : inner.Within scope) :
    scope.Alike run again := by
  intro first second host hagree
  have hinner : inner.Agree first second :=
    ⟨fun name hname => hagree.vars name (hwithin.reads name hname),
      fun name hname => hagree.functions name (hwithin.calls name hname)⟩
  rcases halike host hinner with hfuel | ⟨outcome, updates, after, hwrites, hrun, hagain⟩
  · exact Or.inl hfuel
  · exact Or.inr ⟨outcome, updates, after,
      fun update hupdate => hwithin.writes update (hwrites update hupdate), hrun, hagain⟩

theorem outOfFuel : scope.Alike (throw .outOfFuel) again :=
  fun _ _ _ _ => Or.inl ⟨_, rfl⟩

theorem pure (value : α) : scope.Alike (pure value : EvalM σ α) (pure value) :=
  fun _ _ host _ => Or.inr ⟨.ok value, [], host, nofun, rfl, rfl⟩

theorem fail (error : EvalError) : scope.Alike (EvalM.fail error : EvalM σ α) (EvalM.fail error) :=
  fun _ _ host _ => Or.inr ⟨.error error, [], host, nofun, rfl, rfl⟩

/-- Given results look nothing up. -/
theorem ofExcept (result : Except EvalError α) :
    scope.Alike (EvalM.ofExcept result : EvalM σ α) (EvalM.ofExcept result) := by
  cases result with
  | ok value => exact Alike.pure value
  | error error => exact Alike.fail error

/-- Neither do actions of the host. -/
theorem onHost (action : HostM σ α) :
    scope.Alike (EvalM.onHost action) (EvalM.onHost action) := by
  intro first second host _
  right
  cases haction : action host with
  | ok value after =>
      exact ⟨.ok value, [], after, nofun, by simp [EvalM.onHost, haction, EvalM.ended],
        by simp [EvalM.onHost, haction, EvalM.ended]⟩
  | error error after =>
      exact ⟨.error (.host error), [], after, nofun,
        by simp [EvalM.onHost, haction, EvalM.ended],
        by simp [EvalM.onHost, haction, EvalM.ended]⟩

/-- A permitted update. -/
theorem update {update : Update} (hwrites : scope.writes update) :
    scope.Alike (EvalM.modifyFrame (·.apply update) : EvalM σ Unit)
      (EvalM.modifyFrame (·.apply update)) :=
  fun _ _ host _ => Or.inr ⟨.ok (), [update], host, by simpa using hwrites, rfl, rfl⟩

/-- One action after another. -/
theorem bind (hrun : scope.Alike run again)
    (hnext : ∀ value, scope.Alike (next value) (nextAgain value)) :
    scope.Alike (run >>= next) (again >>= nextAgain) := by
  intro first second host hagree
  rcases hrun host hagree with ⟨after, hfuel⟩ | ⟨outcome, updates, middle, hwrites, hfirst, hsecond⟩
  · exact Or.inl ⟨after, EvalM.bind_of_error hfuel next⟩
  · cases outcome with
    | error error =>
        exact Or.inr ⟨.error error, updates, middle, hwrites, EvalM.bind_of_error hfirst next,
          EvalM.bind_of_error hsecond nextAgain⟩
    | ok value =>
        -- The same updates on both sides keep the frames in agreement for what comes next.
        rcases hnext value middle (hagree.applyAll updates) with
          ⟨after, hfuel⟩ | ⟨outcome, more, after, hmore, hrest, hrestAgain⟩
        · exact Or.inl ⟨after, (EvalM.bind_of_ok hfirst next).trans hfuel⟩
        · refine Or.inr ⟨outcome, updates ++ more, after,
            List.forall_mem_append.mpr ⟨hwrites, hmore⟩, ?_, ?_⟩
          · rw [EvalM.bind_of_ok hfirst next, hrest, applyAll_append]
          · rw [EvalM.bind_of_ok hsecond nextAgain, hrestAgain, applyAll_append]

/-- Looking at the frame, if what is done then is alike for frames that agree. -/
theorem frame_bind {look lookAgain : Frame → EvalM σ β}
    (hlook : ∀ first second, scope.Agree first second →
      scope.Alike (look first) (lookAgain second)) :
    scope.Alike (EvalM.frame >>= look) (EvalM.frame >>= lookAgain) :=
  fun first second host hagree => hlook first second hagree host hagree

/-- An action in a frame of its own leaves the frame outside alone, whatever its scope. -/
theorem inFrame {inner : Scope} (hrun : inner.Alike run again) (frame : Frame) :
    scope.Alike (EvalM.inFrame frame run) (EvalM.inFrame frame again) := by
  intro first second host _
  -- Both runs start in `frame`, which agrees with itself whatever may be looked up.
  rcases hrun host (Agree.refl inner frame) with
    ⟨after, hfuel⟩ | ⟨outcome, updates, after, -, hfirst, hsecond⟩
  · exact Or.inl ⟨⟨first, after.host⟩, by simp [EvalM.inFrame, hfuel]⟩
  · right
    cases outcome with
    | ok value =>
        exact ⟨.ok (frame.applyAll updates), [], after, nofun,
          by simp [EvalM.inFrame, hfirst, EvalM.ended],
          by simp [EvalM.inFrame, hsecond, EvalM.ended]⟩
    | error error =>
        exact ⟨.error error, [], after, nofun, by simp [EvalM.inFrame, hfirst, EvalM.ended],
          by simp [EvalM.inFrame, hsecond, EvalM.ended]⟩

/-- A loop, which may have more turns the second time. -/
theorem repeatWhile {test testAgain : EvalM σ Bool} {action actionAgain : EvalM σ Value}
    (htest : scope.Alike test testAgain) (haction : scope.Alike action actionAgain)
    {fuel fuelAgain : Nat} (hfuel : fuel ≤ fuelAgain) :
    scope.Alike (EvalM.repeatWhile test action fuel)
      (EvalM.repeatWhile testAgain actionAgain fuelAgain) := by
  induction fuel generalizing fuelAgain with
  | zero => exact Alike.outOfFuel
  | succ fuel ih =>
      obtain ⟨fuelAgain, rfl⟩ : ∃ more, fuelAgain = more + 1 := ⟨fuelAgain - 1, by omega⟩
      refine Alike.bind htest fun holds => ?_
      cases holds with
      | false => exact Alike.pure Value.none
      | true => exact Alike.bind haction fun _ => ih (by omega)

end Alike

end Scope

end FlatScript
