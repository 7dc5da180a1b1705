import FlatScript.Proofs.Eval.Coupling

/-!
# Runs that are cut short

Take two evaluations of one tree, against hosts of which the first refuses something that the second
one grants: a line of input, or a further write.  Up to there they go through the same frames.  Then
the first fails, and since nothing recovers from a failure it does nothing any more, while the
second goes on.

A `Cutting` says how the hosts are related up to there, which failure it is, and what can be said of
the second host from then on: that what it has been through includes the moment at which the first
run failed.  To be cut short is a congruence.
-/

namespace FlatScript

open FlatScript.Frame

/-- The host that an action on a host leaves, however it ends. -/
def HostM.left {σ α : Type} : EStateM.Result HostError σ α → σ
  | .ok _ after => after
  | .error _ after => after

namespace EvalM

variable {σ α : Type}

/-- To end is to stop for another reason than a lack of fuel. -/
theorem ended_eq_stopped (outcome : Except EvalError α) (after : State σ) :
    ended outcome after = stopped (outcome.mapError .failed) after := by
  cases outcome <;> rfl

/-- Where an action ends is what it leaves. -/
theorem left_ended (outcome : Except EvalError α) (after : State σ) :
    left (ended outcome after) = after := by
  cases outcome <;> rfl

/-- An action of the host leaves the host that the action leaves. -/
theorem left_onHost_host (action : HostM σ α) (state : State σ) :
    (left (onHost action state)).host = HostM.left (action state.host) := by
  unfold onHost
  cases action state.host <;> rfl

/-- An action in a frame of its own leaves the host that it leaves there. -/
theorem left_inFrame_host (start : Frame) (action : EvalM σ α) (state : State σ) :
    (left (inFrame start action state)).host =
      (left (action { state with frame := start })).host := by
  unfold inFrame
  cases action { state with frame := start } <;> rfl

end EvalM

/-- How one run is cut short by its host, and how another one goes on. -/
structure Cutting (σ τ : Type) where
  /-- How the hosts are related before. -/
  hosts : σ → τ → Prop
  /-- The failure of the first run. -/
  reason : HostError
  /-- What is known of the second host once the first run was cut short with a frame and a host. -/
  since : Frame → σ → τ → Prop

namespace Cutting

variable {σ τ α β : Type} {cutting : Cutting σ τ}

/-- Both actions stop in the same way and with the same frame, and their hosts are still related. -/
def Together (cutting : Cutting σ τ) (run : EvalM σ α) (other : EvalM τ α) (frame : Frame)
    (host : σ) (host' : τ) : Prop :=
  ∃ (stop : Except (Halt EvalError) α) (after : Frame) (left : σ) (left' : τ),
    cutting.hosts left left' ∧ run ⟨frame, host⟩ = EvalM.stopped stop ⟨after, left⟩ ∧
    other ⟨frame, host'⟩ = EvalM.stopped stop ⟨after, left'⟩

/-- The first action fails for want of what its host refuses, and the second goes on. -/
def Cut (cutting : Cutting σ τ) (run : EvalM σ α) (other : EvalM τ α) (frame : Frame)
    (host : σ) (host' : τ) : Prop :=
  ∃ (after : Frame) (left : σ),
    run ⟨frame, host⟩ = EvalM.stopped (.error (.failed (.host cutting.reason))) ⟨after, left⟩ ∧
    cutting.since after left (EvalM.left (other ⟨frame, host'⟩)).host

/-- From one frame and related hosts, both actions stop together or the first is cut short.  What is
known of the second host since then stays true. -/
structure CutShort (cutting : Cutting σ τ) (run : EvalM σ α) (other : EvalM τ α) : Prop where
  compare : ∀ (frame : Frame) ⦃host : σ⦄ ⦃host' : τ⦄, cutting.hosts host host' →
    cutting.Together run other frame host host' ∨ cutting.Cut run other frame host host'
  goesOn : ∀ (after : Frame) (left : σ) (state : State τ), cutting.since after left state.host →
    cutting.since after left (EvalM.left (other state)).host

namespace CutShort

variable {run : EvalM σ α} {other : EvalM τ α}

theorem pure (value : α) : cutting.CutShort (pure value) (pure value) where
  compare frame host host' hhosts := Or.inl ⟨.ok value, frame, host, host', hhosts, rfl, rfl⟩
  goesOn _ _ _ hsince := hsince

theorem halt (reason : Halt EvalError) :
    cutting.CutShort (throw reason : EvalM σ α) (throw reason) where
  compare frame host host' hhosts := Or.inl ⟨.error reason, frame, host, host', hhosts, rfl, rfl⟩
  goesOn _ _ _ hsince := hsince

/-- Changes of the frame are not cut short. -/
theorem update (update : Update) :
    cutting.CutShort (EvalM.modifyFrame (·.apply update)) (EvalM.modifyFrame (·.apply update)) where
  compare frame host host' hhosts :=
    Or.inl ⟨.ok (), frame.apply update, host, host', hhosts, rfl, rfl⟩
  goesOn _ _ _ hsince := hsince

/-- One action after another. -/
theorem bind {next : α → EvalM σ β} {next' : α → EvalM τ β} (hrun : cutting.CutShort run other)
    (hnext : ∀ value, cutting.CutShort (next value) (next' value)) :
    cutting.CutShort (run >>= next) (other >>= next') := by
  refine ⟨fun frame host host' hhosts => ?_, fun after left state hsince => ?_⟩
  · rcases hrun.compare frame hhosts with
      ⟨stop, middle, left, left', hleft, hfirst, hsecond⟩ | ⟨after, left, hfirst, hsince⟩
    · cases stop with
      | error halt =>
          exact Or.inl ⟨.error halt, middle, left, left', hleft, EvalM.bind_of_error hfirst next,
            EvalM.bind_of_error hsecond next'⟩
      | ok value =>
          rcases (hnext value).compare middle hleft with
            ⟨stop, after, last, last', hlast, hrest, hrest'⟩ | ⟨after, last, hrest, hsince⟩
          · exact Or.inl ⟨stop, after, last, last', hlast,
              (EvalM.bind_of_ok hfirst next).trans hrest,
              (EvalM.bind_of_ok hsecond next').trans hrest'⟩
          · refine Or.inr ⟨after, last, (EvalM.bind_of_ok hfirst next).trans hrest, ?_⟩
            rw [EvalM.bind_of_ok hsecond next']
            exact hsince
    · -- The first run does nothing any more; the other keeps what is known of its host.
      refine Or.inr ⟨after, left, EvalM.bind_of_error hfirst next, ?_⟩
      exact EvalM.left_bind (fun state => cutting.since after left state.host) hsince
        fun value middle => (hnext value).goesOn after left middle
  · exact EvalM.left_bind (fun state => cutting.since after left state.host)
      (hrun.goesOn after left state hsince)
      fun value middle => (hnext value).goesOn after left middle

/-- Looking at the frame is not cut short. -/
theorem look {next : Frame → EvalM σ α} {next' : Frame → EvalM τ α}
    (hnext : ∀ frame, True → cutting.CutShort (next frame) (next' frame)) :
    cutting.CutShort (EvalM.frame >>= next) (EvalM.frame >>= next') where
  compare frame _ _ hhosts := (hnext frame trivial).compare frame hhosts
  goesOn after left state hsince := (hnext state.frame trivial).goesOn after left state hsince

/-- An action in a frame of its own, if the frame does not matter to what is known since. -/
theorem inFrame
    (hany : ∀ frame after left left',
      cutting.since after left left' → cutting.since frame left left')
    (start : Frame) (hrun : cutting.CutShort run other) :
    cutting.CutShort (EvalM.inFrame start run) (EvalM.inFrame start other) := by
  refine ⟨fun frame host host' hhosts => ?_, fun after left state hsince => ?_⟩
  · rcases hrun.compare start hhosts with
      ⟨stop, after, left, left', hleft, hfirst, hsecond⟩ | ⟨after, left, hfirst, hsince⟩
    · exact Or.inl ⟨_, frame, left, left', hleft, EvalM.inFrame_of_stopped hfirst,
        EvalM.inFrame_of_stopped hsecond⟩
    · refine Or.inr ⟨frame, left, EvalM.inFrame_of_stopped hfirst, ?_⟩
      rw [EvalM.left_inFrame_host]
      exact hany frame after left _ hsince
  · rw [EvalM.left_inFrame_host]
    exact hrun.goesOn after left { state with frame := start } hsince

/-- An action on the hosts.  They end in the same way, or the first refuses. -/
theorem onHost {action : HostM σ α} {action' : HostM τ α}
    (hcompare : ∀ host host', cutting.hosts host host' →
      (∃ outcome left left', cutting.hosts left left' ∧ action host = HostM.ended outcome left ∧
        action' host' = HostM.ended outcome left') ∨
      ∃ left, action host = HostM.ended (.error cutting.reason) left ∧
        ∀ frame, cutting.since frame left (HostM.left (action' host')))
    (hgoesOn : ∀ after left host', cutting.since after left host' →
      cutting.since after left (HostM.left (action' host'))) :
    cutting.CutShort (EvalM.onHost action) (EvalM.onHost action') := by
  refine ⟨fun frame host host' hhosts => ?_, fun after left state hsince => ?_⟩
  · rcases hcompare host host' hhosts with
      ⟨outcome, left, left', hleft, hfirst, hsecond⟩ | ⟨left, hfirst, hsince⟩
    · exact Or.inl ⟨_, frame, left, left', hleft, EvalM.onHost_of_ended hfirst,
        EvalM.onHost_of_ended hsecond⟩
    · refine Or.inr ⟨frame, left, EvalM.onHost_of_ended hfirst, ?_⟩
      rw [EvalM.left_onHost_host]
      exact hsince frame
  · rw [EvalM.left_onHost_host]
    exact hgoesOn after left state.host hsince

/-- If the first action ends, the second one ends in the same way or the first was cut short. -/
theorem ended (hrun : cutting.CutShort run other) {frame after : Frame} {host left : σ} {host' : τ}
    (hhosts : cutting.hosts host host') {outcome : Except EvalError α}
    (hended : run ⟨frame, host⟩ = EvalM.ended outcome ⟨after, left⟩) :
    (∃ left', cutting.hosts left left' ∧
      other ⟨frame, host'⟩ = EvalM.ended outcome ⟨after, left'⟩) ∨
    outcome = .error (.host cutting.reason) ∧
      cutting.since after left (EvalM.left (other ⟨frame, host'⟩)).host := by
  rcases hrun.compare frame hhosts with ⟨stop, _, _, left', hleft, hfirst, hsecond⟩ |
    ⟨own, last, hfirst, hsince⟩
  · rw [hended, EvalM.ended_eq_stopped] at hfirst
    obtain ⟨rfl, hafter⟩ := EvalM.stopped_inj hfirst
    cases hafter
    exact Or.inl ⟨left', hleft, hsecond.trans (EvalM.ended_eq_stopped outcome _).symm⟩
  · have hcut : EvalM.ended outcome ⟨after, left⟩ =
        EvalM.ended (.error (.host cutting.reason)) ⟨own, last⟩ := hended.symm.trans hfirst
    obtain ⟨rfl, hafter⟩ := EvalM.ended_inj hcut
    cases hafter
    exact Or.inr ⟨rfl, hsince⟩

/-- If the second action ends, the first one ends in the same way or it is cut short. -/
theorem ended_other (hrun : cutting.CutShort run other) {frame after : Frame} {host : σ}
    {host' left' : τ} (hhosts : cutting.hosts host host') {outcome : Except EvalError α}
    (hended : other ⟨frame, host'⟩ = EvalM.ended outcome ⟨after, left'⟩) :
    (∃ left, cutting.hosts left left' ∧
      run ⟨frame, host⟩ = EvalM.ended outcome ⟨after, left⟩) ∨
    ∃ own left, run ⟨frame, host⟩ = EvalM.ended (.error (.host cutting.reason)) ⟨own, left⟩ ∧
      cutting.since own left left' := by
  rcases hrun.compare frame hhosts with ⟨stop, _, left, _, hleft, hfirst, hsecond⟩ |
    ⟨own, left, hfirst, hsince⟩
  · rw [hended, EvalM.ended_eq_stopped] at hsecond
    obtain ⟨rfl, hafter⟩ := EvalM.stopped_inj hsecond
    cases hafter
    exact Or.inl ⟨left, hleft, hfirst.trans (EvalM.ended_eq_stopped outcome _).symm⟩
  · rw [hended, EvalM.left_ended] at hsince
    exact Or.inr ⟨own, left, hfirst, hsince⟩

end CutShort

/-- To be cut short as a congruence. -/
def congruence (cutting : Cutting σ τ) : Congruence σ τ where
  Rel := cutting.CutShort
  rel_pure := CutShort.pure
  rel_bind := CutShort.bind
  rel_look := CutShort.look

end Cutting

end FlatScript
