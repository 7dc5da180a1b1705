import FlatScript.Proofs.Eval.Congruence

/-!
# Evaluations side by side

Two evaluations of one tree, against two kinds of host, are coupled if they go through the same
frames and come to the same end as long as their hosts are related.  A `Coupling` says which
functions the frames may hold, how the hosts are related, and for what reasons the evaluations may
stop short.  It is an invariant of a pair of runs; with the same run twice it is an invariant of
one.

Being coupled is a congruence: there is a rule for each way of building an action.  So layers of
evaluation are coupled if the evaluations of the parts and the calls of declared functions are,
which is `Node.layerWith_coupled`.
-/

namespace FlatScript

open FlatScript.Frame

namespace EvalM

variable {σ α : Type}

/-- The result of an action that has stopped in the given way and state. -/
def stopped (stop : Except (Halt EvalError) α) (after : State σ) :
    EStateM.Result (Halt EvalError) (State σ) α :=
  match stop with
  | .ok value => .ok value after
  | .error halt => .error halt after

/-- How and where an action stops can be told from the result. -/
theorem stopped_inj {stop stop' : Except (Halt EvalError) α} {after after' : State σ}
    (hsame : stopped stop after = stopped stop' after') : stop = stop' ∧ after = after' := by
  cases stop <;> cases stop' <;> cases hsame <;> exact ⟨rfl, rfl⟩

end EvalM

/-- The result of an action on a host that has ended in the given way and left the given host. -/
def HostM.ended {σ α : Type} (outcome : Except HostError α) (after : σ) :
    EStateM.Result HostError σ α :=
  match outcome with
  | .ok value => .ok value after
  | .error error => .error error after

namespace EvalM

variable {σ α : Type} {frame : Frame} {host left : σ}

/-- An action on the host stops as that action ends, and the frame stays. -/
theorem onHost_of_ended {action : HostM σ α} {outcome : Except HostError α}
    (haction : action host = HostM.ended outcome left) :
    onHost action ⟨frame, host⟩ =
      stopped (outcome.mapError fun error => .failed (.host error)) ⟨frame, left⟩ := by
  unfold onHost
  dsimp only
  rw [haction]
  cases outcome <;> rfl

/-- An action in a frame of its own yields that frame, and leaves the frame outside as it is. -/
theorem inFrame_of_stopped {run : EvalM σ α} {start after : Frame}
    {stop : Except (Halt EvalError) α} (hrun : run ⟨start, host⟩ = stopped stop ⟨after, left⟩) :
    inFrame start run ⟨frame, host⟩ = stopped (stop.map fun _ => after) ⟨frame, left⟩ := by
  unfold inFrame
  dsimp only
  rw [hrun]
  cases stop <;> rfl

end EvalM

/-! ### The functions of a frame -/

namespace Frame

/-- All functions that are declared in a frame satisfy a predicate. -/
def AllFunctions (holds : Declaration Node → Prop) (frame : Frame) : Prop :=
  ∀ (name : String) (declaration : Declaration Node),
    frame.functions[name]? = some declaration → holds declaration

variable {holds : Declaration Node → Prop}

/-- A call starts without functions. -/
theorem allFunctions_ofCall (params : List String) (args : List Value) :
    (ofCall params args).AllFunctions holds := by
  intro name declaration hdeclared
  simp [ofCall, ofVariables] at hdeclared

/-- There is no function in an empty frame. -/
theorem allFunctions_empty : ({} : Frame).AllFunctions holds := by
  intro name declaration hdeclared
  simp at hdeclared

/-- Only a declaration changes the functions, and only by the one that it declares. -/
theorem AllFunctions.apply {frame : Frame} (hframe : frame.AllFunctions holds) {update : Update}
    (hupdate : ∀ declaration, update = .declare declaration → holds declaration) :
    (frame.apply update).AllFunctions holds := by
  cases update with
  | assign => exact hframe
  | setPending => exact hframe
  | declare declared =>
      intro name declaration hdeclared
      simp only [Frame.apply, Frame.declare, Std.TreeMap.getElem?_insert] at hdeclared
      split at hdeclared
      · cases hdeclared
        exact hupdate declared rfl
      · exact hframe name declaration hdeclared

end Frame

/-- What two runs have in common. -/
structure Coupling (σ τ : Type) where
  /-- The functions that a frame may hold. -/
  functions : Declaration Node → Prop
  /-- How the hosts are related. -/
  hosts : σ → τ → Prop
  /-- The reasons for which the runs may stop short. -/
  halts : Halt EvalError → Prop

namespace Coupling

variable {σ τ α β : Type} {coupling : Coupling σ τ}

/-- Both actions stop in the same way and with the same frame, and the coupling holds on. -/
def StopTogether (coupling : Coupling σ τ) (run : EvalM σ α) (other : EvalM τ α) (frame : Frame)
    (host : σ) (host' : τ) : Prop :=
  ∃ (stop : Except (Halt EvalError) α) (after : Frame) (left : σ) (left' : τ),
    after.AllFunctions coupling.functions ∧ coupling.hosts left left' ∧
    (∀ halt, stop = .error halt → coupling.halts halt) ∧
    run ⟨frame, host⟩ = EvalM.stopped stop ⟨after, left⟩ ∧
    other ⟨frame, host'⟩ = EvalM.stopped stop ⟨after, left'⟩

/-- From one frame and related hosts, both actions stop together. -/
def Coupled (coupling : Coupling σ τ) (run : EvalM σ α) (other : EvalM τ α) : Prop :=
  ∀ ⦃frame : Frame⦄ ⦃host : σ⦄ ⦃host' : τ⦄, frame.AllFunctions coupling.functions →
    coupling.hosts host host' → coupling.StopTogether run other frame host host'

/-- From related hosts, both actions on the host end in the same way and leave related hosts. -/
def CoupledOnHost (coupling : Coupling σ τ) (action : HostM σ α) (action' : HostM τ α) : Prop :=
  ∀ ⦃host : σ⦄ ⦃host' : τ⦄, coupling.hosts host host' →
    ∃ (outcome : Except HostError α) (left : σ) (left' : τ), coupling.hosts left left' ∧
      action host = HostM.ended outcome left ∧ action' host' = HostM.ended outcome left'

namespace Coupled

variable {run : EvalM σ α} {other : EvalM τ α}

theorem pure (value : α) : coupling.Coupled (pure value) (pure value) :=
  fun frame host host' hframe hhosts => ⟨.ok value, frame, host, host', hframe, hhosts, nofun, rfl,
    rfl⟩

/-- Coupled actions may halt for the reasons that the coupling admits. -/
theorem halt {reason : Halt EvalError} (hreason : coupling.halts reason) :
    coupling.Coupled (throw reason : EvalM σ α) (throw reason) := by
  intro frame host host' hframe hhosts
  refine ⟨.error reason, frame, host, host', hframe, hhosts, ?_, rfl, rfl⟩
  intro halt hhalt
  cases hhalt
  exact hreason

/-- Coupled actions of hosts are coupled actions. -/
theorem onHost (hfails : ∀ error, coupling.halts (.failed (.host error))) {action : HostM σ α}
    {action' : HostM τ α} (haction : coupling.CoupledOnHost action action') :
    coupling.Coupled (EvalM.onHost action) (EvalM.onHost action') := by
  intro frame host host' hframe hhosts
  obtain ⟨outcome, left, left', hleft, hfirst, hsecond⟩ := haction hhosts
  refine ⟨_, frame, left, left', hframe, hleft, ?_, EvalM.onHost_of_ended hfirst,
    EvalM.onHost_of_ended hsecond⟩
  intro halt hhalt
  cases outcome with
  | ok value => cases hhalt
  | error error =>
      cases hhalt
      exact hfails error

/-- An update, if the function that it may declare is one that frames may hold. -/
theorem update (update : Update)
    (hupdate : ∀ declaration, update = .declare declaration → coupling.functions declaration) :
    coupling.Coupled (EvalM.modifyFrame (·.apply update)) (EvalM.modifyFrame (·.apply update)) :=
  fun frame host host' hframe hhosts =>
    ⟨.ok (), frame.apply update, host, host', hframe.apply hupdate, hhosts, nofun, rfl, rfl⟩

/-- One action after another. -/
theorem bind {next : α → EvalM σ β} {next' : α → EvalM τ β} (hrun : coupling.Coupled run other)
    (hnext : ∀ value, coupling.Coupled (next value) (next' value)) :
    coupling.Coupled (run >>= next) (other >>= next') := by
  intro frame host host' hframe hhosts
  obtain ⟨stop, middle, left, left', hmiddle, hleft, hhalts, hfirst, hsecond⟩ := hrun hframe hhosts
  cases stop with
  | error halt =>
      refine ⟨.error halt, middle, left, left', hmiddle, hleft, ?_,
        EvalM.bind_of_error hfirst next, EvalM.bind_of_error hsecond next'⟩
      intro _ hhalt
      cases hhalt
      exact hhalts halt rfl
  | ok value =>
      obtain ⟨stop, after, last, last', hafter, hlast, hhalts, hrest, hrest'⟩ :=
        hnext value hmiddle hleft
      exact ⟨stop, after, last, last', hafter, hlast, hhalts,
        (EvalM.bind_of_ok hfirst next).trans hrest, (EvalM.bind_of_ok hsecond next').trans hrest'⟩

/-- Looking at the frame, of which the coupling is known to hold. -/
theorem frame_bind {look : Frame → EvalM σ β} {look' : Frame → EvalM τ β}
    (hlook : ∀ frame : Frame, frame.AllFunctions coupling.functions →
      coupling.Coupled (look frame) (look' frame)) :
    coupling.Coupled (EvalM.frame >>= look) (EvalM.frame >>= look') :=
  fun frame _ _ hframe hhosts => hlook frame hframe hframe hhosts

/-- An action in a frame of its own may follow another coupling, if this one goes over into it and
back. -/
theorem inFrame {inner : Coupling σ τ} (hrun : inner.Coupled run other) {start : Frame}
    (hstart : start.AllFunctions inner.functions)
    (henter : ∀ host host', coupling.hosts host host' → inner.hosts host host')
    (hleave : ∀ host host', inner.hosts host host' → coupling.hosts host host')
    (hhalts : ∀ halt, inner.halts halt → coupling.halts halt) :
    coupling.Coupled (EvalM.inFrame start run) (EvalM.inFrame start other) := by
  intro frame host host' hframe hhosts
  obtain ⟨stop, after, left, left', -, hleft, hinner, hfirst, hsecond⟩ :=
    hrun hstart (henter host host' hhosts)
  refine ⟨_, frame, left, left', hframe, hleave left left' hleft, ?_,
    EvalM.inFrame_of_stopped hfirst, EvalM.inFrame_of_stopped hsecond⟩
  intro halt hhalt
  cases stop with
  | ok value => cases hhalt
  | error reason =>
      cases hhalt
      exact hhalts halt (hinner halt rfl)

end Coupled

/-- Being coupled as a congruence. -/
def congruence (coupling : Coupling σ τ) : Congruence σ τ where
  Rel := coupling.Coupled
  frames := AllFunctions coupling.functions
  rel_pure := Coupled.pure
  rel_bind := Coupled.bind
  rel_look := Coupled.frame_bind

/-- Both sides have builtins of the same names, and these are coupled. -/
def SameBuiltins (coupling : Coupling σ τ) (builtins : Builtins σ) (builtins' : Builtins τ) :
    Prop :=
  ∀ name : String, (builtins[name]? = none ∧ builtins'[name]? = none) ∨
    ∃ builtin builtin', builtins[name]? = some builtin ∧ builtins'[name]? = some builtin' ∧
      ∀ values, coupling.CoupledOnHost (builtin.run values) (builtin'.run values)

/-- Builtins are coupled with themselves where the hosts are the same. -/
theorem SameBuiltins.refl {coupling : Coupling σ σ} (hhosts : coupling.hosts = Eq)
    (builtins : Builtins σ) : coupling.SameBuiltins builtins builtins := by
  intro name
  cases hbuiltin : builtins[name]? with
  | none => exact Or.inl ⟨rfl, rfl⟩
  | some builtin =>
      refine Or.inr ⟨builtin, builtin, rfl, rfl, ?_⟩
      intro values host host' hsame
      rw [hhosts] at hsame
      subst hsame
      have hrefl (left : σ) : coupling.hosts left left := by rw [hhosts]
      cases hrun : builtin.run values host with
      | ok value after => exact ⟨.ok value, after, after, hrefl after, rfl, rfl⟩
      | error error after => exact ⟨.error error, after, after, hrefl after, rfl, rfl⟩

/-- Builtins that are the same for a coupling are the same for its congruence. -/
theorem SameBuiltins.related {builtins : Builtins σ} {builtins' : Builtins τ}
    (hbuiltins : coupling.SameBuiltins builtins builtins')
    (hfails : ∀ reason, coupling.halts (.failed (.host reason))) :
    coupling.congruence.SameBuiltins builtins builtins' := by
  intro name
  rcases hbuiltins name with ⟨hnone, hnone'⟩ | ⟨builtin, builtin', hsome, hsome', hbuiltin⟩
  · rw [hnone, hnone']
    exact .none
  · rw [hsome, hsome']
    exact .some fun values => Coupled.onHost hfails (hbuiltin values)

end Coupling

/-! ### One layer of evaluation -/

namespace Node

open Coupling

variable {σ τ : Type}

section Layer

variable {coupling : Coupling σ τ} {eval : Node → EvalM σ Value} {eval' : Node → EvalM τ Value}

/-- A call may follow another coupling, since the body runs in a frame of its own. -/
theorem callWith_coupled {inner : Coupling σ τ} {declaration : Declaration Node}
    (hbody : inner.Coupled (eval declaration.body) (eval' declaration.body))
    (henter : ∀ host host', coupling.hosts host host' → inner.hosts host host')
    (hleave : ∀ host host', inner.hosts host host' → coupling.hosts host host')
    (hhalts : ∀ halt, inner.halts halt → coupling.halts halt) (values : List Value) :
    coupling.Coupled (callWith eval declaration values) (callWith eval' declaration values) :=
  (hbody.inFrame (allFunctions_ofCall declaration.params values) henter hleave hhalts).bind
    fun frame => .pure frame.returned

/-- **Layers are coupled** if the evaluations of the parts are, and the calls of the functions that
frames may hold.  The failures that the tree itself can come to have to be reasons to stop short,
and with a loop so has a lack of fuel. -/
theorem layerWith_coupled {enter : Declaration Node → List Value → EvalM σ Value}
    {enter' : Declaration Node → List Value → EvalM τ Value} {builtins : Builtins σ}
    {builtins' : Builtins τ} {fuel : Nat} {node : Node}
    (hfails : ∀ error, node.Raises error → coupling.halts (.failed error))
    (hbuiltins : coupling.SameBuiltins builtins builtins')
    (hchild : ∀ child ∈ node.children, coupling.Coupled (eval child) (eval' child))
    (hdeclares : ∀ declaration, node = .declare declaration → coupling.functions declaration)
    (hloop : ∀ condition body, node = .loop condition body → coupling.halts .outOfFuel)
    (henter : ∀ name args, node = .call name args → ∀ declaration,
      coupling.functions declaration → ∀ values,
        coupling.Coupled (enter declaration values) (enter' declaration values)) :
    coupling.Coupled (layerWith eval enter builtins fuel node)
      (layerWith eval' enter' builtins' fuel node) := by
  rw [layerWith_eq_stageWith, layerWith_eq_stageWith]
  refine coupling.congruence.stageWith ?_ ?_ ?_ hchild ?_
  · intro α error hraises _
    exact Coupled.halt (hfails error hraises)
  · intro update hperforms
    refine Coupled.update update fun declared hdeclared => ?_
    subst hdeclared
    cases node with
    | declare declaration =>
        cases hperforms
        exact hdeclares declared rfl
    | assign | ret =>
        obtain ⟨value, hvalue⟩ := hperforms
        cases hvalue
    | _ => cases hperforms
  · intro condition body hnode
    exact Coupled.halt (hloop condition body hnode)
  · intro name args hnode frame hframe
    subst hnode
    have hhost : ∀ reason, coupling.halts (.failed (.host reason)) :=
      fun reason => hfails _ (Or.inr ⟨reason, rfl⟩)
    refine coupling.congruence.target (hbuiltins.related hhost) ?_
    intro declaration hdeclared values
    exact henter name args rfl declaration (hframe name declaration hdeclared) values

end Layer

end Node

end FlatScript
