import FlatScript.Proofs.Eval.Completion

/-!
# Evaluation depends on the names that a tree mentions

Two frames that agree on what a tree looks up are not told apart by its evaluation: it completes in
both or in neither, in the same way, and it makes the same updates.

A call of a declared function depends on still less.  Its body starts in a frame made of the
arguments, so nothing of the caller is left but the declaration, the values of the arguments and the
host.
-/

namespace FlatScript

/-- The scope of an action to which the frame does not matter and that leaves it alone. -/
def Scope.empty : Scope :=
  ⟨fun _ => False, fun _ => False, fun _ => False⟩

/-- Any two frames agree on nothing. -/
theorem Scope.empty_agree (first second : Frame) : Scope.empty.Agree first second :=
  ⟨nofun, nofun⟩

namespace Node

variable {σ : Type} {builtins : Builtins σ}

/-- The values of trees are found alike with any fuel that is enough. -/
theorem evalAll_alike (builtins : Builtins σ) {fuel fuelAgain : Nat} (hfuel : fuel ≤ fuelAgain)
    (nodes : List Node) :
    ((Node.block nodes).scope builtins).Alike (evalAllWith (eval builtins fuel) nodes)
      (evalAllWith (eval builtins fuelAgain) nodes) :=
  evalAllWith_alike fun node hnode =>
    (eval_alike builtins hfuel node).widen (scope_within builtins hnode)

/-- A call of a declared function finds the values of its arguments and runs the function. -/
theorem eval_call {name : String} {args : List Node} {declaration : Declaration Node}
    {state : State σ} (hbuiltin : builtins[name]? = none)
    (hdeclared : state.frame.functions[name]? = some declaration) (fuel : Nat) :
    (Node.call name args).eval builtins (fuel + 1) state =
      (evalAllWith (eval builtins fuel) args >>=
        callWith (eval builtins fuel) declaration) state := by
  rw [eval, evalWith, hbuiltin]
  simp only [EvalM.frame_bind_run, hdeclared]

/-- A call leaves the frame as its arguments have left it, and any other call of the function with
these values and this host ends in the same way. -/
theorem call_same_result {name name' : String} {args args' : List Node}
    {declaration : Declaration Node} {values : List Value} {start start' middle middle' : State σ}
    (hbuiltin : builtins[name]? = none) (hbuiltin' : builtins[name']? = none)
    (hdeclared : start.frame.functions[name]? = some declaration)
    (hdeclared' : start'.frame.functions[name']? = some declaration)
    (hargs : CompletesAll builtins args start (.ok values) middle)
    (hargs' : CompletesAll builtins args' start' (.ok values) middle')
    (hhost : middle.host = middle'.host) {outcome : Except EvalError Value} {after : State σ}
    (hcall : (Node.call name args).Completes builtins start outcome after) :
    after.frame = middle.frame ∧
      (Node.call name' args').Completes builtins start' outcome ⟨middle'.frame, after.host⟩ := by
  obtain ⟨fuel, hargs⟩ := hargs
  obtain ⟨fuel', hargs'⟩ := hargs'
  obtain ⟨fuelCall, hcall⟩ := hcall
  -- All runs are taken with the same fuel, which is enough for each of them.
  obtain ⟨most, hmost⟩ : ∃ most, fuel ≤ most ∧ fuel' ≤ most ∧ fuelCall ≤ most + 1 :=
    ⟨fuel + fuel' + fuelCall, by omega⟩
  replace hargs := (evalAll_alike builtins hmost.1 args).ended_again hargs
  replace hargs' := (evalAll_alike builtins hmost.2.1 args').ended_again hargs'
  replace hcall := (eval_alike builtins hmost.2.2 (.call name args)).ended_again hcall
  rw [eval_call hbuiltin hdeclared, EvalM.bind_of_ok hargs] at hcall
  have halike : Scope.empty.Alike (callWith (eval builtins most) declaration values)
      (callWith (eval builtins most) declaration values) :=
    callWith_alike values (eval_alike builtins (Nat.le_refl most) declaration.body)
  obtain ⟨updates, hwrites, hframe, hagain⟩ :=
    halike.ended (Scope.empty_agree middle.frame middle'.frame) hcall
  obtain rfl : updates = [] := List.eq_nil_iff_forall_not_mem.mpr hwrites
  refine ⟨hframe, most + 1, ?_⟩
  rw [eval_call hbuiltin' hdeclared', EvalM.bind_of_ok hargs']
  rw [hhost] at hagain
  exact hagain

/-- **Evaluation depends only on the names that the tree mentions.**  In two frames that agree on
the variables that a tree reads and on the functions, other than builtins, that it calls, its
evaluation completes in both or in neither, in the same way, with the same host and after the same
updates.  The result of a call depends only on the declaration of the function, the values of the
arguments, the builtins and the host: two calls with these the same end in the same way, and each
leaves its frame as the arguments have left it. -/
theorem eval_depends_on_mentioned_names (builtins : Builtins σ) :
    (∀ (node : Node) (first second : Frame) (host : σ),
      (∀ name, (Node.read name).Occurs node → first.vars[name]? = second.vars[name]?) →
      (∀ name args, (Node.call name args).Occurs node → builtins[name]? = none →
        first.functions[name]? = second.functions[name]?) →
      ((∃ outcome after, node.Completes builtins ⟨first, host⟩ outcome after) ↔
        ∃ outcome after, node.Completes builtins ⟨second, host⟩ outcome after) ∧
      ∀ outcome outcome' after after', node.Completes builtins ⟨first, host⟩ outcome after →
        node.Completes builtins ⟨second, host⟩ outcome' after' →
        outcome = outcome' ∧ after.host = after'.host ∧
          Frame.SameUpdates first after.frame second after'.frame) ∧
    ∀ (name name' : String) (args args' : List Node) (declaration : Declaration Node)
      (values : List Value) (start start' middle middle' : State σ),
      builtins[name]? = none → builtins[name']? = none →
      start.frame.functions[name]? = some declaration →
      start'.frame.functions[name']? = some declaration →
      CompletesAll builtins args start (.ok values) middle →
      CompletesAll builtins args' start' (.ok values) middle' → middle.host = middle'.host →
      ∀ outcome after, (Node.call name args).Completes builtins start outcome after →
        after.frame = middle.frame ∧
        (Node.call name' args').Completes builtins start' outcome ⟨middle'.frame, after.host⟩ := by
  refine ⟨fun node first second host hvars hfunctions => ?_, ?_⟩
  · have hagree : (node.scope builtins).Agree first second :=
      ⟨hvars, fun name hname => hname.2.elim fun args hargs => hfunctions name args hargs hname.1⟩
    refine ⟨⟨?_, ?_⟩, fun outcome outcome' after after' hfirst hsecond => ?_⟩
    · rintro ⟨outcome, after, hfirst⟩
      obtain ⟨updates, -, -, hsecond⟩ := hfirst.of_agree hagree
      exact ⟨outcome, _, hsecond⟩
    · rintro ⟨outcome, after, hsecond⟩
      obtain ⟨updates, -, -, hfirst⟩ := hsecond.of_agree hagree.symm
      exact ⟨outcome, _, hfirst⟩
    · obtain ⟨updates, -, hframe, hagain⟩ := hfirst.of_agree hagree
      obtain ⟨rfl, rfl⟩ := hagain.unique hsecond
      refine ⟨rfl, rfl, ?_⟩
      rw [hframe]
      exact Frame.sameUpdates_applyAll first second updates
  · intro name name' args args' declaration values start start' middle middle' hbuiltin hbuiltin'
      hdeclared hdeclared' hargs hargs' hhost outcome after hcall
    exact call_same_result hbuiltin hbuiltin' hdeclared hdeclared' hargs hargs' hhost hcall

/-- A function that assigns a variable of its own and returns a sum with it. -/
def addsFive : Declaration Node :=
  ⟨"f", ["a"], .block
    [.assign "y" (.integer 5), .ret (.binary (.read "a") .plus (.read "y"))]⟩

/-- An assignment from a call of the function. -/
def assignsCall : Node :=
  .assign "y" (.call "f" [.read "x"])

/-- A frame with the function and its argument. -/
def quietFrame : Frame :=
  (({} : Frame).assign "x" (.int 1)).declare addsFive

/-- The same frame with more in it, among it a variable of the name that the function assigns. -/
def busyFrame : Frame :=
  ((quietFrame.assign "y" (.int 7)).declare ⟨"g", [], .block []⟩).setPending (.int 3)

/-- In the busy frame the assignment ends as in the quiet one, and so does a call of the function
with a literal for the argument. -/
theorem assignsCall_quiet_busy :
    (∃ outcome after,
      assignsCall.Completes (∅ : Builtins Unit) ⟨busyFrame, ()⟩ outcome after) ∧
    (∀ outcome after, assignsCall.Completes (∅ : Builtins Unit) ⟨busyFrame, ()⟩ outcome after →
      .ok .none = outcome ∧
        Frame.SameUpdates quietFrame (quietFrame.assign "y" (.int 6)) busyFrame after.frame) ∧
    (Node.call "f" [.integer 1]).Completes (∅ : Builtins Unit) ⟨busyFrame, ()⟩ (.ok (.int 6))
      ⟨busyFrame, ()⟩ := by
  have hquiet : assignsCall.Completes (∅ : Builtins Unit) ⟨quietFrame, ()⟩ (.ok .none)
      ⟨quietFrame.assign "y" (.int 6), ()⟩ := ⟨6, rfl⟩
  have hparts : ∀ part : Node, part.Occurs assignsCall →
      part = assignsCall ∨ part = .call "f" [.read "x"] ∨ part = .read "x" := by
    intro part hpart
    cases hpart with
    | here => exact Or.inl rfl
    | inside hchild hpart =>
        obtain rfl := List.mem_singleton.mp hchild
        cases hpart with
        | here => exact Or.inr (Or.inl rfl)
        | inside hchild hpart =>
            obtain rfl := List.mem_singleton.mp hchild
            cases hpart with
            | here => exact Or.inr (Or.inr rfl)
            | inside hchild => cases hchild
  have hvars : ∀ name, (Node.read name).Occurs assignsCall →
      quietFrame.vars[name]? = busyFrame.vars[name]? := by
    intro name hread
    obtain rfl : name = "x" := by simpa [assignsCall] using hparts _ hread
    rfl
  have hfunctions : ∀ name args, (Node.call name args).Occurs assignsCall →
      (∅ : Builtins Unit)[name]? = none →
      quietFrame.functions[name]? = busyFrame.functions[name]? := by
    intro name args hcall _
    obtain ⟨rfl, -⟩ : name = "f" ∧ args = [.read "x"] := by
      simpa [assignsCall] using hparts _ hcall
    rfl
  obtain ⟨hiff, hsame⟩ :=
    (eval_depends_on_mentioned_names ∅).1 assignsCall quietFrame busyFrame () hvars hfunctions
  refine ⟨hiff.mp ⟨_, _, hquiet⟩, fun outcome after hbusy => ?_, ?_⟩
  · obtain ⟨houtcome, -, hupdates⟩ := hsame _ _ _ _ hquiet hbusy
    exact ⟨houtcome, hupdates⟩
  · exact ((eval_depends_on_mentioned_names ∅).2 "f" "f" [.read "x"] [.integer 1] addsFive [.int 1]
      ⟨quietFrame, ()⟩ ⟨busyFrame, ()⟩ ⟨quietFrame, ()⟩ ⟨busyFrame, ()⟩ rfl rfl rfl rfl ⟨1, rfl⟩
      ⟨1, rfl⟩ rfl (.ok (.int 6)) ⟨quietFrame, ()⟩ ⟨5, rfl⟩).2

end Node

end FlatScript
