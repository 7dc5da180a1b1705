import FlatScript.Proofs.Eval.Footprint
import FlatScript.Proofs.Eval.Operators

/-!
# Return values at the top

A finished run tells the value of the last return statement outside of functions.  But the grammar
lets a return statement stand only directly in the body of a function, and not in a block inside
that body; and whatever a called function returns is recorded in a frame of its own, which ends with
the call.

So the evaluation of a tree that is read from a source leaves the return value of its frame alone,
however it stops and whatever functions it calls, and no script has a return value.
-/

namespace FlatScript

namespace Node

/-! ### Where return statements stand -/

/-- Arithmetic expressions are trees of values. -/
theorem IsExpression.isValueTree {node : Node} (hnode : node.IsExpression) : node.IsValueTree := by
  induction hnode with
  | integer => exact .integer _
  | string => exact .string _
  | bool => exact .bool _
  | read => exact .read _
  | unary _ _ iharg => exact .unary iharg
  | binary _ _ _ ihlhs ihrhs => exact .binary ihlhs ihrhs
  | call _ _ ihargs => exact .call ihargs

/-- So are comparisons. -/
theorem IsComparison.isValueTree {node : Node} (hnode : node.IsComparison) : node.IsValueTree := by
  induction hnode with
  | expression hnode => exact hnode.isValueTree
  | compare _ _ hrhs ihlhs => exact .binary ihlhs hrhs.isValueTree

/-- The tree has no return statement outside the functions that it declares. -/
def ReturnFree (node : Node) : Prop :=
  ∀ value, ¬(Node.ret value).Occurs node

/-- Where a tree has no return statement, its parts have none. -/
theorem ReturnFree.of_mem_children {child node : Node} (hnode : node.ReturnFree)
    (hchild : child ∈ node.children) : child.ReturnFree :=
  fun value hret => hnode value (.inside hchild hret)

/-- A tree that is no return statement has none if none of its children has. -/
theorem returnFree_of_children {node : Node} (hnode : ∀ value, node ≠ .ret value)
    (hchildren : ∀ child ∈ node.children, child.ReturnFree) : node.ReturnFree := by
  intro value hret
  cases hret with
  | here => exact hnode value rfl
  | inside hchild hret => exact hchildren _ hchild value hret

/-- There are no return statements in trees of values. -/
theorem IsValueTree.returnFree {node : Node} (hnode : node.IsValueTree) : node.ReturnFree :=
  fun _ hret => nomatch hnode.of_occurs hret

/-- Whether return statements may stand in the role. -/
def Role.allowsReturn : Role → Bool
  | .statement allowed | .block allowed => allowed
  | .otherwise | .program => false

/-- Where no return statement may stand there is none further inside, except in functions. -/
theorem Fits.returnFree {role : Role} {node : Node} (hnode : Fits role node)
    (hrole : role.allowsReturn = false) : node.ReturnFree := by
  induction hnode with
  | assign _ hvalue =>
      refine returnFree_of_children nofun ?_
      exact List.forall_mem_singleton.mpr hvalue.isValueTree.returnFree
  | choice hfirst _ hothers _ hlast _ ihbody ihbodies ihlast =>
      refine returnFree_of_children nofun fun child hchild => ?_
      obtain ⟨branch, hbranch, hchild⟩ := List.mem_flatMap.mp hchild
      have hparts : branch.predicate.ReturnFree ∧ branch.body.ReturnFree := by
        rcases List.mem_cons.mp hbranch with rfl | hbranch
        · rw [hlast]
          exact ⟨(IsValueTree.bool true).returnFree, ihlast rfl⟩
        rcases List.mem_cons.mp hbranch with rfl | hbranch
        · exact ⟨hfirst.isValueTree.returnFree, ihbody rfl⟩
        · exact ⟨(hothers branch hbranch).isValueTree.returnFree, ihbodies branch hbranch rfl⟩
      rcases List.mem_cons.mp hchild with rfl | hchild
      · exact hparts.1
      · rw [List.mem_singleton.mp hchild]
        exact hparts.2
  | declare => exact returnFree_of_children nofun nofun
  | call hcall => exact hcall.isValueTree.returnFree
  | loop hcondition _ ihbody =>
      refine returnFree_of_children nofun ?_
      exact List.forall_mem_cons.mpr
        ⟨hcondition.isValueTree.returnFree, List.forall_mem_singleton.mpr (ihbody rfl)⟩
  | ret => cases hrole
  | block _ ihbody | program _ ihbody =>
      exact returnFree_of_children nofun fun child hchild => ihbody child hchild hrole
  | absent => exact returnFree_of_children nofun nofun
  | present _ ihbody => exact ihbody rfl

/-- What is read from a source has return statements in functions only. -/
theorem FromSource.returnFree {node : Node} (hnode : node.FromSource) : node.ReturnFree := by
  rcases hnode.wellFormed with hprogram | hcomparison
  · exact Fits.returnFree hprogram rfl
  · exact hcomparison.isValueTree.returnFree

/-! ### What becomes of the return value -/

/-- Leaving the return value of the frame alone. -/
def keepsPending (σ : Type) : Congruence σ σ where
  Rel run _ := ∀ state, (EvalM.left (run state)).frame.pending = state.frame.pending
  rel_pure _ _ := rfl
  rel_bind hrun hnext state :=
    EvalM.left_bind (fun after => after.frame.pending = state.frame.pending) (hrun state)
      fun value middle hmiddle => (hnext value middle).trans hmiddle
  rel_look hnext state := hnext state.frame trivial state

/-- **A tree without return statements leaves the return value alone**, whatever it calls: the host
does not reach the frame, and a declared function runs in a frame of its own. -/
theorem eval_keepsPending {σ : Type} (builtins : Builtins σ) (fuel : Nat) {node : Node}
    (hnode : node.ReturnFree) :
    (keepsPending σ).Rel (node.eval builtins fuel) (node.eval builtins fuel) := by
  induction fuel generalizing node with
  | zero => exact fun _ => rfl
  | succ fuel ih =>
      rw [eval, evalWith_eq_stageWith]
      refine (keepsPending σ).stageWith (fun _ _ _ _ _ => rfl) ?_ (fun _ _ _ _ => rfl)
        (fun child hchild => ih (hnode.of_mem_children hchild)) ?_
      · intro update hperforms state
        cases node with
        | ret value => exact absurd .here (hnode value)
        | assign name value =>
            obtain ⟨result, rfl⟩ := hperforms
            rfl
        | declare declaration =>
            cases hperforms
            rfl
        | _ => cases hperforms
      · intro name args _ frame _
        refine (keepsPending σ).target ?_ fun declaration _ values state => ?_
        · intro name
          cases builtins[name]? with
          | none => exact .none
          | some builtin =>
              exact .some fun values state => by rw [EvalM.left_onHost_frame]
        · rw [left_callWith_frame]

end Node

/-- A script that succeeds has a tree whose evaluation does; its outcome is read off the frame. -/
theorem Script.eval_of_run_ok {σ : Type} [Host σ] {fuel : Nat} {source : String} {host after : σ}
    {outcome : Outcome} (hrun : Script.run fuel source host = .ok outcome after) :
    ∃ program value frame, Script.tree source = .ok program ∧
      program.eval Builtins.standard fuel ⟨{}, host⟩ = .ok value ⟨frame, after⟩ ∧
      outcome = ⟨frame.vars, frame.returned⟩ := by
  rw [Script.run] at hrun
  cases htree : Script.tree source with
  | error error =>
      rw [htree] at hrun
      cases hrun
  | ok program =>
      rw [htree] at hrun
      dsimp only at hrun
      rw [Script.runTree, Node.runFresh] at hrun
      cases heval : program.eval Builtins.standard fuel ⟨{}, host⟩ with
      | error halt state =>
          rw [heval] at hrun
          cases hrun
      | ok value state =>
          rw [heval] at hrun
          cases hrun
          exact ⟨program, value, state.frame, rfl, heval, rfl⟩

/-- **No source sets a return value at the top.**  The evaluation of a tree that is read from a
source leaves the return value of its frame as it was, whatever the frame holds, however the
evaluation stops, and whatever the functions return that it calls.  So no script that succeeds has a
return value. -/
theorem source_keeps_return_value :
    (∀ node : Node, node.FromSource → ∀ (σ : Type) (builtins : Builtins σ) (fuel : Nat)
      (frame : Frame) (host : σ),
        (EvalM.left (node.eval builtins fuel ⟨frame, host⟩)).frame.pending = frame.pending) ∧
    ∀ (σ : Type) [Host σ] (fuel : Nat) (source : String) (host : σ) (outcome : Outcome) (after : σ),
      Script.run fuel source host = .ok outcome after → outcome.returned = .none := by
  constructor
  · intro node hnode σ builtins fuel frame host
    exact Node.eval_keepsPending builtins fuel hnode.returnFree ⟨frame, host⟩
  · intro σ _ fuel source host outcome after hrun
    obtain ⟨program, value, frame, htree, heval, rfl⟩ := Script.eval_of_run_ok hrun
    have hfree := (Node.fromSource_of_tree htree).returnFree
    have hkeeps := Node.eval_keepsPending Builtins.standard fuel hfree ⟨{}, host⟩
    rw [heval] at hkeeps
    have hnone : frame.pending = none := hkeeps
    rw [Frame.returned, hnone]
    rfl

/-- A function with two return statements. -/
def returnsTwice : Declaration Node :=
  ⟨"f", [], .block [.ret (.integer 1), .ret (.integer 2)]⟩

/-- Both return statements of the function are executed, and its caller gets the second value.  The
return value that the frame of the program had beforehand stays, and the script has none. -/
theorem returnsTwice_called_at_top :
    (Node.program [.declare returnsTwice, .assign "x" (.call "f" [])]).FromSource ∧
      (∃ after : State Unit,
        (Node.program [.declare returnsTwice, .assign "x" (.call "f" [])]).eval ∅ 6
          ⟨{ pending := some (.int 7) }, ()⟩ = .ok .none after ∧
        after.frame.vars["x"]? = some (.int 2) ∧ after.frame.pending = some (.int 7)) ∧
      ∃ (outcome : Outcome) (after : MemoryHost),
        Script.run 6 "func f() \x7b return 1 return 2 \x7d var x = f()" ({} : MemoryHost) =
          .ok outcome after ∧
        outcome.vars["x"]? = some (.int 2) ∧ outcome.returned = .none := by
  have htokens : tokenize "func f() \x7b return 1 return 2 \x7d var x = f()" =
      .ok [⟨.funcWord, .text "func", ⟨0, 4⟩⟩, ⟨.word, .text "f", ⟨5, 6⟩⟩,
        ⟨.leftParen, .text "(", ⟨6, 7⟩⟩, ⟨.rightParen, .text ")", ⟨7, 8⟩⟩,
        ⟨.leftBrace, .text "\x7b", ⟨9, 10⟩⟩, ⟨.returnWord, .text "return", ⟨11, 17⟩⟩,
        ⟨.integer, .integer 1, ⟨18, 19⟩⟩, ⟨.returnWord, .text "return", ⟨20, 26⟩⟩,
        ⟨.integer, .integer 2, ⟨27, 28⟩⟩, ⟨.rightBrace, .text "\x7d", ⟨29, 30⟩⟩,
        ⟨.varWord, .text "var", ⟨31, 34⟩⟩, ⟨.word, .text "x", ⟨35, 36⟩⟩,
        ⟨.assign, .text "=", ⟨37, 38⟩⟩, ⟨.word, .text "f", ⟨39, 40⟩⟩,
        ⟨.leftParen, .text "(", ⟨40, 41⟩⟩, ⟨.rightParen, .text ")", ⟨41, 42⟩⟩, Token.endAt 42] :=
    tokenize_of_toOption (by decide +kernel)
  have htree : Script.tree "func f() \x7b return 1 return 2 \x7d var x = f()" =
      .ok (.program [.declare returnsTwice, .assign "x" (.call "f" [])]) :=
    Script.tree_eq_ok_iff.mpr ⟨_, htokens, rfl⟩
  have hsource := Node.fromSource_of_tree htree
  obtain ⟨outcome, after, hrun, hvar⟩ : ∃ (outcome : Outcome) (after : MemoryHost),
      Script.run 6 "func f() \x7b return 1 return 2 \x7d var x = f()" ({} : MemoryHost) =
        .ok outcome after ∧ outcome.vars["x"]? = some (.int 2) := by
    rw [Script.run, htree]
    exact ⟨_, _, rfl, rfl⟩
  refine ⟨hsource, ⟨_, rfl, rfl, ?_⟩, outcome, after, hrun, hvar, ?_⟩
  · exact source_keeps_return_value.1 _ hsource Unit ∅ 6 { pending := some (.int 7) } ()
  · exact source_keeps_return_value.2 MemoryHost 6 _ {} outcome after hrun

end FlatScript
