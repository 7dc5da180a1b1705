import FlatScript.Proofs.Eval.NonInterference
import FlatScript.Proofs.Eval.TopLevelReturn
import FlatScript.Proofs.Trees.Choices

/-!
# The value of a call

A return statement records a value and ends nothing: the statements behind it still run, and a later
return statement takes its place.  So the value of a call should be that of the last return
statement of the body, found where the statements in front of it have led, and whatever comes behind
it.

Two facts make it so.  The grammar puts return statements directly into the body of a function, and
into no branch or loop of it (`Node.IsFunctionBody`), whatever tokens the program is read from.  And
a statement without return statements leaves the recorded value alone, however it runs and whatever
the functions return that it calls.
-/

namespace FlatScript

namespace Node

/-! ### The bodies of functions -/

/-- The tree is a block, and each of its statements is a return statement or has none in it. -/
def IsFunctionBody (body : Node) : Prop :=
  ∃ statements, body = .block statements ∧
    ∀ statement ∈ statements, (∃ value, statement = .ret value) ∨ statement.ReturnFree

/-- All functions that are declared in the tree, be it in the body of another, have such bodies. -/
def DeclaresPlainly (node : Node) : Prop :=
  ∀ declaration, (Node.declare declaration).Within node → declaration.body.IsFunctionBody

/-- The tree has return statements in functions only, and there they stand directly in the body. -/
structure Confined (node : Node) : Prop where
  declares : node.DeclaresPlainly
  returnFree : node.ReturnFree

/-- A tree of values neither declares nor returns. -/
theorem IsValueTree.confined {node : Node} (hnode : node.IsValueTree) : node.Confined where
  declares _ hwithin := by cases hnode.of_within hwithin
  returnFree := hnode.returnFree

/-- A tree that is no declaration passes on what its parts declare. -/
theorem declaresPlainly_of_parts {node : Node} (hnode : ∀ declaration, node ≠ .declare declaration)
    (hparts : ∀ part ∈ node.parts, part.DeclaresPlainly) : node.DeclaresPlainly := by
  intro declaration hwithin
  cases hwithin with
  | here => exact absurd rfl (hnode declaration)
  | inside hbetween hwithin => exact hparts _ hbetween declaration hwithin

/-- A declaration declares plainly if its body does so and is the body of a function. -/
theorem declaresPlainly_declare {declaration : Declaration Node}
    (hbody : declaration.body.IsFunctionBody) (hinside : declaration.body.DeclaresPlainly) :
    (Node.declare declaration).DeclaresPlainly := by
  intro other hwithin
  cases hwithin with
  | here => exact hbody
  | inside hbetween hwithin =>
      rw [List.mem_singleton.mp hbetween] at hwithin
      exact hinside other hwithin

/-- A tree that is neither a declaration nor a return statement is confined if its parts are. -/
theorem confined_of_parts {node : Node} (hdeclare : ∀ declaration, node ≠ .declare declaration)
    (hret : ∀ value, node ≠ .ret value) (hparts : ∀ part ∈ node.parts, part.Confined) :
    node.Confined where
  declares := declaresPlainly_of_parts hdeclare fun part hpart => (hparts part hpart).declares
  returnFree := returnFree_of_children hret fun child hchild =>
    (hparts child (mem_parts_of_mem_children hchild)).returnFree

/-- A choice is confined if its branches are. -/
theorem confined_choice {first last : Branch Node} {others : List (Branch Node)}
    (hbranches : ∀ branch ∈ last :: first :: others,
      branch.predicate.Confined ∧ branch.body.Confined) :
    (Node.choice first others last).Confined := by
  refine confined_of_parts (by rintro _ ⟨⟩) (by rintro _ ⟨⟩) fun part hpart => ?_
  obtain ⟨branch, hbranch, hpart⟩ := List.mem_flatMap.mp hpart
  rcases List.mem_cons.mp hpart with rfl | hpart
  · exact (hbranches branch hbranch).1
  · rw [List.mem_singleton.mp hpart]
    exact (hbranches branch hbranch).2

end Node

namespace Grammar

open Node

/-- The statements that may stand in a block of the given mode: confined ones and, if the mode
allows it, return statements. -/
def Admits (mode : Bool) (statement : Node) : Prop :=
  statement.Confined ∨ mode = true ∧ statement.DeclaresPlainly ∧ ∃ value, statement = .ret value

/-- Where no return statement may stand, statements are confined. -/
theorem Admits.confined {statement : Node} (hstatement : Admits false statement) :
    statement.Confined := by
  rcases hstatement with hconfined | ⟨hmode, -⟩
  · exact hconfined
  · cases hmode

/-- In either mode statements declare plainly. -/
theorem Admits.declares {mode : Bool} {statement : Node} (hstatement : Admits mode statement) :
    statement.DeclaresPlainly := by
  rcases hstatement with hconfined | ⟨-, hdeclares, -⟩
  · exact hconfined.declares
  · exact hdeclares

/-- The meanings of a clause that have return statements only where the clause allows them. -/
def Clause.Confined : (clause : Clause) → clause.Meaning → Prop
  | .statement mode => Admits mode
  | .statements mode => fun nodes => ∀ node ∈ nodes, Admits mode node
  | .block mode => fun node => ∃ nodes, node = .block nodes ∧ ∀ node ∈ nodes, Admits mode node
  | .otherBranches => fun branches => ∀ branch ∈ branches,
    branch.predicate.Confined ∧ branch.body.Confined
  | .lastBranch => fun branch => branch.predicate.Confined ∧ branch.body.Confined
  | .program => Node.Confined

/-- A block without return statements is confined. -/
theorem Clause.Confined.block {node : Node} (hblock : (Clause.block false).Confined node) :
    node.Confined := by
  obtain ⟨nodes, rfl, hnodes⟩ := hblock
  exact confined_of_parts (by rintro _ ⟨⟩) (by rintro _ ⟨⟩) fun part hpart =>
    (hnodes part hpart).confined

/-- A block with return statements is the body of a function. -/
theorem Clause.Confined.functionBody {node : Node} (hblock : (Clause.block true).Confined node) :
    node.IsFunctionBody ∧ node.DeclaresPlainly := by
  obtain ⟨nodes, rfl, hnodes⟩ := hblock
  refine ⟨⟨nodes, rfl, fun statement hstatement => ?_⟩, ?_⟩
  · rcases hnodes statement hstatement with hconfined | ⟨-, -, hret⟩
    · exact Or.inr hconfined.returnFree
    · exact Or.inl hret
  · exact declaresPlainly_of_parts (by rintro _ ⟨⟩) fun part hpart => (hnodes part hpart).declares

/-- **The grammar puts return statements directly into the bodies of functions**, and nowhere
else. -/
theorem Clause.Derivation.confined {clause : Clause} (d : clause.Derivation) :
    clause.Confined d.meaning := by
  induction d with
  | assign varWord name sign value =>
      exact Or.inl (confined_of_parts (by rintro _ ⟨⟩) (by rintro _ ⟨⟩)
        (List.forall_mem_singleton.mpr (IsValueTree.confined value.meansValue)))
  | choice ifWord predicate body others last ihbody ihothers ihlast =>
      have hfirst := IsValueTree.confined predicate.meansValue
      exact Or.inl (confined_choice (List.forall_mem_cons.mpr
        ⟨ihlast, List.forall_mem_cons.mpr ⟨⟨hfirst, ihbody.block⟩, ihothers⟩⟩))
  | declare funcWord name left params right body ihbody =>
      obtain ⟨hbody, hinside⟩ := ihbody.functionBody
      exact Or.inl ⟨declaresPlainly_declare hbody hinside,
        returnFree_of_children (by rintro _ ⟨⟩) nofun⟩
  | call inner => exact Or.inl (IsValueTree.confined inner.meansValue)
  | loop whileWord condition body ihbody =>
      have hcondition := IsValueTree.confined condition.meansValue
      exact Or.inl (confined_of_parts (by rintro _ ⟨⟩) (by rintro _ ⟨⟩)
        (List.forall_mem_cons.mpr ⟨hcondition, List.forall_mem_singleton.mpr ihbody.block⟩))
  | ret returnWord value =>
      have hvalue := IsValueTree.confined value.meansValue
      refine Or.inr ⟨rfl, declaresPlainly_of_parts (by rintro _ ⟨⟩) ?_, _, rfl⟩
      exact List.forall_mem_singleton.mpr hvalue.declares
  | noStatement => exact nofun
  | nextStatement first others ihfirst ihothers =>
      exact List.forall_mem_cons.mpr ⟨ihfirst, ihothers⟩
  | block left body right ihbody => exact ⟨_, rfl, ihbody⟩
  | noBranch => exact nofun
  | nextBranch elseifWord predicate body others ihbody ihothers =>
      have hpredicate := IsValueTree.confined predicate.meansValue
      exact List.forall_mem_cons.mpr ⟨⟨hpredicate, ihbody.block⟩, ihothers⟩
  | noElse =>
      refine ⟨(IsValueTree.bool true).confined, ?_⟩
      exact confined_of_parts (by rintro _ ⟨⟩) (by rintro _ ⟨⟩) nofun
  | elseBranch elseWord body ihbody => exact ⟨(IsValueTree.bool true).confined, ihbody.block⟩
  | program body finish ihbody =>
      exact confined_of_parts (by rintro _ ⟨⟩) (by rintro _ ⟨⟩) fun part hpart =>
        (ihbody part hpart).confined

/-- From any place among any tokens, the program that is read declares functions with return
statements directly in their bodies. -/
theorem readProgram_declaresPlainly {start after : Cursor} {program : Node}
    (hread : Parser.readProgram start = .ok program after) : program.DeclaresPlainly := by
  rw [Parser.readProgram, Parser.remaining_bind] at hread
  obtain ⟨nodes, middle, hstatements, hrest⟩ := Parser.bind_eq_ok.mp hread
  obtain ⟨-, hpure⟩ := expect_eof_bind_eq_ok hrest
  obtain ⟨rfl, -⟩ := Parser.pure_eq_ok.mp hpure
  obtain ⟨d, rfl, -⟩ := statements_sound _ false (Nat.le_refl _) hstatements
  exact declaresPlainly_of_parts (by rintro _ ⟨⟩) fun part hpart => (d.confined part hpart).declares

end Grammar

namespace Node

variable {σ : Type} {builtins : Builtins σ}

/-! ### Statements in order -/

/-- The statements run once each and in order, every one of them from the state in which the one
before it has ended. -/
inductive RunsInOrder (builtins : Builtins σ) : List Node → State σ → State σ → Prop
  | none (state : State σ) : RunsInOrder builtins [] state state
  | next {statement : Node} {statements : List Node} {state middle after : State σ} {value : Value}
      (hfirst : statement.Completes builtins state (.ok value) middle)
      (hothers : RunsInOrder builtins statements middle after) :
      RunsInOrder builtins (statement :: statements) state after

/-- A block that completes has run its statements in order. -/
theorem Completes.runsInOrder {statements : List Node} {state after : State σ} {value : Value}
    (hblock : (Node.block statements).Completes builtins state (.ok value) after) :
    RunsInOrder builtins statements state after := by
  obtain ⟨fuel, heval⟩ := hblock
  cases fuel with
  | zero => cases heval
  | succ fuel =>
      replace heval : runAllWith (eval builtins fuel) statements state = .ok value after := heval
      induction statements generalizing state with
      | nil =>
          cases heval
          exact .none _
      | cons statement statements ih =>
          rw [runAllWith] at heval
          cases hfirst : statement.eval builtins fuel state with
          | ok found middle =>
              rw [EvalM.bind_of_ok hfirst] at heval
              exact .next ⟨fuel, hfirst⟩ (ih heval)
          | error halt middle =>
              rw [EvalM.bind_of_error hfirst] at heval
              cases heval

/-- The first of two lists of statements leads to where the second starts. -/
theorem RunsInOrder.split {first second : List Node} {state after : State σ}
    (hruns : RunsInOrder builtins (first ++ second) state after) :
    ∃ middle, RunsInOrder builtins first state middle ∧
      RunsInOrder builtins second middle after := by
  induction first generalizing state with
  | nil => exact ⟨state, .none state, hruns⟩
  | cons statement first ih =>
      cases hruns with
      | next hfirst hothers =>
          obtain ⟨middle, hbefore, hsecond⟩ := ih hothers
          exact ⟨middle, .next hfirst hbefore, hsecond⟩

/-- Statements without return statements leave the recorded value alone. -/
theorem RunsInOrder.pending_eq {statements : List Node} {state after : State σ}
    (hruns : RunsInOrder builtins statements state after)
    (hfree : ∀ statement ∈ statements, statement.ReturnFree) :
    after.frame.pending = state.frame.pending := by
  induction hruns with
  | none state => rfl
  | @next statement statements state middle after value hfirst _ ih =>
      obtain ⟨hstatement, hothers⟩ := List.forall_mem_cons.mp hfree
      obtain ⟨fuel, heval⟩ := hfirst
      have hkeeps := eval_keepsPending builtins fuel hstatement state
      rw [heval] at hkeeps
      exact (ih hothers).trans hkeeps

/-- A return statement finds its value and records it. -/
theorem Completes.of_ret {result : Node} {state after : State σ} {value : Value}
    (hret : (Node.ret result).Completes builtins state (.ok value) after) :
    ∃ found : State σ, result.Completes builtins state (.ok value) found ∧
      after = ⟨found.frame.setPending value, found.host⟩ := by
  obtain ⟨fuel, heval⟩ := hret
  cases fuel with
  | zero => cases heval
  | succ fuel =>
      rw [eval, evalWith] at heval
      cases hresult : result.eval builtins fuel state with
      | ok value found =>
          rw [EvalM.bind_of_ok hresult] at heval
          cases heval
          exact ⟨found, ⟨fuel, hresult⟩, rfl⟩
      | error halt found =>
          rw [EvalM.bind_of_error hresult] at heval
          cases heval

/-- A call that completes has found the values of its arguments and has run the body in a frame of
its own.  The value is the one that this frame has recorded. -/
theorem Completes.of_call {name : String} {args : List Node} {declaration : Declaration Node}
    {state after : State σ} {value : Value} (hbuiltin : builtins[name]? = none)
    (hdeclared : state.frame.functions[name]? = some declaration)
    (hcall : (Node.call name args).Completes builtins state (.ok value) after) :
    ∃ (values : List Value) (middle : State σ) (ignored : Value) (last : State σ),
      CompletesAll builtins args state (.ok values) middle ∧
      declaration.body.Completes builtins
        ⟨Frame.ofCall declaration.params values, middle.host⟩ (.ok ignored) last ∧
      after = ⟨middle.frame, last.host⟩ ∧ value = last.frame.returned := by
  obtain ⟨fuel, heval⟩ := hcall
  cases fuel with
  | zero => cases heval
  | succ fuel =>
      rw [eval_call hbuiltin hdeclared] at heval
      cases hargs : evalAllWith (eval builtins fuel) args state with
      | error halt middle =>
          rw [EvalM.bind_of_error hargs] at heval
          cases heval
      | ok values middle =>
          rw [EvalM.bind_of_ok hargs, callWith] at heval
          cases hbody : declaration.body.eval builtins fuel
              ⟨Frame.ofCall declaration.params values, middle.host⟩ with
          | ok ignored last =>
              have hframe : EvalM.inFrame (Frame.ofCall declaration.params values)
                  (declaration.body.eval builtins fuel) middle =
                    .ok last.frame ⟨middle.frame, last.host⟩ := by
                simp only [EvalM.inFrame, hbody]
              rw [EvalM.bind_of_ok hframe] at heval
              cases heval
              exact ⟨values, middle, ignored, last, ⟨fuel, hargs⟩, ⟨fuel, hbody⟩, rfl, rfl⟩
          | error halt last =>
              have hframe : EvalM.inFrame (Frame.ofCall declaration.params values)
                  (declaration.body.eval builtins fuel) middle =
                    .error halt ⟨middle.frame, last.host⟩ := by
                simp only [EvalM.inFrame, hbody]
              rw [EvalM.bind_of_error hframe] at heval
              cases heval

/-! ### The last return statement -/

/-- Statements of which the last return statement is known have recorded its value, found where the
statements in front of it have led. -/
theorem RunsInOrder.last_return {before behind : List Node} {result : Node} {state last : State σ}
    (hruns : RunsInOrder builtins (before ++ .ret result :: behind) state last)
    (hbehind : ∀ statement ∈ behind, statement.ReturnFree) :
    ∃ (reached found : State σ) (value : Value), RunsInOrder builtins before state reached ∧
      result.Completes builtins reached (.ok value) found ∧
      RunsInOrder builtins behind ⟨found.frame.setPending value, found.host⟩ last ∧
      last.frame.returned = value := by
  obtain ⟨reached, hbefore, hrest⟩ := hruns.split
  cases hrest with
  | next hret hothers =>
      obtain ⟨found, hresult, rfl⟩ := hret.of_ret
      refine ⟨reached, found, _, hbefore, hresult, hothers, ?_⟩
      rw [Frame.returned, hothers.pending_eq hbehind]
      rfl

/-- **A call has the value of the last return statement.**  Take any function that is declared in a
program, whatever tokens the program is read from, and any call of it that succeeds.  The arguments
are evaluated, and then all statements of the body, once each and in order, in a frame that holds
the arguments only.  The value of the call is that of the last return statement among them, found
where the statements in front of it have led; it is no matter what these have returned, nor what the
statements behind it do.  Without a return statement the call has no value. -/
theorem call_has_last_return {start stop : Cursor} {program : Node}
    (hread : Parser.readProgram start = .ok program stop) {declaration : Declaration Node}
    (hwithin : (Node.declare declaration).Within program) (builtins : Builtins σ) {name : String}
    (args : List Node) {state after : State σ} {value : Value} (hbuiltin : builtins[name]? = none)
    (hdeclared : state.frame.functions[name]? = some declaration)
    (hcall : (Node.call name args).Completes builtins state (.ok value) after) :
    ∃ (statements : List Node) (values : List Value) (middle entry last : State σ),
      declaration.body = .block statements ∧
      CompletesAll builtins args state (.ok values) middle ∧
      entry = ⟨Frame.ofCall declaration.params values, middle.host⟩ ∧
      RunsInOrder builtins statements entry last ∧
      after = ⟨middle.frame, last.host⟩ ∧
      (∀ before result behind, statements = before ++ .ret result :: behind →
        (∀ other, Node.ret other ∉ behind) →
          ∃ reached found, RunsInOrder builtins before entry reached ∧
            result.Completes builtins reached (.ok value) found ∧
            RunsInOrder builtins behind ⟨found.frame.setPending value, found.host⟩ last) ∧
      ((∀ result, Node.ret result ∉ statements) → value = .none) := by
  obtain ⟨statements, hbody, hplain⟩ :=
    Grammar.readProgram_declaresPlainly hread declaration hwithin
  obtain ⟨values, middle, ignored, last, hargs, hcompletes, rfl, rfl⟩ :=
    hcall.of_call hbuiltin hdeclared
  rw [hbody] at hcompletes
  have hruns := hcompletes.runsInOrder
  -- A statement that is no return statement has none further inside either.
  have hfree : ∀ part : List Node, (∀ statement ∈ part, statement ∈ statements) →
      (∀ other, Node.ret other ∉ part) → ∀ statement ∈ part, statement.ReturnFree := by
    intro part hpart hnone statement hstatement
    rcases hplain statement (hpart statement hstatement) with ⟨other, rfl⟩ | hreturnFree
    · exact absurd hstatement (hnone other)
    · exact hreturnFree
  refine ⟨statements, values, middle, _, last, hbody, hargs, rfl, hruns, rfl, ?_, fun hnone => ?_⟩
  · intro before result behind hsplit hnone
    have hbehind : ∀ statement ∈ behind, statement.ReturnFree := by
      refine hfree behind (fun statement hstatement => ?_) hnone
      rw [hsplit]
      exact List.mem_append_right _ (List.mem_cons_of_mem _ hstatement)
    rw [hsplit] at hruns
    obtain ⟨reached, found, value, hbefore, hresult, hothers, rfl⟩ := hruns.last_return hbehind
    exact ⟨reached, found, hbefore, hresult, hothers⟩
  · have hpending := hruns.pending_eq (hfree statements (fun _ hmem => hmem) hnone)
    rw [Frame.returned, hpending]
    rfl

/-- A function that goes on behind its two return statements: with a loop that assigns its
parameter, and with a function of its own that returns something else. -/
def goesOn : Declaration Node :=
  ⟨"f", ["n"], .block
    [.ret (.read "n"), .ret (.binary (.read "n") .plus (.integer 1)),
      .loop (.binary (.read "n") .greater (.integer 0)) (.block [.assign "n" (.integer 0)]),
      .declare ⟨"g", [], .block [.ret (.integer 9)]⟩, .call "g" []]⟩

/-- The call has the value of the second return statement, found where the first has led. -/
theorem goesOn_called :
    Script.tree ("func f(n) \x7b return n return n + 1 while n > 0 \x7b var n = 0 " ++
        "\x7d func g() \x7b return 9 \x7d g() \x7d") = .ok (.program [.declare goesOn]) ∧
      ∃ after : State Unit,
        (Node.call "f" [.integer 5]).Completes ∅ ⟨({} : Frame).declare goesOn, ()⟩ (.ok (.int 6))
          after ∧
        ∃ reached found : State Unit,
          RunsInOrder ∅ [.ret (.read "n")] ⟨Frame.ofCall ["n"] [.int 5], ()⟩ reached ∧
          (Node.binary (.read "n") .plus (.integer 1)).Completes ∅ reached (.ok (.int 6))
            found := by
  have htokens : tokenize ("func f(n) \x7b return n return n + 1 while n > 0 \x7b var n = 0 " ++
      "\x7d func g() \x7b return 9 \x7d g() \x7d") =
      .ok [⟨.funcWord, .text "func", ⟨0, 4⟩⟩, ⟨.word, .text "f", ⟨5, 6⟩⟩,
        ⟨.leftParen, .text "(", ⟨6, 7⟩⟩, ⟨.word, .text "n", ⟨7, 8⟩⟩,
        ⟨.rightParen, .text ")", ⟨8, 9⟩⟩, ⟨.leftBrace, .text "\x7b", ⟨10, 11⟩⟩,
        ⟨.returnWord, .text "return", ⟨12, 18⟩⟩, ⟨.word, .text "n", ⟨19, 20⟩⟩,
        ⟨.returnWord, .text "return", ⟨21, 27⟩⟩, ⟨.word, .text "n", ⟨28, 29⟩⟩,
        ⟨.plus, .text "+", ⟨30, 31⟩⟩, ⟨.integer, .integer 1, ⟨32, 33⟩⟩,
        ⟨.whileWord, .text "while", ⟨34, 39⟩⟩, ⟨.word, .text "n", ⟨40, 41⟩⟩,
        ⟨.greater, .text ">", ⟨42, 43⟩⟩, ⟨.integer, .integer 0, ⟨44, 45⟩⟩,
        ⟨.leftBrace, .text "\x7b", ⟨46, 47⟩⟩, ⟨.varWord, .text "var", ⟨48, 51⟩⟩,
        ⟨.word, .text "n", ⟨52, 53⟩⟩, ⟨.assign, .text "=", ⟨54, 55⟩⟩,
        ⟨.integer, .integer 0, ⟨56, 57⟩⟩, ⟨.rightBrace, .text "\x7d", ⟨58, 59⟩⟩,
        ⟨.funcWord, .text "func", ⟨60, 64⟩⟩, ⟨.word, .text "g", ⟨65, 66⟩⟩,
        ⟨.leftParen, .text "(", ⟨66, 67⟩⟩, ⟨.rightParen, .text ")", ⟨67, 68⟩⟩,
        ⟨.leftBrace, .text "\x7b", ⟨69, 70⟩⟩, ⟨.returnWord, .text "return", ⟨71, 77⟩⟩,
        ⟨.integer, .integer 9, ⟨78, 79⟩⟩, ⟨.rightBrace, .text "\x7d", ⟨80, 81⟩⟩,
        ⟨.word, .text "g", ⟨82, 83⟩⟩, ⟨.leftParen, .text "(", ⟨83, 84⟩⟩,
        ⟨.rightParen, .text ")", ⟨84, 85⟩⟩, ⟨.rightBrace, .text "\x7d", ⟨86, 87⟩⟩,
        Token.endAt 87] :=
    tokenize_of_toOption (by decide +kernel)
  have htree : Script.tree ("func f(n) \x7b return n return n + 1 while n > 0 \x7b var n = 0 " ++
      "\x7d func g() \x7b return 9 \x7d g() \x7d") = .ok (.program [.declare goesOn]) :=
    Script.tree_eq_ok_iff.mpr ⟨_, htokens, rfl⟩
  obtain ⟨start, stop, hread⟩ := Script.readProgram_of_tree htree
  obtain ⟨after, hcall⟩ : ∃ after : State Unit, (Node.call "f" [.integer 5]).Completes ∅
      ⟨({} : Frame).declare goesOn, ()⟩ (.ok (.int 6)) after := ⟨_, 8, rfl⟩
  obtain ⟨statements, values, middle, entry, last, hbody, ⟨fuel, hargs⟩, rfl, -, -, hlast, -⟩ :=
    call_has_last_return hread (.inside List.mem_cons_self .here) ∅ _ rfl rfl hcall
  cases hbody
  cases fuel with
  | zero => cases hargs
  | succ fuel =>
      cases hargs
      obtain ⟨reached, found, hbefore, hresult, -⟩ :=
        hlast [.ret (.read "n")] (.binary (.read "n") .plus (.integer 1)) _ rfl (by simp)
      exact ⟨htree, after, hcall, reached, found, hbefore, hresult⟩

end Node

end FlatScript
