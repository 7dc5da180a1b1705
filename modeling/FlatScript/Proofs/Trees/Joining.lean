import FlatScript.Proofs.Eval.Completion
import FlatScript.Proofs.Lexing.Joining
import FlatScript.Proofs.Trees.RoundTrip

/-!
# Programs one behind the other

Statements need no separators, so two programs with a newline between them are a program again: the
statements of the first and then those of the second.  Nothing at the end of a program takes up what
the next one starts with, since a statement starts with no operator, no parenthesis and no further
branch of a choice.

Such a program runs like the two programs one after the other, in one frame and against one host.
If the first of them fails, nothing of the second is run.
-/

namespace FlatScript

namespace Grammar

/-! ### Derivations further on -/

/-- The terminal as many bytes further on. -/
def Terminal.shift (distance : Nat) {kind : Token.Kind} (token : Terminal kind) : Terminal kind :=
  ⟨token.1.shift distance, token.2⟩

/-- The operator as many bytes further on. -/
def Rank.Operator.shift (distance : Nat) {rank : Rank} (op : rank.Operator) : rank.Operator :=
  ⟨op.1.shift distance, op.2⟩

namespace Phrase.Derivation

/-- The derivation with all its tokens as many bytes further on. -/
def shift (distance : Nat) : {phrase : Phrase} → phrase.Derivation → phrase.Derivation
  | _, .integer token value hvalue => .integer (token.shift distance) value hvalue
  | _, .signed sign arg => .signed (Rank.Operator.shift distance sign) (arg.shift distance)
  | _, .parens left inner right =>
    .parens (left.shift distance) (inner.shift distance) (right.shift distance)
  | _, .trueWord token => .trueWord (token.shift distance)
  | _, .falseWord token => .falseWord (token.shift distance)
  | _, .string token => .string (token.shift distance)
  | _, .called inner => .called (inner.shift distance)
  | _, .read name => .read (name.shift distance)
  | _, .chain first tail => .chain (first.shift distance) (tail.shift distance)
  | _, .noLink => .noLink
  | _, .link op operand tail =>
    .link (Rank.Operator.shift distance op) (operand.shift distance) (tail.shift distance)
  | _, .call name left args right =>
    .call (name.shift distance) (left.shift distance) (args.shift distance) (right.shift distance)
  | _, .argument sum => .argument (sum.shift distance)
  | _, .parameter name => .parameter (name.shift distance)
  | _, .noItems => .noItems
  | _, .someItems first others => .someItems (first.shift distance) (others.shift distance)
  | _, .lastItem => .lastItem
  | _, .nextItem comma first others =>
    .nextItem (comma.shift distance) (first.shift distance) (others.shift distance)

/-- The derivation with all its places moved is one of the moved tokens. -/
theorem shift_tokens (distance : Nat) {phrase : Phrase} (d : phrase.Derivation) :
    (d.shift distance).tokens = d.tokens.map (Token.shift distance) := by
  induction d <;> simp [shift, tokens, Terminal.shift, Rank.Operator.shift, *]

/-- What a derivation means does not depend on where its tokens stand. -/
theorem shift_meaning (distance : Nat) {phrase : Phrase} (d : phrase.Derivation) :
    (d.shift distance).meaning = d.meaning := by
  induction d <;> simp [shift, meaning, *] <;> rfl

end Phrase.Derivation

namespace Clause.Derivation

/-- The derivation with all its tokens as many bytes further on. -/
def shift (distance : Nat) : {clause : Clause} → clause.Derivation → clause.Derivation
  | _, .assign varWord name sign value =>
    .assign (varWord.shift distance) (name.shift distance) (sign.shift distance)
      (value.shift distance)
  | _, .choice ifWord predicate body others last =>
    .choice (ifWord.shift distance) (predicate.shift distance) (body.shift distance)
      (others.shift distance) (last.shift distance)
  | _, .declare funcWord name left params right body =>
    .declare (funcWord.shift distance) (name.shift distance) (left.shift distance)
      (params.shift distance) (right.shift distance) (body.shift distance)
  | _, .call inner => .call (inner.shift distance)
  | _, .loop whileWord condition body =>
    .loop (whileWord.shift distance) (condition.shift distance) (body.shift distance)
  | _, .ret returnWord value => .ret (returnWord.shift distance) (value.shift distance)
  | _, .noStatement => .noStatement
  | _, .nextStatement first others =>
    .nextStatement (first.shift distance) (others.shift distance)
  | _, .block left body right =>
    .block (left.shift distance) (body.shift distance) (right.shift distance)
  | _, .noBranch => .noBranch
  | _, .nextBranch elseifWord predicate body others =>
    .nextBranch (elseifWord.shift distance) (predicate.shift distance) (body.shift distance)
      (others.shift distance)
  | _, .noElse => .noElse
  | _, .elseBranch elseWord body => .elseBranch (elseWord.shift distance) (body.shift distance)
  | _, .program body finish => .program (body.shift distance) (finish.shift distance)

theorem shift_tokens (distance : Nat) {clause : Clause} (d : clause.Derivation) :
    (d.shift distance).tokens = d.tokens.map (Token.shift distance) := by
  induction d <;> simp [shift, tokens, Terminal.shift, Phrase.Derivation.shift_tokens, *]

/-- The places of the tokens have no part in the meaning. -/
theorem shift_meaning (distance : Nat) {clause : Clause} (d : clause.Derivation) :
    (d.shift distance).meaning = d.meaning := by
  induction d <;> simp [shift, meaning, Phrase.Derivation.shift_meaning, *] <;> rfl

/-- The statements of one list and then those of another. -/
def append {mode : Bool} : (Clause.statements mode).Derivation →
    (Clause.statements mode).Derivation → (Clause.statements mode).Derivation
  | .noStatement, other => other
  | .nextStatement first others, other => .nextStatement first (others.append other)

/-- Statements that are joined have the tokens of both. -/
theorem append_tokens {mode : Bool} (d e : (Clause.statements mode).Derivation) :
    (d.append e).tokens = d.tokens ++ e.tokens := by
  fun_induction append d e with
  | case1 => rfl
  | case2 first others other ih => simp [tokens, ih]

/-- Statements that are joined mean the statements of both, in order. -/
theorem append_meaning {mode : Bool} (d e : (Clause.statements mode).Derivation) :
    (d.append e).meaning = d.meaning ++ e.meaning := by
  fun_induction append d e with
  | case1 => rfl
  | case2 first others other ih => simp [meaning, ih]

end Clause.Derivation

end Grammar

open Grammar

/-- **Two programs with blanks between them are a program again**, which has the statements of the
first and then those of the second.  The first must not end inside a string literal, which would
swallow what follows. -/
theorem Script.tree_append {first second gap : String} {nodes others : List Node}
    (hfirst : Script.tree first = .ok (.program nodes)) (hclosed : ¬EndsInLiteral first)
    (hsecond : Script.tree second = .ok (.program others)) (hne : gap ≠ "")
    (hgap : ∀ c ∈ gap.toList, isBlank c = true) :
    Script.tree (first ++ gap ++ second) = .ok (.program (nodes ++ others)) := by
  obtain ⟨d, finish, htokens, -, hnodes⟩ := Script.derivation_of_tree hfirst
  obtain ⟨e, finish', htokens', -, hothers⟩ := Script.derivation_of_tree hsecond
  cases hnodes
  cases hothers
  have hjoined : tokenize (first ++ gap ++ second) = _ := tokenize_append htokens hclosed hne hgap
  rw [htokens'] at hjoined
  let distance := (first ++ gap).utf8ByteSize
  let whole : Clause.program.Derivation :=
    .program (d.append (e.shift distance)) (finish'.shift distance)
  have hwhole : whole.tokens =
      d.tokens ++ (e.tokens ++ [finish'.1]).map (Token.shift distance) := by
    rw [Clause.Derivation.tokens, Clause.Derivation.append_tokens, Clause.Derivation.shift_tokens,
      List.map_append, List.append_assoc]
    rfl
  have hmeaning : whole.meaning = .program (d.meaning ++ e.meaning) := by
    rw [Clause.Derivation.meaning, Clause.Derivation.append_meaning,
      Clause.Derivation.shift_meaning]
  have hread := ofTokens_complete whole
  rw [hwhole, hmeaning] at hread
  exact Script.tree_eq_ok_iff.mpr ⟨_, hjoined, hread⟩

/-! ### Running one program after the other -/

namespace Node

variable {σ : Type}

/-- A list of statements is run by running its front and then its rest. -/
theorem runAllWith_append (eval : Node → EvalM σ Value) (first second : List Node) :
    runAllWith eval (first ++ second) =
      runAllWith eval first >>= fun _ => runAllWith eval second := by
  induction first with
  | nil => rfl
  | cons node first ih =>
      rw [List.cons_append, runAllWith, runAllWith, ih, bind_assoc]

/-- With any fuel, the statements of two programs run like the one program and then the other. -/
theorem eval_program_append (builtins : Builtins σ) (fuel : Nat) (first second : List Node) :
    (Node.program (first ++ second)).eval builtins fuel =
      (Node.program first).eval builtins fuel >>= fun _ =>
        (Node.program second).eval builtins fuel := by
  cases fuel with
  | zero => rfl
  | succ fuel => exact runAllWith_append _ first second

/-- The statements of two programs complete as the one program and then the other do.  If the first
fails, that is how they complete. -/
theorem completes_program_append {builtins : Builtins σ} {first second : List Node}
    {state after : State σ} {outcome : Except EvalError Value} :
    (Node.program (first ++ second)).Completes builtins state outcome after ↔
      (∃ value middle, (Node.program first).Completes builtins state (.ok value) middle ∧
        (Node.program second).Completes builtins middle outcome after) ∨
      ∃ error, outcome = .error error ∧
        (Node.program first).Completes builtins state (.error error) after := by
  constructor
  · rintro ⟨fuel, hended⟩
    rw [eval_program_append] at hended
    cases hfirst : (Node.program first).eval builtins fuel state with
    | ok value middle =>
        rw [EvalM.bind_of_ok hfirst] at hended
        exact Or.inl ⟨value, middle, ⟨fuel, hfirst⟩, fuel, hended⟩
    | error halt middle =>
        rw [EvalM.bind_of_error hfirst] at hended
        right
        cases outcome with
        | ok value => cases hended
        | error error =>
            cases hended
            exact ⟨error, rfl, fuel, hfirst⟩
  · rintro (⟨value, middle, ⟨fuel, hfirst⟩, fuel', hsecond⟩ | ⟨error, rfl, fuel, hfirst⟩)
    · -- With the larger amount of fuel both runs end as they did.
      have hmax := (eval_alike builtins (Nat.le_max_left fuel fuel') _).ended_again hfirst
      have hmax' := (eval_alike builtins (Nat.le_max_right fuel fuel') _).ended_again hsecond
      refine ⟨max fuel fuel', ?_⟩
      rw [eval_program_append, EvalM.bind_of_ok hmax, hmax']
    · refine ⟨fuel, ?_⟩
      rw [eval_program_append, EvalM.bind_of_error hfirst]
      rfl

end Node

/-- **Running a program in pieces is running it whole.**  Two programs with a newline between them
are the program of both, unless the first ends inside a string literal.  In every state and with any
fuel it runs like the first and then, if that succeeds, like the second in the state that is left;
if the first fails, then so does the whole, with the same error and in the same state.  So it
completes as they do. -/
theorem Script.runs_in_pieces {first second : String} {nodes others : List Node}
    (hfirst : Script.tree first = .ok (.program nodes))
    (hsecond : Script.tree second = .ok (.program others)) (hclosed : ¬EndsInLiteral first) :
    Script.tree (first ++ "\n" ++ second) = .ok (.program (nodes ++ others)) ∧
    ∀ {σ : Type} (builtins : Builtins σ) (state : State σ),
      (∀ fuel, (Node.program (nodes ++ others)).eval builtins fuel state =
        match (Node.program nodes).eval builtins fuel state with
        | .ok _ middle => (Node.program others).eval builtins fuel middle
        | .error halt after => .error halt after) ∧
      ∀ outcome after,
        (Node.program (nodes ++ others)).Completes builtins state outcome after ↔
          (∃ value middle, (Node.program nodes).Completes builtins state (.ok value) middle ∧
            (Node.program others).Completes builtins middle outcome after) ∨
          ∃ error, outcome = .error error ∧
            (Node.program nodes).Completes builtins state (.error error) after := by
  have hgap : ∀ c ∈ "\n".toList, isBlank c = true := by
    rw [show "\n".toList = ['\n'] from rfl]
    exact List.forall_mem_singleton.mpr rfl
  refine ⟨Script.tree_append hfirst hclosed hsecond (by decide) hgap, ?_⟩
  intro σ builtins state
  refine ⟨fun fuel => ?_, fun outcome after => Node.completes_program_append⟩
  rw [Node.eval_program_append]
  cases hrun : (Node.program nodes).eval builtins fuel state with
  | ok value middle => exact EvalM.bind_of_ok hrun _
  | error halt after => exact EvalM.bind_of_error hrun _

/-- The statements of a program that asks for a line and keeps it. -/
def Script.keepsLine : List Node :=
  [.assign "x" (.call "input" []), .assign "y" (.read "x")]

/-- The statements of a program that prints what another has kept. -/
def Script.printsKept : List Node :=
  [.call "print" [.read "y"]]

/-- What the first of them leaves, if the line is `q`. -/
def Script.keptFrame : Frame :=
  (({} : Frame).assign "x" (.str "q")).assign "y" (.str "q")

/-- The first program ends in a word and the second starts with one in front of a parenthesis.  They
do not become a call of the word, nor one word.  If there is a line, the second prints what the
first has kept; if there is none, the first fails and nothing is printed. -/
theorem Script.assignment_then_call_in_pieces :
    Script.tree "var x = input() var y = x" = .ok (.program keepsLine) ∧
      Script.tree "print(y)" = .ok (.program printsKept) ∧
      ¬EndsInLiteral "var x = input() var y = x" ∧
      Script.tree "var x = input() var y = x\nprint(y)" =
        .ok (.program (keepsLine ++ printsKept)) ∧
      (∃ after : State MemoryHost, (Node.program (keepsLine ++ printsKept)).Completes
        Builtins.standard ⟨{}, { input := ["q"] }⟩ (.ok .none) after ∧
        after.host.output = "q\n") ∧
      ∃ after : State MemoryHost, (Node.program (keepsLine ++ printsKept)).Completes
        Builtins.standard ⟨{}, {}⟩ (.error (.host .endOfInput)) after ∧ after.host.output = "" := by
  have htokens : tokenize "var x = input() var y = x" = .ok ([⟨.varWord, .text "var", ⟨0, 3⟩⟩,
      ⟨.word, .text "x", ⟨4, 5⟩⟩, ⟨.assign, .text "=", ⟨6, 7⟩⟩, ⟨.word, .text "input", ⟨8, 13⟩⟩,
      ⟨.leftParen, .text "(", ⟨13, 14⟩⟩, ⟨.rightParen, .text ")", ⟨14, 15⟩⟩,
      ⟨.varWord, .text "var", ⟨16, 19⟩⟩, ⟨.word, .text "y", ⟨20, 21⟩⟩,
      ⟨.assign, .text "=", ⟨22, 23⟩⟩, ⟨.word, .text "x", ⟨24, 25⟩⟩] ++ [Token.endAt 25]) :=
    tokenize_of_toOption (by decide +kernel)
  have htokens' : tokenize "print(y)" = .ok [⟨.word, .text "print", ⟨0, 5⟩⟩,
      ⟨.leftParen, .text "(", ⟨5, 6⟩⟩, ⟨.word, .text "y", ⟨6, 7⟩⟩, ⟨.rightParen, .text ")", ⟨7, 8⟩⟩,
      Token.endAt 8] :=
    tokenize_of_toOption (by decide +kernel)
  have hfirst : Script.tree "var x = input() var y = x" = .ok (.program keepsLine) :=
    Script.tree_eq_ok_iff.mpr ⟨_, htokens, rfl⟩
  have hsecond : Script.tree "print(y)" = .ok (.program printsKept) :=
    Script.tree_eq_ok_iff.mpr ⟨_, htokens', rfl⟩
  have hclosed : ¬EndsInLiteral "var x = input() var y = x" := by
    intro hends
    obtain ⟨read, last, hread, hlast⟩ := hends.last_kind htokens
    have hword := congrArg List.getLast? hread
    rw [List.getLast?_concat] at hword
    cases hword
    cases hlast
  obtain ⟨htree, hruns⟩ := Script.runs_in_pieces hfirst hsecond hclosed
  refine ⟨hfirst, hsecond, hclosed, htree, ?_, ?_⟩
  · have hkept : (Node.program keepsLine).Completes Builtins.standard
        ⟨{}, ({ input := ["q"] } : MemoryHost)⟩ (.ok .none) ⟨keptFrame, {}⟩ := ⟨5, rfl⟩
    have hprinted : (Node.program printsKept).Completes Builtins.standard
        ⟨keptFrame, ({} : MemoryHost)⟩ (.ok .none) ⟨keptFrame, { output := "q\n" }⟩ := ⟨5, rfl⟩
    exact ⟨_, ((hruns _ _).2 _ _).mpr (Or.inl ⟨_, _, hkept, hprinted⟩), rfl⟩
  · have hfails : (Node.program keepsLine).Completes Builtins.standard ⟨{}, ({} : MemoryHost)⟩
        (.error (.host .endOfInput)) ⟨{}, {}⟩ := ⟨5, rfl⟩
    exact ⟨_, ((hruns _ _).2 _ _).mpr (Or.inr ⟨_, rfl, hfails⟩), rfl⟩

end FlatScript
