import FlatScript.Node.Statement
import FlatScript.Proofs.Grammar.Expression

/-!
# The grammar of statements and programs

The nonterminals above expressions are the clauses: statements, lists of them, blocks, the branches
of a choice, and programs.  Statements and blocks come in two modes, of which only one admits return
statements; the mode is that of the block they stand in directly.

As for expressions, a derivation has a yield and a meaning.  A choice without a last branch means
one whose last branch is absent.
-/

namespace FlatScript.Grammar

/-- The nonterminals of the grammar of programs. -/
inductive Clause where
  | statement (allowReturn : Bool)
  | statements (allowReturn : Bool)
  | block (allowReturn : Bool)
  /-- The branches of a choice behind the first. -/
  | otherBranches
  /-- The last branch of a choice, which may be absent. -/
  | lastBranch
  | program

/-- What a clause means. -/
abbrev Clause.Meaning : Clause → Type
  | .statement _ => Node
  | .statements _ => List Node
  | .block _ => Node
  | .otherBranches => List (Branch Node)
  | .lastBranch => Branch Node
  | .program => Node

/-- The derivations of a clause, with one constructor for each production. -/
inductive Clause.Derivation : Clause → Type
  | assign {mode : Bool} (varWord : Terminal .varWord) (name : Terminal .word)
      (sign : Terminal .assign) (value : (Phrase.expression (.chain .comparison)).Derivation) :
      Derivation (.statement mode)
  | choice {mode : Bool} (ifWord : Terminal .ifWord)
      (predicate : (Phrase.expression (.chain .comparison)).Derivation)
      (body : Derivation (.block false)) (others : Derivation .otherBranches)
      (last : Derivation .lastBranch) : Derivation (.statement mode)
  | declare {mode : Bool} (funcWord : Terminal .funcWord) (name : Terminal .word)
      (left : Terminal .leftParen) (params : (Phrase.items .parameter).Derivation)
      (right : Terminal .rightParen) (body : Derivation (.block true)) :
      Derivation (.statement mode)
  | call {mode : Bool} (inner : Phrase.call.Derivation) : Derivation (.statement mode)
  | loop {mode : Bool} (whileWord : Terminal .whileWord)
      (condition : (Phrase.expression (.chain .comparison)).Derivation)
      (body : Derivation (.block false)) : Derivation (.statement mode)
  | ret (returnWord : Terminal .returnWord)
      (value : (Phrase.expression (.chain .comparison)).Derivation) : Derivation (.statement true)
  | noStatement {mode : Bool} : Derivation (.statements mode)
  | nextStatement {mode : Bool} (first : Derivation (.statement mode))
      (others : Derivation (.statements mode)) : Derivation (.statements mode)
  | block {mode : Bool} (left : Terminal .leftBrace) (body : Derivation (.statements mode))
      (right : Terminal .rightBrace) : Derivation (.block mode)
  | noBranch : Derivation .otherBranches
  | nextBranch (elseifWord : Terminal .elseifWord)
      (predicate : (Phrase.expression (.chain .sum)).Derivation)
      (body : Derivation (.block false)) (others : Derivation .otherBranches) :
      Derivation .otherBranches
  | noElse : Derivation .lastBranch
  | elseBranch (elseWord : Terminal .elseWord) (body : Derivation (.block false)) :
      Derivation .lastBranch
  | program (body : Derivation (.statements false)) (finish : Terminal .eof) : Derivation .program

/-- The kinds of token that start a statement in the given mode. -/
def startsStatement (allowReturn : Bool) : Token.Kind → Bool
  | .varWord | .ifWord | .funcWord | .word | .whileWord => true
  | .returnWord => allowReturn
  | _ => false

namespace Clause.Derivation

/-- The tokens that a derivation derives. -/
def tokens : {clause : Clause} → clause.Derivation → List Token
  | _, .assign varWord name sign value => varWord.1 :: name.1 :: sign.1 :: value.tokens
  | _, .choice ifWord predicate body others last =>
    ifWord.1 :: (predicate.tokens ++ (body.tokens ++ (others.tokens ++ last.tokens)))
  | _, .declare funcWord name left params right body =>
    funcWord.1 :: name.1 :: (left.1 :: (params.tokens ++ [right.1]) ++ body.tokens)
  | _, .call inner => inner.tokens
  | _, .loop whileWord condition body => whileWord.1 :: (condition.tokens ++ body.tokens)
  | _, .ret returnWord value => returnWord.1 :: value.tokens
  | _, .noStatement => []
  | _, .nextStatement first others => first.tokens ++ others.tokens
  | _, .block left body right => left.1 :: (body.tokens ++ [right.1])
  | _, .noBranch => []
  | _, .nextBranch elseifWord predicate body others =>
    elseifWord.1 :: (predicate.tokens ++ (body.tokens ++ others.tokens))
  | _, .noElse => []
  | _, .elseBranch elseWord body => elseWord.1 :: body.tokens
  | _, .program body finish => body.tokens ++ [finish.1]

/-- The tree, or the part of one, that a derivation stands for. -/
def meaning : {clause : Clause} → clause.Derivation → clause.Meaning
  | _, .assign _ name _ value => Node.assign name.name value.meaning
  | _, .choice _ predicate body others last =>
    Node.choice ⟨predicate.meaning, body.meaning⟩ others.meaning last.meaning
  | _, .declare _ name _ params _ body => Node.declare ⟨name.name, params.meaning, body.meaning⟩
  | _, .call inner => inner.meaning
  | _, .loop _ condition body => Node.loop condition.meaning body.meaning
  | _, .ret _ value => Node.ret value.meaning
  | _, .noStatement => []
  | _, .nextStatement first others => first.meaning :: others.meaning
  | _, .block _ body _ => Node.block body.meaning
  | _, .noBranch => []
  | _, .nextBranch _ predicate body others => ⟨predicate.meaning, body.meaning⟩ :: others.meaning
  | _, .noElse => Branch.absent
  | _, .elseBranch _ body => ⟨.bool true, body.meaning⟩
  | _, .program body _ => Node.program body.meaning

/-- A statement has at least one token. -/
theorem statement_tokens_ne_nil {mode : Bool} (d : (Clause.statement mode).Derivation) :
    d.tokens ≠ [] := by
  cases d with
  | call inner => cases inner; simp [tokens, Phrase.Derivation.tokens]
  | _ => simp [tokens]

/-- A statement starts with a token that may start one. -/
theorem startsStatement_kind {mode : Bool} (d : (Clause.statement mode).Derivation)
    (after : Cursor) : startsStatement mode (after.before d.tokens).kind = true := by
  cases d with
  | assign word | choice word | declare word | loop word | ret word =>
      simp [tokens, word.2, startsStatement]
  | call inner =>
      cases inner with
      | call name => simp [tokens, Phrase.Derivation.tokens, name.2, startsStatement]

/-- A block starts with a brace. -/
theorem block_kind {mode : Bool} (d : (Clause.block mode).Derivation) (after : Cursor) :
    (after.before d.tokens).kind = .leftBrace := by
  cases d with
  | block left => exact left.2

end Clause.Derivation

/-! ### Where a clause ends -/

/-- The kinds of token that may follow a clause.  A statement is followed by another one or by the
end of the list it stands in, and a list by what closes it. -/
def Clause.EndsAt : Clause → Token.Kind → Prop
  | .statement _, next => startsStatement true next = true ∨ next = .rightBrace ∨ next = .eof
  | .statements _, next => next = .rightBrace ∨ next = .eof
  | .otherBranches, next => next ≠ .elseifWord
  | .lastBranch, next => next ≠ .elseWord
  | .block _, _ | .program, _ => True

/-- An expression in front of a block is over where the block starts. -/
theorem Level.endsAt_block (level : Level) (tokens : List Token) {mode : Bool}
    (body : (Clause.block mode).Derivation) (after : Cursor) :
    level.EndsAt tokens (after.before body.tokens).kind := by
  rw [body.block_kind]
  refine ⟨?_, fun _ => by decide⟩
  rcases level with _ | _ | _ | _ <;> rfl

/-- An expression at the end of a statement is over where the statement is. -/
theorem Level.endsAt_statement (level : Level) (tokens : List Token) {mode : Bool}
    {next : Token.Kind} (hnext : (Clause.statement mode).EndsAt next) :
    level.EndsAt tokens next := by
  have hfacts : level.continues next = false ∧ next ≠ .leftParen := by
    rcases hnext with hstarts | rfl | rfl
    · revert hstarts
      rcases level with _ | _ | _ | _ <;> cases next <;> decide
    · rcases level with _ | _ | _ | _ <;> decide
    · rcases level with _ | _ | _ | _ <;> decide
  exact ⟨hfacts.1, fun _ => hfacts.2⟩

/-- In a list of statements, each is over where the rest of the list starts. -/
theorem Clause.endsAt_statements {mode : Bool} (others : (Clause.statements mode).Derivation)
    {after : Cursor} (hafter : (Clause.statements mode).EndsAt after.kind) :
    (Clause.statement mode).EndsAt (after.before others.tokens).kind := by
  cases others with
  | noStatement => exact Or.inr hafter
  | nextStatement first others =>
      have hstarts := first.startsStatement_kind (after.before others.tokens)
      rw [Clause.Derivation.tokens, Cursor.before_append]
      refine Or.inl ?_
      revert hstarts
      cases ((after.before others.tokens).before first.tokens).kind <;> simp [startsStatement]

/-- A choice without a last branch is over where the statement is. -/
theorem Clause.endsAt_lastBranch {mode : Bool} {next : Token.Kind}
    (hnext : (Clause.statement mode).EndsAt next) : Clause.lastBranch.EndsAt next := by
  rcases hnext with hstarts | rfl | rfl
  · rintro rfl
    cases hstarts
  · exact nofun
  · exact nofun

/-- The branches of a choice behind the first are over where the last one starts or, if that is
absent, where the statement is over. -/
theorem Clause.endsAt_otherBranches {mode : Bool} (last : Clause.lastBranch.Derivation)
    {after : Cursor} (hafter : (Clause.statement mode).EndsAt after.kind) :
    Clause.otherBranches.EndsAt (after.before last.tokens).kind := by
  cases last with
  | noElse =>
      intro hkind
      rw [Clause.Derivation.tokens, Cursor.before_nil] at hkind
      rw [hkind] at hafter
      rcases hafter with hafter | hafter | hafter <;> cases hafter
  | elseBranch elseWord body =>
      simp [Clause.EndsAt, Clause.Derivation.tokens, elseWord.2]

end FlatScript.Grammar
