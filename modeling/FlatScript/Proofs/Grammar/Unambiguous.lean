import FlatScript.Proofs.Grammar.Statement

/-!
# The grammar is unambiguous

Two derivations of one phrase that start at the same place, each of them over where its tokens end,
are the same derivation.  In particular no list of tokens has two derivations as a program.

The reason is that the production can be told from the tokens in front: from the first one, and for
a word that starts a factor also from the second.  `FactorRule.predict` is that table for factors;
for statements the first token alone decides, and in a list it tells whether there is a next item.
-/

namespace FlatScript.Grammar

/-- Two places that are the same have the same token in front and the same rest. -/
theorem terminal_inj {allowed : Token → Prop} {first second : Subtype allowed}
    {after after' : Cursor} {tokens tokens' : List Token}
    (hsame : after.before (first.1 :: tokens) = after'.before (second.1 :: tokens')) :
    first = second ∧ after.before tokens = after'.before tokens' := by
  simp only [Cursor.before, List.cons_append, Cursor.mk.injEq, List.cons.injEq] at hsame ⊢
  exact ⟨Subtype.ext hsame.1.1, hsame.1.2, hsame.2⟩

/-! ### Expressions -/

/-- The productions of a factor. -/
inductive FactorRule where
  | integer
  | signed
  | parens
  | trueWord
  | falseWord
  | string
  | called
  | read

/-- The production of a factor that starts with a token of the first kind, followed by one of the
second. -/
def FactorRule.predict : Token.Kind → Token.Kind → Option FactorRule
  | .integer, _ => some .integer
  | .plus, _ | .minus, _ => some .signed
  | .leftParen, _ => some .parens
  | .trueWord, _ => some .trueWord
  | .falseWord, _ => some .falseWord
  | .string, _ => some .string
  | .word, .leftParen => some .called
  | .word, _ => some .read
  | _, _ => none

/-- The production at the root of a factor. -/
def Phrase.Derivation.rule : (Phrase.expression .factor).Derivation → FactorRule
  | .integer .. => .integer
  | .signed .. => .signed
  | .parens .. => .parens
  | .trueWord .. => .trueWord
  | .falseWord .. => .falseWord
  | .string .. => .string
  | .called .. => .called
  | .read .. => .read

open Phrase.Derivation

/-- The first two tokens tell the production of a factor. -/
theorem predict_eq_rule (d : (Phrase.expression .factor).Derivation) {after : Cursor}
    (hends : Level.factor.EndsAt d.tokens after.kind) :
    FactorRule.predict (after.before d.tokens).kind (after.before d.tokens).nextKind =
      some d.rule := by
  cases d with
  | integer token | parens token | trueWord token | falseWord token | string token =>
      simp [tokens, token.2, FactorRule.predict, rule]
  | signed sign arg =>
      have hsign := sign.2
      rw [tokens, Cursor.before_kind, rule]
      revert hsign
      cases sign.1.kind <;> simp [FactorRule.predict, Rank.isOperator, Token.Kind.isSumOperator]
  | called inner =>
      cases inner with
      | call name left args right => simp [tokens, name.2, left.2, FactorRule.predict, rule]
  | read name =>
      have hnext : after.kind ≠ .leftParen := hends.noCall (by simp [tokens, EndsInWord, name.2])
      simp only [tokens, Cursor.before_kind, name.2, Cursor.before_nextKind_singleton, rule]
      revert hnext
      cases after.kind <;> simp [FactorRule.predict]

/-- Where a phrase is over, for the phrases below an expression as well. -/
def Phrase.EndsAt : Phrase → List Token → Token.Kind → Prop
  | .expression level, tokens, next => level.EndsAt tokens next
  | .links rank, tokens, next => (Level.chain rank).EndsAt tokens next
  | .call, _, _ => True
  | .item _, _, next => next = .comma ∨ next = .rightParen
  | .items _, _, next | .moreItems _, _, next => next = .rightParen

/-- Two factors from one place have the same production. -/
theorem rule_eq_of_same {d e : (Phrase.expression .factor).Derivation} {after after' : Cursor}
    (hsame : after.before d.tokens = after'.before e.tokens)
    (hd : Level.factor.EndsAt d.tokens after.kind) (he : Level.factor.EndsAt e.tokens after'.kind) :
    d.rule = e.rule := by
  have hpredict := predict_eq_rule d hd
  rw [hsame, predict_eq_rule e he] at hpredict
  exact (Option.some.inj hpredict).symm

/-- Links that are over are not continued by another link. -/
theorem link_absurd {rank : Rank} {op : rank.Operator}
    {operand : (Phrase.expression rank.operand).Derivation} {tail : (Phrase.links rank).Derivation}
    {after after' : Cursor} (hsame : after = after'.before (link op operand tail).tokens)
    (hends : (Level.chain rank).EndsAt [] after.kind) : False := by
  have hop := hends.noOperator
  rw [hsame, tokens, Cursor.before_kind, Level.continues_chain, op.2] at hop
  cases hop

/-- A list of items that is closed has no first item. -/
theorem someItems_absurd {sort : Item} {first : (Phrase.item sort).Derivation}
    {others : (Phrase.moreItems sort).Derivation} {after after' : Cursor}
    (hsame : after = after'.before (someItems first others).tokens)
    (hafter : after.kind = .rightParen) : False := by
  rw [hsame, tokens, Cursor.before_append] at hafter
  exact item_kind_ne first _ hafter

/-- A list of items that is closed has no next item. -/
theorem nextItem_absurd {sort : Item} {comma : Terminal .comma}
    {first : (Phrase.item sort).Derivation} {others : (Phrase.moreItems sort).Derivation}
    {after after' : Cursor} (hsame : after = after'.before (nextItem comma first others).tokens)
    (hafter : after.kind = .rightParen) : False := by
  rw [hsame, tokens, Cursor.before_kind, comma.2] at hafter
  cases hafter

/-- **Expressions are unambiguous.**  Two derivations of a phrase from one place, each of them over
where it ends, are equal and end at the same place. -/
theorem Phrase.Derivation.unambiguous {phrase : Phrase} (d e : phrase.Derivation)
    {after after' : Cursor} (hsame : after.before d.tokens = after'.before e.tokens)
    (hd : phrase.EndsAt d.tokens after.kind) (he : phrase.EndsAt e.tokens after'.kind) :
    d = e ∧ after = after' := by
  -- The tokens in front tell the production, so `e` has the constructor of `d`; its parts are then
  -- equal one after the other, each from the place where the one before it ended.
  induction d generalizing after after' with
  | integer token value hvalue =>
      cases e with
      | integer token' value' hvalue' =>
          obtain ⟨rfl, hafter⟩ := terminal_inj hsame
          obtain rfl : value = value' := by simpa [hvalue] using hvalue'
          exact ⟨rfl, hafter⟩
      | _ => cases rule_eq_of_same hsame hd he
  | signed sign arg ih =>
      cases e with
      | signed sign' arg' =>
          obtain ⟨rfl, hrest⟩ := terminal_inj hsame
          obtain ⟨rfl, hafter⟩ := ih arg' hrest (hd.of_append [sign.1]) (he.of_append [sign.1])
          exact ⟨rfl, hafter⟩
      | _ => cases rule_eq_of_same hsame hd he
  | parens left inner right ih =>
      cases e with
      | parens left' inner' right' =>
          obtain ⟨rfl, hrest⟩ := terminal_inj hsame
          simp only [Cursor.before_append] at hrest
          obtain ⟨rfl, hright⟩ := ih inner' hrest (Level.endsAt_item _ _ (Or.inr right.2))
            (Level.endsAt_item _ _ (Or.inr right'.2))
          obtain ⟨rfl, hafter⟩ := terminal_inj hright
          exact ⟨rfl, hafter⟩
      | _ => cases rule_eq_of_same hsame hd he
  | trueWord token =>
      cases e with
      | trueWord token' =>
          obtain ⟨rfl, hafter⟩ := terminal_inj hsame
          exact ⟨rfl, hafter⟩
      | _ => cases rule_eq_of_same hsame hd he
  | falseWord token =>
      cases e with
      | falseWord token' =>
          obtain ⟨rfl, hafter⟩ := terminal_inj hsame
          exact ⟨rfl, hafter⟩
      | _ => cases rule_eq_of_same hsame hd he
  | string token =>
      cases e with
      | string token' =>
          obtain ⟨rfl, hafter⟩ := terminal_inj hsame
          exact ⟨rfl, hafter⟩
      | _ => cases rule_eq_of_same hsame hd he
  | called inner ih =>
      cases e with
      | called inner' =>
          obtain ⟨rfl, hafter⟩ := ih inner' hsame trivial trivial
          exact ⟨rfl, hafter⟩
      | _ => cases rule_eq_of_same hsame hd he
  | read name =>
      cases e with
      | read name' =>
          obtain ⟨rfl, hafter⟩ := terminal_inj hsame
          exact ⟨rfl, hafter⟩
      | _ => cases rule_eq_of_same hsame hd he
  | chain first tail ihfirst ihtail =>
      cases e with
      | chain first' tail' =>
          simp only [tokens, Cursor.before_append] at hsame
          obtain ⟨rfl, hrest⟩ := ihfirst first' hsame
            (Level.EndsAt.operand [] hd first.tokens_ne_nil)
            (Level.EndsAt.operand [] he first'.tokens_ne_nil)
          obtain ⟨rfl, hafter⟩ := ihtail tail' hrest hd.of_append he.of_append
          exact ⟨rfl, hafter⟩
  | noLink =>
      cases e with
      | noLink => exact ⟨rfl, hsame⟩
      | link op operand tail => exact (link_absurd hsame hd).elim
  | link op operand tail ihoperand ihtail =>
      cases e with
      | noLink => exact (link_absurd hsame.symm he).elim
      | link op' operand' tail' =>
          obtain ⟨rfl, hrest⟩ := terminal_inj hsame
          simp only [Cursor.before_append] at hrest
          obtain ⟨rfl, htail⟩ := ihoperand operand' hrest
            (Level.EndsAt.operand [op.1] hd operand.tokens_ne_nil)
            (Level.EndsAt.operand [op.1] he operand'.tokens_ne_nil)
          obtain ⟨rfl, hafter⟩ := ihtail tail' htail (hd.of_append (op.1 :: operand.tokens))
            (he.of_append (op.1 :: operand.tokens))
          exact ⟨rfl, hafter⟩
  | call name left args right ih =>
      cases e with
      | call name' left' args' right' =>
          obtain ⟨rfl, hleft⟩ := terminal_inj hsame
          obtain ⟨rfl, hargs⟩ := terminal_inj hleft
          simp only [Cursor.before_append] at hargs
          obtain ⟨rfl, hright⟩ := ih args' hargs right.2 right'.2
          obtain ⟨rfl, hafter⟩ := terminal_inj hright
          exact ⟨rfl, hafter⟩
  | argument sum ih =>
      cases e with
      | argument sum' =>
          obtain ⟨rfl, hafter⟩ := ih sum' hsame (Level.endsAt_item _ _ hd)
            (Level.endsAt_item _ _ he)
          exact ⟨rfl, hafter⟩
  | parameter name =>
      cases e with
      | parameter name' =>
          obtain ⟨rfl, hafter⟩ := terminal_inj hsame
          exact ⟨rfl, hafter⟩
  | noItems =>
      cases e with
      | noItems => exact ⟨rfl, hsame⟩
      | someItems first others => exact (someItems_absurd hsame hd).elim
  | someItems first others ihfirst ihothers =>
      cases e with
      | noItems => exact (someItems_absurd hsame.symm he).elim
      | someItems first' others' =>
          simp only [tokens, Cursor.before_append] at hsame
          obtain ⟨rfl, hrest⟩ := ihfirst first' hsame (endsAt_moreItems others hd)
            (endsAt_moreItems others' he)
          obtain ⟨rfl, hafter⟩ := ihothers others' hrest hd he
          exact ⟨rfl, hafter⟩
  | lastItem =>
      cases e with
      | lastItem => exact ⟨rfl, hsame⟩
      | nextItem comma first others => exact (nextItem_absurd hsame hd).elim
  | nextItem comma first others ihfirst ihothers =>
      cases e with
      | lastItem => exact (nextItem_absurd hsame.symm he).elim
      | nextItem comma' first' others' =>
          obtain ⟨rfl, hrest⟩ := terminal_inj hsame
          simp only [Cursor.before_append] at hrest
          obtain ⟨rfl, hothers⟩ := ihfirst first' hrest (endsAt_moreItems others hd)
            (endsAt_moreItems others' he)
          obtain ⟨rfl, hafter⟩ := ihothers others' hothers hd he
          exact ⟨rfl, hafter⟩

/-! ### Statements and programs -/

open Clause.Derivation

/-- The kind of token that the production at the root of a statement starts with. -/
def Clause.Derivation.leading {mode : Bool} : (Clause.statement mode).Derivation → Token.Kind
  | .assign .. => .varWord
  | .choice .. => .ifWord
  | .declare .. => .funcWord
  | .call .. => .word
  | .loop .. => .whileWord
  | .ret .. => .returnWord

/-- A statement starts with the token of its production. -/
theorem kind_eq_leading {mode : Bool} (d : (Clause.statement mode).Derivation) (after : Cursor) :
    (after.before d.tokens).kind = d.leading := by
  cases d with
  | assign word | choice word | declare word | loop word | ret word => exact word.2
  | call inner =>
      cases inner with
      | call name => exact name.2

/-- Two statements from one place start with the same kind of token. -/
theorem leading_eq_of_same {mode : Bool} {d e : (Clause.statement mode).Derivation}
    {after after' : Cursor} (hsame : after.before d.tokens = after'.before e.tokens) :
    d.leading = e.leading := by
  rw [← kind_eq_leading d after, hsame, kind_eq_leading e after']

/-- A list of statements that is over has no next statement. -/
theorem nextStatement_absurd {mode : Bool} {first : (Clause.statement mode).Derivation}
    {others : (Clause.statements mode).Derivation} {after after' : Cursor}
    (hsame : after = after'.before (nextStatement first others).tokens)
    (hends : (Clause.statements mode).EndsAt after.kind) : False := by
  have hstarts := first.startsStatement_kind (after'.before others.tokens)
  rw [← Cursor.before_append] at hstarts
  rw [hsame, Clause.Derivation.tokens] at hends
  rcases hends with hends | hends <;> rw [hends] at hstarts <;> cases hstarts

/-- **The grammar is unambiguous.**  Two derivations of a clause from one place, each of them over
where it ends, are equal and end at the same place. -/
theorem Clause.Derivation.unambiguous {clause : Clause} (d e : clause.Derivation)
    {after after' : Cursor} (hsame : after.before d.tokens = after'.before e.tokens)
    (hd : clause.EndsAt after.kind) (he : clause.EndsAt after'.kind) : d = e ∧ after = after' := by
  induction d generalizing after after' with
  | assign varWord name sign value =>
      cases e with
      | assign varWord' name' sign' value' =>
          obtain ⟨rfl, hname⟩ := terminal_inj hsame
          obtain ⟨rfl, hsign⟩ := terminal_inj hname
          obtain ⟨rfl, hvalue⟩ := terminal_inj hsign
          obtain ⟨rfl, hafter⟩ := value.unambiguous value' hvalue (Level.endsAt_statement _ _ hd)
            (Level.endsAt_statement _ _ he)
          exact ⟨rfl, hafter⟩
      | _ => cases leading_eq_of_same hsame
  | choice ifWord predicate body others last ihbody ihothers ihlast =>
      cases e with
      | choice ifWord' predicate' body' others' last' =>
          obtain ⟨rfl, hpredicate⟩ := terminal_inj hsame
          simp only [Cursor.before_append] at hpredicate
          obtain ⟨rfl, hbody⟩ := predicate.unambiguous predicate' hpredicate
            (Level.endsAt_block _ _ body _) (Level.endsAt_block _ _ body' _)
          obtain ⟨rfl, hothers⟩ := ihbody body' hbody trivial trivial
          obtain ⟨rfl, hlast⟩ := ihothers others' hothers (Clause.endsAt_otherBranches last hd)
            (Clause.endsAt_otherBranches last' he)
          obtain ⟨rfl, hafter⟩ := ihlast last' hlast (Clause.endsAt_lastBranch hd)
            (Clause.endsAt_lastBranch he)
          exact ⟨rfl, hafter⟩
      | _ => cases leading_eq_of_same hsame
  | declare funcWord name left params right body ihbody =>
      cases e with
      | declare funcWord' name' left' params' right' body' =>
          obtain ⟨rfl, hname⟩ := terminal_inj hsame
          obtain ⟨rfl, hleft⟩ := terminal_inj hname
          rw [List.cons_append, List.cons_append] at hleft
          obtain ⟨rfl, hparams⟩ := terminal_inj hleft
          simp only [Cursor.before_append] at hparams
          obtain ⟨rfl, hright⟩ := params.unambiguous params' hparams right.2 right'.2
          obtain ⟨rfl, hbody⟩ := terminal_inj hright
          obtain ⟨rfl, hafter⟩ := ihbody body' hbody trivial trivial
          exact ⟨rfl, hafter⟩
      | _ => cases leading_eq_of_same hsame
  | call inner =>
      cases e with
      | call inner' =>
          obtain ⟨rfl, hafter⟩ := inner.unambiguous inner' hsame trivial trivial
          exact ⟨rfl, hafter⟩
      | _ => cases leading_eq_of_same hsame
  | loop whileWord condition body ihbody =>
      cases e with
      | loop whileWord' condition' body' =>
          obtain ⟨rfl, hcondition⟩ := terminal_inj hsame
          simp only [Cursor.before_append] at hcondition
          obtain ⟨rfl, hbody⟩ := condition.unambiguous condition' hcondition
            (Level.endsAt_block _ _ body _) (Level.endsAt_block _ _ body' _)
          obtain ⟨rfl, hafter⟩ := ihbody body' hbody trivial trivial
          exact ⟨rfl, hafter⟩
      | _ => cases leading_eq_of_same hsame
  | ret returnWord value =>
      cases e with
      | ret returnWord' value' =>
          obtain ⟨rfl, hvalue⟩ := terminal_inj hsame
          obtain ⟨rfl, hafter⟩ := value.unambiguous value' hvalue (Level.endsAt_statement _ _ hd)
            (Level.endsAt_statement _ _ he)
          exact ⟨rfl, hafter⟩
      | _ => cases leading_eq_of_same hsame
  | noStatement =>
      cases e with
      | noStatement => exact ⟨rfl, hsame⟩
      | nextStatement first others => exact (nextStatement_absurd hsame hd).elim
  | nextStatement first others ihfirst ihothers =>
      cases e with
      | noStatement => exact (nextStatement_absurd hsame.symm he).elim
      | nextStatement first' others' =>
          simp only [Clause.Derivation.tokens, Cursor.before_append] at hsame
          obtain ⟨rfl, hothers⟩ := ihfirst first' hsame (Clause.endsAt_statements others hd)
            (Clause.endsAt_statements others' he)
          obtain ⟨rfl, hafter⟩ := ihothers others' hothers hd he
          exact ⟨rfl, hafter⟩
  | block left body right ihbody =>
      cases e with
      | block left' body' right' =>
          obtain ⟨rfl, hbody⟩ := terminal_inj hsame
          simp only [Cursor.before_append] at hbody
          obtain ⟨rfl, hright⟩ := ihbody body' hbody (Or.inl right.2) (Or.inl right'.2)
          obtain ⟨rfl, hafter⟩ := terminal_inj hright
          exact ⟨rfl, hafter⟩
  | noBranch =>
      cases e with
      | noBranch => exact ⟨rfl, hsame⟩
      | nextBranch elseifWord => exact absurd (congrArg Cursor.kind hsame ▸ elseifWord.2) hd
  | nextBranch elseifWord predicate body others ihbody ihothers =>
      cases e with
      | noBranch => exact absurd (congrArg Cursor.kind hsame ▸ elseifWord.2) he
      | nextBranch elseifWord' predicate' body' others' =>
          obtain ⟨rfl, hpredicate⟩ := terminal_inj hsame
          simp only [Cursor.before_append] at hpredicate
          obtain ⟨rfl, hbody⟩ := predicate.unambiguous predicate' hpredicate
            (Level.endsAt_block _ _ body _) (Level.endsAt_block _ _ body' _)
          obtain ⟨rfl, hothers⟩ := ihbody body' hbody trivial trivial
          obtain ⟨rfl, hafter⟩ := ihothers others' hothers hd he
          exact ⟨rfl, hafter⟩
  | noElse =>
      cases e with
      | noElse => exact ⟨rfl, hsame⟩
      | elseBranch elseWord => exact absurd (congrArg Cursor.kind hsame ▸ elseWord.2) hd
  | elseBranch elseWord body ihbody =>
      cases e with
      | noElse => exact absurd (congrArg Cursor.kind hsame ▸ elseWord.2) he
      | elseBranch elseWord' body' =>
          obtain ⟨rfl, hbody⟩ := terminal_inj hsame
          obtain ⟨rfl, hafter⟩ := ihbody body' hbody trivial trivial
          exact ⟨rfl, hafter⟩
  | program body finish ihbody =>
      cases e with
      | program body' finish' =>
          simp only [Clause.Derivation.tokens, Cursor.before_append] at hsame
          obtain ⟨rfl, hfinish⟩ := ihbody body' hsame (Or.inr finish.2) (Or.inr finish'.2)
          obtain ⟨rfl, hafter⟩ := terminal_inj hfinish
          exact ⟨rfl, hafter⟩

end FlatScript.Grammar
