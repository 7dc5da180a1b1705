import FlatScript.Proofs.Grammar.Statement
import FlatScript.Proofs.Parsing.Expression

/-!
# What the statement parsers read

The counterpart of the expression parsers one storey up: within a bound that is not smaller than the
number of tokens ahead, whatever a statement parser reads is derived by the grammar, and it reads
every derivation that is followed by a token that may follow.

The parsers of single statements take the parser of the blocks inside them as an argument, so what
they do is stated for any parser of blocks that is sound or complete.  The list of statements ties
the knot by induction on the bound.
-/

namespace FlatScript.Grammar

open Clause.Derivation

/-! ### Soundness -/

/-- Within the bound, whatever the parser reads is derived by the clause. -/
def Clause.Sound (clause : Clause) (parser : Parser clause.Meaning) (bound : Nat) : Prop :=
  ∀ ⦃start : Cursor⦄ ⦃value : clause.Meaning⦄ ⦃after : Cursor⦄, start.ahead.length ≤ bound →
    parser start = .ok value after →
    ∃ d : clause.Derivation, d.meaning = value ∧ start = after.before d.tokens

theorem parameter_sound (bound : Nat) : Item.parameter.Sound Parser.word bound := by
  intro start name after _ hrun
  obtain ⟨token, hkind, rfl, rfl⟩ := Parser.word_eq_ok.mp hrun
  exact ⟨.parameter ⟨token, hkind⟩, rfl, rfl⟩

theorem assignment_sound (mode : Bool) (bound : Nat) :
    (Clause.statement mode).Sound (Parser.assignment bound) (bound + 1) := by
  intro start node after hbound hrun
  obtain ⟨varWord, _, hvar, rfl, hname⟩ := (Parser.expect_bind_eq_ok (by decide)).mp hrun
  obtain ⟨name, _, hword, rfl, hassign⟩ := Parser.word_bind_eq_ok.mp hname
  obtain ⟨sign, _, hsign, rfl, hrest⟩ := (Parser.expect_bind_eq_ok (by decide)).mp hassign
  obtain ⟨_, _, hvalue, hpure⟩ := Parser.bind_eq_ok.mp hrest
  obtain ⟨rfl, rfl⟩ := Parser.pure_eq_ok.mp hpure
  simp only [Cursor.before_length, List.length_singleton] at hbound
  obtain ⟨value, rfl, rfl, -⟩ := (Level.chain .comparison).parser_sound bound (by omega) hvalue
  exact ⟨.assign ⟨varWord, hvar⟩ ⟨name, hword⟩ ⟨sign, hsign⟩ value, rfl, rfl⟩

theorem returnStatement_sound (bound : Nat) :
    (Clause.statement true).Sound (Parser.returnStatement bound) (bound + 1) := by
  intro start node after hbound hrun
  obtain ⟨returnWord, _, hreturn, rfl, hrest⟩ := (Parser.expect_bind_eq_ok (by decide)).mp hrun
  obtain ⟨_, _, hvalue, hpure⟩ := Parser.bind_eq_ok.mp hrest
  obtain ⟨rfl, rfl⟩ := Parser.pure_eq_ok.mp hpure
  simp only [Cursor.before_length, List.length_singleton] at hbound
  obtain ⟨value, rfl, rfl, -⟩ := (Level.chain .comparison).parser_sound bound (by omega) hvalue
  exact ⟨.ret ⟨returnWord, hreturn⟩ value, rfl, rfl⟩

/-- A block that is read is one of the grammar, if its statements are. -/
theorem blockOf_sound {mode : Bool} {inner : Parser (List Node)} {bound : Nat}
    (hinner : (Clause.statements mode).Sound inner bound) :
    (Clause.block mode).Sound (Parser.blockOf inner) bound := by
  intro start node after hbound hrun
  obtain ⟨left, _, hleft, rfl, hrest⟩ := (Parser.expect_bind_eq_ok (by decide)).mp hrun
  obtain ⟨_, _, hbody, hclose⟩ := Parser.bind_eq_ok.mp hrest
  obtain ⟨right, _, hright, rfl, hpure⟩ := (Parser.expect_bind_eq_ok (by decide)).mp hclose
  obtain ⟨rfl, rfl⟩ := Parser.pure_eq_ok.mp hpure
  rw [Cursor.before_length] at hbound
  obtain ⟨body, rfl, rfl⟩ := hinner (by omega) hbody
  exact ⟨.block ⟨left, hleft⟩ body ⟨right, hright⟩, rfl, by simp [tokens, Cursor.before]⟩

/-- The loop over the branches behind the first. -/
theorem otherBranches_sound {block : Parser Node} {bound : Nat}
    (hblock : (Clause.block false).Sound block bound) {count : Nat} (hcount : count ≤ bound) :
    Clause.otherBranches.Sound (Parser.otherBranches block count) count := by
  induction count with
  | zero =>
      intro start branches after _ hrun
      obtain ⟨rfl, rfl⟩ := Parser.pure_eq_ok.mp hrun
      exact ⟨.noBranch, rfl, rfl⟩
  | succ count ih =>
      intro start branches after hlength hrun
      rw [Parser.otherBranches, Parser.kind_bind] at hrun
      split at hrun
      · next hkind =>
          obtain ⟨elseifWord, helseif, hstart⟩ := Cursor.eq_before_of_kind hkind (by decide)
          rw [hstart, Parser.take_before_bind] at hrun
          obtain ⟨_, _, hpredicate, hrun⟩ := Parser.bind_eq_ok.mp hrun
          obtain ⟨_, _, hbody, hrun⟩ := Parser.bind_eq_ok.mp hrun
          obtain ⟨_, _, hothers, hpure⟩ := Parser.bind_eq_ok.mp hrun
          obtain ⟨rfl, rfl⟩ := Parser.pure_eq_ok.mp hpure
          rw [hstart, Cursor.before_length, List.length_singleton] at hlength
          obtain ⟨predicate, rfl, hadvance, -⟩ :=
            (Level.chain .sum).parser_sound count (by simp; omega) hpredicate
          rw [Cursor.before_nil] at hadvance
          rw [hadvance, Cursor.before_length] at hlength
          obtain ⟨body, rfl, rfl⟩ := hblock (by omega) hbody
          rw [Cursor.before_length] at hlength
          obtain ⟨others, rfl, rfl⟩ := ih (by omega) (by omega) hothers
          refine ⟨.nextBranch ⟨elseifWord, helseif⟩ predicate body others, rfl, ?_⟩
          rw [hstart, hadvance]
          simp [tokens, Cursor.before]
      · obtain ⟨rfl, rfl⟩ := Parser.pure_eq_ok.mp hrun
        exact ⟨.noBranch, rfl, rfl⟩

theorem lastBranch_sound {block : Parser Node} {bound : Nat}
    (hblock : (Clause.block false).Sound block bound) :
    Clause.lastBranch.Sound (Parser.lastBranch block) bound := by
  intro start branch after hbound hrun
  rw [Parser.lastBranch, Parser.kind_bind] at hrun
  split at hrun
  · next hkind =>
      obtain ⟨elseWord, helse, hstart⟩ := Cursor.eq_before_of_kind hkind (by decide)
      rw [hstart, Parser.take_before_bind] at hrun
      obtain ⟨_, _, hbody, hpure⟩ := Parser.bind_eq_ok.mp hrun
      obtain ⟨rfl, rfl⟩ := Parser.pure_eq_ok.mp hpure
      rw [hstart, Cursor.before_length] at hbound
      obtain ⟨body, rfl, hadvance⟩ := hblock (by simp; omega) hbody
      rw [Cursor.before_nil] at hadvance
      exact ⟨.elseBranch ⟨elseWord, helse⟩ body, rfl, by rw [hstart, hadvance]; rfl⟩
  · obtain ⟨rfl, rfl⟩ := Parser.pure_eq_ok.mp hrun
    exact ⟨.noElse, rfl, rfl⟩

theorem choice_sound (mode : Bool) {block : Parser Node} {bound : Nat}
    (hblock : (Clause.block false).Sound block bound) :
    (Clause.statement mode).Sound (Parser.choice bound block) (bound + 1) := by
  intro start node after hbound hrun
  obtain ⟨ifWord, _, hif, rfl, hrest⟩ := (Parser.expect_bind_eq_ok (by decide)).mp hrun
  obtain ⟨_, _, hpredicate, hrest⟩ := Parser.bind_eq_ok.mp hrest
  obtain ⟨_, _, hbody, hrest⟩ := Parser.bind_eq_ok.mp hrest
  obtain ⟨_, _, hothers, hrest⟩ := Parser.bind_eq_ok.mp hrest
  obtain ⟨_, _, hlast, hpure⟩ := Parser.bind_eq_ok.mp hrest
  obtain ⟨rfl, rfl⟩ := Parser.pure_eq_ok.mp hpure
  rw [Cursor.before_length, List.length_singleton] at hbound
  obtain ⟨predicate, rfl, rfl, -⟩ :=
    (Level.chain .comparison).parser_sound bound (by omega) hpredicate
  rw [Cursor.before_length] at hbound
  obtain ⟨body, rfl, rfl⟩ := hblock (by omega) hbody
  rw [Cursor.before_length] at hbound
  obtain ⟨others, rfl, rfl⟩ := otherBranches_sound hblock (Nat.le_refl bound) (by omega) hothers
  rw [Cursor.before_length] at hbound
  obtain ⟨last, rfl, rfl⟩ := lastBranch_sound hblock (by omega) hlast
  exact ⟨.choice ⟨ifWord, hif⟩ predicate body others last, rfl, by simp [tokens, Cursor.before]⟩

theorem declaration_sound (mode : Bool) {block : Parser Node} {bound : Nat}
    (hblock : (Clause.block true).Sound block bound) :
    (Clause.statement mode).Sound (Parser.declaration bound block) (bound + 1) := by
  intro start node after hbound hrun
  obtain ⟨funcWord, _, hfunc, rfl, hname⟩ := (Parser.expect_bind_eq_ok (by decide)).mp hrun
  obtain ⟨name, _, hword, rfl, hrest⟩ := Parser.word_bind_eq_ok.mp hname
  obtain ⟨_, _, hparams, hrest⟩ := Parser.bind_eq_ok.mp hrest
  obtain ⟨_, _, hbody, hpure⟩ := Parser.bind_eq_ok.mp hrest
  obtain ⟨rfl, rfl⟩ := Parser.pure_eq_ok.mp hpure
  simp only [Cursor.before_length, List.length_singleton] at hbound
  obtain ⟨left, params, right, rfl, rfl⟩ :=
    inParens_sound (parameter_sound bound) (by omega) hparams
  rw [Cursor.before_length] at hbound
  obtain ⟨body, rfl, rfl⟩ := hblock (by omega) hbody
  refine ⟨.declare ⟨funcWord, hfunc⟩ ⟨name, hword⟩ left params right body, rfl, ?_⟩
  simp [tokens, Cursor.before]

theorem loop_sound (mode : Bool) {block : Parser Node} {bound : Nat}
    (hblock : (Clause.block false).Sound block bound) :
    (Clause.statement mode).Sound (Parser.loop bound block) (bound + 1) := by
  intro start node after hbound hrun
  obtain ⟨whileWord, _, hwhile, rfl, hrest⟩ := (Parser.expect_bind_eq_ok (by decide)).mp hrun
  obtain ⟨_, _, hcondition, hrest⟩ := Parser.bind_eq_ok.mp hrest
  obtain ⟨_, _, hbody, hpure⟩ := Parser.bind_eq_ok.mp hrest
  obtain ⟨rfl, rfl⟩ := Parser.pure_eq_ok.mp hpure
  rw [Cursor.before_length, List.length_singleton] at hbound
  obtain ⟨condition, rfl, rfl, -⟩ :=
    (Level.chain .comparison).parser_sound bound (by omega) hcondition
  rw [Cursor.before_length] at hbound
  obtain ⟨body, rfl, rfl⟩ := hblock (by omega) hbody
  exact ⟨.loop ⟨whileWord, hwhile⟩ condition body, rfl, by simp [tokens, Cursor.before]⟩

/-- A statement that is found is read as a derivation, given that the blocks inside it are. -/
theorem statementOf?_sound {inner : Bool → Parser (List Node)} {bound : Nat}
    (hinner : ∀ mode, (Clause.statements mode).Sound (inner mode) bound) {mode : Bool} {node : Node}
    {start after : Cursor} (hbound : start.ahead.length ≤ bound + 1)
    (hrun : Parser.statementOf? bound inner mode start = .ok (some node) after) :
    ∃ d : (Clause.statement mode).Derivation, d.meaning = node ∧ start = after.before d.tokens := by
  rw [Parser.statementOf?, Parser.kind_bind] at hrun
  cases hkind : start.kind with
  | varWord =>
      simp only [hkind, Parser.map_eq_ok, Option.some.injEq] at hrun
      obtain ⟨_, hrun, rfl⟩ := hrun
      exact assignment_sound mode bound hbound hrun
  | ifWord =>
      simp only [hkind, Parser.map_eq_ok, Option.some.injEq] at hrun
      obtain ⟨_, hrun, rfl⟩ := hrun
      exact choice_sound mode (blockOf_sound (hinner false)) hbound hrun
  | funcWord =>
      simp only [hkind, Parser.map_eq_ok, Option.some.injEq] at hrun
      obtain ⟨_, hrun, rfl⟩ := hrun
      exact declaration_sound mode (blockOf_sound (hinner true)) hbound hrun
  | word =>
      simp only [hkind, Parser.map_eq_ok, Option.some.injEq] at hrun
      obtain ⟨_, hrun, rfl⟩ := hrun
      obtain ⟨d, rfl, rfl⟩ := callOf_sound ((Level.chain .sum).parser_sound bound) hbound hrun
      exact ⟨.call d, rfl, rfl⟩
  | whileWord =>
      simp only [hkind, Parser.map_eq_ok, Option.some.injEq] at hrun
      obtain ⟨_, hrun, rfl⟩ := hrun
      exact loop_sound mode (blockOf_sound (hinner false)) hbound hrun
  | returnWord =>
      cases mode with
      | false => simp [hkind] at hrun
      | true =>
          simp only [hkind, ↓reduceIte, Parser.map_eq_ok, Option.some.injEq] at hrun
          obtain ⟨_, hrun, rfl⟩ := hrun
          exact returnStatement_sound bound hbound hrun
  | _ => simp [hkind] at hrun

/-- Where no statement is found, nothing is read. -/
theorem statementOf?_eq_none {inner : Bool → Parser (List Node)} {bound : Nat} {mode : Bool}
    {start after : Cursor} (hrun : Parser.statementOf? bound inner mode start = .ok none after) :
    start = after := by
  rw [Parser.statementOf?, Parser.kind_bind] at hrun
  cases hkind : start.kind with
  | varWord | ifWord | funcWord | word | whileWord => simp [hkind, Parser.map_eq_ok] at hrun
  | returnWord => cases mode <;> simp_all [Parser.map_eq_ok]
  | _ => simpa [hkind] using hrun

/-- A list of statements is read as a derivation. -/
theorem statements_sound (bound : Nat) (mode : Bool) :
    (Clause.statements mode).Sound (Parser.statements bound mode) bound := by
  induction bound generalizing mode with
  | zero =>
      intro start body after _ hrun
      obtain ⟨rfl, rfl⟩ := Parser.pure_eq_ok.mp hrun
      exact ⟨.noStatement, rfl, rfl⟩
  | succ bound ih =>
      intro start body after hbound hrun
      obtain ⟨found, middle, hfound, hrest⟩ := Parser.bind_eq_ok.mp hrun
      cases found with
      | none =>
          obtain ⟨rfl, rfl⟩ := Parser.pure_eq_ok.mp hrest
          obtain rfl := statementOf?_eq_none hfound
          exact ⟨.noStatement, rfl, rfl⟩
      | some node =>
          obtain ⟨others, _, hothers, hpure⟩ := Parser.bind_eq_ok.mp hrest
          obtain ⟨rfl, rfl⟩ := Parser.pure_eq_ok.mp hpure
          obtain ⟨first, rfl, rfl⟩ := statementOf?_sound ih hbound hfound
          have hpos := List.length_pos_iff.mpr first.statement_tokens_ne_nil
          rw [Cursor.before_length] at hbound
          obtain ⟨tail, rfl, rfl⟩ := ih mode (by omega) hothers
          exact ⟨.nextStatement first tail, rfl, by simp [tokens]⟩

/-! ### Completeness -/

/-- Within the bound, the parser reads every derivation of the clause that is followed by a token
that may follow. -/
def Clause.Complete (clause : Clause) (parser : Parser clause.Meaning) (bound : Nat) : Prop :=
  ∀ (d : clause.Derivation) (after : Cursor), (after.before d.tokens).ahead.length ≤ bound →
    clause.EndsAt after.kind → parser (after.before d.tokens) = .ok d.meaning after

theorem parameter_complete (bound : Nat) : Item.parameter.Complete Parser.word bound := by
  intro d after _ _
  cases d with
  | parameter name => exact Parser.word_run name.1 name.2 []

/-- Each block of the grammar is read, if its statements are. -/
theorem blockOf_complete {mode : Bool} {inner : Parser (List Node)} {bound : Nat}
    (hinner : (Clause.statements mode).Complete inner bound) :
    (Clause.block mode).Complete (Parser.blockOf inner) bound := by
  intro d after hbound _
  cases d with
  | block left body right =>
      have hbody := hinner body (after.before [right.1])
        (by simp [tokens] at hbound ⊢; omega) (Or.inl right.2)
      rw [Parser.blockOf, tokens, Parser.bind_of_ok (Parser.expect_run left.1 left.2 _),
        Cursor.before_append, Parser.bind_of_ok hbody]
      exact Parser.bind_of_ok (Parser.expect_run right.1 right.2 [])

/-- The loop over the branches behind the first reads all of them. -/
theorem otherBranches_complete {block : Parser Node} {bound : Nat}
    (hblock : (Clause.block false).Complete block bound) {count : Nat} (hcount : count ≤ bound) :
    Clause.otherBranches.Complete (Parser.otherBranches block count) count := by
  induction count with
  | zero =>
      intro d after hlength _
      cases d with
      | noBranch => rfl
      | nextBranch => cases hlength
  | succ count ih =>
      intro d after hlength hafter
      rw [Parser.otherBranches, Parser.kind_bind]
      cases d with
      | noBranch => exact if_neg hafter ▸ rfl
      | nextBranch elseifWord predicate body others =>
          simp only [tokens, Cursor.before_length, List.length_cons, List.length_append] at hlength
          have hpredicate := sum_complete count predicate
            ((after.before others.tokens).before body.tokens) (by simp; omega)
            (Level.endsAt_block _ _ body _)
          have hbody := hblock body (after.before others.tokens) (by simp; omega) trivial
          have hothers := ih (by omega) others after (by simp; omega) hafter
          simp only [tokens, Cursor.before_kind, elseifWord.2, ↓reduceIte, Parser.take_before_bind,
            Cursor.before_append]
          rw [Parser.bind_of_ok hpredicate, Parser.bind_of_ok hbody, Parser.bind_of_ok hothers]
          rfl

theorem lastBranch_complete {block : Parser Node} {bound : Nat}
    (hblock : (Clause.block false).Complete block bound) :
    Clause.lastBranch.Complete (Parser.lastBranch block) bound := by
  intro d after hbound hafter
  rw [Parser.lastBranch, Parser.kind_bind]
  cases d with
  | noElse => exact if_neg hafter ▸ rfl
  | elseBranch elseWord body =>
      simp only [tokens, Cursor.before_length, List.length_cons] at hbound
      have hbody := hblock body after (by simp; omega) trivial
      simp only [tokens, Cursor.before_kind, elseWord.2, ↓reduceIte, Parser.take_before_bind]
      exact Parser.bind_of_ok hbody

section Statement

variable {mode : Bool} {block : Parser Node} {bound : Nat} {after : Cursor}

theorem assignment_complete (varWord : Terminal .varWord) (name : Terminal .word)
    (sign : Terminal .assign) (value : (Phrase.expression (.chain .comparison)).Derivation)
    (hbound : (after.before value.tokens).ahead.length ≤ bound)
    (hafter : (Clause.statement mode).EndsAt after.kind) :
    Parser.assignment bound (after.before (varWord.1 :: name.1 :: sign.1 :: value.tokens)) =
      .ok (.assign name.name value.meaning) after := by
  have hvalue := comparison_complete bound value after hbound (Level.endsAt_statement _ _ hafter)
  rw [Parser.assignment, Parser.bind_of_ok (Parser.expect_run varWord.1 varWord.2 _),
    Parser.bind_of_ok (Parser.word_run name.1 name.2 _),
    Parser.bind_of_ok (Parser.expect_run sign.1 sign.2 _), Parser.bind_of_ok hvalue]
  rfl

theorem returnStatement_complete (returnWord : Terminal .returnWord)
    (value : (Phrase.expression (.chain .comparison)).Derivation)
    (hbound : (after.before value.tokens).ahead.length ≤ bound)
    (hafter : (Clause.statement mode).EndsAt after.kind) :
    Parser.returnStatement bound (after.before (returnWord.1 :: value.tokens)) =
      .ok (.ret value.meaning) after := by
  have hvalue := comparison_complete bound value after hbound (Level.endsAt_statement _ _ hafter)
  rw [Parser.returnStatement, Parser.bind_of_ok (Parser.expect_run returnWord.1 returnWord.2 _),
    Parser.bind_of_ok hvalue]
  rfl

theorem choice_complete (hblock : (Clause.block false).Complete block bound)
    (ifWord : Terminal .ifWord) (predicate : (Phrase.expression (.chain .comparison)).Derivation)
    (body : (Clause.block false).Derivation) (others : Clause.otherBranches.Derivation)
    (last : Clause.lastBranch.Derivation)
    (hbound : ((((after.before last.tokens).before others.tokens).before body.tokens).before
      predicate.tokens).ahead.length ≤ bound)
    (hafter : (Clause.statement mode).EndsAt after.kind) :
    Parser.choice bound block (after.before (ifWord.1 ::
        (predicate.tokens ++ (body.tokens ++ (others.tokens ++ last.tokens))))) =
      .ok (.choice ⟨predicate.meaning, body.meaning⟩ others.meaning last.meaning) after := by
  have hpredicate := comparison_complete bound predicate _ hbound (Level.endsAt_block _ _ body _)
  simp only [Cursor.before_length] at hbound
  have hbody := hblock body ((after.before last.tokens).before others.tokens) (by simp; omega)
    trivial
  have hothers := otherBranches_complete hblock (Nat.le_refl bound) others
    (after.before last.tokens) (by simp; omega) (Clause.endsAt_otherBranches last hafter)
  have hlast := lastBranch_complete hblock last after (by simp; omega)
    (Clause.endsAt_lastBranch hafter)
  rw [Parser.choice, Parser.bind_of_ok (Parser.expect_run ifWord.1 ifWord.2 _)]
  simp only [Cursor.before_append]
  rw [Parser.bind_of_ok hpredicate, Parser.bind_of_ok hbody, Parser.bind_of_ok hothers,
    Parser.bind_of_ok hlast]
  rfl

theorem declaration_complete (hblock : (Clause.block true).Complete block bound)
    (funcWord : Terminal .funcWord) (name : Terminal .word) (left : Terminal .leftParen)
    (params : (Phrase.items .parameter).Derivation) (right : Terminal .rightParen)
    (body : (Clause.block true).Derivation)
    (hbound : ((after.before body.tokens).before (params.tokens ++ [right.1])).ahead.length ≤
      bound) :
    Parser.declaration bound block (after.before
        (funcWord.1 :: name.1 :: (left.1 :: (params.tokens ++ [right.1]) ++ body.tokens))) =
      .ok (.declare ⟨name.name, params.meaning, body.meaning⟩) after := by
  have hparams := inParens_complete (parameter_complete bound) left params right hbound
  rw [Cursor.before_length] at hbound
  have hbody := hblock body after (by omega) trivial
  rw [Parser.declaration, Parser.bind_of_ok (Parser.expect_run funcWord.1 funcWord.2 _),
    Parser.bind_of_ok (Parser.word_run name.1 name.2 _), Cursor.before_append,
    Parser.bind_of_ok hparams, Parser.bind_of_ok hbody]
  rfl

theorem loop_complete (hblock : (Clause.block false).Complete block bound)
    (whileWord : Terminal .whileWord)
    (condition : (Phrase.expression (.chain .comparison)).Derivation)
    (body : (Clause.block false).Derivation)
    (hbound : ((after.before body.tokens).before condition.tokens).ahead.length ≤ bound) :
    Parser.loop bound block (after.before (whileWord.1 :: (condition.tokens ++ body.tokens))) =
      .ok (.loop condition.meaning body.meaning) after := by
  have hcondition := comparison_complete bound condition _ hbound (Level.endsAt_block _ _ body _)
  rw [Cursor.before_length] at hbound
  have hbody := hblock body after (by omega) trivial
  rw [Parser.loop, Parser.bind_of_ok (Parser.expect_run whileWord.1 whileWord.2 _),
    Cursor.before_append, Parser.bind_of_ok hcondition, Parser.bind_of_ok hbody]
  rfl

/-- Every statement is found and read, given that the blocks inside it are. -/
theorem statementOf?_complete {inner : Bool → Parser (List Node)}
    (hinner : ∀ mode, (Clause.statements mode).Complete (inner mode) bound)
    (d : (Clause.statement mode).Derivation)
    (hbound : (after.before d.tokens).ahead.length ≤ bound + 1)
    (hafter : (Clause.statement mode).EndsAt after.kind) :
    Parser.statementOf? bound inner mode (after.before d.tokens) = .ok (some d.meaning) after := by
  rw [Parser.statementOf?, Parser.kind_bind]
  cases d with
  | assign varWord name sign value =>
      simp only [tokens, Cursor.before_length, List.length_cons] at hbound
      simp only [tokens, Cursor.before_kind, varWord.2]
      exact Parser.map_of_ok
        (assignment_complete varWord name sign value (by simp; omega) hafter)
  | choice ifWord predicate body others last =>
      simp only [tokens, Cursor.before_length, List.length_cons, List.length_append] at hbound
      simp only [tokens, Cursor.before_kind, ifWord.2]
      exact Parser.map_of_ok (choice_complete (blockOf_complete (hinner false)) ifWord predicate
        body others last (by simp; omega) hafter)
  | declare funcWord name left params right body =>
      simp only [tokens, Cursor.before_length, List.length_cons, List.length_append] at hbound
      simp only [tokens, Cursor.before_kind, funcWord.2]
      exact Parser.map_of_ok (declaration_complete (blockOf_complete (hinner true)) funcWord name
        left params right body (by simp at hbound ⊢; omega))
  | call inner =>
      have hcall := callOf_complete (sum_complete bound) inner hbound
      cases inner with
      | call name left args right =>
          simp only [tokens, Phrase.Derivation.tokens, Cursor.before_kind, name.2]
          exact Parser.map_of_ok hcall
  | loop whileWord condition body =>
      simp only [tokens, Cursor.before_length, List.length_cons, List.length_append] at hbound
      simp only [tokens, Cursor.before_kind, whileWord.2]
      exact Parser.map_of_ok (loop_complete (blockOf_complete (hinner false)) whileWord condition
        body (by simp; omega))
  | ret returnWord value =>
      simp only [tokens, Cursor.before_length, List.length_cons] at hbound
      simp only [tokens, Cursor.before_kind, returnWord.2, ↓reduceIte]
      exact Parser.map_of_ok (returnStatement_complete returnWord value (by simp; omega) hafter)

end Statement

/-- No statement is found where none starts. -/
theorem statementOf?_none {inner : Bool → Parser (List Node)} {bound : Nat} {mode : Bool}
    {start : Cursor} (hkind : startsStatement mode start.kind = false) :
    Parser.statementOf? bound inner mode start = .ok none start := by
  rw [Parser.statementOf?, Parser.kind_bind]
  revert hkind
  cases start.kind <;> cases mode <;> simp [startsStatement]

/-- Statements end in front of a token that starts none. -/
theorem statements_stop {mode : Bool} {start : Cursor}
    (hstarts : ¬startsStatement mode start.kind = true) (bound : Nat) :
    Parser.statements bound mode start = .ok [] start := by
  cases bound with
  | zero => rfl
  | succ bound =>
      rw [Parser.statements, Parser.bind_of_ok (statementOf?_none (Bool.not_eq_true _ ▸ hstarts))]
      rfl

/-- The further branches end in front of a token that is no `elseif`. -/
theorem otherBranches_stop {block : Parser Node} {start : Cursor}
    (hkind : start.kind ≠ .elseifWord) (count : Nat) :
    Parser.otherBranches block count start = .ok [] start := by
  cases count with
  | zero => rfl
  | succ count => rw [Parser.otherBranches, Parser.kind_bind, if_neg hkind, Parser.pure_run]

/-- A list of statements is read up to what closes it. -/
theorem statements_complete (bound : Nat) (mode : Bool) :
    (Clause.statements mode).Complete (Parser.statements bound mode) bound := by
  induction bound generalizing mode with
  | zero =>
      intro d after hbound _
      cases d with
      | noStatement => rfl
      | nextStatement first others =>
          have hpos := List.length_pos_iff.mpr first.statement_tokens_ne_nil
          simp only [tokens, Cursor.before_length, List.length_append] at hbound
          omega
  | succ bound ih =>
      intro d after hbound hafter
      cases d with
      | noStatement =>
          have hnone : startsStatement mode after.kind = false := by
            rcases hafter with hkind | hkind <;> rw [hkind] <;> rfl
          exact Parser.bind_of_ok (statementOf?_none hnone)
      | nextStatement first others =>
          have hpos := List.length_pos_iff.mpr first.statement_tokens_ne_nil
          rw [tokens, Cursor.before_append] at hbound ⊢
          have hfirst := statementOf?_complete ih first hbound
            (Clause.endsAt_statements others hafter)
          rw [Parser.statements, Parser.bind_of_ok hfirst]
          rw [Cursor.before_length] at hbound
          have hothers := ih mode others after (by omega) hafter
          exact Parser.bind_of_ok hothers

end FlatScript.Grammar
