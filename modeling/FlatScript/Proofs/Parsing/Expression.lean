import FlatScript.Proofs.Grammar.Expression

/-!
# What the expression parsers read

Within a bound that is not smaller than the number of tokens ahead, the parser of a level succeeds
exactly on the derivations of that level that are over where it stops, and it builds their meaning.
`Level.Reads` is that relation, `Level.parser_sound` gives a derivation for every success, and
`Level.parser_complete` gives a success for every derivation.

Both are inductions on the bound.  A chain and a list of items are read by loops with a bound of
their own, so each loop has a lemma that takes what is known of its operand or item as a hypothesis.
-/

namespace FlatScript.Grammar

open Phrase.Derivation

/-- The parser of a level within a bound. -/
def Level.parser (bound : Nat) : Level → Parser Node
  | .factor => Parser.factor bound
  | .chain .product => Parser.productOf bound (Parser.factor bound)
  | .chain .sum => Parser.sum bound
  | .chain .comparison => Parser.comparison bound

/-- From `start`, an expression of the level can be derived that means `node` and is over at
`after`. -/
def Level.Reads (level : Level) (start : Cursor) (node : Node) (after : Cursor) : Prop :=
  ∃ d : (Phrase.expression level).Derivation,
    d.meaning = node ∧ start = after.before d.tokens ∧ level.EndsAt d.tokens after.kind

/-! ### Loops that stop

Where a loop stops, it does so within any bound. -/

/-- No end token is an operator. -/
theorem Rank.isOperator_ne_eof {rank : Rank} {kind : Token.Kind}
    (hop : rank.isOperator kind = true) : kind ≠ .eof := by
  rintro rfl
  cases rank <;> cases hop

/-- A chain ends in front of a token that is no operator of its rank. -/
theorem chainFrom_stop {rank : Rank} {operand : Parser Node} {start : Cursor}
    (hop : ¬rank.isOperator start.kind = true) (count : Nat) (lhs : Node) :
    Parser.chainFrom rank.isOperator operand count lhs start = .ok lhs start := by
  cases count with
  | zero => rfl
  | succ count => rw [Parser.chainFrom, Parser.kind_bind, if_neg hop, Parser.pure_run]

/-- A list of items ends in front of a token that is no comma. -/
theorem moreItems_stop {α : Type} {item : Parser α} {start : Cursor} (hkind : start.kind ≠ .comma)
    (count : Nat) : Parser.moreItems item count start = .ok [] start := by
  cases count with
  | zero => rfl
  | succ count => rw [Parser.moreItems, Parser.kind_bind, if_neg hkind, Parser.pure_run]

/-! ### Soundness -/

/-- Within the bound, whatever the parser reads is an expression of the level. -/
def Level.Sound (level : Level) (parser : Parser Node) (bound : Nat) : Prop :=
  ∀ ⦃start : Cursor⦄ ⦃node : Node⦄ ⦃after : Cursor⦄, start.ahead.length ≤ bound →
    parser start = .ok node after → level.Reads start node after

/-- Within the bound, whatever the parser reads is an item. -/
def Item.Sound (sort : Item) (parser : Parser sort.Meaning) (bound : Nat) : Prop :=
  ∀ ⦃start : Cursor⦄ ⦃value : sort.Meaning⦄ ⦃after : Cursor⦄, start.ahead.length ≤ bound →
    parser start = .ok value after →
    ∃ d : (Phrase.item sort).Derivation, d.meaning = value ∧ start = after.before d.tokens

/-- The loop over the links of a chain.  `first` are the tokens of the operand in front of them,
which is over where the links start. -/
theorem chainFrom_sound {rank : Rank} {operand : Parser Node} {bound : Nat}
    (hoperand : rank.operand.Sound operand bound)
    {count : Nat} {lhs node : Node} {start after : Cursor} {first : List Token}
    (hcount : start.ahead.length ≤ count) (hbound : start.ahead.length ≤ bound)
    (hfirst : rank.operand.EndsAt first start.kind)
    (hrun : Parser.chainFrom rank.isOperator operand count lhs start = .ok node after) :
    ∃ d : (Phrase.links rank).Derivation,
      d.meaning lhs = node ∧ start = after.before d.tokens ∧
        (Level.chain rank).EndsAt (first ++ d.tokens) after.kind := by
  induction count generalizing lhs start first with
  | zero =>
      simp only [Parser.chainFrom, Parser.pure_eq_ok] at hrun
      obtain ⟨rfl, rfl⟩ := hrun
      have hkind := Cursor.kind_of_length_le_zero hcount
      refine ⟨.noLink, rfl, rfl, ?_, by simpa [tokens] using hfirst.noCall⟩
      rw [hkind]
      cases rank <;> rfl
  | succ count ih =>
      simp only [Parser.chainFrom, Parser.kind_bind] at hrun
      split at hrun
      · next hop =>
          have hne : start.kind ≠ .eof := by
            intro heof
            rw [heof] at hop
            cases rank <;> cases hop
          obtain ⟨op, hkind, hstart⟩ := Cursor.eq_before_of_kind rfl hne
          rw [← hkind] at hop hrun
          have hlength := Cursor.length_of_eq_before hstart
          simp only [List.length_singleton] at hlength
          rw [Parser.take_bind] at hrun
          obtain ⟨rhs, middle, hrhs, hrest⟩ := Parser.bind_eq_ok.mp hrun
          obtain ⟨d, rfl, hd, hends⟩ := hoperand (by omega) hrhs
          have hmiddle := Cursor.length_of_eq_before hd
          obtain ⟨tail, rfl, rfl, htail⟩ := ih (by omega) (by omega) hends hrest
          refine ⟨.link ⟨op, hop⟩ d tail, rfl, ?_, htail.noOperator, fun hword => htail.noCall ?_⟩
          · rw [hstart, hd]
            simp [tokens, Cursor.before]
          · have hnil : d.tokens ++ tail.tokens ≠ [] := by simp [d.tokens_ne_nil]
            have hcons : op :: (d.tokens ++ tail.tokens) = [op] ++ (d.tokens ++ tail.tokens) := rfl
            rw [tokens, hcons, endsInWord_append _ (by simp), endsInWord_append _ hnil] at hword
            exact hword
      · next hop =>
          obtain ⟨rfl, rfl⟩ := Parser.pure_eq_ok.mp hrun
          refine ⟨.noLink, rfl, rfl, ?_, by simpa [tokens] using hfirst.noCall⟩
          simp [Level.continues_chain, hop, hfirst.noOperator]

/-- A chain whose operands are read as derivations is read as a derivation. -/
theorem chain_sound (rank : Rank) {operand : Parser Node} {bound : Nat}
    (hoperand : rank.operand.Sound operand bound) :
    (Level.chain rank).Sound (Parser.chain bound rank.isOperator operand) bound := by
  intro start node after hbound hrun
  obtain ⟨lhs, middle, hfirst, hrest⟩ := Parser.bind_eq_ok.mp hrun
  obtain ⟨d, rfl, rfl, hends⟩ := hoperand hbound hfirst
  have hmiddle : middle.ahead.length ≤ bound := by
    simp only [Cursor.before_length] at hbound
    omega
  obtain ⟨tail, rfl, rfl, htail⟩ := chainFrom_sound hoperand hmiddle hmiddle hends hrest
  exact ⟨.chain d tail, rfl, by simp [tokens], htail⟩

/-- The loop over the items behind the first. -/
theorem moreItems_sound {sort : Item} {item : Parser sort.Meaning} {bound : Nat}
    (hitem : sort.Sound item bound) {count : Nat}
    {values : List sort.Meaning} {start after : Cursor} (hbound : start.ahead.length ≤ bound)
    (hrun : Parser.moreItems item count start = .ok values after) :
    ∃ d : (Phrase.moreItems sort).Derivation,
      d.meaning = values ∧ start = after.before d.tokens := by
  induction count generalizing start values with
  | zero =>
      obtain ⟨rfl, rfl⟩ := Parser.pure_eq_ok.mp hrun
      exact ⟨.lastItem, rfl, rfl⟩
  | succ count ih =>
      simp only [Parser.moreItems, Parser.kind_bind] at hrun
      split at hrun
      · next hkind =>
          obtain ⟨comma, hcomma, hstart⟩ := Cursor.eq_before_of_kind hkind (by decide)
          have hlength := Cursor.length_of_eq_before hstart
          rw [Parser.take_bind] at hrun
          obtain ⟨first, middle, hfirst, hrest⟩ := Parser.bind_eq_ok.mp hrun
          obtain ⟨others, last, hothers, hpure⟩ := Parser.bind_eq_ok.mp hrest
          obtain ⟨rfl, rfl⟩ := Parser.pure_eq_ok.mp hpure
          obtain ⟨d, rfl, hd⟩ := hitem (by omega) hfirst
          have hmiddle := Cursor.length_of_eq_before hd
          obtain ⟨tail, rfl, rfl⟩ := ih (by omega) hothers
          refine ⟨.nextItem ⟨comma, hcomma⟩ d tail, rfl, ?_⟩
          rw [hstart, hd]
          simp [tokens, Cursor.before]
      · obtain ⟨rfl, rfl⟩ := Parser.pure_eq_ok.mp hrun
        exact ⟨.lastItem, rfl, rfl⟩

/-- Items in parentheses are read as derivations between two parentheses. -/
theorem inParens_sound {sort : Item} {item : Parser sort.Meaning} {bound count : Nat}
    (hitem : sort.Sound item bound)
    {values : List sort.Meaning} {start after : Cursor} (hbound : start.ahead.length ≤ bound)
    (hrun : Parser.inParens count item start = .ok values after) :
    ∃ (left : Terminal .leftParen) (d : (Phrase.items sort).Derivation)
        (right : Terminal .rightParen),
      d.meaning = values ∧ start = after.before (left.1 :: (d.tokens ++ [right.1])) := by
  obtain ⟨left, inside, hleft, rfl, hrest⟩ := (Parser.expect_bind_eq_ok (by decide)).mp hrun
  rw [Cursor.before_length] at hbound
  suffices hinside : ∃ (d : (Phrase.items sort).Derivation) (right : Terminal .rightParen),
      d.meaning = values ∧ inside = after.before (d.tokens ++ [right.1]) by
    obtain ⟨d, right, rfl, rfl⟩ := hinside
    exact ⟨⟨left, hleft⟩, d, right, rfl, by simp [Cursor.before]⟩
  rw [Parser.kind_bind] at hrest
  split at hrest
  · rw [Parser.pure_bind_run] at hrest
    obtain ⟨right, _, hright, rfl, hpure⟩ := (Parser.expect_bind_eq_ok (by decide)).mp hrest
    obtain ⟨rfl, rfl⟩ := Parser.pure_eq_ok.mp hpure
    exact ⟨.noItems, ⟨right, hright⟩, rfl, rfl⟩
  · obtain ⟨first, middle, hfirst, hrest⟩ := Parser.bind_eq_ok.mp hrest
    obtain ⟨others, last, hothers, hrest⟩ := Parser.bind_eq_ok.mp hrest
    rw [Parser.pure_bind_run] at hrest
    obtain ⟨right, _, hright, rfl, hpure⟩ := (Parser.expect_bind_eq_ok (by decide)).mp hrest
    obtain ⟨rfl, rfl⟩ := Parser.pure_eq_ok.mp hpure
    obtain ⟨d, rfl, rfl⟩ := hitem (by omega) hfirst
    rw [Cursor.before_length] at hbound
    obtain ⟨tail, rfl, rfl⟩ := moreItems_sound hitem (by omega) hothers
    exact ⟨.someItems d tail, ⟨right, hright⟩, rfl, by simp [tokens]⟩

/-- A call is read as a derivation, given that its arguments are. -/
theorem callOf_sound {argument : Parser Node} {bound count : Nat}
    (hargument : (Level.chain .sum).Sound argument bound)
    {node : Node} {start after : Cursor} (hbound : start.ahead.length ≤ bound + 1)
    (hrun : Parser.callOf count argument start = .ok node after) :
    ∃ d : Phrase.call.Derivation, d.meaning = node ∧ start = after.before d.tokens := by
  obtain ⟨word, middle, hword, rfl, hrest⟩ := Parser.word_bind_eq_ok.mp hrun
  obtain ⟨args, last, hargs, hpure⟩ := Parser.bind_eq_ok.mp hrest
  obtain ⟨rfl, rfl⟩ := Parser.pure_eq_ok.mp hpure
  have hitem : Item.argument.Sound argument bound := by
    intro start value after hlength hrun
    obtain ⟨d, rfl, rfl, -⟩ := hargument hlength hrun
    exact ⟨.argument d, rfl, rfl⟩
  rw [Cursor.before_length, List.length_singleton] at hbound
  obtain ⟨left, d, right, rfl, rfl⟩ := inParens_sound hitem (by omega) hargs
  exact ⟨.call ⟨word, hword⟩ left d right, rfl, rfl⟩

/-- Any kind of token may follow a factor whose last token is not a word. -/
theorem endsAt_of_last {token : Token} (hkind : token.kind ≠ .word) (tokens : List Token)
    (next : Token.Kind) : Level.factor.EndsAt (tokens ++ [token]) next := by
  refine ⟨rfl, fun hword => absurd ?_ hkind⟩
  simpa [EndsInWord] using hword

theorem call_endsAt (d : Phrase.call.Derivation) (next : Token.Kind) :
    Level.factor.EndsAt d.tokens next := by
  cases d with
  | call name left args right =>
      exact endsAt_of_last (by simp [right.2]) (name.1 :: left.1 :: args.tokens) next

/-- What is no expression is not read as one. -/
theorem noExpression_ne_ok {start after : Cursor} {node : Node} :
    Parser.noExpression start ≠ .ok node after := by
  rw [Parser.noExpression, Parser.get_bind]
  split <;> exact nofun

/-- An integer that is read is the number of its token. -/
theorem integerLiteral_sound {token : Token} {rest after : Cursor} {node : Node}
    (hrun : Parser.integerLiteral (rest.before [token]) = .ok node after) :
    rest = after ∧ ∃ value, token.payload = .integer value ∧ node = .integer value := by
  rw [Parser.integerLiteral, Parser.get_bind, Parser.take_bind, Cursor.before_current] at hrun
  cases hpayload : token.payload with
  | integer value =>
      rw [hpayload] at hrun
      obtain ⟨rfl, rfl⟩ := Parser.pure_eq_ok.mp hrun
      exact ⟨rfl, value, rfl, rfl⟩
  | text value => rw [hpayload] at hrun; cases hrun
  | none => rw [hpayload] at hrun; cases hrun

/-- A factor is read as a derivation, given that the factors inside it are. -/
theorem factorOf_sound {inner : Parser Node} {bound : Nat}
    (hinner : Level.factor.Sound inner bound) :
    Level.factor.Sound (Parser.factorOf bound inner) (bound + 1) := by
  have hsum : (Level.chain .sum).Sound (Parser.sumOf bound inner) bound :=
    chain_sound .sum (chain_sound .product hinner)
  intro start node after hbound hrun
  rw [Parser.factorOf, Parser.get_bind] at hrun
  by_cases heof : start.kind = .eof
  · rw [heof] at hrun
    exact absurd hrun noExpression_ne_ok
  obtain ⟨token, -, hstart⟩ := Cursor.eq_before_of_kind rfl heof
  generalize start.advance = rest at hstart
  subst hstart
  have hrest : rest.ahead.length ≤ bound := by
    rw [Cursor.before_length, List.length_singleton] at hbound
    omega
  rw [Cursor.before_kind] at hrun
  -- The kind of the first token decides which production it is.
  cases hkind : token.kind with
  | integer =>
      rw [hkind] at hrun
      obtain ⟨rfl, value, hvalue, rfl⟩ := integerLiteral_sound hrun
      exact ⟨.integer ⟨token, hkind⟩ value hvalue, rfl, rfl, endsAt_of_last (by simp [hkind]) [] _⟩
  | plus | minus =>
      simp only [hkind, Parser.take_before_bind] at hrun
      obtain ⟨arg, _, harg, hpure⟩ := Parser.bind_eq_ok.mp hrun
      obtain ⟨rfl, rfl⟩ := Parser.pure_eq_ok.mp hpure
      obtain ⟨d, rfl, rfl, hends⟩ := hinner hrest harg
      refine ⟨.signed ⟨token, by rw [hkind]; rfl⟩ d, by simp [meaning, hkind], rfl, rfl,
        fun hword => hends.noCall ?_⟩
      exact (endsInWord_append [token] d.tokens_ne_nil).mp hword
  | leftParen =>
      simp only [hkind, Parser.take_before_bind] at hrun
      obtain ⟨_, middle, hnode, hrun⟩ := Parser.bind_eq_ok.mp hrun
      obtain ⟨right, _, hright, rfl, hpure⟩ := (Parser.expect_bind_eq_ok (by decide)).mp hrun
      obtain ⟨rfl, rfl⟩ := Parser.pure_eq_ok.mp hpure
      obtain ⟨d, rfl, rfl, -⟩ := hsum hrest hnode
      refine ⟨.parens ⟨token, hkind⟩ d ⟨right, hright⟩, rfl, by simp [tokens, Cursor.before], ?_⟩
      exact endsAt_of_last (by simp [hright]) (token :: d.tokens) _
  | trueWord =>
      simp only [hkind, Parser.take_before_bind] at hrun
      obtain ⟨rfl, rfl⟩ := Parser.pure_eq_ok.mp hrun
      exact ⟨.trueWord ⟨token, hkind⟩, rfl, rfl, endsAt_of_last (by simp [hkind]) [] _⟩
  | falseWord =>
      simp only [hkind, Parser.take_before_bind] at hrun
      obtain ⟨rfl, rfl⟩ := Parser.pure_eq_ok.mp hrun
      exact ⟨.falseWord ⟨token, hkind⟩, rfl, rfl, endsAt_of_last (by simp [hkind]) [] _⟩
  | string =>
      simp only [hkind, Parser.take_before_bind] at hrun
      obtain ⟨rfl, rfl⟩ := Parser.pure_eq_ok.mp hrun
      exact ⟨.string ⟨token, hkind⟩, rfl, rfl, endsAt_of_last (by simp [hkind]) [] _⟩
  | word =>
      simp only [hkind, Cursor.before_nextKind_singleton] at hrun
      split at hrun
      · obtain ⟨d, rfl, hstart⟩ := callOf_sound hsum hbound hrun
        exact ⟨.called d, rfl, hstart, call_endsAt d _⟩
      · next hnext =>
          obtain ⟨name, middle, hname, hpure⟩ := Parser.bind_eq_ok.mp hrun
          obtain ⟨rfl, rfl⟩ := Parser.pure_eq_ok.mp hpure
          rw [Parser.word_run token hkind] at hname
          cases hname
          exact ⟨.read ⟨token, hkind⟩, rfl, rfl, rfl, fun _ => hnext⟩
  | _ => rw [hkind] at hrun; exact absurd hrun noExpression_ne_ok

/-- **Soundness.**  Whatever the parser of a level reads within a sufficient bound is derived by the
grammar, and is over where the parser stops. -/
theorem Level.parser_sound (level : Level) (bound : Nat) :
    level.Sound (level.parser bound) bound := by
  have hfactor : Level.factor.Sound (Parser.factor bound) bound := by
    induction bound with
    | zero =>
        intro start node after _ hrun
        exact absurd hrun noExpression_ne_ok
    | succ bound ih => exact factorOf_sound ih
  match level with
  | .factor => exact hfactor
  | .chain .product => exact chain_sound .product hfactor
  | .chain .sum => exact chain_sound .sum (chain_sound .product hfactor)
  | .chain .comparison =>
      exact chain_sound .comparison (chain_sound .sum (chain_sound .product hfactor))

/-! ### Completeness -/

/-- Within the bound, the parser reads every expression of the level that is over where it stops. -/
def Level.Complete (level : Level) (parser : Parser Node) (bound : Nat) : Prop :=
  ∀ (d : (Phrase.expression level).Derivation) (after : Cursor),
    (after.before d.tokens).ahead.length ≤ bound → level.EndsAt d.tokens after.kind →
    parser (after.before d.tokens) = .ok d.meaning after

/-- Within the bound, the parser reads every item that is followed by a comma or a closing
parenthesis. -/
def Item.Complete (sort : Item) (parser : Parser sort.Meaning) (bound : Nat) : Prop :=
  ∀ (d : (Phrase.item sort).Derivation) (after : Cursor),
    (after.before d.tokens).ahead.length ≤ bound →
    after.kind = .comma ∨ after.kind = .rightParen →
    parser (after.before d.tokens) = .ok d.meaning after

/-- The loop over the links of a chain reads all of them, behind an operand with the tokens
`first`. -/
theorem chainFrom_complete {rank : Rank} {operand : Parser Node} {bound : Nat}
    (hoperand : rank.operand.Complete operand bound) {count : Nat}
    (d : (Phrase.links rank).Derivation) (lhs : Node) {after : Cursor} (first : List Token)
    (hcount : d.tokens.length ≤ count) (hbound : (after.before d.tokens).ahead.length ≤ bound)
    (hends : (Level.chain rank).EndsAt (first ++ d.tokens) after.kind) :
    Parser.chainFrom rank.isOperator operand count lhs (after.before d.tokens) =
      .ok (d.meaning lhs) after := by
  induction count generalizing d lhs first with
  | zero =>
      cases d with
      | noLink => rfl
      | link op operand tail => cases hcount
  | succ count ih =>
      cases d with
      | noLink =>
          have hop := hends.noOperator
          rw [Level.continues_chain, Bool.or_eq_false_iff] at hop
          simp [Parser.chainFrom, tokens, hop.1, meaning]
      | link op rhs tail =>
          have hrhs : rank.operand.EndsAt rhs.tokens (after.before tail.tokens).kind :=
            Level.EndsAt.operand (first ++ [op.1]) (by simpa [tokens] using hends)
              rhs.tokens_ne_nil
          have hrun := hoperand rhs (after.before tail.tokens)
            (by simp [tokens] at hbound ⊢; omega) hrhs
          simp only [tokens, Parser.chainFrom, Parser.kind_bind, Cursor.before_kind, op.2,
            ↓reduceIte, Parser.take_before_bind]
          rw [Cursor.before_append, Parser.bind_of_ok hrun]
          refine ih tail _ (first ++ op.1 :: rhs.tokens) ?_ ?_ ?_
          · simp [tokens] at hcount; omega
          · simp [tokens] at hbound ⊢; omega
          · simpa [tokens] using hends

/-- A chain is read whenever its operands are. -/
theorem chain_complete (rank : Rank) {operand : Parser Node} {bound : Nat}
    (hoperand : rank.operand.Complete operand bound) :
    (Level.chain rank).Complete (Parser.chain bound rank.isOperator operand) bound := by
  intro d after hbound hends
  cases d with
  | chain first tail =>
      have hfirst : rank.operand.EndsAt first.tokens (after.before tail.tokens).kind :=
        Level.EndsAt.operand [] hends first.tokens_ne_nil
      rw [tokens, Cursor.before_append] at hbound ⊢
      rw [Parser.chain, Parser.bind_of_ok (hoperand first _ hbound hfirst)]
      rw [Cursor.before_length] at hbound
      refine chainFrom_complete hoperand tail _ first.tokens ?_ (by omega) hends
      rw [Cursor.before_length] at hbound
      omega

/-- The loop over the items behind the first reads all of them. -/
theorem moreItems_complete {sort : Item} {item : Parser sort.Meaning} {bound : Nat}
    (hitem : sort.Complete item bound) {count : Nat} (d : (Phrase.moreItems sort).Derivation)
    {after : Cursor} (hcount : d.tokens.length ≤ count)
    (hbound : (after.before d.tokens).ahead.length ≤ bound) (hafter : after.kind = .rightParen) :
    Parser.moreItems item count (after.before d.tokens) = .ok d.meaning after := by
  induction count generalizing d with
  | zero =>
      cases d with
      | lastItem => rfl
      | nextItem comma first others => cases hcount
  | succ count ih =>
      cases d with
      | lastItem => simp [Parser.moreItems, tokens, hafter, meaning]
      | nextItem comma first others =>
          simp only [tokens, List.length_cons, List.length_append, Cursor.before_length]
            at hcount hbound
          have hfirst := hitem first (after.before others.tokens) (by simp; omega)
            (endsAt_moreItems others hafter)
          have hothers := ih others (by omega) (by simp; omega)
          simp only [tokens, Parser.moreItems, Parser.kind_bind, Cursor.before_kind, comma.2,
            ↓reduceIte, Parser.take_before_bind]
          rw [Cursor.before_append, Parser.bind_of_ok hfirst, Parser.bind_of_ok hothers]
          rfl

/-- Items in parentheses are read up to the closing parenthesis. -/
theorem inParens_complete {sort : Item} {item : Parser sort.Meaning} {bound : Nat}
    (hitem : sort.Complete item bound)
    (left : Terminal .leftParen) (d : (Phrase.items sort).Derivation)
    (right : Terminal .rightParen) {after : Cursor}
    (hbound : (after.before (d.tokens ++ [right.1])).ahead.length ≤ bound) :
    Parser.inParens bound item (after.before (left.1 :: (d.tokens ++ [right.1]))) =
      .ok d.meaning after := by
  rw [Parser.inParens, Parser.bind_of_ok (Parser.expect_run left.1 left.2 _), Parser.kind_bind]
  have hclose : Parser.expect .rightParen (after.before [right.1]) = .ok right.1 after :=
    Parser.expect_run right.1 right.2 []
  cases d with
  | noItems =>
      rw [if_pos (by simp [tokens, right.2]), Parser.pure_bind_run]
      exact Parser.bind_of_ok hclose
  | someItems first others =>
      simp only [tokens, Cursor.before_append] at hbound ⊢
      rw [if_neg (item_kind_ne first _)]
      have hfirst := hitem first _ hbound (endsAt_moreItems others right.2)
      rw [Parser.bind_of_ok hfirst]
      rw [Cursor.before_length] at hbound
      have hothers : Parser.moreItems item bound ((after.before [right.1]).before others.tokens) =
          .ok others.meaning (after.before [right.1]) := by
        refine moreItems_complete hitem others ?_ (by omega) right.2
        rw [Cursor.before_length] at hbound
        omega
      rw [Parser.bind_of_ok hothers, Parser.pure_bind_run]
      exact Parser.bind_of_ok hclose

/-- A call is read whenever its arguments are. -/
theorem callOf_complete {argument : Parser Node} {bound : Nat}
    (hargument : (Level.chain .sum).Complete argument bound) (d : Phrase.call.Derivation)
    {after : Cursor} (hbound : (after.before d.tokens).ahead.length ≤ bound + 1) :
    Parser.callOf bound argument (after.before d.tokens) = .ok d.meaning after := by
  have hitem : Item.argument.Complete argument bound := by
    intro d after hlength hkind
    cases d with
    | argument sum => exact hargument sum after hlength (Level.endsAt_item _ _ hkind)
  cases d with
  | call name left args right =>
      have hinside : (after.before (args.tokens ++ [right.1])).ahead.length ≤ bound := by
        simp only [tokens, Cursor.before_length, List.length_cons] at hbound ⊢
        omega
      have hargs := inParens_complete hitem left args right hinside
      rw [Parser.callOf, tokens, Parser.bind_of_ok (Parser.word_run name.1 name.2 _),
        Parser.bind_of_ok hargs]
      rfl

/-- A factor is read whenever the factors inside it are. -/
theorem factorOf_complete {inner : Parser Node} {bound : Nat}
    (hinner : Level.factor.Complete inner bound) :
    Level.factor.Complete (Parser.factorOf bound inner) (bound + 1) := by
  have hsum : (Level.chain .sum).Complete (Parser.sumOf bound inner) bound :=
    chain_complete .sum (chain_complete .product hinner)
  intro d after hbound hends
  rw [Parser.factorOf, Parser.get_bind]
  cases d with
  | integer token value hvalue =>
      simp [tokens, token.2, Parser.integerLiteral, hvalue, meaning]
  | signed sign arg =>
      simp only [tokens, Cursor.before_length, List.length_cons] at hbound
      have harg := hinner arg after (by simp; omega) (hends.of_append [sign.1])
      have hkinds : sign.1.kind = .plus ∨ sign.1.kind = .minus := by
        simpa [Rank.isOperator, Token.Kind.isSumOperator] using sign.2
      rcases hkinds with hkind | hkind
      all_goals
        simp only [tokens, Cursor.before_kind, hkind, Parser.take_before_bind]
        rw [Parser.bind_of_ok harg]
        simp [meaning, hkind]
  | parens left sum right =>
      simp only [tokens, Cursor.before_length, List.length_cons, List.length_append] at hbound
      have hinside := hsum sum (after.before [right.1]) (by simp; omega)
        (Level.endsAt_item _ _ (Or.inr right.2))
      simp only [tokens, Cursor.before_kind, left.2, Parser.take_before_bind, Cursor.before_append]
      rw [Parser.bind_of_ok hinside]
      exact Parser.bind_of_ok (Parser.expect_run right.1 right.2 [])
  | trueWord token => simp [tokens, token.2, meaning]
  | falseWord token => simp [tokens, token.2, meaning]
  | string token => simp [tokens, token.2, meaning]
  | called inner =>
      have hcall := callOf_complete hsum inner hbound
      cases inner with
      | call name left args right =>
          simpa [tokens, name.2, left.2, meaning] using hcall
  | read name =>
      have hnext : after.kind ≠ .leftParen := hends.noCall (by simp [tokens, EndsInWord, name.2])
      simp only [tokens, Cursor.before_kind, name.2, Cursor.before_nextKind_singleton, hnext,
        ↓reduceIte]
      exact Parser.bind_of_ok (Parser.word_run name.1 name.2 [])

/-- **Completeness.**  Within a sufficient bound the parser of a level reads every derivation of the
level that is over where the next token stands. -/
theorem Level.parser_complete (level : Level) (bound : Nat) :
    level.Complete (level.parser bound) bound := by
  have hfactor : Level.factor.Complete (Parser.factor bound) bound := by
    induction bound with
    | zero =>
        intro d after hbound _
        have hpos := List.length_pos_iff.mpr d.tokens_ne_nil
        rw [Cursor.before_length] at hbound
        omega
    | succ bound ih => exact factorOf_complete ih
  match level with
  | .factor => exact hfactor
  | .chain .product => exact chain_complete .product hfactor
  | .chain .sum => exact chain_complete .sum (chain_complete .product hfactor)
  | .chain .comparison =>
      exact chain_complete .comparison (chain_complete .sum (chain_complete .product hfactor))

theorem sum_complete (bound : Nat) : (Level.chain .sum).Complete (Parser.sum bound) bound :=
  (Level.chain .sum).parser_complete bound

theorem comparison_complete (bound : Nat) :
    (Level.chain .comparison).Complete (Parser.comparison bound) bound :=
  (Level.chain .comparison).parser_complete bound

/-- **The parser of a level reads what the grammar derives, and nothing else.** -/
theorem Level.parser_eq_ok_iff (level : Level) {bound : Nat} {start after : Cursor} {node : Node}
    (hbound : start.ahead.length ≤ bound) :
    level.parser bound start = .ok node after ↔ level.Reads start node after := by
  constructor
  · exact level.parser_sound bound hbound
  · rintro ⟨d, rfl, rfl, hends⟩
    exact level.parser_complete bound d after hbound hends

end FlatScript.Grammar
