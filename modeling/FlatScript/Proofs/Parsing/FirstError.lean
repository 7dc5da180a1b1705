import FlatScript.Proofs.Lexing.Pieces
import FlatScript.Proofs.Parsing.Lookahead

/-!
# The first token that is wrong

Which tokens can still become a program is not looked up in a table: it is what the parsers know of
the tokens they have read.  Here every parser of the grammar is shown to recognize what its phrase
or clause derives, in the sense of `Parser.Recognizes`, one lemma for each of them.  The loops have
bounds of their own, and the list of statements and the factor tie the knots by induction on the
bound.

For programs this gives the theorem about syntax errors: they are reported at the first token with
which the source stops being the start of a program.
-/

namespace FlatScript

instance : Inhabited Node := ⟨.void⟩

instance : Inhabited (Branch Node) := ⟨Branch.absent⟩

namespace Grammar

open FlatScript.Parser

/-! ### Languages -/

/-- Some token as a terminal. -/
def Terminal.sample (kind : Token.Kind) : Terminal kind :=
  ⟨Token.sample kind, rfl⟩

/-- What a phrase derives. -/
def Phrase.language (phrase : Phrase) : Language Token :=
  {tokens | ∃ d : phrase.Derivation, d.tokens = tokens}

/-- What a clause derives. -/
def Clause.language (clause : Clause) : Language Token :=
  {tokens | ∃ d : clause.Derivation, d.tokens = tokens}

/-! ### Expressions -/

/-- The loop over the links of a chain.  Its bound becomes smaller with each link, and the bound of
the operands stays what it was, which is `widen` of the bound that is left. -/
theorem chainFrom_recognizes (rank : Rank) {operand : Nat → Parser Node} {count : Nat}
    (widen : Nat → Nat) (hwiden : ∀ count, count ≤ widen count)
    (hoperand : Recognizes (Phrase.expression rank.operand).language (widen count) operand)
    (lhs : Node) :
    Recognizes (Phrase.links rank).language count
      (fun count => chainFrom rank.isOperator (operand (widen count)) count lhs) := by
  induction count using Nat.strongRecOn generalizing widen lhs with
  | ind count ih =>
      intro kind
      by_cases hop : rank.isOperator kind = true
      · refine .stepWithin
          ((Phrase.expression rank.operand).language * (Phrase.links rank).language)
          (fun count token => operand (widen (count + 1)) >>= fun rhs =>
            chainFrom rank.isOperator (operand (widen (count + 1))) count
              (.binary lhs token.kind rhs))
          (Rank.isOperator_ne_eof hop) ⟨[], .noLink, rfl⟩ ?_ ?_ ?_
        · intro count after token htoken _
          rw [chainFrom, kind_bind, Cursor.before_kind, if_pos (htoken ▸ hop), take_before_bind]
          rfl
        · intro smaller hcount token _ _
          subst hcount
          have hnarrow (count : Nat) : count ≤ widen (count + 1) :=
            Nat.le_trans (Nat.le_succ count) (hwiden (count + 1))
          refine (hoperand.reindex (fun count => widen (count + 1)) hnarrow).bind fun rhs => ?_
          exact ih smaller (Nat.lt_succ_self smaller) (fun count => widen (count + 1)) hnarrow
            hoperand (.binary lhs token.kind rhs)
        · intro token htoken _ tokens htokens
          obtain ⟨_, ⟨first, rfl⟩, _, ⟨others, rfl⟩, rfl⟩ := htokens
          exact ⟨.link ⟨token, htoken ▸ hop⟩ first others, rfl⟩
      · exact .stay lhs ⟨.noLink, rfl⟩
          fun count start hstart => chainFrom_stop (hstart ▸ hop) count lhs

/-- Chains are recognized if their operands are. -/
theorem chain_recognizes (rank : Rank) {operand : Nat → Parser Node} {bound : Nat}
    (hoperand : Recognizes (Phrase.expression rank.operand).language bound operand) :
    Recognizes (Phrase.expression (.chain rank)).language bound
      (fun bound => chain bound rank.isOperator (operand bound)) := by
  have hlinks := chainFrom_recognizes rank (fun count => count) Nat.le_refl hoperand
  refine (hoperand.bind hlinks).mono ?_
  intro tokens htokens
  obtain ⟨_, ⟨first, rfl⟩, _, ⟨tail, rfl⟩, rfl⟩ := htokens
  exact ⟨.chain first tail, rfl⟩

/-- The loop over the items behind the first. -/
theorem moreItems_recognizes {sort : Item} [Inhabited sort.Meaning]
    {item : Nat → Parser sort.Meaning} {count : Nat}
    (widen : Nat → Nat) (hwiden : ∀ count, count ≤ widen count)
    (hitem : Recognizes (Phrase.item sort).language (widen count) item) :
    Recognizes (Phrase.moreItems sort).language count
      (fun count => moreItems (item (widen count)) count) := by
  induction count using Nat.strongRecOn generalizing widen with
  | ind count ih =>
      intro kind
      by_cases hkind : kind = .comma
      · subst hkind
        refine .stepWithin ((Phrase.item sort).language * (Phrase.moreItems sort).language)
          (fun count _ => item (widen (count + 1)) >>= fun first =>
            moreItems (item (widen (count + 1))) count >>= fun others => pure (first :: others))
          (by decide) ⟨[], .lastItem, rfl⟩ ?_ ?_ ?_
        · intro count after token htoken _
          rw [moreItems, kind_bind, Cursor.before_kind, if_pos htoken, take_before_bind]
          rfl
        · intro smaller hcount token _ _
          subst hcount
          have hnarrow (count : Nat) : count ≤ widen (count + 1) :=
            Nat.le_trans (Nat.le_succ count) (hwiden (count + 1))
          have hothers := ih smaller (Nat.lt_succ_self smaller) (fun count => widen (count + 1))
            hnarrow hitem
          exact (hitem.reindex (fun count => widen (count + 1)) hnarrow).bind fun first =>
            hothers.result (first :: ·)
        · intro token htoken _ tokens htokens
          obtain ⟨_, ⟨first, rfl⟩, _, ⟨others, rfl⟩, rfl⟩ := htokens
          exact ⟨.nextItem ⟨token, htoken⟩ first others, rfl⟩
      · exact .stay [] ⟨.lastItem, rfl⟩
          fun count start hstart => moreItems_stop (hstart ▸ hkind) count

/-- What stands in parentheses, with the parentheses. -/
def Item.inParens (sort : Item) : Language Token :=
  terminal .leftParen * ((Phrase.items sort).language * terminal .rightParen)

/-- Lists in parentheses are recognized if their items are. -/
theorem inParens_recognizes {sort : Item} [Inhabited sort.Meaning]
    {item : Nat → Parser sort.Meaning} {bound : Nat}
    (hitem : Recognizes (Phrase.item sort).language bound item) :
    Recognizes sort.inParens bound (fun bound => inParens bound (item bound)) := by
  refine (expect_recognizes (by decide)).bind fun _ => ?_
  have hclose (items : List sort.Meaning) :
      Recognizes (terminal .rightParen) bound
        (fun _ => expect .rightParen >>= fun _ => pure items) :=
    (expect_recognizes (by decide)).result fun _ => items
  intro kind
  by_cases hkind : kind = .rightParen
  · have hempty : RecognizesAt kind ((Phrase.items sort).language * terminal .rightParen) bound
        (fun _ => expect .rightParen >>= fun _ => (pure [] : Parser (List sort.Meaning))) := by
      refine (hclose [] kind).mono fun tokens htokens => ?_
      exact ⟨[], ⟨.noItems, rfl⟩, tokens, htokens, rfl⟩
    refine hempty.congr fun bound start hstart _ => ?_
    rw [kind_bind, if_pos (hstart.trans hkind), pure_bind_run]
  · have hsome : RecognizesAt kind ((Phrase.items sort).language * terminal .rightParen) bound
        (fun bound => item bound >>= fun first => moreItems (item bound) bound >>= fun others =>
          expect .rightParen >>= fun _ => pure (first :: others)) := by
      have hothers := moreItems_recognizes (fun count => count) Nat.le_refl hitem
      refine ((hitem kind).bind fun first => hothers.bind fun others =>
        hclose (first :: others)).mono ?_
      intro tokens htokens
      obtain ⟨_, ⟨first, rfl⟩, _, ⟨_, ⟨others, rfl⟩, last, hlast, rfl⟩, rfl⟩ := htokens
      exact ⟨_, ⟨.someItems first others, rfl⟩, last, hlast, List.append_assoc _ _ _⟩
    refine hsome.congr fun bound start hstart _ => ?_
    rw [kind_bind, if_neg (hstart ▸ hkind)]
    rfl

theorem argument_recognizes {argument : Nat → Parser Node} {bound : Nat}
    (hargument : Recognizes (Phrase.expression (.chain .sum)).language bound argument) :
    Recognizes (Phrase.item .argument).language bound argument := by
  refine hargument.mono ?_
  intro tokens htokens
  obtain ⟨sum, rfl⟩ := htokens
  exact ⟨.argument sum, rfl⟩

theorem parameter_recognizes {bound : Nat} :
    Recognizes (Phrase.item .parameter).language bound (fun _ => word) := by
  refine word_recognizes.mono ?_
  intro tokens htokens
  obtain ⟨token, htoken, rfl⟩ := htokens
  exact ⟨.parameter ⟨token, htoken⟩, rfl⟩

/-- A word and arguments in parentheses are a call. -/
theorem call_of_inParens {token : Token} (htoken : token.kind = .word) {tokens : List Token}
    (htokens : tokens ∈ Item.argument.inParens) : token :: tokens ∈ Phrase.call.language := by
  obtain ⟨_, ⟨left, hleft, rfl⟩, _, ⟨_, ⟨args, rfl⟩, _, ⟨right, hright, rfl⟩, rfl⟩, rfl⟩ := htokens
  exact ⟨.call ⟨token, htoken⟩ ⟨left, hleft⟩ args ⟨right, hright⟩, rfl⟩

/-- Where there is no expression the error is about the token that is there instead. -/
theorem noExpression_fails (start : Cursor) :
    ∃ error, noExpression start = .error error start ∧ error.Blames start := by
  rw [noExpression, get_bind]
  by_cases hkind : start.kind = .eof
  · rw [if_pos hkind]
    exact ⟨_, rfl, .emptyExpression hkind⟩
  · rw [if_neg hkind]
    exact ⟨_, rfl, .unexpected fun _ => hkind⟩

/-- No factor starts with a token that starts no expression. -/
theorem factor_fails {start : Cursor} (hstart : startsExpression start.kind = false) (bound : Nat) :
    ∃ error, factor bound start = .error error start ∧ error.Blames start := by
  cases bound with
  | zero => exact noExpression_fails start
  | succ bound =>
      have hrun : factor (bound + 1) start = noExpression start := by
        rw [factor, factorOf, get_bind]
        revert hstart
        cases start.kind <;> simp [startsExpression]
      rw [hrun]
      exact noExpression_fails start

/-- What may stand behind a word in a factor: nothing, or arguments in parentheses. -/
def behindWord : Language Token :=
  {tokens | ∀ token : Token, token.kind = .word →
    token :: tokens ∈ (Phrase.expression .factor).language}

/-- A factor that starts with a word is a call if a parenthesis follows, and else a variable. -/
theorem behindWord_recognizes {argument : Nat → Parser Node} {bound : Nat}
    (hargument : Recognizes (Phrase.expression (.chain .sum)).language bound argument)
    (name : String) :
    Recognizes behindWord bound (fun bound => kind >>= fun next =>
      if next = .leftParen then
        inParens bound (argument bound) >>= fun args => pure (Node.call name args)
      else pure (Node.read name)) := by
  intro kind
  by_cases hkind : kind = .leftParen
  · have hargs := inParens_recognizes (argument_recognizes hargument)
    have hinside : Item.argument.inParens ≤ behindWord := by
      intro tokens htokens token htoken
      obtain ⟨d, hd⟩ := call_of_inParens htoken htokens
      exact ⟨.called d, hd⟩
    refine ((hargs.result (Node.call name) kind).mono hinside).congr fun bound start hstart _ => ?_
    rw [kind_bind, if_pos (hstart.trans hkind)]
  · have hread : [] ∈ behindWord := fun token htoken => ⟨.read ⟨token, htoken⟩, rfl⟩
    refine .stay (.read name) hread fun bound start hstart => ?_
    rw [kind_bind, if_neg (hstart ▸ hkind), pure_run]

/-- A token that is a factor by itself. -/
theorem leaf_recognizes {kind : Token.Kind} {bound : Nat} (hkind : kind ≠ .eof)
    (value : Token → Node)
    (hrun : ∀ (bound : Nat) (after : Cursor) (token : Token), token.kind = kind → token.Literate →
      factor (bound + 1) (after.before [token]) = .ok (value token) after)
    (hfactor : ∀ token : Token, token.kind = kind → token.Literate →
      [token] ∈ (Phrase.expression .factor).language) :
    RecognizesAt kind (Phrase.expression .factor).language (bound + 1) factor := by
  refine .step 1 (fun _ token => pure (value token)) hkind hrun (fun token _ _ => .pure _) ?_
  rintro token htoken hliterate _ rfl
  exact hfactor token htoken hliterate

/-- The tree of a token that is an integer literal. -/
def integerNode (token : Token) : Node :=
  match token.payload with
  | .integer value => .integer value
  | _ => .void

/-- A factor, by induction on the bound.  Which production it is shows at the first token. -/
theorem factor_recognizes (bound : Nat) :
    Recognizes (Phrase.expression .factor).language bound factor := by
  have hlanguage : ∃ tokens, tokens ∈ (Phrase.expression .factor).language :=
    ⟨_, .trueWord (.sample .trueWord), rfl⟩
  induction bound with
  | zero =>
      intro kind
      by_cases hkind : kind = .eof
      · exact .fail hlanguage fun bound start hstart =>
          factor_fails (hstart.trans hkind ▸ rfl) bound
      · exact .vacuous hkind hlanguage
  | succ bound ih =>
      have hsum : Recognizes (Phrase.expression (.chain .sum)).language bound Parser.sum :=
        chain_recognizes .sum (chain_recognizes .product ih)
      intro kind
      cases kind with
      | integer =>
          refine leaf_recognizes (by decide) integerNode ?_ ?_
          · intro bound after token htoken hliterate
            obtain ⟨value, hvalue⟩ := hliterate htoken
            simp [factor, factorOf, htoken, integerLiteral, hvalue, integerNode]
          · intro token htoken hliterate
            obtain ⟨value, hvalue⟩ := hliterate htoken
            exact ⟨.integer ⟨token, htoken⟩ value hvalue, rfl⟩
      | plus | minus =>
          refine .step (Phrase.expression .factor).language
            (fun bound token => factor bound >>= fun arg => pure (.unary token.kind arg))
            (by decide) ?_ ?_ ?_
          · intro bound after token htoken _
            simp only [factor, factorOf, get_bind, Cursor.before_kind, htoken, take_before_bind,
              Cursor.before_nil]
          · exact fun token _ _ => ih.result (Node.unary token.kind)
          · intro token htoken _ tokens htokens
            obtain ⟨arg, rfl⟩ := htokens
            exact ⟨.signed ⟨token, by rw [htoken]; rfl⟩ arg, rfl⟩
      | leftParen =>
          refine .step ((Phrase.expression (.chain .sum)).language * terminal .rightParen)
            (fun bound _ => Parser.sum bound >>= fun node =>
              expect .rightParen >>= fun _ => pure node) (by decide) ?_ ?_ ?_
          · intro bound after token htoken _
            rw [factor, factorOf, get_bind, Cursor.before_kind, htoken]
            rfl
          · exact fun token _ _ => hsum.bind fun node =>
              (expect_recognizes (by decide)).result fun _ => node
          · intro token htoken _ tokens htokens
            obtain ⟨_, ⟨inner, rfl⟩, _, ⟨right, hright, rfl⟩, rfl⟩ := htokens
            exact ⟨.parens ⟨token, htoken⟩ inner ⟨right, hright⟩, rfl⟩
      | trueWord =>
          refine leaf_recognizes (by decide) (fun _ => .bool true) ?_ ?_
          · intro bound after token htoken _
            rw [factor, factorOf, get_bind, Cursor.before_kind, htoken]
            rfl
          · exact fun token htoken _ => ⟨.trueWord ⟨token, htoken⟩, rfl⟩
      | falseWord =>
          refine leaf_recognizes (by decide) (fun _ => .bool false) ?_ ?_
          · intro bound after token htoken _
            rw [factor, factorOf, get_bind, Cursor.before_kind, htoken]
            rfl
          · exact fun token htoken _ => ⟨.falseWord ⟨token, htoken⟩, rfl⟩
      | string =>
          refine leaf_recognizes (by decide) (fun token => .string (token.text?.getD "")) ?_ ?_
          · intro bound after token htoken _
            rw [factor, factorOf, get_bind, Cursor.before_kind, htoken]
            rfl
          · exact fun token htoken _ => ⟨.string ⟨token, htoken⟩, rfl⟩
      | word =>
          refine .step behindWord _ (by decide) ?_
            (fun token _ _ => behindWord_recognizes hsum (token.text?.getD ""))
            (fun token htoken _ tokens htokens => htokens token htoken)
          intro bound after token htoken _
          rw [factor, factorOf, get_bind, Cursor.before_kind, htoken, kind_bind]
          simp only [Cursor.before_nextKind_singleton]
          by_cases hnext : after.kind = .leftParen
          · rw [if_pos hnext, if_pos hnext, callOf, bind_of_ok (word_run token htoken [])]
            rfl
          · rw [if_neg hnext, if_neg hnext, bind_of_ok (word_run token htoken [])]
            rfl
      | _ => exact .fail hlanguage fun bound start hstart => factor_fails (hstart ▸ rfl) bound

/-- Expressions of every level. -/
theorem Level.parser_recognizes (level : Level) (bound : Nat) :
    Recognizes (Phrase.expression level).language bound (fun bound => level.parser bound) := by
  have hfactor := factor_recognizes bound
  match level with
  | .factor => exact hfactor
  | .chain .product => exact chain_recognizes .product hfactor
  | .chain .sum => exact chain_recognizes .sum (chain_recognizes .product hfactor)
  | .chain .comparison =>
      exact chain_recognizes .comparison
        (chain_recognizes .sum (chain_recognizes .product hfactor))

theorem sum_recognizes {bound : Nat} :
    Recognizes (Phrase.expression (.chain .sum)).language bound Parser.sum :=
  (Level.chain .sum).parser_recognizes bound

theorem comparison_recognizes {bound : Nat} :
    Recognizes (Phrase.expression (.chain .comparison)).language bound Parser.comparison :=
  (Level.chain .comparison).parser_recognizes bound

/-! ### Statements

The parser of a statement is entered where its first token has been seen. -/

theorem assignment_recognizes {mode : Bool} {bound : Nat} :
    RecognizesAt .varWord (Clause.statement mode).language (bound + 1)
      (fun bound => assignment (bound - 1)) := by
  refine .step (terminal .word * (terminal .assign *
      (Phrase.expression (.chain .comparison)).language))
    (fun bound _ => word >>= fun name => expect .assign >>= fun _ =>
      comparison bound >>= fun value => pure (.assign name value)) (by decide) ?_ ?_ ?_
  · intro bound after token htoken _
    exact bind_of_ok (expect_run token htoken [])
  · intro token _ _
    exact word_recognizes.bind fun name => (expect_recognizes (by decide)).bind fun _ =>
      comparison_recognizes.result (Node.assign name)
  · intro token htoken _ tokens htokens
    obtain ⟨_, ⟨name, hname, rfl⟩, _, ⟨_, ⟨sign, hsign, rfl⟩, _, ⟨value, rfl⟩, rfl⟩, rfl⟩ := htokens
    exact ⟨.assign ⟨token, htoken⟩ ⟨name, hname⟩ ⟨sign, hsign⟩ value, rfl⟩

theorem returnStatement_recognizes {bound : Nat} :
    RecognizesAt .returnWord (Clause.statement true).language (bound + 1)
      (fun bound => returnStatement (bound - 1)) := by
  refine .step (Phrase.expression (.chain .comparison)).language
    (fun bound _ => comparison bound >>= fun value => pure (.ret value)) (by decide) ?_ ?_ ?_
  · intro bound after token htoken _
    exact bind_of_ok (expect_run token htoken [])
  · exact fun _ _ _ => comparison_recognizes.result Node.ret
  · intro token htoken _ tokens htokens
    obtain ⟨value, rfl⟩ := htokens
    exact ⟨.ret ⟨token, htoken⟩ value, rfl⟩

theorem call_recognizes {mode : Bool} {bound : Nat} :
    RecognizesAt .word (Clause.statement mode).language (bound + 1)
      (fun bound => call (bound - 1)) := by
  refine .step Item.argument.inParens
    (fun bound token => inParens bound (Parser.sum bound) >>= fun args =>
      pure (.call (token.text?.getD "") args)) (by decide) ?_ ?_ ?_
  · intro bound after token htoken _
    exact bind_of_ok (word_run token htoken [])
  · intro token _ _
    exact (inParens_recognizes (argument_recognizes sum_recognizes)).result _
  · intro token htoken _ tokens htokens
    obtain ⟨d, hd⟩ := call_of_inParens htoken htokens
    exact ⟨.call d, hd⟩

/-- Blocks are recognized if the statements inside them are. -/
theorem blockOf_recognizes {mode : Bool} {inner : Nat → Parser (List Node)} {bound : Nat}
    (hinner : Recognizes (Clause.statements mode).language bound inner) :
    Recognizes (Clause.block mode).language bound (fun bound => blockOf (inner bound)) := by
  have hclose (body : List Node) : Recognizes (terminal .rightBrace) bound
      (fun _ => expect .rightBrace >>= fun _ => pure (Node.block body)) :=
    (expect_recognizes (by decide)).result fun _ => Node.block body
  refine ((expect_recognizes (by decide)).bind fun _ => hinner.bind hclose).mono ?_
  intro tokens htokens
  obtain ⟨_, ⟨left, hleft, rfl⟩, _, ⟨_, ⟨body, rfl⟩, _, ⟨right, hright, rfl⟩, rfl⟩, rfl⟩ := htokens
  exact ⟨.block ⟨left, hleft⟩ body ⟨right, hright⟩, rfl⟩

/-- The loop over the branches behind the first. -/
theorem otherBranches_recognizes {block : Nat → Parser Node} {count : Nat}
    (widen : Nat → Nat) (hwiden : ∀ count, count ≤ widen count)
    (hblock : Recognizes (Clause.block false).language (widen count) block) :
    Recognizes Clause.otherBranches.language count
      (fun count => otherBranches (block (widen count)) count) := by
  induction count using Nat.strongRecOn generalizing widen with
  | ind count ih =>
      intro kind
      by_cases hkind : kind = .elseifWord
      · subst hkind
        refine .stepWithin ((Phrase.expression (.chain .sum)).language *
            ((Clause.block false).language * Clause.otherBranches.language))
          (fun count _ => Parser.sum count >>= fun predicate =>
            block (widen (count + 1)) >>= fun body =>
              otherBranches (block (widen (count + 1))) count >>= fun others =>
                pure (⟨predicate, body⟩ :: others))
          (by decide) ⟨[], .noBranch, rfl⟩ ?_ ?_ ?_
        · intro count after token htoken _
          rw [otherBranches, kind_bind, Cursor.before_kind, if_pos htoken, take_before_bind]
          rfl
        · intro smaller hcount token _ _
          subst hcount
          have hnarrow (count : Nat) : count ≤ widen (count + 1) :=
            Nat.le_trans (Nat.le_succ count) (hwiden (count + 1))
          have hbody := hblock.reindex (fun count => widen (count + 1)) hnarrow
          have hothers := ih smaller (Nat.lt_succ_self smaller) (fun count => widen (count + 1))
            hnarrow hblock
          exact sum_recognizes.bind fun predicate => hbody.bind fun body =>
            hothers.result (⟨predicate, body⟩ :: ·)
        · intro token htoken _ tokens htokens
          obtain ⟨_, ⟨predicate, rfl⟩, _, ⟨_, ⟨body, rfl⟩, _, ⟨others, rfl⟩, rfl⟩, rfl⟩ := htokens
          exact ⟨.nextBranch ⟨token, htoken⟩ predicate body others, rfl⟩
      · exact .stay [] ⟨.noBranch, rfl⟩
          fun count start hstart => otherBranches_stop (hstart ▸ hkind) count

/-- The last branch is recognized, if there is one and if there is none. -/
theorem lastBranch_recognizes {block : Nat → Parser Node} {bound : Nat}
    (hblock : Recognizes (Clause.block false).language bound block) :
    Recognizes Clause.lastBranch.language bound (fun bound => lastBranch (block bound)) := by
  intro kind
  by_cases hkind : kind = .elseWord
  · have helse : RecognizesAt kind Clause.lastBranch.language bound
        (fun bound => expect .elseWord >>= fun _ => block bound >>= fun body =>
          pure (⟨.bool true, body⟩ : Branch Node)) := by
      refine (((expect_recognizes (by decide)) kind).bind fun _ =>
        hblock.result fun body => (⟨.bool true, body⟩ : Branch Node)).mono ?_
      intro tokens htokens
      obtain ⟨_, ⟨token, htoken, rfl⟩, _, ⟨body, rfl⟩, rfl⟩ := htokens
      exact ⟨.elseBranch ⟨token, htoken⟩ body, rfl⟩
    refine helse.congr fun bound start hstart _ => ?_
    obtain ⟨token, htoken, hbefore⟩ :=
      Cursor.eq_before_of_kind (hstart.trans hkind) (by decide)
    rw [lastBranch, kind_bind, if_pos (hstart.trans hkind), hbefore, take_before_bind,
      bind_of_ok (expect_run token htoken [])]
  · refine .stay Branch.absent ⟨.noElse, rfl⟩ fun bound start hstart => ?_
    rw [lastBranch, kind_bind, if_neg (hstart ▸ hkind), pure_run]

theorem choice_recognizes {mode : Bool} {block : Nat → Parser Node} {bound : Nat}
    (hblock : Recognizes (Clause.block false).language bound block) :
    RecognizesAt .ifWord (Clause.statement mode).language (bound + 1)
      (fun bound => choice (bound - 1) (block (bound - 1))) := by
  have hothers := otherBranches_recognizes (fun count => count) Nat.le_refl hblock
  have hlast := lastBranch_recognizes hblock
  refine .step ((Phrase.expression (.chain .comparison)).language *
      ((Clause.block false).language *
        (Clause.otherBranches.language * Clause.lastBranch.language)))
    (fun bound _ => comparison bound >>= fun predicate => block bound >>= fun body =>
      otherBranches (block bound) bound >>= fun others => lastBranch (block bound) >>= fun last =>
        pure (.choice ⟨predicate, body⟩ others last)) (by decide) ?_ ?_ ?_
  · intro bound after token htoken _
    exact bind_of_ok (expect_run token htoken [])
  · intro token _ _
    exact comparison_recognizes.bind fun predicate => hblock.bind fun body =>
      hothers.bind fun others => hlast.result (Node.choice ⟨predicate, body⟩ others)
  · intro token htoken _ tokens htokens
    obtain ⟨_, ⟨predicate, rfl⟩, _, ⟨_, ⟨body, rfl⟩, _, ⟨_, ⟨others, rfl⟩, _, ⟨last, rfl⟩, rfl⟩,
      rfl⟩, rfl⟩ := htokens
    exact ⟨.choice ⟨token, htoken⟩ predicate body others last, rfl⟩

theorem declaration_recognizes {mode : Bool} {block : Nat → Parser Node} {bound : Nat}
    (hblock : Recognizes (Clause.block true).language bound block) :
    RecognizesAt .funcWord (Clause.statement mode).language (bound + 1)
      (fun bound => declaration (bound - 1) (block (bound - 1))) := by
  refine .step (terminal .word * (Item.parameter.inParens * (Clause.block true).language))
    (fun bound _ => word >>= fun name => inParens bound word >>= fun params =>
      block bound >>= fun body => pure (.declare ⟨name, params, body⟩)) (by decide) ?_ ?_ ?_
  · intro bound after token htoken _
    exact bind_of_ok (expect_run token htoken [])
  · intro token _ _
    exact word_recognizes.bind fun name => (inParens_recognizes parameter_recognizes).bind
      fun params => hblock.result fun body => Node.declare ⟨name, params, body⟩
  · intro token htoken _ tokens htokens
    obtain ⟨_, ⟨name, hname, rfl⟩, _, ⟨_, ⟨_, ⟨left, hleft, rfl⟩, _, ⟨_, ⟨params, rfl⟩, _, ⟨right,
      hright, rfl⟩, rfl⟩, rfl⟩, _, ⟨body, rfl⟩, rfl⟩, rfl⟩ := htokens
    exact ⟨.declare ⟨token, htoken⟩ ⟨name, hname⟩ ⟨left, hleft⟩ params ⟨right, hright⟩ body, rfl⟩

theorem loop_recognizes {mode : Bool} {block : Nat → Parser Node} {bound : Nat}
    (hblock : Recognizes (Clause.block false).language bound block) :
    RecognizesAt .whileWord (Clause.statement mode).language (bound + 1)
      (fun bound => loop (bound - 1) (block (bound - 1))) := by
  refine .step ((Phrase.expression (.chain .comparison)).language * (Clause.block false).language)
    (fun bound _ => comparison bound >>= fun condition => block bound >>= fun body =>
      pure (.loop condition body)) (by decide) ?_ ?_ ?_
  · intro bound after token htoken _
    exact bind_of_ok (expect_run token htoken [])
  · exact fun _ _ _ => comparison_recognizes.bind fun condition =>
      hblock.result (Node.loop condition)
  · intro token htoken _ tokens htokens
    obtain ⟨_, ⟨condition, rfl⟩, _, ⟨body, rfl⟩, rfl⟩ := htokens
    exact ⟨.loop ⟨token, htoken⟩ condition body, rfl⟩

/-- A statement, where one starts, given the statements inside of it. -/
theorem statementOf?_recognizes {mode : Bool} {kind : Token.Kind} {bound : Nat}
    (hinner : ∀ mode, Recognizes (Clause.statements mode).language bound
      (fun bound => statements bound mode))
    (hstarts : startsStatement mode kind = true) :
    RecognizesAt kind (Clause.statement mode).language (bound + 1)
      (fun bound => statementOf? (bound - 1) (statements (bound - 1)) mode) := by
  have hblock := blockOf_recognizes (hinner false)
  cases kind with
  | varWord =>
      refine (assignment_recognizes.result some).congr fun bound start hstart _ => ?_
      rw [statementOf?, kind_bind, hstart]
      rfl
  | ifWord =>
      refine ((choice_recognizes hblock).result some).congr fun bound start hstart _ => ?_
      rw [statementOf?, kind_bind, hstart]
      rfl
  | funcWord =>
      have hbody := blockOf_recognizes (hinner true)
      refine ((declaration_recognizes hbody).result some).congr fun bound start hstart _ => ?_
      rw [statementOf?, kind_bind, hstart]
      rfl
  | word =>
      refine (call_recognizes.result some).congr fun bound start hstart _ => ?_
      rw [statementOf?, kind_bind, hstart]
      rfl
  | whileWord =>
      refine ((loop_recognizes hblock).result some).congr fun bound start hstart _ => ?_
      rw [statementOf?, kind_bind, hstart]
      rfl
  | returnWord =>
      cases mode with
      | false => cases hstarts
      | true =>
          refine (returnStatement_recognizes.result some).congr fun bound start hstart _ => ?_
          rw [statementOf?, kind_bind, hstart]
          rfl
  | _ => cases hstarts

/-- The statements behind one that may have been found; without it the list is over. -/
def statementsBehind (mode : Bool) (found : Option Node) (bound : Nat) : Parser (List Node) :=
  match found with
  | some first => statements bound mode >>= fun others => pure (first :: others)
  | none => pure []

/-- A list of statements, by induction on the bound.  A statement has at least one token, so there
is less ahead of the statements behind it as well as of those inside of it. -/
theorem statements_recognizes (bound : Nat) (mode : Bool) :
    Recognizes (Clause.statements mode).language bound (fun bound => statements bound mode) := by
  have hne_eof {mode : Bool} {kind : Token.Kind} (hstarts : startsStatement mode kind = true) :
      kind ≠ .eof := by
    rintro rfl
    cases hstarts
  induction bound generalizing mode with
  | zero =>
      intro kind
      by_cases hstarts : startsStatement mode kind = true
      · exact .vacuous (hne_eof hstarts) ⟨[], .noStatement, rfl⟩
      · exact .stay [] ⟨.noStatement, rfl⟩
          fun bound start hstart => statements_stop (hstart ▸ hstarts) bound
  | succ bound ih =>
      intro kind
      by_cases hstarts : startsStatement mode kind = true
      · have htaken : ∀ tokens ∈ (Clause.statement mode).language, 1 ≤ tokens.length := by
          intro tokens htokens
          obtain ⟨first, rfl⟩ := htokens
          exact List.length_pos_iff.mpr first.statement_tokens_ne_nil
        have hrest (found : Option Node) :
            Recognizes (Clause.statements mode).language bound (statementsBehind mode found) := by
          cases found with
          | none => exact fun _ => .stay [] ⟨.noStatement, rfl⟩ fun _ _ _ => rfl
          | some first => exact (ih mode).result (first :: ·)
        have hnext : RecognizesAt kind (Clause.statements mode).language (bound + 1) _ :=
          ((statementOf?_recognizes ih hstarts).bindAfter htaken hrest).mono (by
            intro tokens htokens
            obtain ⟨_, ⟨first, rfl⟩, _, ⟨others, rfl⟩, rfl⟩ := htokens
            exact ⟨.nextStatement first others, rfl⟩)
        refine hnext.congr fun bound start hstart hlength => ?_
        cases bound with
        | zero =>
            have heof := Cursor.kind_of_length_le_zero hlength
            exact absurd (hstart.symm.trans heof) (hne_eof hstarts)
        | succ bound => rfl
      · exact .stay [] ⟨.noStatement, rfl⟩
          fun bound start hstart => statements_stop (hstart ▸ hstarts) bound

/-! ### Programs -/

/-- **A program that is not read is stopped by a token that no program has there.**  What has been
read before is the start of a program, and any start of tokens with the same ones and then one of
the kind is stopped there. -/
theorem readProgram_eq_error {start stop : Cursor} {error : SyntaxError}
    (hliterate : ∀ token ∈ start.ahead, token.Literate)
    (hrun : readProgram start = .error error stop) :
    ∃ read more, read ++ more ∈ Clause.program.language ∧ start = stop.before read ∧
      error.Blames stop ∧ ∀ rest : Cursor, rest.kind = stop.kind →
        ∃ error', readProgram (rest.before read) = .error error' rest := by
  rw [readProgram, remaining_bind] at hrun
  have hbody := statements_recognizes start.ahead.length false start.kind
  rcases bind_eq_error.mp hrun with hfailed | ⟨body, middle, hread, hend⟩
  · obtain ⟨read, more, ⟨d, hd⟩, hstart, hblames, hagain⟩ :=
      hbody.error rfl ⟨Nat.le_refl _, hliterate⟩ hfailed
    refine ⟨read, more ++ [Token.sample .eof], ⟨.program d (.sample .eof), ?_⟩, hstart, hblames, ?_⟩
    · rw [Clause.Derivation.tokens, hd, List.append_assoc]
      rfl
    · intro rest hrest
      obtain ⟨error', herror'⟩ := hagain _ rest hrest (Nat.le_refl _)
      rw [readProgram, remaining_bind, program]
      exact ⟨error', bind_of_error herror'⟩
  · obtain ⟨read, ⟨d, hd⟩, hstart, hagain⟩ := hbody.ok rfl ⟨Nat.le_refl _, hliterate⟩ hread
    -- The statements are over, so it is the end that is missing.
    have hkind : middle.kind ≠ .eof := by
      intro heof
      rw [bind_of_ok (expect_eof_run heof)] at hend
      cases hend
    rw [bind_of_error (expect_eq_error hkind)] at hend
    cases hend
    refine ⟨read, [Token.sample .eof], ⟨.program d (.sample .eof), ?_⟩, hstart,
      .unexpected (by rintro ⟨⟩), ?_⟩
    · rw [Clause.Derivation.tokens, hd]
      rfl
    · intro rest hrest
      have hstatements := hagain _ rest hrest (Nat.le_refl _)
      rw [readProgram, remaining_bind, program, bind_of_ok hstatements]
      exact ⟨_, bind_of_error (expect_eq_error (hrest ▸ hkind))⟩

end Grammar

/-- The integers of a source have their numbers. -/
theorem Piece.Proper.literate {token : Token} (hproper : token.piece.Proper) : token.Literate := by
  intro hkind
  obtain ⟨kind, payload, span⟩ := token
  cases hkind
  cases hproper with
  | fixed hspelling => cases hspelling
  | integer hvalue => exact ⟨_, rfl⟩

/-- The start of a list that no end token closes. -/
theorem Cursor.ofTokens_open (body : List Token) {last : Token} (hlast : last.kind ≠ .eof) :
    Cursor.ofTokens (body ++ [last]) = ⟨body ++ [last], last.span.stop⟩ := by
  simp [Cursor.ofTokens, hlast]

/-- Each token of a list is under the cursor once those before it are read. -/
theorem Cursor.exists_ofTokens_eq_before (before : List Token) (token : Token)
    (more : List Token) :
    ∃ rest : Cursor, Cursor.ofTokens (before ++ token :: more) = rest.before before ∧
      rest.kind = token.kind := by
  rcases List.eq_nil_or_concat more with rfl | ⟨inner, last, rfl⟩
  · by_cases hkind : token.kind = .eof
    · refine ⟨⟨[], token.span.start⟩, ?_, hkind.symm⟩
      rw [Grammar.ofTokens_closed before hkind, Cursor.before, List.append_nil]
    · refine ⟨⟨[token], token.span.stop⟩, ?_, rfl⟩
      rw [Cursor.ofTokens_open before hkind, Cursor.before]
  · have hsplit : before ++ token :: inner.concat last = (before ++ token :: inner) ++ [last] := by
      simp
    rw [hsplit]
    by_cases hkind : last.kind = .eof
    · refine ⟨⟨token :: inner, last.span.start⟩, ?_, rfl⟩
      rw [Grammar.ofTokens_closed _ hkind, Cursor.before]
    · refine ⟨⟨token :: inner ++ [last], last.span.stop⟩, ?_, rfl⟩
      rw [Cursor.ofTokens_open _ hkind, Cursor.before, List.append_assoc]

open Grammar in
/-- **A syntax error is reported at the first token that cannot belong to any program.**  The tokens
before it are the start of tokens that are read as a program, and with it they are not.  The error
has the place of the token and, if it tells the kind that it found, the kind of the token.  That an
expression is empty is told of the end of the source and of it only. -/
theorem syntax_error_at_first_hopeless_token {source : String} {tokens : List Token}
    {error : SyntaxError} (htokens : tokenize source = .ok tokens)
    (herror : Node.ofTokens tokens = .error error) :
    ∃ before token after, tokens = before ++ token :: after ∧
      error.position = token.span.start ∧
      (∀ found expected, error.fault = .unexpectedToken found expected →
        found = token.kind ∧ (expected = .expression → found ≠ .eof)) ∧
      (error.fault = .emptyExpression → token.kind = .eof ∧ after = []) ∧
      (∃ more node, Node.ofTokens (before ++ more) = .ok node) ∧
      ∀ more node, Node.ofTokens (before ++ token :: more) ≠ .ok node := by
  obtain ⟨body, finish, rfl, hfinish, hproper⟩ := Lexer.tokens_proper htokens
  have hstart := ofTokens_closed body hfinish
  rw [Node.ofTokens, hstart] at herror
  split at herror
  · cases herror
  next stopped stop hrun =>
  cases herror
  have hliterate : ∀ token ∈ body, token.Literate :=
    fun token htoken => (hproper token htoken).literate
  obtain ⟨read, more, ⟨d, hd⟩, hread, hblames, hagain⟩ := readProgram_eq_error hliterate hrun
  obtain ⟨hbody, hend⟩ := Cursor.eq_before_iff.mp hread
  have hviable : ∃ more node, Node.ofTokens (read ++ more) = .ok node :=
    ⟨more, d.meaning, hd ▸ ofTokens_complete d⟩
  have hhopeless {token : Token} (hkind : token.kind = stop.kind) (more : List Token)
      (node : Node) : Node.ofTokens (read ++ token :: more) ≠ .ok node := by
    obtain ⟨rest, hrest, hsame⟩ := Cursor.exists_ofTokens_eq_before read token more
    obtain ⟨error', herror'⟩ := hagain rest (hsame.trans hkind)
    rw [Node.ofTokens, hrest, herror']
    intro hok
    cases hok
  obtain ⟨ahead, place⟩ := stop
  cases ahead with
  | nil =>
      -- The parser has stopped at the end token, which the cursor keeps by its place only.
      have hkind : finish.kind = Cursor.kind ⟨[], place⟩ := hfinish
      refine ⟨read, finish, [], ?_, ?_, ?_, fun _ => ⟨hfinish, rfl⟩, hviable, hhopeless hkind⟩
      · rw [show body = read ++ [] from hbody, List.append_nil]
      · rw [hblames.position]
        exact hend.symm
      · intro found expected hfault
        rw [hkind]
        exact hblames.found found expected hfault
  | cons token after =>
      have hmem : token ∈ body := by
        rw [show body = read ++ token :: after from hbody]
        exact List.mem_append_right _ List.mem_cons_self
      refine ⟨read, token, after ++ [finish], ?_, hblames.position, hblames.found, ?_, hviable,
        hhopeless rfl⟩
      · rw [show body = read ++ token :: after from hbody, List.append_assoc]
        rfl
      · intro hempty
        exact absurd (hblames.empty hempty) (hproper token hmem).kind_ne_eof

/-- The condition is read up to the second sign, which no expression has there; another operand
would have made it a program. -/
theorem sign_without_operand_reported :
    ∃ tokens, tokenize "while 1 < < 2 \x7b\x7d" = .ok tokens ∧
      Node.ofTokens tokens = .error ⟨.unexpectedToken .less .expression, 10⟩ ∧
      ∃ before token after, tokens = before ++ token :: after ∧ token.span.start = 10 ∧
        token.kind = .less ∧ (∃ more node, Node.ofTokens (before ++ more) = .ok node) ∧
        ∀ more node, Node.ofTokens (before ++ token :: more) ≠ .ok node := by
  have htokens : tokenize "while 1 < < 2 \x7b\x7d" = .ok [⟨.whileWord, .text "while", ⟨0, 5⟩⟩,
      ⟨.integer, .integer 1, ⟨6, 7⟩⟩, ⟨.less, .text "<", ⟨8, 9⟩⟩, ⟨.less, .text "<", ⟨10, 11⟩⟩,
      ⟨.integer, .integer 2, ⟨12, 13⟩⟩, ⟨.leftBrace, .text "\x7b", ⟨14, 15⟩⟩,
      ⟨.rightBrace, .text "\x7d", ⟨15, 16⟩⟩, Token.endAt 16] :=
    tokenize_of_toOption (by decide +kernel)
  refine ⟨_, htokens, rfl, ?_⟩
  obtain ⟨before, token, after, hsplit, hposition, hfound, -, hviable, hhopeless⟩ :=
    syntax_error_at_first_hopeless_token htokens rfl
  have hkind := (hfound _ _ rfl).1
  exact ⟨before, token, after, hsplit, hposition.symm, hkind.symm, hviable, hhopeless⟩

end FlatScript
