import FlatScript.Proofs.Parsing.Following
import FlatScript.Proofs.Parsing.Program

/-!
# Positions of the parsers

Every parser does what the walk of the same name does, from the cursor that stands at the position
of the walk.  So the walks end, they never look outside of the tokens, and they only move forward;
and the bounds of the parsers are never what stops them.

There is one lemma for each parser.  The factor and the list of statements tie the knots, by
induction on the bound.
-/

namespace FlatScript

variable {kind : Token.Kind} {gain bound : Nat}

/-! ### Expressions -/

theorem noExpression_follows :
    Follows gain bound (fun _ => Walk.noExpression) Parser.noExpression := by
  intro kind
  apply FollowsAt.look
  by_cases hkind : kind = .eof
  · rw [if_pos hkind]
    refine (FollowsAt.fail _).congr fun cursor hcursor => ?_
    rw [Parser.noExpression, Parser.get_bind, if_pos (hcursor.trans hkind), Parser.get_bind]
  · rw [if_neg hkind]
    refine (FollowsAt.unexpected _).congr fun cursor hcursor => ?_
    rw [Parser.noExpression, Parser.get_bind, if_neg (hcursor ▸ hkind)]

/-- An integer token has its number on both sides, or fails on both. -/
theorem integerLiteral_follows :
    FollowsAt .integer 1 bound (fun _ => Walk.integerLiteral) Parser.integerLiteral := by
  intro tokens start cursor hat hkind _
  have hne : cursor.kind ≠ .eof := by
    rw [hkind]
    decide
  obtain ⟨token, htoken, -, -, hsame⟩ := hat.exists_token
  obtain rfl := hsame hne
  have hlast := hat.lt_of_kind hne
  have hrun : Walk.integerLiteral.runFrom tokens start = _ :=
    Walk.bind_of_ok _ (Walk.take_run htoken)
  rw [if_pos hlast] at hrun
  rw [Parser.integerLiteral, Parser.get_bind, Parser.take_bind]
  cases hpayload : cursor.current.payload with
  | integer value =>
      rw [hpayload] at hrun
      exact ⟨_, ⟨0, fun _ _ => hrun⟩, .ok (hat.advance hlast) (Nat.le_refl _)⟩
  | none | text =>
      rw [hpayload] at hrun
      exact ⟨_, ⟨0, fun _ _ => hrun⟩, .error (hat.advance hlast) (Nat.le_succ start)⟩

/-- The links of a chain.  Each of them takes a token, the operator. -/
theorem links_follow {rank : Grammar.Rank} {operand : Parser Node}
    (hoperand : Follows 1 bound (fun fuel => Walk.expression fuel rank.operand) operand)
    {count : Nat} (hcount : count ≤ bound) (lhs : Node) :
    Follows 0 count (fun fuel => Walk.links fuel rank lhs)
      (Parser.chainFrom rank.isOperator operand count lhs) := by
  refine Follows.loop (fun lhs fuel => Walk.links fuel rank lhs)
    (Parser.chainFrom rank.isOperator operand) (fun _ => rank.isOperator)
    (by cases rank <;> exact fun _ => rfl) ?_ ?_ count hcount lhs
  · intro lhs kind hop count
    have hstop : ¬rank.isOperator kind = true := by
      rw [hop]
      exact Bool.false_ne_true
    refine FollowsAt.ofSucc (FollowsAt.look ?_)
    simp only [if_neg hstop]
    exact (FollowsAt.pure lhs).congr fun cursor hcursor =>
      Grammar.chainFrom_stop (hcursor ▸ hstop) count lhs
  · intro lhs kind hop count hcount ih
    have hoperand' := (hoperand.narrow (Nat.le_of_lt hcount)).weaken
    have htake := (FollowsAt.take (Grammar.Rank.isOperator_ne_eof hop)).bindAfter fun _ =>
      hoperand'.bind fun rhs => ih (.binary lhs kind rhs)
    refine FollowsAt.ofSucc (FollowsAt.look ?_)
    simp only [if_pos hop]
    refine htake.weaken.congr fun cursor hcursor => ?_
    rw [Parser.chainFrom, Parser.kind_bind, hcursor, if_pos hop]

/-- A chain is followed if its operands are. -/
theorem chain_follows {rank : Grammar.Rank} {operand : Parser Node}
    (hoperand : Follows 1 bound (fun fuel => Walk.expression fuel rank.operand) operand) :
    Follows 1 bound (fun fuel => Walk.expression fuel (.chain rank))
      (Parser.chain bound rank.isOperator operand) := by
  have hchain := hoperand.bind fun first => links_follow hoperand (Nat.le_refl bound) first
  exact hchain.ofSucc

/-- The items behind the first.  Each of them takes a token, the comma. -/
theorem moreItems_follow {sort : Grammar.Item} {item : Parser sort.Meaning}
    (hitem : Follows 1 bound (fun fuel => Walk.item fuel sort) item) :
    Follows 0 bound (fun fuel => Walk.moreItems fuel sort) (Parser.moreItems item bound) := by
  refine Follows.loop (fun (_ : Unit) fuel => Walk.moreItems fuel sort)
    (fun count _ => Parser.moreItems item count) (fun _ kind => kind = .comma) (fun _ => rfl)
    ?_ ?_ bound (Nat.le_refl bound) ()
  · intro _ kind hkind count
    have hne : kind ≠ .comma := of_decide_eq_false hkind
    refine FollowsAt.ofSucc (FollowsAt.look ?_)
    simp only [if_neg hne]
    exact (FollowsAt.pure []).congr fun cursor hcursor =>
      Grammar.moreItems_stop (hcursor ▸ hne) count
  · intro _ kind hkind count hcount ih
    obtain rfl : kind = .comma := of_decide_eq_true hkind
    have hcomma : FollowsAt .comma 1 (count + 1) (fun _ => Walk.take) Parser.take :=
      .take (by decide)
    have hfirst := (hitem.narrow (Nat.le_of_lt hcount)).weaken
    have htake := hcomma.bindAfter fun _ => hfirst.bind fun first => (ih ()).result (first :: ·)
    refine FollowsAt.ofSucc (FollowsAt.look ?_)
    simp only [↓reduceIte]
    refine htake.weaken.congr fun cursor hcursor => ?_
    rw [Parser.moreItems, Parser.kind_bind, if_pos hcursor]

theorem inParens_follows {sort : Grammar.Item} {item : Parser sort.Meaning}
    (hitem : Follows 1 bound (fun fuel => Walk.item fuel sort) item) :
    Follows 1 bound (fun fuel => Walk.inParens fuel sort) (Parser.inParens bound item) := by
  have hclose (items : List sort.Meaning) : Follows 0 bound
      (fun _ => Walk.expect .rightParen >>= fun _ => pure items)
      (Parser.expect .rightParen >>= fun _ => pure items) :=
    ((expect_follows (by decide)).result fun _ => items).weaken
  refine Follows.ofSucc ((expect_follows (by decide)).bind fun _ => Follows.look fun kind => ?_)
  by_cases hkind : kind = .rightParen
  · simp only [if_pos hkind]
    exact (FollowsAt.pure []).bind hclose
  · simp only [if_neg hkind]
    have hothers (first : sort.Meaning) := (moreItems_follow hitem).bind fun others =>
      hclose (first :: others)
    exact (hitem kind).weaken.bind hothers

/-- A call is followed if its arguments are, and takes its name at least. -/
theorem callOf_follows {argument : Parser Node}
    (hargument : Follows 1 bound (fun fuel => Walk.expression fuel (.chain .sum)) argument) :
    FollowsAt kind 1 (bound + 1) Walk.call (Parser.callOf bound argument) := by
  have hitem : Follows 1 bound (fun fuel => Walk.item fuel .argument) argument :=
    hargument.ofSucc
  have hcall := (word_follows kind).bindAfter fun name =>
    ((inParens_follows hitem).result (Node.call name)).weaken
  exact hcall.ofSucc

/-- A factor, given the factors inside of it.  What it is shows at the next token, and behind a word
at the one after that. -/
theorem factorOf_follows {inner : Parser Node} (hinner : Follows 1 bound Walk.factor inner) :
    Follows 1 (bound + 1) Walk.factor (Parser.factorOf bound inner) := by
  have hfactor : Follows 1 bound (fun fuel => Walk.expression fuel .factor) inner := hinner.ofSucc
  have hproduct : Follows 1 bound (fun fuel => Walk.expression fuel (.chain .product)) _ :=
    chain_follows hfactor
  have hsum : Follows 1 bound (fun fuel => Walk.expression fuel (.chain .sum))
      (Parser.sumOf bound inner) := chain_follows hproduct
  have hleaf {kind : Token.Kind} (hkind : kind ≠ .eof) (value : Token → Node) :
      FollowsAt kind 1 (bound + 1) (fun _ => Walk.take >>= fun token => pure (value token))
        (Parser.take >>= fun token => pure (value token)) :=
    (FollowsAt.take hkind).bind fun token _ => .pure (value token)
  intro kind
  refine FollowsAt.ofSucc (FollowsAt.look ?_)
  cases kind with
  | integer =>
      refine integerLiteral_follows.congr fun cursor hcursor => ?_
      rw [Parser.factorOf, Parser.get_bind, hcursor]
  | plus | minus =>
      refine ((FollowsAt.take (by decide)).bindAfter fun sign =>
        (hinner.result (Node.unary sign.kind)).weaken).congr fun cursor hcursor => ?_
      rw [Parser.factorOf, Parser.get_bind, hcursor]
  | leftParen =>
      refine ((FollowsAt.take (by decide)).bindAfter fun _ => hsum.weaken.bind fun node =>
        ((expect_follows (by decide)).result fun _ => node).weaken).congr fun cursor hcursor => ?_
      rw [Parser.factorOf, Parser.get_bind, hcursor]
  | trueWord =>
      refine (hleaf (by decide) fun _ => .bool true).congr fun cursor hcursor => ?_
      rw [Parser.factorOf, Parser.get_bind, hcursor]
  | falseWord =>
      refine (hleaf (by decide) fun _ => .bool false).congr fun cursor hcursor => ?_
      rw [Parser.factorOf, Parser.get_bind, hcursor]
  | string =>
      refine (hleaf (by decide) fun token => .string (token.text?.getD "")).congr
        fun cursor hcursor => ?_
      rw [Parser.factorOf, Parser.get_bind, hcursor]
  | word =>
      have hbehind (behind : Token.Kind) : FollowsAt .word 1 (bound + 1)
          (fun fuel => if behind = .leftParen then Walk.call fuel
            else Walk.word >>= fun name => pure (.read name))
          (if behind = .leftParen then Parser.callOf bound (Parser.sumOf bound inner)
            else Parser.word >>= fun name => pure (.read name)) := by
        by_cases hparen : behind = .leftParen
        · simp only [if_pos hparen]
          exact callOf_follows hsum
        · simp only [if_neg hparen]
          exact word_follows.result Node.read _
      refine (FollowsAt.lookBehind hbehind).congr fun cursor hcursor => ?_
      rw [Parser.factorOf, Parser.get_bind, Parser.get_bind, hcursor]
  | _ =>
      refine (noExpression_follows _).congr fun cursor hcursor => ?_
      rw [Parser.factorOf, Parser.get_bind, hcursor]

/-- Factors, by induction on the bound. -/
theorem factor_follows (bound : Nat) : Follows 1 bound Walk.factor (Parser.factor bound) := by
  induction bound with
  | zero =>
      intro kind
      by_cases hkind : kind = .eof
      · subst hkind
        exact FollowsAt.ofSucc (FollowsAt.look (noExpression_follows _))
      · exact .vacuous hkind
  | succ bound ih => exact factorOf_follows ih

/-- Expressions of every level. -/
theorem expression_follows (level : Grammar.Level) (bound : Nat) :
    Follows 1 bound (fun fuel => Walk.expression fuel level) (level.parser bound) := by
  have hfactor : Follows 1 bound (fun fuel => Walk.expression fuel .factor)
      (Parser.factor bound) := (factor_follows bound).ofSucc
  have hproduct : Follows 1 bound (fun fuel => Walk.expression fuel (.chain .product)) _ :=
    chain_follows hfactor
  have hsum : Follows 1 bound (fun fuel => Walk.expression fuel (.chain .sum)) _ :=
    chain_follows hproduct
  cases level with
  | factor => exact hfactor
  | chain rank =>
      cases rank with
      | product => exact hproduct
      | sum => exact hsum
      | comparison => exact chain_follows hsum

theorem sum_follows :
    Follows 0 bound (fun fuel => Walk.expression fuel (.chain .sum)) (Parser.sum bound) :=
  (expression_follows (.chain .sum) bound).weaken

theorem comparison_follows :
    Follows 0 bound (fun fuel => Walk.expression fuel (.chain .comparison))
      (Parser.comparison bound) :=
  (expression_follows (.chain .comparison) bound).weaken

/-! ### Statements -/

theorem assignment_follows :
    FollowsAt kind 1 (bound + 1) Walk.assignment (Parser.assignment bound) :=
  (expect_follows (by decide) kind).bindAfter fun _ => word_follows.weaken.bind fun name =>
    (expect_follows (by decide)).weaken.bind fun _ => comparison_follows.result (Node.assign name)

theorem returnStatement_follows :
    FollowsAt kind 1 (bound + 1) Walk.returnStatement (Parser.returnStatement bound) :=
  (expect_follows (by decide) kind).bindAfter fun _ => comparison_follows.result Node.ret

theorem blockOf_follows {mode : Bool} {inner : Parser (List Node)}
    (hinner : Follows 0 bound (fun fuel => Walk.statements fuel mode) inner) :
    Follows 0 bound (fun fuel => Walk.block fuel mode) (Parser.blockOf inner) := by
  refine Follows.ofSucc ((expect_follows (by decide)).weaken.bind fun _ => hinner.bind ?_)
  exact fun body => ((expect_follows (by decide)).result fun _ => Node.block body).weaken

/-- The branches behind the first.  Each of them takes a token, the word in front of it. -/
theorem otherBranches_follow {block : Parser Node}
    (hblock : Follows 0 bound (fun fuel => Walk.block fuel false) block) :
    Follows 0 bound Walk.otherBranches (Parser.otherBranches block bound) := by
  refine Follows.loop (fun (_ : Unit) => Walk.otherBranches)
    (fun count _ => Parser.otherBranches block count) (fun _ kind => kind = .elseifWord)
    (fun _ => rfl) ?_ ?_ bound (Nat.le_refl bound) ()
  · intro _ kind hkind count
    have hne : kind ≠ .elseifWord := of_decide_eq_false hkind
    refine FollowsAt.ofSucc (FollowsAt.look ?_)
    simp only [if_neg hne]
    exact (FollowsAt.pure []).congr fun cursor hcursor =>
      Grammar.otherBranches_stop (hcursor ▸ hne) count
  · intro _ kind hkind count hcount ih
    obtain rfl : kind = .elseifWord := of_decide_eq_true hkind
    have hword : FollowsAt .elseifWord 1 (count + 1) (fun _ => Walk.take) Parser.take :=
      .take (by decide)
    have hbody := hblock.narrow (Nat.le_of_lt hcount)
    have htake := hword.bindAfter fun _ => sum_follows.bind fun predicate =>
      hbody.bind fun body => (ih ()).result (Branch.mk predicate body :: ·)
    refine FollowsAt.ofSucc (FollowsAt.look ?_)
    simp only [↓reduceIte]
    refine htake.weaken.congr fun cursor hcursor => ?_
    rw [Parser.otherBranches, Parser.kind_bind, if_pos hcursor]

theorem lastBranch_follows {block : Parser Node}
    (hblock : Follows 0 bound (fun fuel => Walk.block fuel false) block) :
    Follows 0 bound Walk.lastBranch (Parser.lastBranch block) := by
  refine Follows.ofSucc (Follows.look fun kind => ?_)
  by_cases hkind : kind = .elseWord
  · simp only [if_pos hkind]
    have hne : kind ≠ .eof := by
      rw [hkind]
      decide
    exact (FollowsAt.take hne).weaken.bind fun _ => hblock.result (Branch.mk (.bool true))
  · simp only [if_neg hkind]
    exact .pure Branch.absent

theorem choice_follows {block : Parser Node}
    (hblock : Follows 0 bound (fun fuel => Walk.block fuel false) block) :
    FollowsAt kind 1 (bound + 1) Walk.choice (Parser.choice bound block) := by
  refine FollowsAt.ofSucc ((expect_follows (by decide) kind).bindAfter fun _ =>
    comparison_follows.bind fun predicate => hblock.bind fun body => ?_)
  exact (otherBranches_follow hblock).bind fun others =>
    (lastBranch_follows hblock).result (Node.choice ⟨predicate, body⟩ others)

theorem declaration_follows {block : Parser Node}
    (hblock : Follows 0 bound (fun fuel => Walk.block fuel true) block) :
    FollowsAt kind 1 (bound + 1) Walk.declaration (Parser.declaration bound block) := by
  have hitem : Follows 1 bound (fun fuel => Walk.item fuel .parameter) Parser.word :=
    Follows.ofSucc word_follows
  refine FollowsAt.ofSucc ((expect_follows (by decide) kind).bindAfter fun _ =>
    word_follows.weaken.bind fun name => (inParens_follows hitem).weaken.bind fun params => ?_)
  exact hblock.result fun body => Node.declare ⟨name, params, body⟩

theorem loop_follows {block : Parser Node}
    (hblock : Follows 0 bound (fun fuel => Walk.block fuel false) block) :
    FollowsAt kind 1 (bound + 1) Walk.loop (Parser.loop bound block) := by
  refine FollowsAt.ofSucc ((expect_follows (by decide) kind).bindAfter fun _ =>
    comparison_follows.bind fun condition => ?_)
  exact hblock.result (Node.loop condition)

/-- A statement, where one starts. -/
theorem statementOf?_follows {mode : Bool}
    (hinner : ∀ mode, Follows 0 bound (fun fuel => Walk.statements fuel mode)
      (Parser.statements bound mode))
    (hstarts : Grammar.startsStatement mode kind = true) :
    FollowsAt kind 1 (bound + 1) (fun fuel => Walk.statement? fuel mode)
      (Parser.statementOf? bound (Parser.statements bound) mode) := by
  have hblock := blockOf_follows (hinner false)
  refine FollowsAt.ofSucc (FollowsAt.look ?_)
  cases kind with
  | varWord =>
      refine (assignment_follows.map some).congr fun cursor hcursor => ?_
      rw [Parser.statementOf?, Parser.kind_bind, hcursor]
  | ifWord =>
      refine ((choice_follows hblock).map some).congr fun cursor hcursor => ?_
      rw [Parser.statementOf?, Parser.kind_bind, hcursor]
  | funcWord =>
      refine ((declaration_follows (blockOf_follows (hinner true))).map some).congr
        fun cursor hcursor => ?_
      rw [Parser.statementOf?, Parser.kind_bind, hcursor]
  | word =>
      have hsum : Follows 1 bound (fun fuel => Walk.expression fuel (.chain .sum))
          (Parser.sum bound) := expression_follows (.chain .sum) bound
      refine ((callOf_follows hsum).map some).congr fun cursor hcursor => ?_
      rw [Parser.statementOf?, Parser.kind_bind, hcursor]
      rfl
  | whileWord =>
      refine ((loop_follows hblock).map some).congr fun cursor hcursor => ?_
      rw [Parser.statementOf?, Parser.kind_bind, hcursor]
  | returnWord =>
      obtain rfl : mode = true := hstarts
      refine (returnStatement_follows.map some).congr fun cursor hcursor => ?_
      rw [Parser.statementOf?, Parser.kind_bind, hcursor]
      rfl
  | _ => cases hstarts

/-- Where no statement starts there is none, and nothing is taken. -/
theorem statement?_stops {mode : Bool} (hstarts : Grammar.startsStatement mode kind = false) :
    FollowsAt kind 0 bound (fun fuel => Walk.statement? fuel mode) (pure none) := by
  refine FollowsAt.ofSucc (FollowsAt.look ?_)
  revert hstarts
  cases kind <;> cases mode <;> simp [Grammar.startsStatement, FollowsAt.pure]

/-- Statements.  The bound becomes smaller with each of them, and inside of them. -/
theorem statements_follow (bound : Nat) (mode : Bool) :
    Follows 0 bound (fun fuel => Walk.statements fuel mode) (Parser.statements bound mode) := by
  refine Follows.loop (fun mode fuel => Walk.statements fuel mode) Parser.statements
    Grammar.startsStatement (fun _ => rfl) ?_ ?_ bound (Nat.le_refl bound) mode
  · intro mode kind hstarts count
    have hstop : ¬Grammar.startsStatement mode kind = true := by
      rw [hstarts]
      exact Bool.false_ne_true
    have hnone : FollowsAt kind 0 count (fun fuel => Walk.statements fuel mode) (pure []) :=
      FollowsAt.ofSucc ((statement?_stops hstarts).bindPure (.pure []))
    exact hnone.congr fun cursor hcursor => Grammar.statements_stop (hcursor ▸ hstop) count
  · intro mode kind hstarts count _ ih
    refine (FollowsAt.ofSucc ((statementOf?_follows ih hstarts).bindAfter fun found => ?_)).weaken
    cases found with
    | none => exact fun _ => .pure []
    | some first => exact (ih mode).result (first :: ·)

/-! ### Programs -/

/-- The end of a program.  The token that is taken is not looked at, so it does not matter that the
cursor does not know all of the last one. -/
theorem expect_eof_follows (node : Node) :
    Follows 0 bound (fun _ => Walk.expect .eof >>= fun _ => pure node)
      (Parser.expect .eof >>= fun _ => pure node) := by
  intro kind
  by_cases heof : kind = .eof
  · intro tokens start cursor hat hcursor _
    obtain ⟨token, htoken, hkind, -⟩ := hat.exists_token
    have htake := Walk.take_run htoken
    rw [← Walk.expect_run htoken (hkind.trans (hcursor.trans heof))] at htake
    have hend : (Walk.expect .eof >>= fun _ => pure node).runFrom tokens start = _ :=
      Walk.bind_of_ok _ htake
    rw [Parser.bind_of_ok (Grammar.expect_eof_run (hcursor.trans heof))]
    refine ⟨_, ⟨0, fun _ _ => hend⟩, ?_⟩
    by_cases hlast : start + 1 < tokens.length
    · rw [if_pos hlast]
      exact .ok (hat.advance hlast) (Nat.le_succ start)
    · rw [if_neg hlast, hat.advance_eq hlast]
      exact .ok hat (Nat.le_refl start)
  · exact (expect_follows_unmet heof).bind fun _ _ => .pure node

/-- The walk over a program ends as the parser of programs does. -/
theorem program_follows : Follows 0 bound Walk.program (Parser.program bound) :=
  (statements_follow bound false).bind fun body => expect_eof_follows (.program body)

/-- A program that is read is over at the last position, or just behind an end token. -/
theorem program_stops {tokens : List Token} {start stop : Nat} {cursor after : Cursor} {node : Node}
    (hat : cursor.At tokens start) (hread : Parser.readProgram cursor = .ok node after)
    (hstop : after.At tokens stop) :
    stop + 1 = tokens.length ∨
      start < stop ∧ tokens[stop - 1]?.map Token.kind = some .eof := by
  rw [Parser.readProgram, Parser.remaining_bind] at hread
  obtain ⟨body, middle, hbody, hrest⟩ := Parser.bind_eq_ok.mp hread
  obtain ⟨heof, hpure⟩ := Grammar.expect_eof_bind_eq_ok hrest
  obtain ⟨-, rfl⟩ := Parser.pure_eq_ok.mp hpure
  obtain ⟨result, -, hended⟩ := statements_follow _ false cursor.kind hat rfl (Nat.le_refl _)
  rw [hbody] at hended
  cases hended with
  | @ok _ reached _ hmiddle hgain =>
      by_cases hlast : reached + 1 < tokens.length
      · have hnext := (hmiddle.advance hlast).length_eq
        have hlength := hstop.length_eq
        obtain rfl : stop = reached + 1 := by omega
        obtain ⟨token, htoken, hkind, -⟩ := hmiddle.exists_token
        refine Or.inr ⟨by omega, ?_⟩
        rw [Nat.add_sub_cancel, htoken, Option.map_some, hkind, heof]
      · rw [hmiddle.advance_eq hlast] at hstop
        have hlength := hstop.length_eq
        have hmiddle := hmiddle.length_eq
        exact Or.inl (by omega)

end FlatScript
