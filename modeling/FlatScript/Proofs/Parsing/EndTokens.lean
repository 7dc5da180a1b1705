import FlatScript.Proofs.Parsing.Sessions

/-!
# Behind an end token

A walk takes a token after it has looked at its kind, and it takes an end token only to end a
program.  Up to there no walk passes an end token or looks at what stands behind one.  `ConfinedAt`
says this of a walk where a token of some kind is next: among tokens with an end token, it comes to
an outcome that does not depend on what stands behind that token.  There is a rule for each way in
which walks are put together, and the recursions are by induction on the fuel.

So a parser over several lists, each of them closed by its only end token, has one of them for each
time it is asked for a program.
-/

namespace FlatScript

namespace Walk

variable {α β : Type} {body : List Token} {finish token : Token} {position : Nat}

/-! ### Tokens up to an end token -/

/-- Up to the end token there is a token at each position. -/
theorem exists_token (finish : Token) (hle : position ≤ body.length) :
    ∃ token, (body ++ [finish])[position]? = some token := by
  have hlt : position < (body ++ [finish]).length := by
    rw [List.length_append, List.length_singleton]
    omega
  exact ⟨_, List.getElem?_eq_getElem hlt⟩

/-- A position with a token is not behind the end token. -/
theorem le_of_token (htoken : (body ++ [finish])[position]? = some token) :
    position ≤ body.length := by
  obtain ⟨hlt, -⟩ := List.getElem?_eq_some_iff.mp htoken
  rw [List.length_append, List.length_singleton] at hlt
  omega

/-- A token of another kind is in front of the end token. -/
theorem lt_of_token (hfinish : finish.kind = .eof)
    (htoken : (body ++ [finish])[position]? = some token) (hkind : token.kind ≠ .eof) :
    position < body.length := by
  have hle := le_of_token htoken
  rcases Nat.lt_or_eq_of_le hle with hlt | rfl
  · exact hlt
  · rw [List.getElem?_concat_length] at htoken
    cases htoken
    exact absurd hfinish hkind

/-- What stands behind the end token does not move the tokens up to it. -/
theorem token_append (htoken : (body ++ [finish])[position]? = some token) (more : List Token) :
    (body ++ finish :: more)[position]? = some token := by
  obtain ⟨hlt, -⟩ := List.getElem?_eq_some_iff.mp htoken
  rw [List.append_cons, List.getElem?_append_left hlt]
  exact htoken

/-! ### Confined walks -/

/-- Whatever stands behind the end token, the walk comes to this outcome, and it has not passed the
end token by then. -/
structure StopsWithin (walk : Walk α) (body : List Token) (finish : Token) (position : Nat)
    (outcome : Option (Except Stop α × Nat)) : Prop where
  run : ∀ more, walk.runFrom (body ++ finish :: more) position = outcome
  stop_le : ∀ {result stop}, outcome = some (result, stop) → stop ≤ body.length

theorem StopsWithin.of_run {walk : Walk α} {result : Except Stop α} {stop : Nat}
    (hrun : ∀ more, walk.runFrom (body ++ finish :: more) position = some (result, stop))
    (hstop : stop ≤ body.length) : walk.StopsWithin body finish position (some (result, stop)) := by
  refine ⟨hrun, fun hsame => ?_⟩
  cases hsame
  exact hstop

/-- Where a token of the kind is next, the walk stays within any end token that it has not
passed. -/
def ConfinedAt (kind : Token.Kind) (walk : Walk α) : Prop :=
  ∀ ⦃body : List Token⦄ ⦃finish token : Token⦄ ⦃position : Nat⦄, finish.kind = .eof →
    (body ++ [finish])[position]? = some token → token.kind = kind →
    ∃ outcome, walk.StopsWithin body finish position outcome

/-- The same whatever is next. -/
def Confined (walk : Walk α) : Prop :=
  ∀ kind, ConfinedAt kind walk

variable {kind : Token.Kind} {walk : Walk α}

namespace ConfinedAt

theorem pure (value : α) : ConfinedAt kind (Pure.pure value : Walk α) := by
  intro body finish token position _ htoken _
  exact ⟨_, .of_run (fun _ => rfl) (le_of_token htoken)⟩

theorem throw (reason : Stop) : ConfinedAt kind (MonadExcept.throw reason : Walk α) := by
  intro body finish token position _ htoken _
  exact ⟨_, .of_run (fun _ => rfl) (le_of_token htoken)⟩

theorem fail (fault : SyntaxFault) : ConfinedAt kind (Walk.fail fault : Walk α) := by
  intro body finish token position _ htoken _
  exact ⟨_, .of_run (fun more => fail_run (token_append htoken more) fault) (le_of_token htoken)⟩

/-- Behind a walk that ends within the end token, the next one starts there. -/
theorem bind {next : α → Walk β} (hfirst : ConfinedAt kind walk)
    (hnext : ∀ value, Confined (next value)) : ConfinedAt kind (walk >>= next) := by
  intro body finish token position hfinish htoken hkind
  obtain ⟨outcome, hrun, hstop⟩ := hfirst hfinish htoken hkind
  cases outcome with
  | none =>
      refine ⟨none, fun more => bind_of_none next (hrun more), fun hsome => ?_⟩
      cases hsome
  | some reached =>
      obtain ⟨result, stop⟩ := reached
      have hle := hstop rfl
      cases result with
      | error reason => exact ⟨_, .of_run (fun more => bind_of_error next (hrun more)) hle⟩
      | ok value =>
          obtain ⟨behind, hbehind⟩ := exists_token finish hle
          obtain ⟨outcome, hrun', hstop'⟩ := hnext value behind.kind hfinish hbehind rfl
          exact ⟨outcome, fun more => (bind_of_ok next (hrun more)).trans (hrun' more), hstop'⟩

theorem look {next : Token.Kind → Walk α} (hnext : ConfinedAt kind (next kind)) :
    ConfinedAt kind (Walk.kind >>= next) := by
  intro body finish token position hfinish htoken hkind
  obtain ⟨outcome, hrun, hstop⟩ := hnext hfinish htoken hkind
  refine ⟨outcome, fun more => ?_, hstop⟩
  rw [bind_of_ok next (kind_run (token_append htoken more)), hkind]
  exact hrun more

/-- In front of the end token, also the token behind the next one is not behind the end token. -/
theorem lookBehind (hkind : kind ≠ .eof) {next : Token.Kind → Walk α}
    (hnext : ∀ behind, ConfinedAt kind (next behind)) :
    ConfinedAt kind (Walk.nextKind >>= next) := by
  intro body finish token position hfinish htoken hsame
  have hlt := lt_of_token hfinish htoken (hsame ▸ hkind)
  obtain ⟨behind, hbehind⟩ := exists_token finish hlt
  obtain ⟨outcome, hrun, hstop⟩ := hnext behind.kind hfinish htoken hsame
  refine ⟨outcome, fun more => ?_, hstop⟩
  rw [bind_of_ok next nextKind_run, token_append hbehind more]
  exact hrun more

/-- A token that is no end token is taken without passing one. -/
theorem take (hkind : kind ≠ .eof) : ConfinedAt kind Walk.take := by
  intro body finish token position hfinish htoken hsame
  have hlt := lt_of_token hfinish htoken (hsame ▸ hkind)
  refine ⟨some (.ok token, position + 1), .of_run (fun more => ?_) hlt⟩
  have hlast : position + 1 < (body ++ finish :: more).length := by
    rw [List.length_append, List.length_cons]
    omega
  rw [take_run (token_append htoken more), if_pos hlast]

end ConfinedAt

namespace Confined

/-- A walk without fuel goes nowhere. -/
theorem exhausted : Confined (Walk.exhausted : Walk α) := by
  intro kind body finish token position _ _ _
  refine ⟨none, fun _ => rfl, fun hsome => ?_⟩
  cases hsome

theorem look {next : Token.Kind → Walk α} (hnext : ∀ kind, ConfinedAt kind (next kind)) :
    Confined (Walk.kind >>= next) :=
  fun kind => .look (hnext kind)

/-- One confined walk after another is confined. -/
theorem bind {next : α → Walk β} (hfirst : Confined walk) (hnext : ∀ value, Confined (next value)) :
    Confined (walk >>= next) :=
  fun kind => (hfirst kind).bind hnext

/-- The result is made of what has been read. -/
theorem result (hwalk : Confined walk) (f : α → β) :
    Confined (walk >>= fun value => Pure.pure (f value)) :=
  hwalk.bind fun value _ => .pure (f value)

theorem map (hwalk : Confined walk) (f : α → β) : Confined (f <$> walk) := by
  rw [map_eq_pure_bind]
  exact hwalk.result f

end Confined

/-! ### Expressions -/

theorem unexpected_confined (expected : Expected) : Confined (unexpected expected : Walk α) :=
  .look fun _ => .fail _

/-- `expect` looks before it takes. -/
theorem expect_confined {expected : Token.Kind} (hexpected : expected ≠ .eof) :
    Confined (expect expected) := by
  refine .look fun kind => ?_
  by_cases hkind : kind = expected
  · rw [if_pos hkind]
    exact .take (hkind ▸ hexpected)
  · rw [if_neg hkind]
    exact unexpected_confined _ kind

theorem word_confined : Confined word :=
  (expect_confined (by decide)).result fun token => token.text?.getD ""

theorem noExpression_confined : Confined noExpression := by
  refine .look fun kind => ?_
  by_cases hkind : kind = .eof
  · rw [if_pos hkind]
    exact .fail _
  · rw [if_neg hkind]
    exact unexpected_confined _ kind

theorem integerLiteral_confined : ConfinedAt .integer integerLiteral := by
  refine (ConfinedAt.take (by decide)).bind fun token kind => ?_
  cases token.payload with
  | integer value => exact .pure _
  | none | text => exact .throw _

/-- What is behind an end token makes no difference to expressions that are read with this fuel. -/
structure ExpressionsConfined (fuel : Nat) : Prop where
  expression : ∀ level, Confined (expression fuel level)
  links : ∀ rank lhs, Confined (links fuel rank lhs)
  factor : Confined (factor fuel)
  call : Confined (call fuel)
  item : ∀ sort, Confined (item fuel sort)
  moreItems : ∀ sort, Confined (moreItems fuel sort)
  inParens : ∀ sort, Confined (inParens fuel sort)

namespace ExpressionsConfined

variable {fuel : Nat}

theorem expression_succ (hfuel : ExpressionsConfined fuel) (level : Grammar.Level) :
    Confined (Walk.expression (fuel + 1) level) := by
  cases level with
  | factor => exact hfuel.factor
  | chain rank => exact (hfuel.expression rank.operand).bind fun first => hfuel.links rank first

theorem links_succ (hfuel : ExpressionsConfined fuel) (rank : Grammar.Rank) (lhs : Node) :
    Confined (Walk.links (fuel + 1) rank lhs) := by
  refine .look fun kind => ?_
  by_cases hkind : rank.isOperator kind = true
  · have hne : kind ≠ .eof := by
      rintro rfl
      cases rank <;> cases hkind
    rw [if_pos hkind]
    exact (ConfinedAt.take hne).bind fun _ => (hfuel.expression rank.operand).bind fun rhs =>
      hfuel.links rank _
  · rw [if_neg hkind]
    exact .pure lhs

/-- A factor goes by the kind of its first token, and none that it takes is an end token. -/
theorem factor_succ (hfuel : ExpressionsConfined fuel) : Confined (Walk.factor (fuel + 1)) := by
  have hleaf {kind : Token.Kind} (hkind : kind ≠ .eof) (value : Token → Node) :
      ConfinedAt kind (Walk.take >>= fun token => pure (value token)) :=
    (ConfinedAt.take hkind).bind fun token _ => .pure (value token)
  refine .look fun kind => ?_
  cases kind with
  | integer => exact integerLiteral_confined
  | plus | minus =>
      exact (ConfinedAt.take (by decide)).bind fun sign =>
        hfuel.factor.result (Node.unary sign.kind)
  | leftParen =>
      exact (ConfinedAt.take (by decide)).bind fun _ =>
        (hfuel.expression (.chain .sum)).bind fun node =>
          (expect_confined (by decide)).result fun _ => node
  | trueWord => exact hleaf (by decide) fun _ => .bool true
  | falseWord => exact hleaf (by decide) fun _ => .bool false
  | string => exact hleaf (by decide) fun token => .string (token.text?.getD "")
  | word =>
      refine .lookBehind (by decide) fun behind => ?_
      by_cases hparen : behind = .leftParen
      · rw [if_pos hparen]
        exact hfuel.call _
      · rw [if_neg hparen]
        exact word_confined.result Node.read _
  | _ => exact noExpression_confined _

theorem call_succ (hfuel : ExpressionsConfined fuel) : Confined (Walk.call (fuel + 1)) :=
  word_confined.bind fun name => (hfuel.inParens .argument).result (Node.call name)

theorem item_succ (hfuel : ExpressionsConfined fuel) (sort : Grammar.Item) :
    Confined (Walk.item (fuel + 1) sort) := by
  cases sort with
  | argument => exact hfuel.expression (.chain .sum)
  | parameter => exact word_confined

theorem moreItems_succ (hfuel : ExpressionsConfined fuel) (sort : Grammar.Item) :
    Confined (Walk.moreItems (fuel + 1) sort) := by
  refine .look fun kind => ?_
  by_cases hkind : kind = .comma
  · subst hkind
    exact (ConfinedAt.take (by decide)).bind fun _ => (hfuel.item sort).bind fun first =>
      (hfuel.moreItems sort).result (first :: ·)
  · rw [if_neg hkind]
    exact .pure []

theorem inParens_succ (hfuel : ExpressionsConfined fuel) (sort : Grammar.Item) :
    Confined (Walk.inParens (fuel + 1) sort) := by
  refine (expect_confined (by decide)).bind fun _ => .look fun kind => ?_
  have hclose (items : List sort.Meaning) :
      Confined (Walk.expect .rightParen >>= fun _ => pure items) :=
    (expect_confined (by decide)).result fun _ => items
  by_cases hkind : kind = .rightParen
  · subst hkind
    exact (ConfinedAt.pure []).bind hclose
  · rw [if_neg hkind]
    exact (hfuel.item sort kind).bind fun first => (hfuel.moreItems sort).bind fun others =>
      hclose (first :: others)

end ExpressionsConfined

/-- Expressions, by induction on the fuel. -/
theorem expressionsConfined (fuel : Nat) : ExpressionsConfined fuel := by
  induction fuel with
  | zero =>
      exact ⟨fun _ => .exhausted, fun _ _ => .exhausted, .exhausted, .exhausted,
        fun _ => .exhausted, fun _ => .exhausted, fun _ => .exhausted⟩
  | succ fuel ih =>
      exact ⟨ih.expression_succ, ih.links_succ, ih.factor_succ, ih.call_succ, ih.item_succ,
        ih.moreItems_succ, ih.inParens_succ⟩

/-- With any fuel, the walk over an expression is confined. -/
theorem expression_confined (fuel : Nat) (level : Grammar.Level) :
    Confined (expression fuel level) :=
  (expressionsConfined fuel).expression level

/-! ### Statements -/

theorem assignment_confined (fuel : Nat) : Confined (assignment fuel) :=
  (expect_confined (by decide)).bind fun _ => word_confined.bind fun name =>
    (expect_confined (by decide)).bind fun _ =>
      (expression_confined fuel (.chain .comparison)).result (Node.assign name)

theorem returnStatement_confined (fuel : Nat) : Confined (returnStatement fuel) :=
  (expect_confined (by decide)).bind fun _ =>
    (expression_confined fuel (.chain .comparison)).result Node.ret

/-- What is behind an end token makes no difference to statements that are read with this fuel. -/
structure StatementsConfined (fuel : Nat) : Prop where
  statement? : ∀ mode, Confined (statement? fuel mode)
  statements : ∀ mode, Confined (statements fuel mode)
  block : ∀ mode, Confined (block fuel mode)
  otherBranches : Confined (otherBranches fuel)
  lastBranch : Confined (lastBranch fuel)
  choice : Confined (choice fuel)
  declaration : Confined (declaration fuel)
  loop : Confined (loop fuel)

namespace StatementsConfined

variable {fuel : Nat}

theorem statement?_succ (hfuel : StatementsConfined fuel) (mode : Bool) :
    Confined (Walk.statement? (fuel + 1) mode) := by
  refine .look fun kind => ?_
  cases kind with
  | varWord => exact (assignment_confined fuel).map some _
  | ifWord => exact hfuel.choice.map some _
  | funcWord => exact hfuel.declaration.map some _
  | word => exact (expressionsConfined fuel).call.map some _
  | whileWord => exact hfuel.loop.map some _
  | returnWord =>
      cases mode with
      | true => exact (returnStatement_confined fuel).map some _
      | false => exact .pure none
  | _ => exact .pure none

theorem statements_succ (hfuel : StatementsConfined fuel) (mode : Bool) :
    Confined (Walk.statements (fuel + 1) mode) := by
  refine (hfuel.statement? mode).bind fun found => ?_
  cases found with
  | none => exact fun _ => .pure []
  | some first => exact (hfuel.statements mode).result (first :: ·)

theorem block_succ (hfuel : StatementsConfined fuel) (mode : Bool) :
    Confined (Walk.block (fuel + 1) mode) :=
  (expect_confined (by decide)).bind fun _ => (hfuel.statements mode).bind fun body =>
    (expect_confined (by decide)).result fun _ => Node.block body

theorem otherBranches_succ (hfuel : StatementsConfined fuel) :
    Confined (Walk.otherBranches (fuel + 1)) := by
  refine .look fun kind => ?_
  by_cases hkind : kind = .elseifWord
  · subst hkind
    exact (ConfinedAt.take (by decide)).bind fun _ =>
      (expression_confined fuel (.chain .sum)).bind fun predicate =>
        (hfuel.block false).bind fun body =>
          hfuel.otherBranches.result (Branch.mk predicate body :: ·)
  · rw [if_neg hkind]
    exact .pure []

theorem lastBranch_succ (hfuel : StatementsConfined fuel) :
    Confined (Walk.lastBranch (fuel + 1)) := by
  refine .look fun kind => ?_
  by_cases hkind : kind = .elseWord
  · subst hkind
    exact (ConfinedAt.take (by decide)).bind fun _ =>
      (hfuel.block false).result (Branch.mk (.bool true))
  · rw [if_neg hkind]
    exact .pure Branch.absent

theorem choice_succ (hfuel : StatementsConfined fuel) : Confined (Walk.choice (fuel + 1)) :=
  (expect_confined (by decide)).bind fun _ =>
    (expression_confined fuel (.chain .comparison)).bind fun predicate =>
      (hfuel.block false).bind fun body => hfuel.otherBranches.bind fun others =>
        hfuel.lastBranch.result (Node.choice ⟨predicate, body⟩ others)

theorem declaration_succ (hfuel : StatementsConfined fuel) :
    Confined (Walk.declaration (fuel + 1)) :=
  (expect_confined (by decide)).bind fun _ => word_confined.bind fun name =>
    ((expressionsConfined fuel).inParens .parameter).bind fun params =>
      (hfuel.block true).result fun body => Node.declare ⟨name, params, body⟩

theorem loop_succ (hfuel : StatementsConfined fuel) : Confined (Walk.loop (fuel + 1)) :=
  (expect_confined (by decide)).bind fun _ =>
    (expression_confined fuel (.chain .comparison)).bind fun condition =>
      (hfuel.block false).result (Node.loop condition)

end StatementsConfined

/-- Statements, by induction on the fuel. -/
theorem statementsConfined (fuel : Nat) : StatementsConfined fuel := by
  induction fuel with
  | zero =>
      exact ⟨fun _ => .exhausted, fun _ => .exhausted, fun _ => .exhausted, .exhausted, .exhausted,
        .exhausted, .exhausted, .exhausted⟩
  | succ fuel ih =>
      exact ⟨ih.statement?_succ, ih.statements_succ, ih.block_succ, ih.otherBranches_succ,
        ih.lastBranch_succ, ih.choice_succ, ih.declaration_succ, ih.loop_succ⟩

/-! ### Programs -/

/-- Whatever stands behind the end token, the walk comes to this answer; and if something has been
read, just behind the end token, or at it if it is the last. -/
def EndsAlike (walk : Walk α) (body : List Token) (finish : Token) (position : Nat)
    (answer : Except Stop α) : Prop :=
  ∀ more, ∃ stop, walk.runFrom (body ++ finish :: more) position = some (answer, stop) ∧
    ∀ value, answer = .ok value → stop = body.length + min 1 more.length

/-- The end of a program.  No token in front is an end token, so the one that is taken is the end
token of the list. -/
theorem close_endsAlike (hbody : ∀ token ∈ body, token.kind ≠ .eof) (hle : position ≤ body.length)
    (node : Node) :
    ∃ answer, EndsAlike (expect .eof >>= fun _ => pure node) body finish position answer := by
  obtain ⟨token, htoken⟩ := exists_token finish hle
  by_cases hkind : token.kind = .eof
  · have hlast : position = body.length := by
      rcases Nat.lt_or_eq_of_le hle with hlt | heq
      · rw [List.getElem?_append_left hlt] at htoken
        exact absurd hkind (hbody token (List.mem_of_getElem? htoken))
      · exact heq
    refine ⟨.ok node, fun more => ?_⟩
    have htake := take_run (token_append htoken more)
    rw [← expect_run (token_append htoken more) hkind] at htake
    refine ⟨_, bind_of_ok _ htake, fun _ _ => ?_⟩
    rw [List.length_append, List.length_cons]
    split <;> omega
  · refine ⟨.error (.fault ⟨.unexpectedToken token.kind (.token .eof), token.span.start⟩),
      fun more => ⟨position, bind_of_error _ ?_, fun value hvalue => ?_⟩⟩
    · have hmore := token_append htoken more
      rw [expect, bind_of_ok _ (kind_run hmore), if_neg hkind, unexpected,
        bind_of_ok _ (kind_run hmore), fail_run hmore]
    · cases hvalue

/-- **A program ends at the first end token.** -/
theorem program_endsAlike (hfinish : finish.kind = .eof)
    (hbody : ∀ token ∈ body, token.kind ≠ .eof) (fuel : Nat) :
    (∀ more, (program fuel).runFrom (body ++ finish :: more) 0 = none) ∨
      ∃ answer, EndsAlike (program fuel) body finish 0 answer := by
  obtain ⟨first, hfirst⟩ := exists_token finish (Nat.zero_le body.length)
  obtain ⟨outcome, hstatements, hstop⟩ :=
    (statementsConfined fuel).statements false first.kind hfinish hfirst rfl
  cases outcome with
  | none => exact Or.inl fun more => bind_of_none _ (hstatements more)
  | some reached =>
      obtain ⟨result, middle⟩ := reached
      cases result with
      | error reason =>
          refine Or.inr ⟨.error reason, fun more => ?_⟩
          refine ⟨middle, bind_of_error _ (hstatements more), fun value hvalue => ?_⟩
          cases hvalue
      | ok nodes =>
          obtain ⟨answer, hclose⟩ := close_endsAlike hbody (hstop rfl) (.program nodes)
          refine Or.inr ⟨answer, fun more => ?_⟩
          obtain ⟨stop, hrun, hplace⟩ := hclose more
          exact ⟨stop, (bind_of_ok _ (hstatements more)).trans hrun, hplace⟩

end Walk

/-! ### Lists with one end token each -/

/-- A cursor is known by the tokens from its position on. -/
theorem Cursor.At.eq_ofTokens {cursor : Cursor} {tokens : List Token} {position : Nat}
    (hat : cursor.At tokens position) : cursor = Cursor.ofTokens (tokens.drop position) := by
  obtain ⟨finish, hkind, hstart, hdrop⟩ := hat
  rw [hdrop, Grammar.ofTokens_closed _ hkind, hstart]

/-- What is stored behind a list goes by its last token only. -/
theorem stored_append (first : List Token) {more : List Token} (hmore : more ≠ []) :
    stored (first ++ more) = first ++ stored more := by
  rcases List.eq_nil_or_concat more with rfl | ⟨body, last, rfl⟩
  · exact absurd rfl hmore
  · simp only [List.concat_eq_append, stored, List.getLast?_append, List.getLast?_singleton,
      Option.some_or]
    split
    · rfl
    · simp only [List.append_assoc]

/-- A list that ends with an end token is stored as it is. -/
theorem stored_closed (body : List Token) {finish : Token} (hfinish : finish.kind = .eof) :
    stored (body ++ [finish]) = body ++ [finish] := by
  simp [stored, hfinish]

/-- A tree of tokens is the answer to the question for a program. -/
theorem Node.ofTokens_eq (tokens : List Token) :
    Node.ofTokens tokens = (Question.program.answer (Cursor.ofTokens tokens)).1 := by
  have hparser : Question.program.parser = Parser.readProgram := rfl
  rw [Node.ofTokens, Question.answer, hparser]
  cases Parser.readProgram (Cursor.ofTokens tokens) <;> rfl

/-- An answer is known by that of the walk. -/
theorem eq_of_mapError_fault {answer other : Except SyntaxError Node}
    (hsame : answer.mapError Stop.fault = other.mapError Stop.fault) : answer = other := by
  cases answer <;> cases other <;> cases hsame <;> rfl

/-- Two parsers over the same tokens up to the end token give the same answer, and one that has read
a program stands just behind the end token, or at it if it is the last. -/
theorem Question.program_answer_eq {body rest rest' : List Token} {finish : Token}
    {cursor cursor' : Cursor} (hfinish : finish.kind = .eof)
    (hbody : ∀ token ∈ body, token.kind ≠ .eof) (hat : cursor.At (body ++ finish :: rest) 0)
    (hat' : cursor'.At (body ++ finish :: rest') 0) :
    (Question.program.answer cursor).1 = (Question.program.answer cursor').1 ∧
      ∀ node, (Question.program.answer cursor).1 = .ok node →
        (Question.program.answer cursor).2.At (body ++ finish :: rest)
          (body.length + min 1 rest.length) := by
  obtain ⟨found, stop, ⟨enough, hcomes⟩, -, hagrees⟩ := Question.program.exists_step hat
  obtain ⟨found', stop', ⟨enough', hcomes'⟩, -, hagrees'⟩ := Question.program.exists_step hat'
  have hrun := hcomes (max enough enough') (Nat.le_max_left _ _)
  have hrun' := hcomes' (max enough enough') (Nat.le_max_right _ _)
  obtain ⟨hanswer, hplace⟩ := hagrees
  obtain ⟨hanswer', -⟩ := hagrees'
  rcases Walk.program_endsAlike hfinish hbody (max enough enough') with hnone | ⟨_, halike⟩
  · cases (hnone rest).symm.trans hrun
  · obtain ⟨place, hfound, hend⟩ := halike rest
    obtain ⟨place', hfound', -⟩ := halike rest'
    cases hfound.symm.trans hrun
    cases hfound'.symm.trans hrun'
    refine ⟨eq_of_mapError_fault (hanswer.symm.trans hanswer'), fun node hnode => ?_⟩
    have hread : found = .ok node := by
      rw [show found = _ from hanswer, hnode]
      rfl
    rw [← hend node hread]
    exact hplace

/-- **A program in front of other tokens.**  The answer is that for the tokens up to the end token,
and behind a program that has been read the other tokens are next. -/
theorem Question.program_answer_append {first : List Token} (hends : Grammar.EndsOnce first)
    (more : List Token) :
    (Question.program.answer (Cursor.ofTokens (first ++ more))).1 = Node.ofTokens first ∧
      ∀ node, Node.ofTokens first = .ok node →
        (more = [] → (Question.program.answer (Cursor.ofTokens (first ++ more))).2.ahead = []) ∧
        (more ≠ [] →
          (Question.program.answer (Cursor.ofTokens (first ++ more))).2 =
            Cursor.ofTokens more) := by
  obtain ⟨body, finish, rfl, hfinish, hbody⟩ := hends
  have halone := Cursor.ofTokens_at (body ++ [finish])
  rw [stored_closed body hfinish] at halone
  rw [Node.ofTokens_eq]
  by_cases hmore : more = []
  · subst hmore
    rw [List.append_nil]
    refine ⟨rfl, fun node hnode => ⟨fun _ => ?_, fun hne => absurd rfl hne⟩⟩
    obtain ⟨-, hplace⟩ := Question.program_answer_eq hfinish hbody halone halone
    have hlength := (hplace node hnode).length_eq
    rw [List.length_append, List.length_singleton, List.length_nil] at hlength
    exact List.length_eq_zero_iff.mp (by omega)
  · have hjoined : (Cursor.ofTokens (body ++ [finish] ++ more)).At (body ++ finish :: stored more)
        0 := by
      rw [List.append_cons body finish (stored more), ← stored_append _ hmore]
      exact Cursor.ofTokens_at _
    obtain ⟨hanswer, hplace⟩ := Question.program_answer_eq hfinish hbody hjoined halone
    refine ⟨hanswer, fun node hnode => ⟨fun hnil => absurd hnil hmore, fun _ => ?_⟩⟩
    have hbehind := (hplace node (hanswer.trans hnode)).eq_ofTokens
    have hmin : min 1 (stored more).length = 1 := by
      have hlength := (Cursor.ofTokens_at more).length_eq
      omega
    have hdrop : (body ++ finish :: stored more).drop (body.length + 1) = stored more := by
      rw [List.append_cons]
      apply List.drop_left'
      rw [List.length_append, List.length_singleton]
    rw [hbehind, hmin, hdrop]
    exact (Cursor.ofTokens_at more).eq_ofTokens.symm

/-- At the end a parser finds empty programs only. -/
theorem Question.program_answer_end {cursor : Cursor} (hend : cursor.ahead = []) :
    Question.program.answer cursor = (.ok (.program []), cursor) := by
  obtain ⟨ahead, finish⟩ := cursor
  cases hend
  rfl

/-- At the end each further question for a program has the empty program for its answer. -/
theorem Parser.session_end {cursor : Cursor} (hend : cursor.ahead = []) (extra : Nat) :
    (Parser.session (List.replicate extra .program) cursor).map Prod.fst =
      List.replicate extra (.ok (.program [])) := by
  induction extra with
  | zero => rfl
  | succ extra ih =>
      rw [List.replicate_succ, List.replicate_succ, Parser.session,
        Question.program_answer_end hend, List.map_cons, ih]

/-- **One program for each list**, by induction on the lists. -/
theorem Parser.session_flatten {lists : List (List Token)} {nodes : List Node}
    (hlists : List.Forall₂ (fun tokens node => Grammar.EndsOnce tokens ∧
      Node.ofTokens tokens = .ok node) lists nodes) (extra : Nat) :
    (Parser.session (List.replicate (lists.length + extra) .program)
        (Cursor.ofTokens lists.flatten)).map Prod.fst =
      nodes.map .ok ++ List.replicate extra (.ok (.program [])) := by
  induction hlists with
  | nil =>
      rw [List.length_nil, Nat.zero_add]
      exact Parser.session_end rfl extra
  | @cons tokens node lists nodes hfirst hrest ih =>
      obtain ⟨hends, hnode⟩ := hfirst
      obtain ⟨hanswer, hbehind⟩ := Question.program_answer_append hends lists.flatten
      obtain ⟨hlast, hnext⟩ := hbehind node hnode
      have hcount : (tokens :: lists).length + extra = lists.length + extra + 1 := by
        rw [List.length_cons]
        omega
      rw [hcount, List.replicate_succ, List.flatten_cons, Parser.session, List.map_cons, hanswer,
        hnode, List.map_cons, List.cons_append]
      congr 1
      cases hrest with
      | nil =>
          rw [List.length_nil, Nat.zero_add]
          exact Parser.session_end (hlast rfl) extra
      | @cons second other lists nodes hsecond hrest =>
          obtain ⟨⟨body, finish, rfl, -⟩, -⟩ := hsecond
          rw [hnext (by simp), ih]

/-- **Programs with an end token each are read one at a time.**  Tokens whose only end token is the
last have the same tree or the same error, whatever follows them.  If each of several lists of such
tokens has a tree, a parser over all of them in a row gives one tree after the other, and empty
programs when there are no more. -/
theorem end_token_separates_programs :
    (∀ first more, Grammar.EndsOnce first →
      (Question.program.answer (Cursor.ofTokens (first ++ more))).1 = Node.ofTokens first) ∧
    ∀ (lists : List (List Token)) (nodes : List Node), (∀ tokens ∈ lists, Grammar.EndsOnce tokens) →
      List.Forall₂ (fun tokens node => Node.ofTokens tokens = .ok node) lists nodes →
      ∀ extra, (Parser.session (List.replicate (lists.length + extra) .program)
          (Cursor.ofTokens lists.flatten)).map Prod.fst =
        nodes.map .ok ++ List.replicate extra (.ok (.program [])) := by
  refine ⟨fun first more hends => (Question.program_answer_append hends more).1,
    fun lists nodes hends hnodes extra => Parser.session_flatten ?_ extra⟩
  exact (List.forall₂_and_left lists nodes).mpr ⟨hends, hnodes⟩

/-- The call of a function without arguments. -/
def callTokens (name : String) : List Token :=
  [⟨.word, .text name, ⟨0, 1⟩⟩, ⟨.leftParen, .text "(", ⟨1, 2⟩⟩, ⟨.rightParen, .text ")", ⟨2, 3⟩⟩]

/-- Two calls with an end token behind each are two programs, and then there are empty ones.  A call
that lacks a parenthesis is not completed by what stands behind the end token. -/
theorem calls_read_one_at_a_time :
    (Parser.session (List.replicate 3 .program) (Cursor.ofTokens
        (callTokens "f" ++ [Token.endAt 3] ++ (callTokens "g" ++ [Token.endAt 3])))).map Prod.fst =
      [.ok (.program [.call "f" []]), .ok (.program [.call "g" []]), .ok (.program [])] ∧
    ∀ more, (Question.program.answer (Cursor.ofTokens
        ((callTokens "f").dropLast ++ [Token.endAt 2] ++ more))).1 =
      .error ⟨.emptyExpression, 2⟩ := by
  have hends (name : String) : Grammar.EndsOnce (callTokens name ++ [Token.endAt 3]) :=
    ⟨callTokens name, Token.endAt 3, rfl, rfl, by simp [callTokens]⟩
  have hopen : Grammar.EndsOnce ((callTokens "f").dropLast ++ [Token.endAt 2]) :=
    ⟨(callTokens "f").dropLast, Token.endAt 2, rfl, rfl, by decide⟩
  obtain ⟨hfirst, hall⟩ := end_token_separates_programs
  have hcalls := hall [callTokens "f" ++ [Token.endAt 3], callTokens "g" ++ [Token.endAt 3]]
    [.program [.call "f" []], .program [.call "g" []]] (by simp [hends])
    (.cons rfl (.cons rfl .nil))
  exact ⟨hcalls 1, fun more => hfirst _ more hopen⟩

end FlatScript
