import FlatScript.Node.Statement
import FlatScript.Proofs.Grammar.Expression

/-!
# Walks over stored tokens

The parsers hold what is ahead of them and are bounded, so that nothing about them can go wrong:
they cannot leave the list and they cannot go on for ever.  Here is what they do without either
precaution.  A `Walk` has all the tokens and a position among them, which is a bare number.  Looking
at a position that has no token stops a walk with `Stop.outOfRange`.

Nothing bounds the recursions but fuel, and a walk that has used it up has no result.  This is not
how a walk ends: one that ends has a result from some amount of fuel on, and always the same one.
One that goes on for ever has no result with any amount.  That there is none of these is shown
elsewhere.
-/

namespace FlatScript

/-- The tokens that a parser keeps: the given ones, with an end token behind them if they do not end
with one. -/
def stored (tokens : List Token) : List Token :=
  match tokens.getLast? with
  | none => [Token.endAt 0]
  | some last => if last.kind = .eof then tokens else tokens ++ [Token.endAt last.span.stop]

/-- Why a walk stops. -/
inductive Stop where
  /-- The tokens are not in order. -/
  | fault (error : SyntaxError)
  /-- There is no token at the position. -/
  | outOfRange
  deriving DecidableEq

/-- A walk over stored tokens, whose state is the position. -/
abbrev Walk := ReaderT (List Token) (ExceptT Stop (StateT Nat Option))

namespace Walk

/-- How a walk ends from a position and where, unless the fuel is used up before. -/
def runFrom {α : Type} (walk : Walk α) (tokens : List Token) (position : Nat) :
    Option (Except Stop α × Nat) :=
  ((ReaderT.run walk tokens).run).run position

/-! ### Single tokens -/

/-- The token at the position. -/
def current : Walk Token := do
  match (← read)[← get]? with
  | some token => return token
  | none => throw .outOfRange

/-- The kind of the token at the position. -/
def kind : Walk Token.Kind := do
  return (← current).kind

/-- The kind of the token behind the position. -/
def nextKind : Walk Token.Kind := do
  match (← read)[(← get) + 1]? with
  | some token => return token.kind
  | none => return .eof

/-- Takes the token at the position.  The last position is not left. -/
def take : Walk Token := do
  let token ← current
  let position ← get
  if position + 1 < (← read).length then set (position + 1)
  return token

/-- Fails at the token at the position. -/
def fail {α : Type} (fault : SyntaxFault) : Walk α := do
  let token ← current
  throw (.fault ⟨fault, token.span.start⟩)

/-- Fails because something else was expected. -/
def unexpected {α : Type} (expected : Expected) : Walk α := do
  let found ← kind
  fail (.unexpectedToken found expected)

/-- Takes a token of the given kind. -/
def expect (expected : Token.Kind) : Walk Token := do
  if (← kind) = expected then take else unexpected (.token expected)

/-- Takes a word and gives its text. -/
def word : Walk String := do
  let token ← expect .word
  return token.text?.getD ""

/-- A walk that has used up its fuel. -/
def exhausted {α : Type} : Walk α := fun _ _ => none

/-! ### Expressions -/

/-- Fails where an expression has to start and none does. -/
def noExpression : Walk Node := do
  if (← kind) = .eof then fail .emptyExpression else unexpected .expression

/-- An integer literal. -/
def integerLiteral : Walk Node := do
  let token ← take
  match token.payload with
  | .integer value => return .integer value
  | _ => throw (.fault ⟨.unexpectedToken token.kind .expression, token.span.start⟩)

mutual

/-- An expression of a level. -/
def expression : Nat → Grammar.Level → Walk Node
  | 0, _ => exhausted
  | fuel + 1, .factor => factor fuel
  | fuel + 1, .chain rank => do
    let first ← expression fuel rank.operand
    links fuel rank first

/-- The operators of a rank with their operands, behind `lhs`. -/
def links : Nat → Grammar.Rank → Node → Walk Node
  | 0, _, _ => exhausted
  | fuel + 1, rank, lhs => do
    let op ← kind
    if rank.isOperator op then
      let _ ← take
      let rhs ← expression fuel rank.operand
      links fuel rank (.binary lhs op rhs)
    else
      return lhs

/-- A factor. -/
def factor : Nat → Walk Node
  | 0 => exhausted
  | fuel + 1 => do
    match ← kind with
    | .integer => integerLiteral
    | .plus | .minus => do
      let sign ← take
      return .unary sign.kind (← factor fuel)
    | .leftParen => do
      let _ ← take
      let node ← expression fuel (.chain .sum)
      let _ ← expect .rightParen
      return node
    | .trueWord => do
      let _ ← take
      return .bool true
    | .falseWord => do
      let _ ← take
      return .bool false
    | .string => do
      let token ← take
      return .string (token.text?.getD "")
    | .word => do
      if (← nextKind) = .leftParen then call fuel else return .read (← word)
    | _ => noExpression

/-- A call. -/
def call : Nat → Walk Node
  | 0 => exhausted
  | fuel + 1 => do
    let name ← word
    let args ← inParens fuel .argument
    return .call name args

/-- An argument or a parameter. -/
def item : Nat → (sort : Grammar.Item) → Walk sort.Meaning
  | 0, _ => exhausted
  | fuel + 1, .argument => expression fuel (.chain .sum)
  | _ + 1, .parameter => word

/-- Further items, each behind a comma. -/
def moreItems : Nat → (sort : Grammar.Item) → Walk (List sort.Meaning)
  | 0, _ => exhausted
  | fuel + 1, sort => do
    if (← kind) = .comma then
      let _ ← take
      let first ← item fuel sort
      let others ← moreItems fuel sort
      return first :: others
    else
      return []

/-- Items in parentheses with commas between them. -/
def inParens : Nat → (sort : Grammar.Item) → Walk (List sort.Meaning)
  | 0, _ => exhausted
  | fuel + 1, sort => do
    let _ ← expect .leftParen
    let items ←
      if (← kind) = .rightParen then pure []
      else do
        let first ← item fuel sort
        let others ← moreItems fuel sort
        pure (first :: others)
    let _ ← expect .rightParen
    return items

end

/-! ### Statements -/

/-- An assignment. -/
def assignment (fuel : Nat) : Walk Node := do
  let _ ← expect .varWord
  let name ← word
  let _ ← expect .assign
  return .assign name (← expression fuel (.chain .comparison))

/-- A return statement. -/
def returnStatement (fuel : Nat) : Walk Node := do
  let _ ← expect .returnWord
  return .ret (← expression fuel (.chain .comparison))

mutual

/-- A statement, if one starts here. -/
def statement? : Nat → Bool → Walk (Option Node)
  | 0, _ => exhausted
  | fuel + 1, allowReturn => do
    match ← kind with
    | .varWord => some <$> assignment fuel
    | .ifWord => some <$> choice fuel
    | .funcWord => some <$> declaration fuel
    | .word => some <$> call fuel
    | .whileWord => some <$> loop fuel
    | .returnWord => if allowReturn then some <$> returnStatement fuel else return none
    | _ => return none

/-- Statements for as long as one starts. -/
def statements : Nat → Bool → Walk (List Node)
  | 0, _ => exhausted
  | fuel + 1, allowReturn => do
    match ← statement? fuel allowReturn with
    | some first =>
      let others ← statements fuel allowReturn
      return first :: others
    | none => return []

/-- A block. -/
def block : Nat → Bool → Walk Node
  | 0, _ => exhausted
  | fuel + 1, allowReturn => do
    let _ ← expect .leftBrace
    let body ← statements fuel allowReturn
    let _ ← expect .rightBrace
    return .block body

/-- The branches of a choice behind the first. -/
def otherBranches : Nat → Walk (List (Branch Node))
  | 0 => exhausted
  | fuel + 1 => do
    if (← kind) = .elseifWord then
      let _ ← take
      let predicate ← expression fuel (.chain .sum)
      let body ← block fuel false
      let others ← otherBranches fuel
      return ⟨predicate, body⟩ :: others
    else
      return []

/-- The last branch of a choice, which may be absent. -/
def lastBranch : Nat → Walk (Branch Node)
  | 0 => exhausted
  | fuel + 1 => do
    if (← kind) = .elseWord then
      let _ ← take
      return ⟨.bool true, ← block fuel false⟩
    else
      return Branch.absent

/-- A choice. -/
def choice : Nat → Walk Node
  | 0 => exhausted
  | fuel + 1 => do
    let _ ← expect .ifWord
    let predicate ← expression fuel (.chain .comparison)
    let body ← block fuel false
    let others ← otherBranches fuel
    let last ← lastBranch fuel
    return .choice ⟨predicate, body⟩ others last

/-- A function declaration. -/
def declaration : Nat → Walk Node
  | 0 => exhausted
  | fuel + 1 => do
    let _ ← expect .funcWord
    let name ← word
    let params ← inParens fuel .parameter
    return .declare ⟨name, params, ← block fuel true⟩

/-- A loop. -/
def loop : Nat → Walk Node
  | 0 => exhausted
  | fuel + 1 => do
    let _ ← expect .whileWord
    let condition ← expression fuel (.chain .comparison)
    return .loop condition (← block fuel false)

end

/-- A whole program: statements up to an end token. -/
def program (fuel : Nat) : Walk Node := do
  let body ← statements fuel false
  let _ ← expect .eof
  return .program body

/-! ### Runs of walks -/

variable {α β : Type} {tokens : List Token} {position stop : Nat}

/-- After a success the next walk goes on from the place where the first stopped. -/
theorem bind_of_ok {walk : Walk α} {value : α} (next : α → Walk β)
    (hwalk : walk.runFrom tokens position = some (.ok value, stop)) :
    (walk >>= next).runFrom tokens position = (next value).runFrom tokens stop := by
  change Option.bind (walk.runFrom tokens position) _ = _
  rw [hwalk]
  rfl

/-- A walk that stops with a reason is not gone on with. -/
theorem bind_of_error {walk : Walk α} {reason : Stop} (next : α → Walk β)
    (hwalk : walk.runFrom tokens position = some (.error reason, stop)) :
    (walk >>= next).runFrom tokens position = some (.error reason, stop) := by
  change Option.bind (walk.runFrom tokens position) _ = _
  rw [hwalk]
  rfl

/-- A walk that has run out of fuel is not gone on with either. -/
theorem bind_of_none {walk : Walk α} (next : α → Walk β)
    (hwalk : walk.runFrom tokens position = none) :
    (walk >>= next).runFrom tokens position = none := by
  change Option.bind (walk.runFrom tokens position) _ = _
  rw [hwalk]
  rfl

theorem map_of_ok {walk : Walk α} {value : α} (f : α → β)
    (hwalk : walk.runFrom tokens position = some (.ok value, stop)) :
    (f <$> walk).runFrom tokens position = some (.ok (f value), stop) := by
  change Option.bind (walk.runFrom tokens position) _ = _
  rw [hwalk]
  rfl

theorem map_of_error {walk : Walk α} {reason : Stop} (f : α → β)
    (hwalk : walk.runFrom tokens position = some (.error reason, stop)) :
    (f <$> walk).runFrom tokens position = some (.error reason, stop) := by
  change Option.bind (walk.runFrom tokens position) _ = _
  rw [hwalk]
  rfl

@[simp] theorem pure_run (value : α) :
    (pure value : Walk α).runFrom tokens position = some (.ok value, position) := rfl

@[simp] theorem read_bind (next : List Token → Walk α) :
    (read >>= next).runFrom tokens position = (next tokens).runFrom tokens position := rfl

@[simp] theorem get_bind (next : Nat → Walk α) :
    (get >>= next).runFrom tokens position = (next position).runFrom tokens position := rfl

theorem current_run {token : Token} (htoken : tokens[position]? = some token) :
    current.runFrom tokens position = some (.ok token, position) := by
  rw [current, read_bind, get_bind, htoken]
  rfl

theorem kind_run {token : Token} (htoken : tokens[position]? = some token) :
    kind.runFrom tokens position = some (.ok token.kind, position) := by
  rw [kind, bind_of_ok _ (current_run htoken)]
  rfl

/-- Behind the last token the kind of the next is the one of an end token. -/
theorem nextKind_run :
    nextKind.runFrom tokens position =
      some (.ok ((tokens[position + 1]?.map Token.kind).getD .eof), position) := by
  rw [nextKind, read_bind, get_bind]
  cases tokens[position + 1]? <;> rfl

/-- `take` moves by one, but never from the last token. -/
theorem take_run {token : Token} (htoken : tokens[position]? = some token) :
    take.runFrom tokens position =
      some (.ok token, if position + 1 < tokens.length then position + 1 else position) := by
  rw [take, bind_of_ok _ (current_run htoken), get_bind, read_bind]
  split <;> rfl

theorem expect_run {token : Token} (htoken : tokens[position]? = some token)
    {expected : Token.Kind} (hkind : token.kind = expected) :
    (expect expected).runFrom tokens position = take.runFrom tokens position := by
  rw [expect, bind_of_ok _ (kind_run htoken), if_pos hkind]

/-- A fault has the place of the token at the position. -/
theorem fail_run {token : Token} (htoken : tokens[position]? = some token) (fault : SyntaxFault) :
    (fail fault : Walk α).runFrom tokens position =
      some (.error (.fault ⟨fault, token.span.start⟩), position) := by
  rw [fail, bind_of_ok _ (current_run htoken)]
  rfl

end Walk

end FlatScript
