import FlatScript.Node.Cursor

/-!
# Reading expressions

Expressions have three levels of operators, all of them associating to the left: comparisons above
sums above products.  A product is made of factors: literals, variables, calls, signed factors, and
sums in parentheses.  Arguments of calls are sums as well, so a comparison never stands inside an
expression.

Expressions are read within a bound on how deep their factors nest and how long their chains are.
Each level and each link takes a token, so the number of tokens ahead is bound enough; and where
that number is zero the source has ended, which is the one case in which the bound is reached.
-/

namespace FlatScript

namespace Parser

/-- Continues a chain of operands behind `lhs`, with a bound on the number of its operators. -/
def chainFrom (isOperator : Token.Kind → Bool) (operand : Parser Node) : Nat → Node → Parser Node
  | 0, lhs => return lhs
  | bound + 1, lhs => do
    let op ← kind
    if isOperator op then
      let _ ← take
      let rhs ← operand
      chainFrom isOperator operand bound (.binary lhs op rhs)
    else
      return lhs

/-- Operands with operators between them, grouped to the left. -/
def chain (bound : Nat) (isOperator : Token.Kind → Bool) (operand : Parser Node) :
    Parser Node := do
  let first ← operand
  chainFrom isOperator operand bound first

end Parser

/-- The operators of a product. -/
def Token.Kind.isProductOperator (kind : Token.Kind) : Bool :=
  kind = .star || kind = .slash

/-- The operators of a sum, which are also the signs. -/
def Token.Kind.isSumOperator (kind : Token.Kind) : Bool :=
  kind = .plus || kind = .minus

/-- The operators of a comparison. -/
def Token.Kind.isComparisonOperator (kind : Token.Kind) : Bool :=
  kind = .equal || kind = .less || kind = .greater

namespace Parser

/-- Products of factors. -/
def productOf (bound : Nat) (factor : Parser Node) : Parser Node :=
  chain bound Token.Kind.isProductOperator factor

/-- Sums of products of factors. -/
def sumOf (bound : Nat) (factor : Parser Node) : Parser Node :=
  chain bound Token.Kind.isSumOperator (productOf bound factor)

/-- Comparisons of sums of products of factors. -/
def comparisonOf (bound : Nat) (factor : Parser Node) : Parser Node :=
  chain bound Token.Kind.isComparisonOperator (sumOf bound factor)

/-- A call with the given reader of arguments. -/
def callOf (bound : Nat) (argument : Parser Node) : Parser Node := do
  let name ← word
  let args ← inParens bound argument
  return .call name args

/-- Fails where an expression has to start and none does. -/
def noExpression : Parser Node := do
  let cursor ← get
  if cursor.kind = .eof then throw (cursor.errorHere .emptyExpression)
  else unexpected .expression

/-- An integer literal.  The token is taken before its payload is looked at. -/
def integerLiteral : Parser Node := do
  let cursor ← get
  let token ← take
  match token.payload with
  | .integer value => return .integer value
  | _ => throw (cursor.errorHere (.unexpectedToken token.kind .expression))

/-- A factor, given a reader of the factors inside it. -/
def factorOf (bound : Nat) (inner : Parser Node) : Parser Node := do
  let cursor ← get
  match cursor.kind with
  | .integer => integerLiteral
  | .plus | .minus => do
    let sign ← take
    return .unary sign.kind (← inner)
  | .leftParen => do
    let _ ← take
    let node ← sumOf bound inner
    let _ ← expect .rightParen
    return node
  | .trueWord => do
    let _ ← take
    return .bool true
  | .falseWord => do
    let _ ← take
    return .bool false
  | .string => do
    let token ← take
    return .string (token.text?.getD "")
  | .word =>
    if cursor.nextKind = .leftParen then callOf bound (sumOf bound inner)
    else return .read (← word)
  | _ => noExpression

/-- A factor within a bound. -/
def factor : Nat → Parser Node
  | 0 => noExpression
  | bound + 1 => factorOf bound (factor bound)

/-- A sum within a bound. -/
def sum (bound : Nat) : Parser Node :=
  sumOf bound (factor bound)

/-- A comparison within a bound. -/
def comparison (bound : Nat) : Parser Node :=
  comparisonOf bound (factor bound)

/-- A call within a bound. -/
def call (bound : Nat) : Parser Node :=
  callOf bound (sum bound)

/-- Reads an expression of the kind that stands in parentheses and arguments. -/
def readSum : Parser Node := do
  sum (← remaining)

/-- Reads an expression of the widest kind. -/
def readComparison : Parser Node := do
  comparison (← remaining)

end Parser

end FlatScript
