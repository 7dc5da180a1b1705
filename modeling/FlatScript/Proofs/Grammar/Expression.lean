import FlatScript.Node.Expression
import FlatScript.Proofs.Parsing.Runs

/-!
# The grammar of expressions

The grammar that the expression parsers read, written down without regard to how they read it.  A
nonterminal is a `Phrase`, and a derivation of a phrase is a value of `Phrase.Derivation`: one
constructor for each production, with the tokens at its leaves.  A derivation has a yield, `tokens`,
and a meaning, which for an expression is the tree that it stands for.

The three ranks of operators differ in their operators and operands only, so they share their
productions: a chain is an operand followed by links, each link an operator with a further operand.
Links are collected to the right, as they are read, and their meaning nests to the left.

A list of items in parentheses is the same production for the arguments of calls and for the
parameters of functions, so both kinds of item stand here.
-/

namespace FlatScript.Grammar

/-- The tokens of one kind. -/
abbrev Terminal (kind : Token.Kind) := {token : Token // token.kind = kind}

/-- The name that a word stands for. -/
def Terminal.name (word : Terminal .word) : String :=
  word.1.text?.getD ""

/-- The ranks of operators, those that bind tightest first. -/
inductive Rank where
  | product
  | sum
  | comparison

/-- The operators of a rank. -/
def Rank.isOperator : Rank → Token.Kind → Bool
  | .product => Token.Kind.isProductOperator
  | .sum => Token.Kind.isSumOperator
  | .comparison => Token.Kind.isComparisonOperator

/-- The tokens that are operators of a rank. -/
abbrev Rank.Operator (rank : Rank) := {token : Token // rank.isOperator token.kind = true}

/-- The levels of expressions: factors, and the chains of each rank. -/
inductive Level where
  | factor
  | chain (rank : Rank)

/-- The level of the operands of a rank. -/
def Rank.operand : Rank → Level
  | .product => .factor
  | .sum => .chain .product
  | .comparison => .chain .sum

/-- What stands between parentheses with commas: the arguments of a call or the parameters of a
function. -/
inductive Item where
  | argument
  | parameter

/-- An argument means a tree, and a parameter its name. -/
abbrev Item.Meaning : Item → Type
  | .argument => Node
  | .parameter => String

/-- The nonterminals of the grammar of expressions. -/
inductive Phrase where
  | expression (level : Level)
  /-- What follows the first operand of a chain. -/
  | links (rank : Rank)
  | call
  | item (sort : Item)
  /-- Any number of items with commas between them. -/
  | items (sort : Item)
  /-- What follows the first of several items. -/
  | moreItems (sort : Item)

/-- What a phrase means.  Links mean what they make of the operand in front of them. -/
abbrev Phrase.Meaning : Phrase → Type
  | .expression _ => Node
  | .links _ => Node → Node
  | .call => Node
  | .item sort => sort.Meaning
  | .items sort => List sort.Meaning
  | .moreItems sort => List sort.Meaning

/-- The derivations of a phrase, with one constructor for each production. -/
inductive Phrase.Derivation : Phrase → Type
  | integer (token : Terminal .integer) (value : Int64)
      (hvalue : token.1.payload = .integer value) : Derivation (.expression .factor)
  | signed (sign : Rank.sum.Operator) (arg : Derivation (.expression .factor)) :
      Derivation (.expression .factor)
  | parens (left : Terminal .leftParen) (inner : Derivation (.expression (.chain .sum)))
      (right : Terminal .rightParen) : Derivation (.expression .factor)
  | trueWord (token : Terminal .trueWord) : Derivation (.expression .factor)
  | falseWord (token : Terminal .falseWord) : Derivation (.expression .factor)
  | string (token : Terminal .string) : Derivation (.expression .factor)
  | called (inner : Derivation .call) : Derivation (.expression .factor)
  | read (name : Terminal .word) : Derivation (.expression .factor)
  | chain {rank : Rank} (first : Derivation (.expression rank.operand))
      (tail : Derivation (.links rank)) : Derivation (.expression (.chain rank))
  | noLink {rank : Rank} : Derivation (.links rank)
  | link {rank : Rank} (op : rank.Operator) (operand : Derivation (.expression rank.operand))
      (tail : Derivation (.links rank)) : Derivation (.links rank)
  | call (name : Terminal .word) (left : Terminal .leftParen)
      (args : Derivation (.items .argument)) (right : Terminal .rightParen) : Derivation .call
  | argument (sum : Derivation (.expression (.chain .sum))) : Derivation (.item .argument)
  | parameter (name : Terminal .word) : Derivation (.item .parameter)
  | noItems {sort : Item} : Derivation (.items sort)
  | someItems {sort : Item} (first : Derivation (.item sort))
      (others : Derivation (.moreItems sort)) : Derivation (.items sort)
  | lastItem {sort : Item} : Derivation (.moreItems sort)
  | nextItem {sort : Item} (comma : Terminal .comma) (first : Derivation (.item sort))
      (others : Derivation (.moreItems sort)) : Derivation (.moreItems sort)

/-- The kinds of token that an expression starts with. -/
def startsExpression : Token.Kind → Bool
  | .integer | .plus | .minus | .leftParen | .trueWord | .falseWord | .string | .word => true
  | _ => false

namespace Phrase.Derivation

/-- The tokens that a derivation derives. -/
def tokens : {phrase : Phrase} → phrase.Derivation → List Token
  | _, .integer token _ _ => [token.1]
  | _, .signed sign arg => sign.1 :: arg.tokens
  | _, .parens left inner right => left.1 :: (inner.tokens ++ [right.1])
  | _, .trueWord token => [token.1]
  | _, .falseWord token => [token.1]
  | _, .string token => [token.1]
  | _, .called inner => inner.tokens
  | _, .read name => [name.1]
  | _, .chain first tail => first.tokens ++ tail.tokens
  | _, .noLink => []
  | _, .link op operand tail => op.1 :: (operand.tokens ++ tail.tokens)
  | _, .call name left args right => name.1 :: left.1 :: (args.tokens ++ [right.1])
  | _, .argument sum => sum.tokens
  | _, .parameter name => [name.1]
  | _, .noItems => []
  | _, .someItems first others => first.tokens ++ others.tokens
  | _, .lastItem => []
  | _, .nextItem comma first others => comma.1 :: (first.tokens ++ others.tokens)

/-- The tree, or the part of one, that a derivation stands for. -/
def meaning : {phrase : Phrase} → phrase.Derivation → phrase.Meaning
  | _, .integer _ value _ => Node.integer value
  | _, .signed sign arg => Node.unary sign.1.kind arg.meaning
  | _, .parens _ inner _ => inner.meaning
  | _, .trueWord _ => Node.bool true
  | _, .falseWord _ => Node.bool false
  | _, .string token => Node.string (token.1.text?.getD "")
  | _, .called inner => inner.meaning
  | _, .read name => Node.read name.name
  | _, .chain first tail => tail.meaning first.meaning
  | _, .noLink => id
  | _, .link op operand tail => fun lhs => tail.meaning (.binary lhs op.1.kind operand.meaning)
  | _, .call name _ args _ => Node.call name.name args.meaning
  | _, .argument sum => sum.meaning
  | _, .parameter name => name.name
  | _, .noItems => []
  | _, .someItems first others => first.meaning :: others.meaning
  | _, .lastItem => []
  | _, .nextItem _ first others => first.meaning :: others.meaning

/-- An expression has at least one token. -/
theorem tokens_ne_nil {level : Level} (d : (Phrase.expression level).Derivation) :
    d.tokens ≠ [] := by
  generalize hphrase : Phrase.expression level = phrase at d
  induction d generalizing level with
  | called inner => cases inner; simp [tokens]
  | chain first tail ihfirst => simp [tokens, ihfirst rfl]
  | integer | signed | parens | trueWord | falseWord | string | read => simp [tokens]
  | _ => cases hphrase

/-- An expression starts with a token that may start one. -/
theorem startsExpression_kind {level : Level} (d : (Phrase.expression level).Derivation)
    (after : Cursor) : startsExpression (after.before d.tokens).kind = true := by
  generalize hphrase : Phrase.expression level = phrase at d
  induction d generalizing level after with
  | signed sign arg =>
      have hsign := sign.2
      rw [tokens, Cursor.before_kind]
      revert hsign
      cases sign.1.kind <;> decide
  | called inner =>
      cases inner with
      | call name left args right => simp [tokens, name.2, startsExpression]
  | chain first tail ihfirst => simpa [tokens] using ihfirst _ rfl
  | integer token | parens token | trueWord token | falseWord token | string token | read token =>
      simp [tokens, token.2, startsExpression]
  | _ => cases hphrase

/-- No item starts with the parenthesis that closes the list. -/
theorem item_kind_ne {sort : Item} (d : (Phrase.item sort).Derivation) (after : Cursor) :
    (after.before d.tokens).kind ≠ .rightParen := by
  cases d with
  | argument sum =>
      intro hkind
      have hstarts := startsExpression_kind sum after
      rw [tokens] at hkind
      rw [hkind] at hstarts
      cases hstarts
  | parameter name => simp [tokens, name.2]

end Phrase.Derivation

/-! ### Where an expression ends -/

/-- The kinds of token that would continue an expression of a level: the operators of its rank and
of the tighter ones. -/
def Level.continues : Level → Token.Kind → Bool
  | .factor, _ => false
  | .chain .product, kind => kind.isProductOperator
  | .chain .sum, kind => kind.isSumOperator || kind.isProductOperator
  | .chain .comparison, kind =>
    kind.isComparisonOperator || kind.isSumOperator || kind.isProductOperator

/-- A chain goes on with its operators, or as its operands do. -/
theorem Level.continues_chain (rank : Rank) (kind : Token.Kind) :
    (Level.chain rank).continues kind = (rank.isOperator kind || rank.operand.continues kind) := by
  cases rank <;> simp [Level.continues, Rank.isOperator, Rank.operand, Bool.or_assoc]

/-- The tokens end in a word. -/
def EndsInWord (tokens : List Token) : Prop :=
  tokens.getLast?.map Token.kind = some .word

theorem endsInWord_append (first : List Token) {second : List Token} (hsecond : second ≠ []) :
    EndsInWord (first ++ second) ↔ EndsInWord second := by
  simp [EndsInWord, hsecond]

/-- Whether an expression that reads `tokens` is over where a token of kind `next` follows: `next`
is no operator that would continue it, and it does not make a call of a word at its end. -/
structure Level.EndsAt (level : Level) (tokens : List Token) (next : Token.Kind) : Prop where
  noOperator : level.continues next = false
  noCall : EndsInWord tokens → next ≠ .leftParen

/-- An operator of a rank ends the operand in front of it. -/
theorem Rank.endsAt_operator {rank : Rank} {kind : Token.Kind}
    (hkind : rank.isOperator kind = true) (tokens : List Token) :
    rank.operand.EndsAt tokens kind := by
  have hfacts : rank.operand.continues kind = false ∧ kind ≠ .leftParen := by
    revert hkind
    cases rank <;> cases kind <;> decide
  exact ⟨hfacts.1, fun _ => hfacts.2⟩

/-- In a chain that is over, an operand is over where the links behind it start. -/
theorem Level.EndsAt.operand {rank : Rank} (first : List Token) {operand : List Token}
    {tail : (Phrase.links rank).Derivation} {after : Cursor}
    (hends : (Level.chain rank).EndsAt (first ++ (operand ++ tail.tokens)) after.kind)
    (hoperand : operand ≠ []) :
    rank.operand.EndsAt operand (after.before tail.tokens).kind := by
  cases tail with
  | noLink =>
      have hcontinues := hends.noOperator
      rw [Level.continues_chain, Bool.or_eq_false_iff] at hcontinues
      refine ⟨hcontinues.2, fun hword => hends.noCall ?_⟩
      simpa [Phrase.Derivation.tokens, endsInWord_append _ hoperand] using hword
  | link op _ _ => exact Rank.endsAt_operator op.2 operand

/-- The rest of a chain that is over is over. -/
theorem Level.EndsAt.of_append {level : Level} (first : List Token) {second : List Token}
    {next : Token.Kind} (hends : level.EndsAt (first ++ second) next) :
    level.EndsAt second next := by
  refine ⟨hends.noOperator, fun hword => hends.noCall ?_⟩
  have hsecond : second ≠ [] := by
    rintro rfl
    cases hword
  exact (endsInWord_append first hsecond).mpr hword

/-- A comma and a closing parenthesis end any expression. -/
theorem Level.endsAt_item (level : Level) (tokens : List Token) {next : Token.Kind}
    (hnext : next = .comma ∨ next = .rightParen) : level.EndsAt tokens next := by
  have hfacts : level.continues next = false ∧ next ≠ .leftParen := by
    rcases hnext with rfl | rfl <;> rcases level with _ | _ | _ | _ <;> decide
  exact ⟨hfacts.1, fun _ => hfacts.2⟩

/-- An item in a list is over where the rest of the list starts. -/
theorem endsAt_moreItems {sort : Item} (others : (Phrase.moreItems sort).Derivation)
    {after : Cursor} (hafter : after.kind = .rightParen) :
    (after.before others.tokens).kind = .comma ∨
      (after.before others.tokens).kind = .rightParen := by
  cases others with
  | lastItem => exact Or.inr hafter
  | nextItem comma => exact Or.inl comma.2

end FlatScript.Grammar
