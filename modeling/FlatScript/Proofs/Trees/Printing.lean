import FlatScript.Proofs.Lexing.Spelling
import FlatScript.Proofs.Trees.WellFormed

/-!
# Printing trees

A tree is printed as pieces, with parentheses only where an operator stands below one that binds
tighter or to the right of one of its own rank.  The pieces of a well-formed tree are proper, and
tokens that are these pieces derive the tree.  `Form.Written` says both at once, of derivations and
of sequences of them, so that a production is written by writing what stands on its right-hand side.
-/

namespace FlatScript

open Grammar

namespace Piece

/-- The piece of a kind that is always written the same. -/
def fixed (kind : Token.Kind) : Piece :=
  ⟨kind, .text (kind.spelling?.getD "")⟩

/-- The piece of a name. -/
def word (name : String) : Piece :=
  ⟨.word, .text name⟩

/-- Lists of pieces with commas between them. -/
def commaSeparated : List (List Piece) → List Piece
  | [] => []
  | first :: others => first ++ others.flatMap (fixed .comma :: ·)

/-- Pieces in parentheses. -/
def inParens (pieces : List Piece) : List Piece :=
  fixed .leftParen :: (pieces ++ [fixed .rightParen])

/-- Pieces in braces. -/
def inBraces (pieces : List Piece) : List Piece :=
  fixed .leftBrace :: (pieces ++ [fixed .rightBrace])

end Piece

/-- The rank of an operator. -/
def Token.Kind.rank (op : Token.Kind) : Rank :=
  if op.isProductOperator then .product
  else if op.isSumOperator then .sum
  else .comparison

/-- How loose the operators of a level may bind. -/
def Grammar.Level.height : Grammar.Level → Nat
  | .factor => 0
  | .chain .product => 1
  | .chain .sum => 2
  | .chain .comparison => 3

mutual

/-- The pieces of a value where an expression of the given level may stand. -/
def Node.valuePieces : Node → Grammar.Level → List Piece
  | .integer value, _ => [⟨.integer, .integer value⟩]
  | .string text, _ => [⟨.string, .text text⟩]
  | .bool true, _ => [.fixed .trueWord]
  | .bool false, _ => [.fixed .falseWord]
  | .read name, _ => [.word name]
  | .unary op arg, _ => .fixed op :: arg.valuePieces .factor
  | .binary lhs op rhs, level =>
    let pieces := lhs.valuePieces (.chain op.rank) ++ .fixed op :: rhs.valuePieces op.rank.operand
    if (Grammar.Level.chain op.rank).height ≤ level.height then pieces else Piece.inParens pieces
  | .call name args, _ => .word name :: Piece.inParens (Piece.commaSeparated (argumentPieces args))
  | _, _ => []

/-- The pieces of each of several arguments. -/
def argumentPieces : List Node → List (List Piece)
  | [] => []
  | arg :: args => arg.valuePieces (.chain .sum) :: argumentPieces args

end

mutual

/-- The pieces of a tree that is no value, and of a call. -/
def Node.pieces : Node → List Piece
  | .assign name value =>
    .fixed .varWord :: .word name :: .fixed .assign :: value.valuePieces (.chain .comparison)
  | .choice first others last =>
    .fixed .ifWord ::
      (branchPieces (.chain .comparison) first ++ (otherPieces others ++ lastPieces last))
  | .declare declaration => .fixed .funcWord :: declarationPieces declaration
  | .call name args => .word name :: Piece.inParens (Piece.commaSeparated (argumentPieces args))
  | .loop condition body =>
    .fixed .whileWord :: (condition.valuePieces (.chain .comparison) ++ body.pieces)
  | .ret value => .fixed .returnWord :: value.valuePieces (.chain .comparison)
  | .block body => Piece.inBraces (statementPieces body)
  | .program body => statementPieces body
  | _ => []

/-- The pieces of several statements. -/
def statementPieces : List Node → List Piece
  | [] => []
  | node :: nodes => node.pieces ++ statementPieces nodes

/-- The pieces of a branch whose predicate is an expression of the given level. -/
def branchPieces (level : Grammar.Level) : Branch Node → List Piece
  | ⟨predicate, body⟩ => predicate.valuePieces level ++ body.pieces

/-- The pieces of the branches behind the first. -/
def otherPieces : List (Branch Node) → List Piece
  | [] => []
  | branch :: branches =>
    .fixed .elseifWord :: (branchPieces (.chain .sum) branch ++ otherPieces branches)

/-- The pieces of the last branch, which are none if it is absent. -/
def lastPieces : Branch Node → List Piece
  | ⟨_, .void⟩ => []
  | ⟨_, body⟩ => .fixed .elseWord :: body.pieces

/-- The pieces of a function declaration behind its keyword. -/
def declarationPieces : Declaration Node → List Piece
  | ⟨name, params, body⟩ =>
    .word name :: (Piece.inParens (Piece.commaSeparated (params.map ([.word ·]))) ++ body.pieces)

end

/-- The text of a program. -/
def Node.print (node : Node) : String :=
  String.ofList (Piece.spellAll node.pieces)

namespace Grammar

/-! ### Writing -/

/-- Something with a yield and a meaning. -/
structure Form (δ μ : Type) where
  tokens : δ → List Token
  meaning : δ → μ

namespace Form

/-- A phrase. -/
def phrase (phrase : Phrase) : Form phrase.Derivation phrase.Meaning :=
  ⟨Phrase.Derivation.tokens, Phrase.Derivation.meaning⟩

/-- A clause. -/
def clause (clause : Clause) : Form clause.Derivation clause.Meaning :=
  ⟨Clause.Derivation.tokens, Clause.Derivation.meaning⟩

/-- A token of a kind, without a meaning. -/
def terminal (kind : Token.Kind) : Form (Terminal kind) Unit :=
  ⟨fun token => [token.1], fun _ => ()⟩

/-- A word, which means its name. -/
def word : Form (Terminal .word) String :=
  ⟨fun token => [token.1], Terminal.name⟩

/-- One thing and then another. -/
def seq {δ ε μ ν : Type} (first : Form δ μ) (second : Form ε ν) : Form (δ × ε) (μ × ν) :=
  ⟨fun parts => first.tokens parts.1 ++ second.tokens parts.2,
    fun parts => (first.meaning parts.1, second.meaning parts.2)⟩

/-- The pieces are proper, and all tokens that are these pieces are derived with the meaning. -/
structure Written {δ μ : Type} (form : Form δ μ) (pieces : List Piece) (value : μ) : Prop where
  proper : ∀ piece ∈ pieces, piece.Proper
  derived : ∀ tokens : List Token, tokens.map Token.piece = pieces →
    ∃ d, form.tokens d = tokens ∧ form.meaning d = value

namespace Written

variable {δ ε μ ν : Type} {form : Form δ μ} {other : Form ε ν}

/-- What has no tokens is written with no pieces. -/
theorem nil {d : δ} (htokens : form.tokens d = []) : form.Written [] (form.meaning d) := by
  refine ⟨nofun, fun tokens hpieces => ⟨d, ?_, rfl⟩⟩
  rw [htokens, List.map_eq_nil_iff.mp hpieces]

/-- A single token is written with its piece. -/
theorem single {piece : Piece} {value : μ} (hproper : piece.Proper)
    (hderived : ∀ token : Token, token.piece = piece →
      ∃ d, form.tokens d = [token] ∧ form.meaning d = value) :
    form.Written [piece] value := by
  refine ⟨by simpa using hproper, fun tokens hpieces => ?_⟩
  obtain ⟨token, rfl, hpiece⟩ := List.map_eq_singleton_iff.mp hpieces
  exact hderived token hpiece

/-- A token that is always spelled in the same way is written as its kind. -/
theorem terminal (kind : Token.Kind) (hspelling : kind.spelling?.isSome = true) :
    (Form.terminal kind).Written [.fixed kind] () := by
  refine single ?_ fun token hpiece => ⟨⟨token, congrArg Piece.kind hpiece⟩, rfl, rfl⟩
  obtain ⟨text, htext⟩ := Option.isSome_iff_exists.mp hspelling
  rw [Piece.fixed, htext]
  exact .fixed htext

/-- A name is written as a word. -/
theorem word {name : String} (hname : IsName name) : Form.word.Written [.word name] name := by
  refine single (.word hname) fun token hpiece => ⟨⟨token, congrArg Piece.kind hpiece⟩, rfl, ?_⟩
  have hpayload : token.payload = .text name := congrArg Piece.payload hpiece
  simp [Form.word, Terminal.name, Token.text?, hpayload]

/-- What is written one after the other is written as a sequence. -/
theorem seq {first second : List Piece} {value : μ} {value' : ν} (hfirst : form.Written first value)
    (hsecond : other.Written second value') :
    (form.seq other).Written (first ++ second) (value, value') := by
  refine ⟨List.forall_mem_append.mpr ⟨hfirst.proper, hsecond.proper⟩, fun tokens hpieces => ?_⟩
  obtain ⟨front, back, rfl, hfront, hback⟩ := List.map_eq_append_iff.mp hpieces
  obtain ⟨d, rfl, rfl⟩ := hfirst.derived front hfront
  obtain ⟨e, rfl, rfl⟩ := hsecond.derived back hback
  exact ⟨(d, e), rfl, rfl⟩

/-- What is derived from something by a production is written like it. -/
theorem map {pieces : List Piece} {value : μ} (hwritten : form.Written pieces value) (f : δ → ε)
    (g : μ → ν) (htokens : ∀ d, other.tokens (f d) = form.tokens d)
    (hmeaning : ∀ d, other.meaning (f d) = g (form.meaning d)) :
    other.Written pieces (g value) := by
  refine ⟨hwritten.proper, fun tokens hpieces => ?_⟩
  obtain ⟨d, rfl, rfl⟩ := hwritten.derived tokens hpieces
  exact ⟨f d, htokens d, hmeaning d⟩

end Written

end Form

open Form Node

/-! ### Expressions -/

/-- Appends a link to the links of a chain. -/
def Phrase.Derivation.snoc {rank : Rank} (op : rank.Operator)
    (operand : (Phrase.expression rank.operand).Derivation) :
    (Phrase.links rank).Derivation → (Phrase.links rank).Derivation
  | .noLink => .link op operand .noLink
  | .link first inner tail => .link first inner (snoc op operand tail)

/-- The tokens of a link at the end come last. -/
theorem Phrase.Derivation.snoc_tokens {rank : Rank} (op : rank.Operator)
    (operand : (Phrase.expression rank.operand).Derivation) :
    ∀ tail : (Phrase.links rank).Derivation,
      (snoc op operand tail).tokens = tail.tokens ++ op.1 :: operand.tokens
  | .noLink => by simp [snoc, tokens]
  | .link first inner tail => by simp [snoc, tokens, snoc_tokens op operand tail]

/-- A link at the end is the outermost operation. -/
theorem Phrase.Derivation.snoc_meaning {rank : Rank} (op : rank.Operator)
    (operand : (Phrase.expression rank.operand).Derivation) :
    ∀ (tail : (Phrase.links rank).Derivation) (lhs : Node),
      (snoc op operand tail).meaning lhs = .binary (tail.meaning lhs) op.1.kind operand.meaning
  | .noLink, _ => by simp [snoc, meaning]
  | .link _ _ tail, _ => by simp [snoc, meaning, snoc_meaning op operand tail]

/-- Appends a link to a chain. -/
def Phrase.Derivation.extend {rank : Rank} (op : rank.Operator)
    (operand : (Phrase.expression rank.operand).Derivation) :
    (Phrase.expression (.chain rank)).Derivation → (Phrase.expression (.chain rank)).Derivation
  | .chain first tail => .chain first (snoc op operand tail)

theorem Phrase.Derivation.extend_tokens {rank : Rank} (op : rank.Operator)
    (operand : (Phrase.expression rank.operand).Derivation)
    (d : (Phrase.expression (.chain rank)).Derivation) :
    (extend op operand d).tokens = d.tokens ++ op.1 :: operand.tokens := by
  cases d with
  | chain first tail => simp [extend, tokens, snoc_tokens]

theorem Phrase.Derivation.extend_meaning {rank : Rank} (op : rank.Operator)
    (operand : (Phrase.expression rank.operand).Derivation)
    (d : (Phrase.expression (.chain rank)).Derivation) :
    (extend op operand d).meaning = .binary d.meaning op.1.kind operand.meaning := by
  cases d with
  | chain first tail => simp [extend, meaning, snoc_meaning]

/-- An expression of the given level is written. -/
abbrev Level.Written (level : Level) (pieces : List Piece) (node : Node) : Prop :=
  (Form.phrase (.expression level)).Written pieces node

/-- An operand is a chain without links. -/
theorem Level.Written.chain {rank : Rank} {pieces : List Piece} {node : Node}
    (hwritten : rank.operand.Written pieces node) : (Level.chain rank).Written pieces node := by
  refine hwritten.map (fun d => Phrase.Derivation.chain d .noLink) id (fun d => ?_) (fun _ => rfl)
  exact List.append_nil d.tokens

/-- A chain is one level above its operands. -/
theorem Level.height_chain (rank : Rank) :
    (Level.chain rank).height = rank.operand.height + 1 := by
  cases rank <;> rfl

/-- Levels are known by their heights. -/
theorem Level.height_inj {first second : Level} (hheight : first.height = second.height) :
    first = second := by
  revert hheight
  rcases first with _ | _ | _ | _ <;> rcases second with _ | _ | _ | _ <;> simp [Level.height]

/-- An expression may stand for one of a higher level. -/
theorem Level.Written.lift {level higher : Level} {pieces : List Piece} {node : Node}
    (hwritten : level.Written pieces node) (hle : level.height ≤ higher.height) :
    higher.Written pieces node := by
  -- One level up, an expression is a chain without links; the recursion is on the higher level.
  by_cases hsame : level.height = higher.height
  · exact Level.height_inj hsame ▸ hwritten
  · match higher with
    | .factor => exact absurd (Nat.le_zero.mp hle) hsame
    | .chain rank =>
        rw [Level.height_chain] at hle hsame
        exact (lift hwritten (by omega)).chain
termination_by higher.height
decreasing_by
  rw [Level.height_chain]
  exact Nat.lt_succ_self _

/-- A factor may stand for an expression of any level. -/
theorem Level.Written.ofFactor {pieces : List Piece} {node : Node}
    (hwritten : Level.factor.Written pieces node) (level : Level) : level.Written pieces node :=
  hwritten.lift (Nat.zero_le _)

/-- A token whose kind is an operator of the rank. -/
def Terminal.operator {kind : Token.Kind} {rank : Rank} (token : Terminal kind)
    (hkind : rank.isOperator kind = true) : rank.Operator :=
  ⟨token.1, by rw [token.2, hkind]⟩

/-- An operator with an operand behind it makes a chain longer. -/
theorem Level.Written.binary {rank : Rank} {first second : List Piece} {lhs rhs : Node}
    {op : Token.Kind} (hlhs : (Level.chain rank).Written first lhs)
    (hop : rank.isOperator op = true) (hrhs : rank.operand.Written second rhs) :
    (Level.chain rank).Written (first ++ .fixed op :: second) (.binary lhs op rhs) := by
  have hspelling : op.spelling?.isSome = true := by
    revert hop
    cases rank <;> cases op <;> decide
  have hparts := hlhs.seq ((Form.Written.terminal op hspelling).seq hrhs)
  refine hparts.map
    (fun parts => Phrase.Derivation.extend (parts.2.1.operator hop) parts.2.2 parts.1)
    (fun values => Node.binary values.1 op values.2.2) (fun parts => ?_) (fun parts => ?_)
  · exact Phrase.Derivation.extend_tokens _ _ _
  · have hmeaning := Phrase.Derivation.extend_meaning (parts.2.1.operator hop) parts.2.2 parts.1
    rwa [Terminal.operator, parts.2.1.2] at hmeaning

/-- A sum in parentheses is a factor. -/
theorem Level.Written.parens {pieces : List Piece} {node : Node}
    (hwritten : (Level.chain .sum).Written pieces node) :
    Level.factor.Written (Piece.inParens pieces) node := by
  have hparts := (Form.Written.terminal .leftParen rfl).seq
    (hwritten.seq (Form.Written.terminal .rightParen rfl))
  exact hparts.map (fun parts => .parens parts.1 parts.2.1 parts.2.2) (fun values => values.2.1)
    (fun _ => rfl) (fun _ => rfl)

/-- A factor with a sign in front of it is a factor. -/
theorem Level.Written.signed {op : Token.Kind} {pieces : List Piece} {arg : Node}
    (hop : Rank.sum.isOperator op = true) (harg : Level.factor.Written pieces arg) :
    Level.factor.Written (.fixed op :: pieces) (.unary op arg) := by
  have hspelling : op.spelling?.isSome = true := by
    revert hop
    cases op <;> decide
  refine ((Form.Written.terminal op hspelling).seq harg).map
    (fun parts => Phrase.Derivation.signed (parts.1.operator hop) parts.2)
    (fun values => Node.unary op values.2) (fun _ => rfl) (fun parts => ?_)
  have hmeaning : (Phrase.Derivation.signed (parts.1.operator hop) parts.2).meaning =
      Node.unary parts.1.1.kind parts.2.meaning := rfl
  rwa [parts.1.2] at hmeaning

/-- The items behind the first are written with a comma in front of each. -/
theorem written_moreItems (sort : Item) {print : sort.Meaning → List Piece}
    {values : List sort.Meaning}
    (hvalues : ∀ value ∈ values, (Form.phrase (.item sort)).Written (print value) value) :
    (Form.phrase (.moreItems sort)).Written
      ((values.map print).flatMap (Piece.fixed .comma :: ·)) values := by
  induction values with
  | nil => exact Form.Written.nil (d := Phrase.Derivation.lastItem) rfl
  | cons first others ih =>
      obtain ⟨hfirst, hothers⟩ := List.forall_mem_cons.mp hvalues
      have hparts := (Form.Written.terminal .comma rfl).seq (hfirst.seq (ih hothers))
      exact hparts.map (fun parts => .nextItem parts.1 parts.2.1 parts.2.2)
        (fun values => values.2.1 :: values.2.2) (fun _ => rfl) (fun _ => rfl)

/-- The items of a list are written with commas between them. -/
theorem written_items (sort : Item) {print : sort.Meaning → List Piece}
    {values : List sort.Meaning}
    (hvalues : ∀ value ∈ values, (Form.phrase (.item sort)).Written (print value) value) :
    (Form.phrase (.items sort)).Written (Piece.commaSeparated (values.map print)) values := by
  cases values with
  | nil => exact Form.Written.nil (d := Phrase.Derivation.noItems) rfl
  | cons first others =>
      obtain ⟨hfirst, hothers⟩ := List.forall_mem_cons.mp hvalues
      exact (hfirst.seq (written_moreItems sort hothers)).map
        (fun parts => .someItems parts.1 parts.2) (fun values => values.1 :: values.2)
        (fun _ => rfl) (fun _ => rfl)

theorem argumentPieces_eq_map (args : List Node) :
    argumentPieces args = args.map (Node.valuePieces · (.chain .sum)) := by
  induction args with
  | nil => rfl
  | cons arg args ih => rw [argumentPieces, ih, List.map_cons]

/-- A call is written with its name and its arguments in parentheses. -/
theorem written_call {name : String} {args : List Node} (hname : IsName name)
    (hargs : ∀ arg ∈ args, (Level.chain .sum).Written (arg.valuePieces (.chain .sum)) arg) :
    (Form.phrase .call).Written
      (.word name :: Piece.inParens (Piece.commaSeparated (argumentPieces args)))
      (.call name args) := by
  have hitem : ∀ arg ∈ args,
      (Form.phrase (.item .argument)).Written (arg.valuePieces (.chain .sum)) arg :=
    fun arg harg => (hargs arg harg).map (fun d => .argument d) id (fun _ => rfl) (fun _ => rfl)
  have hparts := (Form.Written.word hname).seq ((Form.Written.terminal .leftParen rfl).seq
    ((written_items .argument hitem).seq (Form.Written.terminal .rightParen rfl)))
  rw [argumentPieces_eq_map]
  exact hparts.map (fun parts => .call parts.1 parts.2.1 parts.2.2.1 parts.2.2.2)
    (fun values => Node.call values.1 values.2.2.1) (fun _ => rfl) (fun _ => rfl)

/-- An operator of a sum or of a product has a rank below the comparisons. -/
theorem rank_of_arithmetic {op : Token.Kind}
    (hop : op = .plus ∨ op = .minus ∨ op = .star ∨ op = .slash) :
    op.rank.isOperator op = true ∧ (Level.chain op.rank).height ≤ (Level.chain .sum).height := by
  rcases hop with rfl | rfl | rfl | rfl <;> decide

end Grammar

namespace Node

/-- **An expression is written with its pieces**, at every level. -/
theorem IsExpression.written {node : Node} (hnode : IsExpression node) (level : Grammar.Level) :
    level.Written (node.valuePieces level) node := by
  induction hnode generalizing level with
  | @integer value hvalue =>
      refine Grammar.Level.Written.ofFactor (.single (.integer hvalue) fun token hpiece => ?_) level
      exact ⟨.integer ⟨token, congrArg Piece.kind hpiece⟩ value (congrArg Piece.payload hpiece),
        rfl, rfl⟩
  | string text =>
      refine Grammar.Level.Written.ofFactor (.single (.string text) fun token hpiece => ?_) level
      have hpayload : token.payload = .text text := congrArg Piece.payload hpiece
      exact ⟨.string ⟨token, congrArg Piece.kind hpiece⟩, rfl, by
        simp [Form.phrase, Phrase.Derivation.meaning, Token.text?, hpayload]⟩
  | bool value =>
      cases value with
      | true =>
          exact Grammar.Level.Written.ofFactor ((Form.Written.terminal .trueWord rfl).map
            (fun token => .trueWord token) (fun _ => .bool true) (fun _ => rfl)
            (fun _ => rfl)) level
      | false =>
          exact Grammar.Level.Written.ofFactor ((Form.Written.terminal .falseWord rfl).map
            (fun token => .falseWord token) (fun _ => .bool false) (fun _ => rfl)
            (fun _ => rfl)) level
  | read hname =>
      exact Grammar.Level.Written.ofFactor ((Form.Written.word hname).map
        (fun token => .read token) Node.read (fun _ => rfl) (fun _ => rfl)) level
  | @unary op arg hop harg ih =>
      have hsign : Rank.sum.isOperator op = true := by
        rcases hop with rfl | rfl <;> rfl
      exact ((ih .factor).signed hsign).ofFactor level
  | @binary lhs rhs op hop hlhs hrhs ihlhs ihrhs =>
      obtain ⟨hrank, hheight⟩ := rank_of_arithmetic hop
      have hpieces := (ihlhs (.chain op.rank)).binary hrank (ihrhs op.rank.operand)
      rw [valuePieces]
      split
      · next hlevel => exact hpieces.lift hlevel
      · -- Parentheses hold sums, and this operator binds at least as tight.
        exact (hpieces.lift hheight).parens.ofFactor level
  | @call name args hname hargs ih =>
      have hcall := written_call hname fun arg harg => ih arg harg (.chain .sum)
      rw [valuePieces]
      exact Grammar.Level.Written.ofFactor (hcall.map (fun d => .called d) id (fun _ => rfl)
        (fun _ => rfl)) level

/-- A comparison is written with its pieces. -/
theorem IsComparison.written {node : Node} (hnode : IsComparison node) :
    (Grammar.Level.chain .comparison).Written (node.valuePieces (.chain .comparison)) node := by
  induction hnode with
  | expression hnode => exact hnode.written _
  | @compare lhs rhs op hlhs hop hrhs ih =>
      have hrank : op.rank = .comparison ∧ Rank.comparison.isOperator op = true := by
        rcases hop with rfl | rfl | rfl <;> exact ⟨rfl, rfl⟩
      have hpieces := ih.binary hrank.2 (hrhs.written (.chain .sum))
      rw [valuePieces, hrank.1, if_pos (Nat.le_refl _)]
      exact hpieces

end Node

/-! ### Statements -/

namespace Grammar

open Node

/-- Statements are written one after the other. -/
theorem written_statements {mode : Bool} {nodes : List Node}
    (hnodes : ∀ node ∈ nodes, (Form.clause (.statement mode)).Written node.pieces node) :
    (Form.clause (.statements mode)).Written (statementPieces nodes) nodes := by
  induction nodes with
  | nil => exact Form.Written.nil (d := Clause.Derivation.noStatement) rfl
  | cons first others ih =>
      obtain ⟨hfirst, hothers⟩ := List.forall_mem_cons.mp hnodes
      exact (hfirst.seq (ih hothers)).map (fun parts => .nextStatement parts.1 parts.2)
        (fun values => values.1 :: values.2) (fun _ => rfl) (fun _ => rfl)

/-- The branches behind the first are written with a keyword in front of each. -/
theorem written_otherBranches {branches : List (Branch Node)}
    (hpredicates : ∀ branch ∈ branches, IsExpression branch.predicate)
    (hbodies : ∀ branch ∈ branches,
      (Form.clause (.block false)).Written branch.body.pieces branch.body) :
    (Form.clause .otherBranches).Written (otherPieces branches) branches := by
  induction branches with
  | nil => exact Form.Written.nil (d := Clause.Derivation.noBranch) rfl
  | cons first others ih =>
      obtain ⟨hpredicate, hpredicates⟩ := List.forall_mem_cons.mp hpredicates
      obtain ⟨hbody, hbodies⟩ := List.forall_mem_cons.mp hbodies
      have hparts := (Form.Written.terminal .elseifWord rfl).seq
        ((hpredicate.written (.chain .sum)).seq (hbody.seq (ih hpredicates hbodies)))
      rw [otherPieces, branchPieces, List.append_assoc]
      exact hparts.map
        (fun parts => Clause.Derivation.nextBranch parts.1 parts.2.1 parts.2.2.1 parts.2.2.2)
        (fun values => Branch.mk values.2.1 values.2.2.1 :: values.2.2.2) (fun _ => rfl)
        (fun _ => rfl)

/-- The parameters of a function are written with commas between them. -/
theorem written_params {params : List String} (hparams : ∀ param ∈ params, IsName param) :
    (Form.phrase (.items .parameter)).Written
      (Piece.commaSeparated (params.map ([.word ·]))) params := by
  have hitem : ∀ param ∈ params,
      (Form.phrase (.item .parameter)).Written [.word param] param := fun param hparam =>
    (Form.Written.word (hparams param hparam)).map (fun token => .parameter token) id
      (fun _ => rfl) (fun _ => rfl)
  exact written_items .parameter hitem

end Grammar

namespace Node

/-- What it means for a tree to be written in its role.  A program is written by its statements. -/
def Role.Written : Role → Node → Prop
  | .statement mode, node => (Form.clause (.statement mode)).Written node.pieces node
  | .block mode, node => (Form.clause (.block mode)).Written node.pieces node
  | .otherwise, body =>
    (Form.clause .lastBranch).Written (lastPieces ⟨.bool true, body⟩) ⟨.bool true, body⟩
  | .program, node => ∃ body, node = .program body ∧
    (Form.clause (.statements false)).Written node.pieces body

/-- **A tree is written in its role with its pieces.** -/
theorem Fits.written {role : Role} {node : Node} (hfits : Fits role node) :
    role.Written node := by
  induction hfits with
  | assign hname hvalue =>
      have hparts := (Form.Written.terminal .varWord rfl).seq ((Form.Written.word hname).seq
        ((Form.Written.terminal .assign rfl).seq hvalue.written))
      rw [Role.Written]
      exact hparts.map
        (fun parts => Clause.Derivation.assign parts.1 parts.2.1 parts.2.2.1 parts.2.2.2)
        (fun values => Node.assign values.2.1 values.2.2.2) (fun _ => rfl) (fun _ => rfl)
  | @choice mode first last others hfirst hbody hothers hbodies hlast hotherwise ihbody ihbodies
      ihlast =>
      obtain ⟨predicate, body⟩ := first
      obtain ⟨_, otherwise⟩ := last
      obtain rfl := hlast
      have hparts := (Form.Written.terminal .ifWord rfl).seq (hfirst.written.seq
        (ihbody.seq ((written_otherBranches hothers ihbodies).seq ihlast)))
      rw [Role.Written, pieces, branchPieces, List.append_assoc]
      exact hparts.map
        (fun parts => Clause.Derivation.choice parts.1 parts.2.1 parts.2.2.1 parts.2.2.2.1
          parts.2.2.2.2)
        (fun values => Node.choice ⟨values.2.1, values.2.2.1⟩ values.2.2.2.1 values.2.2.2.2)
        (fun _ => rfl) (fun _ => rfl)
  | @declare mode declaration hname hparams hbody ihbody =>
      obtain ⟨name, params, body⟩ := declaration
      have hlist := (Form.Written.terminal .leftParen rfl).seq
        ((written_params hparams).seq (Form.Written.terminal .rightParen rfl))
      have hparts := (Form.Written.terminal .funcWord rfl).seq ((Form.Written.word hname).seq
        (hlist.seq ihbody))
      rw [Role.Written, pieces, declarationPieces]
      exact hparts.map
        (fun parts => Clause.Derivation.declare parts.1 parts.2.1 parts.2.2.1.1 parts.2.2.1.2.1
          parts.2.2.1.2.2 parts.2.2.2)
        (fun values => Node.declare ⟨values.2.1, values.2.2.1.2.1, values.2.2.2⟩)
        (fun _ => rfl) (fun _ => rfl)
  | call hcall =>
      cases hcall with
      | call hname hargs =>
          rw [Role.Written]
          exact (written_call hname fun arg harg => (hargs arg harg).written (.chain .sum)).map
            Clause.Derivation.call id (fun _ => rfl) (fun _ => rfl)
  | loop hcondition hbody ihbody =>
      have hparts := (Form.Written.terminal .whileWord rfl).seq (hcondition.written.seq ihbody)
      rw [Role.Written]
      exact hparts.map (fun parts => Clause.Derivation.loop parts.1 parts.2.1 parts.2.2)
        (fun values => Node.loop values.2.1 values.2.2) (fun _ => rfl) (fun _ => rfl)
  | ret hvalue =>
      rw [Role.Written]
      exact ((Form.Written.terminal .returnWord rfl).seq hvalue.written).map
        (fun parts => Clause.Derivation.ret parts.1 parts.2) (fun values => Node.ret values.2)
        (fun _ => rfl) (fun _ => rfl)
  | block hbody ihbody =>
      have hparts := (Form.Written.terminal .leftBrace rfl).seq
        ((written_statements ihbody).seq (Form.Written.terminal .rightBrace rfl))
      rw [Role.Written]
      exact hparts.map (fun parts => Clause.Derivation.block parts.1 parts.2.1 parts.2.2)
        (fun values => Node.block values.2.1) (fun _ => rfl) (fun _ => rfl)
  | absent => exact Form.Written.nil (d := Clause.Derivation.noElse) rfl
  | present hbody ihbody =>
      cases hbody with
      | @block _ nodes hnodes =>
          have hparts := (Form.Written.terminal .elseWord rfl).seq ihbody
          have hlast : lastPieces ⟨.bool true, .block nodes⟩ =
            .fixed .elseWord :: (Node.block nodes).pieces := rfl
          rw [Role.Written, hlast]
          refine hparts.map (fun parts => Clause.Derivation.elseBranch parts.1 parts.2)
            (fun values => Branch.mk (.bool true) values.2) (fun _ => ?_) (fun _ => ?_)
          · rfl
          · rfl
  | program hbody ihbody => exact ⟨_, rfl, written_statements ihbody⟩

end Node

end FlatScript
