import FlatScript.Proofs.Grammar.Statement
import FlatScript.Proofs.Lexing.Pieces

/-!
# Well-formed trees

One type of tree holds all that a program is made of, so most trees are no program.  Here the trees
that are one are described by what may stand where.  Comparisons stand at the top of a condition or
of an assigned or returned value only, and are compared to the left.  A return statement stands
directly in the body of a function.

`Clause.Derivation.wellFormed` is the first half of the result about them: what the grammar derives
from tokens that a source can have means a well-formed tree.
-/

namespace FlatScript

namespace Node

/-- The trees that stand for a value and contain no comparison. -/
inductive IsExpression : Node → Prop
  | integer {value : Int64} (hvalue : 0 ≤ value) : IsExpression (.integer value)
  | string (text : String) : IsExpression (.string text)
  | bool (value : Bool) : IsExpression (.bool value)
  | read {name : String} (hname : IsName name) : IsExpression (.read name)
  | unary {op : Token.Kind} {arg : Node} (hop : op = .plus ∨ op = .minus)
      (harg : IsExpression arg) : IsExpression (.unary op arg)
  | binary {lhs rhs : Node} {op : Token.Kind}
      (hop : op = .plus ∨ op = .minus ∨ op = .star ∨ op = .slash) (hlhs : IsExpression lhs)
      (hrhs : IsExpression rhs) : IsExpression (.binary lhs op rhs)
  | call {name : String} {args : List Node} (hname : IsName name)
      (hargs : ∀ arg ∈ args, IsExpression arg) : IsExpression (.call name args)

/-- The trees that stand for a value, with comparisons along their left spine. -/
inductive IsComparison : Node → Prop
  | expression {node : Node} (hnode : IsExpression node) : IsComparison node
  | compare {lhs rhs : Node} {op : Token.Kind} (hlhs : IsComparison lhs)
      (hop : op = .equal ∨ op = .less ∨ op = .greater) (hrhs : IsExpression rhs) :
      IsComparison (.binary lhs op rhs)

/-- Where a tree that is no value stands in a program. -/
inductive Role where
  /-- In a list of statements, with or without return statements. -/
  | statement (allowReturn : Bool)
  | block (allowReturn : Bool)
  /-- The body of the last branch of a choice. -/
  | otherwise
  | program

/-- The trees that may stand in a role. -/
inductive Fits : Role → Node → Prop
  | assign {mode : Bool} {name : String} {value : Node} (hname : IsName name)
      (hvalue : IsComparison value) : Fits (.statement mode) (.assign name value)
  | choice {mode : Bool} {first last : Branch Node} {others : List (Branch Node)}
      (hfirst : IsComparison first.predicate) (hbody : Fits (.block false) first.body)
      (hothers : ∀ branch ∈ others, IsExpression branch.predicate)
      (hbodies : ∀ branch ∈ others, Fits (.block false) branch.body)
      (hlast : last.predicate = .bool true) (hotherwise : Fits .otherwise last.body) :
      Fits (.statement mode) (.choice first others last)
  | declare {mode : Bool} {declaration : Declaration Node} (hname : IsName declaration.name)
      (hparams : ∀ param ∈ declaration.params, IsName param)
      (hbody : Fits (.block true) declaration.body) : Fits (.statement mode) (.declare declaration)
  | call {mode : Bool} {name : String} {args : List Node}
      (hcall : IsExpression (.call name args)) : Fits (.statement mode) (.call name args)
  | loop {mode : Bool} {condition body : Node} (hcondition : IsComparison condition)
      (hbody : Fits (.block false) body) : Fits (.statement mode) (.loop condition body)
  | ret {value : Node} (hvalue : IsComparison value) : Fits (.statement true) (.ret value)
  | block {mode : Bool} {body : List Node} (hbody : ∀ node ∈ body, Fits (.statement mode) node) :
      Fits (.block mode) (.block body)
  | absent : Fits .otherwise .void
  | present {body : Node} (hbody : Fits (.block false) body) : Fits .otherwise body
  | program {body : List Node} (hbody : ∀ node ∈ body, Fits (.statement false) node) :
      Fits .program (.program body)

/-- The trees that are programs. -/
def WellFormed (node : Node) : Prop :=
  Fits .program node

end Node

namespace Grammar

open Node

/-! ### What is derived is well-formed -/

/-- The well-formed trees of a level. -/
def Level.WellFormed : Level → Node → Prop
  | .chain .comparison => IsComparison
  | .factor | .chain .product | .chain .sum => IsExpression

/-- An expression without comparisons is well-formed at every level. -/
theorem Level.wellFormed_of_isExpression (level : Level) {node : Node} (hnode : IsExpression node) :
    level.WellFormed node := by
  rcases level with _ | _ | _ | _
  · exact hnode
  · exact hnode
  · exact hnode
  · exact .expression hnode

/-- An operand contains no comparison. -/
theorem Rank.isExpression_of_operand {rank : Rank} {node : Node}
    (hnode : rank.operand.WellFormed node) : IsExpression node := by
  cases rank <;> exact hnode

/-- A link makes a well-formed chain longer. -/
theorem Rank.wellFormed_binary {rank : Rank} {lhs rhs : Node} {op : Token.Kind}
    (hlhs : (Level.chain rank).WellFormed lhs) (hop : rank.isOperator op = true)
    (hrhs : IsExpression rhs) : (Level.chain rank).WellFormed (.binary lhs op rhs) := by
  cases rank with
  | product =>
      refine .binary ?_ hlhs hrhs
      revert hop
      cases op <;> decide
  | sum =>
      refine .binary ?_ hlhs hrhs
      revert hop
      cases op <;> decide
  | comparison =>
      refine .compare hlhs ?_ hrhs
      revert hop
      cases op <;> decide

/-- Well-formed items. -/
def Item.WellFormed : (sort : Item) → sort.Meaning → Prop
  | .argument => IsExpression
  | .parameter => IsName

/-- The well-formed meanings of a phrase. -/
def Phrase.WellFormed : (phrase : Phrase) → phrase.Meaning → Prop
  | .expression level => level.WellFormed
  | .links rank => fun extend =>
    ∀ lhs, (Level.chain rank).WellFormed lhs → (Level.chain rank).WellFormed (extend lhs)
  | .call => fun node => ∃ name args, node = .call name args ∧ IsExpression node
  | .item sort => sort.WellFormed
  | .items sort | .moreItems sort => fun values => ∀ value ∈ values, sort.WellFormed value

/-- The tokens can stand in a source. -/
def ProperTokens (tokens : List Token) : Prop :=
  ∀ token ∈ tokens, token.piece.Proper

theorem properTokens_cons {token : Token} {tokens : List Token} :
    ProperTokens (token :: tokens) ↔ token.piece.Proper ∧ ProperTokens tokens :=
  List.forall_mem_cons

/-- Tokens in a row are proper if both parts are. -/
theorem properTokens_append {first second : List Token} :
    ProperTokens (first ++ second) ↔ ProperTokens first ∧ ProperTokens second :=
  List.forall_mem_append

/-- A proper word has a name for its text. -/
theorem Terminal.isName {word : Terminal .word} (hproper : word.1.piece.Proper) :
    IsName word.name :=
  hproper.isName word.2

/-- **A phrase of proper tokens means something well-formed.** -/
theorem Phrase.Derivation.wellFormed {phrase : Phrase} (d : phrase.Derivation)
    (hproper : ProperTokens d.tokens) : phrase.WellFormed d.meaning := by
  induction d with
  | integer token value hvalue =>
      exact .integer ((properTokens_cons.mp hproper).1.nonneg hvalue)
  | signed sign arg ih =>
      refine .unary ?_ (ih (properTokens_cons.mp hproper).2)
      have hsign := sign.2
      revert hsign
      cases sign.1.kind <;> decide
  | parens left inner right ih =>
      exact ih (properTokens_append.mp (properTokens_cons.mp hproper).2).1
  | trueWord token => exact .bool true
  | falseWord token => exact .bool false
  | string token => exact .string _
  | called inner ih =>
      obtain ⟨name, args, -, hcall⟩ := ih hproper
      exact hcall
  | read name => exact .read (Terminal.isName (properTokens_cons.mp hproper).1)
  | chain first tail ihfirst ihtail =>
      obtain ⟨hfirst, htail⟩ := properTokens_append.mp hproper
      have hexpression := Rank.isExpression_of_operand (ihfirst hfirst)
      exact ihtail htail _ (Level.wellFormed_of_isExpression _ hexpression)
  | noLink =>
      intro lhs hlhs
      exact hlhs
  | link op operand tail ihoperand ihtail =>
      obtain ⟨hoperand, htail⟩ := properTokens_append.mp (properTokens_cons.mp hproper).2
      intro lhs hlhs
      have hrhs := Rank.isExpression_of_operand (ihoperand hoperand)
      exact ihtail htail _ (Rank.wellFormed_binary hlhs op.2 hrhs)
  | call name left args right ih =>
      obtain ⟨hname, hrest⟩ := properTokens_cons.mp hproper
      obtain ⟨-, hargs⟩ := properTokens_cons.mp hrest
      have hargs := ih (properTokens_append.mp hargs).1
      exact ⟨_, _, rfl, .call (Terminal.isName hname) hargs⟩
  | argument sum ih => exact ih hproper
  | parameter name => exact Terminal.isName (properTokens_cons.mp hproper).1
  | noItems => exact nofun
  | someItems first others ihfirst ihothers =>
      obtain ⟨hfirst, hothers⟩ := properTokens_append.mp hproper
      exact List.forall_mem_cons.mpr ⟨ihfirst hfirst, ihothers hothers⟩
  | lastItem => exact nofun
  | nextItem comma first others ihfirst ihothers =>
      obtain ⟨hfirst, hothers⟩ := properTokens_append.mp (properTokens_cons.mp hproper).2
      exact List.forall_mem_cons.mpr ⟨ihfirst hfirst, ihothers hothers⟩

/-- The well-formed meanings of a clause. -/
def Clause.WellFormed : (clause : Clause) → clause.Meaning → Prop
  | .statement mode => Fits (.statement mode)
  | .statements mode => fun nodes => ∀ node ∈ nodes, Fits (.statement mode) node
  | .block mode => Fits (.block mode)
  | .otherBranches => fun branches => ∀ branch ∈ branches,
    IsExpression branch.predicate ∧ Fits (.block false) branch.body
  | .lastBranch => fun branch => branch.predicate = .bool true ∧ Fits .otherwise branch.body
  | .program => Node.WellFormed

/-- **A clause of proper tokens means something well-formed.** -/
theorem Clause.Derivation.wellFormed {clause : Clause} (d : clause.Derivation)
    (hproper : ProperTokens d.tokens) : clause.WellFormed d.meaning := by
  induction d with
  | assign varWord name sign value =>
      obtain ⟨-, hrest⟩ := properTokens_cons.mp hproper
      obtain ⟨hname, hrest⟩ := properTokens_cons.mp hrest
      obtain ⟨-, hvalue⟩ := properTokens_cons.mp hrest
      exact .assign (Terminal.isName hname) (value.wellFormed hvalue)
  | choice ifWord predicate body others last ihbody ihothers ihlast =>
      obtain ⟨-, hrest⟩ := properTokens_cons.mp hproper
      obtain ⟨hpredicate, hrest⟩ := properTokens_append.mp hrest
      obtain ⟨hbody, hrest⟩ := properTokens_append.mp hrest
      obtain ⟨hothers, hlast⟩ := properTokens_append.mp hrest
      have hbranches := ihothers hothers
      obtain ⟨htrue, hotherwise⟩ := ihlast hlast
      exact .choice (predicate.wellFormed hpredicate) (ihbody hbody)
        (fun branch hbranch => (hbranches branch hbranch).1)
        (fun branch hbranch => (hbranches branch hbranch).2) htrue hotherwise
  | declare funcWord name left params right body ihbody =>
      obtain ⟨-, hrest⟩ := properTokens_cons.mp hproper
      obtain ⟨hname, hrest⟩ := properTokens_cons.mp hrest
      obtain ⟨hlist, hbody⟩ := properTokens_append.mp hrest
      obtain ⟨-, hinside⟩ := properTokens_cons.mp hlist
      obtain ⟨hparams, -⟩ := properTokens_append.mp hinside
      exact .declare (Terminal.isName hname) (params.wellFormed hparams) (ihbody hbody)
  | call inner =>
      obtain ⟨name, args, hcall, hexpression⟩ := inner.wellFormed hproper
      rw [Clause.Derivation.meaning, hcall]
      exact .call (hcall ▸ hexpression)
  | loop whileWord condition body ihbody =>
      obtain ⟨-, hrest⟩ := properTokens_cons.mp hproper
      obtain ⟨hcondition, hbody⟩ := properTokens_append.mp hrest
      exact .loop (condition.wellFormed hcondition) (ihbody hbody)
  | ret returnWord value => exact .ret (value.wellFormed (properTokens_cons.mp hproper).2)
  | noStatement => exact nofun
  | nextStatement first others ihfirst ihothers =>
      obtain ⟨hfirst, hothers⟩ := properTokens_append.mp hproper
      exact List.forall_mem_cons.mpr ⟨ihfirst hfirst, ihothers hothers⟩
  | block left body right ihbody =>
      exact .block (ihbody (properTokens_append.mp (properTokens_cons.mp hproper).2).1)
  | noBranch => exact nofun
  | nextBranch elseifWord predicate body others ihbody ihothers =>
      obtain ⟨-, hrest⟩ := properTokens_cons.mp hproper
      obtain ⟨hpredicate, hrest⟩ := properTokens_append.mp hrest
      obtain ⟨hbody, hothers⟩ := properTokens_append.mp hrest
      exact List.forall_mem_cons.mpr
        ⟨⟨predicate.wellFormed hpredicate, ihbody hbody⟩, ihothers hothers⟩
  | noElse => exact ⟨rfl, .absent⟩
  | elseBranch elseWord body ihbody =>
      exact ⟨rfl, .present (ihbody (properTokens_cons.mp hproper).2)⟩
  | program body finish ihbody => exact .program (ihbody (properTokens_append.mp hproper).1)

end Grammar

end FlatScript
