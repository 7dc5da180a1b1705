import FlatScript.Proofs.Eval.Coupling
import FlatScript.Proofs.Trees.Measures
import FlatScript.Proofs.Trees.RoundTrip

/-!
# Operators and their rules

An operator in a tree is any kind of token, and evaluation fails at one that it has no rule for.
The grammar lets only such operators into a tree as have a rule.  What is evaluated, though, is not
only the tree that was read last: a call goes over to a function that the frame holds, which may
have come from another source and any number of evaluations ago.

So the invariant is one of trees and of frames: all operators have rules, in the tree and in the
body of every function of the frame.  One layer of evaluation keeps it, and therefore evaluation
does, and a whole session of evaluations.
-/

namespace FlatScript

/-! ### Rules -/

namespace Token.Kind

/-- Whether the grammar has the operator between two operands. -/
def isBinary (op : Token.Kind) : Bool :=
  op.isProductOperator || op.isSumOperator || op.isComparisonOperator

theorem ofInt_ne_invalidOperator (result : Int) (other : Token.Kind) :
    Value.ofInt result ≠ .error (.invalidOperator other) := by
  unfold Value.ofInt
  split <;> exact nofun

/-- Every operator between two operands has a rule. -/
theorem applyBinary_ne_invalidOperator {op : Token.Kind} (hop : op.isBinary = true)
    (lhs rhs : Value) (other : Token.Kind) :
    op.applyBinary lhs rhs ≠ .error (.invalidOperator other) := by
  cases op with
  | plus =>
      simp only [applyBinary]
      split
      · exact ofInt_ne_invalidOperator _ other
      · exact nofun
      · exact nofun
  | minus | star =>
      simp only [applyBinary]
      split
      · exact ofInt_ne_invalidOperator _ other
      · exact nofun
  | slash =>
      simp only [applyBinary]
      split
      · split
        · exact nofun
        · intro hresult
          cases Value.ofInt64?_eq_error hresult
      · exact nofun
  | equal => exact nofun
  | less | greater =>
      simp only [applyBinary]
      split <;> exact nofun
  | _ => cases hop

/-- Every sign has a rule. -/
theorem applyUnary_ne_invalidOperator {op : Token.Kind} (hop : op.isSumOperator = true)
    (value : Value) (other : Token.Kind) :
    op.applyUnary value ≠ .error (.invalidOperator other) := by
  cases op with
  | plus =>
      simp only [applyUnary]
      split <;> exact nofun
  | minus =>
      simp only [applyUnary]
      split
      · exact ofInt_ne_invalidOperator _ other
      · exact nofun
  | _ => cases hop

end Token.Kind

namespace Node

/-- Whether a tree is no operator or one that has a rule. -/
def hasRule : Node → Bool
  | .binary _ op _ => op.isBinary
  | .unary op _ => op.isSumOperator
  | _ => true

/-- A tree that is an operator with a rule does not fail for want of one. -/
theorem Raises.ne_invalidOperator {node : Node} {error : EvalError} (hraises : node.Raises error)
    (hrule : node.hasRule = true) (op : Token.Kind) : error ≠ .invalidOperator op := by
  rintro rfl
  cases node with
  | binary lhs operator rhs =>
      obtain ⟨left, right, happly⟩ := hraises
      exact Token.Kind.applyBinary_ne_invalidOperator hrule left right op happly
  | unary operator arg =>
      obtain ⟨value, happly⟩ := hraises
      exact Token.Kind.applyUnary_ne_invalidOperator hrule value op happly
  | read name => cases hraises
  | guarded | choice | loop =>
      obtain ⟨found, hfound⟩ := hraises
      cases hfound
  | call name args =>
      rcases hraises with hundefined | ⟨reason, hhost⟩
      · cases hundefined
      · cases hhost
  | _ => exact hraises

/-! ### Evaluation -/

section Eval

variable {σ : Type}

/-- A run that does not meet an operator without a rule, in frames whose functions have none. -/
def ruled : Coupling σ σ where
  functions declaration := declaration.body.all hasRule = true
  hosts := Eq
  halts reason := ∀ op, reason ≠ .failed (.invalidOperator op)

/-- **Evaluation meets no operator without a rule**, and declares no function that has one, if the
tree has none.  The induction is on the fuel: a call goes over to the body of a function that the
frame holds, of which the coupling knows that its operators have rules. -/
theorem eval_ruled (builtins : Builtins σ) (fuel : Nat) {node : Node}
    (hnode : node.all hasRule = true) :
    ruled.Coupled (node.eval builtins fuel) (node.eval builtins fuel) := by
  induction fuel generalizing node with
  | zero => exact .halt fun _ => nofun
  | succ fuel ih =>
      obtain ⟨hrule, hparts⟩ := all_iff.mp hnode
      rw [eval, evalWith_eq_layerWith]
      refine layerWith_coupled ?_ (.refl rfl builtins) ?_ ?_ (fun _ _ _ _ => nofun) ?_
      · intro error hraises op hfailed
        cases hfailed
        exact hraises.ne_invalidOperator hrule op rfl
      · intro child hchild
        exact ih (hparts child (mem_parts_of_mem_children hchild))
      · intro declaration hdeclare
        subst hdeclare
        exact hparts declaration.body (List.mem_singleton.mpr rfl)
      · intro name args _ declaration hdeclared values
        have hbody := ih hdeclared
        refine callWith_coupled hbody ?_ ?_ ?_ values
        · exact fun _ _ hhosts => hhosts
        · exact fun _ _ hhosts => hhosts
        · exact fun _ hhalt => hhalt

/-- The frame that an evaluation leaves, however it ends, has functions with rules again. -/
theorem eval_allFunctions_hasRule {builtins : Builtins σ} {fuel : Nat} {node : Node}
    (hnode : node.all hasRule = true) {frame : Frame} {host : σ}
    (hframe : frame.AllFunctions fun declaration => declaration.body.all hasRule = true)
    {stop : Except (Halt EvalError) Value} {after : State σ}
    (heval : node.eval builtins fuel ⟨frame, host⟩ = EvalM.stopped stop after) :
    after.frame.AllFunctions (fun declaration => declaration.body.all hasRule = true) ∧
      ∀ op, stop ≠ .error (.failed (.invalidOperator op)) := by
  obtain ⟨stop', frame', left, -, hafter, -, hhalts, hrun, -⟩ :=
    eval_ruled builtins fuel hnode hframe (rfl : host = host)
  obtain ⟨rfl, rfl⟩ : stop = stop' ∧ after = ⟨frame', left⟩ :=
    EvalM.stopped_inj (heval.symm.trans hrun)
  refine ⟨hafter, fun op hstop => ?_⟩
  exact hhalts _ hstop op rfl

end Eval

/-! ### Trees of sources -/

section Checks

variable {check : Node → Bool} {node : Node}

/-- What holds of all arithmetic expressions holds everywhere in one. -/
theorem IsExpression.all (hcheck : ∀ part : Node, part.IsExpression → check part = true)
    (hnode : node.IsExpression) : node.all check = true := by
  induction hnode with
  | unary hop harg iharg =>
      exact all_iff.mpr ⟨hcheck _ (.unary hop harg), List.forall_mem_singleton.mpr iharg⟩
  | binary hop hlhs hrhs ihlhs ihrhs =>
      exact all_iff.mpr ⟨hcheck _ (.binary hop hlhs hrhs),
        List.forall_mem_cons.mpr ⟨ihlhs, List.forall_mem_singleton.mpr ihrhs⟩⟩
  | call hname hargs ihargs => exact all_iff.mpr ⟨hcheck _ (.call hname hargs), ihargs⟩
  | integer hvalue => exact all_iff.mpr ⟨hcheck _ (.integer hvalue), List.forall_mem_nil _⟩
  | string text => exact all_iff.mpr ⟨hcheck _ (.string text), List.forall_mem_nil _⟩
  | bool value => exact all_iff.mpr ⟨hcheck _ (.bool value), List.forall_mem_nil _⟩
  | read hname => exact all_iff.mpr ⟨hcheck _ (.read hname), List.forall_mem_nil _⟩

/-- What holds of all comparisons holds everywhere in one. -/
theorem IsComparison.all (hcheck : ∀ part : Node, part.IsComparison → check part = true)
    (hnode : node.IsComparison) : node.all check = true := by
  have hexpression {part : Node} (hpart : part.IsExpression) : part.all check = true :=
    hpart.all fun inner hinner => hcheck inner (.expression hinner)
  induction hnode with
  | expression hnode => exact hexpression hnode
  | compare hlhs hop hrhs ihlhs =>
      exact all_iff.mpr ⟨hcheck _ (.compare hlhs hop hrhs),
        List.forall_mem_cons.mpr ⟨ihlhs, List.forall_mem_singleton.mpr (hexpression hrhs)⟩⟩

/-- The trees that stand somewhere in a program. -/
def IsPhrase (node : Node) : Prop :=
  node.IsComparison ∨ ∃ role, Fits role node

/-- All that a well-formed program is made of passes a check that all phrases pass. -/
theorem Fits.all (hcheck : ∀ part : Node, part.IsPhrase → check part = true) {role : Role}
    (hnode : Fits role node) : node.all check = true := by
  have hcomparison {part : Node} (hpart : part.IsComparison) : part.all check = true :=
    hpart.all fun inner hinner => hcheck inner (Or.inl hinner)
  have hfits {role : Role} {part : Node} (hpart : Fits role part) : check part = true :=
    hcheck part (Or.inr ⟨role, hpart⟩)
  have hself := hfits hnode
  induction hnode with
  | assign _ hvalue | ret hvalue =>
      exact all_iff.mpr ⟨hself, List.forall_mem_singleton.mpr (hcomparison hvalue)⟩
  | choice hfirst hbody hothers hbodies hlast hotherwise ihbody ihbodies ihlast =>
      refine all_iff.mpr ⟨hself, fun part hpart => ?_⟩
      obtain ⟨branch, hbranch, hpart⟩ := List.mem_flatMap.mp hpart
      have hchecks : branch.predicate.all check = true ∧ branch.body.all check = true := by
        rcases List.mem_cons.mp hbranch with rfl | hbranch
        · rw [hlast]
          exact ⟨hcomparison (.expression (.bool true)), ihlast (hfits hotherwise)⟩
        rcases List.mem_cons.mp hbranch with rfl | hbranch
        · exact ⟨hcomparison hfirst, ihbody (hfits hbody)⟩
        · exact ⟨hcomparison (.expression (hothers branch hbranch)),
            ihbodies branch hbranch (hfits (hbodies branch hbranch))⟩
      rcases List.mem_cons.mp hpart with rfl | hpart
      · exact hchecks.1
      · rw [List.mem_singleton.mp hpart]
        exact hchecks.2
  | declare _ _ hbody ihbody =>
      exact all_iff.mpr ⟨hself, List.forall_mem_singleton.mpr (ihbody (hfits hbody))⟩
  | call hcall => exact hcomparison (.expression hcall)
  | loop hcondition hbody ihbody =>
      exact all_iff.mpr ⟨hself, List.forall_mem_cons.mpr
        ⟨hcomparison hcondition, List.forall_mem_singleton.mpr (ihbody (hfits hbody))⟩⟩
  | block hbody ihbody | program hbody ihbody =>
      exact all_iff.mpr ⟨hself, fun part hpart => ihbody part hpart (hfits (hbody part hpart))⟩
  | absent => exact all_iff.mpr ⟨hself, List.forall_mem_nil _⟩
  | present _ ihbody => exact ihbody hself

end Checks

/-- A phrase that is an operator has a rule. -/
theorem IsPhrase.hasRule {node : Node} (hnode : node.IsPhrase) : node.hasRule = true := by
  rcases hnode with hcomparison | ⟨role, hfits⟩
  · cases hcomparison with
    | compare _ hop _ => rcases hop with rfl | rfl | rfl <;> rfl
    | expression hexpression =>
        cases hexpression with
        | unary hop _ => rcases hop with rfl | rfl <;> rfl
        | binary hop _ _ => rcases hop with rfl | rfl | rfl | rfl <;> rfl
        | _ => rfl
  · cases hfits with
    | present hbody =>
        cases hbody
        rfl
    | _ => rfl

/-- The tree is read from some place among the tokens of a source, as a program or as an expression
of one of the two kinds that can be read by themselves. -/
def FromSource (node : Node) : Prop :=
  ∃ (source : String) (tokens skipped : List Token) (start after : Cursor),
    tokenize source = .ok tokens ∧ Cursor.ofTokens tokens = start.before skipped ∧
      (Parser.readProgram start = .ok node after ∨ Parser.readComparison start = .ok node after ∨
        Parser.readSum start = .ok node after)

open Grammar in
/-- What is read from a source is a program, or else a comparison or one of its operands. -/
theorem FromSource.wellFormed {node : Node} (hnode : node.FromSource) :
    node.WellFormed ∨ node.IsComparison := by
  obtain ⟨source, tokens, skipped, start, after, htokens, hstart, hread⟩ := hnode
  obtain ⟨body, finish, rfl, hfinish, hbody⟩ := Lexer.tokens_proper htokens
  have hproper : ProperTokens start.ahead := by
    rw [ofTokens_closed body hfinish] at hstart
    have hahead : body = skipped ++ start.ahead := (Cursor.eq_before_iff.mp hstart).1
    intro token htoken
    exact hbody token (hahead ▸ List.mem_append_right _ htoken)
  have hderived {tokens : List Token} {rest : Cursor} (hread : start = rest.before tokens) :
      ProperTokens tokens := by
    rw [(Cursor.eq_before_iff.mp hread).1] at hproper
    exact (properTokens_append.mp hproper).1
  rcases hread with hprogram | hcomparison | hsum
  · rw [Parser.readProgram, Parser.remaining_bind] at hprogram
    obtain ⟨nodes, middle, hstatements, hrest⟩ := Parser.bind_eq_ok.mp hprogram
    obtain ⟨-, hpure⟩ := expect_eof_bind_eq_ok hrest
    obtain ⟨rfl, -⟩ := Parser.pure_eq_ok.mp hpure
    obtain ⟨d, rfl, hd⟩ := statements_sound _ false (Nat.le_refl _) hstatements
    exact Or.inl (Fits.program (d.wellFormed (hderived hd)))
  · obtain ⟨d, rfl, hd, -⟩ := readComparison_eq_ok_iff.mp hcomparison
    exact Or.inr (d.wellFormed (hderived hd))
  · obtain ⟨d, rfl, hd, -⟩ := readSum_eq_ok_iff.mp hsum
    exact Or.inr (.expression (d.wellFormed (hderived hd)))

/-- All that is read from a source passes a check that all phrases pass. -/
theorem FromSource.all {check : Node → Bool} {node : Node}
    (hcheck : ∀ part : Node, part.IsPhrase → check part = true) (hnode : node.FromSource) :
    node.all check = true := by
  rcases hnode.wellFormed with hprogram | hcomparison
  · exact Fits.all hcheck hprogram
  · exact hcomparison.all fun part hpart => hcheck part (Or.inl hpart)

/-- What is read from a source has rules for all its operators. -/
theorem FromSource.all_hasRule {node : Node} (hnode : node.FromSource) :
    node.all hasRule = true :=
  hnode.all fun _ hpart => hpart.hasRule

/-- The tree of a script is read from the first of its tokens. -/
theorem fromSource_of_tree {source : String} {node : Node}
    (htree : Script.tree source = .ok node) : node.FromSource := by
  obtain ⟨tokens, htokens, hnode⟩ := Script.tree_eq_ok_iff.mp htree
  rw [Node.ofTokens] at hnode
  split at hnode
  · next read after hread =>
      cases hnode
      exact ⟨source, tokens, [], _, after, htokens, rfl, Or.inl hread⟩
  · cases hnode

/-- `part.Within whole`: the tree `part` stands in `whole`, be it in the body of a function. -/
inductive Within (part : Node) : Node → Prop
  | here : Within part part
  | inside {whole between : Node} (hbetween : between ∈ whole.parts)
      (hwithin : Within part between) :
      Within part whole

/-- What holds everywhere in a tree holds everywhere in its parts. -/
theorem Within.all {check : Node → Bool} {part whole : Node} (hwithin : part.Within whole)
    (hwhole : whole.all check = true) : part.all check = true := by
  induction hwithin with
  | here => exact hwhole
  | inside hbetween _ ih => exact ih ((all_iff.mp hwhole).2 _ hbetween)

end Node

/-- The function is declared somewhere in a tree that is read from a source. -/
def Declaration.FromSource (declaration : Declaration Node) : Prop :=
  ∃ whole : Node, whole.FromSource ∧ (Node.declare declaration).Within whole

/-- The operators in a function that was read from a source have rules. -/
theorem Declaration.FromSource.body_all_hasRule {declaration : Declaration Node}
    (hdeclaration : declaration.FromSource) : declaration.body.all Node.hasRule = true := by
  obtain ⟨whole, hwhole, hwithin⟩ := hdeclaration
  have hdeclare := hwithin.all hwhole.all_hasRule
  exact (Node.all_iff.mp hdeclare).2 _ (List.mem_singleton.mpr rfl)

/-! ### Sessions -/

/-- The frames that come of a frame by evaluating trees from sources in it, one after the other.
Each evaluation has builtins, fuel and a host of its own, and may end in any way. -/
inductive Session (σ : Type) (start : Frame) : Frame → Prop
  | begin : Session σ start start
  | evaluate {frame : Frame} (hbefore : Session σ start frame) {node : Node}
      (hnode : node.FromSource) {builtins : Builtins σ} {fuel : Nat} {host : σ}
      {stop : Except (Halt EvalError) Value} {after : State σ}
      (heval : node.eval builtins fuel ⟨frame, host⟩ = EvalM.stopped stop after) :
      Session σ start after.frame

/-- All functions have rules for their operators, at any time of a session. -/
theorem Session.allFunctions_hasRule {σ : Type} {start frame : Frame}
    (hsession : Session σ start frame)
    (hstart : start.AllFunctions fun declaration => declaration.body.all Node.hasRule = true) :
    frame.AllFunctions fun declaration => declaration.body.all Node.hasRule = true := by
  induction hsession with
  | begin => exact hstart
  | evaluate _ hnode heval ih =>
      exact (Node.eval_allFunctions_hasRule hnode.all_hasRule ih heval).1

/-- A script fails where it has no tree, or in the evaluation of its tree. -/
theorem Script.run_eq_error {τ : Type} [Host τ] {fuel : Nat} {source : String} {host after : τ}
    {error : Error} (hrun : Script.run fuel source host = .error (.failed error) after) :
    Script.tree source = .error error ∨
      ∃ program frame reason, error = .eval reason ∧ Script.tree source = .ok program ∧
        program.eval Builtins.standard fuel ⟨{}, host⟩ =
          .error (.failed reason) ⟨frame, after⟩ := by
  rw [Script.run] at hrun
  cases htree : Script.tree source with
  | error found =>
      rw [htree] at hrun
      cases hrun
      exact Or.inl rfl
  | ok program =>
      rw [htree] at hrun
      dsimp only at hrun
      rw [Script.runTree, Node.runFresh] at hrun
      cases heval : program.eval Builtins.standard fuel ⟨{}, host⟩ with
      | ok value state =>
          rw [heval] at hrun
          cases hrun
      | error halt state =>
          rw [heval] at hrun
          cases halt with
          | outOfFuel => cases hrun
          | failed reason =>
              cases hrun
              exact Or.inr ⟨program, state.frame, reason, rfl, rfl, heval⟩

/-- A script that fails as an evaluation has a tree whose evaluation fails. -/
theorem Script.eval_of_run_error {τ : Type} [Host τ] {fuel : Nat} {source : String} {host : τ}
    {error : EvalError} {after : τ}
    (hrun : Script.run fuel source host = .error (.failed (.eval error)) after) :
    ∃ program frame, Script.tree source = .ok program ∧
      program.eval Builtins.standard fuel ⟨{}, host⟩ = .error (.failed error) ⟨frame, after⟩ := by
  rcases Script.run_eq_error hrun with htree | ⟨program, frame, reason, hsame, htree, heval⟩
  · -- Reading does not fail with the failure of an evaluation.
    rcases Script.tree_eq_error htree with ⟨found, -, hlex⟩ | ⟨tokens, found, -, -, hparse⟩
    · cases hlex
    · cases hparse
  · cases hsame
    exact ⟨program, frame, htree, heval⟩

/-- **No source has an operator without a rule.**  In a frame whose functions come from sources, and
at any time of a session that starts with it, no tree that is read from a source fails with an
invalid operator, whatever the builtins, the fuel and the host are.  So no script does. -/
theorem source_operators_have_rules {σ : Type} {start frame : Frame}
    (hstart : start.AllFunctions Declaration.FromSource) (hsession : Session σ start frame)
    {node : Node} (hnode : node.FromSource) :
    (∀ (builtins : Builtins σ) (fuel : Nat) (host : σ) (op : Token.Kind) (after : State σ),
      node.eval builtins fuel ⟨frame, host⟩ ≠ .error (.failed (.invalidOperator op)) after) ∧
    ∀ (τ : Type) [Host τ] (fuel : Nat) (source : String) (host : τ) (op : Token.Kind) (after : τ),
      Script.run fuel source host ≠ .error (.failed (.eval (.invalidOperator op))) after := by
  have hfunctions := hsession.allFunctions_hasRule
    fun name declaration hdeclared => (hstart name declaration hdeclared).body_all_hasRule
  constructor
  · intro builtins fuel host op after hfailed
    have hstopped : node.eval builtins fuel ⟨frame, host⟩ =
        EvalM.stopped (.error (.failed (.invalidOperator op))) after := hfailed
    exact (Node.eval_allFunctions_hasRule hnode.all_hasRule hfunctions hstopped).2 op rfl
  · intro τ _ fuel source host op after hfailed
    obtain ⟨program, left, htree, hprogram⟩ := Script.eval_of_run_error hfailed
    have hrules := (Node.fromSource_of_tree htree).all_hasRule
    have hstopped : program.eval Builtins.standard fuel ⟨{}, host⟩ =
        EvalM.stopped (.error (.failed (.invalidOperator op))) ⟨left, after⟩ := hprogram
    exact (Node.eval_allFunctions_hasRule hrules Frame.allFunctions_empty hstopped).2 op rfl

/-- A function with a sign in its body. -/
def negates : Declaration Node :=
  ⟨"f", ["n"], .block [.ret (.unary .minus (.read "n"))]⟩

/-- The function is declared in one evaluation and called in the next, from an expression that is
read by itself. -/
theorem negates_called_later :
    Session Unit {} (({} : Frame).declare negates) ∧
      (Node.binary (.call "f" [.integer 1]) .less (.integer 0)).FromSource ∧
      ∀ (builtins : Builtins Unit) (fuel : Nat) (op : Token.Kind) (after : State Unit),
        (Node.binary (.call "f" [.integer 1]) .less (.integer 0)).eval builtins fuel
          ⟨({} : Frame).declare negates, ()⟩ ≠ .error (.failed (.invalidOperator op)) after := by
  have htokens : tokenize "func f(n) \x7b return -n \x7d" = .ok [⟨.funcWord, .text "func", ⟨0, 4⟩⟩,
      ⟨.word, .text "f", ⟨5, 6⟩⟩, ⟨.leftParen, .text "(", ⟨6, 7⟩⟩, ⟨.word, .text "n", ⟨7, 8⟩⟩,
      ⟨.rightParen, .text ")", ⟨8, 9⟩⟩, ⟨.leftBrace, .text "\x7b", ⟨10, 11⟩⟩,
      ⟨.returnWord, .text "return", ⟨12, 18⟩⟩, ⟨.minus, .text "-", ⟨19, 20⟩⟩,
      ⟨.word, .text "n", ⟨20, 21⟩⟩, ⟨.rightBrace, .text "\x7d", ⟨22, 23⟩⟩, Token.endAt 23] :=
    tokenize_of_toOption (by decide +kernel)
  have htokens' : tokenize "f(1) < 0" = .ok [⟨.word, .text "f", ⟨0, 1⟩⟩,
      ⟨.leftParen, .text "(", ⟨1, 2⟩⟩, ⟨.integer, .integer 1, ⟨2, 3⟩⟩,
      ⟨.rightParen, .text ")", ⟨3, 4⟩⟩, ⟨.less, .text "<", ⟨5, 6⟩⟩, ⟨.integer, .integer 0, ⟨7, 8⟩⟩,
      Token.endAt 8] :=
    tokenize_of_toOption (by decide +kernel)
  have hprogram : (Node.program [.declare negates]).FromSource :=
    Node.fromSource_of_tree (Script.tree_eq_ok_iff.mpr ⟨_, htokens, rfl⟩)
  have hnode : (Node.binary (.call "f" [.integer 1]) .less (.integer 0)).FromSource := by
    refine ⟨_, _, [], _, ⟨[], 8⟩, htokens', (Cursor.before_nil _).symm, ?_⟩
    exact Or.inr (Or.inl rfl)
  have hdeclared : (Node.program [.declare negates]).eval (∅ : Builtins Unit) 3 ⟨{}, ()⟩ =
      EvalM.stopped (.ok .none) ⟨({} : Frame).declare negates, ()⟩ := rfl
  have hsession : Session Unit {} (({} : Frame).declare negates) :=
    .evaluate .begin hprogram hdeclared
  have hrules := source_operators_have_rules Frame.allFunctions_empty hsession hnode
  exact ⟨hsession, hnode, fun builtins fuel op after => hrules.1 builtins fuel () op after⟩

end FlatScript
