import FlatScript.Proofs.Parsing.Program
import FlatScript.Proofs.Trees.Printing
import FlatScript.Script

/-!
# The trees that sources have

A source is cut into tokens and read as a program.  The trees that come out are the well-formed
ones, no more and no fewer, and printing a well-formed tree gives a source that is read as that tree
again.
-/

namespace FlatScript

open Grammar

/-- Where the lexer fails there is no tree, and the error is the one of the lexer. -/
theorem Script.tree_of_lexError {source : String} {error : LexError}
    (htokens : tokenize source = .error error) : Script.tree source = .error (.lex error) := by
  rw [Script.tree, Script.tokens, htokens]
  rfl

/-- Where the lexer succeeds, the tree is the one of its tokens. -/
theorem Script.tree_of_tokens {source : String} {tokens : List Token}
    (htokens : tokenize source = .ok tokens) :
    Script.tree source = (Node.ofTokens tokens).mapError .parse := by
  rw [Script.tree, Script.tokens, htokens]
  rfl

/-- A script has a tree if it is cut into tokens that are read as the tree. -/
theorem Script.tree_eq_ok_iff {source : String} {node : Node} :
    Script.tree source = .ok node ↔
      ∃ tokens, tokenize source = .ok tokens ∧ Node.ofTokens tokens = .ok node := by
  cases htokens : tokenize source with
  | error error => simp [Script.tree_of_lexError htokens]
  | ok tokens =>
      rw [Script.tree_of_tokens htokens]
      constructor
      · intro htree
        cases hnode : Node.ofTokens tokens with
        | error error =>
            rw [hnode] at htree
            cases htree
        | ok built =>
            rw [hnode] at htree
            cases htree
            exact ⟨tokens, rfl, hnode⟩
      · rintro ⟨_, ⟨⟩, hnode⟩
        rw [hnode]
        rfl

/-- A script without a tree has an error in its text or in its tokens. -/
theorem Script.tree_eq_error {source : String} {error : Error}
    (htree : Script.tree source = .error error) :
    (∃ found, tokenize source = .error found ∧ error = .lex found) ∨
      ∃ tokens found, tokenize source = .ok tokens ∧ Node.ofTokens tokens = .error found ∧
        error = .parse found := by
  cases htokens : tokenize source with
  | error found =>
      rw [Script.tree_of_lexError htokens] at htree
      cases htree
      exact Or.inl ⟨found, rfl, rfl⟩
  | ok tokens =>
      rw [Script.tree_of_tokens htokens] at htree
      cases hnode : Node.ofTokens tokens with
      | error found =>
          rw [hnode] at htree
          cases htree
          exact Or.inr ⟨tokens, found, rfl, hnode, rfl⟩
      | ok node =>
          rw [hnode] at htree
          cases htree

/-- The tree of a script is derived by its tokens, all but the end token. -/
theorem Script.derivation_of_tree {source : String} {node : Node}
    (htree : Script.tree source = .ok node) :
    ∃ (body : (Clause.statements false).Derivation) (finish : Terminal .eof),
      tokenize source = .ok (body.tokens ++ [finish.1]) ∧ ProperTokens body.tokens ∧
        node = .program body.meaning := by
  obtain ⟨tokens, htokens, hnode⟩ := Script.tree_eq_ok_iff.mp htree
  obtain ⟨body, finish, rfl, hfinish, hproper⟩ := Lexer.tokens_proper htokens
  have hbody : ∀ token ∈ body, token.kind ≠ .eof :=
    fun token htoken => (hproper token htoken).kind_ne_eof
  obtain ⟨d, hd, rfl⟩ := ofTokens_sound hfinish hbody hnode
  cases d with
  | program statements closing =>
      obtain ⟨rfl, -⟩ := List.append_inj' hd rfl
      exact ⟨statements, ⟨finish, hfinish⟩, htokens, hproper, rfl⟩

/-- The tree of a script is well-formed. -/
theorem Script.tree_wellFormed {source : String} {node : Node}
    (htree : Script.tree source = .ok node) : node.WellFormed := by
  obtain ⟨body, finish, -, hproper, rfl⟩ := Script.derivation_of_tree htree
  exact .program (body.wellFormed hproper)

/-- A well-formed tree is the tree of its text. -/
theorem Script.tree_print {node : Node} (hnode : node.WellFormed) :
    Script.tree node.print = .ok node := by
  obtain ⟨nodes, rfl, hwritten⟩ := hnode.written
  obtain ⟨body, finish, htokens, hpieces, hfinish⟩ := Lexer.tokens_spellAll hwritten.proper 0
  obtain ⟨d, rfl, rfl⟩ := hwritten.derived body hpieces
  refine Script.tree_eq_ok_iff.mpr ⟨d.tokens ++ [finish], ?_, ?_⟩
  · rw [tokenize, Lexer.ofString, Node.print, String.toList_ofList]
    exact htokens
  · exact ofTokens_complete (.program d ⟨finish, hfinish⟩)

/-- **Sources have the well-formed trees, and printing is inverted by reading.** -/
theorem readable_iff_wellFormed :
    (∀ node, (∃ source, Script.tree source = .ok node) ↔ node.WellFormed) ∧
    ∀ node : Node, node.WellFormed → Script.tree node.print = .ok node := by
  refine ⟨fun node => ⟨?_, fun hnode => ⟨node.print, Script.tree_print hnode⟩⟩,
    fun node hnode => Script.tree_print hnode⟩
  rintro ⟨source, htree⟩
  exact Script.tree_wellFormed htree

/-- A function whose body groups to the right, and a choice that compares with a text of a quote and
a backslash. -/
def printedProgram : Node :=
  .program
    [.declare ⟨"f", ["x"], .block
        [.ret (.binary
          (.binary (.integer 1) .minus (.binary (.integer 2) .minus (.read "x"))) .less
          (.unary .minus (.integer 3)))]⟩,
      .choice ⟨.binary (.read "a") .equal (.string "\"\\"), .block []⟩
        [⟨.call "f" [.integer 4, .bool true], .block [.assign "a" (.read "x")]⟩] Branch.absent]

theorem tree_print_printedProgram :
    printedProgram.print =
      " func f ( x ) \x7b return 1 - ( 2 - x ) < - 3 \x7d if a == \"\\\"\\x5c\" \x7b \x7d" ++
        " elseif f ( 4 , true ) \x7b var a = x \x7d" ∧
    printedProgram.WellFormed ∧ Script.tree printedProgram.print = .ok printedProgram := by
  have ha : IsName "a" := ⟨⟨'a', rfl, rfl⟩, List.all_eq_true.mp (by decide), by decide⟩
  have hf : IsName "f" := ⟨⟨'f', rfl, rfl⟩, List.all_eq_true.mp (by decide), by decide⟩
  have hx : IsName "x" := ⟨⟨'x', rfl, rfl⟩, List.all_eq_true.mp (by decide), by decide⟩
  have hbody : Node.Fits (.statement true) (.ret (.binary
      (.binary (.integer 1) .minus (.binary (.integer 2) .minus (.read "x"))) .less
      (.unary .minus (.integer 3)))) := by
    refine .ret (.compare (.expression (.binary (by decide) (.integer (by decide))
      (.binary (by decide) (.integer (by decide)) (.read hx)))) (by decide) ?_)
    exact .unary (by decide) (.integer (by decide))
  have hcall : Node.IsExpression (.call "f" [.integer 4, .bool true]) := by
    refine .call hf ?_
    simpa using ⟨.integer (by decide), .bool true⟩
  have hassign : Node.Fits (.block false) (.block [.assign "a" (.read "x")]) :=
    .block (List.forall_mem_singleton.mpr (.assign ha (.expression (.read hx))))
  have hprogram : printedProgram.WellFormed := by
    refine .program (List.forall_mem_cons.mpr ⟨?_, List.forall_mem_singleton.mpr ?_⟩)
    · exact .declare hf (List.forall_mem_singleton.mpr hx)
        (.block (List.forall_mem_singleton.mpr hbody))
    · exact .choice (.compare (.expression (.read ha)) (by decide) (.string _)) (.block nofun)
        (List.forall_mem_singleton.mpr hcall) (List.forall_mem_singleton.mpr hassign) rfl .absent
  exact ⟨by decide, hprogram, readable_iff_wellFormed.2 _ hprogram⟩

end FlatScript
