import FlatScript.Proofs.Grammar.Unambiguous
import FlatScript.Proofs.Parsing.Statement

/-!
# Programs and their derivations

A list of tokens that is closed by its only end token is read as a program exactly if the grammar
derives it, and the tree is the meaning of the one derivation there is.  From any place in a list of
tokens, a sum or a comparison is read exactly if the grammar derives one that is over where reading
stops.
-/

namespace FlatScript.Grammar

/-- The last token, and no other, is an end token. -/
def EndsOnce (tokens : List Token) : Prop :=
  ∃ body finish, tokens = body ++ [finish] ∧ finish.kind = .eof ∧ ∀ token ∈ body, token.kind ≠ .eof

/-- The start of a list that is closed by an end token. -/
theorem ofTokens_closed (body : List Token) {finish : Token} (hfinish : finish.kind = .eof) :
    Cursor.ofTokens (body ++ [finish]) = ⟨body, finish.span.start⟩ := by
  simp [Cursor.ofTokens, hfinish]

/-- An end token is expected where one is, whether among the tokens ahead or at their end. -/
theorem expect_eof_bind_eq_ok {α : Type} {next : Token → Parser α} {value : α}
    {start after : Cursor} (hrun : (Parser.expect .eof >>= next) start = .ok value after) :
    start.kind = .eof ∧ next start.current start.advance = .ok value after := by
  obtain ⟨token, middle, hexpect, hnext⟩ := Parser.bind_eq_ok.mp hrun
  rw [Parser.expect, Parser.get_bind] at hexpect
  split at hexpect
  · next hkind =>
      cases hexpect
      exact ⟨hkind, hnext⟩
  · cases hexpect

/-- At the end of a source the end token is taken. -/
theorem expect_eof_run {start : Cursor} (hkind : start.kind = .eof) :
    Parser.expect .eof start = .ok start.current start.advance := by
  rw [Parser.expect, Parser.get_bind, if_pos hkind]
  rfl

/-- A cursor that stands on an end token, with none among the tokens ahead, is at the end. -/
theorem ahead_eq_nil {cursor : Cursor} (hkind : cursor.kind = .eof)
    (hahead : ∀ token ∈ cursor.ahead, token.kind ≠ .eof) : cursor.ahead = [] := by
  obtain ⟨ahead, finish⟩ := cursor
  cases ahead with
  | nil => rfl
  | cons token rest => exact absurd hkind (hahead token List.mem_cons_self)

/-- A program that is read is derived by the tokens, all of them. -/
theorem ofTokens_sound {body : List Token} {finish : Token} {node : Node}
    (hfinish : finish.kind = .eof) (hbody : ∀ token ∈ body, token.kind ≠ .eof)
    (hrun : Node.ofTokens (body ++ [finish]) = .ok node) :
    ∃ d : Clause.program.Derivation, d.tokens = body ++ [finish] ∧ d.meaning = node := by
  rw [Node.ofTokens, ofTokens_closed body hfinish, Parser.readProgram,
    Parser.remaining_bind] at hrun
  split at hrun
  · next read after hread =>
      cases hrun
      obtain ⟨nodes, middle, hstatements, hrest⟩ := Parser.bind_eq_ok.mp hread
      obtain ⟨hkind, hpure⟩ := expect_eof_bind_eq_ok hrest
      obtain ⟨rfl, -⟩ := Parser.pure_eq_ok.mp hpure
      obtain ⟨d, rfl, hstart⟩ := statements_sound _ false (Nat.le_refl _) hstatements
      obtain ⟨hahead, -⟩ := Cursor.eq_before_iff.mp hstart
      -- No end token stands among the others, so the statements reach to the end of the list.
      have hmiddle : middle.ahead = [] := by
        refine ahead_eq_nil hkind fun token htoken => hbody token ?_
        rw [show body = _ from hahead]
        exact List.mem_append_right _ htoken
      refine ⟨.program d ⟨finish, hfinish⟩, ?_, rfl⟩
      rw [show body = _ from hahead, hmiddle, List.append_nil]
      rfl
  · cases hrun

/-- What the grammar derives as a program is read as one. -/
theorem ofTokens_complete (d : Clause.program.Derivation) :
    Node.ofTokens d.tokens = .ok d.meaning := by
  cases d with
  | program body finish =>
      have hstart : (⟨body.tokens, finish.1.span.start⟩ : Cursor) =
          Cursor.before ⟨[], finish.1.span.start⟩ body.tokens := by
        simp [Cursor.before]
      have hbody := statements_complete _ false body ⟨[], finish.1.span.start⟩ (Nat.le_refl _)
        (Or.inr rfl)
      have hprogram : Parser.readProgram ⟨body.tokens, finish.1.span.start⟩ =
          .ok (.program body.meaning) ⟨[], finish.1.span.start⟩ := by
        rw [Parser.readProgram, Parser.remaining_bind, Parser.program, hstart,
          Parser.bind_of_ok hbody, Parser.bind_of_ok (expect_eof_run rfl)]
        rfl
      rw [Node.ofTokens, Clause.Derivation.tokens, ofTokens_closed _ finish.2, hprogram]
      rfl

/-- Two derivations of one list of tokens as a program are equal. -/
theorem Clause.Derivation.program_unique {d e : Clause.program.Derivation}
    (htokens : d.tokens = e.tokens) : d = e := by
  have hsame : Cursor.before ⟨[], 0⟩ d.tokens = Cursor.before ⟨[], 0⟩ e.tokens := by rw [htokens]
  exact (d.unambiguous e hsame trivial trivial).1

/-- A sum is read exactly where the grammar has one. -/
theorem readSum_eq_ok_iff {start after : Cursor} {node : Node} :
    Parser.readSum start = .ok node after ↔ (Level.chain .sum).Reads start node after := by
  rw [Parser.readSum, Parser.remaining_bind]
  exact (Level.chain .sum).parser_eq_ok_iff (Nat.le_refl _)

/-- A comparison is read exactly where the grammar has one. -/
theorem readComparison_eq_ok_iff {start after : Cursor} {node : Node} :
    Parser.readComparison start = .ok node after ↔
      (Level.chain .comparison).Reads start node after := by
  rw [Parser.readComparison, Parser.remaining_bind]
  exact (Level.chain .comparison).parser_eq_ok_iff (Nat.le_refl _)

/-- **The parser accepts the grammar and builds the tree of the derivation.**  A list of tokens
whose only end token is its last one is read as a program exactly if the grammar derives it, and
its derivation, of which the tree is the meaning, is unique.  From every place, sums and comparisons
are read exactly as far as the grammar derives one that is over there, and the derivation and the
place where it is over are again unique. -/
theorem parser_accepts_exactly_grammar :
    (∀ tokens, EndsOnce tokens →
      (∀ node, Node.ofTokens tokens = .ok node ↔
        ∃ d : Clause.program.Derivation, d.tokens = tokens ∧ d.meaning = node) ∧
      ∀ d e : Clause.program.Derivation, d.tokens = tokens → e.tokens = tokens → d = e) ∧
    ∀ start : Cursor,
      (∀ node after, Parser.readSum start = .ok node after ↔
        (Level.chain .sum).Reads start node after) ∧
      (∀ node after, Parser.readComparison start = .ok node after ↔
        (Level.chain .comparison).Reads start node after) ∧
      ∀ (level : Level) (d e : (Phrase.expression level).Derivation) (after after' : Cursor),
        start = after.before d.tokens → level.EndsAt d.tokens after.kind →
        start = after'.before e.tokens → level.EndsAt e.tokens after'.kind →
        d = e ∧ after = after' := by
  refine ⟨?_, fun start => ⟨fun _ _ => readSum_eq_ok_iff, fun _ _ => readComparison_eq_ok_iff, ?_⟩⟩
  · rintro tokens ⟨body, finish, rfl, hfinish, hbody⟩
    refine ⟨fun node => ⟨ofTokens_sound hfinish hbody, ?_⟩, fun d e hd he => ?_⟩
    · rintro ⟨d, hd, rfl⟩
      rw [← hd]
      exact ofTokens_complete d
    · exact Clause.Derivation.program_unique (hd.trans he.symm)
  · intro level d e after after' hd hdends he heends
    exact d.unambiguous e (hd.symm.trans he) hdends heends

/-- An assignment that ends in a word, and a call behind it. -/
def adjacentStatements : List Token :=
  [⟨.varWord, .text "var", ⟨0, 3⟩⟩, ⟨.word, .text "x", ⟨4, 5⟩⟩, ⟨.assign, .text "=", ⟨6, 7⟩⟩,
    ⟨.word, .text "a", ⟨8, 9⟩⟩, ⟨.word, .text "f", ⟨10, 11⟩⟩, ⟨.leftParen, .text "(", ⟨11, 12⟩⟩,
    ⟨.rightParen, .text ")", ⟨12, 13⟩⟩, ⟨.eof, .none, ⟨13, 13⟩⟩]

/-- The word of the assignment and the call behind it stay apart: the program has one derivation,
and the value of the assignment is over in front of the call. -/
theorem adjacentStatements_derivation :
    EndsOnce adjacentStatements ∧
    (∃ d : Clause.program.Derivation, d.tokens = adjacentStatements ∧
      d.meaning = .program [.assign "x" (.read "a"), .call "f" []]) ∧
    (∀ d e : Clause.program.Derivation,
      d.tokens = adjacentStatements → e.tokens = adjacentStatements → d = e) ∧
    ∀ (e : (Phrase.expression .factor).Derivation) (after : Cursor),
      ⟨adjacentStatements.dropLast.drop 3, 13⟩ = after.before e.tokens →
      Level.factor.EndsAt e.tokens after.kind →
      after = ⟨adjacentStatements.dropLast.drop 4, 13⟩ := by
  have hends : EndsOnce adjacentStatements := by
    refine ⟨adjacentStatements.dropLast, ⟨.eof, .none, ⟨13, 13⟩⟩, rfl, rfl, ?_⟩
    decide
  obtain ⟨haccepts, hunique⟩ := parser_accepts_exactly_grammar.1 adjacentStatements hends
  refine ⟨hends, (haccepts _).mp rfl, hunique, fun e after hstart heends => ?_⟩
  have hread : Level.factor.EndsAt [⟨.word, .text "a", ⟨8, 9⟩⟩] Token.Kind.word :=
    ⟨rfl, fun _ => nofun⟩
  have hunique := (parser_accepts_exactly_grammar.2 _).2.2 .factor e
    (.read ⟨⟨.word, .text "a", ⟨8, 9⟩⟩, rfl⟩) after ⟨adjacentStatements.dropLast.drop 4, 13⟩
    hstart heends rfl hread
  exact hunique.2

end FlatScript.Grammar
