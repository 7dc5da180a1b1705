import FlatScript.Proofs.Lexing.Rules

/-!
# The lexer covers its source

A lexer that is asked again and again, over errors and all, goes through the whole source: what the
tokens and errors cover lies in order and apart, only spaces and newlines are left between, and
behind the last of them there are end tokens without end.

A `Tile` is a token or error with the text that it covers.  `Tiling` cuts a text into gaps and tiles
by the rules; what the lexer does step by step, and what bytes are covered, is read off it by
induction.
-/

namespace FlatScript

/-- A token or an error, the text that it covers, and the bytes of this text in the source. -/
structure Tile where
  text : List Char
  span : Token.Span
  result : Except LexError Token

namespace Tile

/-- What the token or error of a tile has to do with the text of the tile, and with what comes after
this text.  An error about a literal covers the literal to its end. -/
def Tells (tile : Tile) (after : List Char) : Prop :=
  match tile.result with
  | .ok token =>
    token.kind ≠ .eof ∧ token.span = tile.span ∧
      (token.kind ≠ .integer → token.kind ≠ .string →
        token.payload = .text (String.ofList tile.text))
  | .error ⟨.unexpectedCharacter c, position⟩ =>
    position = tile.span.start ∧ tile.text = [c]
  | .error ⟨.integerTooLarge digits, position⟩ =>
    position = tile.span.start ∧ String.ofList tile.text = digits ∧
      IsRun Char.isDigit tile.text after
  | .error ⟨.invalidEscape _, position⟩ =>
    position = tile.span.start ∧
      ∃ inner body, tile.text = '"' :: body ∧ StringLiteral.IsBody inner body after

/-- A tile has its place in a source: it covers whole characters, at least one, and its span is
where these are. -/
structure Lies (tile : Tile) (source : List Char) : Prop where
  nonempty : tile.span.start < tile.span.stop
  place : ∃ before after, source = before ++ (tile.text ++ after) ∧
    tile.span.start = byteLength before ∧
    tile.span.stop = byteLength before + byteLength tile.text ∧ tile.Tells after

/-- The bytes that a tile covers. -/
def Has (tile : Tile) (byte : Nat) : Prop :=
  tile.span.start ≤ byte ∧ byte < tile.span.stop

/-- The tile of a reading that starts at the given offset. -/
def ofReading (start : Nat) (text : List Char)
    (reading : Except LexFault (Token.Kind × Token.Payload)) : Tile :=
  let span := ⟨start, start + byteLength text⟩
  ⟨text, span, Lexer.located span reading⟩

end Tile

/-- No rule gives the end token, and only integers and strings carry something else than their
text. -/
theorem Lexeme.Rule.tells {text after : List Char}
    {reading : Except LexFault (Token.Kind × Token.Payload)}
    (hrule : Lexeme.Rule text after reading) (start : Nat) :
    (Tile.ofReading start text reading).Tells after := by
  cases hrule with
  | integer hrun hvalue => exact ⟨nofun, rfl, fun hkind => absurd rfl hkind⟩
  | integerTooLarge hrun hvalue => exact ⟨rfl, rfl, hrun⟩
  | keyword hrun hkind hspelling =>
      exact ⟨(Lexeme.Rule.keyword hrun hkind hspelling).kind_ne_eof, rfl, fun _ _ => rfl⟩
  | word hrun hstart hname => exact ⟨nofun, rfl, fun _ _ => rfl⟩
  | symbol hkind hspelling halone =>
      exact ⟨(Lexeme.Rule.symbol hkind hspelling halone).kind_ne_eof, rfl, fun _ _ => rfl⟩
  | string hbody hdecode => exact ⟨nofun, rfl, fun _ hkind => absurd rfl hkind⟩
  | invalidEscape hbody hdecode => exact ⟨rfl, _, _, rfl, hbody⟩
  | unexpectedCharacter after hother => exact ⟨rfl, rfl⟩

/-- The tiles of a text that starts at the given offset: blanks, then a tile, and so on, with blanks
at the end. -/
inductive Tiling : Nat → List Char → List Tile → Prop
  | blanks {offset : Nat} {gap : List Char} (hgap : ∀ c ∈ gap, isBlank c = true) :
      Tiling offset gap []
  | tile {offset : Nat} {gap text after : List Char} {tiles : List Tile}
      {reading : Except LexFault (Token.Kind × Token.Payload)}
      (hgap : ∀ c ∈ gap, isBlank c = true) (hrule : Lexeme.Rule text after reading)
      (hmore : Tiling (offset + byteLength gap + byteLength text) after tiles) :
      Tiling offset (gap ++ (text ++ after))
        (Tile.ofReading (offset + byteLength gap) text reading :: tiles)

namespace Tiling

/-- Every text has tiles. -/
theorem exists_tiles (rest : List Char) (offset : Nat) : ∃ tiles, Tiling offset rest tiles := by
  induction rest using Lexer.rule_induction generalizing offset with
  | blanks gap hgap => exact ⟨[], .blanks hgap⟩
  | rule gap text after reading hgap hrule ih =>
      obtain ⟨tiles, hmore⟩ := ih (offset + byteLength gap + byteLength text)
      exact ⟨_, .tile hgap hrule hmore⟩

variable {offset : Nat} {rest : List Char} {tiles : List Tile}

/-- Each tile takes a character at least. -/
theorem length_le (htiling : Tiling offset rest tiles) : tiles.length ≤ rest.length := by
  induction htiling with
  | blanks hgap => exact Nat.zero_le _
  | tile hgap hrule hmore ih =>
      have hpos := List.length_pos_iff.mpr hrule.text_ne_nil
      rw [List.length_cons, List.length_append, List.length_append]
      omega

/-- At the end of the source, all steps give the end token. -/
theorem steps_blanks {gap : List Char} (hgap : ∀ c ∈ gap, isBlank c = true) (offset count : Nat) :
    Lexer.steps count ⟨gap, offset⟩ =
      List.replicate count (.ok (Token.endAt (offset + byteLength gap))) := by
  induction count generalizing gap offset with
  | zero => rfl
  | succ count ih =>
      have hnone : ∀ c ∈ ([] : List Char), isBlank c = true := nofun
      have hrest := ih hnone (offset + byteLength gap)
      rw [Lexer.steps, Lexer.next_blanks hgap, List.replicate_succ]
      exact congrArg _ hrest

/-- **The steps of the lexer give the tiles**, and then end tokens. -/
theorem steps_eq (htiling : Tiling offset rest tiles) (count : Nat) :
    Lexer.steps count ⟨rest, offset⟩ = (tiles.map Tile.result).take count ++
      List.replicate (count - tiles.length) (.ok (Token.endAt (offset + byteLength rest))) := by
  induction htiling generalizing count with
  | blanks hgap => simpa using steps_blanks hgap _ count
  | @tile offset gap text after tiles reading hgap hrule hmore ih =>
      cases count with
      | zero => simp [Lexer.steps]
      | succ count =>
          have hend : offset + byteLength (gap ++ (text ++ after)) =
              offset + byteLength gap + byteLength text + byteLength after := by
            rw [byteLength_append, byteLength_append]
            omega
          have hcount : count + 1 - (tiles.length + 1) = count - tiles.length := by omega
          rw [Lexer.steps, Lexer.next_rule hgap hrule, List.map_cons, List.take_succ_cons,
            List.cons_append, List.length_cons, hcount, hend]
          exact congrArg _ (ih count)

/-- All tiles start behind the offset. -/
theorem start_ge (htiling : Tiling offset rest tiles) :
    ∀ tile ∈ tiles, offset ≤ tile.span.start := by
  induction htiling with
  | blanks hgap => exact nofun
  | @tile offset gap text after tiles reading hgap hrule hmore ih =>
      refine List.forall_mem_cons.mpr ⟨Nat.le_add_right _ _, fun tile htile => ?_⟩
      have hstart := ih tile htile
      omega

/-- The tiles are in order and apart from each other. -/
theorem pairwise (htiling : Tiling offset rest tiles) :
    tiles.Pairwise fun earlier later => earlier.span.stop ≤ later.span.start := by
  induction htiling with
  | blanks hgap => exact .nil
  | tile hgap hrule hmore ih => exact .cons hmore.start_ge ih

/-- The tiles lie in the source. -/
theorem lies (htiling : Tiling offset rest tiles) {before : List Char}
    (hoffset : byteLength before = offset) : ∀ tile ∈ tiles, tile.Lies (before ++ rest) := by
  induction htiling generalizing before with
  | blanks hgap => exact nofun
  | @tile offset gap text after tiles reading hgap hrule hmore ih =>
      subst hoffset
      refine List.forall_mem_cons.mpr ⟨?_, fun tile htile => ?_⟩
      · refine ⟨Nat.lt_add_of_pos_right (byteLength_pos hrule.text_ne_nil),
          before ++ gap, after, (List.append_assoc _ _ _).symm, ?_, ?_, hrule.tells _⟩
        · exact (byteLength_append before gap).symm
        · rw [byteLength_append]
          rfl
      · have hbefore : byteLength (before ++ (gap ++ text)) =
            byteLength before + byteLength gap + byteLength text := by
          rw [byteLength_append, byteLength_append, Nat.add_assoc]
        have hlies := ih hbefore tile htile
        rw [List.append_assoc, List.append_assoc] at hlies
        exact hlies

/-- A character of two texts in a row is one of the first or one of the second. -/
theorem append_eq_append_cons {first second before after : List Char} {c : Char}
    (hsplit : first ++ second = before ++ c :: after) :
    (∃ more, first = before ++ c :: more) ∨
      ∃ more, before = first ++ more ∧ second = more ++ c :: after := by
  rcases List.append_eq_append_iff.mp hsplit with ⟨more, hbefore, hsecond⟩ | ⟨more, hfirst, hrest⟩
  · exact Or.inr ⟨more, hbefore, hsecond⟩
  · cases more with
    | nil =>
        rw [List.append_nil] at hfirst
        exact Or.inr ⟨[], by rw [hfirst, List.append_nil], hrest.symm⟩
    | cons x more =>
        cases hrest
        exact Or.inl ⟨more, hfirst⟩

/-- **What no tile covers is blank.** -/
theorem blank_of_uncovered (htiling : Tiling offset rest tiles) {before after : List Char}
    {c : Char} (hsplit : rest = before ++ c :: after) {byte : Nat}
    (hfrom : offset + byteLength before ≤ byte)
    (hto : byte < offset + byteLength before + c.utf8Size)
    (huncovered : ∀ tile ∈ tiles, ¬tile.Has byte) : isBlank c = true := by
  induction htiling generalizing before with
  | blanks hgap => exact hgap c (by simp [hsplit])
  | @tile offset gap text behind tiles reading hgap hrule hmore ih =>
      obtain ⟨hhere, hothers⟩ := List.forall_mem_cons.mp huncovered
      -- The character is in the gap, in the text of the tile, or behind the tile.
      rcases append_eq_append_cons hsplit with ⟨more, hingap⟩ | ⟨inside, rfl, hrest⟩
      · exact hgap c (by simp [hingap])
      · rw [byteLength_append] at hfrom hto
        rcases append_eq_append_cons hrest with ⟨more, rfl⟩ | ⟨behindText, rfl, hbehind⟩
        · refine absurd ⟨?_, ?_⟩ hhere
          · show offset + byteLength gap ≤ byte
            omega
          · show byte < offset + byteLength gap + byteLength (inside ++ c :: more)
            rw [byteLength_append, byteLength]
            omega
        · rw [byteLength_append] at hfrom hto
          exact ih hbehind (by omega) (by omega) hothers

end Tiling

/-- **The lexer covers its source.**  Asking for tokens again and again gives tiles, no more of them
than the source has characters, and then the end token at the end of the source for ever.  Each tile
covers some whole characters; the tiles are in order and apart; and each byte outside of them is
that of a space or a newline. -/
theorem Lexer.steps_tile_source (source : String) :
    ∃ tiles : List Tile,
      tiles.length ≤ source.length ∧
      (∀ count, (Lexer.ofString source).steps count = (tiles.map Tile.result).take count ++
        List.replicate (count - tiles.length) (.ok (Token.endAt source.utf8ByteSize))) ∧
      (∀ tile ∈ tiles, tile.Lies source.toList) ∧
      (tiles.Pairwise fun earlier later => earlier.span.stop ≤ later.span.start) ∧
      ∀ (before after : List Char) (c : Char), source.toList = before ++ c :: after →
        ∀ byte, byteLength before ≤ byte → byte < byteLength before + c.utf8Size →
          (∀ tile ∈ tiles, ¬tile.Has byte) → c = ' ' ∨ c = '\n' := by
  obtain ⟨tiles, htiling⟩ := Tiling.exists_tiles source.toList 0
  refine ⟨tiles, ?_, ?_, ?_, htiling.pairwise, ?_⟩
  · have hlength := htiling.length_le
    rwa [String.length_toList] at hlength
  · intro count
    have hsteps := htiling.steps_eq count
    rwa [Nat.zero_add, byteLength_toList] at hsteps
  · have hstart : byteLength [] = 0 := rfl
    exact htiling.lies hstart
  · intro before after c hsplit byte hfrom hto huncovered
    have hblank : isBlank c = true :=
      htiling.blank_of_uncovered hsplit (by omega) (by omega) huncovered
    exact isBlank_iff.mp hblank

end FlatScript
