import FlatScript.Proofs.Lexing.Joining

/-!
# Blanks between tokens

Blanks keep two parts of a source apart: no token goes across them, whatever the first part ends
with and the second starts with.  So a source with blanks in it is read part by part, its errors and
offsets included, and how many blanks there are makes a difference to the offsets only.

The latter is stated for any two tokens that follow each other in a source.  They may touch, as a
word and a parenthesis do, and then blanks can be put between them.
-/

namespace FlatScript

/-- Of the parts at the front of one text, those with the same number of bytes are equal. -/
theorem eq_of_byteLength_eq {first second rest rest' : List Char}
    (hsame : first ++ rest = second ++ rest') (hlength : byteLength first = byteLength second) :
    first = second := by
  have hempty : ∀ part : List Char, byteLength part = 0 → part = [] := by
    intro part hpart
    by_cases hne : part = []
    · exact hne
    · have hpos := byteLength_pos hne
      omega
  rcases List.append_eq_append_iff.mp hsame with ⟨part, rfl, -⟩ | ⟨part, rfl, -⟩
  · rw [byteLength_append] at hlength
    rw [hempty part (by omega), List.append_nil]
  · rw [byteLength_append] at hlength
    rw [hempty part (by omega), List.append_nil]

namespace Reading

/-- A reading can be cut behind each of its tokens. -/
theorem split {offset offset' : Nat} {rest rest' : List Char} {left right : List Token}
    {token : Token} (hreading : Reading offset rest (left ++ token :: right) offset' rest') :
    ∃ middle, Reading offset rest (left ++ [token]) token.span.stop middle ∧
      Reading token.span.stop middle right offset' rest' := by
  generalize htokens : left ++ token :: right = tokens at hreading
  induction hreading generalizing left with
  | stop => simp at htokens
  | blank hblank _ ih =>
      obtain ⟨middle, hfirst, hsecond⟩ := ih htokens
      exact ⟨middle, .blank hblank hfirst, hsecond⟩
  | token hrule hmore ih =>
      cases left with
      | nil =>
          cases htokens
          exact ⟨_, .token hrule (.stop _ _), hmore⟩
      | cons first left =>
          cases htokens
          obtain ⟨middle, hfirst, hsecond⟩ := ih rfl
          exact ⟨middle, .token hrule hfirst, hsecond⟩

/-- At the end of a source there are no tokens. -/
theorem eq_nil_of_end {offset offset' : Nat} {rest' : List Char} {read : List Token}
    (hreading : Reading offset [] read offset' rest') : read = [] := by
  generalize hrest : ([] : List Char) = rest at hreading
  cases hreading with
  | stop => rfl
  | blank => cases hrest
  | token hrule _ => exact absurd (List.append_eq_nil_iff.mp hrest.symm).1 hrule.text_ne_nil

end Reading

/-- What has been read up to the end of a token that is followed by another is read as well if
blanks follow instead. -/
theorem reading_to_token {first rest : String} {left right : List Token} {token next : Token}
    (htokens : tokenize (first ++ rest) = .ok (left ++ token :: next :: right))
    (hstop : token.span.stop = first.utf8ByteSize) (hnext : next.kind ≠ .eof) :
    Reading 0 (first.toList ++ rest.toList) (left ++ [token]) first.utf8ByteSize rest.toList ∧
      ∀ more : List Char, (∀ c ∈ more.head?, isBlank c = true) →
        Reading 0 (first.toList ++ more) (left ++ [token]) first.utf8ByteSize more := by
  obtain ⟨body, hbody, hreading⟩ := tokenize_eq_ok_iff.mp htokens
  -- The end token is the last one, and `next` is another.
  obtain ⟨others, rfl⟩ : ∃ others, body = left ++ token :: next :: others := by
    rcases List.eq_nil_or_concat right with rfl | ⟨others, last, rfl⟩
    · have hsplit : left ++ token :: [next] = (left ++ [token]) ++ [next] := by simp
      rw [hsplit] at hbody
      obtain ⟨-, hend⟩ := List.append_inj' hbody rfl
      cases hend
      exact absurd rfl hnext
    · have hsplit : left ++ token :: next :: (others ++ [last]) =
          (left ++ token :: next :: others) ++ [last] := by simp
      rw [List.concat_eq_append, hsplit] at hbody
      obtain ⟨rfl, -⟩ := List.append_inj' hbody rfl
      exact ⟨others, rfl⟩
  obtain ⟨middle, hfirst, hsecond⟩ := hreading.split
  obtain ⟨passed, hpassed, hplace, hreplace⟩ := hfirst.exists_passed
  -- What is passed has as many bytes as the first part, so it is this part.
  rw [String.toList_append] at hpassed
  obtain rfl : first.toList = passed := by
    refine eq_of_byteLength_eq hpassed ?_
    rw [byteLength_toList]
    omega
  obtain rfl : rest.toList = middle := List.append_cancel_left hpassed
  rw [hstop, String.toList_append] at hfirst
  refine ⟨hfirst, fun more hmore => ?_⟩
  rw [hstop] at hreplace
  refine hreplace more (mayReplace_of_isBlank hmore _) fun hend => ?_
  rw [hend] at hsecond
  cases hsecond.eq_nil_of_end

/-- The pieces of shifted tokens are the same. -/
theorem map_piece_shift (distance : Nat) (tokens : List Token) :
    (tokens.map (Token.shift distance)).map Token.piece = tokens.map Token.piece := by
  rw [List.map_map]
  rfl

/-- Behind the same tokens, and any blanks, a source gives the same pieces. -/
theorem pieces_behind {first gap gap' second : String} {body tokens : List Token}
    (hgap : ∀ c ∈ gap.toList, isBlank c = true) (hgap' : ∀ c ∈ gap'.toList, isBlank c = true)
    (hreading : Reading 0 (first.toList ++ (gap.toList ++ second.toList)) body first.utf8ByteSize
      (gap.toList ++ second.toList))
    (hreading' : Reading 0 (first.toList ++ (gap'.toList ++ second.toList)) body first.utf8ByteSize
      (gap'.toList ++ second.toList))
    (htokens : tokenize (first ++ gap ++ second) = .ok tokens) :
    ∃ tokens', tokenize (first ++ gap' ++ second) = .ok tokens' ∧
      tokens'.map Token.piece = tokens.map Token.piece := by
  rw [tokenize_behind hgap hreading] at htokens
  rw [tokenize_behind hgap' hreading']
  cases hsecond : tokenize second with
  | error error =>
      rw [hsecond] at htokens
      cases htokens
  | ok more =>
      rw [hsecond] at htokens
      cases htokens
      refine ⟨_, rfl, ?_⟩
      rw [List.map_append, List.map_append, map_piece_shift, map_piece_shift]

/-- **Lexing is compositional across blanks.**  If a source has tokens and does not end inside a
string literal, then with blanks and another source behind it the whole is read as both are: it has
the tokens of the first without the end token and then those of the second, further on by the bytes
in front of it; and if the second has an error, then this is the error, as many bytes further on.

So it does not matter how many blanks there are between two tokens.  With other blanks in place of
those, or of none, the source has tokens of the same kinds and with the same payloads. -/
theorem lexing_across_blanks :
    (∀ (first gap second : String) (read : List Token), tokenize first = .ok read →
      ¬EndsInLiteral first → gap ≠ "" → (∀ c ∈ gap.toList, isBlank c = true) →
      (∀ tokens, tokenize second = .ok tokens →
        tokenize (first ++ gap ++ second) =
          .ok (read.dropLast ++ tokens.map (Token.shift (first ++ gap).utf8ByteSize))) ∧
      ∀ error, tokenize second = .error error →
        tokenize (first ++ gap ++ second) = .error (error.shift (first ++ gap).utf8ByteSize)) ∧
    ∀ (first gap gap' second : String) (left right : List Token) (token next : Token),
      tokenize (first ++ gap ++ second) = .ok (left ++ token :: next :: right) →
      token.span.stop = first.utf8ByteSize → next.kind ≠ .eof →
      (∀ c ∈ gap.toList, isBlank c = true) →
      gap' ≠ "" → (∀ c ∈ gap'.toList, isBlank c = true) →
      ∃ tokens, tokenize (first ++ gap' ++ second) = .ok tokens ∧
        tokens.map Token.piece = (left ++ token :: next :: right).map Token.piece := by
  constructor
  · intro first gap second read hread hclosed hne hgap
    obtain ⟨body, rfl, -⟩ := tokenize_eq_ok_iff.mp hread
    have hjoined : tokenize (first ++ gap ++ second) = _ := tokenize_append hread hclosed hne hgap
    refine ⟨fun tokens hsecond => ?_, fun error hsecond => ?_⟩
    · rw [hjoined, hsecond, List.dropLast_concat]
      rfl
    · rw [hjoined, hsecond]
      rfl
  · intro first gap gap' second left right token next htokens hstop hnext hgap hne hgap'
    have hwhole := htokens
    rw [String.append_assoc] at hwhole
    obtain ⟨hreading, hreplace⟩ := reading_to_token hwhole hstop hnext
    rw [String.toList_append] at hreading
    exact pieces_behind hgap hgap' hreading (hreplace _ (isBlank_head hne hgap' _)) htokens

/-- A sign at the end of one source and a sign at the start of the next stay apart, and an error in
the next is found behind the first.  A word and a sign that touch may have blanks between them. -/
theorem signs_stay_apart :
    (tokenize "é=" = .ok [⟨.word, .text "é", ⟨0, 2⟩⟩, ⟨.assign, .text "=", ⟨2, 3⟩⟩, Token.endAt 3] ∧
      ¬EndsInLiteral "é=") ∧
    tokenize ("é=" ++ "\n " ++ "=1") =
      .ok [⟨.word, .text "é", ⟨0, 2⟩⟩, ⟨.assign, .text "=", ⟨2, 3⟩⟩,
        ⟨.assign, .text "=", ⟨5, 6⟩⟩, ⟨.integer, .integer 1, ⟨6, 7⟩⟩, Token.endAt 7] ∧
    tokenize ("é=" ++ "\n " ++ "\t1") = .error ⟨.unexpectedCharacter '\t', 5⟩ ∧
    ∃ tokens, tokenize ("é" ++ "\n " ++ "=1") = .ok tokens ∧
      tokens.map Token.piece = [⟨.word, .text "é"⟩, ⟨.assign, .text "="⟩, ⟨.integer, .integer 1⟩,
        ⟨.eof, .none⟩] := by
  have hfirst : tokenize "é=" = .ok ([⟨.word, .text "é", ⟨0, 2⟩⟩, ⟨.assign, .text "=", ⟨2, 3⟩⟩] ++
      [Token.endAt 3]) := tokenize_of_toOption (by decide +kernel)
  have hclosed : ¬EndsInLiteral "é=" := by
    intro hends
    obtain ⟨read, last, hread, hlast⟩ := hends.last_kind hfirst
    have hsign := congrArg List.getLast? hread
    rw [List.getLast?_concat] at hsign
    cases hsign
    cases hlast
  have hblanks : ∀ c ∈ "\n ".toList, isBlank c = true := by
    rw [show "\n ".toList = ['\n', ' '] from rfl]
    exact List.forall_mem_cons.mpr ⟨rfl, List.forall_mem_singleton.mpr rfl⟩
  have hsecond : tokenize "=1" = .ok [⟨.assign, .text "=", ⟨0, 1⟩⟩,
      ⟨.integer, .integer 1, ⟨1, 2⟩⟩, Token.endAt 2] := tokenize_of_toOption (by decide +kernel)
  have hfault : tokenize "\t1" = .error ⟨.unexpectedCharacter '\t', 0⟩ := Lexer.tokens_of_error rfl
  have htouching : tokenize ("é" ++ "" ++ "=1") = .ok ([] ++ ⟨.word, .text "é", ⟨0, 2⟩⟩ ::
      ⟨.assign, .text "=", ⟨2, 3⟩⟩ :: [⟨.integer, .integer 1, ⟨3, 4⟩⟩, Token.endAt 4]) :=
    tokenize_of_toOption (by decide +kernel)
  obtain ⟨happend, hspaced⟩ := lexing_across_blanks
  refine ⟨⟨hfirst, hclosed⟩, ?_, ?_, ?_⟩
  · exact (happend "é=" "\n " "=1" _ hfirst hclosed (by decide) hblanks).1 _ hsecond
  · exact (happend "é=" "\n " "\t1" _ hfirst hclosed (by decide) hblanks).2 _ hfault
  · refine hspaced "é" "" "\n " "=1" _ _ _ _ htouching rfl (by decide) ?_ (by decide) hblanks
    rintro c ⟨⟩

end FlatScript
