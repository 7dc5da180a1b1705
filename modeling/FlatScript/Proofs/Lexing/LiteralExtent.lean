import FlatScript.Proofs.Sources.Locations

/-!
# The extent of a string literal

How far a string literal reaches is found by a scan of all that follows its opening quote.  What is
behind the literal has no influence on its text: a scan of the literal alone comes to the same.  It
sees the same character behind every backslash, since the scan never stops between a backslash and
a quote.  The extent is in bytes, which the scan adds up on its way.

A literal that is closed can have anything behind it.  One that is not closed goes to the end of the
source, and would go on with any further character.
-/

namespace FlatScript

namespace StringLiteral

/-- The scan from a byte offset on: what it collects, and the offset where it stops.  It stops
behind a quote, or where the text ends. -/
def scanFrom : Nat → List Char → List Char × Nat
  | offset, [] => ([], offset)
  | offset, '"' :: _ => ([], offset + 1)
  | offset, '\\' :: '"' :: rest =>
    let found := scanFrom (offset + 2) rest
    ('"' :: found.1, found.2)
  | offset, c :: rest =>
    let found := scanFrom (offset + c.utf8Size) rest
    (c :: found.1, found.2)

/-- The scan of the text behind an opening quote: what it collects, and how many bytes it reads. -/
def scan (text : String) : String × Nat :=
  let found := scanFrom 0 text.toList
  (String.ofList found.1, found.2)

/-- Counting bytes on the way comes to the bytes of the characters that are read. -/
theorem scanFrom_eq (offset : Nat) (text : List Char) : scanFrom offset text =
    ((scanBody text).1, offset + byteLength (text.take (scanBody text).2)) := by
  fun_induction scanFrom offset text with
  | case1 offset => rfl
  | case2 offset rest => rfl
  | case3 offset rest found ih =>
      have hsizes : '\\'.utf8Size = 1 ∧ '"'.utf8Size = 1 := ⟨rfl, rfl⟩
      replace ih : found = _ := ih
      rw [ih, scanBody, List.take_succ_cons, List.take_succ_cons, byteLength, byteLength, hsizes.1,
        hsizes.2, Nat.add_assoc, ← Nat.add_assoc 1]
  | case4 offset c rest hquote hpair found ih =>
      replace ih : found = _ := ih
      rw [ih, scanBody]
      · rw [List.take_succ_cons, byteLength, Nat.add_assoc]
      · exact hquote
      · exact hpair

/-- The scan reads as the lexer does. -/
theorem scan_eq_scanBody (text : String) : scan text =
    (String.ofList (scanBody text.toList).1,
      byteLength (text.toList.take (scanBody text.toList).2)) := by
  rw [scan, scanFrom_eq, Nat.zero_add]

/-- A text ends with a quote that is not directly behind a backslash. -/
def EndsClosed (text : String) : Prop :=
  ∃ inner : String, text = inner ++ "\"" ∧ inner.toList.getLast? ≠ some '\\'

/-- A character other than a quote may stand at the end. -/
theorem QuotesEscaped.concat {c : Char} {text : List Char} (htext : QuotesEscaped text)
    (hc : c ≠ '"') : QuotesEscaped (text ++ [c]) := by
  intro before after hsplit
  rcases List.eq_nil_or_concat after with rfl | ⟨front, last, rfl⟩
  · have hlast := congrArg List.getLast? hsplit
    simp only [List.getLast?_concat, Option.some.injEq] at hlast
    exact absurd hlast hc
  · rw [List.concat_eq_append, ← List.cons_append, ← List.append_assoc] at hsplit
    exact htext before front (List.append_inj_left' hsplit rfl)

namespace IsBody

variable {inner body after : List Char}

/-- What follows a body has no part in it. -/
theorem alone (hbody : IsBody inner body after) : IsBody inner body [] := by
  cases hbody with
  | closed after hinner hlast => exact .closed [] hinner hlast
  | unclosed hinner => exact .unclosed hinner

/-- The scan reads the body. -/
theorem scan_eq (hbody : IsBody inner body after) {text : String}
    (htext : text.toList = body ++ after) :
    scan text = (String.ofList (collect inner), byteLength body) := by
  rw [scan_eq_scanBody, htext, hbody.scanBody_eq, List.take_left]

/-- A body is closed if and only if the scan reads the same with anything behind it. -/
theorem endsClosed_iff {read : String} (hbody : IsBody inner read.toList after) :
    EndsClosed read ↔ ∀ more : String,
      scan (read ++ more) = (String.ofList (collect inner), read.utf8ByteSize) := by
  generalize hread : read.toList = body at hbody
  rw [← byteLength_toList, hread]
  cases hbody with
  | closed after hinner hlast =>
      constructor
      · intro _ more
        refine (IsBody.closed more.toList hinner hlast).scan_eq ?_
        rw [String.toList_append, hread]
      · intro _
        refine ⟨String.ofList inner, String.toList_injective ?_, ?_⟩
        · rw [hread, String.toList_append, String.toList_ofList]
          rfl
        · rwa [String.toList_ofList]
  | unclosed hinner =>
      constructor
      · rintro ⟨front, rfl, hlast⟩
        exact absurd (hinner front.toList [] (by rw [← hread, String.toList_append]; rfl)) hlast
      · intro hmore
        -- One more character would belong to the body.
        have hlonger : IsBody (inner ++ ['a']) (inner ++ ['a']) [] :=
          .unclosed (hinner.concat (by decide))
        have hscan : scan (read ++ "a") =
            (String.ofList (collect (inner ++ ['a'])), byteLength (inner ++ ['a'])) := by
          refine hlonger.scan_eq ?_
          rw [String.toList_append, hread, List.append_nil]
          rfl
        rw [hmore, byteLength_append] at hscan
        have hbytes := congrArg Prod.snd hscan
        have hpos := byteLength_pos (List.cons_ne_nil 'a' [])
        dsimp only at hbytes
        omega

/-- Reading a literal gives what reading it alone gives, and goes on behind its body. -/
theorem readAt_eq (hbody : IsBody inner body after) (offset : Nat) :
    Lexer.readAt offset '"' (body ++ after) =
      ((Lexer.readAt offset '"' body).1, ⟨after, offset + 1 + byteLength body⟩) := by
  have halone := Lexeme.read_body hbody.alone
  rw [List.append_nil] at halone
  have hsize : '"'.utf8Size = 1 := rfl
  simp only [Lexer.readAt, Lexeme.read_body hbody, halone, List.take_left, List.drop_left,
    List.take_length, byteLength, hsize, Nat.add_assoc]

end IsBody

/-- The part of a text that has as many bytes as the scan reads is the body. -/
theorem isBody_of_scan {read after : String}
    (hread : read.utf8ByteSize = (scan (read ++ after)).2) :
    ∃ inner, IsBody inner read.toList after.toList := by
  rw [scan_eq_scanBody, String.toList_append, ← byteLength_toList] at hread
  obtain ⟨inner, hbody, -, -⟩ := isBody_scanBody (read.toList ++ after.toList)
  have hsplit := List.take_append_drop (scanBody (read.toList ++ after.toList)).2
    (read.toList ++ after.toList)
  have htake := eq_of_byteLength_eq hsplit hread.symm
  rw [htake] at hbody hsplit
  rw [List.append_cancel_left hsplit] at hbody
  exact ⟨inner, hbody⟩

/-- The scan stops within the text, at a boundary between characters. -/
theorem isBoundary_scan (text : String) :
    (scan text).2 ≤ text.utf8ByteSize ∧ IsBoundary text (scan text).2 := by
  have hprefix := List.take_prefix (scanBody text.toList).2 text.toList
  rw [scan_eq_scanBody]
  refine ⟨?_, isBoundary_iff.mpr ⟨_, hprefix, rfl⟩⟩
  rw [← byteLength_toList]
  exact byteLength_le_of_prefix hprefix

/-- **The text of a literal can be found from the literal alone.**  The scan of what follows an
opening quote stops at a boundary within it.  A scan of no more than what was read comes to the
same; with anything else behind it this holds if and only if the literal is closed.  So the lexer
finds the token of the literal in the literal itself, and goes on behind it. -/
theorem literal_scans_agree (body : String) :
    (scanBody body.toList).2 ≤ body.length ∧ (scan body).2 ≤ body.utf8ByteSize ∧
      IsBoundary body (scan body).2 ∧
      ∀ read after : String, body = read ++ after → read.utf8ByteSize = (scan body).2 →
        scan read = scan body ∧
          (EndsClosed read ↔ ∀ more : String, scan (read ++ more) = scan body) ∧
          ∀ offset, Lexer.readAt offset '"' body.toList =
            ((Lexer.readAt offset '"' read.toList).1,
              ⟨after.toList, offset + 1 + (scan body).2⟩) := by
  obtain ⟨-, -, hcount, -⟩ := isBody_scanBody body.toList
  obtain ⟨hbytes, hboundary⟩ := isBoundary_scan body
  refine ⟨by rwa [String.length_toList] at hcount, hbytes, hboundary, ?_⟩
  rintro read after rfl hread
  obtain ⟨inner, hbody⟩ := isBody_of_scan hread
  have hscan := hbody.scan_eq String.toList_append
  rw [hscan]
  refine ⟨hbody.alone.scan_eq (List.append_nil _).symm, ?_, fun offset => ?_⟩
  · rw [byteLength_toList]
    exact hbody.endsClosed_iff
  · rw [String.toList_append]
    exact hbody.readAt_eq offset

/-- An escaped quote does not close a literal, and characters of several bytes count as such. -/
theorem escaped_quote_scans_agree :
    scan "é\\\"ü\"; x" = ("é\"ü", 7) ∧
      ∀ more : String, scan ("é\\\"ü\"" ++ more) = ("é\"ü", 7) := by
  have hscan : scan "é\\\"ü\"; x" = ("é\"ü", 7) := by decide +kernel
  obtain ⟨-, -, -, hagree⟩ := literal_scans_agree "é\\\"ü\"; x"
  obtain ⟨-, hclosed, -⟩ := hagree "é\\\"ü\"" "; x" (by decide +kernel) (by decide +kernel)
  refine ⟨hscan, fun more => ?_⟩
  rw [← hscan]
  exact hclosed.mp ⟨"é\\\"ü", by decide +kernel, by decide +kernel⟩ more

end StringLiteral

end FlatScript
