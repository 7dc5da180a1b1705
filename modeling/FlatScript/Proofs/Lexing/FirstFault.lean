import FlatScript.Proofs.Lexing.Spacing

/-!
# The first fault of a source

A source without tokens has an error, which stands where the rules first come to a fault.  What is
in front of it is sound: cut off there, the source has the tokens that were read on the way.  The
cut changes none of them, because the fault has a character, and this is where the last of them
ended.

What stands at the fault depends on its kind.  A character that starts nothing is a fault whatever
follows it.  An integer that is too large is a whole run of digits, with no digit on either side of
it, and an invalid escape is that of a literal, which starts with its quote.
-/

namespace FlatScript

/-! ### Steps on the way -/

namespace Lexer

/-- Steps skip a blank in front of them. -/
theorem steps_blank {c : Char} (hblank : c = ' ' ∨ c = '\n') (rest : List Char)
    (offset count : Nat) :
    steps count ⟨c :: rest, offset⟩ = steps count ⟨rest, offset + c.utf8Size⟩ := by
  cases count with
  | zero => rfl
  | succ count => simp only [steps, next_blank hblank]

/-- **What a reading gives are the results of the first steps.** -/
theorem steps_of_reading {offset offset' : Nat} {rest rest' : List Char} {read : List Token}
    (hreading : Reading offset rest read offset' rest') (count : Nat) :
    steps (read.length + count) ⟨rest, offset⟩ =
      read.map .ok ++ steps count ⟨rest', offset'⟩ := by
  induction hreading with
  | stop offset rest => rw [List.length_nil, Nat.zero_add, List.map_nil, List.nil_append]
  | blank hblank _ ih => rw [steps_blank hblank, ih]
  | @token offset offset' text after rest' kind payload tokens hrule _ ih =>
      have hlength :
          (⟨kind, payload, ⟨offset, offset + byteLength text⟩⟩ :: tokens).length + count =
          tokens.length + count + 1 := by
        rw [List.length_cons]
        omega
      rw [hlength, steps, next_of_rule hrule, ih]
      rfl

/-- The first error among the steps is the error of the source. -/
theorem tokens_of_steps {lexer : Lexer} {error : LexError} (read : List Token)
    (hsteps : lexer.steps (read.length + 1) = read.map .ok ++ [.error error])
    (hread : ∀ token ∈ read, token.kind ≠ .eof) : lexer.tokens = .error error := by
  induction read generalizing lexer with
  | nil =>
      obtain ⟨hnext, -⟩ := List.cons.inj hsteps
      exact tokens_of_error hnext
  | cons token read ih =>
      obtain ⟨hnext, hmore⟩ := List.cons.inj hsteps
      obtain ⟨hkind, hread⟩ := List.forall_mem_cons.mp hread
      rw [tokens_of_token hnext hkind, ih hmore hread]
      rfl

end Lexer

/-- No token of a reading is the end token. -/
theorem Reading.kind_ne_eof {offset offset' : Nat} {rest rest' : List Char} {read : List Token}
    (hreading : Reading offset rest read offset' rest') : ∀ token ∈ read, token.kind ≠ .eof := by
  induction hreading with
  | stop offset rest =>
      intro token htoken
      cases htoken
  | blank _ _ ih => exact ih
  | token hrule _ ih => exact List.forall_mem_cons.mpr ⟨hrule.kind_ne_eof, ih⟩

/-! ### No digit in front of digits -/

/-- Digits are word characters. -/
theorem isWordChar_of_isDigit {c : Char} (hdigit : c.isDigit = true) :
    Text.isWordChar c = true := by
  have hsmall : c.toNat < 128 := by
    simp only [Char.isDigit, Bool.and_eq_true, decide_eq_true_eq] at hdigit
    exact Nat.lt_of_le_of_lt (UInt32.le_iff_toNat_le.mp hdigit.2) (by decide)
  rw [Text.isWordChar_of_lt hsmall, Char.isAlphanum, hdigit, Bool.or_true]

/-- A token in front of a digit does not end with a digit, which would have gone on. -/
theorem Lexeme.Rule.last_not_digit {text after : List Char} {piece : Token.Kind × Token.Payload}
    (hrule : Rule text after (.ok piece)) {digit : Char} (hafter : digit ∈ after.head?)
    (hdigit : digit.isDigit = true) : ∀ c ∈ text.getLast?, c.isDigit = false := by
  have hends : ∀ {isIn : Char → Bool} {run : List Char}, isIn digit = true →
      ¬IsRun isIn run after := by
    intro isIn run hin hrun
    have hout := hrun.ends digit hafter
    rw [hin] at hout
    cases hout
  cases hrule with
  | integer hrun _ => exact absurd hrun (hends hdigit)
  | keyword hrun _ _ => exact absurd hrun (hends (isWordChar_of_isDigit hdigit))
  | word hrun _ _ => exact absurd hrun (hends (isWordChar_of_isDigit hdigit))
  | symbol hkind hspelling _ =>
      rcases mem_symbols_of_spelling? hkind hspelling with ⟨c, hentry, htext⟩ | ⟨-, htext⟩
      · obtain rfl : text = [c] := String.ofList_injective htext
        intro last hlast
        cases hlast
        exact (lookup_of_mem_symbols _ hentry).2.2.2.1
      · obtain rfl : text = ['=', '='] := String.ofList_injective htext
        intro last hlast
        cases hlast
        rfl
  | @string inner body _ _ hbody _ =>
      cases hbody with
      | closed _ _ _ =>
          intro last hlast
          rw [List.getLast?_cons, List.getLast?_concat] at hlast
          cases hlast
          rfl
      | unclosed _ => cases hafter

/-- What a reading has passed over in front of a digit does not end with a digit. -/
theorem Reading.last_not_digit {offset offset' : Nat} {rest rest' : List Char} {read : List Token}
    (hreading : Reading offset rest read offset' rest') {digit : Char}
    (hrest : digit ∈ rest'.head?) (hdigit : digit.isDigit = true) {passed : List Char}
    (hpassed : rest = passed ++ rest') : ∀ c ∈ passed.getLast?, c.isDigit = false := by
  -- What is passed over is a part and then the rest of it; the last character is in one of the two.
  have hlast {first second : List Char} (hfirst : second = [] → ∀ c ∈ first.getLast?,
      c.isDigit = false) (hsecond : ∀ c ∈ second.getLast?, c.isDigit = false) :
      ∀ c ∈ (first ++ second).getLast?, c.isDigit = false := by
    intro c hc
    cases second with
    | nil =>
        rw [List.append_nil] at hc
        exact hfirst rfl c hc
    | cons x second =>
        rw [List.getLast?_append, List.getLast?_cons, Option.some_or, ← List.getLast?_cons] at hc
        exact hsecond c hc
  induction hreading generalizing passed with
  | stop offset rest =>
      obtain rfl : passed = [] := List.append_left_eq_self.mp hpassed.symm
      intro c hc
      cases hc
  | @blank offset offset' blank rest rest' tokens hblank hmore ih =>
      obtain ⟨behind, hbehind, -, -⟩ := hmore.exists_passed
      obtain rfl : passed = [blank] ++ behind := by
        rw [hbehind, ← List.singleton_append, ← List.append_assoc] at hpassed
        exact (List.append_cancel_right hpassed).symm
      refine hlast (fun _ c hc => ?_) (ih hrest hbehind)
      cases hc
      rcases hblank with rfl | rfl
      · rfl
      · rfl
  | @token offset offset' text after rest' kind payload tokens hrule hmore ih =>
      obtain ⟨behind, hbehind, -, -⟩ := hmore.exists_passed
      obtain rfl : passed = text ++ behind := by
        rw [hbehind, ← List.append_assoc] at hpassed
        exact (List.append_cancel_right hpassed).symm
      refine hlast (fun hnil => ?_) (ih hrest hbehind)
      subst hnil
      rw [List.nil_append] at hbehind
      exact hrule.last_not_digit (hbehind ▸ hrest) hdigit

/-! ### The place of the fault -/

/-- The source is cut in two where a fault is.  The rules read the first part as `read`, also if the
second is replaced by something that starts with a blank or alike; and `text`, in front of `after`,
is what the fault is about. -/
structure FaultAt (before rest : String) (error : LexError) (read : List Token)
    (text after : List Char) : Prop where
  position : before.utf8ByteSize = error.position
  rest_eq : rest.toList = text ++ after
  fault : Lexeme.Rule text after (.error error.fault)
  reads : ∀ more, MayReplace more rest.toList →
    Reading 0 (before.toList ++ more) read error.position more

/-- A source with an error is cut in two by it. -/
theorem exists_faultAt {source : String} {error : LexError}
    (herror : tokenize source = .error error) :
    ∃ before rest read text after, source = before ++ rest ∧
      FaultAt before rest error read text after := by
  obtain ⟨read, text, after, hreading, hrule⟩ := tokenize_eq_error_iff.mp herror
  obtain ⟨passed, hpassed, hplace, hreplace⟩ := hreading.exists_passed
  rw [Nat.zero_add] at hplace
  refine ⟨String.ofList passed, String.ofList (text ++ after), read, text, after, ?_, ?_, ?_, hrule,
    ?_⟩
  · rw [← String.ofList_append, ← hpassed, String.ofList_toList]
  · rw [← byteLength_eq_utf8ByteSize, hplace]
  · exact String.toList_ofList
  · intro more hmore
    rw [String.toList_ofList] at hmore ⊢
    refine hreplace more hmore fun hend => ?_
    exact absurd (List.append_eq_nil_iff.mp hend).1 hrule.text_ne_nil

namespace FaultAt

variable {before rest : String} {error : LexError} {read : List Token} {text after : List Char}

/-- There is something behind the place of a fault. -/
theorem position_lt (hfault : FaultAt before rest error read text after) :
    error.position < (before ++ rest).utf8ByteSize := by
  have hpos : 0 < byteLength rest.toList := by
    rw [hfault.rest_eq, byteLength_append]
    have htext := byteLength_pos hfault.fault.text_ne_nil
    omega
  rw [byteLength_toList] at hpos
  rw [String.utf8ByteSize_append, hfault.position]
  omega

/-- The rules read the source up to the fault. -/
theorem reading (hfault : FaultAt before rest error read text after) :
    Reading 0 (before ++ rest).toList read error.position rest.toList := by
  rw [String.toList_append]
  exact hfault.reads rest.toList fun c hc => Or.inr hc

/-- **What is in front of a fault is sound**: by itself it has the tokens that were read. -/
theorem tokenize_before (hfault : FaultAt before rest error read text after) :
    tokenize before = .ok (read ++ [Token.endAt error.position]) := by
  have hcut : Reading 0 (before.toList ++ []) read error.position [] := by
    apply hfault.reads
    intro c hc
    cases hc
  rw [List.append_nil] at hcut
  exact Lexer.tokens_of_reading_to_end hcut

/-- The steps up to a fault give these tokens, and then the error. -/
theorem steps_eq (hfault : FaultAt before rest error read text after) :
    (Lexer.ofString (before ++ rest)).steps (read.length + 1) =
      read.map .ok ++ [.error error] := by
  have hstep : Lexer.steps 1 ⟨rest.toList, error.position⟩ = [.error error] := by
    rw [Lexer.steps, hfault.rest_eq, Lexer.next_of_rule hfault.fault]
    rfl
  rw [Lexer.ofString, Lexer.steps_of_reading hfault.reading, hstep]

/-- A character that starts nothing is a fault in front of anything. -/
theorem tokenize_replaced {c : Char} (hfault : FaultAt before rest error read [c] after)
    (hother : IsOther c) (more : String) :
    tokenize (before ++ String.singleton c ++ more) = .error error := by
  obtain ⟨fault, position⟩ := error
  have hbehind : (before ++ String.singleton c ++ more).toList =
      before.toList ++ c :: more.toList := by
    rw [String.toList_append, String.toList_append, String.toList_singleton, List.append_assoc,
      List.singleton_append]
  have hsame : MayReplace (c :: more.toList) rest.toList := by
    intro first hfirst
    rw [hfault.rest_eq]
    exact Or.inr hfirst
  have hreading := hfault.reads _ hsame
  rw [← hbehind] at hreading
  have hrule := hfault.fault
  cases hrule with
  | integerTooLarge hrun _ =>
      have hdigit := hrun.mem c List.mem_cons_self
      rw [hother.not_digit] at hdigit
      cases hdigit
  | invalidEscape _ _ => exact absurd rfl hother.not_quote
  | unexpectedCharacter _ _ =>
      have hmeets : MeetsFault 0 (before ++ String.singleton c ++ more).toList
          ⟨.unexpectedCharacter c, position⟩ :=
        ⟨read, [c], more.toList, hreading, .unexpectedCharacter _ hother⟩
      exact hmeets.tokenize_eq

end FaultAt

/-- A character that starts no token and is not blank starts none in front of any text. -/
theorem IsOther.next_eq {c : Char} (hother : IsOther c) (more : String) :
    (Lexer.ofString (String.singleton c ++ more)).next.1 = .error ⟨.unexpectedCharacter c, 0⟩ := by
  have hrule : Lexeme.Rule [c] more.toList _ := .unexpectedCharacter more.toList hother
  rw [Lexer.ofString, String.toList_append, String.toList_singleton, Lexer.next_of_rule hrule]
  rfl

/-- **An error of the lexer is at the first thing that is no token, and what is before it is
sound.**  The place of the error is between two characters, in front of the last.  Up to there the
source has tokens, and these are what the steps give before they come to the error.  At the place
there is what the error tells: a character that is not blank and that no token starts with, and
which would be the same error in front of any other text; or the digits of a number of 2⁶³ or more,
all the digits that there are; or the quote of a literal. -/
theorem lex_error_at_first_fault {source : String} {error : LexError}
    (herror : tokenize source = .error error) :
    ∃ before rest : String, source = before ++ rest ∧ before.utf8ByteSize = error.position ∧
      error.position < source.utf8ByteSize ∧
      (∃ read, tokenize before = .ok (read ++ [Token.endAt error.position]) ∧
        (∀ token ∈ read, token.kind ≠ .eof) ∧
        (Lexer.ofString source).steps (read.length + 1) = read.map .ok ++ [.error error]) ∧
      (∀ c, error.fault = .unexpectedCharacter c →
        rest.toList.head? = some c ∧ c ≠ ' ' ∧ c ≠ '\n' ∧
        (∀ (more : String) (token : Token),
          (Lexer.ofString (String.singleton c ++ more)).next.1 ≠ .ok token) ∧
        ∀ more, tokenize (before ++ String.singleton c ++ more) = .error error) ∧
      (∀ digits, error.fault = .integerTooLarge digits →
        ∃ after, rest = digits ++ after ∧ IsRun Char.isDigit digits.toList after.toList ∧
          (∀ c ∈ before.toList.getLast?, c.isDigit = false) ∧
          9223372036854775808 ≤ Nat.ofDigitChars 10 digits.toList 0) ∧
      ∀ sequence, error.fault = .invalidEscape sequence → rest.toList.head? = some '"' := by
  obtain ⟨before, rest, read, text, after, rfl, hfault⟩ := exists_faultAt herror
  refine ⟨before, rest, rfl, hfault.position, hfault.position_lt,
    ⟨read, hfault.tokenize_before, hfault.reading.kind_ne_eof, hfault.steps_eq⟩, ?_, ?_, ?_⟩
  · intro c hkind
    have hrule := hfault.fault
    rw [hkind] at hrule
    cases hrule with
    | unexpectedCharacter _ hother =>
        have hblank : ¬(c = ' ' ∨ c = '\n') := by
          rw [← isBlank_iff, hother.not_blank]
          exact Bool.false_ne_true
        refine ⟨?_, fun hspace => hblank (Or.inl hspace), fun hline => hblank (Or.inr hline), ?_,
          hfault.tokenize_replaced hother⟩
        · rw [hfault.rest_eq, List.singleton_append, List.head?_cons]
        · intro more token htoken
          rw [hother.next_eq more] at htoken
          cases htoken
  · intro digits hkind
    have hrule := hfault.fault
    rw [hkind] at hrule
    cases hrule with
    | integerTooLarge hrun hvalue =>
        obtain ⟨digit, more, htext⟩ := List.exists_cons_of_ne_nil hrun.ne_nil
        have hdigit : digit.isDigit = true := hrun.mem digit (htext ▸ List.mem_cons_self)
        have hhead : digit ∈ rest.toList.head? := by
          rw [hfault.rest_eq, htext]
          rfl
        refine ⟨String.ofList after, ?_, ?_, ?_, ?_⟩
        · rw [← String.ofList_append, ← hfault.rest_eq, String.ofList_toList]
        · rwa [String.toList_ofList, String.toList_ofList]
        · exact hfault.reading.last_not_digit hhead hdigit String.toList_append
        · rw [String.toList_ofList]
          exact hvalue
  · intro sequence hkind
    have hrule := hfault.fault
    rw [hkind] at hrule
    cases hrule with
    | invalidEscape _ _ => rw [hfault.rest_eq, List.cons_append, List.head?_cons]

/-- Behind a word of one character and two bytes, a semicolon is an error whatever follows it.
Behind a word that ends with a digit, an integer that is too large is all of its digits. -/
theorem semicolon_and_large_integer_reported :
    (tokenize "é=9;x" = .error ⟨.unexpectedCharacter ';', 4⟩ ∧
      ∃ before rest : String, "é=9;x" = before ++ rest ∧ before.utf8ByteSize = 4 ∧
        rest.toList.head? = some ';' ∧
        ∀ more, tokenize (before ++ String.singleton ';' ++ more) =
          .error ⟨.unexpectedCharacter ';', 4⟩) ∧
    tokenize "x1 9223372036854775808x" = .error ⟨.integerTooLarge "9223372036854775808", 3⟩ ∧
      ∃ before rest : String, "x1 9223372036854775808x" = before ++ rest ∧
        before.utf8ByteSize = 3 ∧ ∃ after, rest = "9223372036854775808" ++ after ∧
          IsRun Char.isDigit "9223372036854775808".toList after.toList := by
  have hsemicolon : tokenize "é=9;x" = .error ⟨.unexpectedCharacter ';', 4⟩ := by
    refine Lexer.tokens_of_steps [⟨.word, .text "é", ⟨0, 2⟩⟩, ⟨.assign, .text "=", ⟨2, 3⟩⟩,
      ⟨.integer, .integer 9, ⟨3, 4⟩⟩] rfl ?_
    decide
  have hlarge : tokenize "x1 9223372036854775808x" =
      .error ⟨.integerTooLarge "9223372036854775808", 3⟩ := by
    refine Lexer.tokens_of_steps [⟨.word, .text "x1", ⟨0, 2⟩⟩] rfl ?_
    decide
  obtain ⟨before, rest, hsplit, hposition, -, -, hcharacter, -, -⟩ :=
    lex_error_at_first_fault hsemicolon
  obtain ⟨hhead, -, -, -, hreplaced⟩ := hcharacter ';' rfl
  obtain ⟨before', rest', hsplit', hposition', -, -, -, hdigits, -⟩ :=
    lex_error_at_first_fault hlarge
  obtain ⟨after, hrest, hrun, -, -⟩ := hdigits _ rfl
  exact ⟨⟨hsemicolon, before, rest, hsplit, hposition, hhead, hreplaced⟩,
    hlarge, before', rest', hsplit', hposition', after, hrest, hrun⟩

end FlatScript
