import FlatScript.Proofs.Lexing.LiteralBody
import FlatScript.Proofs.Lexing.Pieces

/-!
# The rules of the tokens

What a token is can be said without saying how it is found: by the text that it covers and by what
may come after this text.  A run of digits or of word characters goes on for as long as it can, an
equals sign stands alone only if no other one follows, and a string literal ends with the first
quote that is not directly behind a backslash.  What is read by no rule is a fault.

`Lexeme.Rule` states these rules.  `Lexeme.read` follows them: whatever it reads is read by a rule
(`Lexeme.rule_read`), and whatever a rule gives is what it reads (`Lexeme.Rule.read_eq`).  So the
rules leave no choice.
-/

namespace FlatScript

/-! ### Runs -/

/-- A run of characters of a class that goes on for as long as it can. -/
structure IsRun (isIn : Char → Bool) (run after : List Char) : Prop where
  ne_nil : run ≠ []
  mem : ∀ c ∈ run, isIn c = true
  ends : ∀ c ∈ after.head?, isIn c = false

/-- The characters of a class at the front of a text are a run. -/
theorem isRun_takeWhile {isIn : Char → Bool} {c : Char} (hc : isIn c = true) (rest : List Char) :
    IsRun isIn (c :: rest.takeWhile isIn) (rest.dropWhile isIn) where
  ne_nil := nofun
  mem := List.forall_mem_cons.mpr ⟨hc, List.all_eq_true.mp List.all_takeWhile⟩
  ends := by
    intro x hx
    have hstop := List.head?_dropWhile_not isIn rest
    rw [Option.mem_def.mp hx] at hstop
    simpa using hstop

theorem take_length_takeWhile (isIn : Char → Bool) (text : List Char) :
    text.take (text.takeWhile isIn).length = text.takeWhile isIn :=
  (List.prefix_iff_eq_take.mp (List.takeWhile_prefix isIn)).symm

theorem drop_length_takeWhile (isIn : Char → Bool) (text : List Char) :
    text.drop (text.takeWhile isIn).length = text.dropWhile isIn := by
  calc text.drop (text.takeWhile isIn).length
      = (text.takeWhile isIn ++ text.dropWhile isIn).drop (text.takeWhile isIn).length := by
        rw [List.takeWhile_append_dropWhile]
    _ = text.dropWhile isIn := List.drop_left

/-- A run is what is taken of a text while characters are in the class. -/
theorem IsRun.takeWhile_eq {isIn : Char → Bool} {c : Char} {more after : List Char}
    (hrun : IsRun isIn (c :: more) after) : (more ++ after).takeWhile isIn = more := by
  obtain ⟨-, hmore⟩ := List.forall_mem_cons.mp hrun.mem
  rw [List.takeWhile_append_of_pos hmore]
  cases after with
  | nil => rw [List.takeWhile_nil, List.append_nil]
  | cons x after =>
      have hx : isIn x = false := hrun.ends x rfl
      rw [List.takeWhile_cons_of_neg (by simp [hx]), List.append_nil]

/-- What is in the class of a run, at the front of the run and of what follows, is no longer than
the run. -/
theorem IsRun.length_le {isIn : Char → Bool} {run after piece : List Char}
    (hrun : IsRun isIn run after) (hfront : piece <+: run ++ after)
    (hpiece : ∀ c ∈ piece, isIn c = true) : piece.length ≤ run.length := by
  rw [← Nat.not_lt]
  intro hlonger
  obtain ⟨beyond, rfl⟩ :=
    List.prefix_of_prefix_length_le (List.prefix_append run after) hfront (Nat.le_of_lt hlonger)
  have hbeyond : beyond <+: after := (List.prefix_append_right_inj run).mp hfront
  cases beyond with
  | nil => simp at hlonger
  | cons c beyond =>
      obtain ⟨rest, rfl⟩ := hbeyond
      have hin : isIn c = true := hpiece c (by simp)
      rw [hrun.ends c rfl] at hin
      cases hin

/-! ### The rules -/

/-- The kinds of the words that have a meaning of their own. -/
def Token.Kind.isKeyword : Token.Kind → Bool
  | .varWord | .trueWord | .falseWord | .ifWord | .elseifWord | .elseWord | .whileWord | .funcWord
  | .returnWord => true
  | _ => false

/-- Blanks are spaces and newlines. -/
theorem isBlank_iff {c : Char} : isBlank c = true ↔ c = ' ' ∨ c = '\n' := by
  rw [isBlank, Bool.or_eq_true, beq_iff_eq, beq_iff_eq]

/-- A character that starts no token and is not blank. -/
structure IsOther (c : Char) : Prop where
  not_digit : c.isDigit = false
  not_word : Text.isWordChar c = false
  not_quote : c ≠ '"'
  not_symbol : c ∉ ['+', '-', '/', '*', '(', ')', '=', '\x7b', '\x7d', ',', '<', '>']
  not_blank : isBlank c = false

namespace Lexeme

open StringLiteral

/-- `Rule text after reading`: by the rules, `text` in front of `after` is the token that `reading`
gives, or it is the fault. -/
inductive Rule : (text after : List Char) → Except LexFault (Token.Kind × Token.Payload) → Prop
  | integer {digits after : List Char} (hrun : IsRun Char.isDigit digits after)
      (hvalue : Nat.ofDigitChars 10 digits 0 ≤ 9223372036854775807) :
      Rule digits after
        (.ok (.integer, .integer (Int64.ofNat (Nat.ofDigitChars 10 digits 0))))
  | integerTooLarge {digits after : List Char} (hrun : IsRun Char.isDigit digits after)
      (hvalue : 9223372036854775807 < Nat.ofDigitChars 10 digits 0) :
      Rule digits after (.error (.integerTooLarge (String.ofList digits)))
  | keyword {kind : Token.Kind} {text after : List Char} (hrun : IsRun Text.isWordChar text after)
      (hkind : kind.isKeyword = true) (hspelling : kind.spelling? = some (String.ofList text)) :
      Rule text after (.ok (kind, .text (String.ofList text)))
  | word {text after : List Char} (hrun : IsRun Text.isWordChar text after)
      (hstart : ∃ c ∈ text.head?, c.isDigit = false)
      (hname : ∀ kind : Token.Kind, kind.isKeyword = true →
        kind.spelling? ≠ some (String.ofList text)) :
      Rule text after (.ok (.word, .text (String.ofList text)))
  | symbol {kind : Token.Kind} {text after : List Char} (hkind : kind.isKeyword = false)
      (hspelling : kind.spelling? = some (String.ofList text))
      (halone : kind = .assign → after.head? ≠ some '=') :
      Rule text after (.ok (kind, .text (String.ofList text)))
  | string {inner body after decoded : List Char} (hbody : IsBody inner body after)
      (hdecode : decode (collect inner) = .ok decoded) :
      Rule ('"' :: body) after (.ok (.string, .text (String.ofList decoded)))
  | invalidEscape {inner body after sequence : List Char} (hbody : IsBody inner body after)
      (hdecode : decode (collect inner) = .error sequence) :
      Rule ('"' :: body) after (.error (.invalidEscape (String.ofList sequence)))
  | unexpectedCharacter {c : Char} (after : List Char) (hother : IsOther c) :
      Rule [c] after (.error (.unexpectedCharacter c))

/-! ### The tables -/

/-- The keywords are looked up as themselves, and are runs of word characters that start like
names. -/
theorem lookup_of_mem_keywords : ∀ entry ∈ keywords, keywords.lookup entry.1 = some entry.2 ∧
    entry.2.isKeyword = true ∧ (entry.1.toList.head?.any fun c => !c.isDigit) = true ∧
    entry.1.toList.all Text.isWordChar = true := by
  decide

/-- The symbols of one character are looked up as themselves and start nothing else. -/
theorem lookup_of_mem_symbols : ∀ entry ∈ symbols, symbols.lookup entry.1 = some entry.2 ∧
    entry.2.isKeyword = false ∧ (entry.2 = .assign ↔ entry.1 = '=') ∧ entry.1.isDigit = false ∧
    Text.isWordStart entry.1 = false ∧ entry.1 ≠ '"' ∧ isBlank entry.1 = false := by
  decide

/-- A keyword is in the table with its spelling. -/
theorem mem_keywords_of_spelling? {kind : Token.Kind} {text : String}
    (hkind : kind.isKeyword = true) (hspelling : kind.spelling? = some text) :
    (text, kind) ∈ keywords := by
  cases kind <;> cases hkind <;> cases hspelling <;> decide

/-- Any other kind with a spelling is in the table of symbols, or is the double equals sign. -/
theorem mem_symbols_of_spelling? {kind : Token.Kind} {text : String}
    (hkind : kind.isKeyword = false) (hspelling : kind.spelling? = some text) :
    (∃ c, (c, kind) ∈ symbols ∧ text = String.ofList [c]) ∨ (kind = .equal ∧ text = "==") := by
  cases kind <;> cases hkind <;> cases hspelling
  case equal => exact Or.inr ⟨rfl, rfl⟩
  all_goals exact Or.inl ⟨_, by decide, rfl⟩

/-- Below the limit are the numbers that 64 bits with a sign hold. -/
theorem lt_integerLimit_iff {value : Nat} :
    value < integerLimit ↔ value ≤ 9223372036854775807 := by
  rw [integerLimit]
  omega

/-- No character of a class without blanks is blank. -/
theorem isBlank_of_class {isIn : Char → Bool} (hspace : isIn ' ' = false)
    (hnewline : isIn '\n' = false) {c : Char} (hc : isIn c = true) : isBlank c = false := by
  cases hblank : isBlank c with
  | false => rfl
  | true =>
      rcases isBlank_iff.mp hblank with rfl | rfl
      · exact absurd hc (by simp [hspace])
      · exact absurd hc (by simp [hnewline])

/-- A run of a class without blanks starts with a character that is not blank. -/
theorem exists_cons_of_isRun {isIn : Char → Bool} (hspace : isIn ' ' = false)
    (hnewline : isIn '\n' = false) {run after : List Char} (hrun : IsRun isIn run after) :
    ∃ c more, run = c :: more ∧ isBlank c = false := by
  obtain ⟨c, more, rfl⟩ := List.exists_cons_of_ne_nil hrun.ne_nil
  exact ⟨c, more, rfl, isBlank_of_class hspace hnewline (hrun.mem c List.mem_cons_self)⟩

/-! ### What is read is read by a rule -/

section Sound

variable {c : Char} {rest : List Char}

/-- A number is read by a rule. -/
theorem rule_number (hdigit : c.isDigit = true) :
    Rule (c :: rest.take (number c rest).extra) (rest.drop (number c rest).extra)
      (number c rest).reading := by
  have hrun := isRun_takeWhile hdigit rest
  simp only [number, take_length_takeWhile, drop_length_takeWhile]
  by_cases hlimit : Nat.ofDigitChars 10 (c :: rest.takeWhile Char.isDigit) 0 < integerLimit
  · rw [if_pos hlimit]
    exact .integer hrun (lt_integerLimit_iff.mp hlimit)
  · rw [if_neg hlimit]
    rw [lt_integerLimit_iff, Nat.not_le] at hlimit
    exact .integerTooLarge hrun hlimit

/-- A word or keyword is read by a rule. -/
theorem rule_word (hstart : Text.isWordStart c = true) :
    Rule (c :: rest.take (word c rest).extra) (rest.drop (word c rest).extra)
      (word c rest).reading := by
  simp only [Text.isWordStart, Bool.and_eq_true, Bool.not_eq_true'] at hstart
  obtain ⟨hword, hdigit⟩ := hstart
  have hrun := isRun_takeWhile hword rest
  simp only [word, take_length_takeWhile, drop_length_takeWhile]
  cases hlookup : keywords.lookup (String.ofList (c :: rest.takeWhile Text.isWordChar)) with
  | some kind =>
      have hentry := mem_of_lookup hlookup
      have hkind := (lookup_of_mem_keywords _ hentry).2.1
      exact .keyword hrun hkind (spelling?_of_mem_keywords _ hentry)
  | none =>
      refine .word hrun ⟨c, rfl, hdigit⟩ ?_
      intro kind hkind hspelling
      have hentry := mem_keywords_of_spelling? hkind hspelling
      have hfound := (lookup_of_mem_keywords _ hentry).1
      rw [hlookup] at hfound
      cases hfound

/-- A literal is read by a rule. -/
theorem rule_string :
    Rule ('"' :: rest.take (string rest).extra) (rest.drop (string rest).extra)
      (string rest).reading := by
  obtain ⟨inner, hbody, -, hcollect⟩ := isBody_scanBody rest
  simp only [string, hcollect]
  cases hdecode : decode (collect inner) with
  | ok decoded => exact .string hbody hdecode
  | error sequence => exact .invalidEscape hbody hdecode

/-- A symbol, and a character that is none, is read by a rule. -/
theorem rule_symbol (hdigit : c.isDigit = false) (hstart : Text.isWordStart c = false)
    (hquote : c ≠ '"') (hblank : isBlank c = false) :
    Rule (c :: rest.take (symbol c rest).extra) (rest.drop (symbol c rest).extra)
      (symbol c rest).reading := by
  by_cases hdouble : c = '=' ∧ rest.head? = some '='
  · obtain ⟨rfl, hhead⟩ := hdouble
    obtain ⟨more, rfl⟩ := List.head?_eq_some_iff.mp hhead
    have hspelling : Token.Kind.equal.spelling? = some (String.ofList ['=', '=']) := rfl
    exact .symbol rfl hspelling nofun
  · simp only [symbol, hdouble, if_false]
    cases hlookup : symbols.lookup c with
    | some kind =>
        have hentry := mem_of_lookup hlookup
        obtain ⟨-, hkind, hassign, -⟩ := lookup_of_mem_symbols _ hentry
        have hspelling : kind.spelling? = some (String.ofList [c]) := by
          rw [spelling?_of_mem_symbols _ hentry, String.singleton_eq_ofList]
        have halone : kind = .assign → rest.head? ≠ some '=' :=
          fun hequal hhead => hdouble ⟨hassign.mp hequal, hhead⟩
        rw [String.singleton_eq_ofList]
        exact .symbol hkind hspelling halone
    | none =>
        have hword : Text.isWordChar c = false := by
          simpa [Text.isWordStart, hdigit] using hstart
        have hsymbol : c ∉ symbols.map Prod.fst := by
          intro hmem
          obtain ⟨entry, hentry, hfst⟩ := List.mem_map.mp hmem
          have hfound := (lookup_of_mem_symbols entry hentry).1
          rw [hfst, hlookup] at hfound
          cases hfound
        exact .unexpectedCharacter rest ⟨hdigit, hword, hquote, hsymbol, hblank⟩

/-- **Whatever is read at the front of a text is read by a rule.** -/
theorem rule_read (hblank : isBlank c = false) :
    Rule (c :: rest.take (read c rest).extra) (rest.drop (read c rest).extra)
      (read c rest).reading := by
  unfold read
  split
  · next hdigit => exact rule_number hdigit
  · next hdigit =>
      rw [Bool.not_eq_true] at hdigit
      split
      · next hstart => exact rule_word hstart
      · next hstart =>
          rw [Bool.not_eq_true] at hstart
          split
          · next hquote => exact hquote ▸ rule_string
          · next hquote => exact rule_symbol hdigit hstart hquote hblank

end Sound

/-! ### What a rule gives is what is read -/

section Complete

variable {c : Char} {more after : List Char}

/-- A run of digits is read whole, and is the integer or too large. -/
theorem read_digits (hrun : IsRun Char.isDigit (c :: more) after) :
    read c (more ++ after) = ⟨more.length,
      if Nat.ofDigitChars 10 (c :: more) 0 < integerLimit then
        .ok (.integer, .integer (Int64.ofNat (Nat.ofDigitChars 10 (c :: more) 0)))
      else .error (.integerTooLarge (String.ofList (c :: more)))⟩ := by
  have hdigit : c.isDigit = true := hrun.mem c List.mem_cons_self
  simp only [read, hdigit, if_true, number, hrun.takeWhile_eq]

/-- A run of word characters is read whole, and is the keyword or the word that it is looked up
as. -/
theorem read_wordChars (hrun : IsRun Text.isWordChar (c :: more) after)
    (hdigit : c.isDigit = false) :
    read c (more ++ after) = ⟨more.length,
      .ok ((keywords.lookup (String.ofList (c :: more))).getD .word,
        .text (String.ofList (c :: more)))⟩ := by
  have hword : Text.isWordChar c = true := hrun.mem c List.mem_cons_self
  have hstart : Text.isWordStart c = true := by simp [Text.isWordStart, hword, hdigit]
  simp only [read, hdigit, hstart, Bool.false_eq_true, if_false, if_true, word, hrun.takeWhile_eq]

/-- A literal is read to the end of its body, which is decoded. -/
theorem read_body {inner body : List Char} (hbody : IsBody inner body after) :
    read '"' (body ++ after) = ⟨body.length,
      match decode (collect inner) with
      | .ok text => .ok (.string, .text (String.ofList text))
      | .error sequence => .error (.invalidEscape (String.ofList sequence))⟩ := by
  have hquote : read '"' = string := rfl
  cases hdecode : decode (collect inner) <;>
    simp only [hquote, string, hbody.scanBody_eq, hdecode]

/-- What starts neither a number nor a word nor a literal is read as a symbol. -/
theorem read_symbol (hdigit : c.isDigit = false) (hstart : Text.isWordStart c = false)
    (hquote : c ≠ '"') : read c = symbol c := by
  funext rest
  simp only [read, hdigit, hstart, hquote, Bool.false_eq_true, if_false]

end Complete

/-- **What a rule gives is what is read.**  The text of a rule starts with a character that is not
blank, and reading from there takes this text and gives this reading. -/
theorem Rule.read_eq {text after : List Char}
    {reading : Except LexFault (Token.Kind × Token.Payload)} (hrule : Rule text after reading) :
    ∃ c more, text = c :: more ∧ isBlank c = false ∧
      read c (more ++ after) = ⟨more.length, reading⟩ := by
  cases hrule with
  | integer hrun hvalue =>
      obtain ⟨c, more, rfl, hblank⟩ := exists_cons_of_isRun (by decide) (by decide) hrun
      refine ⟨c, more, rfl, hblank, ?_⟩
      rw [read_digits hrun, if_pos (lt_integerLimit_iff.mpr hvalue)]
  | integerTooLarge hrun hvalue =>
      obtain ⟨c, more, rfl, hblank⟩ := exists_cons_of_isRun (by decide) (by decide) hrun
      refine ⟨c, more, rfl, hblank, ?_⟩
      rw [read_digits hrun, if_neg]
      rwa [lt_integerLimit_iff, Nat.not_le]
  | keyword hrun hkind hspelling =>
      obtain ⟨c, more, rfl, hblank⟩ := exists_cons_of_isRun (by decide) (by decide) hrun
      have hentry := mem_keywords_of_spelling? hkind hspelling
      obtain ⟨hlookup, -, hstart, -⟩ := lookup_of_mem_keywords _ hentry
      have hdigit : c.isDigit = false := by simpa using hstart
      refine ⟨c, more, rfl, hblank, ?_⟩
      rw [read_wordChars hrun hdigit, hlookup]
      rfl
  | word hrun hstart hname =>
      obtain ⟨c, more, rfl, hblank⟩ := exists_cons_of_isRun (by decide) (by decide) hrun
      have hdigit : c.isDigit = false := by simpa using hstart
      have hlookup : keywords.lookup (String.ofList (c :: more)) = none := by
        cases hfound : keywords.lookup (String.ofList (c :: more)) with
        | none => rfl
        | some kind =>
            have hentry := mem_of_lookup hfound
            have hkind := (lookup_of_mem_keywords _ hentry).2.1
            exact absurd (spelling?_of_mem_keywords _ hentry) (hname kind hkind)
      refine ⟨c, more, rfl, hblank, ?_⟩
      rw [read_wordChars hrun hdigit, hlookup]
      rfl
  | symbol hkind hspelling halone =>
      rcases mem_symbols_of_spelling? hkind hspelling with ⟨c, hentry, htext⟩ | ⟨rfl, htext⟩
      · obtain rfl : text = [c] := String.ofList_injective htext
        obtain ⟨hlookup, -, hassign, hdigit, hstart, hquote, hblank⟩ :=
          lookup_of_mem_symbols _ hentry
        have hdouble : ¬(c = '=' ∧ after.head? = some '=') :=
          fun hequals => halone (hassign.mpr hequals.1) hequals.2
        refine ⟨c, [], rfl, hblank, ?_⟩
        rw [read_symbol hdigit hstart hquote, List.nil_append, Lexeme.symbol, if_neg hdouble,
          hlookup, ← String.singleton_eq_ofList]
        rfl
      · obtain rfl : text = ['=', '='] := String.ofList_injective htext
        exact ⟨'=', ['='], rfl, rfl, rfl⟩
  | string hbody hdecode =>
      refine ⟨'"', _, rfl, rfl, ?_⟩
      rw [read_body hbody, hdecode]
  | invalidEscape hbody hdecode =>
      refine ⟨'"', _, rfl, rfl, ?_⟩
      rw [read_body hbody, hdecode]
  | @unexpectedCharacter c after hother =>
      have hstart : Text.isWordStart c = false := by simp [Text.isWordStart, hother.not_word]
      have hequals : c ≠ '=' := by
        intro hc
        exact hother.not_symbol (by simp [hc])
      have hlookup : symbols.lookup c = none := by
        cases hfound : symbols.lookup c with
        | none => rfl
        | some kind =>
            have hmem : c ∈ symbols.map Prod.fst := List.mem_map_of_mem (mem_of_lookup hfound)
            exact absurd hmem hother.not_symbol
      have hdouble : ¬(c = '=' ∧ after.head? = some '=') := fun hboth => hequals hboth.1
      refine ⟨c, [], rfl, hother.not_blank, ?_⟩
      rw [read_symbol hother.not_digit hstart hother.not_quote, List.nil_append, Lexeme.symbol,
        if_neg hdouble, hlookup]
      rfl

/-- A rule reads something. -/
theorem Rule.text_ne_nil {text after : List Char}
    {reading : Except LexFault (Token.Kind × Token.Payload)} (hrule : Rule text after reading) :
    text ≠ [] := by
  obtain ⟨c, more, rfl, -⟩ := hrule.read_eq
  exact nofun

/-- No rule gives the end token. -/
theorem Rule.kind_ne_eof {text after : List Char} {kind : Token.Kind} {payload : Token.Payload}
    (hrule : Rule text after (.ok (kind, payload))) : kind ≠ .eof := by
  rintro rfl
  cases hrule with
  | keyword hrun hkind hspelling => cases hkind
  | symbol hkind hspelling halone => cases hspelling

end Lexeme

/-! ### Bytes -/

@[simp] theorem byteLength_append (first second : List Char) :
    byteLength (first ++ second) = byteLength first + byteLength second := by
  induction first with
  | nil => exact (Nat.zero_add _).symm
  | cons c first ih => rw [List.cons_append, byteLength, byteLength, ih, Nat.add_assoc]

/-- The number of bytes is that of the text with these characters. -/
theorem byteLength_eq_utf8ByteSize (text : List Char) :
    byteLength text = (String.ofList text).utf8ByteSize := by
  induction text with
  | nil => rfl
  | cons c text ih =>
      rw [byteLength, ih, String.ofList_cons, String.utf8ByteSize_append,
        String.utf8ByteSize_singleton]

/-- The number of bytes of the characters of a text is that of the text. -/
theorem byteLength_toList (text : String) : byteLength text.toList = text.utf8ByteSize := by
  rw [byteLength_eq_utf8ByteSize, String.ofList_toList]

theorem byteLength_pos {text : List Char} (htext : text ≠ []) : 0 < byteLength text := by
  cases text with
  | nil => exact absurd rfl htext
  | cons c text =>
      have hc := c.utf8Size_pos
      rw [byteLength]
      omega

/-! ### Steps of the lexer -/

namespace Lexer

/-- A reading at its place in the source. -/
def located (span : Token.Span) :
    Except LexFault (Token.Kind × Token.Payload) → Except LexError Token
  | .ok (kind, payload) => .ok ⟨kind, payload, span⟩
  | .error fault => .error ⟨fault, span.start⟩

/-- Blanks in front of a text are skipped. -/
theorem skipBlanks_append {gap : List Char} (hgap : ∀ c ∈ gap, isBlank c = true)
    (rest : List Char) (offset : Nat) :
    skipBlanks ⟨gap ++ rest, offset⟩ = skipBlanks ⟨rest, offset + byteLength gap⟩ := by
  simp only [skipBlanks, List.dropWhile_append_of_pos hgap, List.takeWhile_append_of_pos hgap,
    byteLength_append, Nat.add_assoc]

/-- At the end of the source, behind any blanks, there is the end token. -/
theorem next_blanks {gap : List Char} (hgap : ∀ c ∈ gap, isBlank c = true) (offset : Nat) :
    next ⟨gap, offset⟩ =
      (.ok (Token.endAt (offset + byteLength gap)), ⟨[], offset + byteLength gap⟩) := by
  have hskip := skipBlanks_append hgap [] offset
  rw [List.append_nil] at hskip
  rw [next, hskip]
  rfl

/-- Behind any blanks, a step takes what a rule gives. -/
theorem next_rule {gap text after : List Char} (hgap : ∀ c ∈ gap, isBlank c = true)
    {reading : Except LexFault (Token.Kind × Token.Payload)}
    (hrule : Lexeme.Rule text after reading) (offset : Nat) :
    next ⟨gap ++ (text ++ after), offset⟩ =
      (located ⟨offset + byteLength gap, offset + byteLength gap + byteLength text⟩ reading,
        ⟨after, offset + byteLength gap + byteLength text⟩) := by
  obtain ⟨c, more, rfl, hblank, hread⟩ := hrule.read_eq
  have hskip : skipBlanks ⟨gap ++ (c :: more ++ after), offset⟩ =
      ⟨c :: (more ++ after), offset + byteLength gap⟩ := by
    rw [skipBlanks_append hgap, skipBlanks, List.cons_append,
      List.dropWhile_cons_of_neg (by simp [hblank]), List.takeWhile_cons_of_neg (by simp [hblank])]
    rfl
  rw [next, hskip]
  simp only [readAt, hread, List.take_left, List.drop_left]
  cases reading <;> rfl

/-- A text is blank, or a rule reads what stands behind its first blanks. -/
theorem blank_or_rule (rest : List Char) : (∀ c ∈ rest, isBlank c = true) ∨
    ∃ gap text after reading, rest = gap ++ (text ++ after) ∧ (∀ c ∈ gap, isBlank c = true) ∧
      Lexeme.Rule text after reading := by
  have hgap : ∀ c ∈ rest.takeWhile isBlank, isBlank c = true :=
    List.all_eq_true.mp List.all_takeWhile
  have hsplit : rest = rest.takeWhile isBlank ++ rest.dropWhile isBlank :=
    List.takeWhile_append_dropWhile.symm
  cases hrest : rest.dropWhile isBlank with
  | nil =>
      left
      rw [hrest, List.append_nil] at hsplit
      rwa [hsplit]
  | cons c more =>
      right
      have hblank : isBlank c = false := by
        have hstop := List.head?_dropWhile_not isBlank rest
        rw [hrest] at hstop
        simpa using hstop
      have hrule : Lexeme.Rule (c :: more.take (Lexeme.read c more).extra)
          (more.drop (Lexeme.read c more).extra) (Lexeme.read c more).reading :=
        Lexeme.rule_read hblank
      refine ⟨_, _, _, _, ?_, hgap, hrule⟩
      rw [List.cons_append, List.take_append_drop, ← hrest]
      exact hsplit

/-- Induction along a text: it is blank, or a rule reads a part of it behind some blanks, and there
is less behind this part. -/
@[elab_as_elim]
theorem rule_induction {motive : List Char → Prop}
    (blanks : ∀ gap, (∀ c ∈ gap, isBlank c = true) → motive gap)
    (rule : ∀ gap text after reading, (∀ c ∈ gap, isBlank c = true) →
      Lexeme.Rule text after reading → motive after → motive (gap ++ (text ++ after)))
    (rest : List Char) : motive rest := by
  induction hlength : rest.length using Nat.strongRecOn generalizing rest with
  | ind length ih =>
      rcases blank_or_rule rest with hblank | ⟨gap, text, after, reading, rfl, hgap, hrule⟩
      · exact blanks rest hblank
      · have hpos := List.length_pos_iff.mpr hrule.text_ne_nil
        have hless : after.length < length := by
          rw [← hlength, List.length_append, List.length_append]
          omega
        exact rule gap text after reading hgap hrule (ih after.length hless after rfl)

end Lexer

end FlatScript
