import FlatScript.Proofs.Lexing.Joining
import FlatScript.Proofs.Lexing.Numerals

/-!
# Escape sequences

The text of a string literal is read as parts, from the front to the end: characters that stand for
themselves and escape sequences.  `IsPart` says which parts there are, what each stands for and what
may follow it, and `IsMalformed` says which sequences are none.

A text is decoded exactly if it reads as parts to its end, and then to what these stand for, one
after the other.  Otherwise the error is the first malformed sequence.  A backslash with nothing
behind it is such a sequence, but it is never left in a literal that is closed.
-/

namespace FlatScript

namespace StringLiteral

/-! ### Parts -/

/-- A part of a text: how it is written and what it stands for. -/
structure Part where
  spelling : List Char
  denotation : List Char

/-- The escapes of one letter and the characters they stand for. -/
def letterEscapes : List (Char × Char) :=
  [('\\', '\\'), ('\x27', '\x27'), ('"', '"'), ('a', '\x07'), ('b', '\x08'), ('f', '\x0c'),
    ('n', '\n'), ('r', '\r'), ('t', '\t'), ('v', '\x0b')]

/-- The letters before hexadecimal digits, and how many digits follow them. -/
def hexEscapes : List (Char × Nat) :=
  [('x', 2), ('u', 4), ('U', 8)]

/-- A character that has no meaning behind a backslash. -/
structure IsUnknown (c : Char) : Prop where
  not_letter : c ∉ letterEscapes.map Prod.fst
  not_newline : c ≠ '\n'
  not_hex : c ∉ hexEscapes.map Prod.fst
  not_octal : ¬IsDigit 8 c

/-- `IsPart part after`: the part may be read in front of `after`. -/
inductive IsPart : Part → (after : List Char) → Prop
  | plain {c : Char} (after : List Char) (hc : c ≠ '\\') : IsPart ⟨[c], [c]⟩ after
  | letter {c d : Char} (after : List Char) (hletter : (c, d) ∈ letterEscapes) :
      IsPart ⟨['\\', c], [d]⟩ after
  | newline (after : List Char) : IsPart ⟨['\\', '\n'], []⟩ after
  | hex {letter : Char} {width : Nat} {digits after : List Char}
      (hletter : (letter, width) ∈ hexEscapes) (hdigits : IsDigits 16 width digits after)
      (hlength : digits.length = width) (hscalar : IsScalarValue (exactNumeral 16 digits)) :
      IsPart ⟨'\\' :: letter :: digits, [Char.ofNat (exactNumeral 16 digits)]⟩ after
  | octal {digits after : List Char} (hne : digits ≠ []) (hdigits : IsDigits 8 3 digits after) :
      IsPart ⟨'\\' :: digits, [Char.ofNat (exactNumeral 8 digits)]⟩ after
  | unknown {c : Char} (after : List Char) (hc : IsUnknown c) :
      IsPart ⟨['\\', c], ['\\', c]⟩ after

/-- `IsMalformed sequence after`: in front of `after`, the sequence is no part, as far as it is
read.  Nothing follows its backslash, it has too few digits, or its code is that of no character. -/
inductive IsMalformed : (sequence after : List Char) → Prop
  | lone : IsMalformed ['\\'] []
  | short {letter : Char} {width : Nat} {digits after : List Char}
      (hletter : (letter, width) ∈ hexEscapes) (hdigits : IsDigits 16 width digits after)
      (hlength : digits.length < width) : IsMalformed ('\\' :: letter :: digits) after
  | noCharacter {letter : Char} {width : Nat} {digits after : List Char}
      (hletter : (letter, width) ∈ hexEscapes) (hdigits : IsDigits 16 width digits after)
      (hlength : digits.length = width) (hscalar : ¬IsScalarValue (exactNumeral 16 digits)) :
      IsMalformed ('\\' :: letter :: digits) after

/-- `ReadsParts raw parts after`: from its front, `raw` reads as `parts`, and `after` is left. -/
inductive ReadsParts : (raw : List Char) → List Part → (after : List Char) → Prop
  | stop (after : List Char) : ReadsParts after [] after
  | part {part : Part} {more after : List Char} {parts : List Part} (hpart : IsPart part more)
      (hmore : ReadsParts more parts after) :
      ReadsParts (part.spelling ++ more) (part :: parts) after

/-! ### Reading one escape sequence -/

section Read

variable {c d letter : Char} {width : Nat} {digits after : List Char}

/-- The letters of the table stand for single characters. -/
theorem read_letter (hletter : (c, d) ∈ letterEscapes) (rest : List Char) :
    Escape.read c rest = .ok ⟨[d], 0⟩ := by
  simp only [letterEscapes, List.mem_cons, Prod.mk.injEq, List.not_mem_nil, or_false] at hletter
  rcases hletter with ⟨rfl, rfl⟩ | ⟨rfl, rfl⟩ | ⟨rfl, rfl⟩ | ⟨rfl, rfl⟩ | ⟨rfl, rfl⟩ | ⟨rfl, rfl⟩ |
    ⟨rfl, rfl⟩ | ⟨rfl, rfl⟩ | ⟨rfl, rfl⟩ | ⟨rfl, rfl⟩ <;> rfl

/-- The letters of hexadecimal escapes are followed by digits, eight at most. -/
theorem read_hex (hletter : (letter, width) ∈ hexEscapes) (rest : List Char) :
    width ≤ 8 ∧ Escape.read letter rest = Escape.hex letter width rest := by
  simp only [hexEscapes, List.mem_cons, Prod.mk.injEq, List.not_mem_nil, or_false] at hletter
  rcases hletter with ⟨rfl, rfl⟩ | ⟨rfl, rfl⟩ | ⟨rfl, rfl⟩ <;> exact ⟨by decide, rfl⟩

/-- Behind any other character, the octal digits decide. -/
theorem read_other (hletter : c ∉ letterEscapes.map Prod.fst) (hnewline : c ≠ '\n')
    (hhex : c ∉ hexEscapes.map Prod.fst) (rest : List Char) :
    Escape.read c rest =
      .ok (if isDigitIn 8 c then Escape.octal c rest else ⟨['\\', c], 0⟩) := by
  rw [Escape.read]
  all_goals
    rintro rfl
    first
      | exact hletter (by decide)
      | exact hnewline rfl
      | exact hhex (by decide)

/-- A backslash in front of any other character is kept. -/
theorem read_unknown (hc : IsUnknown c) (rest : List Char) :
    Escape.read c rest = .ok ⟨['\\', c], 0⟩ := by
  have hdigit : ¬isDigitIn 8 c = true := fun hdigit =>
    hc.not_octal ((isDigitIn_iff (by decide)).mp hdigit)
  rw [read_other hc.not_letter hc.not_newline hc.not_hex, if_neg hdigit]

/-- An octal digit is not in a table without octal digits. -/
theorem notMem_of_octal {α : Type} {table : List (Char × α)}
    (htable : ∀ entry ∈ table, isDigitIn 8 entry.1 = false) (hdigit : isDigitIn 8 c = true) :
    c ∉ table.map Prod.fst := by
  intro hmem
  obtain ⟨entry, hentry, rfl⟩ := List.mem_map.mp hmem
  rw [htable entry hentry] at hdigit
  cases hdigit

/-- The digits of an octal escape, of which the first is given. -/
theorem read_octal (hdigits : IsDigits 8 3 (c :: digits) after) :
    Escape.read c (digits ++ after) =
      .ok ⟨[Char.ofNat (exactNumeral 8 (c :: digits))], digits.length⟩ := by
  obtain ⟨hc, hmore⟩ := isDigits_cons.mp hdigits
  have hdigit := (isDigitIn_iff (by decide)).mpr hc
  have hletter : c ∉ letterEscapes.map Prod.fst := notMem_of_octal (by decide) hdigit
  have hhex : c ∉ hexEscapes.map Prod.fst := notMem_of_octal (by decide) hdigit
  have hnewline : c ≠ '\n' := by
    rintro rfl
    cases hdigit
  have hexact := hdigits.toNat_numeral (by decide) (by decide)
  have hscalar := isScalarValue_octal hdigits.mem hdigits.length_le
  rw [← hexact] at hscalar ⊢
  rw [read_other hletter hnewline hhex, if_pos hdigit, Escape.octal,
    hmore.digitsAhead_eq (by decide), character?_of_isScalarValue hscalar]
  rfl

/-- The digits of a hexadecimal escape are the code of its character. -/
theorem read_hex_ok (hletter : (letter, width) ∈ hexEscapes)
    (hdigits : IsDigits 16 width digits after) (hlength : digits.length = width)
    (hscalar : IsScalarValue (exactNumeral 16 digits)) :
    Escape.read letter (digits ++ after) =
      .ok ⟨[Char.ofNat (exactNumeral 16 digits)], width⟩ := by
  obtain ⟨hwidth, hread⟩ := read_hex hletter (digits ++ after)
  have hexact := hdigits.toNat_numeral (by decide) hwidth
  rw [← hexact] at hscalar ⊢
  have hfound := character?_of_isScalarValue hscalar
  simp only [hread, Escape.hex, hdigits.digitsAhead_eq (Nat.le_refl 16), hlength, if_true, hfound]

/-- A hexadecimal escape has too few digits, or its code is that of no character. -/
theorem read_hex_error (hletter : (letter, width) ∈ hexEscapes)
    (hdigits : IsDigits 16 width digits after)
    (hbad : digits.length = width → ¬IsScalarValue (exactNumeral 16 digits)) :
    Escape.read letter (digits ++ after) = .error ('\\' :: letter :: digits) := by
  obtain ⟨hwidth, hread⟩ := read_hex hletter (digits ++ after)
  have hexact := hdigits.toNat_numeral (by decide) hwidth
  rw [← hexact] at hbad
  by_cases hlength : digits.length = width
  · have hnone := character?_eq_none (hbad hlength)
    simp only [hread, Escape.hex, hdigits.digitsAhead_eq (Nat.le_refl 16), hlength, if_true, hnone]
  · simp only [hread, Escape.hex, hdigits.digitsAhead_eq (Nat.le_refl 16), hlength, if_false]

end Read

/-! ### Decoding one part -/

/-- A part is decoded to what it stands for, and decoding goes on behind it. -/
theorem IsPart.decode_eq {part : Part} {after : List Char} (hpart : IsPart part after) :
    decode (part.spelling ++ after) = (part.denotation ++ ·) <$> decode after := by
  cases hpart with
  | plain _ hc => exact decode_plain hc after
  | letter _ hletter => exact decode_escape (read_letter hletter after)
  | newline =>
      have hread : Escape.read '\n' after = .ok ⟨[], 0⟩ := rfl
      exact decode_escape hread
  | @hex letter width digits _ hletter hdigits hlength hscalar =>
      have hdecode := decode_escape (read_hex_ok hletter hdigits hlength hscalar)
      rwa [List.drop_left' hlength] at hdecode
  | @octal digits _ hne hdigits =>
      obtain ⟨first, more, rfl⟩ := List.exists_cons_of_ne_nil hne
      have hdecode := decode_escape (read_octal hdigits)
      rwa [List.drop_left] at hdecode
  | unknown _ hc => exact decode_escape (read_unknown hc after)

/-- A malformed sequence is the error of a text that starts with it. -/
theorem IsMalformed.decode_eq {sequence after : List Char}
    (hmalformed : IsMalformed sequence after) : decode (sequence ++ after) = .error sequence := by
  cases hmalformed with
  | lone => rw [List.append_nil, decode]
  | short hletter hdigits hlength =>
      have hfew := Nat.ne_of_lt hlength
      exact decode_escape_error (read_hex_error hletter hdigits fun hfull => absurd hfull hfew)
  | noCharacter hletter hdigits hlength hscalar =>
      exact decode_escape_error (read_hex_error hletter hdigits fun _ => hscalar)

theorem IsPart.spelling_ne_nil {part : Part} {after : List Char} (hpart : IsPart part after) :
    part.spelling ≠ [] := by
  cases hpart <;> exact List.cons_ne_nil _ _

/-- A backslash and the character behind it start a part or a malformed sequence. -/
theorem escape_or_malformed (c : Char) (rest : List Char) :
    (∃ part more, '\\' :: c :: rest = part.spelling ++ more ∧ IsPart part more) ∨
      ∃ sequence after, '\\' :: c :: rest = sequence ++ after ∧ IsMalformed sequence after := by
  by_cases hletter : c ∈ letterEscapes.map Prod.fst
  · obtain ⟨⟨_, d⟩, hentry, rfl⟩ := List.mem_map.mp hletter
    exact Or.inl ⟨_, rest, rfl, .letter rest hentry⟩
  by_cases hnewline : c = '\n'
  · subst hnewline
    exact Or.inl ⟨_, rest, rfl, .newline rest⟩
  by_cases hhex : c ∈ hexEscapes.map Prod.fst
  · obtain ⟨⟨letter, width⟩, hentry, rfl⟩ := List.mem_map.mp hhex
    obtain ⟨after, hrest, hdigits⟩ := exists_isDigits (Nat.le_refl 16) width rest
    have htext := congrArg ('\\' :: letter :: ·) hrest
    by_cases hlength : (digitsAhead 16 width rest).length = width
    · by_cases hscalar : IsScalarValue (exactNumeral 16 (digitsAhead 16 width rest))
      · exact Or.inl ⟨⟨'\\' :: letter :: digitsAhead 16 width rest, _⟩, after, htext,
          .hex hentry hdigits hlength hscalar⟩
      · exact Or.inr ⟨_, after, htext, .noCharacter hentry hdigits hlength hscalar⟩
    · have hfew := Nat.lt_of_le_of_ne hdigits.length_le hlength
      exact Or.inr ⟨_, after, htext, .short hentry hdigits hfew⟩
  by_cases hoctal : IsDigit 8 c
  · obtain ⟨after, hrest, hmore⟩ := exists_isDigits (by decide : 8 ≤ 16) 2 rest
    have htext := congrArg ('\\' :: c :: ·) hrest
    have hdigits := isDigits_cons.mpr ⟨hoctal, hmore⟩
    exact Or.inl ⟨⟨'\\' :: c :: digitsAhead 8 2 rest, _⟩, after, htext,
      .octal (List.cons_ne_nil _ _) hdigits⟩
  · exact Or.inl ⟨_, rest, rfl, .unknown rest ⟨hletter, hnewline, hhex, hoctal⟩⟩

/-- A text is empty, or it starts with a part or with a malformed sequence. -/
theorem part_or_malformed {raw : List Char} (hraw : raw ≠ []) :
    (∃ part more, raw = part.spelling ++ more ∧ IsPart part more) ∨
      ∃ sequence after, raw = sequence ++ after ∧ IsMalformed sequence after := by
  obtain ⟨first, rest, rfl⟩ := List.exists_cons_of_ne_nil hraw
  by_cases hslash : first = '\\'
  · subst hslash
    cases rest with
    | nil => exact Or.inr ⟨_, [], rfl, .lone⟩
    | cons c rest => exact escape_or_malformed c rest
  · exact Or.inl ⟨_, rest, rfl, .plain rest hslash⟩

/-! ### Decoding a text -/

/-- The parts that are read are written in the text one after the other. -/
theorem ReadsParts.raw_eq {raw after : List Char} {parts : List Part}
    (hreads : ReadsParts raw parts after) : raw = parts.flatMap Part.spelling ++ after := by
  induction hreads with
  | stop after => rfl
  | part hpart hmore ih => rw [List.flatMap_cons, List.append_assoc, ← ih]

/-- **The parts that are read are decoded**, and decoding goes on behind them. -/
theorem ReadsParts.decode_eq {raw after : List Char} {parts : List Part}
    (hreads : ReadsParts raw parts after) :
    decode raw = (parts.flatMap Part.denotation ++ ·) <$> decode after := by
  induction hreads with
  | stop after => exact (id_map (decode after)).symm
  | part hpart hmore ih =>
      rw [hpart.decode_eq, ih, Functor.map_map]
      simp only [List.flatMap_cons, List.append_assoc]

/-- Every text reads as parts to its end or to a malformed sequence. -/
theorem exists_parts_or_malformed (raw : List Char) :
    (∃ parts, ReadsParts raw parts []) ∨
      ∃ parts sequence after, ReadsParts raw parts (sequence ++ after) ∧
        IsMalformed sequence after := by
  induction hlength : raw.length using Nat.strongRecOn generalizing raw with
  | ind length ih =>
      by_cases hraw : raw = []
      · subst hraw
        exact Or.inl ⟨[], .stop []⟩
      rcases part_or_malformed hraw with
        ⟨part, more, rfl, hpart⟩ | ⟨sequence, after, rfl, hmalformed⟩
      · have hpos := List.length_pos_iff.mpr hpart.spelling_ne_nil
        have hless : more.length < length := by
          rw [← hlength, List.length_append]
          omega
        rcases ih more.length hless more rfl with
          ⟨parts, hparts⟩ | ⟨parts, sequence, after, hparts, hmalformed⟩
        · exact Or.inl ⟨_, .part hpart hparts⟩
        · exact Or.inr ⟨_, sequence, after, .part hpart hparts, hmalformed⟩
      · exact Or.inr ⟨[], sequence, after, .stop _, hmalformed⟩

/-- A text that reads as parts to its end is decoded. -/
theorem ReadsParts.decode_ok {raw : List Char} {parts : List Part}
    (hreads : ReadsParts raw parts []) : decode raw = .ok (parts.flatMap Part.denotation) := by
  rw [hreads.decode_eq, decode]
  exact congrArg Except.ok (List.append_nil _)

/-- A text that reads as parts to a malformed sequence has this error. -/
theorem ReadsParts.decode_error {raw sequence after : List Char} {parts : List Part}
    (hreads : ReadsParts raw parts (sequence ++ after)) (hmalformed : IsMalformed sequence after) :
    decode raw = .error sequence := by
  rw [hreads.decode_eq, hmalformed.decode_eq]
  rfl

/-- A text is decoded to what its parts denote. -/
theorem decode_eq_ok_iff {raw text : List Char} : decode raw = .ok text ↔
    ∃ parts, ReadsParts raw parts [] ∧ text = parts.flatMap Part.denotation := by
  constructor
  · intro hdecode
    rcases exists_parts_or_malformed raw with
      ⟨parts, hparts⟩ | ⟨parts, sequence, after, hparts, hmalformed⟩
    · rw [hparts.decode_ok] at hdecode
      cases hdecode
      exact ⟨parts, hparts, rfl⟩
    · rw [hparts.decode_error hmalformed] at hdecode
      cases hdecode
  · rintro ⟨parts, hparts, rfl⟩
    exact hparts.decode_ok

/-- A text is refused for the malformed sequence behind its first parts. -/
theorem decode_eq_error_iff {raw sequence : List Char} : decode raw = .error sequence ↔
    ∃ parts after, ReadsParts raw parts (sequence ++ after) ∧ IsMalformed sequence after := by
  constructor
  · intro hdecode
    rcases exists_parts_or_malformed raw with
      ⟨parts, hparts⟩ | ⟨parts, found, after, hparts, hmalformed⟩
    · rw [hparts.decode_ok] at hdecode
      cases hdecode
    · rw [hparts.decode_error hmalformed] at hdecode
      cases hdecode
      exact ⟨parts, after, hparts, hmalformed⟩
  · rintro ⟨parts, after, hparts, hmalformed⟩
    exact hparts.decode_error hmalformed

/-! ### A backslash at the end -/

/-- What is collected ends with the character that the body ends with. -/
theorem getLast?_collect (inner : List Char) : (collect inner).getLast? = inner.getLast? := by
  induction inner using collect.induct with
  | case1 => rfl
  | case2 rest ih => simp only [collect, List.getLast?_cons, ih, Option.getD_some]
  | case3 c rest hpair ih =>
      rw [collect, List.getLast?_cons, List.getLast?_cons, ih]
      exact hpair

/-- A text in which a backslash is left over ends with it. -/
theorem getLast?_of_lone {raw : List Char} (hdecode : decode raw = .error ['\\']) :
    raw.getLast? = some '\\' := by
  obtain ⟨parts, after, hparts, hmalformed⟩ := decode_eq_error_iff.mp hdecode
  cases hmalformed
  rw [hparts.raw_eq, List.append_nil, List.getLast?_concat]

/-- **No backslash is left over in a literal that is closed.** -/
theorem IsBody.open_of_lone {inner body after : List Char} (hbody : IsBody inner body after)
    (hdecode : decode (collect inner) = .error ['\\']) :
    body = inner ∧ after = [] ∧ QuotesEscaped inner ∧ inner.getLast? = some '\\' := by
  have hlast := getLast?_of_lone hdecode
  rw [getLast?_collect] at hlast
  cases hbody with
  | closed after hinner hclosed => exact absurd hlast hclosed
  | unclosed hinner => exact ⟨rfl, rfl, hinner, hlast⟩

/-- In the source, an unclosed literal starts at the given byte and goes on to a backslash at the
end of the source. -/
def OpenToBackslash (source : List Char) (position : Nat) : Prop :=
  ∃ before inner, source = before ++ '"' :: inner ∧ position = byteLength before ∧
    QuotesEscaped inner ∧ inner.getLast? = some '\\'

end StringLiteral

open StringLiteral

/-- A single backslash is the fault only of a literal that is not closed. -/
theorem Lexeme.Rule.open_of_lone {text after : List Char} {sequence : String}
    (hrule : Lexeme.Rule text after (.error (.invalidEscape sequence)))
    (hsequence : sequence = "\\") :
    ∃ inner, text = '"' :: inner ∧ after = [] ∧ QuotesEscaped inner ∧
      inner.getLast? = some '\\' := by
  cases hrule with
  | @invalidEscape inner _ _ found hbody hdecode =>
      obtain rfl : found = ['\\'] := String.ofList_injective hsequence
      obtain ⟨hopen, rfl, hquotes, hlast⟩ := hbody.open_of_lone hdecode
      exact ⟨inner, congrArg _ hopen, rfl, hquotes, hlast⟩

/-- What is behind some text of the source is in the source as well. -/
theorem StringLiteral.OpenToBackslash.behind {source : List Char} {position : Nat}
    (hopen : OpenToBackslash source position) (before : List Char) :
    OpenToBackslash (before ++ source) (byteLength before + position) := by
  obtain ⟨between, inner, rfl, rfl, hquotes, hlast⟩ := hopen
  refine ⟨before ++ between, inner, (List.append_assoc _ _ _).symm, ?_, hquotes, hlast⟩
  rw [byteLength_append]

/-- Step by step, a single backslash is the error only of a literal that is not closed. -/
theorem Lexer.open_of_lone_step {count : Nat} {rest : List Char} {offset position : Nat}
    (hstep : .error ⟨.invalidEscape "\\", position⟩ ∈ steps count ⟨rest, offset⟩) :
    ∃ distance, position = offset + distance ∧ OpenToBackslash rest distance := by
  induction count generalizing rest offset with
  | zero => cases hstep
  | succ count ih =>
      rcases blank_or_rule rest with hblank | ⟨gap, text, after, reading, rfl, hgap, hrule⟩
      · rw [steps, next_blanks hblank] at hstep
        rcases List.mem_cons.mp hstep with hhere | hlater
        · cases hhere
        · obtain ⟨_, -, _, _, hnil, -⟩ := ih hlater
          exact absurd hnil (by simp)
      · rw [steps, next_rule hgap hrule] at hstep
        rcases List.mem_cons.mp hstep with hhere | hlater
        · cases reading with
          | ok piece => cases hhere
          | error fault =>
              cases hhere
              obtain ⟨inner, rfl, rfl, hquotes, hlast⟩ := hrule.open_of_lone rfl
              exact ⟨byteLength gap, rfl, gap, inner, by rw [List.append_nil], rfl, hquotes, hlast⟩
        · obtain ⟨distance, rfl, hopen⟩ := ih hlater
          have hbehind := hopen.behind (gap ++ text)
          rw [List.append_assoc] at hbehind
          refine ⟨_, ?_, hbehind⟩
          rw [byteLength_append]
          omega

/-- A single backslash is the error only of a source that ends in a literal. -/
theorem open_of_lone {source : String} {position : Nat}
    (herror : tokenize source = .error ⟨.invalidEscape "\\", position⟩) :
    OpenToBackslash source.toList position := by
  obtain ⟨read, text, after, hreading, hrule⟩ := tokenize_eq_error_iff.mp herror
  obtain ⟨inner, rfl, rfl, hquotes, hlast⟩ := hrule.open_of_lone rfl
  obtain ⟨passed, hpassed, hplace, -⟩ := hreading.exists_passed
  rw [List.append_nil] at hpassed
  rw [Nat.zero_add] at hplace
  exact ⟨passed, inner, hpassed, hplace, hquotes, hlast⟩

example : tokenize "true \"\\x41\\" = .error ⟨.invalidEscape "\\", 5⟩ := by
  decide +kernel

/-- **Escape sequences are decoded exactly.**  A text is decoded if and only if it reads as parts to
its end, and then to what these stand for.  Otherwise the error is the part of the text that belongs
to the first malformed sequence.  The code of a hexadecimal escape never goes beyond 32 bits, and
that of an octal one always has a character, so nothing is ever put in its place.  Whether a source
is read step by step or as a whole, a single backslash is the error only of a literal that the
source does not close, and with which it ends. -/
theorem escapes_decoded_exactly :
    (∀ raw text, decode raw = .ok text ↔
      ∃ parts, ReadsParts raw parts [] ∧ text = parts.flatMap Part.denotation) ∧
    (∀ raw sequence, decode raw = .error sequence ↔
      ∃ parts after, raw = parts.flatMap Part.spelling ++ (sequence ++ after) ∧
        ReadsParts raw parts (sequence ++ after) ∧ IsMalformed sequence after) ∧
    (∀ letter width rest, (letter, width) ∈ hexEscapes →
      NeverOverflows 16 (digitsAhead 16 width rest)) ∧
    (∀ first rest, IsDigit 8 first →
      IsScalarValue (numeral 8 (first :: digitsAhead 8 2 rest)).toNat ∧
        ∃ c, character? (numeral 8 (first :: digitsAhead 8 2 rest)) = some c) ∧
    (∀ source count position,
      .error ⟨.invalidEscape "\\", position⟩ ∈ (Lexer.ofString source).steps count →
        OpenToBackslash source.toList position) ∧
    ∀ source position, tokenize source = .error ⟨.invalidEscape "\\", position⟩ →
      OpenToBackslash source.toList position := by
  refine ⟨fun raw text => decode_eq_ok_iff, fun raw sequence => ?_, ?_, ?_, ?_,
    fun source position => open_of_lone⟩
  · rw [decode_eq_error_iff]
    refine exists_congr fun parts => exists_congr fun after => ⟨fun hboth => ?_, And.right⟩
    exact ⟨hboth.1.raw_eq, hboth⟩
  · intro letter width rest hletter
    obtain ⟨after, -, hdigits⟩ := exists_isDigits (Nat.le_refl 16) width rest
    have hwidth := (read_hex hletter rest).1
    exact neverOverflows (Nat.le_refl 16) hdigits.mem (Nat.le_trans hdigits.length_le hwidth)
  · intro first rest hfirst
    obtain ⟨after, -, hmore⟩ := exists_isDigits (by decide : 8 ≤ 16) 2 rest
    have hdigits := isDigits_cons.mpr ⟨hfirst, hmore⟩
    have hscalar := isScalarValue_octal hdigits.mem hdigits.length_le
    rw [← hdigits.toNat_numeral (by decide) (by decide)] at hscalar
    exact ⟨hscalar, _, character?_of_isScalarValue hscalar⟩
  · intro source count position hstep
    obtain ⟨distance, rfl, hopen⟩ := Lexer.open_of_lone_step hstep
    rwa [Nat.zero_add]

end FlatScript
