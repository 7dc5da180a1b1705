import FlatScript.Proofs.Lexing.MaximalMunch
import FlatScript.Proofs.Lexing.Spelling

/-!
# The usual way of escaping

In many languages a text becomes a string literal by a backslash in front of each quote and of each
backslash.  Here this is right for all texts but those that end with a backslash.

The end of a literal is found by looking at one character back: a quote behind a backslash does not
end it, even if this backslash belongs to one in front of it.  Inside of the text this does no harm,
since a quote is never written there without a backslash of its own.  But where the text ends with a
backslash, the closing quote stands behind its second half, and becomes a part of the literal.
-/

namespace FlatScript

namespace StringLiteral

/-- A character as it is usually escaped. -/
def escapeChar (c : Char) : List Char :=
  if c = '"' ∨ c = '\\' then ['\\', c] else [c]

/-- A text with a backslash in front of each quote and of each backslash. -/
def escape (text : List Char) : List Char :=
  text.flatMap escapeChar

/-- A text with each backslash twice. -/
def doubleSlashes (text : List Char) : List Char :=
  text.flatMap fun c => if c = '\\' then ['\\', '\\'] else [c]

/-- The usual literal of a text. -/
def escaped (text : String) : String :=
  "\"" ++ String.ofList (escape text.toList) ++ "\""

/-- Induction along a text by what is done with its characters: quotes, backslashes and all
others. -/
@[elab_as_elim]
theorem char_induction {motive : List Char → Prop} (nil : motive [])
    (quote : ∀ text, motive text → motive ('"' :: text))
    (slash : ∀ text, motive text → motive ('\\' :: text))
    (plain : ∀ c text, c ≠ '"' → c ≠ '\\' → motive text → motive (c :: text))
    (text : List Char) : motive text := by
  induction text with
  | nil => exact nil
  | cons c text ih =>
      by_cases hquote : c = '"'
      · exact hquote ▸ quote text ih
      · by_cases hslash : c = '\\'
        · exact hslash ▸ slash text ih
        · exact plain c text hquote hslash ih

/-! ### The first pass -/

section Scan

variable {c : Char} (text : List Char) {tail : List Char}

theorem escape_quote : escape ('"' :: text) = '\\' :: '"' :: escape text := rfl

theorem escape_slash : escape ('\\' :: text) = '\\' :: '\\' :: escape text := rfl

/-- A character other than a quote and a backslash is not escaped. -/
theorem escape_plain (hquote : c ≠ '"') (hslash : c ≠ '\\') :
    escape (c :: text) = c :: escape text := by
  simp [escape, escapeChar, hquote, hslash]

/-- An escaped text ends with the character that the text ends with. -/
theorem getLast?_escape : (escape text).getLast? = text.getLast? := by
  rcases List.eq_nil_or_concat text with rfl | ⟨front, c, rfl⟩
  · rfl
  · have hlast : (escapeChar c).getLast? = some c := by
      unfold escapeChar
      split <;> rfl
    have hsplit : escape (front ++ [c]) = escape front ++ escapeChar c := by
      simp [escape]
    rw [List.concat_eq_append, hsplit, List.getLast?_append, hlast, List.getLast?_concat]
    rfl

/-- All quotes of an escaped text stand behind backslashes. -/
theorem quotesEscaped_escape (htail : QuotesEscaped tail) :
    QuotesEscaped (escape text ++ tail) := by
  induction text using char_induction with
  | nil => exact htail
  | quote text ih => exact ih.cons_pair
  | slash text ih => exact (ih.cons (by decide)).cons (by decide)
  | plain c text hquote hslash ih =>
      rw [escape_plain text hquote hslash]
      exact ih.cons hquote

/-- An escaped text does not start with a quote. -/
theorem head?_escape_ne (htail : tail.head? ≠ some '"') :
    (escape text ++ tail).head? ≠ some '"' := by
  induction text using char_induction with
  | nil => exact htail
  | quote text => simp [escape_quote]
  | slash text => simp [escape_slash]
  | plain c text hquote hslash => simp [escape_plain text hquote hslash, hquote]

/-- The first pass takes the backslashes of the quotes away and leaves the others twice. -/
theorem collect_escape (htail : tail.head? ≠ some '"') :
    collect (escape text ++ tail) = doubleSlashes text ++ collect tail := by
  induction text using char_induction with
  | nil => rfl
  | quote text ih =>
      simp only [escape_quote, List.cons_append, collect, ih]
      rfl
  | slash text ih =>
      -- The second backslash is in front of no quote, since what follows is escaped.
      have hsecond : collect ('\\' :: (escape text ++ tail)) =
          '\\' :: collect (escape text ++ tail) :=
        collect_cons fun _ => head?_escape_ne text htail
      have hfirst : collect ('\\' :: '\\' :: (escape text ++ tail)) =
          '\\' :: collect ('\\' :: (escape text ++ tail)) :=
        collect_cons fun _ => by simp
      rw [escape_slash, List.cons_append, List.cons_append, hfirst, hsecond, ih]
      rfl
  | plain c text hquote hslash ih =>
      have hplain : collect (c :: (escape text ++ tail)) = c :: collect (escape text ++ tail) :=
        collect_cons fun hc => absurd hc hslash
      rw [escape_plain text hquote hslash, List.cons_append, hplain, ih]
      simp [doubleSlashes, hslash]

end Scan

/-! ### The second pass -/

/-- Decoding gives the text back, and goes on behind it. -/
theorem decode_doubleSlashes (text tail : List Char) :
    decode (doubleSlashes text ++ tail) = (text ++ ·) <$> decode tail := by
  induction text with
  | nil => exact (id_map _).symm
  | cons c text ih =>
      by_cases hslash : c = '\\'
      · subst hslash
        have hdouble : doubleSlashes ('\\' :: text) ++ tail =
            '\\' :: '\\' :: (doubleSlashes text ++ tail) := rfl
        have hescape : Escape.read '\\' (doubleSlashes text ++ tail) = .ok ⟨['\\'], 0⟩ := rfl
        rw [hdouble, decode_escape hescape, List.drop_zero, ih, Functor.map_map]
        rfl
      · have hplain : doubleSlashes (c :: text) ++ tail = c :: (doubleSlashes text ++ tail) := by
          simp [doubleSlashes, hslash]
        rw [hplain, decode_plain hslash, ih, Functor.map_map]
        rfl

/-! ### The literal -/

/-- The literal of a text is the escaped text between quotes. -/
theorem toList_escaped (text : String) :
    (escaped text).toList = '"' :: (escape text.toList ++ ['"']) := by
  simp [escaped]

/-- The literal of a text that does not end with a backslash is read as this text. -/
theorem rule_escaped {text : String} (hlast : text.toList.getLast? ≠ some '\\') :
    Lexeme.Rule (escaped text).toList [] (.ok (.string, .text text)) := by
  have hbody : IsBody (escape text.toList) (escape text.toList ++ ['"']) [] := by
    refine .closed [] ?_ (by rwa [getLast?_escape])
    have hquotes := quotesEscaped_escape text.toList quotesEscaped_nil
    rwa [List.append_nil] at hquotes
  have hdecode : decode (collect (escape text.toList)) = .ok text.toList := by
    have hcollect : collect (escape text.toList ++ []) = doubleSlashes text.toList ++ [] :=
      collect_escape text.toList nofun
    rw [List.append_nil] at hcollect
    rw [hcollect, decode_doubleSlashes, decode]
    exact congrArg Except.ok (List.append_nil _)
  have hrule := Lexeme.Rule.string hbody hdecode
  rwa [String.ofList_toList, ← toList_escaped] at hrule

/-- The literal of a text that ends with a backslash goes on to the end of the source, and its
closing quote takes the place of the backslash. -/
theorem rule_escaped_slash (front : String) :
    Lexeme.Rule (escaped (front ++ "\\")).toList [] (.ok (.string, .text (front ++ "\""))) := by
  have hsource : (escaped (front ++ "\\")).toList =
      '"' :: (escape front.toList ++ ['\\', '\\', '"']) := by
    simp [toList_escaped, escape, escapeChar]
  have hquotes : QuotesEscaped (escape front.toList ++ ['\\', '\\', '"']) :=
    quotesEscaped_escape _ (quotesEscaped_nil.cons_pair.cons (by decide))
  -- Of the two backslashes, the second is taken for that of the quote, and the first for one that
  -- goes with the quote when it is decoded.
  have hdecode : decode (collect (escape front.toList ++ ['\\', '\\', '"'])) =
      .ok (front.toList ++ ['"']) := by
    rw [collect_escape front.toList (by decide), decode_doubleSlashes]
    have hescape : Escape.read '"' [] = .ok ⟨['"'], 0⟩ := rfl
    have hend : decode (collect ['\\', '\\', '"']) = (['"'] ++ ·) <$> decode [] :=
      decode_escape hescape
    rw [hend, decode]
    rfl
  have hrule := Lexeme.Rule.string (.unclosed hquotes) hdecode
  rw [String.ofList_append, String.ofList_toList, ← hsource] at hrule
  exact hrule

end StringLiteral

/-- A source that one rule reads to its end is one token. -/
theorem tokenize_of_rule {source : String} {kind : Token.Kind} {payload : Token.Payload}
    (hrule : Lexeme.Rule source.toList [] (.ok (kind, payload))) :
    tokenize source = .ok [⟨kind, payload, ⟨0, source.utf8ByteSize⟩⟩,
      Token.endAt source.utf8ByteSize] := by
  have hreading := Reading.token hrule (.stop (0 + byteLength source.toList) [])
  rw [List.append_nil, Nat.zero_add, byteLength_toList] at hreading
  exact Lexer.tokens_of_reading_to_end hreading

/-- A text that ends with a backslash is some text and this backslash. -/
theorem exists_eq_append_slash {text : String} (hlast : text.toList.getLast? = some '\\') :
    ∃ front, text = front ++ "\\" := by
  obtain ⟨front, hfront⟩ := List.getLast?_eq_some_iff.mp hlast
  refine ⟨String.ofList front, String.toList_injective ?_⟩
  rw [hfront, String.toList_append, String.toList_ofList]
  rfl

/-- **Escaping is right exactly for the texts that do not end with a backslash.**  The literal of
such a text is one token with this text.  If a text ends with a backslash, its literal is one token
too, which goes to the end of the source, but there is a quote in place of the last backslash. -/
theorem tokenize_escaped (text : String) :
    ((∃ span finish, tokenize (StringLiteral.escaped text) =
        .ok [⟨.string, .text text, span⟩, finish] ∧ finish.kind = .eof) ↔
      ¬∃ front, text = front ++ "\\") ∧
    ∀ front, text = front ++ "\\" → tokenize (StringLiteral.escaped text) =
      .ok [⟨.string, .text (front ++ "\""), ⟨0, (StringLiteral.escaped text).utf8ByteSize⟩⟩,
        Token.endAt (StringLiteral.escaped text).utf8ByteSize] := by
  have hends : ∀ front, text = front ++ "\\" → tokenize (StringLiteral.escaped text) =
      .ok [⟨.string, .text (front ++ "\""), ⟨0, (StringLiteral.escaped text).utf8ByteSize⟩⟩,
        Token.endAt (StringLiteral.escaped text).utf8ByteSize] := by
    rintro front rfl
    exact tokenize_of_rule (StringLiteral.rule_escaped_slash front)
  refine ⟨⟨?_, ?_⟩, hends⟩
  · rintro ⟨span, finish, htokens, -⟩ ⟨front, rfl⟩
    rw [hends front rfl] at htokens
    simp at htokens
  · intro hnone
    have hlast : text.toList.getLast? ≠ some '\\' := fun hlast =>
      hnone (exists_eq_append_slash hlast)
    exact ⟨_, _, tokenize_of_rule (StringLiteral.rule_escaped hlast), rfl⟩

end FlatScript
