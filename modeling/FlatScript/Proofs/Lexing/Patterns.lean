import FlatScript.Proofs.Lexing.Rules

/-!
# The patterns of the tokens

Each kind of token has a pattern: a fixed text, or a run, which is one character of a class and any
number of characters of another.  Blanks have a pattern as well, and what it matches is skipped.

Of the patterns that match at a place in the source, the one that matches the longest piece counts,
and of those that match the same piece a fixed text counts before a run.  So a word that is spelled
like a keyword is the keyword, and one that only starts like it is a word.  A quote is a pattern of
its own, behind which the end of the literal is looked for.  Where no pattern matches, the one
character that stands there is a fault.

`Lexeme.Declares` says this.  The patterns leave no choice (`Lexeme.Declares.unique`), what they
give is what is read (`Lexeme.declares_iff_read`), and so they agree with the rules
(`Lexeme.rule_iff_declares`).
-/

namespace FlatScript.Lexeme

/-! ### Patterns and matches -/

/-- A pattern of text. -/
inductive Pattern where
  /-- One text. -/
  | fixed (text : String)
  /-- One character of a class, and any number of characters of another. -/
  | run (first more : Char → Bool)

namespace Pattern

/-- Whether a pattern stands for one text. -/
def isFixed : Pattern → Bool
  | .fixed _ => true
  | .run _ _ => false

/-- The pieces of text that a pattern matches. -/
inductive Matches : Pattern → List Char → Prop
  | fixed {text : String} {piece : List Char} (htext : text.toList = piece) :
      Matches (.fixed text) piece
  | run {first more : Char → Bool} {c : Char} {rest : List Char} (hfirst : first c = true)
      (hmore : ∀ d ∈ rest, more d = true) : Matches (.run first more) (c :: rest)

/-- The patterns of the tokens with their kinds.  What has no kind is skipped. -/
inductive Declared : Pattern → Option Token.Kind → Prop
  | blanks : Declared (.run isBlank isBlank) none
  | integer : Declared (.run Char.isDigit Char.isDigit) (some .integer)
  | quote : Declared (.fixed "\"") (some .string)
  | word : Declared (.run Text.isWordStart Text.isWordChar) (some .word)
  | spelled {kind : Token.Kind} {text : String} (hspelling : kind.spelling? = some text) :
      Declared (.fixed text) (some kind)

end Pattern

/-- `Chosen text pattern kind piece`: at the front of `text` the pattern of `kind` counts, and
`piece` is what it matches. -/
structure Chosen (text : List Char) (pattern : Pattern) (kind : Option Token.Kind)
    (piece : List Char) : Prop where
  declared : pattern.Declared kind
  matched : pattern.Matches piece
  front : piece <+: text
  longest : ∀ {other : Pattern} {kind' : Option Token.Kind} {piece' : List Char},
    other.Declared kind' → other.Matches piece' → piece' <+: text → piece'.length ≤ piece.length
  preferred : ∀ {other : Pattern} {kind' : Option Token.Kind},
    other.Declared kind' → other.Matches piece → other.isFixed = true → pattern.isFixed = true

/-- What is made of a match of the given kind: an integer is put together from its digits, a literal
goes on behind its quote, and any other token has its text. -/
def ofMatch (kind : Token.Kind) (c : Char) (rest more : List Char) : Lexeme :=
  match kind with
  | .integer =>
    ⟨more.length,
      if Nat.ofDigitChars 10 (c :: more) 0 ≤ 9223372036854775807 then
        .ok (.integer, .integer (Int64.ofNat (Nat.ofDigitChars 10 (c :: more) 0)))
      else .error (.integerTooLarge (String.ofList (c :: more)))⟩
  | .string => string rest
  | kind => ⟨more.length, .ok (kind, .text (String.ofList (c :: more)))⟩

/-- A token that is always written the same has its text. -/
theorem ofMatch_spelled {kind : Token.Kind} {text : String} (hspelling : kind.spelling? = some text)
    (c : Char) (rest more : List Char) :
    ofMatch kind c rest more = ⟨more.length, .ok (kind, .text (String.ofList (c :: more)))⟩ := by
  cases kind with
  | integer | string => cases hspelling
  | _ => rfl

/-- What the patterns make of the text that starts with `c` and goes on with `rest`. -/
inductive Declares (c : Char) (rest : List Char) : Lexeme → Prop
  | matched {pattern : Pattern} {kind : Token.Kind} {more : List Char}
      (hchosen : Chosen (c :: rest) pattern (some kind) (c :: more)) :
      Declares c rest (ofMatch kind c rest more)
  | unmatched (hnone : ∀ {pattern : Pattern} {kind : Option Token.Kind} {piece : List Char},
      pattern.Declared kind → pattern.Matches piece → ¬piece <+: c :: rest) :
      Declares c rest ⟨0, .error (.unexpectedCharacter c)⟩

/-! ### Fixed texts -/

/-- The first kind with the spelling of a kind is this kind itself. -/
theorem find?_spelling (kind : Token.Kind) : kind.spelling? = none ∨
    Token.Kind.all.find? (fun other => other.spelling? = kind.spelling?) = some kind := by
  cases kind <;> decide

/-- Kinds with the same spelling are the same. -/
theorem spelling?_inj {kind kind' : Token.Kind} {text : String}
    (hspelling : kind.spelling? = some text) (hspelling' : kind'.spelling? = some text) :
    kind = kind' := by
  have hfound := (find?_spelling kind).resolve_left (by simp [hspelling])
  have hfound' := (find?_spelling kind').resolve_left (by simp [hspelling'])
  rw [hspelling] at hfound
  rw [hspelling', hfound] at hfound'
  exact Option.some.inj hfound'

/-- No spelling is empty or a quote. -/
theorem spelling?_ne (kind : Token.Kind) :
    kind.spelling? ≠ some "" ∧ kind.spelling? ≠ some "\"" := by
  cases kind <;> decide

/-- A fixed text is the text of one kind. -/
theorem Pattern.Declared.fixed_unique {text : String} {kind kind' : Option Token.Kind}
    (hdeclared : (Pattern.fixed text).Declared kind)
    (hdeclared' : (Pattern.fixed text).Declared kind') : kind = kind' := by
  cases hdeclared with
  | quote =>
      cases hdeclared' with
      | quote => rfl
      | spelled hspelling => exact absurd hspelling (spelling?_ne _).2
  | spelled hspelling =>
      cases hdeclared' with
      | quote => exact absurd hspelling (spelling?_ne _).2
      | spelled hspelling' => rw [spelling?_inj hspelling hspelling']

/-! ### First characters -/

/-- A character that is neither blank nor in a number or word. -/
structure IsMark (c : Char) : Prop where
  not_blank : isBlank c = false
  not_digit : c.isDigit = false
  not_start : Text.isWordStart c = false

/-- A keyword is made of word characters, and does not start with a digit. -/
theorem isWordStart_of_keyword {kind : Token.Kind} {c : Char} {more : List Char}
    (hkind : kind.isKeyword = true)
    (hspelling : kind.spelling? = some (String.ofList (c :: more))) :
    Text.isWordStart c = true ∧ ∀ d ∈ c :: more, Text.isWordChar d = true := by
  obtain ⟨-, -, hstart, hword⟩ :=
    lookup_of_mem_keywords _ (mem_keywords_of_spelling? hkind hspelling)
  have hall : ∀ d ∈ c :: more, Text.isWordChar d = true := by
    rwa [String.toList_ofList, List.all_eq_true] at hword
  have hdigit : c.isDigit = false := by simpa using hstart
  have hc : Text.isWordChar c = true := hall c List.mem_cons_self
  exact ⟨by simp [Text.isWordStart, hc, hdigit], hall⟩

/-- Any other fixed text is a mark, or two equals signs. -/
theorem isMark_of_symbol {kind : Token.Kind} {c : Char} {more : List Char}
    (hkind : kind.isKeyword = false)
    (hspelling : kind.spelling? = some (String.ofList (c :: more))) :
    IsMark c ∧ c ∈ symbols.map Prod.fst ∧ (more = [] ∨ c = '=' ∧ more = ['=']) := by
  rcases mem_symbols_of_spelling? hkind hspelling with ⟨d, hentry, htext⟩ | ⟨-, htext⟩
  · cases String.ofList_injective htext
    obtain ⟨-, -, -, hdigit, hstart, -, hblank⟩ := lookup_of_mem_symbols _ hentry
    exact ⟨⟨hblank, hdigit, hstart⟩, List.mem_map_of_mem hentry, Or.inl rfl⟩
  · have hlist : c :: more = ['=', '='] := String.ofList_injective htext
    cases hlist
    exact ⟨⟨by decide, by decide, by decide⟩, by decide, Or.inr ⟨rfl, rfl⟩⟩

/-- What a kind is spelled like: the keywords start like words, and the other fixed texts do not. -/
theorem keyword_or_symbol {kind : Token.Kind} {c : Char} {more : List Char}
    (hspelling : kind.spelling? = some (String.ofList (c :: more))) :
    (kind.isKeyword = true ∧ Text.isWordStart c = true ∧
      ∀ d ∈ c :: more, Text.isWordChar d = true) ∨
    (IsMark c ∧ c ∈ symbols.map Prod.fst ∧ (more = [] ∨ c = '=' ∧ more = ['='])) := by
  cases hkind : kind.isKeyword with
  | true => exact Or.inl ⟨rfl, isWordStart_of_keyword hkind hspelling⟩
  | false => exact Or.inr (isMark_of_symbol hkind hspelling)

/-- The quote is a mark. -/
theorem isMark_quote : IsMark '"' :=
  ⟨by decide, by decide, by decide⟩

/-- A character is not in two of the classes that tokens start with. -/
theorem classes_disjoint (c : Char) : (isBlank c = true → c.isDigit = false) ∧
    (isBlank c = true → Text.isWordStart c = false) ∧
    (c.isDigit = true → Text.isWordStart c = false) := by
  have hblank : isBlank c = true → c.isDigit = false ∧ Text.isWordStart c = false := by
    intro hblank
    rcases isBlank_iff.mp hblank with rfl | rfl
    · decide
    · decide
  refine ⟨fun h => (hblank h).1, fun h => (hblank h).2, fun hdigit => ?_⟩
  simp [Text.isWordStart, hdigit]

namespace Pattern

variable {pattern other : Pattern} {kind kind' : Option Token.Kind} {c : Char}
  {more piece rest : List Char}

/-- What is matched at the front of a text starts like the text. -/
theorem Declared.exists_cons (hdeclared : pattern.Declared kind) (hmatched : pattern.Matches piece)
    (hfront : piece <+: c :: rest) : ∃ more, piece = c :: more := by
  have hne : piece ≠ [] := by
    rintro rfl
    cases hmatched with
    | fixed htext =>
        cases hdeclared with
        | quote => cases htext
        | spelled hspelling =>
            rw [String.toList_eq_nil_iff] at htext
            subst htext
            exact absurd hspelling (spelling?_ne _).1
  obtain ⟨d, more, rfl⟩ := List.exists_cons_of_ne_nil hne
  exact ⟨more, by rw [(List.cons_prefix_cons.mp hfront).1]⟩

/-- The pieces that patterns match, by their first character: blanks, digits, word characters, and
fixed texts that start with a mark. -/
inductive Front (pattern : Pattern) (kind : Option Token.Kind) (c : Char) (more : List Char) : Prop
  | blanks (hrun : pattern.isFixed = false) (hkind : kind = none)
      (hall : ∀ d ∈ c :: more, isBlank d = true)
  | digits (hrun : pattern.isFixed = false) (hkind : kind = some .integer)
      (hall : ∀ d ∈ c :: more, d.isDigit = true)
  | word (hstart : Text.isWordStart c = true) (hrun : pattern.isFixed = false → kind = some .word)
      (hall : ∀ d ∈ c :: more, Text.isWordChar d = true)
  | mark (hfixed : pattern.isFixed = true) (hmark : IsMark c)
      (hmore : more = [] ∨ c = '=' ∧ more = ['='])

/-- A fixed text that is matched is a quote or the spelling of a kind. -/
theorem Declared.quote_or_spelled (hdeclared : pattern.Declared kind)
    (hmatched : pattern.Matches piece) (hfixed : pattern.isFixed = true) :
    piece = ['"'] ∨ ∃ found, kind = some found ∧ found.spelling? = some (String.ofList piece) := by
  cases hmatched with
  | run => cases hfixed
  | fixed htext =>
      cases hdeclared with
      | quote => exact Or.inl htext.symm
      | spelled hspelling =>
          rw [← htext, String.ofList_toList]
          exact Or.inr ⟨_, rfl, hspelling⟩

/-- Each pattern matches pieces of one sort. -/
theorem Declared.front (hdeclared : pattern.Declared kind)
    (hmatched : pattern.Matches (c :: more)) : pattern.Front kind c more := by
  cases hdeclared with
  | blanks =>
      cases hmatched with
      | run hfirst hmore => exact .blanks rfl rfl (List.forall_mem_cons.mpr ⟨hfirst, hmore⟩)
  | integer =>
      cases hmatched with
      | run hfirst hmore => exact .digits rfl rfl (List.forall_mem_cons.mpr ⟨hfirst, hmore⟩)
  | word =>
      cases hmatched with
      | run hfirst hmore =>
          have hword : Text.isWordChar c = true := by
            simp only [Text.isWordStart, Bool.and_eq_true] at hfirst
            exact hfirst.1
          exact .word hfirst (fun _ => rfl) (List.forall_mem_cons.mpr ⟨hword, hmore⟩)
  | quote =>
      cases hmatched with
      | fixed htext =>
          cases htext
          exact .mark rfl isMark_quote (Or.inl rfl)
  | @spelled kind text hspelling =>
      cases hmatched with
      | fixed htext =>
          rw [← String.ofList_toList (s := text), htext] at hspelling
          rcases keyword_or_symbol hspelling with ⟨-, hstart, hall⟩ | ⟨hmark, -, hmore⟩
          · exact .word hstart (fun hrun => by cases hrun) hall
          · exact .mark rfl hmark hmore

/-- What starts with a blank is matched by the pattern of blanks. -/
theorem Declared.of_blank (hdeclared : pattern.Declared kind)
    (hmatched : pattern.Matches (c :: more)) (hblank : isBlank c = true) :
    pattern.isFixed = false ∧ kind = none ∧ ∀ d ∈ c :: more, isBlank d = true := by
  obtain ⟨hdigit, hword, -⟩ := classes_disjoint c
  cases hdeclared.front hmatched with
  | blanks hrun hkind hall => exact ⟨hrun, hkind, hall⟩
  | digits _ _ hall => simp [hdigit hblank] at hall
  | word hstart => simp [hword hblank] at hstart
  | mark _ hmark => simp [hmark.not_blank] at hblank

/-- What starts with a digit is matched by the pattern of integers. -/
theorem Declared.of_digit (hdeclared : pattern.Declared kind)
    (hmatched : pattern.Matches (c :: more)) (hdigit : c.isDigit = true) :
    pattern.isFixed = false ∧ kind = some .integer ∧ ∀ d ∈ c :: more, d.isDigit = true := by
  obtain ⟨hblank, -, hword⟩ := classes_disjoint c
  cases hdeclared.front hmatched with
  | blanks _ _ hall => simp [hblank (hall c List.mem_cons_self)] at hdigit
  | digits hrun hkind hall => exact ⟨hrun, hkind, hall⟩
  | word hstart => simp [hword hdigit] at hstart
  | mark _ hmark => simp [hmark.not_digit] at hdigit

/-- What starts like a word is matched by the pattern of words or by a keyword. -/
theorem Declared.of_start (hdeclared : pattern.Declared kind)
    (hmatched : pattern.Matches (c :: more)) (hstart : Text.isWordStart c = true) :
    (pattern.isFixed = false → kind = some .word) ∧
      ∀ d ∈ c :: more, Text.isWordChar d = true := by
  obtain ⟨-, hblank, hdigit⟩ := classes_disjoint c
  cases hdeclared.front hmatched with
  | blanks _ _ hall => simp [hblank (hall c List.mem_cons_self)] at hstart
  | digits _ _ hall => simp [hdigit (hall c List.mem_cons_self)] at hstart
  | word _ hrun hall => exact ⟨hrun, hall⟩
  | mark _ hmark => simp [hmark.not_start] at hstart

/-- Runs that match the same are of one kind. -/
theorem Declared.run_unique (hdeclared : pattern.Declared kind) (hdeclared' : other.Declared kind')
    (hmatched : pattern.Matches (c :: more)) (hmatched' : other.Matches (c :: more))
    (hrun : pattern.isFixed = false) (hrun' : other.isFixed = false) : kind = kind' := by
  cases hdeclared.front hmatched with
  | blanks _ hkind hall =>
      rw [hkind, (hdeclared'.of_blank hmatched' (hall c List.mem_cons_self)).2.1]
  | digits _ hkind hall =>
      rw [hkind, (hdeclared'.of_digit hmatched' (hall c List.mem_cons_self)).2.1]
  | word hstart hkind => rw [hkind hrun, (hdeclared'.of_start hmatched' hstart).1 hrun']
  | mark hfixed => simp [hrun] at hfixed

end Pattern

/-! ### The patterns leave no choice -/

/-- **At most one kind counts at a place, with one piece of text.** -/
theorem Chosen.unique {c : Char} {rest piece piece' : List Char} {pattern pattern' : Pattern}
    {kind kind' : Option Token.Kind} (hchosen : Chosen (c :: rest) pattern kind piece)
    (hchosen' : Chosen (c :: rest) pattern' kind' piece') : kind = kind' ∧ piece = piece' := by
  have hle := hchosen.longest hchosen'.declared hchosen'.matched hchosen'.front
  have hge := hchosen'.longest hchosen.declared hchosen.matched hchosen.front
  obtain rfl : piece = piece' :=
    (List.prefix_of_prefix_length_le hchosen.front hchosen'.front hge).eq_of_length_le hle
  refine ⟨?_, rfl⟩
  obtain ⟨more, rfl⟩ := hchosen.declared.exists_cons hchosen.matched hchosen.front
  cases hfixed : pattern.isFixed with
  | false =>
      have hfixed' : pattern'.isFixed = false := by
        rw [← Bool.not_eq_true]
        intro hother
        rw [hchosen.preferred hchosen'.declared hchosen'.matched hother] at hfixed
        cases hfixed
      exact hchosen.declared.run_unique hchosen'.declared hchosen.matched hchosen'.matched hfixed
        hfixed'
  | true =>
      have hfixed' := hchosen'.preferred hchosen.declared hchosen.matched hfixed
      cases hchosen.matched with
      | run => cases hfixed
      | fixed htext =>
          cases hchosen'.matched with
          | run => cases hfixed'
          | fixed htext' =>
              cases String.toList_injective (htext.trans htext'.symm)
              exact hchosen.declared.fixed_unique hchosen'.declared

/-- **The patterns make one thing of a text.** -/
theorem Declares.unique {c : Char} {rest : List Char} {lexeme lexeme' : Lexeme}
    (hdeclares : Declares c rest lexeme) (hdeclares' : Declares c rest lexeme') :
    lexeme = lexeme' := by
  cases hdeclares with
  | matched hchosen =>
      cases hdeclares' with
      | matched hchosen' =>
          obtain ⟨hkind, hpiece⟩ := hchosen.unique hchosen'
          cases hkind
          cases hpiece
          rfl
      | unmatched hnone => exact absurd hchosen.front (hnone hchosen.declared hchosen.matched)
  | unmatched hnone =>
      cases hdeclares' with
      | matched hchosen' => exact absurd hchosen'.front (hnone hchosen'.declared hchosen'.matched)
      | unmatched => rfl

/-! ### What is read is what the patterns make -/

section Complete

variable {c : Char} {more after : List Char}

/-- A run counts, if whatever is matched with the same first character is in its class. -/
theorem chosen_of_run {isIn : Char → Bool} {pattern : Pattern} {kind : Option Token.Kind}
    (hrun : IsRun isIn (c :: more) after) (hdeclared : pattern.Declared kind)
    (hmatched : pattern.Matches (c :: more))
    (hclass : ∀ {other : Pattern} {kind' : Option Token.Kind} {more' : List Char},
      other.Declared kind' → other.Matches (c :: more') → ∀ d ∈ c :: more', isIn d = true)
    (hpreferred : ∀ {other : Pattern} {kind' : Option Token.Kind}, other.Declared kind' →
      other.Matches (c :: more) → other.isFixed = true → pattern.isFixed = true) :
    Chosen (c :: (more ++ after)) pattern kind (c :: more) where
  declared := hdeclared
  matched := hmatched
  front := List.prefix_append (c :: more) after
  longest := by
    intro other kind' piece' hdeclared' hmatched' hfront'
    obtain ⟨more', rfl⟩ := hdeclared'.exists_cons hmatched' hfront'
    exact hrun.length_le hfront' (hclass hdeclared' hmatched')
  preferred := hpreferred

/-- A fixed text that starts with a mark counts, unless it is one of two equals signs. -/
theorem chosen_of_mark {text : String} {kind : Option Token.Kind} (hmark : IsMark c)
    (hdeclared : (Pattern.fixed text).Declared kind) (htext : text.toList = c :: more)
    (halone : c = '=' → more = [] → after.head? ≠ some '=') :
    Chosen (c :: (more ++ after)) (.fixed text) kind (c :: more) where
  declared := hdeclared
  matched := .fixed htext
  front := List.prefix_append (c :: more) after
  longest := by
    intro other kind' piece' hdeclared' hmatched' hfront'
    obtain ⟨more', rfl⟩ := hdeclared'.exists_cons hmatched' hfront'
    cases hdeclared'.front hmatched' with
    | blanks _ _ hall => simp [hmark.not_blank] at hall
    | digits _ _ hall => simp [hmark.not_digit] at hall
    | word hstart => simp [hmark.not_start] at hstart
    | mark _ _ hmore =>
        rcases hmore with rfl | ⟨rfl, rfl⟩
        · simp
        · cases more with
          | nil =>
              obtain ⟨rest, hrest⟩ := hfront'
              cases hrest
              exact absurd rfl (halone rfl rfl)
          | cons => simp
  preferred := fun _ _ _ => rfl

/-- Blanks are skipped for as long as they go on. -/
theorem chosen_of_blank (hblank : isBlank c = true) (rest : List Char) :
    Chosen (c :: rest) (.run isBlank isBlank) none (c :: rest.takeWhile isBlank) := by
  have hrun := isRun_takeWhile hblank rest
  obtain ⟨-, hmore⟩ := List.forall_mem_cons.mp hrun.mem
  have hchosen := chosen_of_run hrun .blanks (.run hblank hmore)
    (fun hdeclared hmatched => (hdeclared.of_blank hmatched hblank).2.2)
    (fun hdeclared hmatched hfixed => by simp [hdeclared.of_blank hmatched hblank] at hfixed)
  rwa [List.takeWhile_append_dropWhile] at hchosen

/-- A run of digits counts as an integer. -/
theorem chosen_of_digits (hrun : IsRun Char.isDigit (c :: more) after) :
    Chosen (c :: (more ++ after)) (.run Char.isDigit Char.isDigit) (some .integer) (c :: more) := by
  obtain ⟨hdigit, hmore⟩ := List.forall_mem_cons.mp hrun.mem
  exact chosen_of_run hrun .integer (.run hdigit hmore)
    (fun hdeclared hmatched => (hdeclared.of_digit hmatched hdigit).2.2)
    (fun hdeclared hmatched hfixed => by simp [hdeclared.of_digit hmatched hdigit] at hfixed)

/-- A keyword counts before the word that it is. -/
theorem chosen_of_keyword {kind : Token.Kind} (hrun : IsRun Text.isWordChar (c :: more) after)
    (hkind : kind.isKeyword = true)
    (hspelling : kind.spelling? = some (String.ofList (c :: more))) :
    Chosen (c :: (more ++ after)) (.fixed (String.ofList (c :: more))) (some kind) (c :: more) :=
  have hstart := (isWordStart_of_keyword hkind hspelling).1
  chosen_of_run hrun (.spelled hspelling) (.fixed String.toList_ofList)
    (fun hdeclared hmatched => (hdeclared.of_start hmatched hstart).2) (fun _ _ _ => rfl)

/-- A word that is no keyword counts. -/
theorem chosen_of_word (hrun : IsRun Text.isWordChar (c :: more) after)
    (hdigit : c.isDigit = false) (hname : ∀ kind : Token.Kind, kind.isKeyword = true →
      kind.spelling? ≠ some (String.ofList (c :: more))) :
    Chosen (c :: (more ++ after)) (.run Text.isWordStart Text.isWordChar) (some .word)
      (c :: more) := by
  obtain ⟨hword, hmore⟩ := List.forall_mem_cons.mp hrun.mem
  have hstart : Text.isWordStart c = true := by simp [Text.isWordStart, hword, hdigit]
  refine chosen_of_run hrun .word (.run hstart hmore)
    (fun hdeclared hmatched => (hdeclared.of_start hmatched hstart).2) ?_
  -- A fixed text that is the whole word would be a keyword.
  intro other kind' hdeclared hmatched hfixed
  rcases hdeclared.quote_or_spelled hmatched hfixed with hquote | ⟨kind, -, hspelling⟩
  · cases hquote
    exact absurd hstart (by decide)
  · rcases keyword_or_symbol hspelling with ⟨hkind, -, -⟩ | ⟨hmark, -, -⟩
    · exact absurd hspelling (hname kind hkind)
    · simp [hmark.not_start] at hstart

/-- Another character starts nothing that a pattern matches. -/
theorem unmatched_of_isOther (hother : IsOther c) {rest piece : List Char} {pattern : Pattern}
    {kind : Option Token.Kind} (hdeclared : pattern.Declared kind)
    (hmatched : pattern.Matches piece) : ¬piece <+: c :: rest := by
  intro hfront
  obtain ⟨more, rfl⟩ := hdeclared.exists_cons hmatched hfront
  cases hdeclared.front hmatched with
  | blanks _ _ hall => simp [hother.not_blank] at hall
  | digits _ _ hall => simp [hother.not_digit] at hall
  | word _ _ hall => simp [hother.not_word] at hall
  | mark hfixed hmark =>
      rcases hdeclared.quote_or_spelled hmatched hfixed with hquote | ⟨found, -, hspelling⟩
      · cases hquote
        exact hother.not_quote rfl
      · rcases keyword_or_symbol hspelling with ⟨-, hstart, -⟩ | ⟨-, hsymbol, -⟩
        · simp [hmark.not_start] at hstart
        · exact hother.not_symbol hsymbol

/-- **What a rule gives, the patterns make.** -/
theorem Rule.declares {reading : Except LexFault (Token.Kind × Token.Payload)}
    (hrule : Rule (c :: more) after reading) :
    Declares c (more ++ after) ⟨more.length, reading⟩ := by
  have hquote : ∀ rest : List Char, Declares '"' rest (Lexeme.string rest) := by
    intro rest
    exact .matched (chosen_of_mark isMark_quote .quote rfl
      (fun hequals => absurd hequals (by decide)))
  cases hrule with
  | integer hrun hvalue =>
      have hdeclares := Declares.matched (chosen_of_digits hrun)
      rwa [ofMatch, if_pos hvalue] at hdeclares
  | integerTooLarge hrun hvalue =>
      have hdeclares := Declares.matched (chosen_of_digits hrun)
      rwa [ofMatch, if_neg (Nat.not_le.mpr hvalue)] at hdeclares
  | keyword hrun hkind hspelling =>
      have hdeclares := Declares.matched (chosen_of_keyword hrun hkind hspelling)
      rwa [ofMatch_spelled hspelling] at hdeclares
  | word hrun hstart hname =>
      have hdigit : c.isDigit = false := by simpa using hstart
      exact .matched (chosen_of_word hrun hdigit hname)
  | symbol hkind hspelling halone =>
      have hmark := (isMark_of_symbol hkind hspelling).1
      have hdeclares := Declares.matched (chosen_of_mark hmark (.spelled hspelling)
        String.toList_ofList (fun hequals hmore => halone ?_))
      · rwa [ofMatch_spelled hspelling] at hdeclares
      · subst hequals hmore
        exact spelling?_inj hspelling rfl
  | string hbody hdecode =>
      have hread := read_body hbody
      rw [hdecode] at hread
      exact hread ▸ hquote _
  | invalidEscape hbody hdecode =>
      have hread := read_body hbody
      rw [hdecode] at hread
      exact hread ▸ hquote _
  | unexpectedCharacter after hother => exact .unmatched (unmatched_of_isOther hother)

end Complete

/-- Blanks make no token. -/
theorem Declares.not_blank {c : Char} {rest : List Char} {lexeme : Lexeme}
    (hdeclares : Declares c rest lexeme) : isBlank c = false := by
  rw [← Bool.not_eq_true]
  intro hblank
  have hblanks := chosen_of_blank hblank rest
  cases hdeclares with
  | matched hchosen => cases (hchosen.unique hblanks).1
  | unmatched hnone => exact hnone hblanks.declared hblanks.matched hblanks.front

/-- **What the patterns make of a text is what is read there**, and nothing is made of blanks. -/
theorem declares_iff_read {c : Char} {rest : List Char} {lexeme : Lexeme} :
    Declares c rest lexeme ↔ isBlank c = false ∧ read c rest = lexeme := by
  have hread : isBlank c = false → Declares c rest (read c rest) := by
    intro hblank
    have hrule : Rule (c :: rest.take (read c rest).extra) (rest.drop (read c rest).extra)
        (read c rest).reading := rule_read hblank
    obtain ⟨d, more, htext, -, hread⟩ := hrule.read_eq
    have hdeclares := hrule.declares
    cases htext
    rw [List.take_append_drop] at hread hdeclares
    rwa [hread]
  constructor
  · intro hdeclares
    exact ⟨hdeclares.not_blank, (hread hdeclares.not_blank).unique hdeclares⟩
  · rintro ⟨hblank, rfl⟩
    exact hread hblank

/-- **The rules are those of the patterns.** -/
theorem rule_iff_declares {c : Char} {more after : List Char}
    {reading : Except LexFault (Token.Kind × Token.Payload)} :
    Rule (c :: more) after reading ↔ Declares c (more ++ after) ⟨more.length, reading⟩ := by
  refine ⟨Rule.declares, fun hdeclares => ?_⟩
  obtain ⟨hblank, hread⟩ := declares_iff_read.mp hdeclares
  have hrule : Rule (c :: (more ++ after).take (read c (more ++ after)).extra)
      ((more ++ after).drop (read c (more ++ after)).extra) (read c (more ++ after)).reading :=
    rule_read hblank
  rwa [hread, List.take_left, List.drop_left] at hrule

end FlatScript.Lexeme
