import FlatScript.Proofs.Lexing.Rules

/-!
# Spelling tokens

Every proper piece has a text that is read as that piece wherever a blank or the end of the source
follows.  Pieces that are written one after the other, each behind a space, are therefore read as
the tokens they are.

In a string literal a quote is written with a backslash, and a backslash by its code: two
backslashes would not do, because the second of them joins a quote that follows.
-/

namespace FlatScript

namespace StringLiteral

/-- A character as it is written in a string literal. -/
def spellChar (c : Char) : List Char :=
  if c = '"' then ['\\', '"'] else if c = '\\' then ['\\', 'x', '5', 'c'] else [c]

/-- What is collected of a character that is written in a string literal. -/
def collectedChar (c : Char) : List Char :=
  if c = '\\' then ['\\', 'x', '5', 'c'] else [c]

/-- A string literal with the given text. -/
def spell (text : List Char) : List Char :=
  '"' :: (text.flatMap spellChar ++ ['"'])

/-- A text that is written in a string literal ends with the closing quote, whatever follows. -/
theorem isBody_spell (text rest : List Char) :
    IsBody (text.flatMap spellChar) (text.flatMap spellChar ++ ['"']) rest := by
  induction text with
  | nil => exact .closed rest quotesEscaped_nil nofun
  | cons c text ih =>
      rw [List.flatMap_cons, List.append_assoc, spellChar]
      by_cases hquote : c = '"'
      · rw [if_pos hquote]
        exact ih.cons_pair
      · rw [if_neg hquote]
        by_cases hslash : c = '\\'
        · rw [if_pos hslash]
          have hcode := ((ih.cons (c := 'c') (by decide) (by simp)).cons (c := '5') (by decide)
            (by simp)).cons (c := 'x') (by decide) (by simp)
          exact hcode.cons (by decide) (by simp)
        · rw [if_neg hslash]
          exact ih.cons hquote fun hc => absurd hc hslash

/-- What is collected of a spelled text is known character by character. -/
theorem collect_spell (text : List Char) :
    collect (text.flatMap spellChar) = text.flatMap collectedChar := by
  induction text with
  | nil => rfl
  | cons c text ih =>
      rw [List.flatMap_cons, List.flatMap_cons, spellChar, collectedChar]
      by_cases hquote : c = '"'
      · subst hquote
        simp [collect, ih]
      · by_cases hslash : c = '\\'
        · subst hslash
          simp [collect, ih]
        · simp [hquote, hslash, collect_cons, ih]

/-- A character other than a backslash stands for itself. -/
theorem decode_plain {c : Char} (hslash : c ≠ '\\') (rest : List Char) :
    decode (c :: rest) = (c :: ·) <$> decode rest := by
  rw [decode, map_eq_pure_bind]
  · exact fun h => absurd h hslash
  · exact fun _ _ h => absurd h hslash

/-- An escape sequence stands for its text, and what follows is decoded behind it. -/
theorem decode_escape {c : Char} {rest : List Char} {escape : Escape}
    (hescape : Escape.read c rest = .ok escape) :
    decode ('\\' :: c :: rest) = (escape.text ++ ·) <$> decode (rest.drop escape.extra) := by
  rw [decode, hescape, map_eq_pure_bind]
  rfl

/-- A malformed escape sequence is the error. -/
theorem decode_escape_error {c : Char} {rest sequence : List Char}
    (hescape : Escape.read c rest = .error sequence) :
    decode ('\\' :: c :: rest) = .error sequence := by
  rw [decode, hescape]
  rfl

/-- The code of the backslash stands for the backslash. -/
theorem decode_slash (rest : List Char) :
    decode ('\\' :: 'x' :: '5' :: 'c' :: rest) = ('\\' :: ·) <$> decode rest := by
  have hescape : Escape.read 'x' ('5' :: 'c' :: rest) = .ok ⟨['\\'], 2⟩ := rfl
  exact decode_escape hescape

/-- Decoding gives the text back. -/
theorem decode_collected (text : List Char) : decode (text.flatMap collectedChar) = .ok text := by
  induction text with
  | nil => simp [decode]
  | cons c text ih =>
      rw [List.flatMap_cons, collectedChar]
      by_cases hslash : c = '\\'
      · subst hslash
        rw [if_pos rfl]
        simp only [List.cons_append, List.nil_append, decode_slash, ih]
        rfl
      · rw [if_neg hslash, List.singleton_append, decode_plain hslash, ih]
        rfl

/-- A string literal with the given text is read as this text, whatever follows. -/
theorem rule_spell (text : String) (rest : List Char) :
    Lexeme.Rule (spell text.toList) rest (.ok (.string, .text text)) := by
  have hbody := isBody_spell text.toList rest
  have hdecode : decode (collect (text.toList.flatMap spellChar)) = .ok text.toList := by
    rw [collect_spell, decode_collected]
  have hrule := Lexeme.Rule.string hbody hdecode
  rw [String.ofList_toList] at hrule
  exact hrule

end StringLiteral

/-- The text of a piece. -/
def Piece.spelling : Piece → List Char
  | ⟨.string, .text value⟩ => StringLiteral.spell value.toList
  | ⟨_, .text value⟩ => value.toList
  | ⟨_, .integer value⟩ => Nat.toDigits 10 value.toNatClampNeg
  | ⟨_, .none⟩ => []

/-- The text of several pieces, each behind a space. -/
def Piece.spellAll (pieces : List Piece) : List Char :=
  pieces.flatMap fun piece => ' ' :: piece.spelling

/-- What may follow the text of a piece: a space, or the end of the source. -/
def Separated (rest : List Char) : Prop :=
  ∀ c ∈ rest.head?, c = ' '

/-- The text of the piece is read as that piece in front of anything that is separated from it. -/
def Piece.Spelled (piece : Piece) : Prop :=
  ∃ c more, piece.spelling = c :: more ∧ isBlank c = false ∧
    ∀ rest, Separated rest →
      Lexeme.read c (more ++ rest) = ⟨more.length, .ok (piece.kind, piece.payload)⟩

/-- A run of characters of a class without the space ends where a separated text starts. -/
theorem isRun_separated {isIn : Char → Bool} {run rest : List Char} (hne : run ≠ [])
    (hrun : ∀ c ∈ run, isIn c = true) (hspace : isIn ' ' = false) (hrest : Separated rest) :
    IsRun isIn run rest where
  ne_nil := hne
  mem := hrun
  ends := by
    intro c hc
    rwa [hrest c hc]

/-! ### Numbers in decimal -/

/-- A natural number is written with digits. -/
theorem isDigit_of_mem_toString {n : Nat} : ∀ c ∈ (toString n).toList, c.isDigit = true := by
  intro c hc
  rw [Nat.toString_eq_ofList_toDigits, String.toList_ofList] at hc
  exact Nat.isDigit_of_mem_toDigits (by decide) (by decide) hc

/-- A natural number is read back from its digits. -/
theorem ofDigitChars_toString (n : Nat) : Nat.ofDigitChars 10 (toString n).toList 0 = n := by
  rw [Nat.toString_eq_ofList_toDigits, String.toList_ofList]
  exact Nat.ofDigitChars_toDigits (by decide) (by decide)

/-! ### Every proper piece is spelled -/

namespace Piece

/-- A piece is spelled if a rule gives it in front of anything that is separated from it. -/
theorem spelled_of_rule {piece : Piece} (hrule : ∀ rest, Separated rest →
    Lexeme.Rule piece.spelling rest (.ok (piece.kind, piece.payload))) : piece.Spelled := by
  obtain ⟨c, more, hspelling, hblank, -⟩ := (hrule [] nofun).read_eq
  refine ⟨c, more, hspelling, hblank, fun rest hrest => ?_⟩
  obtain ⟨c', more', hspelling', -, hread⟩ := (hrule rest hrest).read_eq
  cases hspelling.symm.trans hspelling'
  exact hread

/-- A text that is not in quotes is written as it is. -/
theorem spelling_text {kind : Token.Kind} (hkind : kind ≠ .string) (text : String) :
    spelling ⟨kind, .text text⟩ = text.toList := by
  rw [spelling]
  rintro ⟨⟩
  exact hkind rfl

/-- A token that is always written the same is spelled. -/
theorem spelled_fixed {kind : Token.Kind} {text : String} (hspelling : kind.spelling? = some text) :
    Spelled ⟨kind, .text text⟩ := by
  have hkind : kind ≠ .string := by
    rintro rfl
    cases hspelling
  refine spelled_of_rule fun rest hrest => ?_
  rw [spelling_text hkind]
  rw [← String.ofList_toList (s := text)] at hspelling
  cases hkeyword : kind.isKeyword with
  | true =>
      have hentry := Lexeme.mem_keywords_of_spelling? hkeyword hspelling
      obtain ⟨-, -, hstart, hchars⟩ := Lexeme.lookup_of_mem_keywords _ hentry
      have hne : text.toList ≠ [] := by
        intro hnil
        simp [hnil] at hstart
      rw [String.ofList_toList] at hchars
      have hrun : IsRun Text.isWordChar text.toList rest :=
        isRun_separated hne (List.all_eq_true.mp hchars) (by decide) hrest
      have hrule := Lexeme.Rule.keyword hrun hkeyword hspelling
      rwa [String.ofList_toList] at hrule
  | false =>
      have halone : kind = .assign → rest.head? ≠ some '=' :=
        fun _ hhead => absurd (hrest '=' hhead) (by decide)
      have hrule := Lexeme.Rule.symbol hkeyword hspelling halone
      rwa [String.ofList_toList] at hrule

/-- A name is spelled. -/
theorem spelled_word {name : String} (hname : IsName name) : Spelled ⟨.word, .text name⟩ := by
  obtain ⟨c, hhead, hdigit⟩ := hname.start
  have hne : name.toList ≠ [] := by
    intro hnil
    simp [hnil] at hhead
  have hnoKeyword : ∀ kind : Token.Kind, kind.isKeyword = true →
      kind.spelling? ≠ some (String.ofList name.toList) := by
    intro kind hkind hspelling
    have hentry := Lexeme.mem_keywords_of_spelling? hkind hspelling
    rw [String.ofList_toList] at hentry
    exact hname.notKeyword (List.mem_map_of_mem hentry)
  refine spelled_of_rule fun rest hrest => ?_
  rw [spelling_text (by decide) name]
  have hrun : IsRun Text.isWordChar name.toList rest :=
    isRun_separated hne hname.wordChars (by decide) hrest
  have hrule := Lexeme.Rule.word hrun ⟨c, hhead, hdigit⟩ hnoKeyword
  rwa [String.ofList_toList] at hrule

/-- An integer that is not negative is spelled. -/
theorem spelled_integer {value : Int64} (hvalue : 0 ≤ value) :
    Spelled ⟨.integer, .integer value⟩ := by
  have hmem : ∀ c ∈ Nat.toDigits 10 value.toNatClampNeg, c.isDigit = true := fun c hc =>
    Nat.isDigit_of_mem_toDigits (by decide) (by decide) hc
  have hnumber : Nat.ofDigitChars 10 (Nat.toDigits 10 value.toNatClampNeg) 0 =
      value.toNatClampNeg := Nat.ofDigitChars_toDigits (by decide) (by decide)
  have hlimit : value.toNatClampNeg < Lexeme.integerLimit := Int64.toNatClampNeg_lt value
  refine spelled_of_rule fun rest hrest => ?_
  have hrun : IsRun Char.isDigit (Nat.toDigits 10 value.toNatClampNeg) rest :=
    isRun_separated Nat.toDigits_ne_nil hmem (by decide) hrest
  have hrule := Lexeme.Rule.integer hrun (by rwa [hnumber, ← Lexeme.lt_integerLimit_iff])
  rw [hnumber, Int64.ofNat_toNatClampNeg value hvalue] at hrule
  exact hrule

/-- Every string is spelled. -/
theorem spelled_string (text : String) : Spelled ⟨.string, .text text⟩ :=
  spelled_of_rule fun rest _ => StringLiteral.rule_spell text rest

/-- **Every proper piece has a text that is read as it.** -/
theorem Proper.spelled {piece : Piece} (hproper : piece.Proper) : piece.Spelled := by
  cases hproper with
  | fixed hspelling => exact spelled_fixed hspelling
  | word hname => exact spelled_word hname
  | integer hvalue => exact spelled_integer hvalue
  | string text => exact spelled_string text

end Piece

/-! ### Sources made of pieces -/

/-- Spelled pieces are separated from what is in front of them. -/
theorem separated_spellAll (pieces : List Piece) : Separated (Piece.spellAll pieces) := by
  cases pieces with
  | nil => exact nofun
  | cons piece pieces =>
      intro c hc
      simpa [Piece.spellAll] using hc.symm

namespace Lexer

/-- A spelled piece behind a space is the next token. -/
theorem next_spelled {piece : Piece} (hspelled : piece.Spelled) {rest : List Char}
    (hrest : Separated rest) (offset : Nat) :
    ∃ token stop, token.piece = piece ∧
      next ⟨' ' :: (piece.spelling ++ rest), offset⟩ = (.ok token, ⟨rest, stop⟩) := by
  obtain ⟨c, more, hspelling, hblank, hread⟩ := hspelled
  have hskip : skipBlanks ⟨' ' :: (piece.spelling ++ rest), offset⟩ =
      ⟨c :: (more ++ rest), offset + 1⟩ := by
    have hspace : isBlank ' ' = true := rfl
    rw [skipBlanks, hspelling, List.cons_append, List.dropWhile_cons_of_pos hspace,
      List.dropWhile_cons_of_neg (by simp [hblank]), List.takeWhile_cons_of_pos hspace,
      List.takeWhile_cons_of_neg (by simp [hblank])]
    rfl
  -- The lexeme takes the characters of the spelling and leaves what was separated from it.
  rw [next, hskip]
  simp only [readAt, hread rest hrest, List.drop_left]
  exact ⟨_, _, rfl, rfl⟩

/-- **Proper pieces are read back.**  The text of proper pieces is cut into tokens that are these
pieces, and an end token behind them. -/
theorem tokens_spellAll {pieces : List Piece} (hproper : ∀ piece ∈ pieces, piece.Proper)
    (offset : Nat) :
    ∃ body finish, tokens ⟨Piece.spellAll pieces, offset⟩ = .ok (body ++ [finish]) ∧
      body.map Token.piece = pieces ∧ finish.kind = .eof := by
  induction pieces generalizing offset with
  | nil => exact ⟨[], Token.endAt offset, tokens_of_end rfl rfl, rfl, rfl⟩
  | cons piece pieces ih =>
      rw [List.forall_mem_cons] at hproper
      obtain ⟨token, stop, hpiece, hnext⟩ :=
        next_spelled hproper.1.spelled (separated_spellAll pieces) offset
      obtain ⟨body, finish, htokens, hbody, hfinish⟩ := ih hproper.2 stop
      have hkind : token.kind ≠ .eof := by
        have hne := hproper.1.kind_ne_eof
        rwa [← hpiece] at hne
      have hrest := tokens_of_token (congrArg Prod.fst hnext) hkind
      rw [hnext, htokens] at hrest
      exact ⟨token :: body, finish, hrest, by rw [List.map_cons, hpiece, hbody], hfinish⟩

end Lexer

end FlatScript
