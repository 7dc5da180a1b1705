import FlatScript.Token.Lexer

/-!
# The tokens that a source can have

A token without its place in the source is a `Piece`.  The pieces that some source has are the
proper ones: the symbols and keywords with their own text, words that are names, integers that are
not negative, and all strings.

This file shows the first half of that: a source that is cut into tokens is cut into proper pieces
and one end token, which is the last.
-/

namespace FlatScript

/-- A token without its place in the source. -/
structure Piece where
  kind : Token.Kind
  payload : Token.Payload
  deriving DecidableEq

/-- What a token is without its place. -/
def Token.piece (token : Token) : Piece :=
  ⟨token.kind, token.payload⟩

/-- The text of a kind of token that is always written the same. -/
def Token.Kind.spelling? : Token.Kind → Option String
  | .plus => some "+"
  | .minus => some "-"
  | .slash => some "/"
  | .star => some "*"
  | .leftParen => some "("
  | .rightParen => some ")"
  | .assign => some "="
  | .leftBrace => some "\x7b"
  | .rightBrace => some "\x7d"
  | .comma => some ","
  | .varWord => some "var"
  | .trueWord => some "true"
  | .falseWord => some "false"
  | .equal => some "=="
  | .less => some "<"
  | .greater => some ">"
  | .ifWord => some "if"
  | .elseifWord => some "elseif"
  | .elseWord => some "else"
  | .whileWord => some "while"
  | .funcWord => some "func"
  | .returnWord => some "return"
  | .integer | .string | .word | .eof => none

/-- A name: word characters, at least one, the first of them no digit, that are no keyword. -/
structure IsName (name : String) : Prop where
  start : ∃ c ∈ name.toList.head?, c.isDigit = false
  wordChars : ∀ c ∈ name.toList, Text.isWordChar c = true
  notKeyword : name ∉ Lexeme.keywords.map Prod.fst

/-- The pieces that a source can have. -/
inductive Piece.Proper : Piece → Prop
  | fixed {kind : Token.Kind} {text : String} (hspelling : kind.spelling? = some text) :
      Proper ⟨kind, .text text⟩
  | word {name : String} (hname : IsName name) : Proper ⟨.word, .text name⟩
  | integer {value : Int64} (hvalue : 0 ≤ value) : Proper ⟨.integer, .integer value⟩
  | string (text : String) : Proper ⟨.string, .text text⟩

namespace Piece.Proper

/-- No proper piece ends the source. -/
theorem kind_ne_eof {piece : Piece} (hproper : piece.Proper) : piece.kind ≠ .eof := by
  cases hproper with
  | fixed hspelling =>
      rintro rfl
      cases hspelling
  | word | integer | string => exact nofun

/-- A proper word is a name. -/
theorem isName {token : Token} (hproper : token.piece.Proper) (hkind : token.kind = .word) :
    IsName (token.text?.getD "") := by
  obtain ⟨kind, payload, span⟩ := token
  cases hkind
  cases hproper with
  | fixed hspelling => cases hspelling
  | word hname => exact hname

/-- A proper integer is not negative. -/
theorem nonneg {token : Token} {value : Int64} (hproper : token.piece.Proper)
    (hvalue : token.payload = .integer value) : 0 ≤ value := by
  obtain ⟨kind, payload, span⟩ := token
  cases hvalue
  cases hproper with
  | integer hnonneg => exact hnonneg

end Piece.Proper

/-! ### Lexemes are proper -/

namespace Lexeme

/-- What is found in a table is in it. -/
theorem mem_of_lookup {α β : Type} [BEq α] [LawfulBEq α] {table : List (α × β)} {key : α}
    {value : β} (hlookup : table.lookup key = some value) : (key, value) ∈ table := by
  obtain ⟨first, second, rfl, -⟩ := List.lookup_eq_some_iff.mp hlookup
  exact List.mem_append_right _ List.mem_cons_self

/-- The tables of the lexer give each kind its spelling. -/
theorem spelling?_of_mem_keywords :
    ∀ entry ∈ keywords, entry.2.spelling? = some entry.1 := by
  decide

theorem spelling?_of_mem_symbols :
    ∀ entry ∈ symbols, entry.2.spelling? = some (String.singleton entry.1) := by
  decide

/-- An integer that is read is proper. -/
theorem number_proper {c : Char} {rest : List Char} {kind : Token.Kind} {payload : Token.Payload}
    (hread : (number c rest).reading = .ok (kind, payload)) : Piece.Proper ⟨kind, payload⟩ := by
  simp only [number] at hread
  split at hread
  · next hlimit =>
      cases hread
      have hvalue := Int64.toInt_ofNat_of_lt hlimit
      refine .integer (Int64.le_iff_toInt_le.mpr ?_)
      rw [hvalue]
      exact Int.natCast_nonneg _
  · cases hread

/-- A word or keyword that is read is proper. -/
theorem word_proper {c : Char} {rest : List Char} {kind : Token.Kind} {payload : Token.Payload}
    (hstart : Text.isWordStart c = true) (hread : (word c rest).reading = .ok (kind, payload)) :
    Piece.Proper ⟨kind, payload⟩ := by
  simp only [word, Except.ok.injEq, Prod.mk.injEq] at hread
  obtain ⟨rfl, rfl⟩ := hread
  cases hlookup : keywords.lookup (String.ofList (c :: rest.takeWhile Text.isWordChar)) with
  | some keyword => exact .fixed (spelling?_of_mem_keywords _ (mem_of_lookup hlookup))
  | none =>
      simp only [Text.isWordStart, Bool.and_eq_true, Bool.not_eq_true'] at hstart
      refine .word ⟨⟨c, by simp, hstart.2⟩, ?_, ?_⟩
      · rw [String.toList_ofList, List.forall_mem_cons]
        exact ⟨hstart.1, List.all_eq_true.mp List.all_takeWhile⟩
      · rw [List.mem_map]
        rintro ⟨entry, hentry, hname⟩
        have hne := List.lookup_eq_none_iff.mp hlookup entry hentry
        simp [hname] at hne

/-- A string that is read is proper. -/
theorem string_proper {rest : List Char} {kind : Token.Kind} {payload : Token.Payload}
    (hread : (string rest).reading = .ok (kind, payload)) : Piece.Proper ⟨kind, payload⟩ := by
  simp only [string] at hread
  split at hread
  · cases hread
    exact .string _
  · cases hread

/-- A symbol that is read is proper. -/
theorem symbol_proper {c : Char} {rest : List Char} {kind : Token.Kind} {payload : Token.Payload}
    (hread : (symbol c rest).reading = .ok (kind, payload)) : Piece.Proper ⟨kind, payload⟩ := by
  simp only [symbol] at hread
  split at hread
  · cases hread
    exact .fixed rfl
  · split at hread
    · next hlookup =>
        cases hread
        exact .fixed (spelling?_of_mem_symbols _ (mem_of_lookup hlookup))
    · cases hread

/-- Whatever stands at the front of a text is a proper piece or has a fault. -/
theorem read_proper {c : Char} {rest : List Char} {kind : Token.Kind} {payload : Token.Payload}
    (hread : (read c rest).reading = .ok (kind, payload)) : Piece.Proper ⟨kind, payload⟩ := by
  simp only [read] at hread
  split at hread
  · exact number_proper hread
  · split at hread
    · next hstart => exact word_proper hstart hread
    · split at hread
      · exact string_proper hread
      · exact symbol_proper hread

end Lexeme

namespace Lexer

/-- A step gives a proper piece or the end token. -/
theorem next_proper {lexer : Lexer} {token : Token} (hnext : lexer.next.1 = .ok token)
    (hkind : token.kind ≠ .eof) : token.piece.Proper := by
  unfold next at hnext
  split at hnext
  · cases hnext
    exact absurd rfl hkind
  · next c rest offset _ =>
      simp only [readAt] at hnext
      split at hnext
      · next kind payload hread =>
          cases hnext
          exact Lexeme.read_proper hread
      · cases hnext

/-- The tokens from a place that has an end token. -/
theorem tokens_of_end {lexer : Lexer} {token : Token} (hnext : lexer.next.1 = .ok token)
    (hkind : token.kind = .eof) : lexer.tokens = .ok [token] := by
  rw [tokens]
  split
  · simp_all
  · next found hfound =>
      obtain rfl : found = token := by simpa [hfound] using hnext
      rw [dif_pos hkind]

/-- The tokens from a place that has another token. -/
theorem tokens_of_token {lexer : Lexer} {token : Token} (hnext : lexer.next.1 = .ok token)
    (hkind : token.kind ≠ .eof) : lexer.tokens = (token :: ·) <$> lexer.next.2.tokens := by
  rw [tokens]
  split
  · simp_all
  · next found hfound =>
      obtain rfl : found = token := by simpa [hfound] using hnext
      rw [dif_neg hkind, map_eq_pure_bind]

/-- The tokens of a source are proper, up to an end token that closes them. -/
theorem tokens_proper {lexer : Lexer} {read : List Token} (hread : lexer.tokens = .ok read) :
    ∃ body finish, read = body ++ [finish] ∧ finish.kind = .eof ∧
      ∀ token ∈ body, token.piece.Proper := by
  induction lexer using tokens.induct generalizing read with
  | case1 lexer error hnext =>
      rw [tokens] at hread
      split at hread <;> simp_all
  | case2 lexer token hnext hkind =>
      rw [tokens_of_end hnext hkind] at hread
      cases hread
      exact ⟨[], token, rfl, hkind, nofun⟩
  | case3 lexer token hnext hkind ih =>
      rw [tokens_of_token hnext hkind] at hread
      cases hmore : lexer.next.2.tokens with
      | error => simp [hmore, Functor.map, Except.map] at hread
      | ok more =>
          obtain ⟨body, finish, rfl, hfinish, hbody⟩ := ih hmore
          rw [hmore] at hread
          cases hread
          refine ⟨token :: body, finish, rfl, hfinish, ?_⟩
          rw [List.forall_mem_cons]
          exact ⟨next_proper hnext hkind, hbody⟩

end Lexer

/-- The tokens of a source as an option, which can be compared by evaluation. -/
theorem tokenize_of_toOption {source : String} {tokens : List Token}
    (htokens : (tokenize source).toOption = some tokens) : tokenize source = .ok tokens := by
  cases hsource : tokenize source with
  | error error =>
      rw [hsource] at htokens
      cases htokens
  | ok found =>
      rw [hsource] at htokens
      cases htokens
      rfl

end FlatScript
