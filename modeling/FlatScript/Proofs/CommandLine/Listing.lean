import Mathlib.Data.List.Forall2
import Std.Data.String.ToInt
import FlatScript.CommandLine
import FlatScript.Proofs.Lexing.Numerals
import FlatScript.Proofs.Lexing.Spelling

/-!
# Token listings are lossless

The line of a token can be read back.  The name of its kind is what stands in front of the first
space.  Behind it an integer starts with a digit or a minus sign and a text with a quote, so that
the two are not taken for each other.  In quoted text, what is written for a character says where it
ends: a backslash starts a letter or a number in braces, and every other character stands for
itself.

No line has a newline in it, since the newlines of a text are escaped.  So the lines of a listing
can be told apart, and the listing says which tokens it is about.  None of this depends on which
characters count as hidden.
-/

namespace FlatScript

/-! ### Hexadecimal numbers -/

namespace StringLiteral

/-- The digits below sixteen are looked up as their values. -/
theorem lookup_digitChar : ∀ value < 16, digitTable.lookup (Nat.digitChar value) = some value := by
  decide

/-- A number in hexadecimal has digits only, and these denote the number. -/
theorem toDigits_hexadecimal (n : Nat) :
    (∀ c ∈ Nat.toDigits 16 n, IsDigit 16 c) ∧ exactNumeral 16 (Nat.toDigits 16 n) = n := by
  have hdigit : ∀ value < 16, IsDigit 16 (Nat.digitChar value) :=
    fun value hvalue => ⟨value, hvalue, lookup_digitChar value hvalue⟩
  induction n using Nat.strongRecOn with
  | ind n ih =>
      by_cases hn : n < 16
      · rw [Nat.toDigits_of_lt_base hn]
        refine ⟨List.forall_mem_singleton.mpr (hdigit n hn), ?_⟩
        simp [exactNumeral, lookup_digitChar n hn]
      · obtain ⟨hfront, hvalue⟩ := ih (n / 16) (by omega)
        have hlast : n % 16 < 16 := Nat.mod_lt _ (by decide)
        rw [Nat.toDigits_of_base_le (by decide) (by omega)]
        refine ⟨List.forall_mem_append.mpr ⟨hfront, List.forall_mem_singleton.mpr (hdigit _ hlast)⟩,
          ?_⟩
        rw [exactNumeral_concat, hvalue, lookup_digitChar _ hlast, Option.getD_some]
        omega

end StringLiteral

/-! ### Quoted text -/

namespace Text

/-- The letters behind a backslash and the characters that they stand for. -/
def escapeLetters : List (Char × Char) :=
  [('0', '\x00'), ('t', '\t'), ('r', '\r'), ('n', '\n'), ('\\', '\\'), ('"', '"')]

/-- The ways of writing a character in quoted text. -/
inductive WrittenAs (c : Char) : List Char → Prop
  | letter {letter : Char} (hletter : escapeLetters.lookup letter = some c) :
      WrittenAs c ['\\', letter]
  | number : WrittenAs c ('\\' :: 'u' :: '\x7b' :: (Nat.toDigits 16 c.toNat ++ ['\x7d']))
  | plain (hquote : c ≠ '"') (hslash : c ≠ '\\') (hnewline : c ≠ '\n') : WrittenAs c [c]

/-- Whichever characters are hidden, a character is written in one of these ways. -/
theorem writtenAs_escapeChar (hidden : Char → Bool) (c : Char) :
    WrittenAs c (escapeChar hidden '"' c) := by
  fun_cases escapeChar hidden '"' c with
  | case1 hc => exact .letter (by rw [hc]; rfl)
  | case2 _ hc => exact .letter (by rw [hc]; rfl)
  | case3 _ _ hc => exact .letter (by rw [hc]; rfl)
  | case4 _ _ _ hc => exact .letter (by rw [hc]; rfl)
  | case5 _ _ _ _ hc => exact .letter (by rw [hc]; rfl)
  | case6 _ _ _ _ _ hc => exact .letter (by rw [hc]; rfl)
  | case7 => exact .number
  | case8 _ _ _ hnewline hslash hquote => exact .plain hquote hslash hnewline

/-- Reads the character that is written at the front of a text. -/
def readChar : List Char → Option (Char × List Char)
  | [] => none
  | '\\' :: 'u' :: '\x7b' :: rest =>
    some (Char.ofNat (StringLiteral.exactNumeral 16 (rest.takeWhile (· != '\x7d'))),
      (rest.dropWhile (· != '\x7d')).tail)
  | '\\' :: letter :: rest => (escapeLetters.lookup letter).map (·, rest)
  | c :: rest => some (c, rest)

/-- A character that is no digit is not in a hexadecimal number. -/
theorem notMem_toDigits {c : Char} (hc : StringLiteral.digitTable.lookup c = none) (n : Nat) :
    c ∉ Nat.toDigits 16 n := by
  intro hmem
  obtain ⟨value, -, hlookup⟩ := (StringLiteral.toDigits_hexadecimal n).1 c hmem
  rw [hc] at hlookup
  cases hlookup

namespace WrittenAs

variable {c : Char} {written : List Char}

/-- **What is written for a character is read as this character**, whatever follows. -/
theorem readChar_eq (hwritten : WrittenAs c written) (rest : List Char) :
    readChar (written ++ rest) = some (c, rest) := by
  cases hwritten with
  | @letter letter hletter =>
      have hread : readChar ('\\' :: letter :: rest) =
          (escapeLetters.lookup letter).map (·, rest) := by
        rw [readChar]
        rintro _ rfl
        cases hletter
      rw [List.cons_append, List.cons_append, List.nil_append, hread, hletter, Option.map_some]
  | number =>
      have hbrace : ∀ digit ∈ Nat.toDigits 16 c.toNat, (digit != '\x7d') = true := by
        intro digit hdigit
        rw [bne_iff_ne]
        rintro rfl
        exact notMem_toDigits rfl c.toNat hdigit
      have hdigits : (Nat.toDigits 16 c.toNat ++ '\x7d' :: rest).takeWhile (· != '\x7d') =
          Nat.toDigits 16 c.toNat := by
        simp [List.takeWhile_append_of_pos hbrace]
      have hrest : (Nat.toDigits 16 c.toNat ++ '\x7d' :: rest).dropWhile (· != '\x7d') =
          '\x7d' :: rest := by
        simp [List.dropWhile_append_of_pos hbrace]
      have hread : readChar ('\\' :: 'u' :: '\x7b' :: (Nat.toDigits 16 c.toNat ++ '\x7d' :: rest)) =
          some (c, rest) := by
        rw [readChar, hdigits, hrest, (StringLiteral.toDigits_hexadecimal c.toNat).2,
          Char.ofNat_toNat, List.tail_cons]
      simpa using hread
  | plain hquote hslash hnewline =>
      rw [List.singleton_append, readChar]
      · rintro _ rfl
        exact absurd rfl hslash
      · rintro _ _ rfl
        exact absurd rfl hslash

/-- No newline is written. -/
theorem newline_notMem (hwritten : WrittenAs c written) : '\n' ∉ written := by
  cases hwritten with
  | letter hletter =>
      simp only [List.mem_cons, List.not_mem_nil, or_false, not_or]
      refine ⟨by decide, ?_⟩
      rintro rfl
      cases hletter
  | number =>
      have hdigits : '\n' ∉ Nat.toDigits 16 c.toNat := notMem_toDigits rfl c.toNat
      simp [hdigits]
  | plain hquote hslash hnewline => simpa using Ne.symm hnewline

/-- What is written does not start with a quote. -/
theorem head?_append_ne (hwritten : WrittenAs c written) (rest : List Char) :
    (written ++ rest).head? ≠ some '"' := by
  cases hwritten with
  | letter | number => simp
  | plain hquote => simpa using hquote

end WrittenAs

/-- Quoted text tells the text: the characters are read one after the other, up to the closing
quote. -/
theorem quoteWith_inj {hidden : Char → Bool} {cs cs' : List Char}
    (hsame : quoteWith hidden '"' cs = quoteWith hidden '"' cs') : cs = cs' := by
  have hwritten := writtenAs_escapeChar hidden
  unfold quoteWith at hsame
  rw [List.cons_append, List.cons_append] at hsame
  replace hsame := (List.cons.inj hsame).2
  induction cs generalizing cs' with
  | nil =>
      cases cs' with
      | nil => rfl
      | cons c' cs' =>
          rw [List.flatMap_cons, List.append_assoc] at hsame
          exact absurd (congrArg List.head? hsame.symm) ((hwritten c').head?_append_ne _)
  | cons c cs ih =>
      rw [List.flatMap_cons, List.append_assoc] at hsame
      cases cs' with
      | nil => exact absurd (congrArg List.head? hsame) ((hwritten c).head?_append_ne _)
      | cons c' cs' =>
          rw [List.flatMap_cons, List.append_assoc] at hsame
          have hread := congrArg readChar hsame
          rw [(hwritten c).readChar_eq, (hwritten c').readChar_eq] at hread
          obtain ⟨rfl, hrest⟩ := Prod.mk.inj (Option.some.inj hread)
          rw [ih hrest]

/-- There is no newline in quoted text. -/
theorem newline_notMem_quoteWith (hidden : Char → Bool) (cs : List Char) :
    '\n' ∉ quoteWith hidden '"' cs := by
  have hbody : '\n' ∉ cs.flatMap (escapeChar hidden '"') := by
    rw [List.mem_flatMap]
    rintro ⟨c, -, hc⟩
    exact (writtenAs_escapeChar hidden c).newline_notMem hc
  simp [quoteWith, hbody]

end Text

/-! ### The line of a token -/

namespace Token

/-- A kind is found by its name. -/
theorem Kind.ofName?_name (kind : Kind) : Kind.ofName? kind.name = some kind := by
  cases kind <;> rfl

theorem Kind.name_inj {kind kind' : Kind} (hname : kind.name = kind'.name) : kind = kind' := by
  have hkind := kind.ofName?_name
  rw [hname, Kind.ofName?_name] at hkind
  exact (Option.some.inj hkind).symm

/-- The name of a kind is one word. -/
theorem Kind.name_isWord (kind : Kind) :
    kind.name.toList ≠ [] ∧ ' ' ∉ kind.name.toList ∧ '\n' ∉ kind.name.toList := by
  cases kind <;> decide

/-- What stands behind the name of the kind in the line of a token. -/
def Payload.suffix (hidden : Char → Bool) : Payload → List Char
  | .integer value => ' ' :: (toString value.toInt).toList
  | .text value => ' ' :: Text.quoteWith hidden '"' value.toList
  | .none => []

section Line

variable {hidden : Char → Bool}

/-- The line of a token is the name of its kind and what stands behind it. -/
theorem toList_listingBy (token : Token) :
    (token.listingBy hidden).toList = token.kind.name.toList ++ token.payload.suffix hidden := by
  obtain ⟨kind, payload, span⟩ := token
  cases payload <;> simp [listingBy, Payload.suffix, Text.quotedBy]

/-- An integer is written with digits and a minus sign. -/
theorem sign_or_digit_of_mem_toString {value : Int} :
    ∀ c ∈ (toString value).toList, c = '-' ∨ c.isDigit = true := by
  intro c hc
  cases value with
  | ofNat n => exact Or.inr (isDigit_of_mem_toString c hc)
  | negSucc n =>
      have hsign : toString (Int.negSucc n) = "-" ++ toString (n + 1) := rfl
      rw [hsign, String.toList_append, List.mem_append] at hc
      rcases hc with hminus | hdigit
      · exact Or.inl (List.mem_singleton.mp hminus)
      · exact Or.inr (isDigit_of_mem_toString c hdigit)

/-- There is no newline behind the name. -/
theorem Payload.newline_notMem_suffix (payload : Payload) : '\n' ∉ payload.suffix hidden := by
  cases payload with
  | integer value =>
      intro hmem
      rcases List.mem_cons.mp hmem with hspace | hmem
      · exact absurd hspace (by decide)
      · exact absurd (sign_or_digit_of_mem_toString _ hmem) (by decide)
  | text value =>
      intro hmem
      rcases List.mem_cons.mp hmem with hspace | hmem
      · exact absurd hspace (by decide)
      · exact Text.newline_notMem_quoteWith _ _ hmem
  | none => exact List.not_mem_nil

/-- The payload can be told from what stands behind the name. -/
theorem Payload.suffix_inj {payload payload' : Payload}
    (hsame : payload.suffix hidden = payload'.suffix hidden) : payload = payload' := by
  have hquote : ∀ {value : Int} {text : String},
      (toString value).toList ≠ Text.quoteWith hidden '"' text.toList := by
    intro value text hsame
    have hmem : '"' ∈ (toString value).toList := hsame ▸ List.mem_cons_self
    exact absurd (sign_or_digit_of_mem_toString _ hmem) (by decide)
  cases payload with
  | integer value =>
      cases payload' with
      | integer value' =>
          have htext := String.toList_injective (List.cons.inj hsame).2
          rw [Int.toString_eq_repr, Int.toString_eq_repr, Int.repr_inj, Int64.toInt_inj] at htext
          rw [htext]
      | text value' => exact absurd (List.cons.inj hsame).2 hquote
      | none => cases hsame
  | text value =>
      cases payload' with
      | integer value' => exact absurd (List.cons.inj hsame).2.symm hquote
      | text value' =>
          rw [String.toList_injective (Text.quoteWith_inj (List.cons.inj hsame).2)]
      | none => cases hsame
  | none =>
      cases payload' with
      | integer | text => cases hsame
      | none => rfl

/-- The name is what stands in front of the first space. -/
theorem takeWhile_listingBy (token : Token) :
    (token.listingBy hidden).toList.takeWhile (· != ' ') = token.kind.name.toList := by
  have hname : ∀ c ∈ token.kind.name.toList, (c != ' ') = true := by
    intro c hc
    rw [bne_iff_ne]
    rintro rfl
    exact token.kind.name_isWord.2.1 hc
  have hsuffix : (token.payload.suffix hidden).takeWhile (· != ' ') = [] := by
    cases token.payload <;> rfl
  rw [toList_listingBy, List.takeWhile_append_of_pos hname, hsuffix, List.append_nil]

/-- Two tokens have the same kind and the same payload. -/
def SameContent (token token' : Token) : Prop :=
  token.kind = token'.kind ∧ token.payload = token'.payload

/-- **The line of a token tells its kind and its payload.** -/
theorem listingBy_eq_iff {token token' : Token} :
    token.listingBy hidden = token'.listingBy hidden ↔ token.SameContent token' := by
  constructor
  · intro hsame
    have hname : token.kind.name.toList = token'.kind.name.toList := by
      rw [← takeWhile_listingBy, hsame, takeWhile_listingBy]
    have hkind := Kind.name_inj (String.toList_injective hname)
    have hlist := congrArg String.toList hsame
    rw [toList_listingBy, toList_listingBy, hname] at hlist
    exact ⟨hkind, Payload.suffix_inj (List.append_cancel_left hlist)⟩
  · rintro ⟨hkind, hpayload⟩
    apply String.toList_injective
    rw [toList_listingBy, toList_listingBy, hkind, hpayload]

/-- There is no newline in the line of a token. -/
theorem newline_notMem_listingBy (token : Token) : '\n' ∉ (token.listingBy hidden).toList := by
  rw [toList_listingBy, List.mem_append, not_or]
  exact ⟨token.kind.name_isWord.2.2, token.payload.newline_notMem_suffix⟩

/-- There is something in the line of a token. -/
theorem listingBy_ne_empty (token : Token) : token.listingBy hidden ≠ "" := by
  intro hempty
  have hlist := congrArg String.toList hempty
  rw [toList_listingBy] at hlist
  exact token.kind.name_isWord.1 (List.append_eq_nil_iff.mp hlist).1

end Line

end Token

/-! ### Listings -/

/-- Lines that have no newline in them can be told from the text of them all. -/
theorem lines_inj {lines lines' : List String} (hlines : ∀ line ∈ lines, '\n' ∉ line.toList)
    (hlines' : ∀ line ∈ lines', '\n' ∉ line.toList) (hne : lines ≠ []) (hne' : lines' ≠ [])
    (hsame : "\n".intercalate lines = "\n".intercalate lines') : lines = lines' := by
  have hsplit : ∀ {lines : List String}, (∀ line ∈ lines, '\n' ∉ line.toList) → lines ≠ [] →
      ("\n".intercalate lines).toList.splitOn '\n' = lines.map String.toList := by
    intro lines hlines hne
    rw [String.toList_intercalate]
    exact List.splitOn_intercalate '\n' (List.forall_mem_map.mpr hlines) (by simpa using hne)
  have hmap := congrArg (fun text => text.toList.splitOn '\n') hsame
  simp only [hsplit hlines hne, hsplit hlines' hne'] at hmap
  exact List.map_injective_iff.mpr (fun _ _ => String.toList_injective) hmap

/-- With a newline behind each line there is one more line, which is empty. -/
theorem join_newlines (lines : List String) :
    String.join (lines.map (· ++ "\n")) = "\n".intercalate (lines ++ [""]) := by
  induction lines with
  | nil => rfl
  | cons line lines ih =>
      rw [List.map_cons, String.join_cons, ih, List.cons_append,
        String.intercalate_cons_of_ne_nil (by simp)]

namespace Token

section Joined

variable {hidden : Char → Bool}

/-- There is no newline in the lines of a listing. -/
theorem newline_notMem_lines (tokens : List Token) :
    ∀ line ∈ tokens.map (listingBy hidden), '\n' ∉ line.toList :=
  List.forall_mem_map.mpr fun token _ => token.newline_notMem_listingBy

/-- The lines of some tokens are not the text of no lines. -/
theorem joined_ne_empty (token : Token) (tokens : List Token) :
    "\n".intercalate ((token :: tokens).map (listingBy hidden)) ≠ "" := by
  cases tokens with
  | nil =>
      rw [List.map_singleton, String.intercalate_singleton]
      exact token.listingBy_ne_empty
  | cons next tokens =>
      rw [List.map_cons, List.map_cons, String.intercalate_cons_cons]
      simp

/-- The lines of two lists of tokens are the same if and only if the tokens are, one by one. -/
theorem map_listingBy_eq_iff {tokens tokens' : List Token} :
    tokens.map (listingBy hidden) = tokens'.map (listingBy hidden) ↔
      List.Forall₂ SameContent tokens tokens' := by
  rw [← List.forall₂_eq_eq_eq, List.forall₂_map_left_iff, List.forall₂_map_right_iff]
  exact ⟨List.Forall₂.imp fun _ _ => listingBy_eq_iff.mp,
    List.Forall₂.imp fun _ _ => listingBy_eq_iff.mpr⟩

/-- The lines with newlines between them tell the tokens. -/
theorem joined_eq_iff {tokens tokens' : List Token} :
    "\n".intercalate (tokens.map (listingBy hidden)) =
      "\n".intercalate (tokens'.map (listingBy hidden)) ↔
      List.Forall₂ SameContent tokens tokens' := by
  rw [← map_listingBy_eq_iff]
  refine ⟨fun hsame => ?_, fun hsame => by rw [hsame]⟩
  -- No tokens and some are told apart on their own: without any line there is nothing to split.
  cases tokens with
  | nil =>
      cases tokens' with
      | nil => rfl
      | cons token' tokens' => exact absurd hsame.symm (joined_ne_empty token' tokens')
  | cons token tokens =>
      cases tokens' with
      | nil => exact absurd hsame (joined_ne_empty token tokens)
      | cons token' tokens' =>
          exact lines_inj (newline_notMem_lines _) (newline_notMem_lines _)
            (List.cons_ne_nil _ _) (List.cons_ne_nil _ _) hsame

end Joined

/-- The lines with a newline behind each tell the tokens. -/
theorem printed_eq_iff {tokens tokens' : List Token} :
    CommandLine.Job.listing tokens = CommandLine.Job.listing tokens' ↔
      List.Forall₂ SameContent tokens tokens' := by
  have hprinted : ∀ tokens : List Token, CommandLine.Job.listing tokens =
      "\n".intercalate (tokens.map (listingBy Text.isHidden) ++ [""]) := by
    intro tokens
    rw [← join_newlines, List.map_map]
    rfl
  have hlines : ∀ tokens : List Token,
      ∀ line ∈ tokens.map (listingBy Text.isHidden) ++ [""], '\n' ∉ line.toList :=
    fun tokens => List.forall_mem_append.mpr ⟨newline_notMem_lines tokens,
      List.forall_mem_singleton.mpr List.not_mem_nil⟩
  rw [← map_listingBy_eq_iff, hprinted, hprinted]
  refine ⟨fun hsame => ?_, fun hsame => by rw [hsame]⟩
  exact List.append_cancel_right
    (lines_inj (hlines tokens) (hlines tokens') (by simp) (by simp) hsame)

/-- **Listings are lossless.**  Two lists of tokens have the same lines, put together with newlines
between them, if and only if they have equally many tokens, and these have one by one the same kind
and the same payload.  The same is true of the listing that the command prints, where a newline is
behind each line.  There is no newline in the line of a token, and two tokens have the same line
only if they have the same kind and the same payload.  All this is true whichever characters are
hidden. -/
theorem listings_are_lossless :
    (∀ tokens tokens' : List Token,
      "\n".intercalate (tokens.map listing) = "\n".intercalate (tokens'.map listing) ↔
        List.Forall₂ SameContent tokens tokens') ∧
    (∀ tokens tokens' : List Token,
      CommandLine.Job.listing tokens = CommandLine.Job.listing tokens' ↔
        List.Forall₂ SameContent tokens tokens') ∧
    (∀ token : Token, '\n' ∉ token.listing.toList) ∧
    (∀ token token' : Token, token.listing = token'.listing ↔
      token.kind = token'.kind ∧ token.payload = token'.payload) ∧
    ∀ hidden : Char → Bool,
      (∀ tokens tokens' : List Token,
        "\n".intercalate (tokens.map (listingBy hidden)) =
          "\n".intercalate (tokens'.map (listingBy hidden)) ↔
          List.Forall₂ SameContent tokens tokens') ∧
      (∀ token : Token, '\n' ∉ (token.listingBy hidden).toList) ∧
      ∀ token token' : Token, token.listingBy hidden = token'.listingBy hidden ↔
        token.kind = token'.kind ∧ token.payload = token'.payload :=
  ⟨fun _ _ => joined_eq_iff, fun _ _ => printed_eq_iff, newline_notMem_listingBy,
    fun _ _ => listingBy_eq_iff, fun _ =>
      ⟨fun _ _ => joined_eq_iff, newline_notMem_listingBy, fun _ _ => listingBy_eq_iff⟩⟩

end Token

end FlatScript
