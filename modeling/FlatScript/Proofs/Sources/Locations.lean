import Mathlib.Data.List.Induction
import Mathlib.Data.Prod.Lex
import Mathlib.Data.Set.Function
import Mathlib.Order.Bounds.Basic
import FlatScript.Proofs.Eval.Operators
import FlatScript.Proofs.Lexing.FirstFault
import FlatScript.Proofs.Parsing.FirstError

/-!
# Locations of offsets

A location is what a text amounts to that has been walked over: a line for each newline and a column
for each character behind the last one.  Each character leads to a later location, so on the places
between characters the location says which place it is.  An offset inside of a character counts as
the place behind it, and one beyond the text as its end.

Lex errors and syntax errors are at such places, at a fault or at the start of a token; so the
location in their report leads back to where they are.
-/

namespace FlatScript

/-- A place between two characters of a text, or at one of its ends, by the bytes in front of it. -/
def IsBoundary (content : String) (offset : Nat) : Prop :=
  ∃ before after : String, content = before ++ after ∧ before.utf8ByteSize = offset

/-- The boundaries of a text are the ends of its fronts. -/
theorem isBoundary_iff {content : String} {offset : Nat} :
    IsBoundary content offset ↔ ∃ front, front <+: content.toList ∧ byteLength front = offset := by
  constructor
  · rintro ⟨before, after, rfl, rfl⟩
    refine ⟨before.toList, ?_, byteLength_toList before⟩
    rw [String.toList_append]
    exact List.prefix_append _ _
  · rintro ⟨front, ⟨rest, hrest⟩, rfl⟩
    refine ⟨String.ofList front, String.ofList rest, ?_, (byteLength_eq_utf8ByteSize front).symm⟩
    rw [← String.ofList_append, hrest, String.ofList_toList]

/-- A front of a text has no more bytes than the text. -/
theorem byteLength_le_of_prefix {front longer : List Char} (hfront : front <+: longer) :
    byteLength front ≤ byteLength longer := by
  obtain ⟨rest, rfl⟩ := hfront
  rw [byteLength_append]
  exact Nat.le_add_right _ _

/-! ### Walking over a text -/

namespace Location

/-- A location by its line, and within a line by its column. -/
def key (location : Location) : ℕ ×ₗ ℕ :=
  toLex (location.line, location.column)

/-- The place behind a text that starts here. -/
def afterAll (location : Location) (text : List Char) : Location :=
  text.foldl after location

/-- Each character leads to a later place. -/
theorem key_lt_after (location : Location) (c : Char) : location.key < (location.after c).key := by
  unfold key after
  rw [Prod.Lex.toLex_lt_toLex]
  split
  · exact Or.inl (Nat.lt_succ_self _)
  · exact Or.inr ⟨rfl, Nat.lt_succ_self _⟩

/-- No text leads back. -/
theorem key_le_afterAll (location : Location) (text : List Char) :
    location.key ≤ (location.afterAll text).key := by
  induction text generalizing location with
  | nil => exact le_refl _
  | cons c text ih => exact (location.key_lt_after c).le.trans (ih (location.after c))

/-- A longer front of a text leads to a later place. -/
theorem key_afterAll_le {front longer : List Char} (hfront : front <+: longer)
    (location : Location) : (location.afterAll front).key ≤ (location.afterAll longer).key := by
  obtain ⟨rest, rfl⟩ := hfront
  unfold afterAll
  rw [List.foldl_append]
  exact key_le_afterAll _ rest

/-- A front of a text that is not all of it leads to an earlier place. -/
theorem key_afterAll_lt {front longer : List Char} (hfront : front <+: longer)
    (hne : front ≠ longer) (location : Location) :
    (location.afterAll front).key < (location.afterAll longer).key := by
  obtain ⟨rest, rfl⟩ := hfront
  cases rest with
  | nil => exact absurd (List.append_nil front).symm hne
  | cons c rest =>
      unfold afterAll
      rw [List.foldl_append, List.foldl_cons]
      exact (key_lt_after _ c).trans_le (key_le_afterAll _ rest)

/-- **What a text amounts to.**  The lines are its newlines, and the columns the characters behind
the last of them. -/
theorem afterAll_start (text : List Char) :
    start.afterAll text =
      ⟨1 + text.count '\n', 1 + (text.reverse.takeWhile (· ≠ '\n')).length⟩ := by
  induction text using List.reverseRecOn with
  | nil => rfl
  | append_singleton text c ih =>
      have hstep : start.afterAll (text ++ [c]) = (start.afterAll text).after c := by
        unfold afterAll
        rw [List.foldl_append, List.foldl_cons, List.foldl_nil]
      rw [hstep, ih, List.count_append, List.reverse_append, List.reverse_singleton,
        List.singleton_append]
      by_cases hc : c = '\n'
      · subst hc
        simp [after, Nat.add_assoc]
      · simp [after, hc, Nat.add_comm]

/-! ### Offsets -/

/-- The shortest front of a text with as many bytes as the offset, or all of the text. -/
def reaching : List Char → Nat → List Char
  | [], _ => []
  | c :: text, offset => if offset = 0 then [] else c :: reaching text (offset - c.utf8Size)

/-- The place of an offset is behind the shortest front that reaches it. -/
theorem forward_eq (location : Location) (text : List Char) (offset : Nat) :
    location.forward text offset = location.afterAll (reaching text offset) := by
  induction text generalizing location offset with
  | nil => rfl
  | cons c text ih =>
      unfold forward reaching
      by_cases hzero : offset = 0
      · rw [if_pos hzero, if_pos hzero]
        rfl
      · rw [if_neg hzero, if_neg hzero, ih]
        rfl

/-- What reaches an offset is a front of the text. -/
theorem reaching_prefix (text : List Char) (offset : Nat) : reaching text offset <+: text := by
  induction text generalizing offset with
  | nil => exact List.nil_prefix
  | cons c text ih =>
      unfold reaching
      by_cases hzero : offset = 0
      · rw [if_pos hzero]
        exact List.nil_prefix
      · rw [if_neg hzero]
        exact List.cons_prefix_cons.mpr ⟨rfl, ih _⟩

/-- The front has the bytes of the offset at least, or all that there are. -/
theorem le_byteLength_reaching (text : List Char) (offset : Nat) :
    min offset (byteLength text) ≤ byteLength (reaching text offset) := by
  induction text generalizing offset with
  | nil => exact Nat.min_le_right _ _
  | cons c text ih =>
      unfold reaching
      by_cases hzero : offset = 0
      · rw [if_pos hzero, hzero]
        exact Nat.min_le_left _ _
      · rw [if_neg hzero, byteLength, byteLength]
        have hrest := ih (offset - c.utf8Size)
        omega

/-- No shorter front reaches the offset. -/
theorem reaching_prefix_of_le {text front : List Char} (hfront : front <+: text) {offset : Nat}
    (hoffset : min offset (byteLength text) ≤ byteLength front) :
    reaching text offset <+: front := by
  induction text generalizing front offset with
  | nil => exact List.nil_prefix
  | cons c text ih =>
      unfold reaching
      by_cases hzero : offset = 0
      · rw [if_pos hzero]
        exact List.nil_prefix
      · rw [if_neg hzero]
        have hsize := c.utf8Size_pos
        rw [byteLength] at hoffset
        cases front with
        | nil =>
            rw [byteLength] at hoffset
            omega
        | cons first front =>
            obtain ⟨rfl, hmore⟩ := List.cons_prefix_cons.mp hfront
            rw [byteLength] at hoffset
            exact List.cons_prefix_cons.mpr ⟨rfl, ih hmore (by omega)⟩

/-- A front that reaches the offset and is no longer than the shortest is the shortest. -/
theorem reaching_eq {text front : List Char} (hfront : front <+: text) {offset : Nat}
    (hoffset : min offset (byteLength text) ≤ byteLength front)
    (hshort : byteLength front ≤ byteLength (reaching text offset)) :
    reaching text offset = front := by
  obtain ⟨more, hmore⟩ := reaching_prefix_of_le hfront hoffset
  have hsame : reaching text offset ++ more = front ++ [] := by rw [hmore, List.append_nil]
  apply eq_of_byteLength_eq hsame
  have hlength := congrArg byteLength hmore
  rw [byteLength_append] at hlength
  omega

/-- A front is the shortest that reaches its own end. -/
theorem reaching_byteLength {text front : List Char} (hfront : front <+: text) :
    reaching text (byteLength front) = front := by
  apply reaching_eq hfront (Nat.min_le_left _ _)
  have hlong := le_byteLength_reaching text (byteLength front)
  have hbytes := byteLength_le_of_prefix hfront
  omega

/-- Only the whole text reaches beyond it. -/
theorem reaching_of_le {text : List Char} {offset : Nat} (hoffset : byteLength text ≤ offset) :
    reaching text offset = text := by
  apply reaching_eq (List.prefix_refl text) (Nat.min_le_right _ _)
  have hlong := le_byteLength_reaching text offset
  omega

/-! ### The words for a location -/

/-- Digits in front of a character that is none can be told from what follows. -/
theorem digits_append_inj {first second rest rest' : List Char} {c : Char}
    (hfirst : ∀ x ∈ first, x.isDigit = true) (hsecond : ∀ x ∈ second, x.isDigit = true)
    (hc : c.isDigit = false) (hsame : first ++ c :: rest = second ++ c :: rest') :
    first = second ∧ rest = rest' := by
  have htake : ∀ {digits more : List Char}, (∀ x ∈ digits, x.isDigit = true) →
      (digits ++ c :: more).takeWhile Char.isDigit = digits := by
    intro digits more hdigits
    rw [List.takeWhile_append_of_pos hdigits, List.takeWhile_cons_of_neg (by simp [hc]),
      List.append_nil]
  have hdigits := congrArg (List.takeWhile Char.isDigit) hsame
  rw [htake hfirst, htake hsecond] at hdigits
  subst hdigits
  exact ⟨rfl, (List.cons.inj (List.append_cancel_left hsame)).2⟩

/-- Different numbers have different digits. -/
theorem eq_of_toString {n m : Nat} (hsame : (toString n).toList = (toString m).toList) :
    n = m := by
  rw [← ofDigitChars_toString n, hsame, ofDigitChars_toString]

/-- Different locations have different words. -/
theorem text_injective {first second : Location} (htext : first.text = second.text) :
    first = second := by
  have hlist := congrArg String.toList htext
  unfold text at hlist
  simp only [String.toList_append, List.append_assoc] at hlist
  have hline := List.append_cancel_left hlist
  obtain ⟨hdigits, hrest⟩ := digits_append_inj isDigit_of_mem_toString isDigit_of_mem_toString
    (by decide) hline
  have hcolumn := List.append_cancel_left hrest
  obtain ⟨line, column⟩ := first
  obtain ⟨line', column'⟩ := second
  obtain rfl := eq_of_toString hdigits
  obtain rfl := eq_of_toString hcolumn
  rfl

end Location

/-! ### Locations in a source -/

namespace Source

variable {source : Source}

/-- The place of an offset in a source is behind the shortest front that reaches it. -/
theorem locate_eq (source : Source) (offset : Nat) : source.locate offset =
    Location.start.afterAll (Location.reaching source.content.toList offset) :=
  Location.forward_eq _ _ _

/-- The place of the end of a front is the place behind it. -/
theorem locate_front {front : List Char} (hfront : front <+: source.content.toList) :
    source.locate (byteLength front) = Location.start.afterAll front := by
  rw [locate_eq, Location.reaching_byteLength hfront]

/-- **The least boundary that is not before an offset**, or not before the end if the offset is
beyond it. -/
theorem isLeast_boundary (source : Source) (offset : Nat) :
    IsLeast {boundary | IsBoundary source.content boundary ∧
        min offset source.content.utf8ByteSize ≤ boundary}
      (byteLength (Location.reaching source.content.toList offset)) := by
  rw [← byteLength_toList]
  constructor
  · exact ⟨isBoundary_iff.mpr ⟨_, Location.reaching_prefix _ _, rfl⟩,
      Location.le_byteLength_reaching _ _⟩
  · rintro boundary ⟨hboundary, hoffset⟩
    obtain ⟨front, hfront, rfl⟩ := isBoundary_iff.mp hboundary
    exact byteLength_le_of_prefix (Location.reaching_prefix_of_le hfront hoffset)

/-- A later offset has no earlier location. -/
theorem key_locate_monotone (source : Source) :
    Monotone fun offset => (source.locate offset).key := by
  intro offset offset' hle
  dsimp only
  rw [locate_eq, locate_eq]
  apply Location.key_afterAll_le
  apply Location.reaching_prefix_of_le (Location.reaching_prefix _ _)
  have hreach := Location.le_byteLength_reaching source.content.toList offset'
  omega

/-- **A later boundary has a later location.** -/
theorem key_locate_strictMonoOn (source : Source) :
    StrictMonoOn (fun offset => (source.locate offset).key)
      {boundary | IsBoundary source.content boundary} := by
  intro first hfirst second hsecond hlt
  obtain ⟨front, hfront, rfl⟩ := isBoundary_iff.mp hfirst
  obtain ⟨longer, hlonger, rfl⟩ := isBoundary_iff.mp hsecond
  have hprefix : front <+: longer := by
    rcases List.prefix_or_prefix_of_prefix hfront hlonger with hprefix | hprefix
    · exact hprefix
    · have hle := byteLength_le_of_prefix hprefix
      omega
  have hne : front ≠ longer := by
    rintro rfl
    omega
  dsimp only
  rw [locate_front hfront, locate_front hlonger]
  exact Location.key_afterAll_lt hprefix hne _

/-- Boundaries with the same location are the same. -/
theorem locate_injOn (source : Source) :
    Set.InjOn source.locate {boundary | IsBoundary source.content boundary} := by
  intro first hfirst second hsecond hsame
  exact source.key_locate_strictMonoOn.injOn hfirst hsecond (congrArg Location.key hsame)

end Source

/-! ### Errors are at boundaries -/

/-- The tokens of a reading start at boundaries. -/
theorem Reading.exists_front {offset offset' : Nat} {rest rest' : List Char} {read : List Token}
    (hreading : Reading offset rest read offset' rest') : ∀ token ∈ read,
      ∃ front, front <+: rest ∧ offset + byteLength front = token.span.start := by
  induction hreading with
  | stop offset rest =>
      intro token htoken
      cases htoken
  | @blank offset offset' c rest rest' tokens _ _ ih =>
      intro token htoken
      obtain ⟨front, hfront, hstart⟩ := ih token htoken
      refine ⟨c :: front, List.cons_prefix_cons.mpr ⟨rfl, hfront⟩, ?_⟩
      rw [byteLength]
      omega
  | @token offset offset' text after rest' kind payload tokens _ _ ih =>
      intro token htoken
      rcases List.mem_cons.mp htoken with rfl | htail
      · exact ⟨[], List.nil_prefix, rfl⟩
      · obtain ⟨front, hfront, hstart⟩ := ih token htail
        refine ⟨text ++ front, (List.prefix_append_right_inj text).mpr hfront, ?_⟩
        rw [byteLength_append]
        omega

/-- The tokens of a source, the end token included, start at boundaries. -/
theorem isBoundary_of_token {content : String} {tokens : List Token}
    (htokens : tokenize content = .ok tokens) :
    ∀ token ∈ tokens, IsBoundary content token.span.start := by
  obtain ⟨body, rfl, hreading⟩ := tokenize_eq_ok_iff.mp htokens
  intro token htoken
  rcases List.mem_append.mp htoken with hbody | hend
  · obtain ⟨front, hfront, hstart⟩ := hreading.exists_front token hbody
    rw [Nat.zero_add] at hstart
    exact isBoundary_iff.mpr ⟨front, hfront, hstart⟩
  · obtain rfl := List.mem_singleton.mp hend
    exact ⟨content, "", String.append_empty.symm, rfl⟩

/-- A syntax error is at the start of a token. -/
theorem exists_token_of_syntaxError {content : String} {tokens : List Token} {error : SyntaxError}
    (htokens : tokenize content = .ok tokens) (herror : Node.ofTokens tokens = .error error) :
    ∃ token ∈ tokens, token.span.start = error.position := by
  obtain ⟨body, finish, rfl, hfinish, hproper⟩ := Lexer.tokens_proper htokens
  rw [Node.ofTokens, Grammar.ofTokens_closed body hfinish] at herror
  cases hrun : Parser.readProgram ⟨body, finish.span.start⟩ with
  | ok node after =>
      rw [hrun] at herror
      cases herror
  | error found stop =>
      rw [hrun] at herror
      cases herror
      have hliterate : ∀ token ∈ body, token.Literate :=
        fun token htoken => (hproper token htoken).literate
      obtain ⟨read, -, -, hstart, hblames, -⟩ := Grammar.readProgram_eq_error hliterate hrun
      obtain ⟨hahead, hplace⟩ := Cursor.eq_before_iff.mp hstart
      rw [hblames.position]
      obtain ⟨ahead, place⟩ := stop
      cases ahead with
      | nil =>
          have hplace : finish.span.start = place := hplace
          exact ⟨finish, List.mem_append_right _ List.mem_cons_self, hplace⟩
      | cons token more =>
          have hbody : body = read ++ token :: more := hahead
          have hmem : token ∈ body := by
            rw [hbody]
            exact List.mem_append_right _ List.mem_cons_self
          exact ⟨token, List.mem_append_left _ hmem, rfl⟩

/-- **A script without a tree has its error at a boundary.** -/
theorem Script.exists_boundary_of_tree_error {content : String} {error : Error}
    (htree : Script.tree content = .error error) :
    ∃ position, error.position = some position ∧ IsBoundary content position := by
  rcases Script.tree_eq_error htree with
    ⟨found, htokens, rfl⟩ | ⟨tokens, found, htokens, hnode, rfl⟩
  · obtain ⟨before, rest, read, text, more, hcontent, hfault⟩ := exists_faultAt htokens
    exact ⟨found.position, rfl, before, rest, hcontent, hfault.position⟩
  · obtain ⟨token, htoken, hstart⟩ := exists_token_of_syntaxError htokens hnode
    refine ⟨found.position, rfl, ?_⟩
    rw [← hstart]
    exact isBoundary_of_token htokens token htoken

/-- **Locations are exact, monotone and invertible.**  An offset has the location of the least
boundary that is not before it, or of the end; and the location of a boundary counts the newlines in
front of it and the characters behind the last of them.  So a later offset has no earlier location,
all offsets beyond the end have the same, and a later boundary has a later one.  A boundary is known
by its location; and so is where a script fails before it is run, by the location in the report. -/
theorem locations_are_exact (source : Source) :
    (∀ offset, ∃ boundary,
      IsLeast {boundary | IsBoundary source.content boundary ∧
        min offset source.content.utf8ByteSize ≤ boundary} boundary ∧
      source.locate offset = source.locate boundary) ∧
    (∀ before after : String, source.content = before ++ after →
      source.locate before.utf8ByteSize = ⟨1 + before.toList.count '\n',
        1 + (before.toList.reverse.takeWhile (· ≠ '\n')).length⟩) ∧
    (Monotone fun offset => (source.locate offset).key) ∧
    (∀ offset, source.content.utf8ByteSize ≤ offset →
      source.locate offset = source.locate source.content.utf8ByteSize) ∧
    StrictMonoOn (fun offset => (source.locate offset).key)
      {boundary | IsBoundary source.content boundary} ∧
    Set.InjOn source.locate {boundary | IsBoundary source.content boundary} ∧
    ∀ {σ : Type} [Host σ] (fuel : Nat) (host after : σ) (error : Error),
      Script.run fuel source.content host = .error (.failed error) after →
      (∀ reason, error ≠ .eval reason) →
      ∃ position, error.position = some position ∧ IsBoundary source.content position ∧
        error.report source = "error: " ++ error.message ++ " at " ++
          (source.locate position).text ++ " (" ++ source.name ++ ")" ∧
        ∀ boundary, IsBoundary source.content boundary →
          (source.locate boundary).text = (source.locate position).text →
          boundary = position := by
  refine ⟨fun offset => ?_, fun before after hcontent => ?_, source.key_locate_monotone,
    fun offset hoffset => ?_, source.key_locate_strictMonoOn, source.locate_injOn, ?_⟩
  · refine ⟨_, source.isLeast_boundary offset, ?_⟩
    rw [Source.locate_front (Location.reaching_prefix _ _), Source.locate_eq]
  · have hfront : before.toList <+: source.content.toList := by
      rw [hcontent, String.toList_append]
      exact List.prefix_append _ _
    rw [← byteLength_toList, Source.locate_front hfront, Location.afterAll_start]
  · rw [← byteLength_toList] at hoffset ⊢
    rw [Source.locate_eq, Source.locate_eq, Location.reaching_of_le hoffset,
      Location.reaching_of_le (Nat.le_refl _)]
  · intro σ _ fuel host after error hrun hread
    have htree : Script.tree source.content = .error error := by
      rcases Script.run_eq_error hrun with htree | ⟨program, frame, reason, hreason, -⟩
      · exact htree
      · exact absurd hreason (hread reason)
    obtain ⟨position, hposition, hboundary⟩ := Script.exists_boundary_of_tree_error htree
    refine ⟨position, hposition, hboundary, ?_, fun other hother htext => ?_⟩
    · unfold Error.report
      rw [hposition]
      rfl
    · exact source.locate_injOn hother hboundary (Location.text_injective htext)

/-- Behind a character of two bytes and a newline, a semicolon is an error.  It is at a boundary;
an offset inside of the character behind it is at the end of the text, as is any beyond the end. -/
theorem semicolon_located :
    Script.run 0 "é\nx ;é" ({} : MemoryHost) =
        .error (.failed (.lex ⟨.unexpectedCharacter ';', 5⟩)) {} ∧
      IsBoundary "é\nx ;é" 5 ∧
      (∀ boundary, IsBoundary "é\nx ;é" boundary →
        (Source.locate ⟨"é\nx ;é", "a.fs"⟩ boundary).text = "line 2, column 3" → boundary = 5) ∧
      Source.locate ⟨"é\nx ;é", "a.fs"⟩ 5 = ⟨2, 3⟩ ∧
      Source.locate ⟨"é\nx ;é", "a.fs"⟩ 7 = ⟨2, 5⟩ ∧
      Source.locate ⟨"é\nx ;é", "a.fs"⟩ 9 = Source.locate ⟨"é\nx ;é", "a.fs"⟩ 8 := by
  have htokens : tokenize "é\nx ;é" = .error ⟨.unexpectedCharacter ';', 5⟩ := by
    refine Lexer.tokens_of_steps [⟨.word, .text "é", ⟨0, 2⟩⟩, ⟨.word, .text "x", ⟨3, 4⟩⟩] rfl ?_
    decide
  have hrun : Script.run 0 "é\nx ;é" ({} : MemoryHost) =
      .error (.failed (.lex ⟨.unexpectedCharacter ';', 5⟩)) {} := by
    rw [Script.run, Script.tree, Script.tokens, htokens]
    rfl
  obtain ⟨-, -, -, hend, -, -, herror⟩ := locations_are_exact ⟨"é\nx ;é", "a.fs"⟩
  obtain ⟨position, hposition, hboundary, -, honly⟩ :=
    herror 0 ({} : MemoryHost) {} _ hrun (fun reason hreason => by cases hreason)
  cases hposition
  exact ⟨hrun, hboundary, honly, by decide, by decide, hend 9 (by decide)⟩

end FlatScript
