import FlatScript.Proofs.Lexing.MaximalMunch
import FlatScript.Proofs.Lexing.Spelling

/-!
# Lexing one text behind another

What the lexer finds in a text does not depend on where the text stands in the source, but for the
offsets, which are further on by as many bytes as there are in front of it.

So a source can be read part by part wherever the parts do not run into each other.  A string
literal that is closed ends at its closing quote, and whatever stands behind it is read as a source
of its own; and every text has such a literal.  A source that is whole in itself, and does not end
inside a string literal, is read the same if a blank follows.
-/

namespace FlatScript

/-- The token as many bytes further on. -/
def Token.shift (distance : Nat) (token : Token) : Token :=
  { token with span := ⟨token.span.start + distance, token.span.stop + distance⟩ }

/-- The error as many bytes further on. -/
def LexError.shift (distance : Nat) (error : LexError) : LexError :=
  { error with position := error.position + distance }

namespace Lexer

/-- The place with as many bytes more in front of it. -/
def shift (distance : Nat) (lexer : Lexer) : Lexer :=
  { lexer with offset := lexer.offset + distance }

/-- The token or error as many bytes further on. -/
def shiftResult (distance : Nat) : Except LexError Token → Except LexError Token
  | .ok token => .ok (token.shift distance)
  | .error error => .error (error.shift distance)

/-- A reading further on is the reading, shifted. -/
theorem shiftResult_located (distance start stop : Nat)
    (reading : Except LexFault (Token.Kind × Token.Payload)) :
    shiftResult distance (located ⟨start, stop⟩ reading) =
      located ⟨start + distance, stop + distance⟩ reading := by
  cases reading <;> rfl

/-- **A step does not depend on the offset**, which is only added to what it gives. -/
theorem next_shift (lexer : Lexer) (distance : Nat) :
    (lexer.shift distance).next =
      (shiftResult distance lexer.next.1, lexer.next.2.shift distance) := by
  obtain ⟨rest, offset⟩ := lexer
  have hshift : shift distance ⟨rest, offset⟩ = ⟨rest, offset + distance⟩ := rfl
  rw [hshift]
  rcases blank_or_rule rest with hblank | ⟨gap, text, after, reading, rfl, hgap, hrule⟩
  · have hplace : offset + distance + byteLength rest = offset + byteLength rest + distance := by
      omega
    rw [next_blanks hblank, next_blanks hblank, hplace]
    rfl
  · have hstart : offset + distance + byteLength gap = offset + byteLength gap + distance := by
      omega
    have hstop : offset + byteLength gap + distance + byteLength text =
        offset + byteLength gap + byteLength text + distance := by omega
    rw [next_rule hgap hrule, next_rule hgap hrule, shiftResult_located, hstart, hstop]
    rfl

/-- The tokens or the error as many bytes further on. -/
def shiftTokens (distance : Nat) : Except LexError (List Token) → Except LexError (List Token)
  | .ok tokens => .ok (tokens.map (Token.shift distance))
  | .error error => .error (error.shift distance)

/-- All tokens from a place do not depend on the offset. -/
theorem tokens_shift (lexer : Lexer) (distance : Nat) :
    (lexer.shift distance).tokens = shiftTokens distance lexer.tokens := by
  induction lexer using tokens.induct with
  | case1 lexer error hnext =>
      have hshift : (lexer.shift distance).next.1 = .error (error.shift distance) := by
        rw [next_shift, hnext]
        rfl
      rw [tokens_of_error hnext, tokens_of_error hshift]
      rfl
  | case2 lexer token hnext hkind =>
      have hshift : (lexer.shift distance).next.1 = .ok (token.shift distance) := by
        rw [next_shift, hnext]
        rfl
      rw [tokens_of_end hnext hkind, tokens_of_end hshift hkind]
      rfl
  | case3 lexer token hnext hkind ih =>
      have hshift : (lexer.shift distance).next.1 = .ok (token.shift distance) := by
        rw [next_shift, hnext]
        rfl
      rw [tokens_of_token hnext hkind, tokens_of_token hshift hkind, next_shift, ih]
      cases lexer.next.2.tokens <;> rfl

/-- Many steps do not depend on the offset either. -/
theorem steps_shift (lexer : Lexer) (distance count : Nat) :
    (lexer.shift distance).steps count = (lexer.steps count).map (shiftResult distance) := by
  induction count generalizing lexer with
  | zero => rfl
  | succ count ih => rw [steps, steps, next_shift, ih, List.map_cons]

end Lexer

/-! ### Behind a string literal -/

/-- A string literal with the given text: its characters in quotes, with a backslash in front of
each quote and each backslash by its code. -/
def StringLiteral.literal (text : String) : String :=
  String.ofList (spell text.toList)

/-- **Every text has a literal, which is read as this text in front of anything.**  The first token
is the literal, from its opening to its closing quote, and the further steps are those of a lexer
that starts behind it, with the bytes of the literal added to all offsets. -/
theorem Lexer.steps_behind_literal (text rest : String) (count : Nat) :
    (ofString (StringLiteral.literal text ++ rest)).steps (count + 1) =
      .ok ⟨.string, .text text, ⟨0, (StringLiteral.literal text).utf8ByteSize⟩⟩ ::
        ((ofString rest).steps count).map
          (shiftResult (StringLiteral.literal text).utf8ByteSize) := by
  have hrule := StringLiteral.rule_spell text rest.toList
  have hnext := next_of_rule hrule 0
  have hsize : byteLength (StringLiteral.spell text.toList) =
      (StringLiteral.literal text).utf8ByteSize := byteLength_eq_utf8ByteSize _
  rw [hsize, Nat.zero_add] at hnext
  have hstart : ofString (StringLiteral.literal text ++ rest) =
      ⟨StringLiteral.spell text.toList ++ rest.toList, 0⟩ := by
    rw [ofString, String.toList_append, StringLiteral.literal, String.toList_ofList]
  have hbehind : (⟨rest.toList, (StringLiteral.literal text).utf8ByteSize⟩ : Lexer) =
      (ofString rest).shift (StringLiteral.literal text).utf8ByteSize := by
    rw [shift, ofString, Nat.zero_add]
  rw [steps, hstart, hnext, hbehind, steps_shift]
  rfl

/-! ### Behind a blank -/

/-- A source ends inside a string literal: the rules come to a quote, and behind it there is no
quote but such as stand directly behind a backslash. -/
def EndsInLiteral (source : String) : Prop :=
  ∃ read offset inner, Reading 0 source.toList read offset ('"' :: inner) ∧
    StringLiteral.QuotesEscaped inner

/-- A text may stand behind tokens in place of another: it is empty, or it starts with a blank or as
the other does. -/
def MayReplace (more old : List Char) : Prop :=
  ∀ c ∈ more.head?, isBlank c = true ∨ c ∈ old.head?

/-- What starts with a blank may replace anything. -/
theorem mayReplace_of_isBlank {more : List Char} (hmore : ∀ c ∈ more.head?, isBlank c = true)
    (old : List Char) : MayReplace more old :=
  fun c hc => Or.inl (hmore c hc)

/-- A run that is over is over as well if what the source ends with is replaced by something that
does not start with its class, or starts alike. -/
theorem IsRun.append {isIn : Char → Bool} {run after old more : List Char}
    (hrun : IsRun isIn run (after ++ old))
    (hmore : ∀ c ∈ more.head?, isIn c = false ∨ c ∈ old.head?) :
    IsRun isIn run (after ++ more) where
  ne_nil := hrun.ne_nil
  mem := hrun.mem
  ends := by
    intro c hc
    cases after with
    | nil =>
        rcases hmore c hc with hout | hsame
        · exact hout
        · exact hrun.ends c hsame
    | cons first after => exact hrun.ends c hc

/-- What a rule reads it also reads if what the source ends with is replaced by something that
starts with a blank or alike.  The exception is a string literal that goes on to the end. -/
theorem Lexeme.Rule.append {text after old more : List Char}
    {reading : Except LexFault (Token.Kind × Token.Payload)}
    (hrule : Rule text (after ++ old) reading) (hmore : MayReplace more old)
    (hclosed : old = [] → ∀ inner, text ++ after = '"' :: inner →
      ¬StringLiteral.QuotesEscaped inner) :
    Rule text (after ++ more) reading := by
  -- No class of characters that a token is made of has the blanks in it.
  have hends : ∀ {isIn : Char → Bool}, isIn ' ' = false → isIn '\n' = false →
      ∀ c ∈ more.head?, isIn c = false ∨ c ∈ old.head? := by
    intro isIn hspace hnewline c hc
    rcases hmore c hc with hblank | hsame
    · rcases isBlank_iff.mp hblank with rfl | rfl
      · exact Or.inl hspace
      · exact Or.inl hnewline
    · exact Or.inr hsame
  have hbody : ∀ {inner body : List Char}, text = '"' :: body →
      StringLiteral.IsBody inner body (after ++ old) →
      StringLiteral.IsBody inner body (after ++ more) := by
    intro inner body htext hbody
    generalize hrest : after ++ old = rest at hbody
    cases hbody with
    | closed _ hinner hlast => exact .closed _ hinner hlast
    | unclosed hinner =>
        obtain ⟨rfl, hold⟩ := List.append_eq_nil_iff.mp hrest
        rw [htext, List.append_nil] at hclosed
        exact absurd hinner (hclosed hold inner rfl)
  generalize hrest : after ++ old = rest at hrule
  cases hrule with
  | integer hrun hvalue =>
      subst hrest
      exact .integer (hrun.append (hends (by decide) (by decide))) hvalue
  | integerTooLarge hrun hvalue =>
      subst hrest
      exact .integerTooLarge (hrun.append (hends (by decide) (by decide))) hvalue
  | keyword hrun hkind hspelling =>
      subst hrest
      exact .keyword (hrun.append (hends (by decide) (by decide))) hkind hspelling
  | word hrun hstart hname =>
      subst hrest
      exact .word (hrun.append (hends (by decide) (by decide))) hstart hname
  | symbol hkind hspelling halone =>
      subst hrest
      refine .symbol hkind hspelling fun hassign => ?_
      cases after with
      | nil =>
          intro hhead
          rcases hmore '=' hhead with hblank | hsame
          · cases hblank
          · exact halone hassign hsame
      | cons first after => exact halone hassign
  | string hinner hdecode => exact .string (hbody rfl (hrest ▸ hinner)) hdecode
  | invalidEscape hinner hdecode => exact .invalidEscape (hbody rfl (hrest ▸ hinner)) hdecode
  | unexpectedCharacter after hother => exact .unexpectedCharacter _ hother

namespace Reading

variable {offset offset' : Nat} {rest rest' : List Char} {read : List Token}

/-- One reading after another. -/
theorem trans {offset'' : Nat} {rest'' : List Char} {more : List Token}
    (hfirst : Reading offset rest read offset' rest')
    (hsecond : Reading offset' rest' more offset'' rest'') :
    Reading offset rest (read ++ more) offset'' rest'' := by
  induction hfirst with
  | stop offset rest => exact hsecond
  | blank hblank _ ih => exact .blank hblank (ih hsecond)
  | token hrule _ ih => exact .token hrule (ih hsecond)

/-- A reading passes over a part of the text.  What is read there is read as well if the rest of the
text is replaced by something that starts with a blank or as the rest does, unless that part ends
inside a string literal which the source does not close. -/
theorem exists_passed (hreading : Reading offset rest read offset' rest') :
    ∃ passed, rest = passed ++ rest' ∧ offset' = offset + byteLength passed ∧
      ∀ more : List Char, MayReplace more rest' →
        (rest' = [] → ∀ first place inner, Reading offset passed first place ('"' :: inner) →
          ¬StringLiteral.QuotesEscaped inner) →
        Reading offset (passed ++ more) read offset' more := by
  induction hreading with
  | stop offset rest => exact ⟨[], rfl, rfl, fun more _ _ => .stop _ _⟩
  | @blank offset offset' c rest rest' tokens hblank _ ih =>
      obtain ⟨passed, rfl, rfl, hreplace⟩ := ih
      refine ⟨c :: passed, rfl, by rw [byteLength]; omega, fun more hmore hclosed => ?_⟩
      refine .blank hblank (hreplace more hmore fun hend first place inner hopen => ?_)
      exact hclosed hend first place inner (.blank hblank hopen)
  | @token offset offset' text after rest' kind payload tokens hrule _ ih =>
      obtain ⟨passed, rfl, rfl, hreplace⟩ := ih
      refine ⟨text ++ passed, (List.append_assoc _ _ _).symm, by rw [byteLength_append]; omega,
        fun more hmore hclosed => ?_⟩
      have hnew : Lexeme.Rule text (passed ++ more) (.ok (kind, payload)) := by
        refine hrule.append hmore fun hend inner htext => ?_
        have hhere := Reading.stop offset (text ++ passed)
        rw [htext] at hhere
        rw [htext] at hclosed
        exact hclosed hend [] offset inner hhere
      rw [List.append_assoc]
      refine .token hnew (hreplace more hmore fun hend first place inner hopen => ?_)
      subst hend
      rw [List.append_nil] at hrule
      exact hclosed rfl _ place inner (.token hrule hopen)

end Reading

/-- A source that ends inside a string literal has a string as its last token. -/
theorem EndsInLiteral.last_kind {source : String} {body : List Token} {finish : Token}
    (hends : EndsInLiteral source) (htokens : tokenize source = .ok (body ++ [finish])) :
    ∃ read last, body = read ++ [last] ∧ last.kind = .string := by
  obtain ⟨read, offset, inner, hreading, hinner⟩ := hends
  have hbody := StringLiteral.IsBody.unclosed hinner
  cases hdecode : StringLiteral.decode (StringLiteral.collect inner) with
  | ok decoded =>
      have hlast := Reading.token (Lexeme.Rule.string hbody hdecode) (.stop (offset + _) [])
      rw [List.append_nil] at hlast
      have hread := Lexer.tokens_of_reading_to_end (hreading.trans hlast)
      have hsame : body ++ [finish] = read ++ [_] ++ [_] :=
        Except.ok.inj (htokens.symm.trans hread)
      obtain ⟨hbody, -⟩ := List.append_inj' hsame rfl
      exact ⟨read, _, hbody, rfl⟩
  | error sequence =>
      have hrule := Lexeme.Rule.invalidEscape hbody hdecode
      have hfault : MeetsFault 0 source.toList ⟨_, offset⟩ :=
        ⟨read, _, _, by rwa [List.append_nil], hrule⟩
      rw [hfault.tokenize_eq] at htokens
      cases htokens

/-- A source that has tokens and does not end inside a string literal is read as it is if a blank
follows, with anything behind it. -/
theorem reading_append {first : String} {body : List Token} {finish : Token}
    (hfirst : tokenize first = .ok (body ++ [finish])) (hclosed : ¬EndsInLiteral first)
    {more : List Char} (hmore : ∀ c ∈ more.head?, isBlank c = true) :
    Reading 0 (first.toList ++ more) body first.utf8ByteSize more := by
  obtain ⟨read, hread, hreading⟩ := tokenize_eq_ok_iff.mp hfirst
  obtain ⟨rfl, -⟩ := List.append_inj' hread rfl
  obtain ⟨passed, hpassed, -, hreplace⟩ := hreading.exists_passed
  rw [List.append_nil] at hpassed
  subst hpassed
  refine hreplace more (mayReplace_of_isBlank hmore _) fun _ read place inner hopen hinner => ?_
  exact hclosed ⟨read, place, inner, hopen, hinner⟩

/-- Behind what has been read, and blanks, a source is read as by itself, further on by as many
bytes as there are in front of it. -/
theorem tokenize_behind {first gap second : String} {body : List Token}
    (hgap : ∀ c ∈ gap.toList, isBlank c = true)
    (hreading : Reading 0 (first.toList ++ (gap.toList ++ second.toList)) body first.utf8ByteSize
      (gap.toList ++ second.toList)) :
    tokenize (first ++ gap ++ second) =
      (body ++ ·) <$> Lexer.shiftTokens (first ++ gap).utf8ByteSize (tokenize second) := by
  have hblanks : Reading first.utf8ByteSize (gap.toList ++ second.toList) []
      (first ++ gap).utf8ByteSize second.toList := by
    refine .blanks hgap ?_
    rw [byteLength_toList, ← String.utf8ByteSize_append]
    exact .stop _ _
  have hplace : (⟨second.toList, (first ++ gap).utf8ByteSize⟩ : Lexer) =
      (Lexer.ofString second).shift (first ++ gap).utf8ByteSize := by
    rw [Lexer.shift, Lexer.ofString, Nat.zero_add]
  have hread := hreading.trans hblanks
  rw [List.append_nil] at hread
  rw [tokenize, Lexer.ofString, String.toList_append, String.toList_append, List.append_assoc,
    Lexer.tokens_of_reading hread, hplace, Lexer.tokens_shift]
  rfl

/-- Blanks that are there start with a blank. -/
theorem isBlank_head {gap : String} (hne : gap ≠ "") (hgap : ∀ c ∈ gap.toList, isBlank c = true)
    (rest : List Char) : ∀ c ∈ (gap.toList ++ rest).head?, isBlank c = true := by
  have hsome : gap.toList ≠ [] := fun hnil => hne (String.toList_eq_nil_iff.mp hnil)
  obtain ⟨blank, blanks, hblanks⟩ := List.exists_cons_of_ne_nil hsome
  intro c hc
  rw [hblanks] at hc hgap
  cases hc
  exact hgap blank List.mem_cons_self

/-- **A source is read part by part.**  If a source has tokens and does not end inside a string
literal, then with blanks and another source behind it, it has its own tokens and then those of the
other, with the bytes in front added to their offsets.  If the other has an error, it is that of the
whole, as many bytes further on. -/
theorem tokenize_append {first second gap : String} {body : List Token} {finish : Token}
    (hfirst : tokenize first = .ok (body ++ [finish])) (hclosed : ¬EndsInLiteral first)
    (hne : gap ≠ "") (hgap : ∀ c ∈ gap.toList, isBlank c = true) :
    tokenize (first ++ gap ++ second) =
      (body ++ ·) <$> Lexer.shiftTokens (first ++ gap).utf8ByteSize (tokenize second) := by
  have hblank := isBlank_head hne hgap second.toList
  exact tokenize_behind hgap (reading_append hfirst hclosed hblank)

end FlatScript
