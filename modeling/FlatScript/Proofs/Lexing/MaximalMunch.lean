import FlatScript.Proofs.Lexing.Patterns

/-!
# Tokens by the rules

A `Reading` of a source passes over blanks and takes tokens by the rules, from the front to wherever
it stops.  The tokens of a source are those of the reading that gets to the end, of which there is
only one.  A source has no tokens exactly if a reading comes to a place where the rules give a
fault, and then this fault at this place is the error.
-/

namespace FlatScript

/-- `Reading offset rest tokens offset' rest'`: from the place `offset`, where `rest` is ahead, the
rules give `tokens` on the way to the place `offset'`, where `rest'` is ahead. -/
inductive Reading : Nat → List Char → List Token → Nat → List Char → Prop
  | stop (offset : Nat) (rest : List Char) : Reading offset rest [] offset rest
  | blank {offset offset' : Nat} {c : Char} {rest rest' : List Char} {tokens : List Token}
      (hblank : c = ' ' ∨ c = '\n')
      (hmore : Reading (offset + c.utf8Size) rest tokens offset' rest') :
      Reading offset (c :: rest) tokens offset' rest'
  | token {offset offset' : Nat} {text after rest' : List Char} {kind : Token.Kind}
      {payload : Token.Payload} {tokens : List Token}
      (hrule : Lexeme.Rule text after (.ok (kind, payload)))
      (hmore : Reading (offset + byteLength text) after tokens offset' rest') :
      Reading offset (text ++ after)
        (⟨kind, payload, ⟨offset, offset + byteLength text⟩⟩ :: tokens) offset' rest'

/-- The rules read a source to its end: these are its tokens, the end token last. -/
def ReadsAs (source : String) (tokens : List Token) : Prop :=
  ∃ body, tokens = body ++ [Token.endAt source.utf8ByteSize] ∧
    Reading 0 source.toList body source.utf8ByteSize []

/-- From a place, the rules come to a fault, which stands at the place where they come to it. -/
def MeetsFault (offset : Nat) (rest : List Char) (error : LexError) : Prop :=
  ∃ read text after, Reading offset rest read error.position (text ++ after) ∧
    Lexeme.Rule text after (.error error.fault)

/-- Blanks may stand in front of what is read. -/
theorem Reading.blanks {offset offset' : Nat} {gap rest rest' : List Char} {tokens : List Token}
    (hgap : ∀ c ∈ gap, isBlank c = true)
    (hmore : Reading (offset + byteLength gap) rest tokens offset' rest') :
    Reading offset (gap ++ rest) tokens offset' rest' := by
  induction gap generalizing offset with
  | nil => exact hmore
  | cons c gap ih =>
      obtain ⟨hc, hgap⟩ := List.forall_mem_cons.mp hgap
      rw [byteLength, ← Nat.add_assoc] at hmore
      exact .blank (isBlank_iff.mp hc) (ih hgap hmore)

/-- From every place, the rules get to the end of the source or come to a fault. -/
theorem Reading.exists_to_end_or_fault (rest : List Char) (offset : Nat) :
    (∃ read, Reading offset rest read (offset + byteLength rest) []) ∨
      ∃ error, MeetsFault offset rest error := by
  induction rest using Lexer.rule_induction generalizing offset with
  | blanks gap hgap =>
      have hend : Reading offset (gap ++ []) [] (offset + byteLength gap) [] :=
        .blanks hgap (.stop _ _)
      rw [List.append_nil] at hend
      exact Or.inl ⟨[], hend⟩
  | rule gap text after reading hgap hrule ih =>
      cases reading with
      | error fault =>
          have hplace : Reading offset (gap ++ (text ++ after)) [] (offset + byteLength gap)
              (text ++ after) :=
            .blanks hgap (.stop _ _)
          exact Or.inr ⟨⟨fault, _⟩, [], text, after, hplace, hrule⟩
      | ok piece =>
          obtain ⟨kind, payload⟩ := piece
          rcases ih (offset + byteLength gap + byteLength text) with
            ⟨read, hread⟩ | ⟨error, read, text', after', hread, hfault⟩
          · have hend : offset + byteLength (gap ++ (text ++ after)) =
                offset + byteLength gap + byteLength text + byteLength after := by
              rw [byteLength_append, byteLength_append]
              omega
            rw [hend]
            exact Or.inl ⟨_, .blanks hgap (.token hrule hread)⟩
          · exact Or.inr ⟨error, _, text', after', .blanks hgap (.token hrule hread), hfault⟩

namespace Lexer

/-- The tokens from a place with an error. -/
theorem tokens_of_error {lexer : Lexer} {error : LexError} (hnext : lexer.next.1 = .error error) :
    lexer.tokens = .error error := by
  rw [tokens]
  split
  · next found hfound =>
      rw [hnext] at hfound
      cases hfound
      rfl
  · next found hfound =>
      rw [hnext] at hfound
      cases hfound

/-- The tokens from a place depend only on the next step. -/
theorem tokens_congr {lexer other : Lexer} (hnext : lexer.next = other.next) :
    lexer.tokens = other.tokens := by
  cases hfirst : other.next.1 with
  | error error =>
      have hfirst' : lexer.next.1 = .error error := by rw [hnext, hfirst]
      rw [tokens_of_error hfirst, tokens_of_error hfirst']
  | ok token =>
      have hfirst' : lexer.next.1 = .ok token := by rw [hnext, hfirst]
      by_cases hkind : token.kind = .eof
      · rw [tokens_of_end hfirst hkind, tokens_of_end hfirst' hkind]
      · rw [tokens_of_token hfirst hkind, tokens_of_token hfirst' hkind, hnext]

/-- A step skips a blank in front of it. -/
theorem next_blank {c : Char} (hblank : c = ' ' ∨ c = '\n') (rest : List Char) (offset : Nat) :
    next ⟨c :: rest, offset⟩ = next ⟨rest, offset + c.utf8Size⟩ := by
  have hgap : ∀ x ∈ [c], isBlank x = true :=
    List.forall_mem_singleton.mpr (isBlank_iff.mpr hblank)
  have hskip : skipBlanks ⟨c :: rest, offset⟩ = skipBlanks ⟨rest, offset + c.utf8Size⟩ :=
    skipBlanks_append hgap rest offset
  rw [next, next, hskip]

/-- The tokens behind a blank are those behind what follows it. -/
theorem tokens_blank {c : Char} (hblank : c = ' ' ∨ c = '\n') (rest : List Char) (offset : Nat) :
    tokens ⟨c :: rest, offset⟩ = tokens ⟨rest, offset + c.utf8Size⟩ :=
  tokens_congr (next_blank hblank rest offset)

/-- A step at the front of a text that a rule reads. -/
theorem next_of_rule {text after : List Char}
    {reading : Except LexFault (Token.Kind × Token.Payload)}
    (hrule : Lexeme.Rule text after reading) (offset : Nat) :
    next ⟨text ++ after, offset⟩ = (located ⟨offset, offset + byteLength text⟩ reading,
      ⟨after, offset + byteLength text⟩) := by
  have hnone : ∀ c ∈ ([] : List Char), isBlank c = true := nofun
  exact next_rule hnone hrule offset

/-- **What a reading gives are the first tokens**; the others come from where it stops. -/
theorem tokens_of_reading {offset offset' : Nat} {rest rest' : List Char} {read : List Token}
    (hreading : Reading offset rest read offset' rest') :
    tokens ⟨rest, offset⟩ = (read ++ ·) <$> tokens ⟨rest', offset'⟩ := by
  induction hreading with
  | stop offset rest => exact (id_map (tokens ⟨rest, offset⟩)).symm
  | blank hblank hmore ih => rw [tokens_blank hblank, ih]
  | @token offset offset' text after rest' kind payload tokens hrule hmore ih =>
      have hnext := next_of_rule hrule offset
      rw [tokens_of_token (congrArg Prod.fst hnext) hrule.kind_ne_eof, hnext, ih, Functor.map_map]
      rfl

/-- A reading to the end of the source gives all tokens but the end token. -/
theorem tokens_of_reading_to_end {offset offset' : Nat} {rest : List Char} {read : List Token}
    (hreading : Reading offset rest read offset' []) :
    tokens ⟨rest, offset⟩ = .ok (read ++ [Token.endAt offset']) := by
  have hend : tokens ⟨[], offset'⟩ = .ok [Token.endAt offset'] := tokens_of_end rfl rfl
  rw [tokens_of_reading hreading, hend]
  rfl

/-- A fault that the rules come to is the error. -/
theorem tokens_of_fault {offset : Nat} {rest : List Char} {error : LexError}
    (hfault : MeetsFault offset rest error) : tokens ⟨rest, offset⟩ = .error error := by
  obtain ⟨read, text, after, hreading, hrule⟩ := hfault
  have hnext := next_of_rule hrule error.position
  rw [tokens_of_reading hreading, tokens_of_error (congrArg Prod.fst hnext)]
  rfl

end Lexer

/-! ### The tokens of a source -/

/-- What the rules read a source as are its tokens. -/
theorem ReadsAs.tokenize_eq {source : String} {tokens : List Token}
    (hreads : ReadsAs source tokens) : tokenize source = .ok tokens := by
  obtain ⟨body, rfl, hreading⟩ := hreads
  exact Lexer.tokens_of_reading_to_end hreading

/-- A fault that the rules come to is the error of the source. -/
theorem MeetsFault.tokenize_eq {source : String} {error : LexError}
    (hfault : MeetsFault 0 source.toList error) : tokenize source = .error error :=
  Lexer.tokens_of_fault hfault

/-- Every source is read to its end or comes to a fault. -/
theorem exists_readsAs_or_meetsFault (source : String) :
    (∃ tokens, ReadsAs source tokens) ∨ ∃ error, MeetsFault 0 source.toList error := by
  rcases Reading.exists_to_end_or_fault source.toList 0 with ⟨body, hreading⟩ | hfault
  · rw [Nat.zero_add, byteLength_toList] at hreading
    exact Or.inl ⟨_, body, rfl, hreading⟩
  · exact Or.inr hfault

/-- A source has the tokens that the rules read it as. -/
theorem tokenize_eq_ok_iff {source : String} {tokens : List Token} :
    tokenize source = .ok tokens ↔ ReadsAs source tokens := by
  refine ⟨fun htokens => ?_, ReadsAs.tokenize_eq⟩
  rcases exists_readsAs_or_meetsFault source with ⟨tokens', hreads⟩ | ⟨error, hfault⟩
  · rw [hreads.tokenize_eq] at htokens
    cases htokens
    exact hreads
  · rw [hfault.tokenize_eq] at htokens
    cases htokens

/-- The error of a source is the fault that the rules come to. -/
theorem tokenize_eq_error_iff {source : String} {error : LexError} :
    tokenize source = .error error ↔ MeetsFault 0 source.toList error := by
  refine ⟨fun herror => ?_, MeetsFault.tokenize_eq⟩
  rcases exists_readsAs_or_meetsFault source with ⟨tokens, hreads⟩ | ⟨error', hfault⟩
  · rw [hreads.tokenize_eq] at herror
    cases herror
  · rw [hfault.tokenize_eq] at herror
    cases herror
    exact hfault

/-- The rules read a source in one way only. -/
theorem ReadsAs.unique {source : String} {first second : List Token}
    (hfirst : ReadsAs source first) (hsecond : ReadsAs source second) : first = second := by
  have hsame := hfirst.tokenize_eq.symm.trans hsecond.tokenize_eq
  cases hsame
  rfl

/-- **The tokens of a source are its only reading by the rules.**  A source has the tokens that the
rules read it as, and there is at most one list of them.  It has an error exactly if the rules come
to a fault, so it has tokens exactly if they come to none: to no character that starts nothing, no
integer that is too large and no literal with an invalid escape.  The rules are those of the
patterns of the tokens, of which the longest match counts, and a fixed text before a run. -/
theorem tokenize_reads_by_rules (source : String) :
    (∀ tokens, tokenize source = .ok tokens ↔ ReadsAs source tokens) ∧
      (∀ first second, ReadsAs source first → ReadsAs source second → first = second) ∧
      (∀ error, tokenize source = .error error ↔ MeetsFault 0 source.toList error) ∧
      ((∃ tokens, tokenize source = .ok tokens) ↔
        ∀ read position text after fault,
          Reading 0 source.toList read position (text ++ after) →
            ¬Lexeme.Rule text after (.error fault)) ∧
      ∀ c more after reading, Lexeme.Rule (c :: more) after reading ↔
        Lexeme.Declares c (more ++ after) ⟨more.length, reading⟩ := by
  refine ⟨fun tokens => tokenize_eq_ok_iff, fun first second => ReadsAs.unique,
    fun error => tokenize_eq_error_iff, ⟨?_, ?_⟩,
    fun c more after reading => Lexeme.rule_iff_declares⟩
  · rintro ⟨tokens, htokens⟩ read position text after fault hreading hrule
    have hfault : MeetsFault 0 source.toList ⟨fault, position⟩ :=
      ⟨read, text, after, hreading, hrule⟩
    rw [hfault.tokenize_eq] at htokens
    cases htokens
  · intro hnone
    rcases exists_readsAs_or_meetsFault source with
      ⟨tokens, hreads⟩ | ⟨error, read, text, after, hreading, hrule⟩
    · exact ⟨tokens, hreads.tokenize_eq⟩
    · exact absurd hrule (hnone read _ text after _ hreading)

end FlatScript
