import FlatScript.Node.Cursor

/-!
# Runs of parsers

A parser is a function from cursors to results.  This file says what the basic parsers do at a given
cursor, and takes a successful run of a composed parser apart into the runs of its parts.

`Cursor.before` puts tokens in front of a cursor.  A parser that reads `tokens` and stops at `after`
was started at `after.before tokens`, and reading one thing after the other is `before` of an
appended list; so every statement about what a parser reads is an equation between cursors.
-/

namespace FlatScript

namespace Cursor

/-- The cursor in front of some tokens that are followed by what is ahead of `after`. -/
def before (after : Cursor) (tokens : List Token) : Cursor :=
  ⟨tokens ++ after.ahead, after.finish⟩

@[simp] theorem before_nil (after : Cursor) : after.before [] = after := rfl

/-- Tokens in a row are put in front from the last to the first. -/
@[simp] theorem before_append (after : Cursor) (first second : List Token) :
    after.before (first ++ second) = (after.before second).before first := by
  simp [before]

/-- The kind under the cursor is the one of the first token put in front. -/
@[simp] theorem before_kind (after : Cursor) (token : Token) (tokens : List Token) :
    (after.before (token :: tokens)).kind = token.kind := rfl

@[simp] theorem before_current (after : Cursor) (token : Token) (tokens : List Token) :
    (after.before (token :: tokens)).current = token := rfl

/-- To advance is to drop the first token put in front. -/
@[simp] theorem before_advance (after : Cursor) (token : Token) (tokens : List Token) :
    (after.before (token :: tokens)).advance = after.before tokens := rfl

@[simp] theorem before_nextKind (after : Cursor) (token next : Token) (tokens : List Token) :
    (after.before (token :: next :: tokens)).nextKind = next.kind := rfl

/-- Behind a single token comes what the cursor had under it. -/
@[simp] theorem before_nextKind_singleton (after : Cursor) (token : Token) :
    (after.before [token]).nextKind = after.kind := by
  obtain ⟨ahead, finish⟩ := after
  cases ahead <;> rfl

/-- The tokens put in front are ahead, with those that were ahead before. -/
@[simp] theorem before_length (after : Cursor) (tokens : List Token) :
    (after.before tokens).ahead.length = tokens.length + after.ahead.length := by
  simp [before]

/-- What is ahead at the start of a run: what the run reads, and what it leaves. -/
theorem length_of_eq_before {start after : Cursor} {tokens : List Token}
    (hstart : start = after.before tokens) :
    start.ahead.length = tokens.length + after.ahead.length := by
  rw [hstart, before_length]

/-- A cursor that is not at an end token stands in front of a token of its kind. -/
theorem eq_before_of_kind {cursor : Cursor} {kind : Token.Kind} (hcursor : cursor.kind = kind)
    (hkind : kind ≠ .eof) :
    ∃ token : Token, token.kind = kind ∧ cursor = cursor.advance.before [token] := by
  obtain ⟨_ | ⟨token, ahead⟩, finish⟩ := cursor
  · exact absurd hcursor.symm hkind
  · exact ⟨token, hcursor, rfl⟩

/-- With no token ahead the cursor is at the end. -/
theorem kind_of_length_le_zero {cursor : Cursor} (hlength : cursor.ahead.length ≤ 0) :
    cursor.kind = .eof := by
  obtain ⟨ahead, finish⟩ := cursor
  obtain rfl : ahead = [] := by simpa using hlength
  rfl

/-- A cursor is determined by what is ahead of it and where the tokens end. -/
theorem eq_before_iff {start after : Cursor} {tokens : List Token} :
    start = after.before tokens ↔
      start.ahead = tokens ++ after.ahead ∧ start.finish = after.finish := by
  obtain ⟨ahead, finish⟩ := start
  simp [before]

end Cursor

namespace Parser

variable {α β : Type} {start after : Cursor}

/-- A run of two parsers in a row is a run of the first and then a run of the second. -/
theorem bind_eq_ok {first : Parser α} {second : α → Parser β} {result : β} :
    (first >>= second) start = .ok result after ↔
      ∃ value middle, first start = .ok value middle ∧ second value middle = .ok result after := by
  change EStateM.bind first second start = _ ↔ _
  unfold EStateM.bind
  cases first start with
  | ok value middle =>
      constructor
      · intro hsecond
        exact ⟨value, middle, rfl, hsecond⟩
      · rintro ⟨_, _, ⟨⟩, hsecond⟩
        exact hsecond
  | error error middle => simp

/-- After a success the second parser goes on with the result, from where the first stopped. -/
theorem bind_of_ok {first : Parser α} {second : α → Parser β} {value : α} {middle : Cursor}
    (hfirst : first start = .ok value middle) :
    (first >>= second) start = second value middle := by
  change EStateM.bind first second start = _
  simp only [EStateM.bind, hfirst]

/-- A run of two parsers in a row fails in the first or, behind it, in the second. -/
theorem bind_eq_error {first : Parser α} {second : α → Parser β} {error : SyntaxError} :
    (first >>= second) start = .error error after ↔
      first start = .error error after ∨
        ∃ value middle, first start = .ok value middle ∧
          second value middle = .error error after := by
  change EStateM.bind first second start = _ ↔ _
  unfold EStateM.bind
  cases first start with
  | ok value middle =>
      constructor
      · intro hsecond
        exact Or.inr ⟨value, middle, rfl, hsecond⟩
      · intro hrun
        rcases hrun with hfirst | ⟨_, _, hfirst, hsecond⟩
        · cases hfirst
        · cases hfirst
          exact hsecond
  | error error middle => simp

/-- An error of the first parser is the error of both, and the second never runs. -/
theorem bind_of_error {first : Parser α} {second : α → Parser β} {error : SyntaxError}
    (hfirst : first start = .error error after) : (first >>= second) start = .error error after :=
  bind_eq_error.mpr (Or.inl hfirst)

/-- A mapped parser succeeds exactly when the parser does, and at the same cursor. -/
theorem map_eq_ok {parser : Parser α} {f : α → β} {result : β} :
    (f <$> parser) start = .ok result after ↔
      ∃ value, parser start = .ok value after ∧ f value = result := by
  change EStateM.map f parser start = _ ↔ _
  unfold EStateM.map
  cases parser start with
  | ok value middle =>
      constructor
      · rintro ⟨⟩
        exact ⟨value, rfl, rfl⟩
      · rintro ⟨_, ⟨⟩, rfl⟩
        rfl
  | error error middle => simp

/-- A function of the result has no part in where the run stops. -/
theorem map_of_ok {parser : Parser α} {f : α → β} {value : α}
    (hparser : parser start = .ok value after) : (f <$> parser) start = .ok (f value) after :=
  map_eq_ok.mpr ⟨value, hparser, rfl⟩

theorem map_of_error {parser : Parser α} {f : α → β} {error : SyntaxError}
    (hparser : parser start = .error error after) : (f <$> parser) start = .error error after := by
  change EStateM.map f parser start = _
  simp only [EStateM.map, hparser]

/-- `pure` reads nothing. -/
@[simp] theorem pure_eq_ok {value result : α} :
    (pure value : Parser α) start = .ok result after ↔ value = result ∧ start = after := by
  change EStateM.Result.ok value start = _ ↔ _
  simp

@[simp] theorem pure_bind_run (value : α) (next : α → Parser β) :
    (pure value >>= next) start = next value start := rfl

@[simp] theorem pure_run (value : α) : (pure value : Parser α) start = .ok value start := rfl

/-- To look at the kind moves nothing. -/
@[simp] theorem kind_bind (next : Token.Kind → Parser α) :
    (kind >>= next) start = next start.kind start := rfl

@[simp] theorem get_bind (next : Cursor → Parser α) :
    ((get : Parser Cursor) >>= next) start = next start start := rfl

/-- `take` gives the token under the cursor and moves past it. -/
@[simp] theorem take_bind (next : Token → Parser α) :
    (take >>= next) start = next start.current start.advance := rfl

theorem take_before_bind (token : Token) (tokens : List Token) (next : Token → Parser α) :
    (take >>= next) (after.before (token :: tokens)) = next token (after.before tokens) := rfl

/-- `remaining` counts the tokens ahead and moves nothing. -/
@[simp] theorem remaining_bind (next : Nat → Parser α) :
    (remaining >>= next) start = next start.ahead.length start := rfl

/-- Expecting a kind takes a token of that kind, which has to be there. -/
theorem expect_eq_ok {expected : Token.Kind} (hexpected : expected ≠ .eof) {token : Token} :
    expect expected start = .ok token after ↔
      token.kind = expected ∧ start = after.before [token] := by
  obtain ⟨ahead, finish⟩ := start
  obtain ⟨ahead', finish'⟩ := after
  simp only [expect, get_bind]
  split
  · next hkind =>
      cases ahead with
      | nil => exact absurd hkind.symm hexpected
      | cons first rest =>
          change EStateM.Result.ok first (Cursor.mk rest finish) = _ ↔ _
          have hfirst : first.kind = expected := hkind
          simp only [EStateM.Result.ok.injEq, Cursor.mk.injEq, Cursor.before, List.cons_append,
            List.nil_append, List.cons.injEq]
          grind
  · next hkind =>
      have hne : ∀ {t : Token}, t.kind = expected →
          Cursor.mk ahead finish ≠ (Cursor.mk ahead' finish').before [t] := by
        intro t ht heq
        exact hkind (by rw [heq]; exact ht)
      constructor
      · intro h
        cases h
      · rintro ⟨ht, heq⟩
        exact absurd heq (hne ht)

/-- A token of another kind is not taken: the error is about it, and the cursor stays. -/
theorem expect_eq_error {expected : Token.Kind} (hexpected : start.kind ≠ expected) :
    expect expected start =
      .error (start.errorHere (.unexpectedToken start.kind (.token expected))) start := by
  rw [expect, get_bind, if_neg hexpected]
  rfl

/-- A successful run that starts with `expect` has one token of the kind to read, and then goes on.
-/
theorem expect_bind_eq_ok {expected : Token.Kind} (hexpected : expected ≠ .eof)
    {next : Token → Parser α} {result : α} :
    (expect expected >>= next) start = .ok result after ↔
      ∃ (token : Token) (middle : Cursor), token.kind = expected ∧
        start = middle.before [token] ∧ next token middle = .ok result after := by
  simp only [bind_eq_ok, expect_eq_ok hexpected, and_assoc]

/-- A token of the expected kind is taken. -/
theorem expect_run {expected : Token.Kind} (token : Token) (hkind : token.kind = expected)
    (tokens : List Token) :
    expect expected (after.before (token :: tokens)) = .ok token (after.before tokens) := by
  simp only [expect, get_bind, Cursor.before_kind, hkind, ↓reduceIte]
  rfl

/-- A word is taken for its text. -/
theorem word_run (token : Token) (hkind : token.kind = .word) (tokens : List Token) :
    word (after.before (token :: tokens)) = .ok (token.text?.getD "") (after.before tokens) := by
  rw [word, bind_of_ok (expect_run token hkind tokens)]
  rfl

/-- A word is one token. -/
theorem word_eq_ok {name : String} :
    word start = .ok name after ↔
      ∃ token, token.kind = .word ∧ start = after.before [token] ∧ token.text?.getD "" = name := by
  simp only [word, expect_bind_eq_ok (by decide : Token.Kind.word ≠ .eof), pure_eq_ok]
  constructor
  · rintro ⟨token, middle, hkind, rfl, rfl, rfl⟩
    exact ⟨token, hkind, rfl, rfl⟩
  · rintro ⟨token, hkind, rfl, rfl⟩
    exact ⟨token, after, hkind, rfl, rfl, rfl⟩

/-- A successful run that starts with `word` has one word to read, and goes on with its text. -/
theorem word_bind_eq_ok {next : String → Parser α} {result : α} :
    (word >>= next) start = .ok result after ↔
      ∃ (token : Token) (middle : Cursor), token.kind = .word ∧
        start = middle.before [token] ∧ next (token.text?.getD "") middle = .ok result after := by
  simp only [bind_eq_ok, word_eq_ok]
  constructor
  · rintro ⟨_, middle, ⟨token, hkind, hstart, rfl⟩, hnext⟩
    exact ⟨token, middle, hkind, hstart, hnext⟩
  · rintro ⟨token, middle, hkind, hstart, hnext⟩
    exact ⟨_, middle, ⟨token, hkind, hstart, rfl⟩, hnext⟩

end Parser

end FlatScript
