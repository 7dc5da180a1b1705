import FlatScript.Proofs.Parsing.Walk

/-!
# Walks that follow parsers

A cursor stands at a position if what is ahead of it is what the tokens have from there on.
`FollowsAt` compares a walk with a parser where a token of some kind is next: started at a position
and at a cursor that stands there, both end alike.  It carries a bound on the tokens ahead, which is
what the recursions of the parser need, and the number of tokens that are certainly taken, which is
why the bound becomes smaller.  The fuel of the walk is of no interest: it is enough that some
amount suffices, so a walk is given as a function of its fuel.

The rules follow how walks and parsers are put together: sequence, looking at the next token, and
loops, which are one induction for all of them.
-/

namespace FlatScript

/-! ### Cursors at positions -/

/-- The cursor stands at a position of the tokens: what is ahead of it is what they have from there
on, and an end token closes them. -/
def Cursor.At (cursor : Cursor) (tokens : List Token) (position : Nat) : Prop :=
  ∃ finish : Token, finish.kind = .eof ∧ finish.span.start = cursor.finish ∧
    tokens.drop position = cursor.ahead ++ [finish]

namespace Cursor.At

variable {cursor : Cursor} {tokens : List Token} {position : Nat}

/-- The tokens are those before the position, those ahead, and the end token. -/
theorem length_eq (hat : cursor.At tokens position) :
    tokens.length = position + cursor.ahead.length + 1 := by
  obtain ⟨finish, -, -, hdrop⟩ := hat
  have hlength := congrArg List.length hdrop
  simp only [List.length_drop, List.length_append, List.length_singleton] at hlength
  omega

/-- There is a token at the position.  It is the one under the cursor, but that a cursor knows of
the last end token only where it starts. -/
theorem exists_token (hat : cursor.At tokens position) :
    ∃ token, tokens[position]? = some token ∧ token.kind = cursor.kind ∧
      token.span.start = cursor.current.span.start ∧
      (cursor.kind ≠ .eof → token = cursor.current) := by
  obtain ⟨finish, hkind, hstart, hdrop⟩ := hat
  rw [← List.head?_drop, hdrop]
  obtain ⟨ahead, place⟩ := cursor
  cases ahead with
  | nil => exact ⟨finish, rfl, hkind, hstart, fun hne => absurd rfl hne⟩
  | cons token rest => exact ⟨token, rfl, rfl, rfl, fun _ => rfl⟩

/-- The kind behind the token at the position is the one that the cursor looks ahead to. -/
theorem nextKind_eq (hat : cursor.At tokens position) :
    (tokens[position + 1]?.map Token.kind).getD .eof = cursor.nextKind := by
  obtain ⟨finish, hkind, -, hdrop⟩ := hat
  have hnext : tokens[position + 1]? = (cursor.ahead ++ [finish])[1]? := by
    rw [← hdrop, List.getElem?_drop]
  rw [hnext]
  obtain ⟨ahead, place⟩ := cursor
  cases ahead with
  | nil => rfl
  | cons first rest =>
      cases rest with
      | nil => exact hkind
      | cons second rest => rfl

/-- In front of the last position the cursor advances with the position. -/
theorem advance (hat : cursor.At tokens position) (hlast : position + 1 < tokens.length) :
    cursor.advance.At tokens (position + 1) := by
  have hlength := hat.length_eq
  obtain ⟨finish, hkind, hstart, hdrop⟩ := hat
  refine ⟨finish, hkind, hstart, ?_⟩
  obtain ⟨ahead, place⟩ := cursor
  cases ahead with
  | nil =>
      simp only [List.length_nil] at hlength
      omega
  | cons token rest =>
      rw [← List.tail_drop, hdrop]
      rfl

/-- At the last position it stays. -/
theorem advance_eq (hat : cursor.At tokens position) (hlast : ¬position + 1 < tokens.length) :
    cursor.advance = cursor := by
  have hlength := hat.length_eq
  obtain ⟨_ | ⟨token, rest⟩, place⟩ := cursor
  · rfl
  · simp only [List.length_cons] at hlength
    omega

/-- Where the token is no end token, another one follows. -/
theorem lt_of_kind (hat : cursor.At tokens position) (hkind : cursor.kind ≠ .eof) :
    position + 1 < tokens.length := by
  have hlength := hat.length_eq
  obtain ⟨_ | ⟨token, rest⟩, place⟩ := cursor
  · exact absurd rfl hkind
  · simp only [List.length_cons] at hlength
    omega

end Cursor.At

/-- A parser starts at the first position of the tokens that it keeps. -/
theorem Cursor.ofTokens_at (tokens : List Token) :
    (Cursor.ofTokens tokens).At (stored tokens) 0 := by
  rcases List.eq_nil_or_concat tokens with rfl | ⟨body, last, rfl⟩
  · exact ⟨Token.endAt 0, rfl, rfl, rfl⟩
  · simp only [List.concat_eq_append, Cursor.ofTokens, stored, List.getLast?_append,
      List.getLast?_singleton, Option.some_or, List.dropLast_concat]
    by_cases hlast : last.kind = .eof
    · rw [if_pos hlast, if_pos hlast]
      exact ⟨last, hlast, rfl, rfl⟩
    · rw [if_neg hlast, if_neg hlast]
      exact ⟨Token.endAt last.span.stop, rfl, rfl, rfl⟩

/-! ### Walks and parsers -/

variable {α β : Type}

/-- From some amount of fuel on, the walk comes to the result. -/
def Walk.Comes (walk : Nat → Walk α) (tokens : List Token) (start : Nat)
    (result : Except Stop α × Nat) : Prop :=
  ∃ enough, ∀ fuel, enough ≤ fuel → (walk fuel).runFrom tokens start = some result

/-- A walk has ended as a parser has.  It is behind where it started by `gain` positions at least if
it has read something, and not before it in any case. -/
inductive Ended (tokens : List Token) (start gain : Nat) :
    Except Stop α × Nat → EStateM.Result SyntaxError Cursor α → Prop
  | ok {value : α} {stop : Nat} {after : Cursor} (hat : after.At tokens stop)
      (hgain : start + gain ≤ stop) : Ended tokens start gain (.ok value, stop) (.ok value after)
  | error {error : SyntaxError} {stop : Nat} {after : Cursor} (hat : after.At tokens stop)
      (hgain : start ≤ stop) :
      Ended tokens start gain (.error (.fault error), stop) (.error error after)

/-- What has ended behind a later start has ended behind an earlier one. -/
theorem Ended.earlier {tokens : List Token} {start middle gain more : Nat}
    {result : Except Stop α × Nat} {parsed : EStateM.Result SyntaxError Cursor α}
    (hended : Ended tokens middle more result parsed) (hstart : start + gain ≤ middle) :
    Ended tokens start gain result parsed := by
  cases hended with
  | ok hat hgain => exact .ok hat (by omega)
  | error hat hgain => exact .error hat (by omega)

/-- Where a token of the kind is next and no more are ahead than the bound, the walk ends as the
parser does, and takes at least `gain` tokens if it reads something. -/
def FollowsAt (kind : Token.Kind) (gain bound : Nat) (walk : Nat → Walk α)
    (parser : Parser α) : Prop :=
  ∀ ⦃tokens : List Token⦄ ⦃start : Nat⦄ ⦃cursor : Cursor⦄, cursor.At tokens start →
    cursor.kind = kind → cursor.ahead.length ≤ bound →
    ∃ result, Walk.Comes walk tokens start result ∧ Ended tokens start gain result (parser cursor)

/-- The same wherever the cursor is. -/
def Follows (gain bound : Nat) (walk : Nat → Walk α) (parser : Parser α) : Prop :=
  ∀ kind, FollowsAt kind gain bound walk parser

variable {kind : Token.Kind} {gain bound : Nat}

namespace FollowsAt

variable {walk : Nat → Walk α} {parser : Parser α}

theorem pure (value : α) :
    FollowsAt kind 0 bound (fun _ => Pure.pure value) (Pure.pure value) := by
  intro tokens start cursor hat _ _
  exact ⟨_, ⟨0, fun _ _ => rfl⟩, .ok hat (Nat.le_refl start)⟩

/-- With nothing ahead there is only the end. -/
theorem vacuous (hkind : kind ≠ .eof) : FollowsAt kind gain 0 walk parser := by
  intro tokens start cursor _ hcursor hlength
  exact absurd (hcursor.symm.trans (Cursor.kind_of_length_le_zero hlength)) hkind

/-- One unit of fuel does not matter. -/
theorem ofSucc (hfollows : FollowsAt kind gain bound (fun fuel => walk (fuel + 1)) parser) :
    FollowsAt kind gain bound walk parser := by
  intro tokens start cursor hat hkind hbound
  obtain ⟨result, ⟨enough, hcomes⟩, hended⟩ := hfollows hat hkind hbound
  refine ⟨result, ⟨enough + 1, fun fuel hfuel => ?_⟩, hended⟩
  cases fuel with
  | zero => omega
  | succ fuel => exact hcomes fuel (by omega)

/-- The tokens that a walk takes need not be counted. -/
theorem weaken (hfollows : FollowsAt kind gain bound walk parser) :
    FollowsAt kind 0 bound walk parser := by
  intro tokens start cursor hat hkind hbound
  obtain ⟨result, hcomes, hended⟩ := hfollows hat hkind hbound
  exact ⟨result, hcomes, hended.earlier (Nat.le_refl start)⟩

/-- A parser that is followed within a bound is followed within each smaller one. -/
theorem narrow {wide : Nat} (hfollows : FollowsAt kind gain wide walk parser)
    (hbound : bound ≤ wide) : FollowsAt kind gain bound walk parser :=
  fun _ _ _ hat hkind hlength => hfollows hat hkind (Nat.le_trans hlength hbound)

/-- Parsers that do the same at a kind are followed by the same walks. -/
theorem congr {other : Parser α} (hfollows : FollowsAt kind gain bound walk other)
    (hparser : ∀ cursor : Cursor, cursor.kind = kind → parser cursor = other cursor) :
    FollowsAt kind gain bound walk parser := by
  intro tokens start cursor hat hkind hbound
  rw [hparser cursor hkind]
  exact hfollows hat hkind hbound

/-- What follows has as many tokens less ahead of it as have been taken. -/
theorem bindWithin {wide : Nat} {next : Nat → α → Walk β} {next' : α → Parser β}
    (hwide : wide ≤ bound + gain) (hfirst : FollowsAt kind gain wide walk parser)
    (hnext : ∀ value, Follows 0 bound (fun fuel => next fuel value) (next' value)) :
    FollowsAt kind gain wide (fun fuel => walk fuel >>= next fuel) (parser >>= next') := by
  intro tokens start cursor hat hkind hbound
  obtain ⟨result, ⟨enough, hcomes⟩, hended⟩ := hfirst hat hkind hbound
  generalize hparser : parser cursor = parsed at hended
  cases hended with
  | @ok value stop after hstop hgain =>
      have hlength : after.ahead.length ≤ bound := by
        have hstart := hat.length_eq
        have hafter := hstop.length_eq
        omega
      obtain ⟨result, ⟨enough', hcomes'⟩, hended⟩ := hnext value after.kind hstop rfl hlength
      refine ⟨result, ⟨max enough enough', fun fuel hfuel => ?_⟩, ?_⟩
      · rw [Walk.bind_of_ok (next fuel) (hcomes fuel (by omega))]
        exact hcomes' fuel (by omega)
      · rw [Parser.bind_of_ok hparser]
        exact hended.earlier hgain
  | @error error stop after hstop hgain =>
      refine ⟨_, ⟨enough, fun fuel hfuel => Walk.bind_of_error (next fuel) (hcomes fuel hfuel)⟩, ?_⟩
      rw [Parser.bind_of_error hparser]
      exact .error hstop hgain

/-- Walks in a row follow parsers in a row. -/
theorem bind {next : Nat → α → Walk β} {next' : α → Parser β}
    (hfirst : FollowsAt kind gain bound walk parser)
    (hnext : ∀ value, Follows 0 bound (fun fuel => next fuel value) (next' value)) :
    FollowsAt kind gain bound (fun fuel => walk fuel >>= next fuel) (parser >>= next') :=
  bindWithin (Nat.le_add_right bound gain) hfirst hnext

/-- Behind a token, the bound is smaller. -/
theorem bindAfter {next : Nat → α → Walk β} {next' : α → Parser β}
    (hfirst : FollowsAt kind 1 (bound + 1) walk parser)
    (hnext : ∀ value, Follows 0 bound (fun fuel => next fuel value) (next' value)) :
    FollowsAt kind 1 (bound + 1) (fun fuel => walk fuel >>= next fuel) (parser >>= next') :=
  bindWithin (Nat.le_refl (bound + 1)) hfirst hnext

/-- What follows is at the same place if nothing has been read. -/
theorem bindPure {value : α} {next : Nat → α → Walk β} {next' : Parser β}
    (hfirst : FollowsAt kind 0 bound walk (Pure.pure value))
    (hnext : FollowsAt kind gain bound (fun fuel => next fuel value) next') :
    FollowsAt kind gain bound (fun fuel => walk fuel >>= next fuel) next' := by
  intro tokens start cursor hat hkind hbound
  obtain ⟨_, ⟨enough, hcomes⟩, hfirst⟩ := hfirst hat hkind hbound
  obtain ⟨result, ⟨enough', hcomes'⟩, hended⟩ := hnext hat hkind hbound
  cases hfirst with
  | @ok _ stop _ hstop hgain =>
      obtain rfl : stop = start := by
        have hstart := hat.length_eq
        have hafter := hstop.length_eq
        omega
      refine ⟨result, ⟨max enough enough', fun fuel hfuel => ?_⟩, hended⟩
      rw [Walk.bind_of_ok (next fuel) (hcomes fuel (by omega))]
      exact hcomes' fuel (by omega)

theorem map (hfollows : FollowsAt kind gain bound walk parser) (f : α → β) :
    FollowsAt kind gain bound (fun fuel => f <$> walk fuel) (f <$> parser) := by
  intro tokens start cursor hat hkind hbound
  obtain ⟨result, ⟨enough, hcomes⟩, hended⟩ := hfollows hat hkind hbound
  generalize hparser : parser cursor = parsed at hended
  cases hended with
  | ok hstop hgain =>
      refine ⟨_, ⟨enough, fun fuel hfuel => Walk.map_of_ok f (hcomes fuel hfuel)⟩, ?_⟩
      rw [Parser.map_of_ok hparser]
      exact .ok hstop hgain
  | error hstop hgain =>
      refine ⟨_, ⟨enough, fun fuel hfuel => Walk.map_of_error f (hcomes fuel hfuel)⟩, ?_⟩
      rw [Parser.map_of_error hparser]
      exact .error hstop hgain

/-- A walk that looks at the kind of the next token finds the one that is known. -/
theorem look {next : Nat → Token.Kind → Walk α}
    (hnext : FollowsAt kind gain bound (fun fuel => next fuel kind) parser) :
    FollowsAt kind gain bound (fun fuel => Walk.kind >>= next fuel) parser := by
  intro tokens start cursor hat hkind hbound
  obtain ⟨token, htoken, hsame, -⟩ := hat.exists_token
  obtain ⟨result, ⟨enough, hcomes⟩, hended⟩ := hnext hat hkind hbound
  refine ⟨result, ⟨enough, fun fuel hfuel => ?_⟩, hended⟩
  rw [Walk.bind_of_ok (next fuel) (Walk.kind_run htoken), hsame, hkind]
  exact hcomes fuel hfuel

/-- Both look at the kind behind the next token. -/
theorem lookBehind {next : Nat → Token.Kind → Walk α} {next' : Token.Kind → Parser α}
    (hnext : ∀ behind, FollowsAt kind gain bound (fun fuel => next fuel behind) (next' behind)) :
    FollowsAt kind gain bound (fun fuel => Walk.nextKind >>= next fuel)
      (get >>= fun cursor => next' cursor.nextKind) := by
  intro tokens start cursor hat hkind hbound
  obtain ⟨result, ⟨enough, hcomes⟩, hended⟩ := hnext cursor.nextKind hat hkind hbound
  refine ⟨result, ⟨enough, fun fuel hfuel => ?_⟩, hended⟩
  rw [Walk.bind_of_ok (next fuel) Walk.nextKind_run, hat.nextKind_eq]
  exact hcomes fuel hfuel

/-- Both move past a token that is not the last. -/
theorem take (hkind : kind ≠ .eof) :
    FollowsAt kind 1 bound (fun _ => Walk.take) Parser.take := by
  intro tokens start cursor hat hcursor _
  have hne : cursor.kind ≠ .eof := hcursor ▸ hkind
  obtain ⟨token, htoken, -, -, hsame⟩ := hat.exists_token
  obtain rfl := hsame hne
  have hlast := hat.lt_of_kind hne
  have htake := Walk.take_run htoken
  rw [if_pos hlast] at htake
  exact ⟨_, ⟨0, fun _ _ => htake⟩, .ok (hat.advance hlast) (Nat.le_refl _)⟩

/-- Both fail where they are, with the same fault. -/
theorem fail (fault : SyntaxFault) :
    FollowsAt kind gain bound (fun _ => (Walk.fail fault : Walk α))
      (get >>= fun cursor => throw (cursor.errorHere fault)) := by
  intro tokens start cursor hat _ _
  obtain ⟨token, htoken, -, hstart, -⟩ := hat.exists_token
  have hfail := Walk.fail_run (α := α) htoken fault
  rw [hstart] at hfail
  exact ⟨_, ⟨0, fun _ _ => hfail⟩, .error hat (Nat.le_refl start)⟩

theorem unexpected (expected : Expected) :
    FollowsAt kind gain bound (fun _ => (Walk.unexpected expected : Walk α))
      (Parser.unexpected expected) := by
  refine look ((fail _).congr fun cursor hkind => ?_)
  rw [Parser.unexpected, Parser.get_bind, Parser.get_bind, hkind]

end FollowsAt

namespace Follows

variable {walk : Nat → Walk α} {parser : Parser α}

theorem weaken (hfollows : Follows gain bound walk parser) : Follows 0 bound walk parser :=
  fun kind => (hfollows kind).weaken

theorem narrow {wide : Nat} (hfollows : Follows gain wide walk parser) (hbound : bound ≤ wide) :
    Follows gain bound walk parser :=
  fun kind => (hfollows kind).narrow hbound

theorem ofSucc (hfollows : Follows gain bound (fun fuel => walk (fuel + 1)) parser) :
    Follows gain bound walk parser :=
  fun kind => (hfollows kind).ofSucc

theorem bind {next : Nat → α → Walk β} {next' : α → Parser β}
    (hfirst : Follows gain bound walk parser)
    (hnext : ∀ value, Follows 0 bound (fun fuel => next fuel value) (next' value)) :
    Follows gain bound (fun fuel => walk fuel >>= next fuel) (parser >>= next') :=
  fun kind => (hfirst kind).bind hnext

/-- Both look at the kind of the next token. -/
theorem look {next : Nat → Token.Kind → Walk α} {next' : Token.Kind → Parser α}
    (hnext : ∀ kind, FollowsAt kind gain bound (fun fuel => next fuel kind) (next' kind)) :
    Follows gain bound (fun fuel => Walk.kind >>= next fuel) (Parser.kind >>= next') := by
  intro kind
  refine FollowsAt.look ((hnext kind).congr fun cursor hcursor => ?_)
  rw [Parser.kind_bind, hcursor]

/-- The result is made of what has been read. -/
theorem result (hfollows : Follows gain bound walk parser) (f : α → β) :
    Follows gain bound (fun fuel => walk fuel >>= fun value => Pure.pure (f value))
      (parser >>= fun value => Pure.pure (f value)) :=
  hfollows.bind fun value _ => .pure (f value)

/-- **Loops.**  A loop goes on or stops by the kind of the next token.  Where it goes on, it takes a
token before it comes round again, so the bound on its rounds is not met before the end. -/
theorem loop {ι : Type} (walk : ι → Nat → Walk α) (parser : Nat → ι → Parser α)
    (goesOn : ι → Token.Kind → Bool) (hend : ∀ index, goesOn index .eof = false)
    (hstop : ∀ {index kind}, goesOn index kind = false → ∀ count,
      FollowsAt kind 0 count (walk index) (parser count index))
    (hstep : ∀ {index kind}, goesOn index kind = true → ∀ count, count < bound →
      (∀ index, Follows 0 count (walk index) (parser count index)) →
      FollowsAt kind 0 (count + 1) (walk index) (parser (count + 1) index)) :
    ∀ count, count ≤ bound → ∀ index, Follows 0 count (walk index) (parser count index) := by
  intro count hcount
  induction count with
  | zero =>
      intro index kind
      cases hkind : goesOn index kind with
      | false => exact hstop hkind 0
      | true =>
          refine .vacuous ?_
          rintro rfl
          cases (hend index).symm.trans hkind
  | succ count ih =>
      intro index kind
      cases hkind : goesOn index kind with
      | false => exact hstop hkind (count + 1)
      | true => exact hstep hkind count hcount (ih (Nat.le_of_lt hcount))

end Follows

/-- A token of another kind is refused on both sides, and nothing is taken. -/
theorem expect_follows_unmet {expected : Token.Kind} (hkind : kind ≠ expected) :
    FollowsAt kind gain bound (fun _ => Walk.expect expected) (Parser.expect expected) := by
  apply FollowsAt.look
  rw [if_neg hkind]
  refine (FollowsAt.unexpected _).congr fun cursor hcursor => ?_
  rw [Parser.expect, Parser.get_bind, if_neg (hcursor ▸ hkind)]

/-- `expect` is followed, and takes a token if it succeeds. -/
theorem expect_follows {expected : Token.Kind} (hexpected : expected ≠ .eof) :
    Follows 1 bound (fun _ => Walk.expect expected) (Parser.expect expected) := by
  intro kind
  by_cases hkind : kind = expected
  · apply FollowsAt.look
    rw [if_pos hkind]
    refine (FollowsAt.take (hkind ▸ hexpected)).congr fun cursor hcursor => ?_
    rw [Parser.expect, Parser.get_bind, if_pos (hcursor.trans hkind)]
  · exact expect_follows_unmet hkind

theorem word_follows : Follows 1 bound (fun _ => Walk.word) Parser.word :=
  (expect_follows (by decide)).result fun token => token.text?.getD ""

end FlatScript
