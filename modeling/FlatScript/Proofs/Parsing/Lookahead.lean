import Mathlib.Computability.Language
import Mathlib.Order.CompletePartialOrder
import FlatScript.Proofs.Parsing.Program

/-!
# One token ahead

A parser goes by the kind of the token under its cursor.  So when it stops, with a result or with an
error, it knows the tokens that it has read and the kind of the one it has stopped at, and nothing
of what comes behind.  Another run that starts with the same tokens and then meets a token of that
kind stops there too, in the same way.

`Parser.RecognizesAt` says this together with what the tokens are.  What is read with success is in
a language, and what is read up to an error could still become a part of it.  There is a rule for
each way in which parsers are put together: `pure`, `bind`, `step` over a token, and failing on the
spot.  Parsers within a bound are taken as families, since the other run may have another bound.
-/

namespace FlatScript

/-- An integer token has its number. -/
def Token.Literate (token : Token) : Prop :=
  token.kind = .integer → ∃ value, token.payload = .integer value

/-- Some token of a kind. -/
def Token.sample (kind : Token.Kind) : Token :=
  ⟨kind, .integer 0, ⟨0, 0⟩⟩

namespace Cursor

/-- At most `bound` tokens are ahead, and the integers among them have their numbers. -/
structure Within (cursor : Cursor) (bound : Nat) : Prop where
  length : cursor.ahead.length ≤ bound
  literate : ∀ token ∈ cursor.ahead, token.Literate

/-- What has been read is no longer ahead. -/
theorem Within.after {after : Cursor} {read : List Token} {bound taken : Nat}
    (hwithin : (after.before read).Within bound) (htaken : taken ≤ read.length) :
    after.Within (bound - taken) := by
  have hlength := hwithin.length
  rw [before_length] at hlength
  refine ⟨by omega, fun token htoken => hwithin.literate token ?_⟩
  exact List.mem_append_right _ htoken

/-- Behind the same tokens, the kind under the cursor is the same if it is so at their end. -/
theorem kind_before_congr {first second : Cursor} (hkind : first.kind = second.kind)
    (tokens : List Token) : (first.before tokens).kind = (second.before tokens).kind := by
  cases tokens with
  | nil => exact hkind
  | cons token tokens => rfl

end Cursor

/-- The error is one of the token under the cursor: it has its place, and its kind if it has one.
The end of the source is never an unexpected start of an expression, but an expression that is
empty. -/
structure SyntaxError.Blames (error : SyntaxError) (stop : Cursor) : Prop where
  position : error.position = stop.current.span.start
  found : ∀ found expected, error.fault = .unexpectedToken found expected →
    found = stop.kind ∧ (expected = .expression → found ≠ .eof)
  empty : error.fault = .emptyExpression → stop.kind = .eof

/-- An unexpected token is blamed under its own kind. -/
theorem SyntaxError.Blames.unexpected {stop : Cursor} {expected : Expected}
    (hexpected : expected = .expression → stop.kind ≠ .eof) :
    (stop.errorHere (.unexpectedToken stop.kind expected)).Blames stop where
  position := rfl
  found found other hfault := by
    cases hfault
    exact ⟨rfl, hexpected⟩
  empty := nofun

/-- At the end of the source it is an empty expression that is blamed. -/
theorem SyntaxError.Blames.emptyExpression {stop : Cursor} (hstop : stop.kind = .eof) :
    (stop.errorHere .emptyExpression).Blames stop where
  position := rfl
  found := nofun
  empty _ := hstop

namespace Parser

variable {α β : Type}

/-- **What a parser makes of a start with a token of the given kind.**  If it succeeds, it has read
a word of the language.  If it fails, then at a token that the error is about, and what it has read
is the start of a word of the language.  In both cases each run that meets the same tokens, and then
one of the kind that stopped the first run, comes to the same end there. -/
structure RecognizesAt (kind : Token.Kind) (language : Language Token) (bound : Nat)
    (parser : Nat → Parser α) : Prop where
  nonempty : ∃ tokens, tokens ∈ language
  ok : ∀ ⦃start : Cursor⦄ ⦃value : α⦄ ⦃after : Cursor⦄, start.kind = kind → start.Within bound →
    parser bound start = .ok value after →
    ∃ read ∈ language, start = after.before read ∧
      ∀ (again : Nat) (rest : Cursor), rest.kind = after.kind →
        (rest.before read).ahead.length ≤ again → parser again (rest.before read) = .ok value rest
  error : ∀ ⦃start : Cursor⦄ ⦃error : SyntaxError⦄ ⦃stop : Cursor⦄, start.kind = kind →
    start.Within bound → parser bound start = .error error stop →
    ∃ read more, read ++ more ∈ language ∧ start = stop.before read ∧ error.Blames stop ∧
      ∀ (again : Nat) (rest : Cursor), rest.kind = stop.kind →
        (rest.before read).ahead.length ≤ again →
        ∃ error', parser again (rest.before read) = .error error' rest

/-- What a parser makes of any start. -/
def Recognizes (language : Language Token) (bound : Nat) (parser : Nat → Parser α) : Prop :=
  ∀ kind, RecognizesAt kind language bound parser

variable {kind : Token.Kind} {language : Language Token} {bound : Nat} {parser : Nat → Parser α}

namespace RecognizesAt

/-- A parser that recognizes a language recognizes each larger one. -/
theorem mono {larger : Language Token} (hparser : RecognizesAt kind language bound parser)
    (hlarger : language ≤ larger) : RecognizesAt kind larger bound parser where
  nonempty := hparser.nonempty.imp fun _ htokens => hlarger htokens
  ok start value after hkind hwithin hrun := by
    obtain ⟨read, hread, hagain⟩ := hparser.ok hkind hwithin hrun
    exact ⟨read, hlarger hread, hagain⟩
  error start error stop hkind hwithin hrun := by
    obtain ⟨read, more, hread, hagain⟩ := hparser.error hkind hwithin hrun
    exact ⟨read, more, hlarger hread, hagain⟩

/-- Families that do the same within their bounds recognize the same. -/
theorem congr {other : Nat → Parser α} (hother : RecognizesAt kind language bound other)
    (hsame : ∀ (bound : Nat) (start : Cursor), start.kind = kind → start.ahead.length ≤ bound →
      parser bound start = other bound start) :
    RecognizesAt kind language bound parser where
  nonempty := hother.nonempty
  ok start value after hkind hwithin hrun := by
    rw [hsame bound start hkind hwithin.length] at hrun
    obtain ⟨read, hread, rfl, hagain⟩ := hother.ok hkind hwithin hrun
    refine ⟨read, hread, rfl, fun again rest hrest hlength => ?_⟩
    rw [hsame again _ ((Cursor.kind_before_congr hrest read).trans hkind) hlength]
    exact hagain again rest hrest hlength
  error start error stop hkind hwithin hrun := by
    rw [hsame bound start hkind hwithin.length] at hrun
    obtain ⟨read, more, hread, rfl, hblames, hagain⟩ := hother.error hkind hwithin hrun
    refine ⟨read, more, hread, rfl, hblames, fun again rest hrest hlength => ?_⟩
    rw [hsame again _ ((Cursor.kind_before_congr hrest read).trans hkind) hlength]
    exact hagain again rest hrest hlength

/-- A larger bound does no harm. -/
theorem reindex (widen : Nat → Nat) (hwiden : ∀ bound, bound ≤ widen bound)
    (hparser : RecognizesAt kind language (widen bound) parser) :
    RecognizesAt kind language bound (fun bound => parser (widen bound)) where
  nonempty := hparser.nonempty
  ok start value after hkind hwithin hrun := by
    have hwide : start.Within (widen bound) :=
      ⟨Nat.le_trans hwithin.length (hwiden bound), hwithin.literate⟩
    obtain ⟨read, hread, hstart, hagain⟩ := hparser.ok hkind hwide hrun
    refine ⟨read, hread, hstart, fun again rest hrest hlength => ?_⟩
    exact hagain (widen again) rest hrest (Nat.le_trans hlength (hwiden again))
  error start error stop hkind hwithin hrun := by
    have hwide : start.Within (widen bound) :=
      ⟨Nat.le_trans hwithin.length (hwiden bound), hwithin.literate⟩
    obtain ⟨read, more, hread, hstart, hblames, hagain⟩ := hparser.error hkind hwide hrun
    refine ⟨read, more, hread, hstart, hblames, fun again rest hrest hlength => ?_⟩
    exact hagain (widen again) rest hrest (Nat.le_trans hlength (hwiden again))

/-- A parser that succeeds without reading. -/
theorem stay (value : α) (hlanguage : [] ∈ language)
    (hrun : ∀ (bound : Nat) (start : Cursor), start.kind = kind →
      parser bound start = .ok value start) :
    RecognizesAt kind language bound parser where
  nonempty := ⟨[], hlanguage⟩
  ok start _ after hkind _ hok := by
    rw [hrun bound start hkind] at hok
    cases hok
    refine ⟨[], hlanguage, rfl, fun again rest hrest _ => ?_⟩
    exact hrun again rest (hrest.trans hkind)
  error start error stop hkind _ herror := by
    rw [hrun bound start hkind] at herror
    cases herror

/-- A parser that fails on the spot. -/
theorem fail (hlanguage : ∃ tokens, tokens ∈ language)
    (hrun : ∀ (bound : Nat) (start : Cursor), start.kind = kind →
      ∃ error, parser bound start = .error error start ∧ error.Blames start) :
    RecognizesAt kind language bound parser where
  nonempty := hlanguage
  ok start value after hkind _ hok := by
    obtain ⟨error, herror, -⟩ := hrun bound start hkind
    rw [herror] at hok
    cases hok
  error start error stop hkind _ hfailed := by
    obtain ⟨found, herror, hblames⟩ := hrun bound start hkind
    rw [herror] at hfailed
    cases hfailed
    obtain ⟨more, hmore⟩ := hlanguage
    refine ⟨[], more, hmore, rfl, hblames, fun again rest hrest _ => ?_⟩
    obtain ⟨error', herror', -⟩ := hrun again rest (hrest.trans hkind)
    exact ⟨error', herror'⟩

/-- With no token ahead, the only kind there is to start with is that of an end token. -/
theorem vacuous (hkind : kind ≠ .eof) (hlanguage : ∃ tokens, tokens ∈ language) :
    RecognizesAt kind language 0 parser where
  nonempty := hlanguage
  ok _ _ _ hstart hwithin _ :=
    absurd (hstart.symm.trans (Cursor.kind_of_length_le_zero hwithin.length)) hkind
  error _ _ _ hstart hwithin _ :=
    absurd (hstart.symm.trans (Cursor.kind_of_length_le_zero hwithin.length)) hkind

/-- A parser that takes a token of the kind and goes on within a bound that is smaller by one. -/
theorem step (inside : Language Token) (next : Nat → Token → Parser α) (hkind : kind ≠ .eof)
    (hstep : ∀ (bound : Nat) (after : Cursor) (token : Token), token.kind = kind → token.Literate →
      parser (bound + 1) (after.before [token]) = next bound token after)
    (hnext : ∀ token : Token, token.kind = kind → token.Literate →
      Recognizes inside bound (next · token))
    (hcons : ∀ token : Token, token.kind = kind → token.Literate → ∀ tokens ∈ inside,
      token :: tokens ∈ language) :
    RecognizesAt kind language (bound + 1) parser := by
  have hopen {start : Cursor} (hstart : start.kind = kind) (hwithin : start.Within (bound + 1)) :
      ∃ (token : Token) (after : Cursor), token.kind = kind ∧ token.Literate ∧
        start = after.before [token] ∧ after.Within bound := by
    obtain ⟨token, htoken, hbefore⟩ := Cursor.eq_before_of_kind hstart hkind
    rw [hbefore] at hwithin
    exact ⟨token, start.advance, htoken, hwithin.literate token List.mem_cons_self, hbefore,
      hwithin.after (Nat.le_refl 1)⟩
  -- The token is ahead of the other run as well, so the bound of that run is a successor too.
  have hback {token : Token} (htoken : token.kind = kind) (hliterate : token.Literate)
      {again : Nat} {rest : Cursor} {read : List Token}
      (hlength : (rest.before (token :: read)).ahead.length ≤ again) :
      ∃ fewer, (rest.before read).ahead.length ≤ fewer ∧
        parser again (rest.before (token :: read)) = next fewer token (rest.before read) := by
    rw [Cursor.before_length, List.length_cons] at hlength
    obtain ⟨fewer, rfl⟩ : ∃ fewer, again = fewer + 1 := ⟨again - 1, by omega⟩
    refine ⟨fewer, ?_, hstep fewer (rest.before read) token htoken hliterate⟩
    rw [Cursor.before_length]
    omega
  refine ⟨?_, ?_, ?_⟩
  · have hliterate : (Token.sample kind).Literate := fun _ => ⟨0, rfl⟩
    obtain ⟨tokens, htokens⟩ := (hnext _ rfl hliterate kind).nonempty
    exact ⟨_, hcons _ rfl hliterate tokens htokens⟩
  · intro start value after hstart hwithin hrun
    obtain ⟨token, rest, htoken, hliterate, rfl, hrest⟩ := hopen hstart hwithin
    rw [hstep bound rest token htoken hliterate] at hrun
    obtain ⟨read, hread, rfl, hagain⟩ := (hnext token htoken hliterate _).ok rfl hrest hrun
    refine ⟨token :: read, hcons token htoken hliterate read hread, rfl, ?_⟩
    intro again last hlast hlength
    obtain ⟨fewer, hlower, hparser⟩ := hback htoken hliterate hlength
    exact hparser.trans (hagain fewer last hlast hlower)
  · intro start error stop hstart hwithin hrun
    obtain ⟨token, rest, htoken, hliterate, rfl, hrest⟩ := hopen hstart hwithin
    rw [hstep bound rest token htoken hliterate] at hrun
    obtain ⟨read, more, hread, rfl, hblames, hagain⟩ :=
      (hnext token htoken hliterate _).error rfl hrest hrun
    refine ⟨token :: read, more, hcons token htoken hliterate _ hread, rfl, hblames, ?_⟩
    intro again last hlast hlength
    obtain ⟨fewer, hlower, hparser⟩ := hback htoken hliterate hlength
    obtain ⟨error', herror'⟩ := hagain fewer last hlast hlower
    exact ⟨error', hparser.trans herror'⟩

/-- The same within any bound: with none at all there is no start of the kind. -/
theorem stepWithin (inside : Language Token) (next : Nat → Token → Parser α) (hkind : kind ≠ .eof)
    (hlanguage : ∃ tokens, tokens ∈ language)
    (hstep : ∀ (bound : Nat) (after : Cursor) (token : Token), token.kind = kind → token.Literate →
      parser (bound + 1) (after.before [token]) = next bound token after)
    (hnext : ∀ smaller, bound = smaller + 1 → ∀ token : Token, token.kind = kind →
      token.Literate → Recognizes inside smaller (next · token))
    (hcons : ∀ token : Token, token.kind = kind → token.Literate → ∀ tokens ∈ inside,
      token :: tokens ∈ language) :
    RecognizesAt kind language bound parser := by
  cases bound with
  | zero => exact .vacuous hkind hlanguage
  | succ bound => exact .step inside next hkind hstep (hnext bound rfl) hcons

/-- One parser after another.  If the first is known to take some tokens, the bound of the second
may be smaller by as many. -/
theorem bindAfter [Inhabited α] {first second : Language Token} {next : Nat → α → Parser β}
    {taken : Nat} (hfirst : RecognizesAt kind first bound parser)
    (htaken : ∀ tokens ∈ first, taken ≤ tokens.length)
    (hsecond : ∀ value, Recognizes second (bound - taken) (next · value)) :
    RecognizesAt kind (first * second) bound
      (fun bound => parser bound >>= next (bound - taken)) := by
  have hback {rest : Cursor} {read more : List Token} (hread : read ∈ first) {again : Nat}
      (hlength : (rest.before (read ++ more)).ahead.length ≤ again) :
      (rest.before more).ahead.length ≤ again - taken := by
    have hlower := htaken read hread
    simp only [Cursor.before_length, List.length_append] at hlength ⊢
    omega
  refine ⟨?_, ?_, ?_⟩
  · obtain ⟨read, hread⟩ := hfirst.nonempty
    obtain ⟨more, hmore⟩ := (hsecond default kind).nonempty
    exact ⟨read ++ more, Language.append_mem_mul hread hmore⟩
  · intro start result after hkind hwithin hrun
    obtain ⟨value, middle, hparser, hnext⟩ := bind_eq_ok.mp hrun
    obtain ⟨read, hread, rfl, hagain⟩ := hfirst.ok hkind hwithin hparser
    have hmiddle := hwithin.after (htaken read hread)
    obtain ⟨others, hothers, rfl, hagain'⟩ := (hsecond value _).ok rfl hmiddle hnext
    refine ⟨read ++ others, Language.append_mem_mul hread hothers, by simp, ?_⟩
    intro again rest hrest hlength
    have hsame := Cursor.kind_before_congr hrest others
    have hlower := hback hread hlength
    rw [Cursor.before_append] at hlength ⊢
    rw [bind_of_ok (hagain again _ hsame hlength)]
    exact hagain' _ rest hrest hlower
  · intro start error stop hkind hwithin hrun
    rcases bind_eq_error.mp hrun with hparser | ⟨value, middle, hparser, hnext⟩
    · obtain ⟨read, more, hread, rfl, hblames, hagain⟩ := hfirst.error hkind hwithin hparser
      obtain ⟨others, hothers⟩ := (hsecond default kind).nonempty
      refine ⟨read, more ++ others, ?_, rfl, hblames, ?_⟩
      · rw [← List.append_assoc]
        exact Language.append_mem_mul hread hothers
      · intro again rest hrest hlength
        obtain ⟨error', herror'⟩ := hagain again rest hrest hlength
        exact ⟨error', bind_of_error herror'⟩
    · obtain ⟨read, hread, rfl, hagain⟩ := hfirst.ok hkind hwithin hparser
      have hmiddle := hwithin.after (htaken read hread)
      obtain ⟨others, more, hothers, rfl, hblames, hagain'⟩ :=
        (hsecond value _).error rfl hmiddle hnext
      refine ⟨read ++ others, more, ?_, by simp, hblames, ?_⟩
      · rw [List.append_assoc]
        exact Language.append_mem_mul hread hothers
      · intro again rest hrest hlength
        have hsame := Cursor.kind_before_congr hrest others
        have hlower := hback hread hlength
        rw [Cursor.before_append] at hlength ⊢
        rw [bind_of_ok (hagain again _ hsame hlength)]
        exact hagain' _ rest hrest hlower

/-- Parsers in a row recognize the words of the one language followed by those of the other. -/
theorem bind [Inhabited α] {first second : Language Token} {next : Nat → α → Parser β}
    (hfirst : RecognizesAt kind first bound parser)
    (hsecond : ∀ value, Recognizes second bound (next · value)) :
    RecognizesAt kind (first * second) bound (fun bound => parser bound >>= next bound) :=
  bindAfter hfirst (fun _ _ => Nat.zero_le _) hsecond

end RecognizesAt

/-- `pure` recognizes the empty word. -/
theorem Recognizes.pure (value : α) : Recognizes 1 bound (fun _ => (pure value : Parser α)) :=
  fun _ => .stay value Language.nil_mem_one fun _ _ _ => rfl

/-- What is made of the result has no part in what is read. -/
theorem RecognizesAt.result [Inhabited α] (hparser : RecognizesAt kind language bound parser)
    (f : α → β) :
    RecognizesAt kind language bound
      (fun bound => parser bound >>= fun value => pure (f value)) := by
  have hbind := hparser.bind fun value => Recognizes.pure (f value)
  rwa [mul_one] at hbind

namespace Recognizes

theorem bind [Inhabited α] {first second : Language Token} {next : Nat → α → Parser β}
    (hfirst : Recognizes first bound parser)
    (hsecond : ∀ value, Recognizes second bound (next · value)) :
    Recognizes (first * second) bound (fun bound => parser bound >>= next bound) :=
  fun kind => (hfirst kind).bind hsecond

theorem mono {larger : Language Token} (hparser : Recognizes language bound parser)
    (hlarger : language ≤ larger) : Recognizes larger bound parser :=
  fun kind => (hparser kind).mono hlarger

theorem reindex (widen : Nat → Nat) (hwiden : ∀ bound, bound ≤ widen bound)
    (hparser : Recognizes language (widen bound) parser) :
    Recognizes language bound (fun bound => parser (widen bound)) :=
  fun kind => (hparser kind).reindex widen hwiden

theorem result [Inhabited α] (hparser : Recognizes language bound parser) (f : α → β) :
    Recognizes language bound (fun bound => parser bound >>= fun value => Pure.pure (f value)) :=
  fun kind => (hparser kind).result f

end Recognizes

/-- The words of one token of a kind. -/
def terminal (kind : Token.Kind) : Language Token :=
  {tokens | ∃ token : Token, token.kind = kind ∧ tokens = [token]}

/-- A token of a kind is taken if it is there. -/
theorem expect_recognizes {expected : Token.Kind} (hexpected : expected ≠ .eof) :
    Recognizes (terminal expected) bound (fun _ => expect expected) := by
  have hlanguage : ∃ tokens, tokens ∈ terminal expected :=
    ⟨[Token.sample expected], Token.sample expected, rfl, rfl⟩
  intro kind
  by_cases hkind : kind = expected
  · subst hkind
    refine .stepWithin 1 (fun _ token => pure token) hexpected hlanguage ?_ ?_ ?_
    · exact fun _ after token htoken _ => expect_run token htoken []
    · exact fun _ _ token _ _ => .pure token
    · rintro token htoken - tokens rfl
      exact ⟨token, htoken, rfl⟩
  · refine .fail hlanguage fun _ start hstart => ?_
    exact ⟨_, expect_eq_error (hstart ▸ hkind), .unexpected nofun⟩

theorem word_recognizes : Recognizes (terminal .word) bound (fun _ => word) :=
  (expect_recognizes (by decide)).result _

end Parser

end FlatScript
