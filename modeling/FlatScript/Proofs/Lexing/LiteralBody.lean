import FlatScript.Token.StringLiteral

/-!
# The bodies of string literals

A string literal goes from its opening quote to the first quote that is not directly behind a
backslash, or to the end of the source if there is none.  `IsBody` says this of the text behind the
opening quote, without a scan.  Only one body satisfies it (`IsBody.unique`), and it is the one that
`scanBody` finds (`IsBody.scanBody_eq`).
-/

namespace FlatScript.StringLiteral

/-- Each quote of a text stands directly behind a backslash. -/
def QuotesEscaped (text : List Char) : Prop :=
  ∀ before after, text = before ++ '"' :: after → before.getLast? = some '\\'

/-- The body of a literal, given what follows its opening quote.  It ends with the first quote that
is not directly behind a backslash of the body, or with the source if there is none; `inner` is the
body without the closing quote. -/
inductive IsBody : (inner body after : List Char) → Prop
  | closed {inner : List Char} (after : List Char) (hinner : QuotesEscaped inner)
      (hlast : inner.getLast? ≠ some '\\') : IsBody inner (inner ++ ['"']) after
  | unclosed {inner : List Char} (hinner : QuotesEscaped inner) : IsBody inner inner []

/-- The text of a body with each backslash before a quote left out. -/
def collect : List Char → List Char
  | [] => []
  | '\\' :: '"' :: rest => '"' :: collect rest
  | c :: rest => c :: collect rest

theorem quotesEscaped_nil : QuotesEscaped [] := by
  intro before after hsplit
  cases before <;> cases hsplit

/-- A character other than a quote may stand in front. -/
theorem QuotesEscaped.cons {c : Char} {text : List Char} (htext : QuotesEscaped text)
    (hc : c ≠ '"') : QuotesEscaped (c :: text) := by
  intro before after hsplit
  cases before with
  | nil =>
      cases hsplit
      exact absurd rfl hc
  | cons first before =>
      cases hsplit
      have hlast := htext before after rfl
      rw [List.getLast?_cons, hlast]
      rfl

/-- A quote behind a backslash may stand in front. -/
theorem QuotesEscaped.cons_pair {text : List Char} (htext : QuotesEscaped text) :
    QuotesEscaped ('\\' :: '"' :: text) := by
  intro before after hsplit
  match before, hsplit with
  | [], hsplit => cases hsplit
  | [_], hsplit =>
      cases hsplit
      rfl
  | _ :: _ :: before, hsplit =>
      cases hsplit
      have hlast := htext before after rfl
      rw [List.getLast?_cons, List.getLast?_cons, hlast]
      rfl

/-- There is only one way to end a body: the shorter of two would end with a quote that the longer
one has behind a backslash. -/
theorem IsBody.unique {inner body after inner' body' after' : List Char}
    (hbody : IsBody inner body after) (hbody' : IsBody inner' body' after')
    (hsame : body ++ after = body' ++ after') : inner = inner' ∧ body = body' := by
  -- A closed body is no proper part of a text whose quotes are all escaped.
  have hclosed : ∀ {inner text more : List Char}, inner.getLast? ≠ some '\\' →
      QuotesEscaped text → text ≠ inner ++ '"' :: more :=
    fun hlast hquotes hsplit => hlast (hquotes _ _ hsplit)
  cases hbody with
  | closed after hinner hlast =>
      cases hbody' with
      | closed after' hinner' hlast' =>
          rw [List.append_assoc, List.append_assoc, List.append_eq_append_iff] at hsame
          rcases hsame with ⟨more, hsplit, hrest⟩ | ⟨more, hsplit, hrest⟩
          · cases more with
            | nil =>
                rw [List.append_nil] at hsplit
                exact ⟨hsplit.symm, by rw [hsplit]⟩
            | cons c more =>
                cases hrest
                exact absurd hsplit (hclosed hlast hinner')
          · cases more with
            | nil =>
                rw [List.append_nil] at hsplit
                exact ⟨hsplit, by rw [hsplit]⟩
            | cons c more =>
                cases hrest
                exact absurd hsplit (hclosed hlast' hinner)
      | unclosed hinner' =>
          rw [List.append_nil, List.append_assoc] at hsame
          exact absurd hsame.symm (hclosed hlast hinner')
  | unclosed hinner =>
      rw [List.append_nil] at hsame
      cases hbody' with
      | closed after' hinner' hlast' =>
          rw [List.append_assoc] at hsame
          exact absurd hsame (hclosed hlast' hinner)
      | unclosed hinner' =>
          rw [List.append_nil] at hsame
          exact ⟨hsame, hsame⟩

/-- A body with one more character in front that is no quote, and no backslash that would belong to
a quote behind it. -/
theorem IsBody.cons {c : Char} {inner body after : List Char} (hbody : IsBody inner body after)
    (hc : c ≠ '"') (hnext : c = '\\' → (body ++ after).head? ≠ some '"') :
    IsBody (c :: inner) (c :: body) after := by
  cases hbody with
  | unclosed hinner => exact .unclosed (hinner.cons hc)
  | closed after hinner hlast =>
      refine .closed after (hinner.cons hc) ?_
      cases inner with
      | nil =>
          intro hslash
          cases hslash
          exact hnext rfl rfl
      | cons first inner => rwa [List.getLast?_cons_cons]

/-- A body with one more escaped quote in front. -/
theorem IsBody.cons_pair {inner body after : List Char} (hbody : IsBody inner body after) :
    IsBody ('\\' :: '"' :: inner) ('\\' :: '"' :: body) after := by
  cases hbody with
  | unclosed hinner => exact .unclosed hinner.cons_pair
  | closed after hinner hlast =>
      refine .closed after hinner.cons_pair ?_
      cases inner with
      | nil => exact nofun
      | cons first inner => rwa [List.getLast?_cons_cons, List.getLast?_cons_cons]

/-- What a body starts with, the text behind its opening quote starts with. -/
theorem IsBody.head?_eq {c : Char} {inner body after : List Char} (hbody : IsBody inner body after)
    (hhead : inner.head? = some c) : (body ++ after).head? = some c := by
  obtain ⟨more, hinner⟩ := List.head?_eq_some_iff.mp hhead
  cases hbody <;> simp [hinner]

/-- A character that is not part of an escaped quote is collected as it is. -/
theorem collect_cons {c : Char} {inner : List Char} (hnext : c = '\\' → inner.head? ≠ some '"') :
    collect (c :: inner) = c :: collect inner := by
  rw [collect]
  intro rest hslash hquote
  rw [hquote] at hnext
  exact hnext hslash rfl

/-- **Scanning finds the body**, and collects its text. -/
theorem isBody_scanBody (rest : List Char) :
    ∃ inner, IsBody inner (rest.take (scanBody rest).2) (rest.drop (scanBody rest).2) ∧
      (scanBody rest).2 ≤ rest.length ∧ (scanBody rest).1 = collect inner := by
  induction rest using scanBody.induct with
  | case1 => exact ⟨[], .unclosed quotesEscaped_nil, Nat.le_refl 0, rfl⟩
  | case2 rest =>
      exact ⟨[], .closed rest quotesEscaped_nil nofun, Nat.succ_le_succ (Nat.zero_le _), rfl⟩
  | case3 rest ih =>
      obtain ⟨inner, hbody, hlength, hcollect⟩ := ih
      refine ⟨'\\' :: '"' :: inner, hbody.cons_pair, ?_, ?_⟩
      · exact Nat.succ_le_succ (Nat.succ_le_succ hlength)
      · rw [scanBody, collect, hcollect]
  | case4 c rest hquote hpair ih =>
      obtain ⟨inner, hbody, hlength, hcollect⟩ := ih
      have hnext : c = '\\' → rest.head? ≠ some '"' := by
        intro hc hhead
        obtain ⟨more, hrest⟩ := List.head?_eq_some_iff.mp hhead
        exact hpair more hc hrest
      have hscan : scanBody (c :: rest) = (c :: (scanBody rest).1, (scanBody rest).2 + 1) := by
        rw [scanBody]
        · exact hquote
        · exact hpair
      rw [hscan]
      refine ⟨c :: inner, hbody.cons hquote ?_, Nat.succ_le_succ hlength, ?_⟩
      · rwa [List.take_append_drop]
      · have hinner : c = '\\' → inner.head? ≠ some '"' := by
          intro hc hhead
          have hrest := hbody.head?_eq hhead
          rw [List.take_append_drop] at hrest
          exact hnext hc hrest
        rw [collect_cons hinner, hcollect]

/-- A body is what scanning finds. -/
theorem IsBody.scanBody_eq {inner body after : List Char} (hbody : IsBody inner body after) :
    scanBody (body ++ after) = (collect inner, body.length) := by
  obtain ⟨found, hfound, hlength, hcollect⟩ := isBody_scanBody (body ++ after)
  obtain ⟨hinner, htake⟩ := hbody.unique hfound (List.take_append_drop _ _).symm
  have hextent : (scanBody (body ++ after)).2 = body.length := by
    have htaken := congrArg List.length htake
    rw [List.length_take_of_le hlength] at htaken
    exact htaken.symm
  rw [← hinner] at hcollect
  exact Prod.ext hcollect hextent

end FlatScript.StringLiteral
