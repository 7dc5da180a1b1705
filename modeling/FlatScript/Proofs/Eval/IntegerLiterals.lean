import FlatScript.Proofs.Eval.Arithmetic
import FlatScript.Proofs.Eval.Operators
import FlatScript.Proofs.Lexing.Escaping
import FlatScript.Proofs.Lexing.FirstFault
import FlatScript.Proofs.Parsing.Sessions

/-!
# Integer literals and printed integers

A literal is a run of digits without a sign, and stands for its exact value if this fits into 64
bits.  A negative integer is printed with a minus sign, which is read as an operator in front of a
literal.  So a printed integer is read and evaluated as that integer again, except for the least
one: without its sign it does not fit.  All others have an opposite, and since no literal is
negative, a minus sign in front of one never overflows.
-/

namespace FlatScript

/-! ### Runs of digits -/

/-- A text of digits is a run of digits. -/
theorem isRun_digits {digits : String} (hne : digits ≠ "")
    (hdigits : ∀ c ∈ digits.toList, c.isDigit = true) :
    IsRun Char.isDigit digits.toList [] := by
  refine ⟨fun hnil => hne (String.toList_eq_nil_iff.mp hnil), hdigits, fun c hc => ?_⟩
  cases hc

/-- A number is written as a run of digits. -/
theorem isRun_toString (n : Nat) : IsRun Char.isDigit (toString n).toList [] := by
  apply isRun_digits _ isDigit_of_mem_toString
  intro hempty
  have hdigits := congrArg String.toList hempty
  rw [Nat.toString_eq_ofList_toDigits, String.toList_ofList] at hdigits
  exact Nat.toDigits_ne_nil hdigits

/-- Digits with the value of an integer are read as this integer. -/
theorem Lexeme.rule_digits {digits after : List Char} (hrun : IsRun Char.isDigit digits after)
    {value : Int64} (hvalue : value.toInt = Nat.ofDigitChars 10 digits 0) :
    Lexeme.Rule digits after (.ok (.integer, .integer value)) := by
  have hlt := value.toInt_lt
  have hsame : Int64.ofNat (Nat.ofDigitChars 10 digits 0) = value := by
    rw [← Int64.toInt_inj, Int64.toInt_ofNat_of_lt (by omega), hvalue]
  rw [← hsame]
  exact .integer hrun (by omega)

/-- A source of digits is one integer. -/
theorem tokenize_digits {digits : String} (hrun : IsRun Char.isDigit digits.toList [])
    {value : Int64} (hvalue : value.toInt = Nat.ofDigitChars 10 digits.toList 0) :
    tokenize digits = .ok [⟨.integer, .integer value, ⟨0, digits.utf8ByteSize⟩⟩,
      Token.endAt digits.utf8ByteSize] :=
  tokenize_of_rule (Lexeme.rule_digits hrun hvalue)

/-- A source of digits whose value does not fit is an error. -/
theorem tokenize_digits_tooLarge {digits : String} (hrun : IsRun Char.isDigit digits.toList [])
    (hvalue : 9223372036854775807 < Nat.ofDigitChars 10 digits.toList 0) :
    tokenize digits = .error ⟨.integerTooLarge digits, 0⟩ := by
  have hrule := Lexeme.Rule.integerTooLarge hrun hvalue
  rw [String.ofList_toList] at hrule
  have hstop := Reading.stop 0 digits.toList
  exact tokenize_eq_error_iff.mpr ⟨[], digits.toList, [], by rwa [List.append_nil], hrule⟩

/-- A minus sign in front of digits is a token of its own. -/
theorem tokenize_minus_digits {digits : String} (hrun : IsRun Char.isDigit digits.toList [])
    {value : Int64} (hvalue : value.toInt = Nat.ofDigitChars 10 digits.toList 0) :
    tokenize ("-" ++ digits) = .ok [⟨.minus, .text "-", ⟨0, 1⟩⟩,
      ⟨.integer, .integer value, ⟨1, 1 + digits.utf8ByteSize⟩⟩,
      Token.endAt (1 + digits.utf8ByteSize)] := by
  have hminus : Lexeme.Rule ['-'] (digits.toList ++ []) (.ok (.minus, .text "-")) :=
    .symbol rfl rfl fun hassign => by cases hassign
  have hreading : Reading 0 (['-'] ++ (digits.toList ++ [])) _ _ [] :=
    .token hminus (.token (Lexeme.rule_digits hrun hvalue) (.stop _ []))
  rw [List.append_nil, byteLength_toList] at hreading
  rw [tokenize, Lexer.ofString, String.toList_append]
  exact Lexer.tokens_of_reading_to_end hreading

/-! ### Signs of literals -/

namespace Node

/-- Whether a tree is no integer, or one without a sign. -/
def isUnsigned : Node → Bool
  | .integer value => decide (0 ≤ value)
  | _ => true

theorem IsPhrase.isUnsigned {node : Node} (hnode : node.IsPhrase) : node.isUnsigned = true := by
  rcases hnode with hcomparison | ⟨role, hfits⟩
  · cases hcomparison with
    | compare => rfl
    | expression hexpression =>
        cases hexpression with
        | integer hvalue => exact decide_eq_true hvalue
        | _ => rfl
  · cases hfits with
    | present hbody =>
        cases hbody
        rfl
    | _ => rfl

/-- A literal that is read behind a sign has none itself. -/
theorem FromSource.nonneg_of_within {whole : Node} {value : Int64} (hwhole : whole.FromSource)
    {sign : Token.Kind} (hwithin : (Node.unary sign (.integer value)).Within whole) :
    0 ≤ value := by
  have hall := hwithin.all (hwhole.all fun _ hpart => hpart.isUnsigned)
  have hliteral := (all_iff.mp hall).2 (.integer value) (List.mem_singleton.mpr rfl)
  exact of_decide_eq_true (all_iff.mp hliteral).1

/-- An integer literal has its value. -/
theorem completes_integer (value : Int64) {σ : Type} (builtins : Builtins σ) (state : State σ) :
    (Node.integer value).Completes builtins state (.ok (.int value)) state :=
  ⟨1, rfl⟩

/-- A minus sign in front of an integer changes its sign. -/
theorem completes_minus {value result : Int64} (hresult : result.toInt = -value.toInt) {σ : Type}
    (builtins : Builtins σ) (state : State σ) :
    (Node.unary .minus (.integer value)).Completes builtins state (.ok (.int result)) state := by
  have hminus : Token.Kind.minus.applyUnary (.int value) = .ok (.int result) := by
    calc Token.Kind.minus.applyUnary (.int value)
        = Value.ofInt (-value.toInt) := rfl
      _ = .ok (.int (Int64.ofInt result.toInt)) := by
          rw [← hresult, Value.ofInt_of_fits (fitsInt64_toInt result)]
      _ = .ok (.int result) := by rw [Int64.ofInt_toInt]
  rw [← hminus]
  exact (completes_integer value builtins state).unary

end Node

/-- The least integer is the only one without an opposite. -/
theorem exists_opposite {value : Int64} (hvalue : value ≠ Int64.minValue) :
    ∃ opposite : Int64, opposite.toInt = -value.toInt := by
  have hne : value.toInt ≠ Int64.minValue.toInt := fun hsame => hvalue (Int64.toInt_inj.mp hsame)
  have hleast : Int64.minValue.toInt = -9223372036854775808 := rfl
  obtain ⟨hlow, hhigh⟩ := fitsInt64_toInt value
  exact ⟨Int64.ofInt (-value.toInt), toInt_ofInt_of_fits (by constructor <;> omega)⟩

/-! ### Printed integers -/

/-- The text is read as an expression to its end, and evaluated to the value in any frame. -/
def ReadsBack (text : String) (value : Value) : Prop :=
  ∃ tokens node, tokenize text = .ok tokens ∧
    (∀ question : Question, question ≠ .program →
      question.answer (Cursor.ofTokens tokens) = (.ok node, ⟨[], text.utf8ByteSize⟩)) ∧
    ∀ {σ : Type} (builtins : Builtins σ) (state : State σ),
      node.Completes builtins state (.ok value) state

/-- An integer that is not negative is printed as a literal. -/
theorem readsBack_natural {value : Int64} {n : Nat} (hvalue : value.toInt = n) :
    ReadsBack (toString n) (.int value) := by
  have hrun := isRun_toString n
  rw [← ofDigitChars_toString n] at hvalue
  refine ⟨_, .integer value, tokenize_digits hrun hvalue, fun question hquestion => ?_,
    Node.completes_integer value⟩
  cases question with
  | program => exact absurd rfl hquestion
  | comparison | sum => rfl

/-- A negative integer is printed as its opposite behind a minus sign. -/
theorem readsBack_minus {value opposite : Int64} {n : Nat} (hopposite : opposite.toInt = n)
    (hvalue : value.toInt = -opposite.toInt) : ReadsBack ("-" ++ toString n) (.int value) := by
  have hrun := isRun_toString n
  rw [← ofDigitChars_toString n] at hopposite
  refine ⟨_, .unary .minus (.integer opposite), tokenize_minus_digits hrun hopposite,
    fun question hquestion => ?_, Node.completes_minus hvalue⟩
  rw [String.utf8ByteSize_append]
  cases question with
  | program => exact absurd rfl hquestion
  | comparison | sum => rfl

/-- Every integer but the smallest is read back from its text. -/
theorem readsBack_text {value : Int64} (hvalue : value ≠ Int64.minValue) :
    ReadsBack (Value.int value).text (.int value) := by
  have htext : (Value.int value).text = toString value.toInt := rfl
  rw [htext]
  cases hsign : value.toInt with
  | ofNat n => exact readsBack_natural hsign
  | negSucc n =>
      obtain ⟨opposite, hopposite⟩ := exists_opposite hvalue
      have hnatural : opposite.toInt = (n + 1 : Nat) := by
        rw [hopposite, hsign, Int.neg_negSucc]
      have hback : value.toInt = -opposite.toInt := by omega
      exact readsBack_minus hnatural hback

/-- **Printed integers are read back, except one.**  The text of an integer is read as an expression
and evaluated to that integer, in any frame, unless it is the least one: the digits of this are too
large for a literal.  Digits, as many as there may be and with zeros in front, are one token with
their exact value if it fits, and otherwise an error that has them all.  And where a minus sign
stands in front of a literal, anywhere in what is read from a source, the result is exact. -/
theorem printed_integers_read_back :
    (∀ value : Int64, value ≠ Int64.minValue → ReadsBack (Value.int value).text (.int value)) ∧
    tokenize (Value.int Int64.minValue).text =
      .error ⟨.integerTooLarge "9223372036854775808", 1⟩ ∧
    (∀ digits : String, digits ≠ "" → (∀ c ∈ digits.toList, c.isDigit = true) →
      (Nat.ofDigitChars 10 digits.toList 0 ≤ 9223372036854775807 →
        ∃ value : Int64, value.toInt = Nat.ofDigitChars 10 digits.toList 0 ∧
          tokenize digits = .ok [⟨.integer, .integer value, ⟨0, digits.utf8ByteSize⟩⟩,
            Token.endAt digits.utf8ByteSize]) ∧
      (9223372036854775807 < Nat.ofDigitChars 10 digits.toList 0 →
        tokenize digits = .error ⟨.integerTooLarge digits, 0⟩)) ∧
    ∀ (whole : Node) (value : Int64), whole.FromSource →
      (Node.unary .minus (.integer value)).Within whole →
      ∃ result : Int64, result.toInt = -value.toInt ∧
        ∀ {σ : Type} (builtins : Builtins σ) (state : State σ),
          (Node.unary .minus (.integer value)).Completes builtins state (.ok (.int result))
            state := by
  refine ⟨fun value => readsBack_text, ?_, fun digits hne hdigits => ⟨fun hvalue => ?_, ?_⟩, ?_⟩
  · refine Lexer.tokens_of_steps [⟨.minus, .text "-", ⟨0, 1⟩⟩] rfl ?_
    decide
  · have hexact := Int64.toInt_ofNat_of_lt (Nat.lt_succ_of_le hvalue)
    exact ⟨_, hexact, tokenize_digits (isRun_digits hne hdigits) hexact⟩
  · exact tokenize_digits_tooLarge (isRun_digits hne hdigits)
  · intro whole value hwhole hwithin
    have hnonneg := hwhole.nonneg_of_within hwithin
    have hvalue : value ≠ Int64.minValue := by
      rintro rfl
      revert hnonneg
      decide
    obtain ⟨result, hresult⟩ := exists_opposite hvalue
    exact ⟨result, hresult, Node.completes_minus hresult⟩

/-- The second least integer is read back.  Zeros in front of digits count for their span only, and
do not make them fit.  A minus sign behind another one is that of a literal. -/
theorem integers_at_the_limits :
    ReadsBack "-9223372036854775807" (.int (-9223372036854775807)) ∧
    (∃ value : Int64, value.toInt = 7 ∧
      tokenize "007" = .ok [⟨.integer, .integer value, ⟨0, 3⟩⟩, Token.endAt 3]) ∧
    tokenize "09223372036854775808" = .error ⟨.integerTooLarge "09223372036854775808", 0⟩ ∧
    ∃ result : Int64, result.toInt = -9223372036854775807 ∧
      (Node.unary .minus (.integer 9223372036854775807)).Completes (∅ : Builtins Unit) ⟨{}, ()⟩
        (.ok (.int result)) ⟨{}, ()⟩ := by
  obtain ⟨hprinted, -, hdigits, hminus⟩ := printed_integers_read_back
  have htokens : tokenize "2 - -9223372036854775807" = .ok [⟨.integer, .integer 2, ⟨0, 1⟩⟩,
      ⟨.minus, .text "-", ⟨2, 3⟩⟩, ⟨.minus, .text "-", ⟨4, 5⟩⟩,
      ⟨.integer, .integer 9223372036854775807, ⟨5, 24⟩⟩, Token.endAt 24] :=
    tokenize_of_toOption (by decide +kernel)
  have hsource : (Node.binary (.integer 2) .minus
      (.unary .minus (.integer 9223372036854775807))).FromSource := by
    refine ⟨_, _, [], _, ⟨[], 24⟩, htokens, (Cursor.before_nil _).symm, ?_⟩
    exact Or.inr (Or.inr rfl)
  obtain ⟨result, hresult, hcompletes⟩ := hminus _ 9223372036854775807 hsource
    (.inside (List.mem_cons_of_mem _ List.mem_cons_self) .here)
  exact ⟨hprinted (-9223372036854775807) (by decide),
    (hdigits "007" (by decide) (List.all_eq_true.mp rfl)).1 (by decide),
    (hdigits "09223372036854775808" (by decide) (List.all_eq_true.mp rfl)).2 (by decide),
    result, hresult, hcompletes ∅ ⟨{}, ()⟩⟩

end FlatScript
