import Mathlib.Data.List.Induction
import FlatScript.Token.StringLiteral

/-!
# Digits, numbers and characters

An escape sequence can give a character by the digits of its code.  The digits are those of a table,
and what they denote is said here without a bound.

The number is added up in 32 bits.  These hold eight hexadecimal digits, and every sum on the way to
them, so that the number is exact (`toNat_numeral`).  Three octal digits stay far below the first
surrogate, so that there is always a character for them.
-/

namespace FlatScript.StringLiteral

/-! ### Digits -/

/-- The digits and their values. -/
def digitTable : List (Char × Nat) :=
  [('0', 0), ('1', 1), ('2', 2), ('3', 3), ('4', 4), ('5', 5), ('6', 6), ('7', 7), ('8', 8),
    ('9', 9), ('a', 10), ('b', 11), ('c', 12), ('d', 13), ('e', 14), ('f', 15), ('A', 10),
    ('B', 11), ('C', 12), ('D', 13), ('E', 14), ('F', 15)]

/-- A character is a digit of a base if its value is below the base. -/
def IsDigit (base : Nat) (c : Char) : Prop :=
  ∃ value < base, digitTable.lookup c = some value

/-- The number that digits denote in the given base, the leading digit first. -/
def exactNumeral (base : Nat) (digits : List Char) : Nat :=
  digits.foldl (fun value c => value * base + (digitTable.lookup c).getD 0) 0

/-- Below 128, digits are what the table says. -/
theorem digit?_ofNat : ∀ n < 128,
    digit? 16 (Char.ofNat n) = digitTable.lookup (Char.ofNat n) := by
  decide +kernel

theorem digitTable_lt : ∀ entry ∈ digitTable, entry.1.toNat < 128 := by
  decide

/-- Behind the letters there are no digits. -/
theorem digit?_eq_none {base : Nat} {c : Char} (hc : 128 ≤ c.toNat) : digit? base c = none := by
  have hdecimal : ¬c ≤ '9' := fun hle => absurd (Nat.le_trans hc hle) (by decide)
  have hsmall : ¬c ≤ 'f' := fun hle => absurd (Nat.le_trans hc hle) (by decide)
  have hcapital : ¬c ≤ 'F' := fun hle => absurd (Nat.le_trans hc hle) (by decide)
  simp [digit?, hdecimal, hsmall, hcapital]

/-- There is no digit from 128 on. -/
theorem lookup_digitTable_eq_none {c : Char} (hc : 128 ≤ c.toNat) :
    digitTable.lookup c = none := by
  rw [List.lookup_eq_none_iff]
  intro entry hentry
  have hlt := digitTable_lt entry hentry
  rw [bne_iff_ne]
  rintro rfl
  omega

/-- The digits up to sixteen are those of the table. -/
theorem digit?_sixteen (c : Char) : digit? 16 c = digitTable.lookup c := by
  by_cases hc : c.toNat < 128
  · have hcode := digit?_ofNat c.toNat hc
    rwa [Char.ofNat_toNat] at hcode
  · rw [Nat.not_lt] at hc
    rw [digit?_eq_none hc, lookup_digitTable_eq_none hc]

/-- The digits of a smaller base are those with a smaller value. -/
theorem digit?_eq_some_iff {base value : Nat} {c : Char} (hbase : base ≤ 16) :
    digit? base c = some value ↔ value < base ∧ digitTable.lookup c = some value := by
  rw [← digit?_sixteen]
  unfold digit?
  grind

/-- The digits of a base are those of the table with a value below the base. -/
theorem isDigitIn_iff {base : Nat} {c : Char} (hbase : base ≤ 16) :
    isDigitIn base c = true ↔ IsDigit base c := by
  rw [isDigitIn, Option.isSome_iff_exists]
  exact exists_congr fun value => digit?_eq_some_iff hbase

/-- A digit has one value, which is below the base. -/
theorem IsDigit.value {base : Nat} {c : Char} (hbase : base ≤ 16) (hc : IsDigit base c) :
    (digit? base c).getD 0 = (digitTable.lookup c).getD 0 ∧
      (digitTable.lookup c).getD 0 < base := by
  obtain ⟨value, hvalue, hlookup⟩ := hc
  have hdigit := (digit?_eq_some_iff hbase).mpr ⟨hvalue, hlookup⟩
  rw [hdigit, hlookup]
  exact ⟨rfl, hvalue⟩

/-! ### Digits in front of a text -/

/-- As many digits as there are in front of a text, but no more than `most`. -/
structure IsDigits (base most : Nat) (digits after : List Char) : Prop where
  mem : ∀ c ∈ digits, IsDigit base c
  length_le : digits.length ≤ most
  ends : digits.length < most → ∀ c ∈ after.head?, ¬IsDigit base c

section Ahead

variable {base most : Nat} {c : Char} {digits after : List Char}

theorem isDigits_zero (after : List Char) : IsDigits base 0 [] after where
  mem := nofun
  length_le := Nat.le_refl 0
  ends := nofun

/-- The first of at most `most + 1` digits has at most `most` others behind it. -/
theorem isDigits_cons : IsDigits base (most + 1) (c :: digits) after ↔
    IsDigit base c ∧ IsDigits base most digits after := by
  constructor
  · intro hdigits
    obtain ⟨hc, hmore⟩ := List.forall_mem_cons.mp hdigits.mem
    exact ⟨hc, hmore, Nat.le_of_succ_le_succ hdigits.length_le,
      fun hlength => hdigits.ends (Nat.succ_lt_succ hlength)⟩
  · rintro ⟨hc, hmore⟩
    exact ⟨List.forall_mem_cons.mpr ⟨hc, hmore.mem⟩, Nat.succ_le_succ hmore.length_le,
      fun hlength => hmore.ends (Nat.lt_of_succ_lt_succ hlength)⟩

/-- A digit at the front is one of the digits ahead. -/
theorem digitsAhead_cons (hbase : base ≤ 16) (hc : IsDigit base c) (text : List Char) :
    digitsAhead base (most + 1) (c :: text) = c :: digitsAhead base most text :=
  List.takeWhile_cons_of_pos ((isDigitIn_iff hbase).mpr hc)

/-- There are no digits ahead if the front is none. -/
theorem digitsAhead_eq_nil (hbase : base ≤ 16) (hc : ¬IsDigit base c) (text : List Char) :
    digitsAhead base most (c :: text) = [] := by
  cases most with
  | zero => rfl
  | succ most => exact List.takeWhile_cons_of_neg fun hdigit => hc ((isDigitIn_iff hbase).mp hdigit)

/-- The digits that are taken are as many as there are. -/
theorem exists_isDigits (hbase : base ≤ 16) (most : Nat) (text : List Char) :
    ∃ after, text = digitsAhead base most text ++ after ∧
      IsDigits base most (digitsAhead base most text) after := by
  induction most generalizing text with
  | zero => exact ⟨text, rfl, isDigits_zero text⟩
  | succ most ih =>
      cases text with
      | nil => exact ⟨[], rfl, nofun, Nat.zero_le _, nofun⟩
      | cons c text =>
          by_cases hc : IsDigit base c
          · obtain ⟨after, htext, hdigits⟩ := ih text
            rw [digitsAhead_cons hbase hc]
            exact ⟨after, congrArg (c :: ·) htext, isDigits_cons.mpr ⟨hc, hdigits⟩⟩
          · rw [digitsAhead_eq_nil hbase hc]
            refine ⟨c :: text, rfl, nofun, Nat.zero_le _, fun _ x hx => ?_⟩
            cases hx
            exact hc

/-- As many digits as there are are the digits that are taken. -/
theorem IsDigits.digitsAhead_eq (hbase : base ≤ 16) (hdigits : IsDigits base most digits after) :
    digitsAhead base most (digits ++ after) = digits := by
  induction digits generalizing most with
  | nil =>
      cases most with
      | zero => rfl
      | succ most =>
          cases after with
          | nil => rfl
          | cons c after =>
              exact digitsAhead_eq_nil hbase (hdigits.ends (Nat.succ_pos _) c rfl) after
  | cons c digits ih =>
      cases most with
      | zero => exact absurd hdigits.length_le (Nat.not_succ_le_zero _)
      | succ most =>
          obtain ⟨hc, hmore⟩ := isDigits_cons.mp hdigits
          rw [List.cons_append, digitsAhead_cons hbase hc, ih hmore]

end Ahead

/-! ### Numbers -/

/-- At each of the digits, 32 bits hold the product and the sum. -/
def NeverOverflows (base : Nat) (digits : List Char) : Prop :=
  ∀ before c after, digits = before ++ c :: after →
    (numeral base before).toNat * base + (digit? base c).getD 0 < 4294967296

section Numbers

variable {base : Nat} {digits : List Char}

/-- A last digit is added to the base times the number in front of it. -/
theorem exactNumeral_concat (base : Nat) (digits : List Char) (c : Char) :
    exactNumeral base (digits ++ [c]) =
      exactNumeral base digits * base + (digitTable.lookup c).getD 0 := by
  simp [exactNumeral]

/-- The same in 32 bits. -/
theorem numeral_concat (base : Nat) (digits : List Char) (c : Char) :
    numeral base (digits ++ [c]) =
      numeral base digits * base.toUInt32 + ((digit? base c).getD 0).toUInt32 := by
  simp [numeral]

/-- So many digits denote less than the power of the base. -/
theorem exactNumeral_lt (hbase : base ≤ 16) (hdigits : ∀ c ∈ digits, IsDigit base c) :
    exactNumeral base digits < Nat.pow base digits.length := by
  induction digits using List.reverseRecOn with
  | nil => exact Nat.one_pos
  | append_singleton before c ih =>
      obtain ⟨hbefore, hc⟩ := List.forall_mem_append.mp hdigits
      have hvalue := (hc c (List.mem_singleton_self c)).value hbase
      rw [exactNumeral_concat, List.length_append, List.length_singleton]
      calc exactNumeral base before * base + (digitTable.lookup c).getD 0
          < exactNumeral base before * base + base := Nat.add_lt_add_left hvalue.2 _
        _ = (exactNumeral base before + 1) * base := (Nat.succ_mul _ _).symm
        _ ≤ Nat.pow base before.length * base := Nat.mul_le_mul_right base (ih hbefore)

/-- 32 bits hold eight digits of any base up to sixteen. -/
theorem exactNumeral_lt_word (hbase : base ≤ 16) (hdigits : ∀ c ∈ digits, IsDigit base c)
    (hlength : digits.length ≤ 8) : exactNumeral base digits < 4294967296 := by
  calc exactNumeral base digits
      < Nat.pow base digits.length := exactNumeral_lt hbase hdigits
    _ ≤ Nat.pow 16 digits.length := Nat.pow_le_pow_left hbase _
    _ ≤ Nat.pow 16 8 := Nat.pow_le_pow_right (by decide) hlength
    _ = 4294967296 := rfl

theorem toNat_toUInt32 {n : Nat} (hn : n < 4294967296) : n.toUInt32.toNat = n :=
  UInt32.toNat_ofNat_of_lt' hn

/-- **The number of up to eight digits is exact.** -/
theorem toNat_numeral (hbase : base ≤ 16) (hdigits : ∀ c ∈ digits, IsDigit base c)
    (hlength : digits.length ≤ 8) : (numeral base digits).toNat = exactNumeral base digits := by
  induction digits using List.reverseRecOn with
  | nil => rfl
  | append_singleton before c ih =>
      have hword := exactNumeral_lt_word hbase hdigits hlength
      obtain ⟨hbefore, hc⟩ := List.forall_mem_append.mp hdigits
      rw [List.length_append, List.length_singleton] at hlength
      obtain ⟨hvalue, hsmall⟩ := (hc c (List.mem_singleton_self c)).value hbase
      rw [exactNumeral_concat] at hword ⊢
      rw [numeral_concat, hvalue, UInt32.toNat_add, UInt32.toNat_mul, ih hbefore (by omega),
        toNat_toUInt32 (by omega), toNat_toUInt32 (by omega)]
      omega

/-- Up to eight digits are added up in 32 bits without overflow. -/
theorem IsDigits.toNat_numeral {most : Nat} {after : List Char} (hbase : base ≤ 16)
    (hmost : most ≤ 8) (hdigits : IsDigits base most digits after) :
    (numeral base digits).toNat = exactNumeral base digits :=
  StringLiteral.toNat_numeral hbase hdigits.mem (Nat.le_trans hdigits.length_le hmost)

/-- The number of up to eight digits is added up without an overflow. -/
theorem neverOverflows (hbase : base ≤ 16) (hdigits : ∀ c ∈ digits, IsDigit base c)
    (hlength : digits.length ≤ 8) : NeverOverflows base digits := by
  rintro before c after rfl
  rw [List.append_cons] at hdigits hlength
  have hhead := (List.forall_mem_append.mp hdigits).1
  obtain ⟨hbefore, hc⟩ := List.forall_mem_append.mp hhead
  rw [List.length_append] at hlength
  have hword := exactNumeral_lt_word hbase hhead (by omega)
  rw [List.length_append] at hlength
  have hexact := toNat_numeral hbase hbefore (by omega)
  have hvalue := ((hc c (List.mem_singleton_self c)).value hbase).1
  rwa [hexact, hvalue, ← exactNumeral_concat]

end Numbers

/-! ### Characters -/

/-- A number is the code of a character if it is at most the last one and no surrogate. -/
def IsScalarValue (code : Nat) : Prop :=
  code ≤ 0x10ffff ∧ ¬(0xd800 ≤ code ∧ code ≤ 0xdfff)

/-- The scalar values are the codes of characters. -/
theorem isScalarValue_iff {code : Nat} : IsScalarValue code ↔ code.isValidChar := by
  rw [IsScalarValue, Nat.isValidChar]
  omega

/-- There is a character for a scalar value. -/
theorem character?_of_isScalarValue {code : UInt32} (hcode : IsScalarValue code.toNat) :
    character? code = some (Char.ofNat code.toNat) := by
  have hvalid := isScalarValue_iff.mp hcode
  have hfound : character? code = some ⟨code, hvalid⟩ := dif_pos hvalid
  rw [hfound]
  exact congrArg some (Char.ofNat_toNat ⟨code, hvalid⟩).symm

/-- A code that is no scalar value has no character. -/
theorem character?_eq_none {code : UInt32} (hcode : ¬IsScalarValue code.toNat) :
    character? code = none := by
  rw [isScalarValue_iff] at hcode
  exact dif_neg hcode

/-- Up to three octal digits are the code of a character. -/
theorem isScalarValue_octal {digits : List Char} (hdigits : ∀ c ∈ digits, IsDigit 8 c)
    (hlength : digits.length ≤ 3) : IsScalarValue (exactNumeral 8 digits) := by
  have hlt : exactNumeral 8 digits < 512 := by
    calc exactNumeral 8 digits
        < Nat.pow 8 digits.length := exactNumeral_lt (by decide) hdigits
      _ ≤ Nat.pow 8 3 := Nat.pow_le_pow_right (by decide) hlength
      _ = 512 := rfl
  rw [IsScalarValue]
  omega

end FlatScript.StringLiteral
