import Mathlib.Data.String.Basic
import FlatScript.Eval.Operator
import FlatScript.Proofs.Hosts.LineEnds

/-!
# Comparisons

The three comparisons order the integers by size and the strings like a dictionary, by the code
points of their characters.  Strings can as well be compared byte by byte in UTF-8: a character with
more bytes has a larger first byte, and among characters with equally many bytes the first byte that
differs has the more significant bits.  So the bytes of two characters differ somewhere, neither
being the start of the other, and where they first differ the smaller character has the smaller
byte.  That is enough for texts of any length.
-/

namespace FlatScript

/-! ### Bytes in order -/

namespace Console

/-- Bytes that are given by numbers come in the order of these numbers. -/
theorem ofNat_cons_lt {code code' : Nat} {bytes bytes' : List UInt8}
    (hle : code % 256 ≤ code' % 256) (hrest : code % 256 = code' % 256 → bytes < bytes') :
    UInt8.ofNat code :: bytes < UInt8.ofNat code' :: bytes' := by
  rw [List.cons_lt_cons_iff, UInt8.lt_iff_toNat_lt, ← UInt8.toNat_inj, UInt8.toNat_ofNat',
    UInt8.toNat_ofNat']
  rcases Nat.lt_or_eq_of_le hle with hlt | heq
  · exact Or.inl hlt
  · exact Or.inr ⟨heq, hrest heq⟩

/-- A smaller character has smaller bytes, whatever comes behind. -/
theorem utf8EncodeChar_append_lt {c c' : Char} (hlt : c < c') (bytes bytes' : List UInt8) :
    String.utf8EncodeChar c ++ bytes < String.utf8EncodeChar c' ++ bytes' := by
  have hcodes : c.val.toNat < c'.val.toNat := hlt
  have hlimit : c'.val.toNat < 0x110000 := by
    have hvalid := c'.valid
    simp only [UInt32.isValidChar, Nat.isValidChar] at hvalid
    omega
  fun_cases String.utf8EncodeChar c with
  | case1 =>
      fun_cases String.utf8EncodeChar c' <;>
        exact ofNat_cons_lt (by omega) fun heq => absurd heq (by omega)
  | case2 =>
      fun_cases String.utf8EncodeChar c' with
      | case1 => omega
      | case2 =>
          exact ofNat_cons_lt (by omega) fun _ => ofNat_cons_lt (by omega) fun heq =>
            absurd heq (by omega)
      | case3 | case4 => exact ofNat_cons_lt (by omega) fun heq => absurd heq (by omega)
  | case3 =>
      fun_cases String.utf8EncodeChar c' with
      | case1 | case2 => omega
      | case3 =>
          exact ofNat_cons_lt (by omega) fun _ => ofNat_cons_lt (by omega) fun _ =>
            ofNat_cons_lt (by omega) fun heq => absurd heq (by omega)
      | case4 => exact ofNat_cons_lt (by omega) fun heq => absurd heq (by omega)
  | case4 =>
      fun_cases String.utf8EncodeChar c' with
      | case1 | case2 | case3 => omega
      | case4 =>
          exact ofNat_cons_lt (by omega) fun _ => ofNat_cons_lt (by omega) fun _ =>
            ofNat_cons_lt (by omega) fun _ => ofNat_cons_lt (by omega) fun heq =>
              absurd heq (by omega)

/-- A smaller text has smaller bytes.  The induction is along the common front of the two. -/
theorem flatMap_utf8EncodeChar_lt {first second : List Char} (hlt : first < second) :
    first.flatMap String.utf8EncodeChar < second.flatMap String.utf8EncodeChar := by
  induction hlt with
  | @nil c rest =>
      have hne : String.utf8EncodeChar c ≠ [] := String.utf8EncodeChar_ne_nil
      obtain ⟨byte, bytes, hbytes⟩ := List.exists_cons_of_ne_nil hne
      rw [List.flatMap_nil, List.flatMap_cons, hbytes]
      exact List.nil_lt_cons _ _
  | rel hc => exact utf8EncodeChar_append_lt hc _ _
  | cons _ ih => exact List.append_left_lt ih

end Console

/-- **Comparing the bytes of texts is comparing the texts.** -/
theorem bytes_lt_iff {first second : String} :
    Console.bytes first < Console.bytes second ↔ first < second := by
  have hbytes : ∀ {smaller larger : String}, smaller < larger →
      Console.bytes smaller < Console.bytes larger := by
    intro smaller larger hlt
    rw [Console.bytes_eq_flatMap, Console.bytes_eq_flatMap]
    exact Console.flatMap_utf8EncodeChar_lt (String.lt_iff.mp hlt)
  refine ⟨fun hlt => ?_, hbytes⟩
  rcases lt_trichotomy first second with hfirst | rfl | hsecond
  · exact hfirst
  · exact absurd hlt (List.lt_irrefl _)
  · exact absurd hlt (List.lt_asymm (hbytes hsecond))

/-! ### The order of a dictionary -/

/-- The order of a dictionary: a text comes before those that go on where it ends, and otherwise the
first characters that differ decide by their code points. -/
def Precedes (first second : List Char) : Prop :=
  (first <+: second ∧ first ≠ second) ∨
    ∃ front c c' rest rest', first = front ++ c :: rest ∧ second = front ++ c' :: rest' ∧
      c.toNat < c'.toNat

/-- One more common character in front changes nothing. -/
theorem Precedes.cons {first second : List Char} (hprecedes : Precedes first second) (c : Char) :
    Precedes (c :: first) (c :: second) := by
  rcases hprecedes with ⟨hfront, hne⟩ | ⟨front, d, d', rest, rest', rfl, rfl, hlt⟩
  · refine Or.inl ⟨List.cons_prefix_cons.mpr ⟨rfl, hfront⟩, ?_⟩
    intro heq
    exact hne (List.tail_eq_of_cons_eq heq)
  · exact Or.inr ⟨c :: front, d, d', rest, rest', rfl, rfl, hlt⟩

/-- Texts are compared in the order of a dictionary. -/
theorem lt_iff_precedes {first second : List Char} : first < second ↔ Precedes first second := by
  constructor
  · intro hlt
    induction hlt with
    | nil => exact Or.inl ⟨List.nil_prefix, (List.cons_ne_nil _ _).symm⟩
    | rel hc => exact Or.inr ⟨[], _, _, _, _, rfl, rfl, hc⟩
    | cons _ ih => exact ih.cons _
  · rintro (⟨⟨more, rfl⟩, hne⟩ | ⟨front, c, c', rest, rest', rfl, rfl, hlt⟩)
    · cases more with
      | nil => exact absurd (List.append_nil first).symm hne
      | cons c more =>
          have hlt : first ++ [] < first ++ c :: more :=
            List.append_left_lt (List.nil_lt_cons c more)
          rwa [List.append_nil] at hlt
    · exact List.append_left_lt (.rel hlt)

/-! ### Comparing values -/

/-- Two integers or two strings. -/
inductive Value.Comparable : Value → Value → Prop
  | int (a b : Int64) : Comparable (.int a) (.int b)
  | str (a b : String) : Comparable (.str a) (.str b)

namespace Token.Kind

/-- An operator yields true between two values. -/
def Holds (op : Token.Kind) (lhs rhs : Value) : Prop :=
  op.applyBinary lhs rhs = .ok (.bool true)

/-- Integers are compared by size. -/
theorem less_int_iff {a b : Int64} : less.Holds (.int a) (.int b) ↔ a.toInt < b.toInt := by
  simp [Holds, applyBinary]

/-- Strings are compared as texts. -/
theorem less_str_iff {a b : String} : less.Holds (.str a) (.str b) ↔ a < b := by
  simp [Holds, applyBinary]

/-- Of three that exclude each other, of which one is true, exactly one is true. -/
theorem count_of_trichotomy {p q r : Prop} [Decidable p] [Decidable q] [Decidable r]
    (hsome : p ∨ q ∨ r) (hpq : p → ¬q) (hpr : p → ¬r) (hqr : q → ¬r) :
    [decide p, decide q, decide r].count true = 1 := by
  rcases hsome with hp | hq | hr
  · simp [hp, hpq hp, hpr hp]
  · simp [hq, hqr hq, mt hpq (not_not_intro hq)]
  · simp [hr, mt hpr (not_not_intro hr), mt hqr (not_not_intro hr)]

/-- The three comparisons yield truth values, and exactly one of these is true. -/
theorem exactly_one_holds {a b : Value} (hcomparable : a.Comparable b) :
    ∃ below same above : Bool, less.applyBinary a b = .ok (.bool below) ∧
      equal.applyBinary a b = .ok (.bool same) ∧ greater.applyBinary a b = .ok (.bool above) ∧
      [below, same, above].count true = 1 := by
  cases hcomparable with
  | int a b =>
      refine ⟨_, _, _, rfl, rfl, rfl, count_of_trichotomy ?_ ?_ Int.lt_asymm ?_⟩
      · rcases Int.lt_trichotomy a.toInt b.toInt with hlt | heq | hgt
        · exact Or.inl hlt
        · exact Or.inr (Or.inl (congrArg Value.int (Int64.toInt_inj.mp heq)))
        · exact Or.inr (Or.inr hgt)
      · rintro hlt ⟨⟩
        exact Int.lt_irrefl _ hlt
      · rintro ⟨⟩
        exact Int.lt_irrefl _
  | str a b =>
      refine ⟨_, _, _, rfl, rfl, rfl, count_of_trichotomy ?_ ?_ String.lt_asymm ?_⟩
      · rcases lt_trichotomy a b with hlt | heq | hgt
        · exact Or.inl hlt
        · exact Or.inr (Or.inl (congrArg Value.str heq))
        · exact Or.inr (Or.inr hgt)
      · rintro hlt ⟨⟩
        exact String.lt_irrefl _ hlt
      · rintro ⟨⟩
        exact String.lt_irrefl _

/-- One value is less than another if and only if the other is greater. -/
theorem greater_iff_less {a b : Value} (hcomparable : a.Comparable b) :
    less.Holds a b ↔ greater.Holds b a := by
  cases hcomparable with
  | int a b => simp [Holds, applyBinary]
  | str a b => simp [Holds, applyBinary]

/-- To be less is transitive. -/
theorem less_trans {a b c : Value} (hab : a.Comparable b) (hbc : b.Comparable c)
    (hless : less.Holds a b) (hless' : less.Holds b c) : less.Holds a c := by
  cases hab with
  | int a b =>
      cases hbc with
      | int b c =>
          rw [less_int_iff] at hless hless' ⊢
          exact Int.lt_trans hless hless'
  | str a b =>
      cases hbc with
      | str b c =>
          rw [less_str_iff] at hless hless' ⊢
          exact String.lt_trans hless hless'

/-- Values of different types are not equal, and there is no order between them. -/
theorem compare_of_type_ne {a b : Value} (htype : a.type ≠ b.type) :
    equal.applyBinary a b = .ok (.bool false) ∧ less.applyBinary a b = less.rejects a b ∧
      greater.applyBinary a b = greater.rejects a b := by
  have hne : a ≠ b := fun heq => htype (congrArg Value.type heq)
  refine ⟨by simp [applyBinary, hne], ?_, ?_⟩
  · simp only [applyBinary]
    split
    · exact absurd rfl htype
    · exact absurd rfl htype
    · rfl
  · simp only [applyBinary]
    split
    · exact absurd rfl htype
    · exact absurd rfl htype
    · rfl

/-- **The comparisons are a strict total order**, of the integers and of the strings.  Between two
integers or two strings exactly one of them is true; one value is less than another if and only if
the other is greater; and to be less is transitive.  Strings are in the order of their bytes in
UTF-8, which is that of a dictionary by code points.  Values of different types are not equal, and
to ask which of them is less or greater is a type mismatch. -/
theorem comparisons_are_strict_order :
    (∀ a b : Value, a.Comparable b → ∃ below same above : Bool,
      less.applyBinary a b = .ok (.bool below) ∧ equal.applyBinary a b = .ok (.bool same) ∧
      greater.applyBinary a b = .ok (.bool above) ∧ [below, same, above].count true = 1) ∧
    (∀ a b : Value, a.Comparable b → (less.Holds a b ↔ greater.Holds b a)) ∧
    (∀ a b c : Value, a.Comparable b → b.Comparable c → less.Holds a b → less.Holds b c →
      less.Holds a c) ∧
    (∀ a b : String,
      (less.Holds (.str a) (.str b) ↔ Console.bytes a < Console.bytes b) ∧
      (less.Holds (.str a) (.str b) ↔ Precedes a.toList b.toList)) ∧
    ∀ a b : Value, a.type ≠ b.type → equal.applyBinary a b = .ok (.bool false) ∧
      less.applyBinary a b = .error (.typeMismatch (.operands .less a.type b.type)) ∧
      greater.applyBinary a b = .error (.typeMismatch (.operands .greater a.type b.type)) := by
  refine ⟨fun a b => exactly_one_holds, fun a b => greater_iff_less, fun a b c => less_trans,
    fun a b => ⟨?_, ?_⟩, fun a b => compare_of_type_ne⟩
  · rw [less_str_iff, bytes_lt_iff]
  · rw [less_str_iff, String.lt_iff, lt_iff_precedes]

/-- A ligature of three bytes is less than a letter of four, though the latter is less by its units
of 16 bits.  Neither is equal to its code point as an integer, and neither is it compared with
that. -/
theorem ligature_less_than_letter :
    less.Holds (.str "\ufb00") (.str "𐀀") ∧ greater.Holds (.str "𐀀") (.str "\ufb00") ∧
      Console.bytes "\ufb00" < Console.bytes "𐀀" ∧
      less.applyBinary (.str "\ufb00") (.int 0xfb00) =
        .error (.typeMismatch (.operands .less .string .integer)) := by
  obtain ⟨-, hswap, -, htexts, htypes⟩ := comparisons_are_strict_order
  obtain ⟨hbytes, hprecedes⟩ := htexts "\ufb00" "𐀀"
  have hless : less.Holds (.str "\ufb00") (.str "𐀀") :=
    hprecedes.mpr (Or.inr ⟨[], '\ufb00', '𐀀', [], [], rfl, rfl, by decide⟩)
  exact ⟨hless, (hswap _ _ (.str _ _)).mp hless, hbytes.mp hless,
    (htypes (.str "\ufb00") (.int 0xfb00) (by decide)).2.1⟩

end Token.Kind

end FlatScript
