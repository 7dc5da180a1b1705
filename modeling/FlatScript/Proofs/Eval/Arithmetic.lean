import FlatScript.Proofs.Eval.Completion

/-!
# Arithmetic in 64 bits

Evaluation computes with integers of 64 bits.  Here it is compared with arithmetic on exact
integers, in which nothing overflows and division rounds towards minus infinity.

`Node.exact` is the exact value of a tree of integer arithmetic, and `Node.subexpressions` lists
what the tree is made of in the order of evaluation: operands from left to right, and then their
operator.  The evaluation succeeds if all these have exact values that fit, and fails at the first
of them that has a zero divisor or a value that does not fit.

The one operator that is made of several steps is division.  `floorDiv?` corrects a quotient that is
rounded towards zero.  Where there is this quotient, none of the other steps fails or overflows.
-/

namespace FlatScript

/-- The integers that fit into 64 bits with a sign. -/
def FitsInt64 (value : Int) : Prop :=
  -9223372036854775808 ≤ value ∧ value ≤ 9223372036854775807

/-- What 64 bits hold fits. -/
theorem fitsInt64_toInt (a : Int64) : FitsInt64 a.toInt := by
  have hlow := a.le_toInt
  have hhigh := a.toInt_lt
  constructor <;> omega

/-- An integer that fits is held as it is. -/
theorem toInt_ofInt_of_fits {value : Int} (hfits : FitsInt64 value) :
    (Int64.ofInt value).toInt = value := by
  obtain ⟨hlow, hhigh⟩ := hfits
  exact Int64.toInt_ofInt_of_le (by omega) (by omega)

/-! ### Division -/

/-- Rounding towards minus infinity is rounding towards zero, and one less if there is a remainder
and the signs differ. -/
theorem fdiv_eq_of_tdiv (a b : Int) (hb : b ≠ 0) :
    a.fdiv b = if a.tmod b ≠ 0 ∧ ¬(a < 0 ↔ b < 0) then a.tdiv b - 1 else a.tdiv b := by
  rw [Int.fdiv_eq_tdiv]
  by_cases hdvd : b ∣ a
  · have hmod : a.tmod b = 0 := Int.tmod_eq_zero_of_dvd hdvd
    simp [hdvd, hmod]
  · have hmod : a.tmod b ≠ 0 := fun hzero => hdvd (Int.dvd_of_tmod_eq_zero hzero)
    rcases Int.lt_or_gt_of_ne hb with hneg | hpos
    · have hsign : b.sign = -1 := Int.sign_eq_neg_one_of_neg hneg
      by_cases ha : 0 ≤ a
      · simp [hdvd, hmod, hneg, ha, Int.not_le.mpr hneg, Int.not_lt.mpr ha]
      · simp [hdvd, hmod, hneg, ha, Int.not_le.mpr hneg, Int.not_le.mp ha, hsign]
    · have hsign : b.sign = 1 := Int.sign_eq_one_of_pos hpos
      by_cases ha : 0 ≤ a
      · simp [hdvd, hmod, ha, Int.le_of_lt hpos, Int.not_lt.mpr ha,
          Int.not_lt.mpr (Int.le_of_lt hpos)]
      · simp [hdvd, hmod, ha, Int.le_of_lt hpos, Int.not_le.mp ha,
          Int.not_lt.mpr (Int.le_of_lt hpos), hsign]

/-- The quotient rounded towards zero is missing for one pair only. -/
theorem truncDiv?_eq_none_iff {a b : Int64} (hb : b ≠ 0) :
    truncDiv? a b = none ↔ a = Int64.minValue ∧ b = -1 := by
  simp [truncDiv?, hb]

/-- Where there is a quotient there is a remainder. -/
theorem truncMod?_of_truncDiv? {a b quotient : Int64} (hquotient : truncDiv? a b = some quotient) :
    truncMod? a b = some (a % b) := by
  rw [truncDiv?] at hquotient
  split at hquotient
  · cases hquotient
  · next hfits => rw [truncMod?, if_neg hfits]

/-- The quotient rounded towards minus infinity is that rounded towards zero, corrected. -/
theorem floorDiv?_eq_map (a b : Int64) : floorDiv? a b = (truncDiv? a b).map fun quotient =>
    if a % b ≠ 0 ∧ ¬(a < 0 ↔ b < 0) then quotient - 1 else quotient := by
  rw [floorDiv?]
  cases hquotient : truncDiv? a b with
  | none => rfl
  | some quotient =>
      simp only [truncMod?_of_truncDiv? hquotient, Option.bind_eq_bind, Option.bind_some,
        Option.map_some]
      split <;> rfl

/-- Where there is a quotient it is exact. -/
theorem toInt_of_truncDiv? {a b quotient : Int64} (hquotient : truncDiv? a b = some quotient) :
    quotient.toInt = a.toInt.tdiv b.toInt := by
  rw [truncDiv?] at hquotient
  split at hquotient
  · cases hquotient
  · next hfits =>
      cases hquotient
      by_cases ha : a = Int64.minValue
      · have hb : b ≠ -1 := fun hb => hfits (Or.inr ⟨ha, hb⟩)
        exact Int64.toInt_div_of_ne_right a b hb
      · exact Int64.toInt_div_of_ne_left a b ha

/-- If there is a remainder, the divisor is neither one nor minus one, and the quotient is at most
half of what fits. -/
theorem tdiv_bounds {a b : Int} (ha : FitsInt64 a) (hb : b ≠ 0) (hmod : a.tmod b ≠ 0) :
    -4611686018427387904 ≤ a.tdiv b ∧ a.tdiv b ≤ 4611686018427387904 := by
  have hone : b ≠ 1 := by
    rintro rfl
    exact hmod (Int.tmod_one a)
  have hminusOne : b ≠ -1 := by
    rintro rfl
    rw [Int.tmod_neg] at hmod
    exact hmod (Int.tmod_one a)
  have hhalf : (a.tdiv b).natAbs ≤ a.natAbs / 2 := by
    rw [Int.natAbs_tdiv]
    exact Nat.div_le_div_left (by omega) (by decide)
  obtain ⟨hlow, hhigh⟩ := ha
  omega

/-- The correction is due where it is for exact integers. -/
theorem corrects_iff {a b : Int64} : (a % b ≠ 0 ∧ ¬(a < 0 ↔ b < 0)) ↔
    (a.toInt.tmod b.toInt ≠ 0 ∧ ¬(a.toInt < 0 ↔ b.toInt < 0)) := by
  rw [← Int64.toInt_mod, Int64.lt_iff_toInt_lt, Int64.lt_iff_toInt_lt, ← Int64.toInt_zero, Ne, Ne,
    Int64.toInt_inj]

theorem toInt_ne_zero {b : Int64} (hb : b ≠ 0) : b.toInt ≠ 0 := by
  rw [← Int64.toInt_zero, Ne, Int64.toInt_inj]
  exact hb

/-- A quotient that is corrected stays within 64 bits. -/
theorem toInt_corrected {a b quotient : Int64} (hb : b ≠ 0)
    (hquotient : truncDiv? a b = some quotient) (hsigns : a % b ≠ 0 ∧ ¬(a < 0 ↔ b < 0)) :
    (quotient - 1).toInt = quotient.toInt - 1 := by
  have hbounds := tdiv_bounds (fitsInt64_toInt a) (toInt_ne_zero hb) (corrects_iff.mp hsigns).1
  rw [← toInt_of_truncDiv? hquotient] at hbounds
  rw [Int64.toInt_sub]
  have hone : Int64.toInt 1 = 1 := rfl
  rw [hone]
  exact Int.bmod_eq_of_le (by omega) (by omega)

/-- Where there is a quotient rounded towards minus infinity it is exact. -/
theorem toInt_of_floorDiv? {a b quotient : Int64} (hb : b ≠ 0)
    (hquotient : floorDiv? a b = some quotient) :
    quotient.toInt = a.toInt.fdiv b.toInt := by
  rw [floorDiv?_eq_map] at hquotient
  obtain ⟨truncated, htruncated, rfl⟩ := Option.map_eq_some_iff.mp hquotient
  rw [fdiv_eq_of_tdiv a.toInt b.toInt (toInt_ne_zero hb), ← toInt_of_truncDiv? htruncated]
  by_cases hsigns : a % b ≠ 0 ∧ ¬(a < 0 ↔ b < 0)
  · rw [if_pos hsigns, if_pos (corrects_iff.mp hsigns)]
    exact toInt_corrected hb htruncated hsigns
  · rw [if_neg hsigns, if_neg (mt corrects_iff.mpr hsigns)]

/-- The correction gives a result wherever there is something to correct. -/
theorem floorDiv?_eq_none_iff {a b : Int64} (hb : b ≠ 0) :
    floorDiv? a b = none ↔ a = Int64.minValue ∧ b = -1 := by
  rw [← truncDiv?_eq_none_iff hb, floorDiv?_eq_map, Option.map_eq_none_iff]

/-! ### Operators -/

/-- A result that fits is a value. -/
theorem Value.ofInt_of_fits {value : Int} (hfits : FitsInt64 value) :
    Value.ofInt value = .ok (.int (Int64.ofInt value)) :=
  if_pos hfits

/-- A result that does not fit is an overflow. -/
theorem Value.ofInt_of_not_fits {value : Int} (hfits : ¬FitsInt64 value) :
    Value.ofInt value = .error .integerOverflow :=
  if_neg hfits

/-- Division is exact division, and overflows where this does not fit. -/
theorem ofInt64?_floorDiv? {a b : Int64} (hb : b ≠ 0) :
    Value.ofInt64? (floorDiv? a b) = Value.ofInt (a.toInt.fdiv b.toInt) := by
  cases hquotient : floorDiv? a b with
  | none =>
      obtain ⟨rfl, rfl⟩ := (floorDiv?_eq_none_iff hb).mp hquotient
      rfl
  | some quotient =>
      rw [← toInt_of_floorDiv? hb hquotient, Value.ofInt_of_fits (fitsInt64_toInt quotient),
        Int64.ofInt_toInt]
      rfl

namespace Token.Kind

/-- The exact value of an operator between two integers.  There is none for a division by zero. -/
def exactBinary (op : Token.Kind) (a b : Int) : Option Int :=
  match op with
  | .plus => some (a + b)
  | .minus => some (a - b)
  | .star => some (a * b)
  | .slash => if b = 0 then none else some (a.fdiv b)
  | _ => none

/-- The exact value of a sign in front of an integer. -/
def exactUnary (op : Token.Kind) (a : Int) : Option Int :=
  match op with
  | .plus => some a
  | .minus => some (-a)
  | _ => none

/-- The operators of integer arithmetic. -/
def IsArithmetic (op : Token.Kind) : Prop :=
  op = .plus ∨ op = .minus ∨ op = .star ∨ op = .slash

instance (op : Token.Kind) : Decidable op.IsArithmetic :=
  inferInstanceAs (Decidable (_ ∨ _))

/-- An operator with an exact value has this value, if it fits. -/
theorem applyBinary_of_exact {op : Token.Kind} (hop : op.IsArithmetic) {a b : Int64} {value : Int}
    (hvalue : op.exactBinary a.toInt b.toInt = some value) :
    op.applyBinary (.int a) (.int b) = Value.ofInt value := by
  rcases hop with rfl | rfl | rfl | rfl
  · cases hvalue
    rfl
  · cases hvalue
    rfl
  · cases hvalue
    rfl
  · rw [exactBinary] at hvalue
    split at hvalue
    · cases hvalue
    · next hzero =>
        cases hvalue
        have hb : b ≠ 0 := by
          rintro rfl
          exact hzero Int64.toInt_zero
        simp only [applyBinary, if_neg hb, ofInt64?_floorDiv? hb]

/-- An operator without an exact value is a division by zero. -/
theorem applyBinary_of_inexact {op : Token.Kind} (hop : op.IsArithmetic) {a b : Int64}
    (hvalue : op.exactBinary a.toInt b.toInt = none) :
    op = .slash ∧ b.toInt = 0 ∧ op.applyBinary (.int a) (.int b) = .error .divisionByZero := by
  rcases hop with rfl | rfl | rfl | rfl
  · cases hvalue
  · cases hvalue
  · cases hvalue
  · rw [exactBinary] at hvalue
    split at hvalue
    · next hzero =>
        have hb : b = 0 := by rwa [← Int64.toInt_zero, Int64.toInt_inj] at hzero
        exact ⟨rfl, hzero, by simp only [applyBinary, if_pos hb]⟩
    · cases hvalue

/-- A sign has its exact value, if it fits. -/
theorem applyUnary_of_exact {op : Token.Kind} {a : Int64} {value : Int}
    (hvalue : op.exactUnary a.toInt = some value) : op.applyUnary (.int a) = Value.ofInt value := by
  cases op with
  | plus =>
      cases hvalue
      rw [Value.ofInt_of_fits (fitsInt64_toInt a), Int64.ofInt_toInt]
      rfl
  | minus =>
      cases hvalue
      rfl
  | _ => cases hvalue

end Token.Kind

namespace Node

/-! ### Exact values of trees -/

/-- The trees of integer arithmetic in a frame: integers and variables that hold integers, with
signs and operators. -/
inductive IsArithmetic (frame : Frame) : Node → Prop
  | integer (value : Int64) : IsArithmetic frame (.integer value)
  | read {name : String} {value : Int64} (hname : frame.vars[name]? = some (.int value)) :
      IsArithmetic frame (.read name)
  | unary {op : Token.Kind} {arg : Node} (hop : op = .plus ∨ op = .minus)
      (harg : IsArithmetic frame arg) : IsArithmetic frame (.unary op arg)
  | binary {lhs rhs : Node} {op : Token.Kind} (hop : op.IsArithmetic)
      (hlhs : IsArithmetic frame lhs) (hrhs : IsArithmetic frame rhs) :
      IsArithmetic frame (.binary lhs op rhs)

/-- The exact value of a tree of integer arithmetic.  There is none if a divisor is zero. -/
def exact (frame : Frame) : Node → Option Int
  | .integer value => some value.toInt
  | .read name => (frame.vars[name]?.bind Value.int?).map Int64.toInt
  | .unary op arg => (arg.exact frame).bind op.exactUnary
  | .binary lhs op rhs =>
    (lhs.exact frame).bind fun left => (rhs.exact frame).bind fun right => op.exactBinary left right
  | _ => none

/-- The tree and all that it is made of, in the order of evaluation: the left operand, the right
operand, and then the tree itself. -/
def subexpressions : Node → List Node
  | .unary op arg => arg.subexpressions ++ [.unary op arg]
  | .binary lhs op rhs => lhs.subexpressions ++ (rhs.subexpressions ++ [.binary lhs op rhs])
  | node => [node]

/-- The tree has an exact value, and this fits. -/
def Sound (frame : Frame) (node : Node) : Prop :=
  ∃ value, node.exact frame = some value ∧ FitsInt64 value

/-- What is wrong with a tree itself: its divisor is zero, or its value does not fit. -/
inductive Offends (frame : Frame) : Node → EvalError → Prop
  | divisor {lhs rhs : Node} (hdivisor : rhs.exact frame = some 0) :
      Offends frame (.binary lhs .slash rhs) .divisionByZero
  | value {node : Node} {value : Int} (hvalue : node.exact frame = some value)
      (hrange : ¬FitsInt64 value) : Offends frame node .integerOverflow

/-- The first tree of a list that is not sound has the given error. -/
def FirstOffence (frame : Frame) (nodes : List Node) (error : EvalError) : Prop :=
  ∃ before part behind, nodes = before ++ part :: behind ∧
    (∀ earlier ∈ before, earlier.Sound frame) ∧ part.Offends frame error

variable {frame : Frame} {node : Node} {error error' : EvalError}

/-- There is no exact quotient by zero. -/
theorem exact_of_divisor {lhs rhs : Node} (hdivisor : rhs.exact frame = some 0) :
    (Node.binary lhs .slash rhs).exact frame = none := by
  rw [exact, hdivisor]
  cases lhs.exact frame <;> rfl

/-- A part that offends is not sound. -/
theorem Offends.not_sound (hoffends : node.Offends frame error) : ¬node.Sound frame := by
  rintro ⟨value, hvalue, hfits⟩
  cases hoffends with
  | divisor hdivisor =>
      rw [exact_of_divisor hdivisor] at hvalue
      cases hvalue
  | value hother hrange =>
      cases hother.symm.trans hvalue
      exact hrange hfits

/-- A part offends in one way only. -/
theorem Offends.unique (hoffends : node.Offends frame error)
    (hoffends' : node.Offends frame error') : error = error' := by
  cases hoffends with
  | divisor hdivisor =>
      cases hoffends' with
      | divisor => rfl
      | value hvalue =>
          rw [exact_of_divisor hdivisor] at hvalue
          cases hvalue
  | value hvalue =>
      cases hoffends' with
      | divisor hdivisor =>
          rw [exact_of_divisor hdivisor] at hvalue
          cases hvalue
      | value => rfl

namespace FirstOffence

variable {nodes more : List Node}

/-- The first offence stays the first if there is more behind it. -/
theorem append (hfirst : FirstOffence frame nodes error) (more : List Node) :
    FirstOffence frame (nodes ++ more) error := by
  obtain ⟨before, part, behind, rfl, hbefore, hpart⟩ := hfirst
  exact ⟨before, part, behind ++ more, by simp, hbefore, hpart⟩

/-- The first offence behind sound parts is the first of all. -/
theorem behind (hnodes : ∀ earlier ∈ nodes, earlier.Sound frame)
    (hfirst : FirstOffence frame more error) : FirstOffence frame (nodes ++ more) error := by
  obtain ⟨before, part, behind, rfl, hbefore, hpart⟩ := hfirst
  refine ⟨nodes ++ before, part, behind, by simp, ?_, hpart⟩
  exact List.forall_mem_append.mpr ⟨hnodes, hbefore⟩

/-- If there is an offence, not all parts are sound. -/
theorem not_all_sound (hfirst : FirstOffence frame nodes error) :
    ¬∀ part ∈ nodes, part.Sound frame := by
  obtain ⟨before, part, behind, rfl, -, hpart⟩ := hfirst
  intro hsound
  exact hpart.not_sound (hsound part (by simp))

/-- A list has one first offence at the most. -/
theorem unique (hfirst : FirstOffence frame nodes error)
    (hfirst' : FirstOffence frame nodes error') : error = error' := by
  obtain ⟨before, part, behind, rfl, hbefore, hpart⟩ := hfirst
  obtain ⟨before', part', behind', hsplit, hbefore', hpart'⟩ := hfirst'
  rcases List.append_eq_append_iff.mp hsplit with
    ⟨between, hbetween, hrest⟩ | ⟨between, hbetween, hrest⟩
  · cases between with
    | nil =>
        cases hrest
        exact hpart.unique hpart'
    | cons first between =>
        cases hrest
        exact absurd (hbefore' part (by simp [hbetween])) hpart.not_sound
  · cases between with
    | nil =>
        cases hrest
        exact hpart.unique hpart'
    | cons first between =>
        cases hrest
        exact absurd (hbefore part' (by simp [hbetween])) hpart'.not_sound

end FirstOffence

/-! ### Evaluation -/

section Eval

variable {σ : Type} {builtins : Builtins σ} {state middle after : State σ}

/-- A sign is applied to the value of its operand. -/
theorem Completes.unary {op : Token.Kind} {arg : Node} {value : Value}
    (harg : arg.Completes builtins state (.ok value) after) :
    (Node.unary op arg).Completes builtins state (op.applyUnary value) after := by
  obtain ⟨fuel, harg⟩ := harg
  refine ⟨fuel + 1, ?_⟩
  rw [eval, evalWith, EvalM.bind_of_ok harg]
  cases op.applyUnary value <;> rfl

/-- A sign fails if its operand does. -/
theorem Completes.unary_error {op : Token.Kind} {arg : Node}
    (harg : arg.Completes builtins state (.error error) after) :
    (Node.unary op arg).Completes builtins state (.error error) after := by
  obtain ⟨fuel, harg⟩ := harg
  refine ⟨fuel + 1, ?_⟩
  rw [eval, evalWith, EvalM.bind_of_error harg]
  rfl

/-- An operator fails if its first operand does. -/
theorem Completes.binary_left {op : Token.Kind} {lhs rhs : Node}
    (hlhs : lhs.Completes builtins state (.error error) after) :
    (Node.binary lhs op rhs).Completes builtins state (.error error) after := by
  obtain ⟨fuel, hlhs⟩ := hlhs
  refine ⟨fuel + 1, ?_⟩
  rw [eval, evalWith, EvalM.bind_of_error hlhs]
  rfl

/-- Both operands with the same fuel, which is enough for each of them. -/
theorem Completes.both {lhs rhs : Node} {left right : Except EvalError Value}
    (hlhs : lhs.Completes builtins state left middle)
    (hrhs : rhs.Completes builtins middle right after) :
    ∃ fuel, lhs.eval builtins fuel state = EvalM.ended left middle ∧
      rhs.eval builtins fuel middle = EvalM.ended right after := by
  obtain ⟨fuel, hlhs⟩ := hlhs
  obtain ⟨fuel', hrhs⟩ := hrhs
  exact ⟨max fuel fuel', (eval_alike builtins (Nat.le_max_left fuel fuel') lhs).ended_again hlhs,
    (eval_alike builtins (Nat.le_max_right fuel fuel') rhs).ended_again hrhs⟩

/-- An operator fails if its second operand does, after the first. -/
theorem Completes.binary_right {op : Token.Kind} {lhs rhs : Node} {left : Value}
    (hlhs : lhs.Completes builtins state (.ok left) middle)
    (hrhs : rhs.Completes builtins middle (.error error) after) :
    (Node.binary lhs op rhs).Completes builtins state (.error error) after := by
  obtain ⟨fuel, hlhs, hrhs⟩ := hlhs.both hrhs
  refine ⟨fuel + 1, ?_⟩
  rw [eval, evalWith, EvalM.bind_of_ok hlhs, EvalM.bind_of_error hrhs]
  rfl

/-- An operator is applied to the values of its operands. -/
theorem Completes.binary {op : Token.Kind} {lhs rhs : Node} {left right : Value}
    (hlhs : lhs.Completes builtins state (.ok left) middle)
    (hrhs : rhs.Completes builtins middle (.ok right) after) :
    (Node.binary lhs op rhs).Completes builtins state (op.applyBinary left right) after := by
  obtain ⟨fuel, hlhs, hrhs⟩ := hlhs.both hrhs
  refine ⟨fuel + 1, ?_⟩
  rw [eval, evalWith, EvalM.bind_of_ok hlhs, EvalM.bind_of_ok hrhs]
  cases op.applyBinary left right <;> rfl

/-- How a tree of arithmetic completes: with its exact value if all subexpressions are sound, and
otherwise with the first offence.  The state stays as it is. -/
def CompletesExactly (builtins : Builtins σ) (node : Node) (state : State σ) : Prop :=
  (∃ result : Int64, node.Completes builtins state (.ok (.int result)) state ∧
    node.exact state.frame = some result.toInt ∧
    ∀ part ∈ node.subexpressions, part.Sound state.frame) ∨
  ∃ error, node.Completes builtins state (.error error) state ∧
    FirstOffence state.frame node.subexpressions error

/-- A tree whose operands are sound and whose exact value is known, if it completes with this value
wherever it fits. -/
theorem completesExactly_of_exact {operands : List Node} {value : Int}
    (hparts : node.subexpressions = operands ++ [node])
    (hoperands : ∀ part ∈ operands, part.Sound state.frame)
    (hvalue : node.exact state.frame = some value)
    (hcompletes : node.Completes builtins state (Value.ofInt value) state) :
    CompletesExactly builtins node state := by
  by_cases hfits : FitsInt64 value
  · have hexact : node.exact state.frame = some (Int64.ofInt value).toInt := by
      rw [hvalue, toInt_ofInt_of_fits hfits]
    rw [Value.ofInt_of_fits hfits] at hcompletes
    refine Or.inl ⟨_, hcompletes, hexact, ?_⟩
    rw [hparts]
    exact List.forall_mem_append.mpr
      ⟨hoperands, List.forall_mem_singleton.mpr ⟨value, hvalue, hfits⟩⟩
  · rw [Value.ofInt_of_not_fits hfits] at hcompletes
    exact Or.inr ⟨_, hcompletes, operands, node, [], hparts, hoperands, .value hvalue hfits⟩

/-- **Trees of arithmetic complete exactly.**  The induction is on the tree: an operator is reached
only if its operands are sound, and then these have their exact values. -/
theorem IsArithmetic.completesExactly (builtins : Builtins σ) (state : State σ)
    (hnode : node.IsArithmetic state.frame) : CompletesExactly builtins node state := by
  induction hnode with
  | integer value =>
      have hparts : (Node.integer value).subexpressions = [] ++ [.integer value] := rfl
      refine completesExactly_of_exact hparts (by simp) rfl ⟨1, ?_⟩
      rw [Value.ofInt_of_fits (fitsInt64_toInt value), Int64.ofInt_toInt]
      rfl
  | @read name value hname =>
      have hvalue : (Node.read name).exact state.frame = some value.toInt := by
        rw [exact, hname]
        rfl
      have hparts : (Node.read name).subexpressions = [] ++ [.read name] := rfl
      refine completesExactly_of_exact hparts (by simp) hvalue ⟨1, ?_⟩
      rw [Value.ofInt_of_fits (fitsInt64_toInt value), Int64.ofInt_toInt, eval, evalWith,
        EvalM.frame_bind_run, hname]
      rfl
  | @unary op arg hop _ ih =>
      rcases ih with ⟨result, hcompletes, hexact, hsound⟩ | ⟨error, hcompletes, hfirst⟩
      · obtain ⟨value, hvalue⟩ : ∃ value, op.exactUnary result.toInt = some value := by
          rcases hop with rfl | rfl <;> exact ⟨_, rfl⟩
        have hexactly : (Node.unary op arg).exact state.frame = some value := by
          rw [exact, hexact]
          exact hvalue
        refine completesExactly_of_exact rfl hsound hexactly ?_
        rw [← Token.Kind.applyUnary_of_exact hvalue]
        exact hcompletes.unary
      · exact Or.inr ⟨error, hcompletes.unary_error, hfirst.append _⟩
  | @binary lhs rhs op hop _ _ ihlhs ihrhs =>
      rcases ihlhs with ⟨left, hleft, hexactLeft, hsoundLeft⟩ | ⟨error, hleft, hfirst⟩
      · rcases ihrhs with ⟨right, hright, hexactRight, hsoundRight⟩ | ⟨error, hright, hfirst⟩
        · have hexact : (Node.binary lhs op rhs).exact state.frame =
              op.exactBinary left.toInt right.toInt := by
            rw [exact, hexactLeft, hexactRight]
            rfl
          have hparts : (Node.binary lhs op rhs).subexpressions =
              lhs.subexpressions ++ rhs.subexpressions ++ [.binary lhs op rhs] :=
            (List.append_assoc _ _ _).symm
          have hsound := List.forall_mem_append.mpr ⟨hsoundLeft, hsoundRight⟩
          have hcompletes : (Node.binary lhs op rhs).Completes builtins state
              (op.applyBinary (.int left) (.int right)) state := hleft.binary hright
          cases hvalue : op.exactBinary left.toInt right.toInt with
          | some value =>
              rw [Token.Kind.applyBinary_of_exact hop hvalue] at hcompletes
              exact completesExactly_of_exact hparts hsound (hexact.trans hvalue) hcompletes
          | none =>
              obtain ⟨rfl, hzero, hfails⟩ := Token.Kind.applyBinary_of_inexact hop hvalue
              rw [hfails] at hcompletes
              rw [hzero] at hexactRight
              exact Or.inr ⟨_, hcompletes, _, _, [], hparts, hsound, .divisor hexactRight⟩
        · exact Or.inr ⟨error, hleft.binary_right hright, (hfirst.append _).behind hsoundLeft⟩
      · exact Or.inr ⟨error, hleft.binary_left, hfirst.append _⟩

/-- **Arithmetic in 64 bits is exact arithmetic up to its first offence.**  Take any tree of
integers and variables that hold integers, with signs and with sums, differences, products and
quotients.  It evaluates to an integer if and only if all its subexpressions have exact values that
fit, and then this integer is its exact value.  Otherwise it fails at the first subexpression, in
the order of evaluation, that has a zero divisor or an exact value that does not fit, with the error
that says which.  Either way the frame and the host stay as they are.

Division by something other than zero has a result unless the smallest integer is divided by minus
one.  The quotient that it starts with is then exact; there is a remainder wherever there is this
quotient, and it is exact too; the correction does not leave the 64 bits, and the result is the
exact quotient rounded towards minus infinity. -/
theorem arithmetic_is_exact (builtins : Builtins σ) {frame : Frame}
    (hnode : node.IsArithmetic frame) (host : σ) :
    (∀ (result : Int64) (after : State σ),
      node.Completes builtins ⟨frame, host⟩ (.ok (.int result)) after ↔
        after = ⟨frame, host⟩ ∧
        (∀ part ∈ node.subexpressions, ∃ value, part.exact frame = some value ∧ FitsInt64 value) ∧
        node.exact frame = some result.toInt) ∧
    (∀ (error : EvalError) (after : State σ),
      node.Completes builtins ⟨frame, host⟩ (.error error) after ↔
        after = ⟨frame, host⟩ ∧ ∃ before part behind,
          node.subexpressions = before ++ part :: behind ∧
          (∀ earlier ∈ before, ∃ value, earlier.exact frame = some value ∧ FitsInt64 value) ∧
          part.Offends frame error) ∧
    (∃ outcome, node.Completes builtins ⟨frame, host⟩ outcome ⟨frame, host⟩ ∧
      ∀ value, outcome = .ok value → ∃ result, value = .int result) ∧
    ∀ a b : Int64, b ≠ 0 →
      (floorDiv? a b = none ↔ a = Int64.minValue ∧ b = -1) ∧
      (∀ quotient, truncDiv? a b = some quotient →
        quotient.toInt = a.toInt.tdiv b.toInt ∧ truncMod? a b = some (a % b) ∧
          (a % b).toInt = a.toInt.tmod b.toInt ∧
          (a % b ≠ 0 ∧ ¬(a < 0 ↔ b < 0) → (quotient - 1).toInt = quotient.toInt - 1)) ∧
      ∀ quotient, floorDiv? a b = some quotient → quotient.toInt = a.toInt.fdiv b.toInt := by
  have hexactly : CompletesExactly builtins node ⟨frame, host⟩ := hnode.completesExactly builtins _
  refine ⟨fun result after => ⟨fun hcompletes => ?_, ?_⟩,
    fun error after => ⟨fun hcompletes => ?_, ?_⟩, ?_, fun a b hb => ⟨?_, ?_, ?_⟩⟩
  · rcases hexactly with ⟨found, hfound, hexact, hsound⟩ | ⟨error, hfound, -⟩
    · obtain ⟨houtcome, rfl⟩ := hcompletes.unique hfound
      cases houtcome
      exact ⟨rfl, hsound, hexact⟩
    · cases (hcompletes.unique hfound).1
  · rintro ⟨rfl, hsound, hexact⟩
    rcases hexactly with ⟨found, hfound, hother, -⟩ | ⟨error, -, hfirst⟩
    · have hsame := Option.some.inj (hother.symm.trans hexact)
      rwa [← Int64.toInt_inj.mp hsame]
    · exact absurd hsound hfirst.not_all_sound
  · rcases hexactly with ⟨found, hfound, -⟩ | ⟨error', hfound, hfirst⟩
    · cases (hcompletes.unique hfound).1
    · obtain ⟨houtcome, rfl⟩ := hcompletes.unique hfound
      cases houtcome
      exact ⟨rfl, hfirst⟩
  · rintro ⟨rfl, hfirst⟩
    rcases hexactly with ⟨found, -, -, hsound⟩ | ⟨error', hfound, hfirst'⟩
    · exact absurd hsound (FirstOffence.not_all_sound hfirst)
    · rwa [FirstOffence.unique hfirst hfirst']
  · rcases hexactly with ⟨found, hfound, -⟩ | ⟨error, hfound, -⟩
    · refine ⟨_, hfound, fun value hvalue => ⟨found, ?_⟩⟩
      exact (Except.ok.inj hvalue).symm
    · exact ⟨_, hfound, fun value hvalue => by cases hvalue⟩
  · exact floorDiv?_eq_none_iff hb
  · intro quotient hquotient
    exact ⟨toInt_of_truncDiv? hquotient, truncMod?_of_truncDiv? hquotient, Int64.toInt_mod a b,
      toInt_corrected hb hquotient⟩
  · intro quotient hquotient
    exact toInt_of_floorDiv? hb hquotient

/-- The smallest integer with its sign changed, divided by a difference that is zero: both the sign
and the division are wrong, and the sign comes first. -/
def flipsSmallest : Node :=
  .binary (.unary .minus (.read "x")) .slash (.binary (.integer 3) .minus (.integer 3))

/-- A frame in which the variable is the smallest integer. -/
def smallestFrame : Frame :=
  ({} : Frame).assign "x" (.int Int64.minValue)

/-- The evaluation fails at the sign and does not get to the division. -/
theorem flipsSmallest_overflows :
    flipsSmallest.IsArithmetic smallestFrame ∧
      flipsSmallest.Completes (∅ : Builtins Unit) ⟨smallestFrame, ()⟩ (.error .integerOverflow)
        ⟨smallestFrame, ()⟩ := by
  have harithmetic : flipsSmallest.IsArithmetic smallestFrame := by
    refine .binary (by decide) (.unary (Or.inr rfl) (.read rfl)) ?_
    exact .binary (by decide) (.integer 3) (.integer 3)
  have hvalue : (Node.read "x").exact smallestFrame = some (-9223372036854775808) := rfl
  have hoffends : (Node.unary .minus (.read "x")).Offends smallestFrame .integerOverflow := by
    have hflipped : (Node.unary .minus (.read "x")).exact smallestFrame =
        some 9223372036854775808 := rfl
    refine .value hflipped ?_
    rintro ⟨-, hhigh⟩
    omega
  obtain ⟨-, hfails, -⟩ := arithmetic_is_exact (∅ : Builtins Unit) harithmetic ()
  refine ⟨harithmetic, (hfails _ _).mpr ⟨rfl, [.read "x"], _, _, rfl, ?_, hoffends⟩⟩
  exact List.forall_mem_singleton.mpr ⟨_, hvalue, by decide, by decide⟩

end Eval

end Node

end FlatScript
