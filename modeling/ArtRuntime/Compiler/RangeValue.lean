import ArtRuntime.Compiler.InductionVarRange
import ArtRuntime.Foundation.SignedIntervals
import Mathlib.Tactic.Ring

/-! # Values of induction ranges

`InductionVarRange::Value` of `compiler/optimizing/induction_var_range.h`: a
bound `a * instruction + b` with 32-bit constants, or unknown. The range
analysis combines the bounds of operands with `AddValue`, `SubValue`,
`MulValue`, `DivValue` and `MergeVal`, each of which gives up (returns an
unknown value) where a 32-bit constant could overflow, and with the interval
rules of `GetMul` and `GetDiv`, which pick corners of the operands' ranges by
their signs.

Once each instruction has an integer (a valuation), a known value denotes an
integer. The operations denote the exact sum, difference, product, truncated
quotient, and minimum or maximum of their operands; and the bounds `GetMul`
and `GetDiv` give enclose the product or quotient of any two values that the
operands' bounds enclose. A range here is a function from `GetVal`'s `is_min`
to the bound it returns. -/

namespace ArtRuntime.Compiler

namespace InductionVarRange

open Foundation

/-- `Value`: `aConstant * instruction + bConstant` when known; the constructor
drops the instruction (`nullptr`) when `aConstant` is zero. -/
structure Value where
  instruction : Option Nat
  aConstant : Int32
  bConstant : Int32
  isKnown : Bool
  deriving DecidableEq, Repr

namespace Value

/-- `Value()`. -/
def unknown : Value := ⟨none, 0, 0, false⟩

/-- `Value(i, a, b)`. -/
def linear (instruction : Option Nat) (a b : Int32) : Value :=
  ⟨if a ≠ 0 then instruction else none, a, b, true⟩

/-- `Value(b)`. -/
def constant (b : Int32) : Value := linear none 0 b

/-- The integer a value stands for, given the integer of each instruction. -/
def denote (valuation : Nat → Int) (value : Value) : Int :=
  value.aConstant.toInt * value.instruction.elim 0 valuation + value.bConstant.toInt

@[simp] theorem unknown_isKnown : unknown.isKnown = false := rfl

@[simp] theorem linear_isKnown (instruction : Option Nat) (a b : Int32) :
    (linear instruction a b).isKnown = true := rfl

@[simp] theorem denote_linear (valuation : Nat → Int) (instruction : Option Nat) (a b : Int32) :
    (linear instruction a b).denote valuation = a.toInt * instruction.elim 0 valuation + b.toInt := by
  by_cases zero : a = 0
  · simp [linear, denote, zero]
  · simp [linear, denote, zero]

@[simp] theorem denote_constant (valuation : Nat → Int) (b : Int32) :
    (constant b).denote valuation = b.toInt := by
  simp [constant]

theorem denote_of_aConstant_eq_zero {value : Value} (valuation : Nat → Int) (zero : value.aConstant = 0) :
    value.denote valuation = value.bConstant.toInt := by
  simp [denote, zero]

end Value

/-- `IsConstantValue`. -/
def isConstantValue (v : Value) : Bool := v.isKnown && v.aConstant == 0

/-- `IsSafeAdd`: the sum, taken in 64 bits, fits an `int`. -/
def isSafeAdd (c1 c2 : Int32) : Bool := canLongValueFitIntoInt (c1.toInt + c2.toInt)

/-- `IsSafeSub`. -/
def isSafeSub (c1 c2 : Int32) : Bool := canLongValueFitIntoInt (c1.toInt - c2.toInt)

/-- `IsSafeMul`. -/
def isSafeMul (c1 c2 : Int32) : Bool := canLongValueFitIntoInt (c1.toInt * c2.toInt)

/-- `IsSafeDiv`: a nonzero divisor, and a 64-bit quotient that fits an `int`. -/
def isSafeDiv (c1 c2 : Int32) : Bool := c2 != 0 && canLongValueFitIntoInt (c1.toInt.tdiv c2.toInt)

/-- `AddValue`. -/
def addValue (v1 v2 : Value) : Value :=
  if v1.isKnown && v2.isKnown && isSafeAdd v1.bConstant v2.bConstant then
    let b := v1.bConstant + v2.bConstant
    if v1.aConstant = 0 then .linear v2.instruction v2.aConstant b
    else if v2.aConstant = 0 then .linear v1.instruction v1.aConstant b
    else if v1.instruction == v2.instruction && isSafeAdd v1.aConstant v2.aConstant then
      .linear v1.instruction (v1.aConstant + v2.aConstant) b
    else .unknown
  else .unknown

/-- `SubValue`. -/
def subValue (v1 v2 : Value) : Value :=
  if v1.isKnown && v2.isKnown && isSafeSub v1.bConstant v2.bConstant then
    let b := v1.bConstant - v2.bConstant
    if v1.aConstant = 0 && isSafeSub 0 v2.aConstant then .linear v2.instruction (-v2.aConstant) b
    else if v2.aConstant = 0 then .linear v1.instruction v1.aConstant b
    else if v1.instruction == v2.instruction && isSafeSub v1.aConstant v2.aConstant then
      .linear v1.instruction (v1.aConstant - v2.aConstant) b
    else .unknown
  else .unknown

/-- `MulValue`: one of the two must be a constant. -/
def mulValue (v1 v2 : Value) : Value :=
  if v1.isKnown && v2.isKnown then
    if v1.aConstant = 0 then
      if isSafeMul v1.bConstant v2.aConstant && isSafeMul v1.bConstant v2.bConstant then
        .linear v2.instruction (v1.bConstant * v2.aConstant) (v1.bConstant * v2.bConstant)
      else .unknown
    else if v2.aConstant = 0 then
      if isSafeMul v1.aConstant v2.bConstant && isSafeMul v1.bConstant v2.bConstant then
        .linear v1.instruction (v1.aConstant * v2.bConstant) (v1.bConstant * v2.bConstant)
      else .unknown
    else .unknown
  else .unknown

/-- `DivValue`: both must be constants. -/
def divValue (v1 v2 : Value) : Value :=
  if v1.isKnown && v2.isKnown && v1.aConstant == 0 && v2.aConstant == 0 then
    if isSafeDiv v1.bConstant v2.bConstant then .constant (v1.bConstant / v2.bConstant)
    else .unknown
  else .unknown

/-- `MergeVal`: the smaller or larger of two values that differ in their
constant only. -/
def mergeVal (v1 v2 : Value) (isMin : Bool) : Value :=
  if v1.isKnown && v2.isKnown then
    if v1.instruction == v2.instruction && v1.aConstant == v2.aConstant then
      .linear v1.instruction v1.aConstant
        (if isMin then min v1.bConstant v2.bConstant else max v1.bConstant v2.bConstant)
    else .unknown
  else .unknown

/-- `MulRangeAndConstant`, where `range isMin` is the bound `GetVal` gives of
the other operand: a negative constant swaps its bounds. -/
def mulRangeAndConstant (value : Int) (range : Bool → Value) (isMin : Bool) : Value :=
  if canLongValueFitIntoInt value then
    mulValue (range (isMin == decide (0 ≤ value))) (.constant (Int32.ofInt value))
  else .unknown

/-- `DivRangeAndConstant`. -/
def divRangeAndConstant (value : Int) (range : Bool → Value) (isMin : Bool) : Value :=
  if canLongValueFitIntoInt value then
    divValue (range (isMin == decide (0 ≤ value))) (.constant (Int32.ofInt value))
  else .unknown

/-- The four sign cases the interval rules of `GetMul` and `GetDiv` test. -/
inductive SignCase
  | positivePositive
  | positiveNegative
  | negativePositive
  | negativeNegative
  deriving DecidableEq, Repr

/-- The sign case of two ranges, tested in the source's order: a range is
positive when its lower bound is a nonnegative constant and negative when its
upper bound is a nonpositive constant. -/
def signCase (v1Min v1Max v2Min v2Max : Value) : Option SignCase :=
  let positive1 := isConstantValue v1Min && 0 ≤ v1Min.bConstant
  let negative1 := isConstantValue v1Max && v1Max.bConstant ≤ 0
  let positive2 := isConstantValue v2Min && 0 ≤ v2Min.bConstant
  let negative2 := isConstantValue v2Max && v2Max.bConstant ≤ 0
  if positive1 && positive2 then some .positivePositive
  else if positive1 && negative2 then some .positiveNegative
  else if negative1 && positive2 then some .negativePositive
  else if negative1 && negative2 then some .negativeNegative
  else none

/-- `GetMul`, given what `IsConstant(info, kExact, ...)` finds of each operand
and the bounds `GetVal` gives of each. -/
def getMul (constant1 constant2 : Option Int) (range1 range2 : Bool → Value) (isMin : Bool) : Value :=
  match constant1, constant2 with
  | some value, _ => mulRangeAndConstant value range2 isMin
  | none, some value => mulRangeAndConstant value range1 isMin
  | none, none =>
      match signCase (range1 true) (range1 false) (range2 true) (range2 false) with
      | some .positivePositive =>
          if isMin then mulValue (range1 true) (range2 true) else mulValue (range1 false) (range2 false)
      | some .positiveNegative =>
          if isMin then mulValue (range1 false) (range2 true) else mulValue (range1 true) (range2 false)
      | some .negativePositive =>
          if isMin then mulValue (range1 true) (range2 false) else mulValue (range1 false) (range2 true)
      | some .negativeNegative =>
          if isMin then mulValue (range1 false) (range2 false) else mulValue (range1 true) (range2 true)
      | none => .unknown

/-- `GetDiv`: only the divisor is tested for a constant. -/
def getDiv (constant2 : Option Int) (range1 range2 : Bool → Value) (isMin : Bool) : Value :=
  match constant2 with
  | some value => divRangeAndConstant value range1 isMin
  | none =>
      match signCase (range1 true) (range1 false) (range2 true) (range2 false) with
      | some .positivePositive =>
          if isMin then divValue (range1 true) (range2 false) else divValue (range1 false) (range2 true)
      | some .positiveNegative =>
          if isMin then divValue (range1 false) (range2 false) else divValue (range1 true) (range2 true)
      | some .negativePositive =>
          if isMin then divValue (range1 true) (range2 true) else divValue (range1 false) (range2 false)
      | some .negativeNegative =>
          if isMin then divValue (range1 false) (range2 true) else divValue (range1 true) (range2 false)
      | none => .unknown

/-! ## The 32-bit constants do not wrap -/

theorem toInt_eq_of_fits {c : Int32} {exact : Int} (wrapped : c.toInt = exact.bmod (2 ^ 32))
    (fits : canLongValueFitIntoInt exact = true) : c.toInt = exact := by
  simp only [canLongValueFitIntoInt, Bool.and_eq_true, decide_eq_true_eq] at fits
  rw [wrapped]
  exact Int.bmod_eq_of_le_mul_two (by omega) (by omega)

theorem toInt_add_of_isSafeAdd {c1 c2 : Int32} (safe : isSafeAdd c1 c2 = true) :
    (c1 + c2).toInt = c1.toInt + c2.toInt :=
  toInt_eq_of_fits (Int32.toInt_add c1 c2) safe

theorem toInt_sub_of_isSafeSub {c1 c2 : Int32} (safe : isSafeSub c1 c2 = true) :
    (c1 - c2).toInt = c1.toInt - c2.toInt :=
  toInt_eq_of_fits (Int32.toInt_sub c1 c2) safe

theorem toInt_mul_of_isSafeMul {c1 c2 : Int32} (safe : isSafeMul c1 c2 = true) :
    (c1 * c2).toInt = c1.toInt * c2.toInt :=
  toInt_eq_of_fits (Int32.toInt_mul c1 c2) safe

theorem toInt_neg_of_isSafeSub {c : Int32} (safe : isSafeSub 0 c = true) : (-c).toInt = -c.toInt :=
  toInt_eq_of_fits (Int32.toInt_neg c) (by simpa [isSafeSub] using safe)

theorem toInt_div_of_isSafeDiv {c1 c2 : Int32} (safe : isSafeDiv c1 c2 = true) :
    (c1 / c2).toInt = c1.toInt.tdiv c2.toInt := by
  simp only [isSafeDiv, Bool.and_eq_true] at safe
  exact toInt_eq_of_fits (Int32.toInt_div c1 c2) safe.2

theorem toInt_min (c1 c2 : Int32) : (min c1 c2).toInt = min c1.toInt c2.toInt := by
  show (if c1 ≤ c2 then c1 else c2).toInt = _
  by_cases order : c1 ≤ c2
  · have ordered := Int32.le_iff_toInt_le.mp order
    rw [if_pos order]
    omega
  · have ordered := mt Int32.le_iff_toInt_le.mpr order
    rw [if_neg order]
    omega

theorem toInt_max (c1 c2 : Int32) : (max c1 c2).toInt = max c1.toInt c2.toInt := by
  show (if c1 ≤ c2 then c2 else c1).toInt = _
  by_cases order : c1 ≤ c2
  · have ordered := Int32.le_iff_toInt_le.mp order
    rw [if_pos order]
    omega
  · have ordered := mt Int32.le_iff_toInt_le.mpr order
    rw [if_neg order]
    omega

theorem toInt_ofInt_of_fits {value : Int} (fits : canLongValueFitIntoInt value = true) :
    (Int32.ofInt value).toInt = value :=
  toInt_eq_of_fits Int32.toInt_ofInt fits

/-! ## The operations are exact -/

section Exact

variable (valuation : Nat → Int) {v1 v2 : Value}

theorem addValue_denote (known : (addValue v1 v2).isKnown = true) :
    (addValue v1 v2).denote valuation = v1.denote valuation + v2.denote valuation := by
  unfold addValue at known ⊢
  split_ifs at known ⊢ with guard a1Zero a2Zero same
  · simp only [Bool.and_eq_true] at guard
    rw [Value.denote_linear, toInt_add_of_isSafeAdd guard.2, Value.denote_of_aConstant_eq_zero valuation a1Zero,
      Value.denote]
    omega
  · simp only [Bool.and_eq_true] at guard
    rw [Value.denote_linear, toInt_add_of_isSafeAdd guard.2, Value.denote_of_aConstant_eq_zero valuation a2Zero,
      Value.denote]
    omega
  · simp only [Bool.and_eq_true, beq_iff_eq] at guard same
    rw [Value.denote_linear, toInt_add_of_isSafeAdd guard.2, toInt_add_of_isSafeAdd same.2, Value.denote,
      Value.denote, same.1, Int.add_mul]
    omega
  · simp at known
  · simp at known

theorem subValue_denote (known : (subValue v1 v2).isKnown = true) :
    (subValue v1 v2).denote valuation = v1.denote valuation - v2.denote valuation := by
  unfold subValue at known ⊢
  split_ifs at known ⊢ with guard negated a2Zero same
  · simp only [Bool.and_eq_true] at guard
    simp only [Bool.and_eq_true, decide_eq_true_eq] at negated
    rw [Value.denote_linear, toInt_neg_of_isSafeSub negated.2, toInt_sub_of_isSafeSub guard.2,
      Value.denote_of_aConstant_eq_zero valuation negated.1, Value.denote, Int.neg_mul]
    omega
  · simp only [Bool.and_eq_true] at guard
    rw [Value.denote_linear, toInt_sub_of_isSafeSub guard.2, Value.denote_of_aConstant_eq_zero valuation a2Zero,
      Value.denote]
    omega
  · simp only [Bool.and_eq_true, beq_iff_eq] at guard same
    rw [Value.denote_linear, toInt_sub_of_isSafeSub guard.2, toInt_sub_of_isSafeSub same.2, Value.denote,
      Value.denote, same.1, Int.sub_mul]
    omega
  · simp at known
  · simp at known

theorem mulValue_denote (known : (mulValue v1 v2).isKnown = true) :
    (mulValue v1 v2).denote valuation = v1.denote valuation * v2.denote valuation := by
  unfold mulValue at known ⊢
  split_ifs at known ⊢ with guard a1Zero safe a2Zero safe
  · simp only [Bool.and_eq_true] at safe
    rw [Value.denote_linear, toInt_mul_of_isSafeMul safe.1, toInt_mul_of_isSafeMul safe.2,
      Value.denote_of_aConstant_eq_zero valuation a1Zero, Value.denote]
    ring
  · simp at known
  · simp only [Bool.and_eq_true] at safe
    rw [Value.denote_linear, toInt_mul_of_isSafeMul safe.1, toInt_mul_of_isSafeMul safe.2,
      Value.denote_of_aConstant_eq_zero valuation a2Zero, Value.denote]
    ring
  all_goals simp at known

theorem divValue_denote (known : (divValue v1 v2).isKnown = true) :
    (divValue v1 v2).denote valuation = (v1.denote valuation).tdiv (v2.denote valuation) := by
  unfold divValue at known ⊢
  split_ifs at known ⊢ with guard safe
  · simp only [Bool.and_eq_true, beq_iff_eq] at guard
    rw [Value.denote_constant, toInt_div_of_isSafeDiv safe, Value.denote_of_aConstant_eq_zero valuation guard.1.2,
      Value.denote_of_aConstant_eq_zero valuation guard.2]
  all_goals simp at known

theorem mergeVal_denote {isMin : Bool} (known : (mergeVal v1 v2 isMin).isKnown = true) :
    (mergeVal v1 v2 isMin).denote valuation =
      if isMin then min (v1.denote valuation) (v2.denote valuation)
      else max (v1.denote valuation) (v2.denote valuation) := by
  unfold mergeVal at known ⊢
  split_ifs at known ⊢ with guard same
  -- The two values share their instruction part; only the constants are compared.
  · simp only [Bool.and_eq_true, beq_iff_eq] at same
    rw [Value.denote_linear, toInt_min]
    simp only [Value.denote, same.1, same.2]
    omega
  · simp only [Bool.and_eq_true, beq_iff_eq] at same
    rw [Value.denote_linear, toInt_max]
    simp only [Value.denote, same.1, same.2]
    omega
  all_goals simp at known

end Exact

/-! ## The interval rules enclose -/

/-- The bounds `range true` (lower) and `range false` (upper), where known,
enclose `x`. -/
def Encloses (valuation : Nat → Int) (range : Bool → Value) (x : Int) : Prop :=
  ((range true).isKnown = true → (range true).denote valuation ≤ x) ∧
    ((range false).isKnown = true → x ≤ (range false).denote valuation)

/-- A range whose lower bound is known and nonnegative. -/
def Nonnegative (valuation : Nat → Int) (range : Bool → Value) : Prop :=
  (range true).isKnown = true ∧ 0 ≤ (range true).denote valuation

/-- A range whose upper bound is known and nonpositive. -/
def Nonpositive (valuation : Nat → Int) (range : Bool → Value) : Prop :=
  (range false).isKnown = true ∧ (range false).denote valuation ≤ 0

section Intervals

variable (valuation : Nat → Int) {v1 v2 : Value} {range range1 range2 : Bool → Value} {x y : Int}

theorem isKnown_of_mulValue (known : (mulValue v1 v2).isKnown = true) :
    v1.isKnown = true ∧ v2.isKnown = true := by
  by_cases guard : (v1.isKnown && v2.isKnown) = true
  · simpa using guard
  · simp [mulValue, guard] at known

theorem isKnown_of_divValue (known : (divValue v1 v2).isKnown = true) :
    v1.isKnown = true ∧ v2.isKnown = true ∧ v2.denote valuation ≠ 0 := by
  unfold divValue at known
  split_ifs at known with guard safe
  · simp only [Bool.and_eq_true, beq_iff_eq] at guard
    simp only [isSafeDiv, Bool.and_eq_true, bne_iff_ne, ne_eq] at safe
    rw [Value.denote_of_aConstant_eq_zero valuation guard.2]
    exact ⟨guard.1.1.1, guard.1.1.2, fun zero => safe.1 (Int32.toInt_inj.mp (by simpa using zero))⟩
  all_goals simp at known

/-- A known bound of `MulRangeAndConstant` is the operand's bound on the side
the constant's sign picks, times the constant. -/
theorem mulRangeAndConstant_denote {value : Int} {isMin : Bool}
    (known : (mulRangeAndConstant value range isMin).isKnown = true) :
    (range (isMin == decide (0 ≤ value))).isKnown = true ∧
      (mulRangeAndConstant value range isMin).denote valuation =
        (range (isMin == decide (0 ≤ value))).denote valuation * value := by
  by_cases fits : canLongValueFitIntoInt value = true
  · simp only [mulRangeAndConstant, fits, if_true] at known ⊢
    rw [mulValue_denote valuation known, Value.denote_constant, toInt_ofInt_of_fits fits]
    exact ⟨(isKnown_of_mulValue known).1, rfl⟩
  · simp [mulRangeAndConstant, fits] at known

/-- A known bound of `DivRangeAndConstant` is the operand's bound on the side
the constant's sign picks, divided by the nonzero constant. -/
theorem divRangeAndConstant_denote {value : Int} {isMin : Bool}
    (known : (divRangeAndConstant value range isMin).isKnown = true) :
    (range (isMin == decide (0 ≤ value))).isKnown = true ∧ value ≠ 0 ∧
      (divRangeAndConstant value range isMin).denote valuation =
        ((range (isMin == decide (0 ≤ value))).denote valuation).tdiv value := by
  by_cases fits : canLongValueFitIntoInt value = true
  · simp only [divRangeAndConstant, fits, if_true] at known ⊢
    obtain ⟨boundKnown, -, nonzero⟩ := isKnown_of_divValue valuation known
    rw [Value.denote_constant, toInt_ofInt_of_fits fits] at nonzero
    rw [divValue_denote valuation known, Value.denote_constant, toInt_ofInt_of_fits fits]
    exact ⟨boundKnown, nonzero, rfl⟩
  · simp [divRangeAndConstant, fits] at known

theorem mulRangeAndConstant_encloses (value : Int) (inRange : Encloses valuation range x) :
    Encloses valuation (mulRangeAndConstant value range) (x * value) := by
  constructor
  · intro known
    obtain ⟨boundKnown, product⟩ := mulRangeAndConstant_denote valuation known
    rw [product]
    rcases le_or_gt 0 value with nonneg | negative
    · simp only [nonneg, decide_true, Bool.true_beq] at boundKnown ⊢
      exact Int.mul_le_mul_of_nonneg_right (inRange.1 boundKnown) nonneg
    -- A negative constant turns the upper bound into the lower one.
    · simp only [Int.not_le.mpr negative, decide_false, Bool.true_beq] at boundKnown ⊢
      exact Int.mul_le_mul_of_nonpos_right (inRange.2 boundKnown) (by omega)
  · intro known
    obtain ⟨boundKnown, product⟩ := mulRangeAndConstant_denote valuation known
    rw [product]
    rcases le_or_gt 0 value with nonneg | negative
    · simp only [nonneg, decide_true, Bool.false_beq, Bool.not_true] at boundKnown ⊢
      exact Int.mul_le_mul_of_nonneg_right (inRange.2 boundKnown) nonneg
    · simp only [Int.not_le.mpr negative, decide_false, Bool.false_beq, Bool.not_false] at boundKnown ⊢
      exact Int.mul_le_mul_of_nonpos_right (inRange.1 boundKnown) (by omega)

theorem divRangeAndConstant_encloses (value : Int) (inRange : Encloses valuation range x) :
    Encloses valuation (divRangeAndConstant value range) (x.tdiv value) := by
  constructor
  · intro known
    obtain ⟨boundKnown, nonzero, quotient⟩ := divRangeAndConstant_denote valuation known
    rw [quotient]
    rcases le_or_gt 0 value with nonneg | negative
    · simp only [nonneg, decide_true, Bool.true_beq] at boundKnown ⊢
      exact Int.tdiv_le_tdiv (by omega) (inRange.1 boundKnown)
    · simp only [Int.not_le.mpr negative, decide_false, Bool.true_beq] at boundKnown ⊢
      exact tdiv_le_tdiv_of_neg negative (inRange.2 boundKnown)
  · intro known
    obtain ⟨boundKnown, nonzero, quotient⟩ := divRangeAndConstant_denote valuation known
    rw [quotient]
    rcases le_or_gt 0 value with nonneg | negative
    · simp only [nonneg, decide_true, Bool.false_beq, Bool.not_true] at boundKnown ⊢
      exact Int.tdiv_le_tdiv (by omega) (inRange.2 boundKnown)
    · simp only [Int.not_le.mpr negative, decide_false, Bool.false_beq, Bool.not_false] at boundKnown ⊢
      exact tdiv_le_tdiv_of_neg negative (inRange.1 boundKnown)

theorem nonnegative_of_isConstantValue
    (positive : (isConstantValue (range true) && decide (0 ≤ (range true).bConstant)) = true) :
    Nonnegative valuation range := by
  simp only [isConstantValue, Bool.and_eq_true, beq_iff_eq, decide_eq_true_eq] at positive
  have bound := Int32.le_iff_toInt_le.mp positive.2
  rw [Int32.toInt_zero] at bound
  exact ⟨positive.1.1, by rwa [Value.denote_of_aConstant_eq_zero valuation positive.1.2]⟩

theorem nonpositive_of_isConstantValue
    (negative : (isConstantValue (range false) && decide ((range false).bConstant ≤ 0)) = true) :
    Nonpositive valuation range := by
  simp only [isConstantValue, Bool.and_eq_true, beq_iff_eq, decide_eq_true_eq] at negative
  have bound := Int32.le_iff_toInt_le.mp negative.2
  rw [Int32.toInt_zero] at bound
  exact ⟨negative.1.1, by rwa [Value.denote_of_aConstant_eq_zero valuation negative.1.2]⟩

theorem signCase_eq_some {case : SignCase}
    (found : signCase (range1 true) (range1 false) (range2 true) (range2 false) = some case) :
    match case with
    | .positivePositive => Nonnegative valuation range1 ∧ Nonnegative valuation range2
    | .positiveNegative => Nonnegative valuation range1 ∧ Nonpositive valuation range2
    | .negativePositive => Nonpositive valuation range1 ∧ Nonnegative valuation range2
    | .negativeNegative => Nonpositive valuation range1 ∧ Nonpositive valuation range2 := by
  unfold signCase at found
  dsimp only at found
  split_ifs at found with positivePositive positiveNegative negativePositive negativeNegative <;>
    cases found
  · rw [Bool.and_eq_true] at positivePositive
    exact ⟨nonnegative_of_isConstantValue valuation positivePositive.1,
      nonnegative_of_isConstantValue valuation positivePositive.2⟩
  · rw [Bool.and_eq_true] at positiveNegative
    exact ⟨nonnegative_of_isConstantValue valuation positiveNegative.1,
      nonpositive_of_isConstantValue valuation positiveNegative.2⟩
  · rw [Bool.and_eq_true] at negativePositive
    exact ⟨nonpositive_of_isConstantValue valuation negativePositive.1,
      nonnegative_of_isConstantValue valuation negativePositive.2⟩
  · rw [Bool.and_eq_true] at negativeNegative
    exact ⟨nonpositive_of_isConstantValue valuation negativeNegative.1,
      nonpositive_of_isConstantValue valuation negativeNegative.2⟩

theorem getMul_encloses {constant1 constant2 : Option Int}
    (exact1 : ∀ value, constant1 = some value → x = value)
    (exact2 : ∀ value, constant2 = some value → y = value)
    (inRange1 : Encloses valuation range1 x) (inRange2 : Encloses valuation range2 y) :
    Encloses valuation (getMul constant1 constant2 range1 range2) (x * y) := by
  cases constant1 with
  | some value =>
    rw [exact1 value rfl, Int.mul_comm]
    exact mulRangeAndConstant_encloses valuation value inRange2
  | none =>
  cases constant2 with
  | some value =>
    rw [exact2 value rfl]
    exact mulRangeAndConstant_encloses valuation value inRange1
  | none =>
  obtain ⟨xLow, xHigh⟩ := inRange1
  obtain ⟨yLow, yHigh⟩ := inRange2
  cases found : signCase (range1 true) (range1 false) (range2 true) (range2 false) with
  | none => simp [Encloses, getMul, found]
  | some case =>
    have signs := signCase_eq_some valuation found
    -- Each bound is a product of corners; a corner the case does not test
    -- stands in for itself through `x` or `y`.
    cases case with
    | positivePositive =>
      obtain ⟨⟨xMinKnown, xNonneg⟩, yMinKnown, yNonneg⟩ := signs
      constructor <;> intro known <;> simp only [getMul, found, ↓reduceIte, Bool.false_eq_true] at known ⊢ <;>
        obtain ⟨leftKnown, rightKnown⟩ := isKnown_of_mulValue known <;> rw [mulValue_denote valuation known]
      · exact (mul_mem_of_nonneg_of_nonneg (xLow leftKnown) le_rfl (yLow rightKnown) le_rfl xNonneg yNonneg).1
      · exact (mul_mem_of_nonneg_of_nonneg (xLow xMinKnown) (xHigh leftKnown) (yLow yMinKnown) (yHigh rightKnown)
          xNonneg yNonneg).2
    | positiveNegative =>
      obtain ⟨⟨xMinKnown, xNonneg⟩, yMaxKnown, yNonpos⟩ := signs
      constructor <;> intro known <;> simp only [getMul, found, ↓reduceIte, Bool.false_eq_true] at known ⊢ <;>
        obtain ⟨leftKnown, rightKnown⟩ := isKnown_of_mulValue known <;> rw [mulValue_denote valuation known]
      · exact (mul_mem_of_nonneg_of_nonpos (xLow xMinKnown) (xHigh leftKnown) (yLow rightKnown) (yHigh yMaxKnown)
          xNonneg yNonpos).1
      · exact (mul_mem_of_nonneg_of_nonpos (xLow leftKnown) le_rfl le_rfl (yHigh rightKnown) xNonneg yNonpos).2
    | negativePositive =>
      obtain ⟨⟨xMaxKnown, xNonpos⟩, yMinKnown, yNonneg⟩ := signs
      constructor <;> intro known <;> simp only [getMul, found, ↓reduceIte, Bool.false_eq_true] at known ⊢ <;>
        obtain ⟨leftKnown, rightKnown⟩ := isKnown_of_mulValue known <;> rw [mulValue_denote valuation known]
      · exact (mul_mem_of_nonpos_of_nonneg (xLow leftKnown) (xHigh xMaxKnown) (yLow yMinKnown) (yHigh rightKnown)
          xNonpos yNonneg).1
      · exact (mul_mem_of_nonpos_of_nonneg le_rfl (xHigh leftKnown) (yLow rightKnown) le_rfl xNonpos yNonneg).2
    | negativeNegative =>
      obtain ⟨⟨xMaxKnown, xNonpos⟩, yMaxKnown, yNonpos⟩ := signs
      constructor <;> intro known <;> simp only [getMul, found, ↓reduceIte, Bool.false_eq_true] at known ⊢ <;>
        obtain ⟨leftKnown, rightKnown⟩ := isKnown_of_mulValue known <;> rw [mulValue_denote valuation known]
      · exact (mul_mem_of_nonpos_of_nonpos le_rfl (xHigh leftKnown) le_rfl (yHigh rightKnown) xNonpos yNonpos).1
      · exact (mul_mem_of_nonpos_of_nonpos (xLow leftKnown) (xHigh xMaxKnown) (yLow rightKnown) (yHigh yMaxKnown)
          xNonpos yNonpos).2

/-- A range of `[2, 5]` times a range of `[-3, -1]` is the range `[-15, -2]`. -/
example : getMul none none (fun isMin => if isMin then .constant 2 else .constant 5)
    (fun isMin => if isMin then .constant (-3) else .constant (-1)) true = .constant (-15) := by
  decide

theorem getDiv_encloses {constant2 : Option Int}
    (exact2 : ∀ value, constant2 = some value → y = value)
    (inRange1 : Encloses valuation range1 x) (inRange2 : Encloses valuation range2 y) (nonzero : y ≠ 0) :
    Encloses valuation (getDiv constant2 range1 range2) (x.tdiv y) := by
  cases constant2 with
  | some value =>
    rw [exact2 value rfl]
    exact divRangeAndConstant_encloses valuation value inRange1
  | none =>
  obtain ⟨xLow, xHigh⟩ := inRange1
  obtain ⟨yLow, yHigh⟩ := inRange2
  cases found : signCase (range1 true) (range1 false) (range2 true) (range2 false) with
  | none => simp [Encloses, getDiv, found]
  | some case =>
    have signs := signCase_eq_some valuation found
    -- As for products, with a divisor corner that must also be nonzero for
    -- `DivValue` to know the quotient.
    cases case with
    | positivePositive =>
      obtain ⟨⟨xMinKnown, xNonneg⟩, yMinKnown, yNonneg⟩ := signs
      have yPos : 0 < y := by
        have yAbove := yLow yMinKnown
        omega
      constructor <;> intro known <;> simp only [getDiv, found, ↓reduceIte, Bool.false_eq_true] at known ⊢ <;>
        obtain ⟨leftKnown, rightKnown, divisorNonzero⟩ := isKnown_of_divValue valuation known <;>
        rw [divValue_denote valuation known]
      · exact (tdiv_mem_of_nonneg_of_pos (xLow leftKnown) le_rfl (yLow yMinKnown) (yHigh rightKnown) xNonneg
          yPos).1
      · exact (tdiv_mem_of_nonneg_of_pos (xLow xMinKnown) (xHigh leftKnown) (yLow rightKnown) le_rfl xNonneg
          yPos).2 (by omega)
    | positiveNegative =>
      obtain ⟨⟨xMinKnown, xNonneg⟩, yMaxKnown, yNonpos⟩ := signs
      have yNeg : y < 0 := by
        have yBelow := yHigh yMaxKnown
        omega
      constructor <;> intro known <;> simp only [getDiv, found, ↓reduceIte, Bool.false_eq_true] at known ⊢ <;>
        obtain ⟨leftKnown, rightKnown, divisorNonzero⟩ := isKnown_of_divValue valuation known <;>
        rw [divValue_denote valuation known]
      · exact (tdiv_mem_of_nonneg_of_neg (xLow xMinKnown) (xHigh leftKnown) le_rfl (yHigh rightKnown) xNonneg
          yNeg).1 (by omega)
      · exact (tdiv_mem_of_nonneg_of_neg (xLow leftKnown) le_rfl (yLow rightKnown) (yHigh yMaxKnown) xNonneg
          yNeg).2
    | negativePositive =>
      obtain ⟨⟨xMaxKnown, xNonpos⟩, yMinKnown, yNonneg⟩ := signs
      have yPos : 0 < y := by
        have yAbove := yLow yMinKnown
        omega
      constructor <;> intro known <;> simp only [getDiv, found, ↓reduceIte, Bool.false_eq_true] at known ⊢ <;>
        obtain ⟨leftKnown, rightKnown, divisorNonzero⟩ := isKnown_of_divValue valuation known <;>
        rw [divValue_denote valuation known]
      · exact (tdiv_mem_of_nonpos_of_pos (xLow leftKnown) (xHigh xMaxKnown) (yLow rightKnown) le_rfl xNonpos
          yPos).1 (by omega)
      · exact (tdiv_mem_of_nonpos_of_pos le_rfl (xHigh leftKnown) (yLow yMinKnown) (yHigh rightKnown) xNonpos
          yPos).2
    | negativeNegative =>
      obtain ⟨⟨xMaxKnown, xNonpos⟩, yMaxKnown, yNonpos⟩ := signs
      have yNeg : y < 0 := by
        have yBelow := yHigh yMaxKnown
        omega
      constructor <;> intro known <;> simp only [getDiv, found, ↓reduceIte, Bool.false_eq_true] at known ⊢ <;>
        obtain ⟨leftKnown, rightKnown, divisorNonzero⟩ := isKnown_of_divValue valuation known <;>
        rw [divValue_denote valuation known]
      · exact (tdiv_mem_of_nonpos_of_neg le_rfl (xHigh leftKnown) (yLow rightKnown) (yHigh yMaxKnown) xNonpos
          yNeg).1
      · exact (tdiv_mem_of_nonpos_of_neg (xLow leftKnown) (xHigh xMaxKnown) le_rfl (yHigh rightKnown) xNonpos
          yNeg).2 (by omega)

end Intervals

/-- The arithmetic of range values is exact: a known sum, difference,
product, quotient or merge denotes the integer operation on what its operands
denote, for every valuation; and the bounds `MulRangeAndConstant`,
`DivRangeAndConstant`, `GetMul` and `GetDiv` give enclose the product or
truncated quotient of any two integers their operands' bounds enclose. -/
theorem value_operations_exact_and_rules_enclose (valuation : Nat → Int) (v1 v2 : Value) :
    ((addValue v1 v2).isKnown = true →
        (addValue v1 v2).denote valuation = v1.denote valuation + v2.denote valuation) ∧
    ((subValue v1 v2).isKnown = true →
        (subValue v1 v2).denote valuation = v1.denote valuation - v2.denote valuation) ∧
    ((mulValue v1 v2).isKnown = true →
        (mulValue v1 v2).denote valuation = v1.denote valuation * v2.denote valuation) ∧
    ((divValue v1 v2).isKnown = true →
        (divValue v1 v2).denote valuation = (v1.denote valuation).tdiv (v2.denote valuation)) ∧
    (∀ isMin, (mergeVal v1 v2 isMin).isKnown = true →
        (mergeVal v1 v2 isMin).denote valuation =
          if isMin then min (v1.denote valuation) (v2.denote valuation)
          else max (v1.denote valuation) (v2.denote valuation)) ∧
    (∀ (range : Bool → Value) (value x : Int), Encloses valuation range x →
        Encloses valuation (mulRangeAndConstant value range) (x * value) ∧
        Encloses valuation (divRangeAndConstant value range) (x.tdiv value)) ∧
    (∀ (constant1 constant2 : Option Int) (range1 range2 : Bool → Value) (x y : Int),
        (∀ value, constant1 = some value → x = value) → (∀ value, constant2 = some value → y = value) →
        Encloses valuation range1 x → Encloses valuation range2 y →
        Encloses valuation (getMul constant1 constant2 range1 range2) (x * y) ∧
        (y ≠ 0 → Encloses valuation (getDiv constant2 range1 range2) (x.tdiv y))) :=
  ⟨addValue_denote valuation, subValue_denote valuation, mulValue_denote valuation,
    divValue_denote valuation, fun _ => mergeVal_denote valuation,
    fun _ value _ inRange =>
      ⟨mulRangeAndConstant_encloses valuation value inRange,
        divRangeAndConstant_encloses valuation value inRange⟩,
    fun _ _ _ _ _ _ exact1 exact2 inRange1 inRange2 =>
      ⟨getMul_encloses valuation exact1 exact2 inRange1 inRange2,
        getDiv_encloses valuation exact2 inRange1 inRange2⟩⟩

end InductionVarRange

end ArtRuntime.Compiler
