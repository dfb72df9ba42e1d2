import Mathlib.Tactic.Linarith
import Mathlib.Tactic.Positivity
import ArtRuntime.Compiler.IvSimplifier

/-! # Last values of geometric inductions

`InductionVarRange::GenerateLastValueGeometric` of
`compiler/optimizing/induction_var_range.cc`. A geometric induction
`a * f^i + b` or `a * f^-i + b` of a loop taken `m` times has the last value
`a * f^m + b` or `a / f^m + b`. The code computes `f^m` with `IntPow`, noting
any 64-bit overflow; for a division it takes an overflow, or a power that
does not fit an `int` of an `int` induction, to mean that `a / f^m` is zero,
and then emits the constant zero for the whole last value.

Both halves of that shortcut fail: the constant drops `b`, and the `int`
quotient `MIN_VALUE / 2^31` is `-1`, not zero, where `2^31` is the first power
of two that does not fit. -/

namespace ArtRuntime.Compiler

namespace InductionVarRange

open IvSimplifier

/-- `SafeMul`: the product wrapped to 64 bits, with the overflow flag raised
when two positive factors overflow. -/
def safeMul (a b : Int) (overflow : Bool) : Int × Bool :=
  ((BitVec.ofInt 64 (a * b)).toInt,
    overflow || (0 < a && 0 < b && (2 ^ 63 - 1) / b < a))

/-- The loop of `IntPow`, by squaring, on the remaining exponent. -/
def intPowLoop (base : Int) (exponent : Nat) (pow : Int) (overflow : Bool) : Int × Bool :=
  if exponent = 0 then (pow, overflow)
  else
    let (pow, overflow) := if exponent % 2 = 1 then safeMul pow base overflow else (pow, overflow)
    let (base, overflow) :=
      if exponent / 2 ≠ 0 then safeMul base base overflow else (base, overflow)
    intPowLoop base (exponent / 2) pow overflow
termination_by exponent

/-- `IntPow` for a positive base and exponent. -/
def intPow (base exponent : Int) : Int × Bool := intPowLoop base exponent.toNat 1 false

/-! ## `IntPow` detects overflow exactly

Before the first overflow every value the loop holds is exact, and each of
them divides the true power: a partial product, or a square of the base that
is taken only while exponent bits remain. So the flag is raised exactly when
the true power does not fit. -/

/-- The body of the loop of `IntPow` on `(b, e, pow, overflow)`. -/
def intPowBody (state : Int × Nat × Int × Bool) : Int × Nat × Int × Bool :=
  let (base, exponent, pow, overflow) := state
  let (pow, overflow) := if exponent % 2 = 1 then safeMul pow base overflow else (pow, overflow)
  let (base, overflow) := if exponent / 2 ≠ 0 then safeMul base base overflow else (base, overflow)
  (base, exponent / 2, pow, overflow)

theorem intPowLoop_eq_body (base : Int) (exponent : Nat) (pow : Int) (overflow : Bool) :
    intPowLoop base exponent pow overflow =
      if exponent = 0 then (pow, overflow)
      else
        let state := intPowBody (base, exponent, pow, overflow)
        intPowLoop state.1 state.2.1 state.2.2.1 state.2.2.2 := by
  rw [intPowLoop]
  rfl

@[simp] theorem exponent_intPowBody (state : Int × Nat × Int × Bool) : (intPowBody state).2.1 = state.2.1 / 2 := rfl

theorem safeMul_of_le {a b : Int} (positiveA : 0 < a) (positiveB : 0 < b) (fits : a * b ≤ 2 ^ 63 - 1) :
    safeMul a b false = (a * b, false) := by
  have positive : 0 < a * b := Int.mul_pos positiveA positiveB
  have exact : (BitVec.ofInt 64 (a * b)).toInt = a * b := by
    rw [BitVec.toInt_ofInt]
    exact Int.bmod_eq_of_le_mul_two (by omega) (by omega)
  simp only [safeMul, exact, Bool.false_or, Prod.mk.injEq, true_and]
  simpa [positiveA, positiveB] using (Int.le_ediv_iff_mul_le positiveB).mpr fits

theorem safeMul_of_lt {a b : Int} (positiveA : 0 < a) (positiveB : 0 < b) (exceeds : 2 ^ 63 - 1 < a * b)
    (overflow : Bool) : (safeMul a b overflow).2 = true := by
  have raised : (2 ^ 63 - 1) / b < a := (Int.ediv_lt_iff_lt_mul positiveB).mpr exceeds
  simp only [safeMul, Bool.or_eq_true, Bool.and_eq_true, decide_eq_true_eq]
  exact Or.inr ⟨⟨positiveA, positiveB⟩, raised⟩

theorem intPowLoop_overflowed (exponent : Nat) (base pow : Int) : (intPowLoop base exponent pow true).2 = true := by
  induction exponent using Nat.strong_induction_on generalizing base pow with
  | _ exponent induction =>
    rw [intPowLoop_eq_body]
    split_ifs with done
    · rfl
    · have raised : (intPowBody (base, exponent, pow, true)).2.2.2 = true := by
        simp only [intPowBody]
        split_ifs <;> simp [safeMul]
      have halved : (intPowBody (base, exponent, pow, true)).2.1 = exponent / 2 := rfl
      have smaller : exponent / 2 < exponent := Nat.div_lt_self (Nat.pos_of_ne_zero done) (by decide)
      dsimp only
      generalize intPowBody (base, exponent, pow, true) = state at raised halved
      rw [raised]
      exact induction _ (by omega) _ _

theorem intPowBody_of_le {base pow : Int} {exponent : Nat} (positiveBase : 0 < base) (positivePow : 0 < pow)
    (multiplied : exponent % 2 = 1 → pow * base ≤ 2 ^ 63 - 1)
    (squared : exponent / 2 ≠ 0 → base * base ≤ 2 ^ 63 - 1) :
    intPowBody (base, exponent, pow, false) =
      (if exponent / 2 ≠ 0 then base * base else base, exponent / 2, pow * base ^ (exponent % 2), false) := by
  have product : (if exponent % 2 = 1 then safeMul pow base false else (pow, false)) =
      (pow * base ^ (exponent % 2), false) := by
    split_ifs with odd
    · rw [odd, pow_one, safeMul_of_le positivePow positiveBase (multiplied odd)]
    · rw [Nat.mod_two_ne_one.mp odd, pow_zero, mul_one]
  simp only [intPowBody, product]
  split_ifs with remaining
  · rw [safeMul_of_le positiveBase positiveBase (squared remaining)]
  · rfl

theorem intPowBody_of_lt {base pow : Int} {exponent : Nat} (positiveBase : 0 < base) (positivePow : 0 < pow)
    (exceeds : exponent % 2 = 1 ∧ 2 ^ 63 - 1 < pow * base ∨ exponent / 2 ≠ 0 ∧ 2 ^ 63 - 1 < base * base) :
    (intPowBody (base, exponent, pow, false)).2.2.2 = true := by
  simp only [intPowBody]
  rcases exceeds with ⟨odd, multiplied⟩ | ⟨remaining, squared⟩
  · have flagged := safeMul_of_lt positivePow positiveBase multiplied false
    split_ifs <;> simp_all [safeMul]
  · -- the square raises the flag whatever the product did
    simp only [remaining, ne_eq, not_false_eq_true, if_true]
    exact safeMul_of_lt positiveBase positiveBase squared _

theorem power_of_halved (base pow : Int) (exponent : Nat) :
    pow * base ^ (exponent % 2) * (if exponent / 2 ≠ 0 then base * base else base) ^ (exponent / 2) =
      pow * base ^ exponent := by
  split_ifs with remaining
  · rw [← pow_two, ← pow_mul, mul_assoc, ← pow_add, Nat.mod_add_div]
  · have small : exponent / 2 = 0 := by simpa using remaining
    have : exponent % 2 = exponent := by omega
    rw [small, pow_zero, mul_one, this]

/-- From an exact partial power and no overflow, a true power that fits is
computed exactly. -/
theorem intPowLoop_of_le (exponent : Nat) {base pow : Int} (positiveBase : 0 < base) (positivePow : 0 < pow)
    (fits : pow * base ^ exponent ≤ 2 ^ 63 - 1) :
    intPowLoop base exponent pow false = (pow * base ^ exponent, false) := by
  induction exponent using Nat.strong_induction_on generalizing base pow with
  | _ exponent induction =>
    rw [intPowLoop_eq_body]
    split_ifs with done
    · simp [done]
    · -- each product is at most the true power
      have atLeastOne : 1 ≤ base := positiveBase
      have below : ∀ smaller ≤ exponent, pow * base ^ smaller ≤ pow * base ^ exponent := fun smaller within =>
        mul_le_mul_of_nonneg_left (pow_le_pow_right₀ atLeastOne within) positivePow.le
      have multiplied : exponent % 2 = 1 → pow * base ≤ 2 ^ 63 - 1 := fun _ => by
        have := below 1 (by omega)
        rw [pow_one] at this
        omega
      have squared : exponent / 2 ≠ 0 → base * base ≤ 2 ^ 63 - 1 := fun remaining => by
        have := below 2 (by omega)
        have own : base * base ≤ pow * base ^ 2 := by nlinarith
        omega
      rw [intPowBody_of_le positiveBase positivePow multiplied squared]
      dsimp only
      rw [induction (exponent / 2) (Nat.div_lt_self (Nat.pos_of_ne_zero done) (by decide)) (by split_ifs <;> positivity)
        (by positivity) (by rw [power_of_halved]; exact fits), power_of_halved]

/-- From an exact partial power that fits and no overflow, a true power that
does not fit raises the flag. -/
theorem intPowLoop_of_lt (exponent : Nat) {base pow : Int} (positiveBase : 0 < base) (positivePow : 0 < pow)
    (powFits : pow ≤ 2 ^ 63 - 1) (exceeds : 2 ^ 63 - 1 < pow * base ^ exponent) :
    (intPowLoop base exponent pow false).2 = true := by
  induction exponent using Nat.strong_induction_on generalizing base pow with
  | _ exponent induction =>
    rw [intPowLoop_eq_body]
    split_ifs with done
    · subst done
      simp at exceeds
      omega
    · dsimp only
      by_cases flagged : exponent % 2 = 1 ∧ 2 ^ 63 - 1 < pow * base ∨ exponent / 2 ≠ 0 ∧ 2 ^ 63 - 1 < base * base
      · rw [intPowBody_of_lt positiveBase positivePow flagged]
        exact intPowLoop_overflowed _ _ _
      · -- no product overflowed: the step is exact, and the rest of the power does not fit
        simp only [not_or, not_and, not_lt] at flagged
        rw [intPowBody_of_le positiveBase positivePow flagged.1 flagged.2]
        refine induction (exponent / 2) (Nat.div_lt_self (Nat.pos_of_ne_zero done) (by decide))
          (by split_ifs <;> positivity) (by positivity) ?_ (by rw [power_of_halved]; exact exceeds)
        by_cases odd : exponent % 2 = 1
        · rw [odd, pow_one]
          exact flagged.1 odd
        · rw [Nat.mod_two_ne_one.mp odd, pow_zero, mul_one]
          exact powFits


theorem exponent_iterate_intPowBody (passes : Nat) (state : Int × Nat × Int × Bool) :
    (intPowBody^[passes] state).2.1 = state.2.1 / 2 ^ passes := by
  induction passes generalizing state with
  | zero => simp
  | succ passes induction =>
    rw [Function.iterate_succ_apply, induction, exponent_intPowBody, Nat.div_div_eq_div_mul, ← pow_succ']

theorem intPowLoop_iterate (passes : Nat) (base : Int) (exponent : Nat) (pow : Int) (overflow : Bool)
    (running : ∀ earlier < passes, (intPowBody^[earlier] (base, exponent, pow, overflow)).2.1 ≠ 0) :
    intPowLoop base exponent pow overflow =
      let later := intPowBody^[passes] (base, exponent, pow, overflow)
      intPowLoop later.1 later.2.1 later.2.2.1 later.2.2.2 := by
  induction passes generalizing base exponent pow overflow with
  | zero => rfl
  | succ passes induction =>
    have first : exponent ≠ 0 := running 0 (Nat.succ_pos _)
    rw [intPowLoop_eq_body, if_neg first, Function.iterate_succ_apply]
    exact induction _ _ _ _ fun earlier below => running (earlier + 1) (by omega)

/-- `IntPow(b, e, &overflow)` for `b, e ≥ 1`: the flag stays false exactly
when `b^e` fits an `int64_t`, and the power is then exact; the loop makes
`floor(log2 e) + 1` passes, with the exponent not zero before each of them and
zero after the last, whose state the loop returns. -/
theorem intPow_detects_overflow (b e : Int) (positiveBase : 0 < b) (positiveExponent : 0 < e) :
    ((intPow b e).2 = false ↔ b ^ e.toNat ≤ 2 ^ 63 - 1) ∧
      (b ^ e.toNat ≤ 2 ^ 63 - 1 → (intPow b e).1 = b ^ e.toNat) ∧
      (∀ pass ≤ Nat.log2 e.toNat, (intPowBody^[pass] (b, e.toNat, 1, false)).2.1 ≠ 0) ∧
      (intPowBody^[Nat.log2 e.toNat + 1] (b, e.toNat, 1, false)).2.1 = 0 ∧
      intPow b e = ((intPowBody^[Nat.log2 e.toNat + 1] (b, e.toNat, 1, false)).2.2.1,
        (intPowBody^[Nat.log2 e.toNat + 1] (b, e.toNat, 1, false)).2.2.2) := by
  have nonzero : e.toNat ≠ 0 := by omega
  -- the exponent before each pass, and after the last
  have running : ∀ pass ≤ Nat.log2 e.toNat, (intPowBody^[pass] (b, e.toNat, 1, false)).2.1 ≠ 0 := by
    intro pass within
    rw [exponent_iterate_intPowBody]
    exact (Nat.div_pos (le_trans (Nat.pow_le_pow_right (by decide) within) (Nat.log2_self_le nonzero))
      (by positivity)).ne'
  have finished : (intPowBody^[Nat.log2 e.toNat + 1] (b, e.toNat, 1, false)).2.1 = 0 := by
    rw [exponent_iterate_intPowBody]
    exact Nat.div_eq_of_lt Nat.lt_log2_self
  refine ⟨?_, fun fits => ?_, running, finished, ?_⟩
  · constructor
    · intro quiet
      by_contra exceeds
      have raised := intPowLoop_of_lt e.toNat positiveBase Int.one_pos (by norm_num) (by simpa using exceeds)
      simp [intPow, raised] at quiet
    · intro fits
      simp [intPow, intPowLoop_of_le e.toNat positiveBase Int.one_pos (by simpa using fits)]
  · simp [intPow, intPowLoop_of_le e.toNat positiveBase Int.one_pos (by simpa using fits)]
  · rw [intPow, intPowLoop_iterate (Nat.log2 e.toNat + 1) b e.toNat 1 false fun pass below => running pass (by omega)]
    dsimp only
    rw [intPowLoop_eq_body, if_pos finished]

theorem intPow_detects_overflow_of_three_forty :
    (0 : Int) < 3 ∧ (0 : Int) < 40 ∧
      (((intPow 3 40).2 = false ↔ (3 : Int) ^ (40 : Int).toNat ≤ 2 ^ 63 - 1) ∧
        ((3 : Int) ^ (40 : Int).toNat ≤ 2 ^ 63 - 1 → (intPow 3 40).1 = 3 ^ (40 : Int).toNat) ∧
        (∀ pass ≤ Nat.log2 (40 : Int).toNat, (intPowBody^[pass] (3, (40 : Int).toNat, 1, false)).2.1 ≠ 0) ∧
        (intPowBody^[Nat.log2 (40 : Int).toNat + 1] (3, (40 : Int).toNat, 1, false)).2.1 = 0 ∧
        intPow 3 40 = ((intPowBody^[Nat.log2 (40 : Int).toNat + 1] (3, (40 : Int).toNat, 1, false)).2.2.1,
          (intPowBody^[Nat.log2 (40 : Int).toNat + 1] (3, (40 : Int).toNat, 1, false)).2.2.2)) :=
  ⟨by decide, by decide, intPow_detects_overflow 3 40 (by decide) (by decide)⟩

/-- `CanLongValueFitIntoInt`. -/
def canLongValueFitIntoInt (value : Int) : Bool := -2 ^ 31 ≤ value && value < 2 ^ 31

/-- `IsInt64AndGet` on the integral constants. -/
def isInt64AndGet (graph : List HInstruction) (instruction : Nat) : Option Int :=
  if (instructionAt graph instruction).isConstant then
    some (instructionAt graph instruction).int64FromConstant
  else none

/-- `IsConstant(info, kExact, &value)` when the info fetches a constant; the
range analysis the source falls back on is left out, so the model finds fewer
constants than the source does. -/
def isConstantExact (graph : List HInstruction) : InductionInfo → Option Int
  | .mk .kInvariant .kFetch _ _ (some instruction) _ => isInt64AndGet graph instruction
  | _ => none

/-- The HIR that code generation inserts: instructions already in the graph,
constants, and new arithmetic on them. -/
inductive GeneratedCode
  | fetch (instruction : Nat)
  | constant (type : DataType) (value : Int)
  | binary (operation : InductionOp) (type : DataType) (left right : GeneratedCode)
  | neg (type : DataType) (input : GeneratedCode)
  deriving DecidableEq, Repr

/-- A binary operation of Java on two values; division and remainder
truncate. -/
def javaOperation : InductionOp → Value → Value → Value
  | .kAdd => Value.binary (· + ·) (· + ·)
  | .kSub => Value.binary (· - ·) (· - ·)
  | .kMul => Value.binary (· * ·) (· * ·)
  | .kDiv => Value.binary BitVec.sdiv BitVec.sdiv
  | .kRem => Value.binary BitVec.srem BitVec.srem
  | .kXor => Value.binary (· ^^^ ·) (· ^^^ ·)
  | _ => fun _ _ => default

/-- The value of the inserted code, given the values of the instructions it
fetches. -/
def GeneratedCode.evaluate (values : Nat → Value) : GeneratedCode → Value
  | fetch instruction => values instruction
  | constant type value => constantValue type value
  | binary operation _ left right => javaOperation operation (left.evaluate values) (right.evaluate values)
  | neg _ input => (input.evaluate values).negate

/-- `GenerateCode` on an invariant, with no trip count: the arithmetic of
invariants and fetches. Comparisons and trip counts are left out. -/
def generateCode : InductionInfo → Option GeneratedCode
  | .mk .kInvariant operation opA opB fetch type =>
      match operation with
      | .kAdd | .kSub | .kMul | .kDiv | .kRem | .kXor => do
          let left ← generateCode opA
          let right ← generateCode opB
          some (.binary operation type left right)
      | .kNeg => (generateCode opB).map (.neg type)
      | .kFetch => fetch.map .fetch
      | _ => none
  | _ => none

/-- `GenerateLastValueGeometric`: the code of the last value, when the base
`f` and the trip count `m` are known constants. -/
def generateLastValueGeometric (graph : List HInstruction) (info trip : InductionInfo) :
    Option GeneratedCode :=
  match info with
  | .mk _ operation opA opB (some fetch) type =>
      match isInt64AndGet graph fetch, isConstantExact graph trip.opA with
      | some f, some m =>
          if 1 ≤ f ∧ 1 ≤ m then do
            let opa ← generateCode opA
            let opb ← generateCode opB
            let (power, overflow) := intPow f m
            let fpow :=
              if operation = .kDiv then
                -- For division, any overflow truncates to zero.
                if overflow || (type ≠ .kInt64 && !canLongValueFitIntoInt power) then 0 else power
              else if type ≠ .kInt64 then (BitVec.ofInt 32 power).toInt
              else power
            if fpow = 0 then some (.constant type 0)
            else if operation = .kMul then
              some (.binary .kAdd type (.binary .kMul type opa (.constant type fpow)) opb)
            else some (.binary .kAdd type (.binary .kDiv type opa (.constant type fpow)) opb)
          else none
      | _, _ => none
  | _ => none

/-- One step of a geometric induction: its value multiplied or divided by `f`. -/
def geometricStep (operation : InductionOp) (f value : Value) : Value :=
  if operation = .kMul then Value.binary (· * ·) (· * ·) value f
  else Value.binary BitVec.sdiv BitVec.sdiv value f

/-- The value of the geometric induction after `m` steps from `a`, plus `b`. -/
def geometricValue (operation : InductionOp) (a f b : Value) (m : Nat) : Value :=
  Value.binary (· + ·) (· + ·) ((geometricStep operation f)^[m] a) b

/-! ## Repeated truncating division -/

theorem tdiv_tdiv_of_nonneg {x p : Int} (q : Int) (nonnegative : 0 ≤ x) (positive : 0 ≤ p) :
    (x.tdiv p).tdiv q = x.tdiv (p * q) := by
  rw [Int.tdiv_eq_ediv_of_nonneg nonnegative, Int.tdiv_eq_ediv_of_nonneg (Int.ediv_nonneg nonnegative positive),
    Int.tdiv_eq_ediv_of_nonneg nonnegative, Int.ediv_ediv_of_nonneg positive]

/-- Truncating division by two nonnegative numbers in turn is division by their
product, whatever the sign of the dividend. -/
theorem tdiv_tdiv {p : Int} (x q : Int) (positive : 0 ≤ p) : (x.tdiv p).tdiv q = x.tdiv (p * q) := by
  rcases Int.le_total 0 x with nonnegative | nonpositive
  · exact tdiv_tdiv_of_nonneg q nonnegative positive
  · obtain ⟨y, rfl⟩ : ∃ y, x = -y := ⟨-x, (Int.neg_neg x).symm⟩
    simp only [Int.neg_tdiv]
    rw [tdiv_tdiv_of_nonneg q (by omega : 0 ≤ y) positive]

theorem toInt_sdiv_two (value : BitVec 32) : (value.sdiv 2).toInt = value.toInt.tdiv 2 := by
  rw [BitVec.toInt_sdiv_of_ne_or_ne value 2 (Or.inr (by decide))]
  rfl

theorem toInt_iterate_sdiv_two (value : BitVec 32) (count : Nat) :
    ((fun current : BitVec 32 => current.sdiv 2)^[count] value).toInt = value.toInt.tdiv (2 ^ count) := by
  induction count with
  | zero => simp
  | succ count induction =>
      rw [Function.iterate_succ_apply', toInt_sdiv_two, induction,
        tdiv_tdiv _ _ (Int.pow_nonneg (by decide)), Int.pow_succ]

/-- Thirty-one halvings leave nothing of an `int` but of `MIN_VALUE`, which
becomes `-1`. -/
theorem iterate_sdiv_two_thirtyOne (value : BitVec 32) :
    (fun current : BitVec 32 => current.sdiv 2)^[31] value =
      if value = BitVec.intMin 32 then -1 else 0 := by
  have lower := BitVec.le_toInt value
  have upper := BitVec.toInt_lt (x := value)
  have minimum : (BitVec.intMin 32).toInt = -2 ^ 31 := by decide
  apply BitVec.eq_of_toInt_eq
  rw [toInt_iterate_sdiv_two]
  split
  case isTrue isMinimum =>
    rw [isMinimum, minimum]
    decide
  case isFalse notMinimum =>
    have apart : value.toInt ≠ -2 ^ 31 := fun equal =>
      notMinimum (BitVec.eq_of_toInt_eq (equal.trans minimum.symm))
    simp only [Nat.add_one_sub_one] at lower upper
    rcases Int.le_total 0 value.toInt with nonnegative | nonpositive
    · rw [Int.tdiv_eq_ediv_of_nonneg nonnegative]
      simp
      omega
    · rw [← Int.neg_neg value.toInt, Int.neg_tdiv,
        Int.tdiv_eq_ediv_of_nonneg (Int.neg_nonneg_of_nonpos nonpositive)]
      simp
      omega

/-! ## Halving thirty-one times -/

/-- The method's arguments `a` and `b`, and the constants `2` and `31` of the
loop `for (k = 0; k < 31; k++) x /= 2;` that starts with `x = a`, and whose
users read `x + b` after it. -/
def halvingGraph : List HInstruction :=
  [.parameterValue 0, .parameterValue 1, .intConstant 2, .intConstant 31]

/-- The induction `a * 2^-i + b` of `x + b`. -/
def halvingInfo : InductionInfo :=
  .mk .kGeometric .kDiv (.invariantFetch 0 .kInt32) (.invariantFetch 1 .kInt32) (some 2) .kInt32

theorem intPow_two_thirtyOne : intPow 2 31 = (2 ^ 31, false) := by
  simp [intPow, intPowLoop, safeMul]

/-- With the trip count `31`, `2^31` does not fit an `int`, and the code
emits the constant zero. -/
theorem generateLastValueGeometric_halving {trip : InductionInfo}
    (counted : trip.opA = .invariantFetch 3 .kInt32) :
    generateLastValueGeometric halvingGraph halvingInfo trip = some (.constant .kInt32 0) := by
  simp [generateLastValueGeometric, halvingInfo, counted, isInt64AndGet, isConstantExact,
    halvingGraph, instructionAt, HInstruction.isConstant, HInstruction.int64FromConstant,
    InductionInfo.invariantFetch, generateCode, intPow_two_thirtyOne, canLongValueFitIntoInt]

theorem iterate_geometricStep_halve (a : BitVec 32) (count : Nat) :
    (geometricStep .kDiv (.int 2))^[count] (.int a) =
      .int ((fun current : BitVec 32 => current.sdiv 2)^[count] a) := by
  induction count with
  | zero => rfl
  | succ count induction =>
      rw [Function.iterate_succ_apply', Function.iterate_succ_apply', induction]
      rfl

/-- For every `a` and `b` the code gives the last value of `a * 2^-i + b`
after 31 iterations as zero; the loop leaves `b - 1` for `a = MIN_VALUE` and
`b` for every other `a`. -/
theorem generateLastValueGeometric_zero_shortcut {trip : InductionInfo}
    (counted : trip.opA = .invariantFetch 3 .kInt32) (values : Nat → Value) (a b : BitVec 32) :
    (generateLastValueGeometric halvingGraph halvingInfo trip).map (GeneratedCode.evaluate values) =
      some (.int 0) ∧
    geometricValue .kDiv (.int a) (.int 2) (.int b) 31 =
      .int (b + if a = BitVec.intMin 32 then -1 else 0) := by
  constructor
  · rw [generateLastValueGeometric_halving counted]
    rfl
  · rw [geometricValue, iterate_geometricStep_halve, iterate_sdiv_two_thirtyOne]
    simp only [Value.binary, Value.int.injEq]
    exact BitVec.add_comm _ _

/-- At `a = MIN_VALUE` and `b = 0` the loop leaves `-1`. -/
theorem generateLastValueGeometric_zero_shortcut_at_minimum :
    (InductionInfo.mk .kInvariant .kTripCountInLoop (.invariantFetch 3 .kInt32)
        (.mk .kInvariant .kLT (.invariantFetch 0 .kInt32) (.invariantFetch 3 .kInt32) none .kBool)
        none .kInt32).opA = .invariantFetch 3 .kInt32 ∧
    (generateLastValueGeometric halvingGraph halvingInfo
        (.mk .kInvariant .kTripCountInLoop (.invariantFetch 3 .kInt32)
          (.mk .kInvariant .kLT (.invariantFetch 0 .kInt32) (.invariantFetch 3 .kInt32) none .kBool)
          none .kInt32)).map (GeneratedCode.evaluate fun _ => .int 0) = some (.int 0) ∧
    geometricValue .kDiv (.int (BitVec.intMin 32)) (.int 2) (.int 0) 31 =
      .int (0 + if BitVec.intMin 32 = BitVec.intMin 32 then -1 else 0) :=
  ⟨rfl, generateLastValueGeometric_zero_shortcut rfl (fun _ => .int 0) (BitVec.intMin 32) 0⟩

end InductionVarRange

end ArtRuntime.Compiler
