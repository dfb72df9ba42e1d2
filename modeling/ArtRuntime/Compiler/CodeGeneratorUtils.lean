import ArtRuntime.Foundation.InvariantDivision
import ArtRuntime.Foundation.TwosComplement
import Mathlib.Data.Nat.Prime.Basic

/-! # The magic number of a division by a constant

`CalculateMagicAndShiftForDivRem` of `compiler/optimizing/code_generator_utils.cc`,
after Warren's `magic`: for a divisor `d` of an `int` or a `long`, of width
`N + 1` bits, it searches the shift `p` from `N + 1` up, keeping `2 ^ p` as a
quotient and a remainder by `abs_nc` and by `|d|` in `uint64_t`, and stops at
the first `p` with `2 ^ p > abs_nc * (|d| - 2 ^ p mod |d|)`. The magic number is
`2 ^ p / |d| + 1` with the sign of `d`, read back as an `int64_t` or an `int`,
and the shift is `p - (N + 1)`.

The loop has no bound in the source; the model runs it for at most 64 rounds
and returns `none` past them. For every divisor of magnitude at least three
that is no power of two, the divisors the code generators hand it, the loop
ends within `N` rounds and no `uint64_t` step wraps. -/

namespace ArtRuntime.Compiler

open ArtRuntime.Foundation.InvariantDivision ArtRuntime.Foundation.TwosComplement

/-- The variables of the loop of `CalculateMagicAndShiftForDivRem`. -/
structure MagicSearch where
  p : Int
  quotient1 : UInt64
  remainder1 : UInt64
  quotient2 : UInt64
  remainder2 : UInt64
  delta : UInt64
  deriving DecidableEq, Repr

namespace MagicSearch

/-- One round of the loop: `2 ^ p` one step further, as quotient and remainder
by `abs_nc` and by `abs_d`. -/
def step (absNc absD : UInt64) (search : MagicSearch) : MagicSearch :=
  let quotient1 := 2 * search.quotient1
  let remainder1 := 2 * search.remainder1
  let carry1 := decide (remainder1 ≥ absNc)
  let quotient2 := 2 * search.quotient2
  let remainder2 := 2 * search.remainder2
  let carry2 := decide (remainder2 ≥ absD)
  let remainder2 := if carry2 then remainder2 - absD else remainder2
  { p := search.p + 1
    quotient1 := if carry1 then quotient1 + 1 else quotient1
    remainder1 := if carry1 then remainder1 - absNc else remainder1
    quotient2 := if carry2 then quotient2 + 1 else quotient2
    remainder2 := remainder2
    delta := absD - remainder2 }

/-- The condition of the `do`-`while`. -/
def continues (search : MagicSearch) : Bool :=
  search.quotient1 < search.delta || (search.quotient1 == search.delta && search.remainder1 == 0)

/-- The loop, for at most `fuel` rounds. -/
def loop (absNc absD : UInt64) : Nat → MagicSearch → Option MagicSearch
  | 0, _ => none
  | fuel + 1, search =>
    let next := search.step absNc absD
    if next.continues then loop absNc absD fuel next else some next

/-- The loop's variables after `k` rounds from `2 ^ N`: `2 ^ (N + k)` as
quotient and remainder by `nc` and by `d`. -/
structure Tracks (N nc d k : Nat) (search : MagicSearch) : Prop where
  exponent : search.p = N + k
  quotient1 : search.quotient1.toNat = 2 ^ (N + k) / nc
  remainder1 : search.remainder1.toNat = 2 ^ (N + k) % nc
  quotient2 : search.quotient2.toNat = 2 ^ (N + k) / d
  remainder2 : search.remainder2.toNat = 2 ^ (N + k) % d

section Step

variable {N nc d k : Nat} {search : MagicSearch} {absNc absD : UInt64}

theorem toNat_two_mul {value : UInt64} (small : value.toNat < 2 ^ 63) :
    (2 * value).toNat = 2 * value.toNat ∧ (2 * value + 1).toNat = 2 * value.toNat + 1 := by
  constructor
  · rw [UInt64.toNat_mul]
    simp only [UInt64.reduceToNat]
    omega
  · rw [UInt64.toNat_add, UInt64.toNat_mul]
    simp only [UInt64.reduceToNat]
    omega

theorem Tracks.next (tracks : Tracks N nc d k search) (ncPositive : 0 < nc) (dPositive : 0 < d)
    (ncEq : absNc.toNat = nc) (dEq : absD.toNat = d) (ncFits : nc ≤ 2 ^ 63) (dFits : d ≤ 2 ^ 63)
    (quotient1Fits : 2 ^ (N + k) / nc < 2 ^ 63) (quotient2Fits : 2 ^ (N + k) / d < 2 ^ 63) :
    Tracks N nc d (k + 1) (search.step absNc absD) ∧
      (search.step absNc absD).delta.toNat = d - 2 ^ (N + (k + 1)) % d := by
  have doubledPower : 2 ^ (N + (k + 1)) = 2 * 2 ^ (N + k) := by
    rw [← Nat.add_assoc, Nat.pow_succ, Nat.mul_comm]
  obtain ⟨quotient1Step, remainder1Step⟩ := two_mul_div_mod ncPositive (2 ^ (N + k))
  obtain ⟨quotient2Step, remainder2Step⟩ := two_mul_div_mod dPositive (2 ^ (N + k))
  have remainder1Below := Nat.mod_lt (2 ^ (N + k)) ncPositive
  have remainder2Below := Nat.mod_lt (2 ^ (N + k)) dPositive
  obtain ⟨quotient1Double, quotient1Carry⟩ :=
    @toNat_two_mul search.quotient1 (by rw [tracks.quotient1]; exact quotient1Fits)
  obtain ⟨quotient2Double, quotient2Carry⟩ :=
    @toNat_two_mul search.quotient2 (by rw [tracks.quotient2]; exact quotient2Fits)
  obtain ⟨remainder1Double, -⟩ :=
    @toNat_two_mul search.remainder1 (by rw [tracks.remainder1]; omega)
  obtain ⟨remainder2Double, -⟩ :=
    @toNat_two_mul search.remainder2 (by rw [tracks.remainder2]; omega)
  have carry1 : (2 * search.remainder1 ≥ absNc) ↔ nc ≤ 2 * (2 ^ (N + k) % nc) := by
    rw [ge_iff_le, UInt64.le_iff_toNat_le, remainder1Double, tracks.remainder1, ncEq]
  have carry2 : (2 * search.remainder2 ≥ absD) ↔ d ≤ 2 * (2 ^ (N + k) % d) := by
    rw [ge_iff_le, UInt64.le_iff_toNat_le, remainder2Double, tracks.remainder2, dEq]
  -- the new second remainder, before `delta` is taken from it
  have remainder2New : (if decide (2 * search.remainder2 ≥ absD) = true then 2 * search.remainder2 - absD
      else 2 * search.remainder2).toNat = 2 ^ (N + (k + 1)) % d := by
    rw [doubledPower, remainder2Step]
    by_cases carry : d ≤ 2 * (2 ^ (N + k) % d)
    · rw [if_pos (decide_eq_true (carry2.mpr carry)), if_pos carry,
        UInt64.toNat_sub_of_le _ _ (carry2.mpr carry), remainder2Double, tracks.remainder2, dEq]
    · rw [if_neg (fun taken => carry (carry2.mp (of_decide_eq_true taken))), if_neg carry,
        remainder2Double, tracks.remainder2]
  refine ⟨⟨?_, ?_, ?_, ?_, remainder2New⟩, ?_⟩
  · simp only [step, tracks.exponent]
    push_cast
    ring
  · simp only [step]
    rw [doubledPower, quotient1Step]
    by_cases carry : nc ≤ 2 * (2 ^ (N + k) % nc)
    · rw [if_pos (decide_eq_true (carry1.mpr carry)), if_pos carry, quotient1Carry, tracks.quotient1]
    · rw [if_neg (fun taken => carry (carry1.mp (of_decide_eq_true taken))), if_neg carry,
        quotient1Double, tracks.quotient1]
  · simp only [step]
    rw [doubledPower, remainder1Step]
    by_cases carry : nc ≤ 2 * (2 ^ (N + k) % nc)
    · rw [if_pos (decide_eq_true (carry1.mpr carry)), if_pos carry,
        UInt64.toNat_sub_of_le _ _ (carry1.mpr carry), remainder1Double, tracks.remainder1, ncEq]
    · rw [if_neg (fun taken => carry (carry1.mp (of_decide_eq_true taken))), if_neg carry,
        remainder1Double, tracks.remainder1]
  · simp only [step]
    rw [doubledPower, quotient2Step]
    by_cases carry : d ≤ 2 * (2 ^ (N + k) % d)
    · rw [if_pos (decide_eq_true (carry2.mpr carry)), if_pos carry, quotient2Carry, tracks.quotient2]
    · rw [if_neg (fun taken => carry (carry2.mp (of_decide_eq_true taken))), if_neg carry,
        quotient2Double, tracks.quotient2]
  · simp only [step]
    have remainderBelow := Nat.mod_lt (2 ^ (N + (k + 1))) dPositive
    rw [UInt64.toNat_sub_of_le _ _ (by rw [UInt64.le_iff_toNat_le, remainder2New, dEq]; omega),
      remainder2New, dEq]
theorem Tracks.continues_next_iff (tracks : Tracks N nc d k search) (ncPositive : 0 < nc)
    (dPositive : 0 < d) (ncEq : absNc.toNat = nc) (dEq : absD.toNat = d) (ncFits : nc ≤ 2 ^ 63)
    (dFits : d ≤ 2 ^ 63) (quotient1Fits : 2 ^ (N + k) / nc < 2 ^ 63)
    (quotient2Fits : 2 ^ (N + k) / d < 2 ^ 63) :
    (search.step absNc absD).continues = true ↔ 2 ^ (N + (k + 1)) ≤ nc * excess d (N + (k + 1)) := by
  obtain ⟨next, delta⟩ :=
    tracks.next ncPositive dPositive ncEq dEq ncFits dFits quotient1Fits quotient2Fits
  rw [← div_lt_or_exact_iff_le_mul ncPositive, excess, ← delta, ← next.quotient1, ← next.remainder1]
  simp only [continues, Bool.or_eq_true, Bool.and_eq_true, beq_iff_eq, decide_eq_true_eq,
    UInt64.lt_iff_toNat_lt, ← UInt64.toNat_inj, UInt64.toNat_zero]

end Step

/-- What the search needs of its operands, for a width of `N + 1` bits: a
divisor `d` of magnitude at least three that is no power of two and lies below
`2 ^ N`, and `nc` of remainder `d - 1`, at least `d - 1` and at most `2 ^ N`. -/
structure SearchOperands (N nc d : Nat) : Prop where
  widthPositive : 1 ≤ N
  widthFits : N ≤ 63
  divisorLarge : 3 ≤ d
  divisorSmall : d < 2 ^ N
  notPower : ∀ j, d ≠ 2 ^ j
  aligned : (nc + 1) % d = 0
  limitLarge : d ≤ nc + 1
  limitSmall : nc ≤ 2 ^ N

namespace SearchOperands

variable {N nc d : Nat} (operands : SearchOperands N nc d)
include operands

theorem not_dvd_pow (p : Nat) : ¬ d ∣ 2 ^ p := by
  rw [Nat.dvd_prime_pow Nat.prime_two]
  rintro ⟨j, -, power⟩
  exact operands.notPower j power

theorem excess_lt (p : Nat) : excess d p < d := by
  have remainder : 2 ^ p % d ≠ 0 := fun zero => operands.not_dvd_pow p (Nat.dvd_of_mod_eq_zero zero)
  have := operands.divisorLarge
  rw [excess]
  omega

theorem powFits : 2 ^ N ≤ 2 ^ 63 := Nat.pow_le_pow_right (by decide) operands.widthFits

theorem test_of_le {p : Nat} (late : 2 * N ≤ p) : nc * excess d p < 2 ^ p :=
  calc nc * excess d p ≤ 2 ^ N * d := Nat.mul_le_mul operands.limitSmall excess_le
    _ < 2 ^ N * 2 ^ N := Nat.mul_lt_mul_of_pos_left operands.divisorSmall (Nat.two_pow_pos N)
    _ = 2 ^ (2 * N) := by rw [← Nat.pow_add, Nat.two_mul]
    _ ≤ 2 ^ p := Nat.pow_le_pow_right (by decide) late

theorem quotients_fit {k : Nat} (started : k = 0 ∨ 2 ^ (N + k) ≤ nc * excess d (N + k)) :
    2 ^ (N + k) / nc < 2 ^ 63 ∧ 2 ^ (N + k) / d < 2 ^ 63 := by
  have powFits := operands.powFits
  have divisorLarge := operands.divisorLarge
  have limitLarge := operands.limitLarge
  rcases started with rfl | fails
  · have halved1 : 2 ^ N / nc ≤ 2 ^ N / 2 := Nat.div_le_div_left (by omega) (by decide)
    have halved2 : 2 ^ N / d ≤ 2 ^ N / 2 := Nat.div_le_div_left (by omega) (by decide)
    have half : 2 ^ N / 2 < 2 ^ N := Nat.div_lt_self (Nat.two_pow_pos N) (by decide)
    simp only [Nat.add_zero]
    omega
  · have tight := operands.excess_lt (N + k)
    constructor
    · have quotient : 2 ^ (N + k) / nc ≤ excess d (N + k) :=
        Nat.div_le_of_le_mul fails
      have := operands.divisorSmall
      omega
    · apply Nat.div_lt_of_lt_mul
      calc 2 ^ (N + k) ≤ nc * excess d (N + k) := fails
        _ ≤ 2 ^ N * (d - 1) := Nat.mul_le_mul operands.limitSmall (by omega)
        _ < d * 2 ^ 63 := by
          have : 2 ^ N * (d - 1) < 2 ^ N * d := Nat.mul_lt_mul_of_pos_left (by omega) (Nat.two_pow_pos N)
          calc 2 ^ N * (d - 1) < 2 ^ N * d := this
            _ ≤ 2 ^ 63 * d := Nat.mul_le_mul_right _ powFits
            _ = d * 2 ^ 63 := Nat.mul_comm _ _

end SearchOperands

/-- The loop from a state after `k` rounds that is the start or a failed test:
with fuel enough to reach `2 * N`, it stops after some `j` rounds, at a shift
whose test holds, and the round before is the start or a failed test. -/
theorem loop_spec {N nc d : Nat} (operands : SearchOperands N nc d) {absNc absD : UInt64}
    (ncEq : absNc.toNat = nc) (dEq : absD.toNat = d) :
    ∀ (fuel k : Nat) (search : MagicSearch), Tracks N nc d k search →
      (k = 0 ∨ 2 ^ (N + k) ≤ nc * excess d (N + k)) → 2 * N ≤ N + k + fuel →
      ∃ j final, loop absNc absD fuel search = some final ∧ Tracks N nc d j final ∧ k < j ∧
        nc * excess d (N + j) < 2 ^ (N + j) ∧
        (j - 1 = 0 ∨ 2 ^ (N + (j - 1)) ≤ nc * excess d (N + (j - 1))) := by
  have ncPositive : 0 < nc := by have := operands.limitLarge; have := operands.divisorLarge; omega
  have dPositive : 0 < d := by have := operands.divisorLarge; omega
  have ncFits : nc ≤ 2 ^ 63 := Nat.le_trans operands.limitSmall operands.powFits
  have dFits : d ≤ 2 ^ 63 := Nat.le_of_lt (Nat.lt_of_lt_of_le operands.divisorSmall operands.powFits)
  intro fuel
  -- induction on the fuel; the state after `k` rounds carries the invariant
  induction fuel with
  | zero =>
    intro k search _ started enough
    rcases started with rfl | fails
    · have := operands.widthPositive
      omega
    · have := operands.test_of_le (p := N + k) (by omega)
      omega
  | succ fuel induction =>
    intro k search tracks started enough
    obtain ⟨quotient1Fits, quotient2Fits⟩ := operands.quotients_fit started
    obtain ⟨next, -⟩ := tracks.next ncPositive dPositive ncEq dEq ncFits dFits quotient1Fits quotient2Fits
    have goesOn := tracks.continues_next_iff ncPositive dPositive ncEq dEq ncFits dFits quotient1Fits
      quotient2Fits
    rw [loop]
    by_cases again : (search.step absNc absD).continues = true
    · rw [if_pos again]
      obtain ⟨j, final, looped, tracksFinal, later, test, previous⟩ :=
        induction (k + 1) _ next (Or.inr (goesOn.mp again)) (by omega)
      exact ⟨j, final, looped, tracksFinal, by omega, test, previous⟩
    · rw [if_neg again]
      refine ⟨k + 1, _, rfl, next, Nat.lt_succ_self k, ?_, ?_⟩
      · rw [goesOn] at again
        omega
      · simpa using started

/-- The shift `N + j` the search stops at: past `2 ^ N`, its test holds, and the
one before it is `N + 1` or fails the test. -/
structure FoundShift (N nc d j : Nat) : Prop where
  moved : 1 ≤ j
  test : nc * excess d (N + j) < 2 ^ (N + j)
  previous : j = 1 ∨ 2 ^ (N + (j - 1)) ≤ nc * excess d (N + (j - 1))

namespace FoundShift

variable {N nc d j : Nat} (found : FoundShift N nc d j)
include found

theorem magic_lt (operands : SearchOperands N nc d) : magic d (N + j) < 2 ^ (N + 1) := by
  rcases found.previous with first | fails
  · rw [first]
    exact magic_first_lt (by have := operands.divisorLarge; omega) operands.widthPositive
  · have small : d < 2 ^ (N + 1) :=
      Nat.lt_of_lt_of_le operands.divisorSmall (Nat.pow_le_pow_right (by decide) (Nat.le_succ N))
    have shifted := magic_lt_of_not_test (operands.not_dvd_pow _) operands.limitSmall small fails
    rwa [show N + (j - 1) + 1 = N + j by have := found.moved; omega] at shifted

theorem le_width (operands : SearchOperands N nc d) : j ≤ N := by
  by_contra late
  have widthPositive := operands.widthPositive
  rcases found.previous with first | fails
  · omega
  · have := operands.test_of_le (p := N + (j - 1)) (by omega)
    omega

end FoundShift

end MagicSearch

/-- `CalculateMagicAndShiftForDivRem(divisor, is_long, &magic, &shift)`: the
magic number and the shift. -/
def calculateMagicAndShiftForDivRem (divisor : Int) (isLong : Bool) : Option (Int × Int) := do
  let p : Int := if isLong then 63 else 31
  let exp : UInt64 := if isLong then (1 : UInt64) <<< 63 else ((1 : UInt32) <<< 31).toUInt64
  let absD : UInt64 := UInt64.ofInt (if divisor ≥ 0 then divisor else -divisor)
  let signBit : UInt64 :=
    if isLong then UInt64.ofInt divisor >>> 63 else (UInt32.ofInt divisor >>> 31).toUInt64
  let tmp := exp + signBit
  let absNc := tmp - 1 - tmp % absD
  let search ← MagicSearch.loop absNc absD 64
    ⟨p, exp / absNc, exp % absNc, exp / absD, exp % absD, 0⟩
  -- `quotient2 + 1` or its negation, converted to `int64_t`, then to `int`
  let magic : Int :=
    if divisor > 0 then (search.quotient2 + 1).toBitVec.toInt else (-search.quotient2 - 1).toBitVec.toInt
  let magic := if isLong then magic else magic.bmod (2 ^ 32)
  pure (magic, if isLong then search.p - 64 else search.p - 32)

/-! ## The operands of the search -/

/-- The magnitude bits of an `int` or a `long`, the exponent of `exp`. -/
def signBits (isLong : Bool) : Nat := if isLong then 63 else 31

theorem toNat_exp (isLong : Bool) :
    (if isLong = true then (1 : UInt64) <<< 63 else ((1 : UInt32) <<< 31).toUInt64).toNat =
      2 ^ signBits isLong := by
  cases isLong <;> decide

section Operands

variable {isLong : Bool} {divisor : Int}

theorem toNat_absD (above : -2 ^ 63 ≤ divisor) (below : divisor < 2 ^ 63) :
    (UInt64.ofInt (if divisor ≥ 0 then divisor else -divisor)).toNat = divisor.natAbs := by
  rw [UInt64.ofInt, UInt64.toNat_ofNat']
  split <;> omega

theorem toNat_signBit (above : -2 ^ signBits isLong ≤ divisor) (below : divisor < 2 ^ signBits isLong) :
    (if isLong = true then UInt64.ofInt divisor >>> 63 else (UInt32.ofInt divisor >>> 31).toUInt64).toNat =
      if divisor < 0 then 1 else 0 := by
  cases isLong
  · simp only [signBits, Bool.false_eq_true, if_false] at above below
    simp only [Bool.false_eq_true, if_false, UInt32.toNat_toUInt64, UInt32.toNat_shiftRight, UInt32.ofInt,
      UInt32.toNat_ofNat', Nat.shiftRight_eq_div_pow, UInt32.reduceToNat, Nat.reduceMod]
    split <;> omega
  · simp only [signBits, if_true] at above below
    simp only [if_true, UInt64.toNat_shiftRight, UInt64.ofInt, UInt64.toNat_ofNat', Nat.shiftRight_eq_div_pow,
      UInt64.reduceToNat, Nat.reduceMod]
    split <;> omega

/-- `abs_nc` as a number: the largest numerator in range of remainder `|d| - 1`
(for a negative divisor, counted from `2 ^ N + 1`). -/
def absNcOf (isLong : Bool) (divisor : Int) : Nat :=
  2 ^ signBits isLong + (if divisor < 0 then 1 else 0) - 1 -
    (2 ^ signBits isLong + (if divisor < 0 then 1 else 0)) % divisor.natAbs

theorem toNat_absNc {exp signBit absD : UInt64} {sign d : Nat} (expEq : exp.toNat = 2 ^ signBits isLong)
    (signEq : signBit.toNat = sign) (signSmall : sign ≤ 1) (dEq : absD.toNat = d) (dPositive : 0 < d)
    (dSmall : d ≤ 2 ^ signBits isLong) :
    (exp + signBit - 1 - (exp + signBit) % absD).toNat =
      2 ^ signBits isLong + sign - 1 - (2 ^ signBits isLong + sign) % d := by
  have powFits : 2 ^ signBits isLong ≤ 2 ^ 63 := Nat.pow_le_pow_right (by decide) (by cases isLong <;> decide)
  have sum : (exp + signBit).toNat = 2 ^ signBits isLong + sign := by
    rw [UInt64.toNat_add, expEq, signEq]
    omega
  have remainder : ((exp + signBit) % absD).toNat = (2 ^ signBits isLong + sign) % d := by
    rw [UInt64.toNat_mod, sum, dEq]
  have remainderBelow := Nat.mod_lt (2 ^ signBits isLong + sign) dPositive
  have decremented : (exp + signBit - 1).toNat = 2 ^ signBits isLong + sign - 1 := by
    rw [UInt64.toNat_sub_of_le _ _ (by rw [UInt64.le_iff_toNat_le, sum]; simp; omega), sum]
    simp
  rw [UInt64.toNat_sub_of_le _ _ (by rw [UInt64.le_iff_toNat_le, decremented, remainder]; omega),
    decremented, remainder]

/-- The search's operands for a divisor of the width's range, of magnitude at
least three and no power of two. -/
theorem searchOperands (above : -2 ^ signBits isLong ≤ divisor) (below : divisor < 2 ^ signBits isLong)
    (large : 3 ≤ divisor.natAbs) (notPower : ∀ j, divisor.natAbs ≠ 2 ^ j) :
    MagicSearch.SearchOperands (signBits isLong) (absNcOf isLong divisor) divisor.natAbs := by
  have widthFits : signBits isLong ≤ 63 := by cases isLong <;> decide
  have widthPositive : 1 ≤ signBits isLong := by cases isLong <;> decide
  have cast : ((2 ^ signBits isLong : Nat) : Int) = 2 ^ signBits isLong := by push_cast; rfl
  have atMost : divisor.natAbs ≤ 2 ^ signBits isLong := by omega
  have divisorSmall : divisor.natAbs < 2 ^ signBits isLong :=
    Nat.lt_of_le_of_ne atMost (notPower (signBits isLong))
  -- the numerator `tmp` of the source, `2 ^ N` or `2 ^ N + 1`
  obtain ⟨numerator, numeratorEq⟩ : ∃ numerator, numerator = 2 ^ signBits isLong + if divisor < 0 then 1 else 0 :=
    ⟨_, rfl⟩
  have unfolded : absNcOf isLong divisor = numerator - 1 - numerator % divisor.natAbs := by
    rw [absNcOf, numeratorEq]
  have numeratorLarge : 2 ^ signBits isLong ≤ numerator ∧ numerator ≤ 2 ^ signBits isLong + 1 := by
    rw [numeratorEq]; split <;> omega
  have split := Nat.div_add_mod numerator divisor.natAbs
  have remainderBelow := Nat.mod_lt numerator (show 0 < divisor.natAbs by omega)
  have quotientPositive : 0 < numerator / divisor.natAbs := Nat.div_pos (by omega) (by omega)
  have multiple : absNcOf isLong divisor + 1 = divisor.natAbs * (numerator / divisor.natAbs) := by
    rw [unfolded]
    omega
  refine ⟨widthPositive, widthFits, large, divisorSmall, notPower, ?_, ?_, ?_⟩
  · rw [multiple, Nat.mul_mod_right]
  · rw [multiple]
    exact Nat.le_mul_of_pos_right _ quotientPositive
  · rw [unfolded]
    omega

/-- Past `nc` the numerators of remainder zero start: `2 ^ N`, or `2 ^ N + 1` for a
negative divisor, is below `nc + |d|`. -/
theorem pow_add_sign_le (nonzero : divisor ≠ 0) :
    2 ^ signBits isLong + (if divisor < 0 then 1 else 0) ≤ absNcOf isLong divisor + divisor.natAbs := by
  have remainderBelow := Nat.mod_lt (2 ^ signBits isLong + (if divisor < 0 then 1 else 0))
    (Int.natAbs_pos.mpr nonzero)
  have powPositive := Nat.two_pow_pos (signBits isLong)
  rw [absNcOf]
  omega

/-- When `2 ^ N` itself reaches `nc + d`, for a positive divisor, `d` divides
`2 ^ N + 1`. -/
theorem dvd_of_absNcOf_add_le (positive : 0 < divisor)
    (tight : absNcOf isLong divisor + divisor.natAbs ≤ 2 ^ signBits isLong) :
    (2 ^ signBits isLong + 1) % divisor.natAbs = 0 := by
  have remainderBelow := Nat.mod_lt (2 ^ signBits isLong) (Int.natAbs_pos.mpr (Int.ne_of_gt positive))
  have powPositive := Nat.two_pow_pos (signBits isLong)
  rw [absNcOf, if_neg (Int.not_lt.mpr (Int.le_of_lt positive)), Nat.add_zero] at tight
  rw [← Nat.mod_add_mod, show 2 ^ signBits isLong % divisor.natAbs + 1 = divisor.natAbs by omega,
    Nat.mod_self]

end Operands

/-! ## The magic number and the shift -/

theorem toInt_add_one {quotient : UInt64} (fits : quotient.toNat + 1 < 2 ^ 64) :
    (quotient + 1).toBitVec.toInt = ((quotient.toNat + 1 : Nat) : Int).bmod (2 ^ 64) := by
  have sum : (quotient + 1).toNat = quotient.toNat + 1 := by
    rw [UInt64.toNat_add, UInt64.toNat_one]
    exact Nat.mod_eq_of_lt fits
  rw [BitVec.toInt_eq_toNat_bmod, UInt64.toNat_toBitVec, sum]

theorem toInt_neg_sub_one {quotient : UInt64} (fits : quotient.toNat + 1 < 2 ^ 64) :
    (-quotient - 1).toBitVec.toInt = (-((quotient.toNat + 1 : Nat) : Int)).bmod (2 ^ 64) := by
  have below := quotient.toNat_lt
  have difference : ((-quotient - 1).toNat : Int) = -((quotient.toNat + 1 : Nat) : Int) % ((2 ^ 64 : Nat) : Int) := by
    rw [UInt64.toNat_sub, UInt64.toNat_neg, UInt64.toNat_one]
    unfold UInt64.size
    omega
  rw [BitVec.toInt_eq_toNat_bmod, UInt64.toNat_toBitVec, difference, Int.emod_bmod]

section Result

variable {isLong : Bool} {divisor : Int}

/-- `CalculateMagicAndShiftForDivRem` stops at a shift `N + j` the search finds,
and returns the multiplier with the divisor's sign, as a word of the width, and
`j - 1`. -/
theorem calculateMagicAndShiftForDivRem_eq (above : -2 ^ signBits isLong ≤ divisor)
    (below : divisor < 2 ^ signBits isLong) (large : 3 ≤ divisor.natAbs)
    (notPower : ∀ j, divisor.natAbs ≠ 2 ^ j) :
    ∃ j, MagicSearch.FoundShift (signBits isLong) (absNcOf isLong divisor) divisor.natAbs j ∧
      calculateMagicAndShiftForDivRem divisor isLong =
        some ((divisor.sign * magic divisor.natAbs (signBits isLong + j)).bmod (2 ^ (signBits isLong + 1)),
          (j : Int) - 1) := by
  have operands := searchOperands above below large notPower
  have widthFits : signBits isLong ≤ 63 := by cases isLong <;> decide
  have powFits : 2 ^ signBits isLong ≤ 2 ^ 63 := Nat.pow_le_pow_right (by decide) widthFits
  have powFitsInt : (2 : Int) ^ signBits isLong ≤ 2 ^ 63 := by exact_mod_cast powFits
  have nonzero : divisor ≠ 0 := by omega
  have expEq := toNat_exp isLong
  have absDEq := @toNat_absD divisor (by omega) (by omega)
  have signBitEq := toNat_signBit above below
  have absNcEq := toNat_absNc expEq signBitEq (by split <;> omega) absDEq (by omega)
    (Nat.le_of_lt operands.divisorSmall)
  simp only [calculateMagicAndShiftForDivRem]
  generalize (if isLong = true then (1 : UInt64) <<< 63 else ((1 : UInt32) <<< 31).toUInt64) = exp
    at expEq absNcEq ⊢
  generalize (if isLong = true then UInt64.ofInt divisor >>> 63 else (UInt32.ofInt divisor >>> 31).toUInt64) = signBit
    at signBitEq absNcEq ⊢
  generalize UInt64.ofInt (if divisor ≥ 0 then divisor else -divisor) = absD at absDEq absNcEq ⊢
  generalize exp + signBit - 1 - (exp + signBit) % absD = absNc at absNcEq ⊢
  have ncEq : absNc.toNat = absNcOf isLong divisor := absNcEq
  have initial : MagicSearch.Tracks (signBits isLong) (absNcOf isLong divisor) divisor.natAbs 0
      ⟨if isLong = true then 63 else 31, exp / absNc, exp % absNc, exp / absD, exp % absD, 0⟩ :=
    ⟨by cases isLong <;> rfl, by rw [UInt64.toNat_div, expEq, ncEq]; rfl,
      by rw [UInt64.toNat_mod, expEq, ncEq]; rfl, by rw [UInt64.toNat_div, expEq, absDEq]; rfl,
      by rw [UInt64.toNat_mod, expEq, absDEq]; rfl⟩
  obtain ⟨j, final, looped, tracks, later, test, previous⟩ :=
    MagicSearch.loop_spec operands ncEq absDEq 64 0 _ initial (Or.inl rfl) (by omega)
  have found : MagicSearch.FoundShift (signBits isLong) (absNcOf isLong divisor) divisor.natAbs j :=
    ⟨later, test, by omega⟩
  refine ⟨j, found, ?_⟩
  -- the magic number as an `int64_t`: `quotient2 + 1` fits, so only its sign matters
  have magicFits := found.magic_lt operands
  have magicEq : final.quotient2.toNat + 1 = magic divisor.natAbs (signBits isLong + j) := by
    rw [tracks.quotient2, magic]
  have wordFits : final.quotient2.toNat + 1 < 2 ^ 64 := by
    rw [magicEq]
    exact Nat.lt_of_lt_of_le magicFits (Nat.pow_le_pow_right (by decide) (by omega))
  have magicWord : (if divisor > 0 then (final.quotient2 + 1).toBitVec.toInt
      else (-final.quotient2 - 1).toBitVec.toInt) =
      (divisor.sign * magic divisor.natAbs (signBits isLong + j)).bmod (2 ^ 64) := by
    rcases Int.lt_or_gt_of_ne nonzero with negative | positive
    · rw [if_neg (Int.not_lt.mpr (Int.le_of_lt negative)), toInt_neg_sub_one wordFits, magicEq,
        Int.sign_eq_neg_one_of_neg negative, Int.neg_one_mul]
    · rw [if_pos positive, toInt_add_one wordFits, magicEq, Int.sign_eq_one_of_pos positive, Int.one_mul]
  rw [looped, Option.bind_eq_bind, Option.bind_some, magicWord, tracks.exponent]
  cases isLong
  · simp only [signBits, Bool.false_eq_true, if_false]
    rw [Int.bmod_bmod_of_dvd (by decide)]
    push_cast
    congr 2
    omega
  · simp only [signBits, if_true]
    push_cast
    congr 2
    omega

/-- The multiplier of the search, with the sign of the divisor, floored at
`2 ^ (N + j)` and rounded toward zero, divides every numerator of the width. -/
theorem towardZero_sign_mul_magic_ediv (above : -2 ^ signBits isLong ≤ divisor)
    (below : divisor < 2 ^ signBits isLong) (large : 3 ≤ divisor.natAbs)
    (notPower : ∀ j, divisor.natAbs ≠ 2 ^ j) {j : Nat}
    (found : MagicSearch.FoundShift (signBits isLong) (absNcOf isLong divisor) divisor.natAbs j)
    {n : Int} (numeratorAbove : -2 ^ signBits isLong ≤ n) (numeratorBelow : n < 2 ^ signBits isLong) :
    towardZero (divisor.sign * magic divisor.natAbs (signBits isLong + j) * n /
      2 ^ (signBits isLong + j)) = n.tdiv divisor := by
  have operands := searchOperands above below large notPower
  have nonzero : divisor ≠ 0 := by omega
  have reach := @pow_add_sign_le isLong divisor nonzero
  have cast : ((2 ^ signBits isLong : Nat) : Int) = 2 ^ signBits isLong := by push_cast; rfl
  -- every magnitude below the search's limit passes the floor test
  have floor : ∀ m, m < absNcOf isLong divisor + divisor.natAbs →
      m * excess divisor.natAbs (signBits isLong + j) <
        (divisor.natAbs - m % divisor.natAbs) * 2 ^ (signBits isLong + j) :=
    fun _ below => floorTest_of_lt operands.aligned operands.limitLarge found.test below
  rcases Int.lt_or_gt_of_ne nonzero with negative | positive
  · -- a negative divisor negates the multiplier, as if it negated the numerator
    rw [if_pos negative] at reach
    have divisorEq : divisor = -(divisor.natAbs : Int) := by omega
    rw [Int.sign_eq_neg_one_of_neg negative, show (-1 : Int) * magic divisor.natAbs (signBits isLong + j) * n
        = magic divisor.natAbs (signBits isLong + j) * -n by ring,
      towardZero_magic_mul_ediv (by omega), Int.neg_tdiv, divisorEq, Int.tdiv_neg, Int.natAbs_neg,
      Int.natAbs_natCast]
    · intro _
      exact floor _ (by omega)
    · intro _
      exact Nat.le_of_lt (floor _ (by omega))
  · rw [if_neg (Int.not_lt.mpr (Int.le_of_lt positive)), Nat.add_zero] at reach
    have divisorEq : divisor = (divisor.natAbs : Int) := by omega
    rw [Int.sign_eq_one_of_pos positive, Int.one_mul, towardZero_magic_mul_ediv (by omega)]
    · nth_rewrite 2 [divisorEq]
      rfl
    · intro _
      exact floor _ (by omega)
    · intro _
      -- only `-2 ^ N` can reach `nc + d`, when `d` divides `2 ^ N + 1`
      rcases Nat.lt_or_ge n.natAbs (absNcOf isLong divisor + divisor.natAbs) with inside | outside
      · exact Nat.le_of_lt (floor _ inside)
      · have power : n.natAbs = 2 ^ signBits isLong := by omega
        rw [power]
        exact ceilTest_of_pow (dvd_of_absNcOf_add_le positive (by omega)) (Nat.le_add_right _ _)
end Result

/-- `AbsOrMin(value)` of `code_generator_utils.h`: the magnitude of a word
read signed, and the minimum itself, whose magnitude does not fit. -/
def absOrMin {width : Nat} (value : BitVec width) : BitVec width :=
  if value = BitVec.intMin width then value else if value.msb then -value else value

theorem toNat_absOrMin {width : Nat} (positive : 0 < width) {value : Int} (above : -2 ^ (width - 1) ≤ value)
    (below : value < 2 ^ (width - 1)) : (absOrMin (BitVec.ofInt width value)).toNat = value.natAbs := by
  have reading := toInt_ofInt_of_fits positive ⟨above, below⟩
  have powers : (2 : Int) ^ (width - 1) * 2 = 2 ^ width := by rw [← pow_succ]; congr 1; omega
  apply Int.ofNat_inj.mp
  rw [Int.natCast_natAbs]
  unfold absOrMin
  by_cases minimum : BitVec.ofInt width value = BitVec.intMin width
  · -- the minimum stays, and its value is its magnitude
    have valueEq : value = -2 ^ (width - 1) := by
      rw [← reading, minimum, BitVec.toInt_intMin, Nat.mod_eq_of_lt (Nat.pow_lt_pow_right (by decide) (by omega))]
      push_cast
      rfl
    have wrapped : -(2 : Int) ^ (width - 1) = 2 ^ (width - 1) + 2 ^ width * (-1) := by omega
    rw [if_pos minimum, toNat_eq_toInt_emod, reading, valueEq, abs_neg, abs_of_pos (by positivity), wrapped,
      Int.add_mul_emod_self_left, Int.emod_eq_of_lt (by positivity) (by omega)]
  · rw [if_neg minimum]
    by_cases negative : (BitVec.ofInt width value).msb = true
    · rw [if_pos negative]
      rw [BitVec.msb_eq_toInt, reading, decide_eq_true_iff] at negative
      have apart : value ≠ -2 ^ (width - 1) := fun equal =>
        minimum (BitVec.eq_of_toInt_eq (by
          rw [reading, equal, BitVec.toInt_intMin,
            Nat.mod_eq_of_lt (Nat.pow_lt_pow_right (by decide) (by omega))]
          push_cast
          rfl))
      have negated : (-BitVec.ofInt width value).toInt = -value := by
        rw [toInt_neg_of_fits positive (by rw [reading]; constructor <;> omega), reading]
      rw [toNat_eq_toInt_of_nonneg (by omega), negated, abs_of_neg negative]
    · rw [if_neg negative]
      rw [BitVec.msb_eq_toInt, reading, decide_eq_true_iff] at negative
      rw [toNat_eq_toInt_of_nonneg (by omega), reading, abs_of_nonneg (by omega)]

end ArtRuntime.Compiler
