import Mathlib
import ArtRuntime.Foundation.NatBits

/-! # Bit counting

The builtins behind `CLZ`, `CTZ` and `POPCOUNT` of `libartbase/base/bit_utils.h`,
on the value of a word of `width` bits. `CLZ` and `CTZ` of zero are undefined in
the source (a debug check rejects them); the model gives them `width`. -/

namespace ArtRuntime.Base

/-- `CLZ`: the leading zero bits of a `width`-bit word. -/
def clz (width value : Nat) : Nat := width - Nat.size value

/-- `CTZ`: the trailing zero bits of a `width`-bit word. -/
def ctz (width value : Nat) : Nat :=
  ((List.range width).find? value.testBit).getD width

/-- `POPCOUNT`: the bits set in a `width`-bit word. -/
def popCount (width value : Nat) : Nat :=
  ((List.range width).filter value.testBit).length

/-- The bits a word needs, `width - CLZ(value)`, is the length of its binary
representation. -/
theorem sub_clz {width value : Nat} (fits : value < 2 ^ width) :
    width - clz width value = Nat.size value := by
  have sizeLe : Nat.size value ≤ width := Nat.size_le.mpr fits
  unfold clz
  omega

theorem testBit_of_lt_ctz {width value i : Nat} (below : i < ctz width value) :
    value.testBit i = false := by
  unfold ctz at below
  cases found : (List.range width).find? value.testBit with
  | none =>
    rw [found, Option.getD_none] at below
    rw [List.find?_range_eq_none] at found
    simpa using found i below
  | some first =>
    rw [found, Option.getD_some] at below
    obtain ⟨-, -, earlier⟩ := List.find?_range_eq_some.mp found
    simpa using earlier i below

theorem ctz_le (width value : Nat) : ctz width value ≤ width := by
  unfold ctz
  cases found : (List.range width).find? value.testBit with
  | none => simp
  | some first =>
    obtain ⟨-, member, -⟩ := List.find?_range_eq_some.mp found
    simp only [Option.getD_some]
    exact Nat.le_of_lt (List.mem_range.mp member)

theorem testBit_ctz {width value : Nat} (fits : value < 2 ^ width) (nonzero : value ≠ 0) :
    ctz width value < width ∧ value.testBit (ctz width value) = true := by
  unfold ctz
  cases found : (List.range width).find? value.testBit with
  | none =>
    -- No bit below the width is set, and none above it either.
    rw [List.find?_range_eq_none] at found
    apply absurd _ nonzero
    apply Nat.eq_of_testBit_eq
    intro i
    rw [Nat.zero_testBit]
    by_cases inside : i < width
    · simpa using found i inside
    · exact Nat.testBit_lt_two_pow (Nat.lt_of_lt_of_le fits (Nat.pow_le_pow_right (by decide) (by omega)))
  | some first =>
    obtain ⟨set, member, -⟩ := List.find?_range_eq_some.mp found
    exact ⟨List.mem_range.mp member, set⟩

theorem ctz_two_pow_mul {width k m : Nat} (odd : m % 2 = 1) (inside : k < width) : ctz width (2 ^ k * m) = k := by
  unfold ctz
  rw [List.find?_range_eq_some.mpr ⟨?_, List.mem_range.mpr inside, ?_⟩, Option.getD_some]
  · rw [Nat.testBit_two_pow_mul, Nat.sub_self, Nat.testBit_zero]
    simp [odd]
  · intro j below
    rw [Nat.testBit_two_pow_mul]
    simp only [ge_iff_le, Bool.not_eq_eq_eq_not, Bool.not_true, Bool.and_eq_false_imp, decide_eq_true_eq]
    omega

theorem ctz_toNat_ofInt {width k : Nat} {value : Int} (magnitude : value.natAbs = 2 ^ k) (inside : k < width) :
    ctz width (BitVec.ofInt width value).toNat = k := by
  have powerBelow : 2 ^ k < 2 ^ width := Nat.pow_lt_pow_right (by decide) inside
  rcases Int.natAbs_eq value with positive | negative
  · rw [positive, magnitude, BitVec.ofInt_natCast, BitVec.toNat_ofNat, Nat.mod_eq_of_lt powerBelow,
      ← Nat.mul_one (2 ^ k)]
    exact ctz_two_pow_mul (by decide) inside
  · -- `-2 ^ k` is `2 ^ k` times the odd `2 ^ (width - k) - 1`
    have split : 2 ^ width = 2 ^ k * 2 ^ (width - k) := by rw [← Nat.pow_add]; congr 1; omega
    have upper : 2 ^ (width - k) = 2 * 2 ^ (width - k - 1) := by rw [← Nat.pow_succ']; congr 1; omega
    have differenceBelow : 2 ^ width - 2 ^ k < 2 ^ width := by have := Nat.two_pow_pos k; omega
    have reading : (BitVec.ofInt width value).toNat = 2 ^ k * (2 ^ (width - k) - 1) := by
      rw [negative, magnitude, BitVec.ofInt_neg, BitVec.ofInt_natCast, BitVec.toNat_neg, BitVec.toNat_ofNat,
        Nat.mod_eq_of_lt powerBelow, Nat.mod_eq_of_lt differenceBelow, Nat.mul_sub_one, ← split]
    have odd : (2 ^ (width - k) - 1) % 2 = 1 := by have := Nat.two_pow_pos (width - k - 1); omega
    rw [reading]
    exact ctz_two_pow_mul odd inside

/-- `IsPowerOfTwo(x)`: `(x & (x - 1)) == 0` on a `width`-bit word, where the
subtraction wraps as the word does. -/
def isPowerOfTwo {width : Nat} (x : BitVec width) : Bool := decide (x &&& (x - 1) = 0)

theorem isPowerOfTwo_iff {width : Nat} {x : BitVec width} (nonzero : x ≠ 0) :
    isPowerOfTwo x = true ↔ ∃ k, x.toNat = 2 ^ k := by
  have positive : 0 < x.toNat := by
    rcases Nat.eq_zero_or_pos x.toNat with zero | positive
    · exact absurd (BitVec.eq_of_toNat_eq (by simp [zero])) nonzero
    · exact positive
  have wide : 0 < width := by
    rcases Nat.eq_zero_or_pos width with zero | positive
    · subst zero
      exact absurd (BitVec.eq_nil x) nonzero
    · exact positive
  have one : (1 : BitVec width).toNat = 1 := by
    simp [Nat.mod_eq_of_lt (Nat.one_lt_two_pow (Nat.pos_iff_ne_zero.mp wide))]
  have predecessor : (x - 1).toNat = x.toNat - 1 := by
    rw [BitVec.toNat_sub_of_le (by rw [BitVec.le_def, one]; omega), one]
  have zero : (0 : BitVec width).toNat = 0 := by simp
  rw [isPowerOfTwo, decide_eq_true_iff, BitVec.toNat_eq, BitVec.toNat_and, predecessor, zero]
  exact Foundation.NatBits.and_sub_one_eq_zero_iff positive

end ArtRuntime.Base
