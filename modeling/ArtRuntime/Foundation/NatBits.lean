import Mathlib.Data.Nat.Bitwise
import Mathlib.Data.Nat.Log

/-! Bitwise operations on natural numbers read as arithmetic. Code that packs
fields into machine words with shifts, masks and disjunctions is easier to
reason about through multiplication, division, remainder and addition, where
`omega` can take over. -/

namespace ArtRuntime.Foundation.NatBits

/-- A mask of `width` low ones keeps the remainder modulo `2 ^ width`. The
mask is given as a numeral, as it stands in code. -/
theorem and_mask_eq_mod {mask : Nat} (width : Nat) (isMask : mask + 1 = 2 ^ width)
    (value : Nat) : value &&& mask = value % 2 ^ width := by
  have maskEq : mask = 2 ^ width - 1 := by omega
  rw [maskEq, Nat.and_two_pow_sub_one_eq_mod]

/-- A disjunction of a multiple of `2 ^ width` with a value below `2 ^ width`
sets disjoint bits, so it is an addition. -/
theorem or_eq_add_of_lt {high low : Nat} (width : Nat) (aligned : high % 2 ^ width = 0)
    (fits : low < 2 ^ width) : high ||| low = high + low := by
  have split : high = 2 ^ width * (high / 2 ^ width) :=
    (Nat.mul_div_cancel' (Nat.dvd_of_mod_eq_zero aligned)).symm
  rw [split]
  exact (Nat.two_pow_add_eq_or_of_lt fits _).symm

theorem or_eq_add_of_lt_left {high low : Nat} (width : Nat) (aligned : high % 2 ^ width = 0)
    (fits : low < 2 ^ width) : low ||| high = high + low := by
  rw [Nat.lor_comm]
  exact or_eq_add_of_lt width aligned fits

theorem shiftLeft_or_eq_add {low : Nat} (high width : Nat) (fits : low < 2 ^ width) :
    high <<< width ||| low = high * 2 ^ width + low := by
  rw [Nat.shiftLeft_eq]
  exact or_eq_add_of_lt width (Nat.mul_mod_left high _) fits

/-- `n & (n - 1)` clears the lowest set bit of `n`: it is zero exactly for a
power of two. -/
theorem and_sub_one_eq_zero_iff {n : Nat} (positive : 0 < n) : n &&& (n - 1) = 0 ↔ ∃ k, n = 2 ^ k := by
  constructor
  · intro cleared
    refine ⟨Nat.log 2 n, ?_⟩
    have low := Nat.pow_log_le_self 2 (Nat.pos_iff_ne_zero.mp positive)
    have high := Nat.lt_pow_succ_log_self (by decide : 1 < 2) n
    rw [Nat.pow_succ] at high
    -- past the top bit `2 ^ k`, a remainder leaves bit `k` set in `n - 1` as well
    by_contra notPower
    have setIn : ∀ x, 2 ^ Nat.log 2 n ≤ x → x < 2 ^ Nat.log 2 n * 2 → x.testBit (Nat.log 2 n) = true := by
      intro x above below
      have split : x = 2 ^ Nat.log 2 n + (x - 2 ^ Nat.log 2 n) := by omega
      rw [split, Nat.testBit_two_pow_add_eq, Nat.testBit_lt_two_pow (by omega)]
      rfl
    have both : (n &&& (n - 1)).testBit (Nat.log 2 n) = true := by
      rw [Nat.testBit_and, setIn n low high, setIn (n - 1) (by omega) (by omega)]
      rfl
    rw [cleared, Nat.zero_testBit] at both
    exact Bool.false_ne_true both
  · rintro ⟨k, rfl⟩
    rw [Nat.and_two_pow_sub_one_eq_mod, Nat.mod_self]

end ArtRuntime.Foundation.NatBits
