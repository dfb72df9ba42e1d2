import Mathlib
import ArtRuntime.Foundation.NatBits

/-! # Two's complement words read as integers

What code that divides by a constant relies on: the signed reading of an
`s`-bit word, the sums and products that stay in range and so read back
exactly, the high half of a double-width signed product, the sign bit shifted
down, and the truncating quotient and remainder by a power of two through a
bias and a mask. -/

namespace ArtRuntime.Foundation.TwosComplement

/-- An integer in the signed range of `s` bits. -/
def Fits (s : Nat) (x : Int) : Prop := -2 ^ (s - 1) ≤ x ∧ x < 2 ^ (s - 1)

instance (s : Nat) (x : Int) : Decidable (Fits s x) := inferInstanceAs (Decidable (_ ∧ _))

section Reading

variable {s : Nat}

theorem fits_toInt (x : BitVec s) : Fits s x.toInt := ⟨BitVec.le_toInt x, BitVec.toInt_lt⟩

theorem bmod_eq_of_fits (positive : 0 < s) {x : Int} (fits : Fits s x) : x.bmod (2 ^ s) = x := by
  obtain ⟨t, rfl⟩ : ∃ t, s = t + 1 := ⟨s - 1, by omega⟩
  have half : ((2 ^ (t + 1) : Nat) : Int) / 2 = 2 ^ t := by push_cast; omega
  have halfUp : (((2 ^ (t + 1) : Nat) : Int) + 1) / 2 = 2 ^ t := by push_cast; omega
  apply Int.bmod_eq_of_le
  · rw [half]; exact fits.1
  · rw [halfUp]; exact fits.2

theorem toInt_ofInt_of_fits (positive : 0 < s) {x : Int} (fits : Fits s x) : (BitVec.ofInt s x).toInt = x := by
  rw [BitVec.toInt_ofInt, bmod_eq_of_fits positive fits]

theorem toInt_add_of_fits (positive : 0 < s) {a b : BitVec s} (fits : Fits s (a.toInt + b.toInt)) :
    (a + b).toInt = a.toInt + b.toInt := by
  rw [BitVec.toInt_add, bmod_eq_of_fits positive fits]

theorem toInt_sub_of_fits (positive : 0 < s) {a b : BitVec s} (fits : Fits s (a.toInt - b.toInt)) :
    (a - b).toInt = a.toInt - b.toInt := by
  rw [BitVec.toInt_sub, bmod_eq_of_fits positive fits]

theorem toInt_neg_of_fits (positive : 0 < s) {a : BitVec s} (fits : Fits s (-a.toInt)) :
    (-a).toInt = -a.toInt := by
  rw [BitVec.toInt_neg, bmod_eq_of_fits positive fits]

theorem bmod_eq_add_mul_of_fits (positive : 0 < s) {x : Int} (t : Int) (fits : Fits s (x + 2 ^ s * t)) :
    x.bmod (2 ^ s) = x + 2 ^ s * t := by
  have shifted := Int.add_mul_bmod_self_left x (2 ^ s) t
  push_cast at shifted
  rw [← shifted, bmod_eq_of_fits positive fits]

theorem toNat_eq_toInt_emod (x : BitVec s) : (x.toNat : Int) = x.toInt % 2 ^ s := by
  have residue := @Int.bmod_emod (x.toNat : Int) (2 ^ s)
  push_cast at residue
  rw [BitVec.toInt_eq_toNat_bmod, residue]
  have below : (x.toNat : Int) < 2 ^ s := by exact_mod_cast x.isLt
  exact (Int.emod_eq_of_lt (Int.natCast_nonneg _) below).symm

theorem emod_bmod_two_pow (x : Int) : (x % 2 ^ s).bmod (2 ^ s) = x.bmod (2 ^ s) := by
  have residue := Int.emod_bmod x (2 ^ s)
  push_cast at residue
  exact residue

theorem toNat_eq_toInt_of_nonneg {x : BitVec s} (nonnegative : 0 ≤ x.toInt) : (x.toNat : Int) = x.toInt := by
  rw [toNat_eq_toInt_emod, Int.emod_eq_of_lt nonnegative]
  have below := BitVec.toInt_lt (x := x)
  have powers : (2 : Int) ^ (s - 1) ≤ 2 ^ s := pow_le_pow_right₀ (by decide) (Nat.sub_le s 1)
  omega

theorem toInt_setWidth_of_le {w : Nat} (x : BitVec w) (narrow : s ≤ w) :
    (x.setWidth s).toInt = x.toInt.bmod (2 ^ s) := by
  rw [BitVec.toInt_setWidth, BitVec.toInt_eq_toNat_bmod, Int.bmod_bmod_of_dvd (Nat.pow_dvd_pow 2 narrow)]

theorem setWidth_ofInt_of_le {w : Nat} (narrow : s ≤ w) (x : Int) :
    (BitVec.ofInt w x).setWidth s = BitVec.ofInt s x := by
  apply BitVec.eq_of_toInt_eq
  rw [toInt_setWidth_of_le _ narrow, BitVec.toInt_ofInt, BitVec.toInt_ofInt,
    Int.bmod_bmod_of_dvd (Nat.pow_dvd_pow 2 narrow)]

theorem toInt_eq_toNat_of_lt {x : BitVec s} (small : x.toNat < 2 ^ (s - 1)) :
    x.toInt = x.toNat := by
  rw [BitVec.toInt_eq_toNat_cond, if_pos]
  rcases Nat.eq_zero_or_pos s with zero | positive
  · subst zero
    omega
  · obtain ⟨t, rfl⟩ : ∃ t, s = t + 1 := ⟨s - 1, by omega⟩
    rw [Nat.pow_succ]
    simp only [Nat.add_sub_cancel] at small
    omega

end Reading

/-! ## The high half of a signed product -/

section MulHigh

variable {s : Nat}

/-- The quotient by `a` of a residue modulo `a * b`, taken modulo `b`, is the
quotient by `a` modulo `b`. -/
theorem emod_mul_ediv_emod (x : Int) {a : Int} (b : Int) (positive : 0 < a) :
    x % (a * b) / a % b = x / a % b := by
  conv_rhs => rw [← Int.emod_add_mul_ediv x (a * b), Int.mul_assoc,
    Int.add_mul_ediv_left _ _ (Int.ne_of_gt positive), Int.add_mul_emod_self_left]

/-- The high `s` bits of the `2s`-bit product of two words read signed, as a
one-operand `imul` leaves them in `edx`. -/
def mulHigh (a b : BitVec s) : BitVec s :=
  ((a.signExtend (2 * s) * b.signExtend (2 * s)) >>> s).setWidth s

theorem abs_toInt_mul_le (a b : BitVec s) : |a.toInt * b.toInt| ≤ 2 ^ (2 * s - 2) := by
  have bound : ∀ x : BitVec s, |x.toInt| ≤ 2 ^ (s - 1) := fun x =>
    abs_le.mpr ⟨BitVec.le_toInt x, Int.le_of_lt BitVec.toInt_lt⟩
  rcases Nat.eq_zero_or_pos s with zero | positive
  · subst zero
    simp [BitVec.toInt_zero_length]
  · calc |a.toInt * b.toInt| = |a.toInt| * |b.toInt| := abs_mul _ _
      _ ≤ 2 ^ (s - 1) * 2 ^ (s - 1) := mul_le_mul (bound a) (bound b) (abs_nonneg _) (by positivity)
      _ = 2 ^ (2 * s - 2) := by rw [← pow_add]; congr 1; omega

theorem toInt_mulHigh (positive : 0 < s) (a b : BitVec s) :
    (mulHigh a b).toInt = a.toInt * b.toInt / 2 ^ s := by
  set product := a.toInt * b.toInt with productEq
  have magnitude := abs_toInt_mul_le a b
  have powers : (2 : Int) ^ (2 * s - 2) * 2 = 2 ^ (2 * s - 1) := by
    rw [← pow_succ]; congr 1; omega
  have square : (2 : Int) ^ (2 * s) = 2 ^ s * 2 ^ s := by rw [← pow_add]; congr 1; omega
  -- the double-width product is exact
  have wide : (a.signExtend (2 * s) * b.signExtend (2 * s)).toInt = product := by
    rw [BitVec.toInt_mul, BitVec.toInt_signExtend_of_le (by omega),
      BitVec.toInt_signExtend_of_le (by omega)]
    apply bmod_eq_of_fits (by omega)
    have := abs_le.mp magnitude
    have : (0 : Int) < 2 ^ (2 * s - 2) := by positivity
    constructor <;> omega
  -- its high half, as a residue, is the floor quotient
  have shifted : ((mulHigh a b).toNat : Int) = product / 2 ^ s % 2 ^ s := by
    rw [mulHigh, BitVec.toNat_setWidth, BitVec.toNat_ushiftRight, Nat.shiftRight_eq_div_pow]
    push_cast
    rw [toNat_eq_toInt_emod, wide, square, emod_mul_ediv_emod _ _ (by positivity)]
  have quotientFits : Fits s (product / 2 ^ s) := by
    have := abs_le.mp magnitude
    have : (0 : Int) < 2 ^ (2 * s - 2) := by positivity
    constructor
    · apply Int.le_ediv_of_mul_le (by positivity)
      rw [neg_mul, ← pow_add]
      have : s - 1 + s = 2 * s - 1 := by omega
      rw [this]
      omega
    · apply Int.ediv_lt_of_lt_mul (by positivity)
      rw [← pow_add]
      have : s - 1 + s = 2 * s - 1 := by omega
      rw [this]
      omega
  rw [BitVec.toInt_eq_toNat_bmod, shifted, emod_bmod_two_pow, bmod_eq_of_fits positive quotientFits]

/-- A multiplier below `2 ^ s` in magnitude times a reading of `s` bits, over
`2 ^ s`, is again a reading of `s` bits. -/
theorem fits_mul_ediv (positive : 0 < s) {multiplier : Int} (bound : |multiplier| < 2 ^ s) {n : Int}
    (fits : Fits s n) : Fits s (multiplier * n / 2 ^ s) := by
  have powers : (2 : Int) ^ (s - 1) * 2 ^ s = 2 ^ (2 * s - 1) := by rw [← pow_add]; congr 1; omega
  have half : (0 : Int) < 2 ^ (s - 1) := by positivity
  have magnitude : |multiplier * n| < 2 ^ (s - 1) * 2 ^ s := by
    rw [abs_mul]
    have nBound : |n| ≤ 2 ^ (s - 1) := abs_le.mpr ⟨fits.1, Int.le_of_lt fits.2⟩
    rcases (abs_nonneg n).lt_or_eq with nonzero | zero
    · calc |multiplier| * |n| < 2 ^ s * |n| := mul_lt_mul_of_pos_right bound nonzero
        _ ≤ 2 ^ s * 2 ^ (s - 1) := mul_le_mul_of_nonneg_left nBound (by positivity)
        _ = 2 ^ (s - 1) * 2 ^ s := Int.mul_comm _ _
    · rw [← zero, Int.mul_zero]
      positivity
  have both := abs_lt.mp magnitude
  constructor
  · apply Int.le_ediv_of_mul_le (by positivity)
    rw [neg_mul]
    omega
  · apply Int.ediv_lt_of_lt_mul (by positivity)
    omega

end MulHigh

/-! ## The sign bit, masks and powers of two -/

section PowerOfTwo

variable {s : Nat}

theorem toNat_ushiftRight_sub_one (positive : 0 < s) (x : BitVec s) :
    (x >>> (s - 1)).toNat = if x.toInt < 0 then 1 else 0 := by
  have double : 2 ^ s = 2 * 2 ^ (s - 1) := by rw [← Nat.pow_succ']; congr 1; omega
  have below := x.isLt
  rw [BitVec.toNat_ushiftRight, Nat.shiftRight_eq_div_pow]
  by_cases negative : x.toInt < 0
  · rw [if_pos negative]
    have high := BitVec.toInt_neg_iff.mp negative
    exact Nat.div_eq_of_lt_le (by omega) (by omega)
  · rw [if_neg negative]
    have low : ¬ 2 ^ s ≤ 2 * x.toNat := fun high => negative (BitVec.toInt_neg_iff.mpr high)
    exact Nat.div_eq_of_lt (by omega)

theorem toInt_ushiftRight_sub_one (atLeastTwo : 2 ≤ s) (x : BitVec s) :
    (x >>> (s - 1)).toInt = if x.toInt < 0 then 1 else 0 := by
  have small : (x >>> (s - 1)).toNat < 2 ^ (s - 1) := by
    rw [toNat_ushiftRight_sub_one (by omega)]
    have : 2 ≤ 2 ^ (s - 1) := by
      calc 2 = 2 ^ 1 := rfl
        _ ≤ 2 ^ (s - 1) := Nat.pow_le_pow_right (by decide) (by omega)
    split <;> omega
  rw [toInt_eq_toNat_of_lt small, toNat_ushiftRight_sub_one (by omega)]
  split <;> rfl

/-- A word plus its sign bit: one more for a negative reading, which never
overflows. -/
theorem toInt_ushiftRight_add (atLeastTwo : 2 ≤ s) (x : BitVec s) :
    (x >>> (s - 1) + x).toInt = x.toInt + if x.toInt < 0 then 1 else 0 := by
  have sign := toInt_ushiftRight_sub_one atLeastTwo x
  have range := fits_toInt x
  rw [toInt_add_of_fits (by omega), sign]
  · split <;> omega
  · rw [sign]
    unfold Fits at range ⊢
    split <;> omega

theorem fits_two_pow_sub_one {k : Nat} (inside : k < s) : Fits s ((2 ^ k - 1 : Nat) : Int) := by
  have powLe : (2 : Int) ^ k ≤ 2 ^ (s - 1) := pow_le_pow_right₀ (by norm_num) (by omega)
  have oneLe : (1 : Int) ≤ 2 ^ k := one_le_pow₀ (by norm_num)
  unfold Fits
  rw [Nat.cast_sub Nat.one_le_two_pow]
  push_cast
  omega

/-- A negative word plus the bias `2 ^ k - 1`, for `k` below the sign bit,
does not overflow. -/
theorem toInt_add_mask_of_neg {k : Nat} (inside : k < s) {n : BitVec s} (negative : n.toInt < 0) :
    (n + BitVec.ofNat s (2 ^ k - 1)).toInt = n.toInt + (2 ^ k - 1) := by
  have powLe : 2 ^ k ≤ 2 ^ (s - 1) := Nat.pow_le_pow_right (by decide) (by omega)
  have powLeInt : (2 : Int) ^ k ≤ 2 ^ (s - 1) := by exact_mod_cast powLe
  have double : 2 ^ s = 2 * 2 ^ (s - 1) := by rw [← Nat.pow_succ']; congr 1; omega
  have kPositive := Nat.two_pow_pos k
  have maskBelow : 2 ^ k - 1 < 2 ^ s := by omega
  have maskReading : (BitVec.ofNat s (2 ^ k - 1)).toInt = 2 ^ k - 1 := by
    rw [toInt_eq_toNat_of_lt (by rw [BitVec.toNat_ofNat, Nat.mod_eq_of_lt maskBelow]; omega),
      BitVec.toNat_ofNat, Nat.mod_eq_of_lt maskBelow, Nat.cast_sub Nat.one_le_two_pow]
    push_cast
    rfl
  have range := fits_toInt n
  have oneLe : (1 : Int) ≤ 2 ^ k := one_le_pow₀ (by norm_num)
  have fits : Fits s (n.toInt + (BitVec.ofNat s (2 ^ k - 1)).toInt) := by
    unfold Fits at range ⊢
    rw [maskReading]
    omega
  rw [toInt_add_of_fits (by omega) fits, maskReading]

/-- Truncating division by `2 ^ k` is floor division after a bias of
`2 ^ k - 1` on a negative numerator. -/
theorem tdiv_two_pow (n : Int) (k : Nat) :
    n.tdiv (2 ^ k) = (n + if n < 0 then 2 ^ k - 1 else 0) / 2 ^ k := by
  have positive : (0 : Int) < 2 ^ k := by positivity
  have split := Int.emod_add_mul_ediv n (2 ^ k)
  have remainder := Int.emod_nonneg n (Int.ne_of_gt positive)
  have remainderBelow := Int.emod_lt_of_pos n positive
  rw [Int.tdiv_eq_ediv, Int.sign_eq_one_of_pos positive]
  simp only [Int.dvd_iff_emod_eq_zero]
  by_cases negative : n < 0
  · rw [if_pos negative]
    -- the bias carries into the quotient exactly when the division is inexact
    by_cases exact : n % 2 ^ k = 0
    · rw [if_pos (Or.inr exact), Int.add_zero]
      have quotient := ((Int.ediv_emod_unique positive (a := n + (2 ^ k - 1)) (q := n / 2 ^ k)
        (r := 2 ^ k - 1)).mpr ⟨by omega, by omega, by omega⟩).1
      omega
    · rw [if_neg (by omega)]
      have carried : 2 ^ k * (n / 2 ^ k + 1) = 2 ^ k * (n / 2 ^ k) + 2 ^ k := by ring
      have quotient := ((Int.ediv_emod_unique positive (a := n + (2 ^ k - 1)) (q := n / 2 ^ k + 1)
        (r := n % 2 ^ k - 1)).mpr ⟨by omega, by omega, by omega⟩).1
      omega
  · rw [if_neg negative, if_pos (Or.inl (by omega)), Int.add_zero, Int.add_zero]

/-- Truncating remainder by `2 ^ k`: the floor remainder, less `2 ^ k` when the
numerator is negative and not a multiple. -/
theorem tmod_two_pow (n : Int) (k : Nat) :
    n.tmod (2 ^ k) = if 0 ≤ n ∨ n % 2 ^ k = 0 then n % 2 ^ k else n % 2 ^ k - 2 ^ k := by
  rw [Int.tmod_eq_emod]
  simp only [Int.dvd_iff_emod_eq_zero]
  split
  · simp
  · rw [Int.natAbs_pow]
    push_cast
    rfl

theorem toNat_and_mask {k : Nat} (inside : k ≤ s) (x : BitVec s) :
    (x &&& BitVec.ofNat s (2 ^ k - 1)).toNat = x.toNat % 2 ^ k := by
  have maskBelow : 2 ^ k - 1 < 2 ^ s :=
    Nat.lt_of_lt_of_le (Nat.sub_lt (Nat.two_pow_pos k) Nat.one_pos) (Nat.pow_le_pow_right (by decide) inside)
  rw [BitVec.toNat_and, BitVec.toNat_ofNat, Nat.mod_eq_of_lt maskBelow, Nat.and_two_pow_sub_one_eq_mod]

theorem toInt_not_mask_or {k : Nat} (inside : k < s) {r : BitVec s} (below : r.toNat < 2 ^ k) :
    (~~~(BitVec.ofNat s (2 ^ k - 1)) ||| r).toInt = r.toNat - 2 ^ k := by
  have powLe : 2 ^ k ≤ 2 ^ (s - 1) := Nat.pow_le_pow_right (by decide) (by omega)
  have double : 2 ^ s = 2 * 2 ^ (s - 1) := by rw [← Nat.pow_succ']; congr 1; omega
  have kPositive := Nat.two_pow_pos k
  have maskBelow : 2 ^ k - 1 < 2 ^ s := by omega
  -- the complement is `2 ^ s - 2 ^ k`, a multiple of `2 ^ k`
  have complement : (~~~(BitVec.ofNat s (2 ^ k - 1))).toNat = 2 ^ k * (2 ^ (s - k) - 1) := by
    rw [BitVec.toNat_not, BitVec.toNat_ofNat, Nat.mod_eq_of_lt maskBelow, Nat.mul_sub_one, ← Nat.pow_add,
      Nat.add_sub_cancel' (Nat.le_of_lt inside)]
    omega
  have complementEq : 2 ^ k * (2 ^ (s - k) - 1) = 2 ^ s - 2 ^ k := by
    rw [Nat.mul_sub_one, ← Nat.pow_add, Nat.add_sub_cancel' (Nat.le_of_lt inside)]
  have disjoint : (~~~(BitVec.ofNat s (2 ^ k - 1)) ||| r).toNat = 2 ^ s - 2 ^ k + r.toNat := by
    rw [BitVec.toNat_or, complement, NatBits.or_eq_add_of_lt k (Nat.mul_mod_right _ _) below, complementEq]
  rw [BitVec.toInt_eq_toNat_cond, disjoint, if_neg (by omega)]
  push_cast
  have : ((2 ^ s - 2 ^ k : Nat) : Int) = 2 ^ s - 2 ^ k := by
    rw [Nat.cast_sub (Nat.pow_le_pow_right (by decide) (Nat.le_of_lt inside))]
    push_cast
    rfl
  omega

theorem toNat_mod_two_pow {k : Nat} (inside : k ≤ s) (x : BitVec s) :
    ((x.toNat % 2 ^ k : Nat) : Int) = x.toInt % 2 ^ k := by
  push_cast
  rw [toNat_eq_toInt_emod, Int.emod_emod_of_dvd _ (pow_dvd_pow 2 inside)]

/-- The remainder by `2 ^ k` through a mask, with the mask's complement or-ed
in when the numerator is negative and its masked bits are not all clear. -/
theorem toInt_maskRemainder {k : Nat} (inside : 1 ≤ k ∧ k < s) (n : BitVec s) :
    (if n.toInt < 0 ∧ n &&& BitVec.ofNat s (2 ^ k - 1) ≠ 0 then
        ~~~(BitVec.ofNat s (2 ^ k - 1)) ||| (n &&& BitVec.ofNat s (2 ^ k - 1))
      else n &&& BitVec.ofNat s (2 ^ k - 1)).toInt = n.toInt.tmod (2 ^ k) := by
  have masked := toNat_and_mask (Nat.le_of_lt inside.2) n
  have residue := toNat_mod_two_pow (Nat.le_of_lt inside.2) n
  have powLe : 2 ^ k ≤ 2 ^ (s - 1) := Nat.pow_le_pow_right (by decide) (by omega)
  have small : (n &&& BitVec.ofNat s (2 ^ k - 1)).toNat < 2 ^ k := by
    rw [masked]
    exact Nat.mod_lt _ (Nat.two_pow_pos k)
  have reading : (n &&& BitVec.ofNat s (2 ^ k - 1)).toInt = n.toInt % 2 ^ k := by
    rw [toInt_eq_toNat_of_lt (by omega), masked, residue]
  have clear : n &&& BitVec.ofNat s (2 ^ k - 1) = 0 ↔ n.toInt % 2 ^ k = 0 := by
    have zeroReading : (0 : BitVec s).toInt = 0 := by simp
    rw [← reading, ← BitVec.toInt_inj, zeroReading]
  rw [tmod_two_pow]
  split_ifs with fixed kept kept
  · rw [Ne, clear] at fixed
    omega
  · rw [toInt_not_mask_or inside.2 small, ← toInt_eq_toNat_of_lt (by omega), reading]
  · rw [reading]
  · exfalso
    apply fixed
    refine ⟨by omega, ?_⟩
    rw [Ne, clear]
    omega

end PowerOfTwo

/-! ## Truncating division of words -/

section Truncating

variable {s : Nat}

theorem eq_sdiv_of_toInt {n d q : BitVec s} (quotient : q.toInt = (n.toInt.tdiv d.toInt).bmod (2 ^ s)) :
    q = n.sdiv d :=
  BitVec.eq_of_toInt_eq (by rw [quotient, BitVec.toInt_sdiv])

theorem eq_srem_of_toInt {n d r : BitVec s} (remainder : r.toInt = n.toInt.tmod d.toInt) : r = n.srem d :=
  BitVec.eq_of_toInt_eq (by rw [remainder, BitVec.toInt_srem])

theorem sub_mul_eq_srem {n d q : BitVec s} (quotient : q.toInt = n.toInt.tdiv d.toInt) : n - q * d = n.srem d := by
  apply eq_srem_of_toInt
  have remainder : n.toInt - q.toInt * d.toInt = n.toInt.tmod d.toInt := by
    rw [quotient, Int.tmod_def]
    ring
  rw [BitVec.toInt_sub, BitVec.toInt_mul, Int.sub_bmod_bmod, remainder, ← BitVec.toInt_srem,
    BitVec.toInt_bmod_cancel]

theorem tmod_eq_tmod_two_pow {d : Int} {k : Nat} (magnitude : d.natAbs = 2 ^ k) (n : Int) :
    n.tmod d = n.tmod (2 ^ k) := by
  rcases Int.natAbs_eq d with positive | negative
  · rw [positive, magnitude]
    push_cast
    rfl
  · rw [negative, magnitude, Int.tmod_neg]
    push_cast
    rfl

end Truncating

end ArtRuntime.Foundation.TwosComplement
