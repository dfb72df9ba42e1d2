import Mathlib.Data.Nat.ModEq
import Mathlib.Tactic.Positivity
import Mathlib.Tactic.Ring

/-! # Division by an invariant integer

Division by a constant `divisor` through a multiplication and a shift
(Granlund and Montgomery; Warren, *Hacker's Delight*, chapter 10). For a shift
`p` the multiplier is `magic = 2 ^ p / divisor + 1`, a little above
`2 ^ p / divisor`: `magic * divisor = 2 ^ p + excess`. The floor of
`m * magic / 2 ^ p` is `m / divisor` as long as the overshoot `m * excess`
stays below what the remainder of `m` leaves free, and the search for `p`
stops at the first `p` with `nc * excess < 2 ^ p`, for `nc` the largest
numerator of remainder `divisor - 1` in range. A signed numerator is divided
through its magnitude, and the floor is rounded toward zero by adding one to a
negative quotient. -/

namespace ArtRuntime.Foundation.InvariantDivision

/-- `2 ^ p / divisor + 1`. -/
def magic (divisor p : Nat) : Nat := 2 ^ p / divisor + 1

/-- The overshoot of `magic * divisor` over `2 ^ p`. -/
def excess (divisor p : Nat) : Nat := divisor - 2 ^ p % divisor

/-- A floor quotient rounded toward zero: one more when it is negative. -/
def towardZero (quotient : Int) : Int := if quotient < 0 then quotient + 1 else quotient

section Magic

variable {divisor p : Nat}

theorem magic_mul (positive : 0 < divisor) :
    magic divisor p * divisor = 2 ^ p + excess divisor p := by
  have split := Nat.div_add_mod (2 ^ p) divisor
  have below := Nat.mod_lt (2 ^ p) positive
  rw [magic, excess, Nat.add_mul, Nat.one_mul, Nat.mul_comm]
  omega

theorem excess_pos (positive : 0 < divisor) : 0 < excess divisor p := by
  have below := Nat.mod_lt (2 ^ p) positive
  rw [excess]
  omega

theorem excess_le : excess divisor p ≤ divisor := Nat.sub_le _ _

/-- A numerator and the part of a divisor its remainder leaves free make the
next multiple of the divisor. -/
theorem add_sub_mod (positive : 0 < divisor) (m : Nat) :
    m + (divisor - m % divisor) = (m / divisor + 1) * divisor := by
  have split := Nat.div_add_mod m divisor
  have below := Nat.mod_lt m positive
  rw [Nat.add_mul, Nat.one_mul, Nat.mul_comm]
  omega

theorem mul_magic_mul (positive : 0 < divisor) (m : Nat) :
    m * magic divisor p * divisor = m * 2 ^ p + m * excess divisor p := by
  rw [Nat.mul_assoc, magic_mul positive, Nat.mul_add]

theorem div_mul_le_mul_magic (m : Nat) :
    m / divisor * 2 ^ p * divisor ≤ m * 2 ^ p := by
  calc m / divisor * 2 ^ p * divisor = m / divisor * divisor * 2 ^ p := by ring
    _ ≤ m * 2 ^ p := Nat.mul_le_mul_right _ (Nat.div_mul_le_self m divisor)

/-- The floor of `m * magic / 2 ^ p` is `m / divisor` while the overshoot
stays below what the remainder leaves free. -/
theorem mul_magic_div (positive : 0 < divisor) {m : Nat}
    (small : m * excess divisor p < (divisor - m % divisor) * 2 ^ p) :
    m * magic divisor p / 2 ^ p = m / divisor := by
  apply Nat.div_eq_of_lt_le
  · apply Nat.le_of_mul_le_mul_right _ positive
    calc m / divisor * 2 ^ p * divisor ≤ m * 2 ^ p := div_mul_le_mul_magic m
      _ ≤ m * magic divisor p * divisor := by
        rw [mul_magic_mul positive]
        exact Nat.le_add_right _ _
  · apply Nat.lt_of_mul_lt_mul_right (a := divisor)
    calc m * magic divisor p * divisor = m * 2 ^ p + m * excess divisor p := mul_magic_mul positive m
      _ < m * 2 ^ p + (divisor - m % divisor) * 2 ^ p := Nat.add_lt_add_left small _
      _ = (m / divisor + 1) * 2 ^ p * divisor := by
        rw [← Nat.add_mul, add_sub_mod positive]
        ring

/-- The ceiling of `m * magic / 2 ^ p` is `m / divisor + 1` while the
overshoot does not pass what the remainder leaves free. -/
theorem mul_magic_sub_one_div (positive : 0 < divisor) {m : Nat} (nonzero : 0 < m)
    (small : m * excess divisor p ≤ (divisor - m % divisor) * 2 ^ p) :
    (m * magic divisor p - 1) / 2 ^ p = m / divisor := by
  have overshoot : 0 < m * excess divisor p := Nat.mul_pos nonzero (excess_pos positive)
  have strict : m / divisor * 2 ^ p < m * magic divisor p := by
    apply Nat.lt_of_mul_lt_mul_right (a := divisor)
    calc m / divisor * 2 ^ p * divisor ≤ m * 2 ^ p := div_mul_le_mul_magic m
      _ < m * magic divisor p * divisor := by
        rw [mul_magic_mul positive]
        omega
  have atMost : m * magic divisor p ≤ (m / divisor + 1) * 2 ^ p := by
    apply Nat.le_of_mul_le_mul_right _ positive
    calc m * magic divisor p * divisor = m * 2 ^ p + m * excess divisor p := mul_magic_mul positive m
      _ ≤ m * 2 ^ p + (divisor - m % divisor) * 2 ^ p := Nat.add_le_add_left small _
      _ = (m / divisor + 1) * 2 ^ p * divisor := by
        rw [← Nat.add_mul, add_sub_mod positive]
        ring
  apply Nat.div_eq_of_lt_le <;> omega

/-- The floor of a negative integer over a positive one, through the
ceiling of the magnitude. -/
theorem neg_ediv_of_pos {numerator : Nat} {denominator : Int} (nonzero : 0 < numerator)
    (positive : 0 < denominator) :
    -(numerator : Int) / denominator = -((numerator - 1 : Nat) / denominator) - 1 := by
  have split := Int.emod_add_mul_ediv ((numerator - 1 : Nat) : Int) denominator
  have nonnegative := Int.emod_nonneg ((numerator - 1 : Nat) : Int) (Int.ne_of_gt positive)
  have below := Int.emod_lt_of_pos ((numerator - 1 : Nat) : Int) positive
  have predecessor : ((numerator - 1 : Nat) : Int) = numerator - 1 := by omega
  have characterized : denominator - 1 - ((numerator - 1 : Nat) : Int) % denominator +
        denominator * (-(((numerator - 1 : Nat) : Int) / denominator) - 1) = -(numerator : Int) ∧
      0 ≤ denominator - 1 - ((numerator - 1 : Nat) : Int) % denominator ∧
      denominator - 1 - ((numerator - 1 : Nat) : Int) % denominator < denominator := by
    rw [Int.mul_sub, Int.mul_neg, Int.mul_one]
    omega
  exact ((Int.ediv_emod_unique positive).mpr characterized).1

/-- Division of an integer by a positive divisor: the floor of
`magic * n / 2 ^ p`, rounded toward zero, is the truncated quotient, when the
magnitude of `n` passes the floor test for a non-negative `n` and the ceiling
test for a negative one. -/
theorem towardZero_magic_mul_ediv (positive : 0 < divisor) (n : Int)
    (floorTest : 0 ≤ n → n.natAbs * excess divisor p < (divisor - n.natAbs % divisor) * 2 ^ p)
    (ceilTest : n < 0 → n.natAbs * excess divisor p ≤ (divisor - n.natAbs % divisor) * 2 ^ p) :
    towardZero ((magic divisor p : Int) * n / 2 ^ p) = n.tdiv divisor := by
  rcases le_or_gt 0 n with nonnegative | negative
  · obtain ⟨m, rfl⟩ := Int.eq_ofNat_of_zero_le nonnegative
    have floorTest' := floorTest nonnegative
    rw [Int.natAbs_natCast] at floorTest'
    have exact := mul_magic_div positive floorTest'
    have lifted : (magic divisor p : Int) * m / 2 ^ p = (m / divisor : Nat) := by
      rw [← exact, Int.natCast_ediv, Nat.mul_comm]
      push_cast
      rfl
    rw [lifted, towardZero, if_neg (Int.not_lt.mpr (Int.natCast_nonneg _)), Int.ofNat_tdiv]
  · obtain ⟨m, rfl⟩ := Int.exists_eq_neg_ofNat (Int.le_of_lt negative)
    have nonzero : 0 < m := by omega
    have ceilTest' := ceilTest negative
    rw [Int.natAbs_neg, Int.natAbs_natCast] at ceilTest'
    have exact := mul_magic_sub_one_div positive nonzero ceilTest'
    have product : 0 < m * magic divisor p := Nat.mul_pos nonzero (Nat.succ_pos _)
    have lifted : (magic divisor p : Int) * -(m : Int) / 2 ^ p = -((m / divisor : Nat) : Int) - 1 := by
      rw [Int.mul_neg, show (magic divisor p : Int) * m = ((m * magic divisor p : Nat) : Int) by
          push_cast; ring,
        neg_ediv_of_pos product (by positivity), ← exact]
      push_cast
      rfl
    have quotientNonnegative : (0 : Int) ≤ ((m / divisor : Nat) : Int) := Int.natCast_nonneg _
    rw [lifted, towardZero, if_pos (by omega), Int.neg_tdiv, ← Int.ofNat_tdiv]
    omega

end Magic

/-! ## The search for the shift -/

section Search

variable {divisor p nc : Nat}

/-- Doubling a dividend doubles its quotient and remainder, and carries one
into the quotient when the doubled remainder reaches the divisor. -/
theorem two_mul_div_mod {divisor : Nat} (positive : 0 < divisor) (x : Nat) :
    2 * x / divisor = (if divisor ≤ 2 * (x % divisor) then 2 * (x / divisor) + 1 else 2 * (x / divisor)) ∧
    2 * x % divisor = (if divisor ≤ 2 * (x % divisor) then 2 * (x % divisor) - divisor else 2 * (x % divisor)) := by
  have split := Nat.div_add_mod x divisor
  have below := Nat.mod_lt x positive
  have doubled : divisor * (2 * (x / divisor)) = 2 * (divisor * (x / divisor)) :=
    Nat.mul_left_comm _ _ _
  split
  · exact (Nat.div_mod_unique positive).mpr ⟨by rw [Nat.mul_add, Nat.mul_one]; omega, by omega⟩
  · exact (Nat.div_mod_unique positive).mpr ⟨by omega, by omega⟩

/-- The loop condition of the search, on the quotient and remainder of `2 ^ p`
by `nc`: the loop goes on exactly while `2 ^ p ≤ nc * delta`. -/
theorem div_lt_or_exact_iff_le_mul {divisor : Nat} (positive : 0 < divisor) (x delta : Nat) :
    (x / divisor < delta ∨ (x / divisor = delta ∧ x % divisor = 0)) ↔ x ≤ divisor * delta := by
  have split := Nat.div_add_mod x divisor
  have below := Nat.mod_lt x positive
  constructor
  · rintro (smaller | ⟨equal, exact⟩)
    · have : divisor * (x / divisor + 1) ≤ divisor * delta := Nat.mul_le_mul_left _ smaller
      rw [Nat.mul_add, Nat.mul_one] at this
      omega
    · rw [← equal]
      omega
  · intro atMost
    have quotientLe : x / divisor ≤ delta := by
      by_contra larger
      have : divisor * (delta + 1) ≤ divisor * (x / divisor) := Nat.mul_le_mul_left _ (by omega)
      rw [Nat.mul_add, Nat.mul_one] at this
      omega
    rcases Nat.lt_or_eq_of_le quotientLe with smaller | equal
    · exact Or.inl smaller
    · refine Or.inr ⟨equal, ?_⟩
      rw [equal] at split
      omega

/-- Every numerator below `nc + divisor` passes the floor test once `nc`, of
remainder `divisor - 1`, passes the search's test. -/
theorem floorTest_of_lt (aligned : (nc + 1) % divisor = 0) (large : divisor ≤ nc + 1)
    (test : nc * excess divisor p < 2 ^ p) {m : Nat} (below : m < nc + divisor) :
    m * excess divisor p < (divisor - m % divisor) * 2 ^ p := by
  have positive : 0 < divisor := Nat.pos_of_ne_zero fun zero => by simp [zero] at aligned
  have remainderBelow := Nat.mod_lt m positive
  by_cases early : m ≤ nc
  · calc m * excess divisor p ≤ nc * excess divisor p := Nat.mul_le_mul_right _ early
      _ < 2 ^ p := test
      _ ≤ (divisor - m % divisor) * 2 ^ p := Nat.le_mul_of_pos_left _ (by omega)
  · -- past `nc` the remainder restarts from zero at `nc + 1`
    obtain ⟨k, rfl⟩ : ∃ k, m = nc + 1 + k := ⟨m - (nc + 1), by omega⟩
    have remainder : (nc + 1 + k) % divisor = k := by
      rw [Nat.add_mod, aligned, Nat.zero_add, Nat.mod_mod, Nat.mod_eq_of_lt (by omega)]
    have step : (k + 1) * excess divisor p ≤ nc * excess divisor p :=
      Nat.mul_le_mul_right _ (by omega)
    calc (nc + 1 + k) * excess divisor p = nc * excess divisor p + (k + 1) * excess divisor p := by
          ring
      _ < 2 * 2 ^ p := by omega
      _ ≤ (divisor - (nc + 1 + k) % divisor) * 2 ^ p := by
        rw [remainder]
        exact Nat.mul_le_mul_right _ (by omega)

/-- The numerator `2 ^ N` when `divisor` divides `2 ^ N + 1`: the excess is then
at most `2 ^ (p - N)`, so its overshoot is at most `2 ^ p`. -/
theorem pow_mul_excess_le {N : Nat} (divides : (2 ^ N + 1) % divisor = 0) (wide : N ≤ p) :
    2 ^ N * excess divisor p ≤ 2 ^ p := by
  have positive : 0 < divisor := Nat.pos_of_ne_zero fun zero => by simp [zero] at divides
  have split : 2 ^ p = 2 ^ (p - N) * 2 ^ N := by rw [← Nat.pow_add, Nat.sub_add_cancel wide]
  -- both `2 ^ p + excess` and `2 ^ p + 2 ^ (p - N)` are multiples of the divisor
  have withExcess : 2 ^ p + excess divisor p ≡ 0 [MOD divisor] := by
    rw [← magic_mul positive]
    exact (Nat.modEq_zero_iff_dvd).mpr (Dvd.intro_left _ rfl)
  have withPower : 2 ^ p + 2 ^ (p - N) ≡ 0 [MOD divisor] := by
    rw [split, show 2 ^ (p - N) * 2 ^ N + 2 ^ (p - N) = 2 ^ (p - N) * (2 ^ N + 1) by ring]
    exact (Nat.modEq_zero_iff_dvd).mpr (Dvd.dvd.mul_left (Nat.dvd_of_mod_eq_zero divides) _)
  have congruent : excess divisor p ≡ 2 ^ (p - N) [MOD divisor] :=
    Nat.ModEq.add_left_cancel' (2 ^ p) (withExcess.trans withPower.symm)
  have bounded : excess divisor p ≤ 2 ^ (p - N) := by
    rcases Nat.lt_or_ge (excess divisor p) divisor with below | atLeast
    · calc excess divisor p = excess divisor p % divisor := (Nat.mod_eq_of_lt below).symm
        _ = 2 ^ (p - N) % divisor := congruent
        _ ≤ 2 ^ (p - N) := Nat.mod_le _ _
    · have full : excess divisor p = divisor := Nat.le_antisymm excess_le atLeast
      have multiple : 2 ^ (p - N) % divisor = 0 := by
        rw [← show excess divisor p % divisor = 2 ^ (p - N) % divisor from congruent, full,
          Nat.mod_self]
      rw [full]
      exact Nat.le_of_dvd (Nat.two_pow_pos _) (Nat.dvd_of_mod_eq_zero multiple)
  calc 2 ^ N * excess divisor p ≤ 2 ^ N * 2 ^ (p - N) := Nat.mul_le_mul_left _ bounded
    _ = 2 ^ p := by rw [split, Nat.mul_comm]

/-- The ceiling test at the numerator `2 ^ N`, when `divisor` divides `2 ^ N + 1`:
its remainder is then `divisor - 1`. -/
theorem ceilTest_of_pow {N : Nat} (divides : (2 ^ N + 1) % divisor = 0) (wide : N ≤ p) :
    2 ^ N * excess divisor p ≤ (divisor - 2 ^ N % divisor) * 2 ^ p := by
  have positive : 0 < divisor := Nat.pos_of_ne_zero fun zero => by simp [zero] at divides
  have remainderBelow := Nat.mod_lt (2 ^ N) positive
  have last : 2 ^ N % divisor + 1 = divisor := by
    rcases Nat.lt_or_ge (2 ^ N % divisor + 1) divisor with smaller | atLeast
    · rw [← Nat.mod_add_mod, Nat.mod_eq_of_lt smaller] at divides
      omega
    · omega
  rw [show divisor - 2 ^ N % divisor = 1 by omega, Nat.one_mul]
  exact pow_mul_excess_le divides wide

/-- When the test fails at `q`, for a divisor that is not a power of two, the
multiplier of `q + 1` fits in `N + 1` bits. -/
theorem magic_lt_of_not_test {N q : Nat} (notDvd : ¬ divisor ∣ 2 ^ q) (ncBound : nc ≤ 2 ^ N)
    (small : divisor < 2 ^ (N + 1)) (fails : 2 ^ q ≤ nc * excess divisor q) :
    magic divisor (q + 1) < 2 ^ (N + 1) := by
  have positive : 0 < divisor := Nat.pos_of_ne_zero fun zero => by
    simp [zero, excess] at fails
  have remainder : 2 ^ q % divisor ≠ 0 := fun zero => notDvd (Nat.dvd_of_mod_eq_zero zero)
  have tight : excess divisor q + 1 ≤ divisor := by
    rw [excess]
    omega
  -- `2 ^ (q + 1) ≤ 2 * 2 ^ N * (divisor - 1)`, strictly below `(2 ^ (N + 1) - 1) * divisor`
  have doubled : 2 ^ (q + 1) ≤ 2 ^ (N + 1) * (divisor - 1) :=
    calc 2 ^ (q + 1) = 2 * 2 ^ q := by ring
      _ ≤ 2 * (nc * excess divisor q) := Nat.mul_le_mul_left _ fails
      _ ≤ 2 * (2 ^ N * (divisor - 1)) :=
        Nat.mul_le_mul_left _ (Nat.mul_le_mul ncBound (by omega))
      _ = 2 ^ (N + 1) * (divisor - 1) := by ring
  have wordAbove : 2 ^ (N + 1) * (divisor - 1) + 2 ^ (N + 1) = 2 ^ (N + 1) * divisor := by
    rw [← Nat.mul_succ, Nat.succ_eq_add_one, Nat.sub_add_cancel positive]
  have divisorAbove : (2 ^ (N + 1) - 1) * divisor + divisor = 2 ^ (N + 1) * divisor := by
    rw [← Nat.succ_mul, Nat.succ_eq_add_one, Nat.sub_add_cancel (Nat.one_le_two_pow)]
  have strict : 2 ^ (q + 1) < (2 ^ (N + 1) - 1) * divisor := by omega
  have quotient : 2 ^ (q + 1) / divisor < 2 ^ (N + 1) - 1 := (Nat.div_lt_iff_lt_mul positive).mpr strict
  rw [magic]
  omega

theorem magic_first_lt {N : Nat} (atLeastTwo : 2 ≤ divisor) (wide : 1 ≤ N) :
    magic divisor (N + 1) < 2 ^ (N + 1) := by
  have halved : 2 ^ (N + 1) / divisor ≤ 2 ^ (N + 1) / 2 := Nat.div_le_div_left atLeastTwo (by decide)
  have half : 2 ^ (N + 1) / 2 = 2 ^ N := by rw [Nat.pow_succ, Nat.mul_div_cancel _ (by decide)]
  have large : 2 ≤ 2 ^ N := by
    calc 2 = 2 ^ 1 := rfl
      _ ≤ 2 ^ N := Nat.pow_le_pow_right (by decide) wide
  have double : 2 ^ (N + 1) = 2 * 2 ^ N := by rw [Nat.pow_succ, Nat.mul_comm]
  rw [magic]
  omega

end Search

end ArtRuntime.Foundation.InvariantDivision
