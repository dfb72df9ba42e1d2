import Mathlib.Tactic.NormNum

/-! # Products and truncated quotients over integer boxes

For `x` in `[xMin, xMax]` and `y` in `[yMin, yMax]`, where neither range
crosses zero, the product `x * y` and the quotient `x.tdiv y` rounded toward
zero take their least and greatest values at corners of the box. Which corners
depends on the two signs: the product grows with a factor whose partner is
nonnegative and shrinks with it otherwise, and a quotient's magnitude grows
with the dividend's and shrinks with the divisor's. -/

namespace ArtRuntime.Foundation

variable {x xMin xMax y yMin yMax : Int}

section Products

variable (xLow : xMin ≤ x) (xHigh : x ≤ xMax) (yLow : yMin ≤ y) (yHigh : y ≤ yMax)
include xLow xHigh yLow yHigh

theorem mul_mem_of_nonneg_of_nonneg (xNonneg : 0 ≤ xMin) (yNonneg : 0 ≤ yMin) :
    xMin * yMin ≤ x * y ∧ x * y ≤ xMax * yMax := by
  constructor
  · exact Int.mul_le_mul xLow yLow yNonneg (by omega)
  · exact Int.mul_le_mul xHigh yHigh (by omega) (by omega)

theorem mul_mem_of_nonneg_of_nonpos (xNonneg : 0 ≤ xMin) (yNonpos : yMax ≤ 0) :
    xMax * yMin ≤ x * y ∧ x * y ≤ xMin * yMax := by
  constructor
  · calc xMax * yMin ≤ x * yMin := Int.mul_le_mul_of_nonpos_right xHigh (by omega)
      _ ≤ x * y := Int.mul_le_mul_of_nonneg_left yLow (by omega)
  · calc x * y ≤ xMin * y := Int.mul_le_mul_of_nonpos_right xLow (by omega)
      _ ≤ xMin * yMax := Int.mul_le_mul_of_nonneg_left yHigh xNonneg

theorem mul_mem_of_nonpos_of_nonneg (xNonpos : xMax ≤ 0) (yNonneg : 0 ≤ yMin) :
    xMin * yMax ≤ x * y ∧ x * y ≤ xMax * yMin := by
  constructor
  · calc xMin * yMax ≤ xMin * y := Int.mul_le_mul_of_nonpos_left (by omega) yHigh
      _ ≤ x * y := Int.mul_le_mul_of_nonneg_right xLow (by omega)
  · calc x * y ≤ xMax * y := Int.mul_le_mul_of_nonneg_right xHigh (by omega)
      _ ≤ xMax * yMin := Int.mul_le_mul_of_nonpos_left xNonpos yLow

theorem mul_mem_of_nonpos_of_nonpos (xNonpos : xMax ≤ 0) (yNonpos : yMax ≤ 0) :
    xMax * yMax ≤ x * y ∧ x * y ≤ xMin * yMin := by
  constructor
  · calc xMax * yMax ≤ x * yMax := Int.mul_le_mul_of_nonpos_right xHigh yNonpos
      _ ≤ x * y := Int.mul_le_mul_of_nonpos_left (by omega) yHigh
  · calc x * y ≤ xMin * y := Int.mul_le_mul_of_nonpos_right xLow (by omega)
      _ ≤ xMin * yMin := Int.mul_le_mul_of_nonpos_left (by omega) yLow

end Products

section Quotients

theorem ediv_le_ediv_of_le_divisor {a c d : Int} (dividendNonneg : 0 ≤ a) (divisorPos : 0 < c)
    (divisorLe : c ≤ d) : a / d ≤ a / c := by
  apply Int.le_ediv_of_mul_le divisorPos
  calc a / d * c ≤ a / d * d := Int.mul_le_mul_of_nonneg_left divisorLe (Int.ediv_nonneg dividendNonneg (by omega))
    _ ≤ a := Int.ediv_mul_le a (by omega)

/-- The quadrant every other reduces to: a nonnegative dividend over a positive
divisor rounds down, so the quotient grows with the dividend and shrinks with
the divisor. -/
theorem tdiv_le_tdiv_of_nonneg {a b c d : Int} (dividendNonneg : 0 ≤ a) (dividendLe : a ≤ b)
    (divisorPos : 0 < c) (divisorLe : c ≤ d) : a.tdiv d ≤ b.tdiv c := by
  rw [Int.tdiv_eq_ediv_of_nonneg dividendNonneg, Int.tdiv_eq_ediv_of_nonneg (by omega)]
  calc a / d ≤ a / c := ediv_le_ediv_of_le_divisor dividendNonneg divisorPos divisorLe
    _ ≤ b / c := Int.ediv_le_ediv divisorPos dividendLe

theorem tdiv_eq_neg_tdiv_neg (a c : Int) : a.tdiv c = -(a.tdiv (-c)) := by
  rw [Int.tdiv_neg, Int.neg_neg]

theorem tdiv_eq_neg_neg_tdiv (a c : Int) : a.tdiv c = -((-a).tdiv c) := by
  rw [Int.neg_tdiv, Int.neg_neg]

theorem tdiv_le_tdiv_of_neg {a b c : Int} (divisorNeg : c < 0) (dividendLe : a ≤ b) :
    b.tdiv c ≤ a.tdiv c := by
  rw [tdiv_eq_neg_tdiv_neg b c, tdiv_eq_neg_tdiv_neg a c]
  have quotients := Int.tdiv_le_tdiv (by omega : 0 < -c) dividendLe
  omega

variable (xLow : xMin ≤ x) (xHigh : x ≤ xMax) (yLow : yMin ≤ y) (yHigh : y ≤ yMax)
include xLow xHigh yLow yHigh

theorem tdiv_mem_of_nonneg_of_pos (xNonneg : 0 ≤ xMin) (yPos : 0 < y) :
    xMin.tdiv yMax ≤ x.tdiv y ∧ (0 < yMin → x.tdiv y ≤ xMax.tdiv yMin) := by
  constructor
  · exact tdiv_le_tdiv_of_nonneg xNonneg xLow yPos yHigh
  · intro yMinPos
    exact tdiv_le_tdiv_of_nonneg (by omega) xHigh yMinPos yLow

theorem tdiv_mem_of_nonneg_of_neg (xNonneg : 0 ≤ xMin) (yNeg : y < 0) :
    (yMax < 0 → xMax.tdiv yMax ≤ x.tdiv y) ∧ x.tdiv y ≤ xMin.tdiv yMin := by
  rw [tdiv_eq_neg_tdiv_neg x y, tdiv_eq_neg_tdiv_neg xMax yMax, tdiv_eq_neg_tdiv_neg xMin yMin]
  constructor
  · intro yMaxNeg
    have quotients := tdiv_le_tdiv_of_nonneg (by omega) xHigh (by omega : 0 < -yMax) (by omega : -yMax ≤ -y)
    omega
  · have quotients := tdiv_le_tdiv_of_nonneg xNonneg xLow (by omega : 0 < -y) (by omega : -y ≤ -yMin)
    omega

theorem tdiv_mem_of_nonpos_of_pos (xNonpos : xMax ≤ 0) (yPos : 0 < y) :
    (0 < yMin → xMin.tdiv yMin ≤ x.tdiv y) ∧ x.tdiv y ≤ xMax.tdiv yMax := by
  rw [tdiv_eq_neg_neg_tdiv x y, tdiv_eq_neg_neg_tdiv xMin yMin, tdiv_eq_neg_neg_tdiv xMax yMax]
  constructor
  · intro yMinPos
    have quotients := tdiv_le_tdiv_of_nonneg (by omega) (by omega : -x ≤ -xMin) yMinPos yLow
    omega
  · have quotients := tdiv_le_tdiv_of_nonneg (by omega) (by omega : -xMax ≤ -x) yPos yHigh
    omega

theorem tdiv_mem_of_nonpos_of_neg (xNonpos : xMax ≤ 0) (yNeg : y < 0) :
    xMax.tdiv yMin ≤ x.tdiv y ∧ (yMax < 0 → x.tdiv y ≤ xMin.tdiv yMax) := by
  -- Both signs negative: the quotient is that of the two magnitudes.
  rw [← Int.neg_tdiv_neg x y, ← Int.neg_tdiv_neg xMax yMin, ← Int.neg_tdiv_neg xMin yMax]
  constructor
  · exact tdiv_le_tdiv_of_nonneg (by omega) (by omega) (by omega) (by omega)
  · intro yMaxNeg
    exact tdiv_le_tdiv_of_nonneg (by omega) (by omega) (by omega) (by omega)

end Quotients

end ArtRuntime.Foundation
