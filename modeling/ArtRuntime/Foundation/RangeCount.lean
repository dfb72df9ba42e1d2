import Mathlib.Data.List.Range

/-! # Counting over a range of indices

`countIn p low high` is the number of indices in `[low, high)` that satisfy
`p`: what a loop `for (i = low; i != high; ++i) if (p(i)) count++;` computes.
The lemmas say how the count moves when the range grows or splits, when the
predicate changes at one index, and what a count of zero or a positive count
says about the indices. -/

namespace ArtRuntime.Foundation

/-- The indices in `[low, high)` that satisfy `p`. -/
def countIn (p : Nat → Bool) (low high : Nat) : Nat :=
  (List.range' low (high - low)).countP p

namespace countIn

variable {p q : Nat → Bool} {low middle high : Nat}

@[simp] theorem self (p : Nat → Bool) (low : Nat) : countIn p low low = 0 := by
  simp [countIn]

theorem split (lowLe : low ≤ middle) (middleLe : middle ≤ high) :
    countIn p low high = countIn p low middle + countIn p middle high := by
  have lengths : high - low = (middle - low) + (high - middle) := by omega
  have start : low + 1 * (middle - low) = middle := by omega
  rw [countIn, lengths, ← List.range'_append, List.countP_append, start]
  rfl

theorem succ_right (p : Nat → Bool) (lowLe : low ≤ high) :
    countIn p low (high + 1) = countIn p low high + if p high then 1 else 0 := by
  rw [split lowLe (Nat.le_succ high)]
  have single : high + 1 - high = 1 := by omega
  simp only [countIn, single, List.range'_one, List.countP_singleton]

theorem congr (agree : ∀ index, low ≤ index → index < high → p index = q index) :
    countIn p low high = countIn q low high := by
  apply List.countP_congr
  intro index member
  have inside := List.mem_range'_1.mp member
  rw [agree index inside.1 (by omega)]

theorem eq_zero_iff : countIn p low high = 0 ↔ ∀ index, low ≤ index → index < high → p index = false := by
  rw [countIn, List.countP_eq_zero]
  constructor
  · intro none index lowLe lt
    have member : index ∈ List.range' low (high - low) := List.mem_range'_1.mpr ⟨lowLe, by omega⟩
    simpa using none index member
  · intro none index member
    have inside := List.mem_range'_1.mp member
    simp [none index inside.1 (by omega)]

theorem exists_of_pos (positive : 0 < countIn p low high) :
    ∃ index, low ≤ index ∧ index < high ∧ p index = true := by
  rw [countIn, List.countP_pos_iff] at positive
  obtain ⟨index, member, holds⟩ := positive
  have inside := List.mem_range'_1.mp member
  exact ⟨index, inside.1, by omega, holds⟩

theorem of_flip (lowLe : low ≤ index) (lt : index < high) (before : p index = false)
    (after : q index = true) (agree : ∀ other, other ≠ index → p other = q other) :
    countIn q low high = countIn p low high + 1 := by
  rw [split lowLe (Nat.le_of_lt lt), split lowLe (Nat.le_of_lt lt),
    split (Nat.le_add_right index 1) lt, split (Nat.le_add_right index 1) lt]
  have below : countIn q low index = countIn p low index :=
    congr fun other _ lt' => (agree other (by omega)).symm
  have above : countIn q (index + 1) high = countIn p (index + 1) high :=
    congr fun other lowLe' _ => (agree other (by omega)).symm
  have atIndex : ∀ r : Nat → Bool, countIn r index (index + 1) = if r index then 1 else 0 := by
    intro r
    rw [succ_right r (Nat.le_refl index), self]
    simp
  rw [below, above, atIndex, atIndex, before, after]
  simp only [Bool.false_eq_true, if_false, if_true]
  omega

end countIn

end ArtRuntime.Foundation
