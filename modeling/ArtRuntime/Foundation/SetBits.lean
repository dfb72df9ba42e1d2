import Mathlib.Data.Nat.Bitwise
import ArtRuntime.Foundation.WordLoop

/-! # Visiting the set bits of a word

`while (word != 0) { shift = lowest(word); visit(shift); word ^= 1 << shift; }`
on a `w`-bit word, where `lowest` finds the lowest set bit: it visits the set
bits in increasing order, each once, and `w` iterations are enough for any
word. Masks `(1 << k) - 1` and their complements select the bits below and
from `k` on. -/

namespace ArtRuntime.Foundation

variable {w : Nat}

/-- `shift` is the lowest set bit of `word`. -/
def IsLowestSetBit (word : BitVec w) (shift : Nat) : Prop :=
  shift < w ∧ word.getLsbD shift = true ∧ ∀ i < shift, word.getLsbD i = false

/-- `while (word != 0) { shift = lowest(word); visit(shift); word ^= 1 << shift; }`:
the shifts visited, in at most `fuel` iterations. -/
def visitSetBits (lowest : BitVec w → Nat) : Nat → BitVec w → List Nat
  | 0, _ => []
  | fuel + 1, word =>
      if word = 0 then []
      else lowest word :: visitSetBits lowest fuel (word ^^^ ((1 : BitVec w) <<< lowest word))

theorem getLsbD_one_shiftLeft {shift i : Nat} (below : shift < w) :
    ((1 : BitVec w) <<< shift).getLsbD i = decide (i = shift) := by
  rw [BitVec.getLsbD_shiftLeft]
  by_cases same : i = shift
  · subst same
    simp [below, show 0 < w by omega]
  · by_cases before : i < shift
    · simp [before, same]
    · have after : i - shift ≠ 0 := by omega
      simp [same, after]

theorem getLsbD_one_shiftLeft_sub_one {k i : Nat} (below : k < w) :
    (((1 : BitVec w) <<< k) - 1).getLsbD i = decide (i < k) := by
  have one : (1 : BitVec w).toNat = 1 := by
    simp [Nat.one_mod_two_pow (show 0 < w by omega)]
  have power : ((1 : BitVec w) <<< k).toNat = 2 ^ k := by
    rw [BitVec.toNat_shiftLeft, one, Nat.one_shiftLeft]
    exact Nat.mod_eq_of_lt (Nat.pow_lt_pow_right (by decide) below)
  have ordered : (1 : BitVec w) ≤ (1 : BitVec w) <<< k := by
    rw [BitVec.le_def, one, power]
    exact Nat.one_le_two_pow
  rw [BitVec.getLsbD, BitVec.toNat_sub_of_le ordered, power, one, Nat.testBit_two_pow_sub_one]

theorem getLsbD_xor_one_shiftLeft {word : BitVec w} {shift i : Nat} (below : shift < w) :
    (word ^^^ ((1 : BitVec w) <<< shift)).getLsbD i = (word.getLsbD i ^^ decide (i = shift)) := by
  rw [BitVec.getLsbD_xor, getLsbD_one_shiftLeft below]

theorem getLsbD_and_not_mask {x : BitVec w} {k i : Nat} (below : k < w) (inside : i < w) :
    (x &&& ~~~(((1 : BitVec w) <<< k) - 1)).getLsbD i = (x.getLsbD i && decide (k ≤ i)) := by
  rw [BitVec.getLsbD_and, BitVec.getLsbD_not, getLsbD_one_shiftLeft_sub_one below]
  by_cases before : i < k
  · simp [before, show ¬ k ≤ i by omega]
  · simp [before, inside, show k ≤ i by omega]

theorem getLsbD_and_mask {x : BitVec w} {k i : Nat} (below : k < w) :
    (x &&& (((1 : BitVec w) <<< k) - 1)).getLsbD i = (x.getLsbD i && decide (i < k)) := by
  rw [BitVec.getLsbD_and, getLsbD_one_shiftLeft_sub_one below]

section Visit

variable {lowest : BitVec w → Nat} (lowestCorrect : ∀ word : BitVec w, word ≠ 0 → IsLowestSetBit word (lowest word))
include lowestCorrect

/-- From a word whose bits below `low` are clear, with an iteration for every
position from `low` on, the loop visits the set bits from `low` on. -/
theorem visitSetBits_eq_filter_range' {fuel low : Nat} {word : BitVec w} (clear : ∀ i < low, word.getLsbD i = false)
    (enough : w - low ≤ fuel) :
    visitSetBits lowest fuel word = (List.range' low (w - low)).filter word.getLsbD := by
  -- Induction on the fuel, with the word and the position below which its bits are clear.
  induction fuel generalizing word low with
  | zero => simp [visitSetBits, show w - low = 0 by omega]
  | succ fuel induction =>
    by_cases zero : word = 0
    · subst zero
      simp [visitSetBits]
    · obtain ⟨below, set, lower⟩ := lowestCorrect word zero
      have atLeast : low ≤ lowest word := by
        by_contra before
        rw [clear (lowest word) (by omega)] at set
        exact Bool.false_ne_true set
      have cleared : ∀ i < lowest word + 1, (word ^^^ ((1 : BitVec w) <<< lowest word)).getLsbD i = false := by
        intro i before
        rw [getLsbD_xor_one_shiftLeft below]
        by_cases same : i = lowest word
        · simp [same, set]
        · simp [same, lower i (by omega)]
      have split : List.range' low (w - low) =
          List.range' low (lowest word - low) ++ lowest word :: List.range' (lowest word + 1) (w - (lowest word + 1)) := by
        rw [← List.range'_succ, show w - (lowest word + 1) + 1 = w - lowest word by omega,
          range'_append_range' atLeast (le_of_lt below)]
      rw [visitSetBits, if_neg zero, induction cleared (by omega), split, List.filter_append, List.filter_cons_of_pos set]
      -- Below the lowest set bit nothing is set; above it, the cleared word agrees with the word.
      have none : (List.range' low (lowest word - low)).filter word.getLsbD = [] := by
        rw [List.filter_eq_nil_iff]
        intro i member
        rw [List.mem_range'_1] at member
        simp [lower i (by omega)]
      have same : (List.range' (lowest word + 1) (w - (lowest word + 1))).filter
          (word ^^^ ((1 : BitVec w) <<< lowest word)).getLsbD =
          (List.range' (lowest word + 1) (w - (lowest word + 1))).filter word.getLsbD := by
        apply List.filter_congr
        intro i member
        rw [List.mem_range'_1] at member
        rw [getLsbD_xor_one_shiftLeft below]
        simp [show i ≠ lowest word by omega]
      rw [none, same, List.nil_append]

/-- With an iteration for each bit of the word, the loop visits its set bits in
increasing order. -/
theorem visitSetBits_eq_filter {fuel : Nat} (enough : w ≤ fuel) (word : BitVec w) :
    visitSetBits lowest fuel word = (List.range w).filter word.getLsbD := by
  rw [@visitSetBits_eq_filter_range' w lowest lowestCorrect fuel 0 word (by simp) (by omega), List.range_eq_range']
  rfl

end Visit

theorem filter_range_eq_filter_range' {word : BitVec w} {keep : Nat → Bool} {a b : Nat} (within : b ≤ w)
    (agree : ∀ i < w, keep i = (word.getLsbD i && decide (a ≤ i) && decide (i < b))) :
    (List.range w).filter keep = (List.range' a (b - a)).filter word.getLsbD := by
  rw [List.range_eq_range']
  by_cases ordered : a ≤ b
  · -- Cut the word at `a` and at `b`: the mask keeps only the middle part.
    have cut : List.range' 0 w = List.range' 0 a ++ (List.range' a (b - a) ++ List.range' b (w - b)) := by
      rw [range'_append_range' ordered within]
      exact (range'_append_range' (Nat.zero_le a) (le_trans ordered within)).symm
    rw [cut, List.filter_append, List.filter_append]
    have before : (List.range' 0 a).filter keep = [] := by
      rw [List.filter_eq_nil_iff]
      intro i member
      rw [List.mem_range'_1] at member
      simp [agree i (by omega), show ¬ a ≤ i by omega]
    have after : (List.range' b (w - b)).filter keep = [] := by
      rw [List.filter_eq_nil_iff]
      intro i member
      rw [List.mem_range'_1] at member
      simp [agree i (by omega), show ¬ i < b by omega]
    have middle : (List.range' a (b - a)).filter keep = (List.range' a (b - a)).filter word.getLsbD := by
      apply List.filter_congr
      intro i member
      rw [List.mem_range'_1] at member
      simp [agree i (by omega), show a ≤ i by omega, show i < b by omega]
    rw [before, after, middle, List.nil_append, List.append_nil]
  · rw [show b - a = 0 by omega, List.range'_zero, List.filter_nil, List.filter_eq_nil_iff]
    intro i member
    rw [List.mem_range'_1] at member
    simp only [agree i (by omega), Bool.and_eq_true, decide_eq_true_eq, not_and]
    omega

end ArtRuntime.Foundation
