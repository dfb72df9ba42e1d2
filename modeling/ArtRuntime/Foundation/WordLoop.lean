import Mathlib

/-! # Counted loops over machine words

`for (i = lo; !(i >=u hi); i = next(i))` on `w`-bit words, run for at most
`fuel` iterations: the index of each iteration, and the index the loop leaves.
With `next` adding a nonzero `step`, a loop whose `hi - lo` is a multiple of
`step` runs `(hi - lo) / step` times, its indices are `lo, lo + step, …` with
no wrap-around, and it leaves `hi`; a loop with `hi ≤ lo` does not run. -/

namespace ArtRuntime.Foundation

variable {w : Nat}

/-- The iterations of `for (i = lo; !(i >=u hi); i = next(i))`, at most `fuel`
of them, and the index the loop leaves. -/
def wordLoop (hi : BitVec w) (next : BitVec w → BitVec w) : Nat → BitVec w → List (BitVec w) × BitVec w
  | 0, i => ([], i)
  | fuel + 1, i =>
      if hi ≤ i then ([], i)
      else
        let rest := wordLoop hi next fuel (next i)
        (i :: rest.1, rest.2)

theorem wordLoop_of_le {hi i : BitVec w} (next : BitVec w → BitVec w) (fuel : Nat) (done : hi ≤ i) :
    wordLoop hi next fuel i = ([], i) := by
  cases fuel with
  | zero => rfl
  | succ fuel => simp [wordLoop, done]

theorem toNat_add_of_le {i step hi : BitVec w} (within : i.toNat + step.toNat ≤ hi.toNat) :
    (i + step).toNat = i.toNat + step.toNat := by
  have bound := hi.isLt
  rw [BitVec.toNat_add, Nat.mod_eq_of_lt (by omega)]

/-- A loop whose distance to its bound is a multiple of its step runs once for
each multiple and leaves the bound. -/
theorem wordLoop_add {lo hi step : BitVec w} {fuel : Nat} (positive : 0 < step.toNat)
    (below : lo.toNat ≤ hi.toNat) (divides : step.toNat ∣ hi.toNat - lo.toNat)
    (enough : (hi.toNat - lo.toNat) / step.toNat ≤ fuel) :
    (wordLoop hi (· + step) fuel lo).1.map BitVec.toNat =
        List.range' lo.toNat ((hi.toNat - lo.toNat) / step.toNat) step.toNat ∧
      (wordLoop hi (· + step) fuel lo).2 = hi := by
  obtain ⟨count, distance⟩ := divides
  have iterations : (hi.toNat - lo.toNat) / step.toNat = count := by
    rw [distance, Nat.mul_div_cancel_left count positive]
  rw [iterations] at enough ⊢
  clear iterations
  -- Induction on the number of iterations left, with the loop's index and fuel.
  induction count generalizing lo fuel with
  | zero =>
    have equal : lo = hi := BitVec.eq_of_toNat_eq (by simp at distance; omega)
    subst equal
    simp [wordLoop_of_le _ _ (BitVec.le_refl lo)]
  | succ count induction =>
    obtain ⟨fuel, rfl⟩ : ∃ rest, fuel = rest + 1 := ⟨fuel - 1, by omega⟩
    have expanded : hi.toNat - lo.toNat = step.toNat * count + step.toNat := by rw [distance, Nat.mul_succ]
    have notDone : ¬ hi ≤ lo := by
      rw [BitVec.le_def]
      omega
    have advanced : (lo + step).toNat = lo.toNat + step.toNat := @toNat_add_of_le w lo step hi (by omega)
    have rest := @induction (lo + step) fuel (by rw [advanced]; omega) (by omega) (by rw [advanced]; omega)
    simp only [wordLoop, notDone, if_false, List.map_cons, List.range'_succ]
    rw [rest.1, rest.2, advanced]
    exact ⟨rfl, rfl⟩

/-- A loop stepping by one from `lo` up to `hi` runs once for each index in
between. -/
theorem wordLoop_add_one {lo hi : BitVec w} {fuel : Nat} (wide : 0 < w) (below : lo.toNat ≤ hi.toNat)
    (enough : hi.toNat - lo.toNat ≤ fuel) :
    (wordLoop hi (· + 1) fuel lo).1.map BitVec.toNat = List.range' lo.toNat (hi.toNat - lo.toNat) ∧
      (wordLoop hi (· + 1) fuel lo).2 = hi := by
  have one : (1 : BitVec w).toNat = 1 := by simp [Nat.one_mod_two_pow wide]
  have loop := @wordLoop_add w lo hi 1 fuel (by omega) below (by rw [one]; exact Nat.one_dvd _)
    (by rw [one, Nat.div_one]; exact enough)
  rwa [one, Nat.div_one] at loop

/-- Masking a word with `2 ^ k - 1` keeps its remainder modulo `2 ^ k`, also
for a mask as wide as the word or wider. -/
theorem toNat_and_ofNat_two_pow_sub_one (x : BitVec w) (k : Nat) :
    (x &&& BitVec.ofNat w (2 ^ k - 1)).toNat = x.toNat % 2 ^ k := by
  rw [BitVec.toNat_and, BitVec.toNat_ofNat]
  apply Nat.eq_of_testBit_eq
  intro i
  rw [Nat.testBit_and, Nat.testBit_mod_two_pow, Nat.testBit_mod_two_pow, Nat.testBit_two_pow_sub_one]
  -- A bit of the word at or above its width is clear.
  by_cases inside : i < w
  · simp [inside, Bool.and_comm]
  · have clear : x.toNat.testBit i = false :=
      Nat.testBit_lt_two_pow (lt_of_lt_of_le x.isLt (Nat.pow_le_pow_right (by decide) (by omega)))
    simp [clear]

theorem range'_append_range' {a b c : Nat} (ab : a ≤ b) (bc : b ≤ c) :
    List.range' a (b - a) ++ List.range' b (c - b) = List.range' a (c - a) := by
  have joined := @List.range'_append a (b - a) (c - b) 1
  rwa [show a + 1 * (b - a) = b by omega, show b - a + (c - b) = c - a by omega] at joined

theorem flatMap_range'_range' (lo count c : Nat) :
    (List.range' lo count c).flatMap (fun start => List.range' start c) = List.range' lo (count * c) := by
  induction count generalizing lo with
  | zero => simp
  | succ count induction =>
    rw [List.range'_succ, List.flatMap_cons, induction, Nat.succ_mul, Nat.add_comm (count * c) c,
      ← List.range'_append]
    simp

/-- Runs of `c` consecutive numbers from `lo + c * k` for `k < count` make one
run. -/
theorem flatMap_range_range' (lo count c : Nat) :
    (List.range count).flatMap (fun k => List.range' (lo + c * k) c) = List.range' lo (count * c) := by
  induction count with
  | zero => simp
  | succ count induction =>
    rw [List.range_succ, List.flatMap_append, induction, Nat.succ_mul, ← List.range'_append]
    simp [Nat.mul_comm]

end ArtRuntime.Foundation
