import Mathlib.Data.Nat.Find

/-! # Slots on a cycle

The slots `0, ..., n - 1` of a table that wraps around from its last slot to
slot `0`. `cyclicNext n i` is the slot after `i`, and `cyclicDist n a b` the
number of steps that lead from `a` to `b`. A cyclic interval starting at `a` is
a bound on the distance from `a`: `s` lies in `[a, b)` when
`cyclicDist n a s < cyclicDist n a b`. Both functions are written with an `if`
against `n` rather than with `%`, so that `omega` decides their facts.

`cyclicSearch n p fuel a` walks the slots from `a` on, at most `fuel` of them,
and stops at the first that satisfies `p`: the loop of every probe of a table
with linear probing. `cyclicSearch_eq_of_first` and `cyclicSearch_exists` say
where it stops. -/

namespace ArtRuntime.Foundation

/-- The slot after `i` on a cycle of `n` slots. -/
def cyclicNext (n i : Nat) : Nat := if n ≤ i + 1 then 0 else i + 1

/-- The number of steps from slot `a` to slot `b` on a cycle of `n` slots. -/
def cyclicDist (n a b : Nat) : Nat := if a ≤ b then b - a else b + n - a

section

variable {n a b c : Nat}

theorem cyclicNext_lt (ha : a < n) : cyclicNext n a < n := by
  unfold cyclicNext; split <;> omega

@[simp] theorem cyclicDist_self (n a : Nat) : cyclicDist n a a = 0 := by
  simp [cyclicDist]

theorem cyclicDist_lt (ha : a < n) (hb : b < n) : cyclicDist n a b < n := by
  unfold cyclicDist; split <;> omega

theorem cyclicDist_eq_zero_iff (ha : a < n) : cyclicDist n a b = 0 ↔ a = b := by
  unfold cyclicDist; split <;> omega

theorem cyclicDist_pos (ha : a < n) (different : a ≠ b) : 0 < cyclicDist n a b := by
  unfold cyclicDist; split <;> omega

theorem cyclicDist_next_left (ha : a < n) (hb : b < n) (different : a ≠ b) :
    cyclicDist n (cyclicNext n a) b + 1 = cyclicDist n a b := by
  unfold cyclicDist cyclicNext; split <;> split <;> split <;> omega

theorem cyclicDist_next_right (ha : a < n) (hb : b < n) (room : cyclicDist n a b + 1 < n) :
    cyclicDist n a (cyclicNext n b) = cyclicDist n a b + 1 := by
  unfold cyclicDist cyclicNext at *; split_ifs at * <;> omega

theorem cyclicDist_add (ha : a < n) (hb : b < n)
    (short : cyclicDist n a b + cyclicDist n b c < n) :
    cyclicDist n a c = cyclicDist n a b + cyclicDist n b c := by
  unfold cyclicDist at *; split_ifs at * <;> omega

theorem cyclicDist_inj (ha : a < n) (hb : b < n) (hc : c < n)
    (same : cyclicDist n a b = cyclicDist n a c) : b = c := by
  unfold cyclicDist at same; split_ifs at same <;> omega

theorem cyclicDist_add_back (ha : a < n) (hb : b < n) (different : a ≠ b) :
    cyclicDist n a b + cyclicDist n b a = n := by
  unfold cyclicDist; split <;> split <;> omega

/-- A slot `b` unwrapped past the start `a` (moved up by `n` when it lies below
`a`) is `a` plus the way from `a` to `b`. -/
theorem unwrap_eq_add_cyclicDist (ha : a < n) (b : Nat) :
    (if b < a then b + n else b) = a + cyclicDist n a b := by
  unfold cyclicDist; split <;> split <;> omega

theorem cyclicDist_sub_of_lt (ha : a < n) (hb : b < n) (hc : c < n)
    (before : cyclicDist n a b < cyclicDist n a c) :
    cyclicDist n b c = cyclicDist n a c - cyclicDist n a b := by
  unfold cyclicDist at *; split_ifs at * <;> omega

theorem exists_first_cyclic (p : Nat → Prop) [DecidablePred p] {j : Nat}
    (hj : j < n) (pj : p j) :
    ∃ k < n, p k ∧ ∀ s < n, cyclicDist n a s < cyclicDist n a k → ¬ p s := by
  have found : ∃ d, ∃ k < n, cyclicDist n a k = d ∧ p k := ⟨_, j, hj, rfl, pj⟩
  obtain ⟨k, hk, distance, pk⟩ := Nat.find_spec found
  refine ⟨k, hk, pk, fun s hs closer ps => ?_⟩
  exact Nat.find_min found (distance ▸ closer) ⟨s, hs, rfl, ps⟩

end

/-- The walk from slot `a` over at most `fuel` slots that stops at the first
slot satisfying `p`; `none` when the fuel runs out first. -/
def cyclicSearch (n : Nat) (p : Nat → Bool) : (fuel a : Nat) → Option Nat
  | 0, _ => none
  | fuel + 1, a => if p a then some a else cyclicSearch n p fuel (cyclicNext n a)

section

variable {n : Nat} {p : Nat → Bool}

/-- The walk stops at `k` when `k` satisfies `p`, no slot before it on the way
from `a` does, and the fuel reaches it. -/
theorem cyclicSearch_eq_of_first {k : Nat} (hk : k < n) (pk : p k = true) :
    ∀ {fuel a : Nat}, a < n → (∀ s < n, cyclicDist n a s < cyclicDist n a k → p s = false) →
      cyclicDist n a k < fuel → cyclicSearch n p fuel a = some k := by
  intro fuel
  induction fuel with
  | zero => intro a _ _ enough; omega
  | succ fuel ih =>
    intro a ha before enough
    by_cases atStart : a = k
    · subst atStart
      simp [cyclicSearch, pk]
    · -- The start is passed over, and the way to `k` is one step shorter from the next slot.
      have startFails : p a = false :=
        before a ha (by rw [cyclicDist_self]; exact cyclicDist_pos ha atStart)
      have shorter := cyclicDist_next_left ha hk atStart
      simp only [cyclicSearch, startFails]
      refine ih (cyclicNext_lt ha) ?_ (by omega)
      intro s hs closer
      by_cases sIsStart : s = a
      · exact sIsStart ▸ startFails
      · have := cyclicDist_next_left ha hs (Ne.symm sIsStart)
        exact before s hs (by omega)

/-- Some slot satisfies `p`, so the walk of `n` slots from `a` stops, at the
first slot on the way that satisfies `p`. -/
theorem cyclicSearch_exists {a j : Nat} (ha : a < n) (hj : j < n) (pj : p j = true) :
    ∃ k < n, cyclicSearch n p n a = some k ∧ p k = true ∧
      ∀ s < n, cyclicDist n a s < cyclicDist n a k → p s = false := by
  obtain ⟨k, hk, pk, first⟩ := exists_first_cyclic (fun s => p s = true) (a := a) hj pj
  have before : ∀ s < n, cyclicDist n a s < cyclicDist n a k → p s = false :=
    fun s hs closer => by simpa using first s hs closer
  exact ⟨k, hk, cyclicSearch_eq_of_first hk pk ha before (cyclicDist_lt ha hk), pk, before⟩

end

end ArtRuntime.Foundation
