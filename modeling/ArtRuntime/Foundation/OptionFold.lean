import Mathlib

/-! # Folds in `Option` that return

Rules for loops written as `List.foldlM` in `Option` and as `List.foldl`: a loop
whose every step returns and keeps an invariant returns with the invariant of all
its items. For a loop over the positions `List.range n` the invariant may name the
position reached, and the rest of a `do` block after the loop is checked on the
state the loop leaves.
-/

namespace ArtRuntime.Foundation

/-- A loop over `items` whose every step returns and keeps an invariant of the
items done returns, with the invariant of all of them. -/
theorem exists_foldlM_eq_some {α β : Type} {step : β → α → Option β} (invariant : List α → β → Prop)
    (preserved : ∀ done item state, invariant done state →
      ∃ next, step state item = some next ∧ invariant (done ++ [item]) next) :
    ∀ (items done : List α) (state : β), invariant done state →
      ∃ final, items.foldlM step state = some final ∧ invariant (done ++ items) final
  | [], done, state, holds => ⟨state, rfl, by simpa using holds⟩
  | item :: items, done, state, holds => by
    obtain ⟨next, stepped, nextHolds⟩ := preserved done item state holds
    obtain ⟨final, folded, finalHolds⟩ :=
      exists_foldlM_eq_some invariant preserved items (done ++ [item]) next nextHolds
    refine ⟨final, ?_, by simpa using finalHolds⟩
    rw [List.foldlM_cons, stepped, Option.bind_eq_bind, Option.bind_some]
    exact folded

theorem foldl_invariant {α β : Type} {step : β → α → β} (invariant : List α → β → Prop)
    (preserved : ∀ done item state, invariant done state → invariant (done ++ [item]) (step state item)) :
    ∀ (items done : List α) (state : β), invariant done state →
      invariant (done ++ items) (items.foldl step state)
  | [], done, state, holds => by simpa using holds
  | item :: items, done, state, holds => by
    simpa using foldl_invariant invariant preserved items (done ++ [item]) (step state item)
      (preserved done item state holds)

/-- A loop over the positions below `n` whose every step returns and keeps an
invariant of the position reached returns, with the invariant at `n`. -/
theorem exists_foldlM_range_eq_some {β : Type} {step : β → Nat → Option β} (invariant : Nat → β → Prop)
    (n : Nat) (preserved : ∀ position < n, ∀ state, invariant position state →
      ∃ next, step state position = some next ∧ invariant (position + 1) next)
    (state : β) (holds : invariant 0 state) :
    ∃ final, (List.range n).foldlM step state = some final ∧ invariant n final := by
  induction n with
  | zero => exact ⟨state, rfl, holds⟩
  | succ n induction =>
    obtain ⟨middle, folded, middleHolds⟩ :=
      induction fun position bound => preserved position (Nat.lt_succ_of_lt bound)
    obtain ⟨final, stepped, finalHolds⟩ := preserved n (Nat.lt_succ_self n) middle middleHolds
    refine ⟨final, ?_, finalHolds⟩
    rw [List.range_succ, List.foldlM_append, folded]
    simp [stepped]

/-- The same loop followed by the rest of a `do` block: the whole block returns
with `property` when the rest does on every state the loop can leave. -/
theorem exists_foldlM_range_bind_eq_some {β γ : Type} {step : β → Nat → Option β} {rest : β → Option γ}
    {property : γ → Prop} (invariant : Nat → β → Prop) (n : Nat) (state : β) (holds : invariant 0 state)
    (preserved : ∀ position < n, ∀ state, invariant position state →
      ∃ next, step state position = some next ∧ invariant (position + 1) next)
    (finish : ∀ state, invariant n state → ∃ result, rest state = some result ∧ property result) :
    ∃ result, ((List.range n).foldlM step state >>= rest) = some result ∧ property result := by
  obtain ⟨final, folded, finalHolds⟩ := exists_foldlM_range_eq_some invariant n preserved state holds
  rw [folded]
  exact finish final finalHolds

end ArtRuntime.Foundation
