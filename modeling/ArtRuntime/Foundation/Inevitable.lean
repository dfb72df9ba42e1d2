import Mathlib.Logic.Relation

/-! # Inevitable reachability

For a nondeterministic transition relation, `Inevitable step final s` holds when
every execution from `s` reaches a state where `final` holds: `s` is final, or it
can move and every move leads to a state from which a final one is inevitable.
Being stuck in a non-final state does not count as reaching one.

The rule used to refute it is the dual of an invariant: a set of non-final
states from each of which some move stays in the set holds an execution that
never ends.
-/

namespace ArtRuntime.Foundation

variable {α : Type*}

/-- Every execution from a state reaches a final state. -/
inductive Inevitable (step : α → α → Prop) (final : α → Prop) : α → Prop
  | final {state : α} : final state → Inevitable step final state
  | step {state : α} : (∃ next, step state next) →
      (∀ next, step state next → Inevitable step final next) → Inevitable step final state

namespace Inevitable

variable {step : α → α → Prop} {final : α → Prop}

/-- A set of non-final states that can always be stayed in refutes inevitability
from each of its states. -/
theorem not_of_closed (trap : Set α) (avoids : ∀ state ∈ trap, ¬final state)
    (stays : ∀ state ∈ trap, ∃ next ∈ trap, step state next) :
    ∀ state ∈ trap, ¬Inevitable step final state := by
  intro state member reaches
  induction reaches with
  | final holds => exact avoids _ member holds
  | step _ _ induction =>
      obtain ⟨next, nextMember, stepped⟩ := stays _ member
      exact induction next stepped nextMember

end Inevitable

end ArtRuntime.Foundation
