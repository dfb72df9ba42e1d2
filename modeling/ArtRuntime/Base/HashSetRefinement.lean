import ArtRuntime.Base.HashSetErase
import Mathlib.Tactic.Linarith
import Mathlib.Tactic.Positivity

/-! # A `HashSet` refines a multiset

The loops of `HashSet` end only while the table has a free slot, and the only
guard of that is the bound `elements_until_expand_`: `Insert` expands the set
when `Size()` reaches it, and `Resize` sets it from the load factors. The
constructor and `SetLoadFactor` ask no more than `0 < min_load_factor` and
`max_load_factor < 1`, and `HashSet.filling` shows a pair of factors that lets
`Insert` fill the table. `LoadFactors` asks for room between the two factors;
the defaults `0.4` and `0.7` have it. Under it every operation keeps
`Invariant`: the probe invariant, `Size()` the number of elements, a free slot
left, and the bound of the next expansion inside the table.

Over the invariant the set is a multiset of elements (`MultisetStep`): `Insert`
adds one, `Erase(Find(key))` removes one that `Pred` matches with `key`,
`Clear` removes them all, and `Reserve`, `ShrinkToMaximumLoad` and
`SetLoadFactor` leave them as they are. `Invariant.run` carries the invariant
and the multiset over every run of operations whose arguments the source allows. -/

namespace ArtRuntime.Base

open ArtRuntime.Foundation

namespace HashSet

/-! ## Load factors -/

/-- Load factors under which no operation fills the table: the minimum is
positive, the maximum at most `1000 / 1001`, and the two at least `1 / 500` apart. -/
structure LoadFactors (minLoadFactor maxLoadFactor : ℚ) : Prop where
  min_pos : 0 < minLoadFactor
  gap : minLoadFactor + 1 / 500 ≤ maxLoadFactor
  max_le : maxLoadFactor ≤ 1000 / 1001

theorem le_clamp (size : Nat) :
    size ≤ (if size < kMinBuckets then kMinBuckets else size) ∧
      kMinBuckets ≤ (if size < kMinBuckets then kMinBuckets else size) := by
  split <;> omega

namespace LoadFactors

variable {minLoadFactor maxLoadFactor : ℚ}

theorem max_pos (factors : LoadFactors minLoadFactor maxLoadFactor) : 0 < maxLoadFactor := by
  have := factors.min_pos
  have := factors.gap
  linarith

theorem max_lt_one (factors : LoadFactors minLoadFactor maxLoadFactor) : maxLoadFactor < 1 := by
  have := factors.max_le
  linarith

theorem defaults : LoadFactors (2 / 5) (7 / 10) := ⟨by norm_num, by norm_num, by norm_num⟩

/-- `Expand` leaves room for the element `Insert` stores next: after
`Resize(Size() / min_load_factor_)` the bound of the next expansion lies above
`Size()`, which the source checks only in a debug build. -/
theorem expand_room (factors : LoadFactors minLoadFactor maxLoadFactor) (count : Nat) :
    count + 1 ≤ ⌊((if ⌊(count : ℚ) / minLoadFactor⌋₊ < kMinBuckets then kMinBuckets
      else ⌊(count : ℚ) / minLoadFactor⌋₊ : Nat) : ℚ) * maxLoadFactor⌋₊ := by
  have minPos := factors.min_pos
  have gap := factors.gap
  have maxLt := factors.max_lt_one
  have quotient : (0 : ℚ) ≤ (count : ℚ) / minLoadFactor := by positivity
  have countEq : (count : ℚ) = (count : ℚ) / minLoadFactor * minLoadFactor := by
    field_simp
  apply Nat.le_floor
  push_cast
  split
  · -- Few elements: the table gets `kMinBuckets` buckets, and `Size()` lies below
    -- `kMinBuckets * min_load_factor_`.
    rename_i small
    have below : (count : ℚ) / minLoadFactor < 1000 := by
      have := (Nat.floor_lt quotient).mp small
      simpa [kMinBuckets] using this
    push_cast [kMinBuckets]
    nlinarith
  · -- Many: the table gets `Size() / min_load_factor_` buckets, rounded down.
    rename_i large
    have floorLe : (⌊(count : ℚ) / minLoadFactor⌋₊ : ℚ) ≤ (count : ℚ) / minLoadFactor :=
      Nat.floor_le quotient
    have floorGt : (count : ℚ) / minLoadFactor < ⌊(count : ℚ) / minLoadFactor⌋₊ + 1 :=
      Nat.lt_floor_add_one _
    have big : (1000 : ℚ) ≤ ⌊(count : ℚ) / minLoadFactor⌋₊ := by
      have := Nat.not_lt.mp large
      exact_mod_cast this
    nlinarith

/-- A `Resize` to `Size() / f` buckets for a factor `f` no larger than the
maximum leaves a free slot. -/
theorem resize_room {factor : ℚ} (positive : 0 < factor) (atMost : factor ≤ 1000 / 1001)
    (count : Nat) :
    count < (if ⌊(count : ℚ) / factor⌋₊ < kMinBuckets then kMinBuckets
      else ⌊(count : ℚ) / factor⌋₊) := by
  obtain ⟨aboveFloor, aboveMin⟩ := le_clamp ⌊(count : ℚ) / factor⌋₊
  by_cases few : count < kMinBuckets
  · omega
  · -- With `kMinBuckets` elements or more, `Size() / f` exceeds `Size()` by one at least.
    have many : (1000 : ℚ) ≤ count := by
      have := Nat.not_lt.mp few
      exact_mod_cast this
    have grown : (count : ℚ) + 1 ≤ (count : ℚ) / factor := by
      rw [le_div_iff₀ positive]
      calc ((count : ℚ) + 1) * factor ≤ ((count : ℚ) + 1) * (1000 / 1001) := by gcongr
        _ ≤ count := by linarith
    have : count + 1 ≤ ⌊(count : ℚ) / factor⌋₊ := Nat.le_floor (by push_cast; exact grown)
    omega

theorem floor_lt_buckets (factors : LoadFactors minLoadFactor maxLoadFactor) {buckets : Nat}
    (nonempty : 0 < buckets) : ⌊(buckets : ℚ) * maxLoadFactor⌋₊ < buckets := by
  have maxLt := factors.max_lt_one
  have maxPos := factors.max_pos
  apply (Nat.floor_lt (by positivity)).mpr
  have : (0 : ℚ) < buckets := by exact_mod_cast nonempty
  nlinarith

end LoadFactors

/-- The loop of `Reserve` stops once the buckets hold `numElements + 2` elements
below the maximum load, and `fuel` more rounds reach that. -/
theorem reserveFrom_isSome {α : Type} {set : HashSet α} {numElements : Nat} :
    ∀ fuel buckets, (numElements : ℚ) + 2 ≤ ((buckets + fuel : Nat) : ℚ) * set.maxLoadFactor →
      ∃ result, reserveFrom set numElements (fuel + 1) buckets = some result
  | 0, buckets, enough => by
    have stops : ¬ ⌊(buckets : ℚ) * set.maxLoadFactor⌋₊ ≤ numElements + 1 := by
      have : numElements + 2 ≤ ⌊(buckets : ℚ) * set.maxLoadFactor⌋₊ :=
        Nat.le_floor (by push_cast; simpa using enough)
      omega
    exact ⟨buckets, by rw [reserveFrom, if_neg stops]⟩
  | fuel + 1, buckets, enough => by
    rw [reserveFrom]
    split
    · exact reserveFrom_isSome fuel (buckets + 1) (by rw [Nat.add_right_comm]; exact enough)
    · exact ⟨buckets, rfl⟩

/-- `Reserve` with a positive maximum load factor `p / q` finds its bucket count
within the `2 * q + 3` rounds the model gives it. -/
theorem reserveFrom_returns {α : Type} {set : HashSet α} (maxPos : 0 < set.maxLoadFactor)
    (numElements : Nat) :
    ∃ buckets, reserveFrom set numElements (2 * set.maxLoadFactor.den + 3)
      ⌊(numElements : ℚ) / set.maxLoadFactor⌋₊ = some buckets := by
  apply reserveFrom_isSome (2 * set.maxLoadFactor.den + 2)
  -- `max_load_factor_ * q` is the numerator `p`, one at least.
  have atLeast : 1 ≤ set.maxLoadFactor * set.maxLoadFactor.den := by
    rw [Rat.mul_den_eq_num]
    exact_mod_cast Rat.num_pos.mpr maxPos
  have floorGt := Nat.lt_floor_add_one ((numElements : ℚ) / set.maxLoadFactor)
  have quotient : (numElements : ℚ) / set.maxLoadFactor * set.maxLoadFactor = numElements :=
    div_mul_cancel₀ _ (ne_of_gt maxPos)
  push_cast
  nlinarith

end HashSet

/-- The arguments under which an operation keeps the invariant: `Insert` of a
value that is not the empty one, and `SetLoadFactor` with factors that have room. -/
def HashSetOperation.Valid {α : Type} (fns : HashSetFunctions α) : HashSetOperation α → Prop
  | .insert element => fns.isEmpty element = false
  | .setLoadFactor minLoadFactor maxLoadFactor => HashSet.LoadFactors minLoadFactor maxLoadFactor
  | _ => True

namespace HashSet

/-! ## The invariant of every reachable set -/

variable {α : Type} {fns : HashSetFunctions α}

/-- What every set reached by valid operations keeps: the probe invariant,
`Size()` the number of elements, a free slot unless there is no storage, the
bound of the next expansion inside the table, and load factors with room. -/
structure Invariant (fns : HashSetFunctions α) (set : HashSet α) : Prop where
  probed : Probed fns set
  numElements_eq : set.numElements = Multiset.card (contents fns set)
  room : set.numBuckets = 0 ∨ set.numElements < set.numBuckets
  expandBound : set.elementsUntilExpand = 0 ∨ set.elementsUntilExpand < set.numBuckets
  loadFactors : LoadFactors set.minLoadFactor set.maxLoadFactor

/-- What a `HashSet` is for: a multiset of elements. `Insert` adds one,
`Erase(Find(key))` removes one that `Pred` matches with `key` when there is one,
`Clear` removes them all, and the operations on the storage change none. -/
inductive MultisetStep (pred : α → α → Bool) :
    Multiset α → HashSetOperation α → Multiset α → Prop
  | insert (elements : Multiset α) (element : α) :
    MultisetStep pred elements (.insert element) (element ::ₘ elements)
  | eraseFound (remaining : Multiset α) {element key : α} (matched : pred element key = true) :
    MultisetStep pred (element ::ₘ remaining) (.erase key) remaining
  | eraseMissing (elements : Multiset α) {key : α}
    (missing : ∀ element ∈ elements, pred element key = false) :
    MultisetStep pred elements (.erase key) elements
  | clear (elements : Multiset α) : MultisetStep pred elements .clear 0
  | reserve (elements : Multiset α) (numElements : Nat) :
    MultisetStep pred elements (.reserve numElements) elements
  | shrinkToMaximumLoad (elements : Multiset α) :
    MultisetStep pred elements .shrinkToMaximumLoad elements
  | setLoadFactor (elements : Multiset α) (minLoadFactor maxLoadFactor : ℚ) :
    MultisetStep pred elements (.setLoadFactor minLoadFactor maxLoadFactor) elements

/-- A run of the abstract multiset. -/
inductive MultisetRun (pred : α → α → Bool) :
    Multiset α → List (HashSetOperation α) → Multiset α → Prop
  | nil (elements : Multiset α) : MultisetRun pred elements [] elements
  | cons {elements middle final : Multiset α} {operation : HashSetOperation α}
    {operations : List (HashSetOperation α)} :
    MultisetStep pred elements operation middle → MultisetRun pred middle operations final →
    MultisetRun pred elements (operation :: operations) final

theorem MultisetStep.card_le {pred : α → α → Bool} {elements next : Multiset α}
    {operation : HashSetOperation α} (step : MultisetStep pred elements operation next) :
    Multiset.card next ≤ Multiset.card elements + 1 := by
  cases step
  case eraseFound remaining _ =>
    rw [Multiset.card_cons]
    omega
  all_goals simp

theorem MultisetRun.card_le {pred : α → α → Bool} {elements final : Multiset α}
    {operations : List (HashSetOperation α)} (run : MultisetRun pred elements operations final) :
    Multiset.card final ≤ Multiset.card elements + operations.length := by
  induction run with
  | nil => simp
  | cons step _ ih =>
    have added := step.card_le
    rw [List.length_cons]
    omega

namespace Invariant

variable {set : HashSet α}

theorem hasFreeSlot (invariant : Invariant fns set) : HasFreeSlot fns set :=
  invariant.room.imp id fun fewer =>
    exists_isFreeSlot_of_card_lt (invariant.numElements_eq ▸ fewer)

theorem card_lt (invariant : Invariant fns set) (nonempty : 0 < set.numBuckets) :
    Multiset.card (contents fns set) < set.numBuckets := by
  have := invariant.numElements_eq
  rcases invariant.room with none | fewer <;> omega

theorem create {minLoadFactor maxLoadFactor : ℚ} (factors : LoadFactors minLoadFactor maxLoadFactor) :
    Invariant fns (HashSet.create minLoadFactor maxLoadFactor) :=
  ⟨probed_of_free fun _ inBounds => absurd inBounds (Nat.not_lt_zero _), rfl, Or.inl rfl,
    Or.inl rfl, factors⟩

theorem resize (lawful : fns.Lawful) (invariant : Invariant fns set) (newSize : Nat)
    (room : set.numElements < if newSize < kMinBuckets then kMinBuckets else newSize) :
    ∃ resized, HashSet.resize fns set newSize = some resized ∧ Invariant fns resized ∧
      contents fns resized = contents fns set := by
  obtain ⟨resized, resizeEq, probed, sameContents, buckets, shape⟩ :=
    resize_spec lawful set newSize (invariant.numElements_eq ▸ Nat.le_of_lt room)
  have atLeast := (le_clamp newSize).2
  refine ⟨resized, resizeEq, ⟨probed, ?_, ?_, ?_, ?_⟩, sameContents⟩
  · rw [sameContents, ← invariant.numElements_eq, shape]
  · right
    rw [buckets, shape]
    exact room
  · right
    rw [buckets, shape]
    exact invariant.loadFactors.floor_lt_buckets (by unfold kMinBuckets at atLeast; omega)
  · rw [shape]
    exact invariant.loadFactors

/-- `Insert` of a present element keeps the invariant and adds the element,
expanding the set first when `Size()` reached the bound. -/
theorem insert (lawful : fns.Lawful) (invariant : Invariant fns set) {element : α}
    (present : fns.isEmpty element = false) :
    ∃ inserted, HashSet.insert fns set element = some inserted ∧ Invariant fns inserted ∧
      contents fns inserted = element ::ₘ contents fns set := by
  -- The table the element goes into: the set itself, or the expanded set.
  obtain ⟨target, targetEq, targetInvariant, targetContents, roomAfter⟩ :
      ∃ target, (if set.elementsUntilExpand ≤ set.numElements then expand fns set
          else pure set) = some target ∧ Invariant fns target ∧
        contents fns target = contents fns set ∧ target.numElements + 1 < target.numBuckets := by
    split
    · rename_i atBound
      -- `Expand` resizes to `Size() / min_load_factor_` buckets and leaves room for one more.
      have expandRoom := invariant.loadFactors.expand_room set.numElements
      have sizeAtLeast := (le_clamp ⌊(set.numElements : ℚ) / set.minLoadFactor⌋₊).2
      have minBuckets : kMinBuckets = 1000 := rfl
      have bound := invariant.loadFactors.floor_lt_buckets
        (Nat.lt_of_lt_of_le (by rw [minBuckets]; norm_num) sizeAtLeast)
      obtain ⟨resized, resizeEq, probed, sameContents, buckets, shape⟩ :=
        resize_spec lawful set ⌊(set.numElements : ℚ) / set.minLoadFactor⌋₊
          (by rw [← invariant.numElements_eq]; omega)
      have sameCount : resized.numElements = set.numElements := by rw [shape]
      have newBound : resized.elementsUntilExpand = ⌊((if ⌊(set.numElements : ℚ) /
          set.minLoadFactor⌋₊ < kMinBuckets then kMinBuckets else ⌊(set.numElements : ℚ) /
          set.minLoadFactor⌋₊ : Nat) : ℚ) * set.maxLoadFactor⌋₊ := by rw [shape]
      refine ⟨resized, resizeEq, ⟨probed, ?_, Or.inr ?_, Or.inr ?_, ?_⟩, sameContents, ?_⟩
      · rw [sameContents, ← invariant.numElements_eq, sameCount]
      · rw [buckets, sameCount]; omega
      · rw [buckets, newBound]; exact bound
      · rw [shape]; exact invariant.loadFactors
      · rw [buckets, sameCount]; omega
    · rename_i belowBound
      refine ⟨set, rfl, invariant, rfl, ?_⟩
      rcases invariant.expandBound with none | inside <;> omega
  have nonempty : 0 < target.numBuckets := by omega
  obtain ⟨placed, placedEq, probed, placedContents, shape, buckets⟩ :=
    placeElement_spec targetInvariant.probed (targetInvariant.card_lt nonempty) present
  refine ⟨{ placed with numElements := placed.numElements + 1 }, ?_, ⟨probed, ?_, ?_, ?_, ?_⟩, ?_⟩
  · by_cases atBound : set.elementsUntilExpand ≤ set.numElements
    · rw [if_pos atBound] at targetEq
      rw [insert_of_expand fns atBound targetEq, placedEq]
      rfl
    · rw [if_neg atBound] at targetEq
      have same : target = set := (Option.some.inj targetEq).symm
      subst same
      rw [insert_of_lt fns (Nat.lt_of_not_le atBound), placedEq]
      rfl
  · show placed.numElements + 1 = Multiset.card (contents fns placed)
    rw [placedContents, Multiset.card_cons, shape, ← targetInvariant.numElements_eq]
  · right
    show placed.numElements + 1 < placed.numBuckets
    rw [buckets, shape]
    exact roomAfter
  · show placed.elementsUntilExpand = 0 ∨ placed.elementsUntilExpand < placed.numBuckets
    rw [buckets, shape]
    exact targetInvariant.expandBound
  · show LoadFactors placed.minLoadFactor placed.maxLoadFactor
    rw [shape]
    exact targetInvariant.loadFactors
  · show contents fns placed = _
    rw [placedContents, targetContents]

/-- `Erase(Find(key))`: when `Find` meets an element that `Pred` matches, the set
loses exactly that element; otherwise it is left as it is. -/
theorem eraseKey (lawful : fns.Lawful) (invariant : Invariant fns set) (key : α) :
    ∃ erased, HashSet.apply fns set (.erase key) = some erased ∧ Invariant fns erased ∧
      MultisetStep fns.pred (contents fns set) (.erase key) (contents fns erased) := by
  obtain ⟨index, findEq, found⟩ := find_spec lawful invariant.probed invariant.hasFreeSlot key
  rcases found with ⟨inBounds, occupied, matched⟩ | ⟨atEnd, missing⟩
  · -- `Find` returned an element: `Erase` takes it out.
    have room := invariant.card_lt (Nat.lt_of_le_of_lt (Nat.zero_le _) inBounds)
    obtain ⟨free, freeInBounds, isFree⟩ := exists_isFreeSlot_of_card_lt room
    obtain ⟨erased, eraseEq, probed, counted, shape, buckets, -⟩ :=
      erase_spec lawful invariant.probed inBounds occupied freeInBounds isFree
    have remaining : contents fns set = elementForIndex fns set index ::ₘ contents fns erased := by
      rw [← counted, add_comm, Multiset.singleton_add]
    have count : erased.numElements = set.numElements - 1 := by rw [shape]
    have sameBound : erased.elementsUntilExpand = set.elementsUntilExpand := by rw [shape]
    have cardEq := congrArg Multiset.card remaining
    rw [Multiset.card_cons, ← invariant.numElements_eq] at cardEq
    refine ⟨erased, ?_, ⟨probed, ?_, ?_, ?_, ?_⟩, ?_⟩
    · simp only [HashSet.apply, findEq, Option.bind_eq_bind, Option.bind_some,
        if_neg (Nat.ne_of_lt inBounds), eraseEq]
      rfl
    · rw [count]; omega
    · right
      rw [buckets, count]
      have := invariant.numElements_eq
      omega
    · rw [buckets, sameBound]; exact invariant.expandBound
    · rw [shape]; exact invariant.loadFactors
    · rw [remaining]
      exact MultisetStep.eraseFound _ matched
  · -- `Find` returned `end()`: nothing is erased.
    refine ⟨set, ?_, invariant, MultisetStep.eraseMissing _ missing⟩
    simp only [HashSet.apply, findEq, Option.bind_eq_bind, Option.bind_some, atEnd, if_true]
    rfl

theorem clear (invariant : Invariant fns set) :
    Invariant fns (HashSet.clear set) ∧ contents fns (HashSet.clear set) = 0 :=
  ⟨⟨probed_of_free fun _ inBounds => absurd inBounds (Nat.not_lt_zero _), by simp [HashSet.clear],
    Or.inl rfl, Or.inl rfl, invariant.loadFactors⟩, by simp [HashSet.clear]⟩

theorem reserve (lawful : fns.Lawful) (invariant : Invariant fns set) (numElements : Nat) :
    ∃ reserved, HashSet.reserve fns set numElements = some reserved ∧ Invariant fns reserved ∧
      contents fns reserved = contents fns set := by
  obtain ⟨buckets, bucketsEq⟩ := reserveFrom_returns invariant.loadFactors.max_pos numElements
  by_cases grows : set.numBuckets < buckets
  · -- The new table is larger than the old one, which held every element with room.
    have fewer : set.numElements < if buckets < kMinBuckets then kMinBuckets else buckets := by
      have atLeast := le_clamp buckets
      have minBuckets : kMinBuckets = 1000 := rfl
      have cardLe : Multiset.card (contents fns set) ≤ set.numBuckets := card_contents_le set
      have count := invariant.numElements_eq
      rcases invariant.room with none | fewer <;> omega
    obtain ⟨resized, resizeEq, resizedInvariant, same⟩ := invariant.resize lawful buckets fewer
    refine ⟨resized, ?_, resizedInvariant, same⟩
    simp only [HashSet.reserve, bucketsEq, Option.bind_eq_bind, Option.bind_some, if_pos grows,
      resizeEq]
  · refine ⟨set, ?_, invariant, rfl⟩
    simp only [HashSet.reserve, bucketsEq, Option.bind_eq_bind, Option.bind_some, if_neg grows]
    rfl

theorem shrinkToMaximumLoad (lawful : fns.Lawful) (invariant : Invariant fns set) :
    ∃ shrunk, HashSet.shrinkToMaximumLoad fns set = some shrunk ∧ Invariant fns shrunk ∧
      contents fns shrunk = contents fns set :=
  invariant.resize lawful _ (LoadFactors.resize_room invariant.loadFactors.max_pos
    invariant.loadFactors.max_le set.numElements)

/-- New load factors with room, and the bound `SetLoadFactor` derives from them, keep
the invariant. -/
theorem withLoadFactors (invariant : Invariant fns set) {minLoadFactor maxLoadFactor : ℚ}
    (factors : LoadFactors minLoadFactor maxLoadFactor) :
    Invariant fns { set with
      minLoadFactor := minLoadFactor
      maxLoadFactor := maxLoadFactor
      elementsUntilExpand := ⌊(set.numBuckets : ℚ) * maxLoadFactor⌋₊ } := by
  refine ⟨invariant.probed, invariant.numElements_eq, invariant.room, ?_, factors⟩
  show ⌊(set.numBuckets : ℚ) * maxLoadFactor⌋₊ = 0 ∨
    ⌊(set.numBuckets : ℚ) * maxLoadFactor⌋₊ < set.numBuckets
  rcases Nat.eq_zero_or_pos set.numBuckets with none | some
  · left
    simp [none]
  · exact Or.inr (factors.floor_lt_buckets some)

theorem setLoadFactor (lawful : fns.Lawful) (invariant : Invariant fns set)
    {minLoadFactor maxLoadFactor : ℚ} (factors : LoadFactors minLoadFactor maxLoadFactor) :
    ∃ updated, HashSet.setLoadFactor fns set minLoadFactor maxLoadFactor = some updated ∧
      Invariant fns updated ∧ contents fns updated = contents fns set := by
  have updated := invariant.withLoadFactors factors
  simp only [HashSet.setLoadFactor]
  split
  · -- Loaded past the new maximum: resized to the mean of the two factors.
    have mean : 0 < (minLoadFactor + maxLoadFactor) * (1 / 2) ∧
        (minLoadFactor + maxLoadFactor) * (1 / 2) ≤ 1000 / 1001 := by
      have := factors.min_pos
      have := factors.gap
      have := factors.max_le
      constructor <;> linarith
    exact updated.resize lawful _ (LoadFactors.resize_room mean.1 mean.2 set.numElements)
  · exact ⟨_, rfl, updated, rfl⟩

/-- One valid operation keeps the invariant, and the elements take the step of
the multiset. -/
theorem apply (lawful : fns.Lawful) (invariant : Invariant fns set)
    {operation : HashSetOperation α} (valid : operation.Valid fns) :
    ∃ next, HashSet.apply fns set operation = some next ∧ Invariant fns next ∧
      MultisetStep fns.pred (contents fns set) operation (contents fns next) := by
  cases operation with
  | insert element =>
    obtain ⟨inserted, insertEq, insertedInvariant, added⟩ := invariant.insert lawful valid
    refine ⟨inserted, insertEq, insertedInvariant, ?_⟩
    rw [added]
    exact MultisetStep.insert _ _
  | erase key => exact invariant.eraseKey lawful key
  | clear =>
    refine ⟨_, rfl, invariant.clear.1, ?_⟩
    rw [invariant.clear.2]
    exact MultisetStep.clear _
  | reserve numElements =>
    obtain ⟨reserved, reserveEq, reservedInvariant, same⟩ := invariant.reserve lawful numElements
    refine ⟨reserved, reserveEq, reservedInvariant, ?_⟩
    rw [same]
    exact MultisetStep.reserve _ _
  | shrinkToMaximumLoad =>
    obtain ⟨shrunk, shrinkEq, shrunkInvariant, same⟩ := invariant.shrinkToMaximumLoad lawful
    refine ⟨shrunk, shrinkEq, shrunkInvariant, ?_⟩
    rw [same]
    exact MultisetStep.shrinkToMaximumLoad _
  | setLoadFactor minLoadFactor maxLoadFactor =>
    obtain ⟨updated, updateEq, updatedInvariant, same⟩ := invariant.setLoadFactor lawful valid
    refine ⟨updated, updateEq, updatedInvariant, ?_⟩
    rw [same]
    exact MultisetStep.setLoadFactor _ _ _

/-- A run of valid operations keeps the invariant, and the elements take the
multiset's run. -/
theorem run (lawful : fns.Lawful) :
    ∀ (operations : List (HashSetOperation α)) {set : HashSet α}, Invariant fns set →
      (∀ operation ∈ operations, operation.Valid fns) →
      ∃ final, HashSet.run fns set operations = some final ∧ Invariant fns final ∧
        MultisetRun fns.pred (contents fns set) operations (contents fns final)
  | [], set, invariant, _ => ⟨set, rfl, invariant, .nil _⟩
  | operation :: operations, _, invariant, valid => by
    obtain ⟨next, applyEq, nextInvariant, step⟩ :=
      invariant.apply lawful (valid operation (List.mem_cons_self ..))
    obtain ⟨final, runEq, finalInvariant, rest⟩ := run lawful operations nextInvariant
      fun later member => valid later (List.mem_cons_of_mem _ member)
    refine ⟨final, ?_, finalInvariant, .cons step rest⟩
    rw [run_cons, applyEq, Option.bind_some]
    exact runEq

end Invariant

/-- The sets that valid operations reach from a new set whose load factors have room. -/
inductive Reachable (fns : HashSetFunctions α) : HashSet α → Prop
  | create {minLoadFactor maxLoadFactor : ℚ} : LoadFactors minLoadFactor maxLoadFactor →
    Reachable fns (HashSet.create minLoadFactor maxLoadFactor)
  | apply {set next : HashSet α} {operation : HashSetOperation α} : Reachable fns set →
    operation.Valid fns → HashSet.apply fns set operation = some next → Reachable fns next

theorem Reachable.invariant (lawful : fns.Lawful) {set : HashSet α} :
    Reachable fns set → Invariant fns set
  | .create factors => Invariant.create factors
  | .apply reachable valid applied => by
    obtain ⟨next, applyEq, nextInvariant, -⟩ := (reachable.invariant lawful).apply lawful valid
    rw [applied] at applyEq
    cases applyEq
    exact nextInvariant

theorem Reachable.run {set final : HashSet α} (reachable : Reachable fns set) :
    ∀ {operations : List (HashSetOperation α)}, (∀ operation ∈ operations, operation.Valid fns) →
      HashSet.run fns set operations = some final → Reachable fns final := by
  intro operations
  induction operations generalizing set with
  | nil => intro _ ran; cases ran; exact reachable
  | cons operation operations ih =>
    intro valid ran
    rw [run_cons] at ran
    cases applied : HashSet.apply fns set operation with
    | none => rw [applied] at ran; cases ran
    | some next =>
      rw [applied, Option.bind_some] at ran
      exact ih (reachable.apply (valid operation (List.mem_cons_self ..)) applied)
        (fun later member => valid later (List.mem_cons_of_mem _ member)) ran

theorem reachable_createDefault : Reachable natFunctions createDefault :=
  Reachable.create LoadFactors.defaults

/-! ## What a reachable set does -/

/-- Every run of valid operations from a reachable set returns: the elements take
the multiset's run, `Size()` counts them, and `Verify()` finds no misplaced element. -/
theorem run_refines_multiset (lawful : fns.Lawful) {set : HashSet α} (reachable : Reachable fns set)
    (operations : List (HashSetOperation α))
    (valid : ∀ operation ∈ operations, operation.Valid fns) :
    ∃ final, HashSet.run fns set operations = some final ∧
      MultisetRun fns.pred (contents fns set) operations (contents fns final) ∧
      final.numElements = Multiset.card (contents fns final) ∧ verify fns final = some 0 := by
  obtain ⟨final, runEq, finalInvariant, multisetRun⟩ :=
    (reachable.invariant lawful).run lawful operations valid
  exact ⟨final, runEq, multisetRun, finalInvariant.numElements_eq,
    verify_eq_zero_of_probed lawful finalInvariant.probed⟩

theorem run_refines_multiset_of_inserts_and_erase :
    natFunctions.Lawful ∧ Reachable natFunctions createDefault ∧
      (∀ operation ∈ ([.insert 1, .insert 2, .erase 1] : List (HashSetOperation Nat)),
        operation.Valid natFunctions) ∧
      ∃ final, HashSet.run natFunctions createDefault [.insert 1, .insert 2, .erase 1] = some final ∧
        MultisetRun natFunctions.pred (contents natFunctions createDefault)
          [.insert 1, .insert 2, .erase 1] (contents natFunctions final) ∧
        final.numElements = Multiset.card (contents natFunctions final) ∧
        verify natFunctions final = some 0 := by
  have valid : ∀ operation ∈ ([.insert 1, .insert 2, .erase 1] : List (HashSetOperation Nat)),
      operation.Valid natFunctions := by
    simp [HashSetOperation.Valid, natFunctions]
  exact ⟨natFunctions_lawful, reachable_createDefault, valid,
    run_refines_multiset natFunctions_lawful reachable_createDefault _ valid⟩

/-- On every reachable set `Find(key)` returns: a slot whose element `Pred`
matches with `key`, or `end()` exactly when the set holds no such element. -/
theorem find_correct_on_reachable (lawful : fns.Lawful) {set : HashSet α}
    (reachable : Reachable fns set) (key : α) :
    ∃ index, find fns set key set.numBuckets = some index ∧ Found fns set key index :=
  find_spec lawful (reachable.invariant lawful).probed (reachable.invariant lawful).hasFreeSlot key

/-- The set that two inserts and the erase of the first reach from a new set:
reachable, with at most three elements. -/
theorem reachable_of_inserts_and_erase :
    ∃ set, HashSet.run natFunctions createDefault [.insert 1, .insert 2, .erase 1] = some set ∧
      Reachable natFunctions set ∧ set.numElements ≤ 3 := by
  have valid : ∀ operation ∈ ([.insert 1, .insert 2, .erase 1] : List (HashSetOperation Nat)),
      operation.Valid natFunctions := by
    simp [HashSetOperation.Valid, natFunctions]
  obtain ⟨set, ran, invariant, multisetRun⟩ :=
    (reachable_createDefault.invariant natFunctions_lawful).run natFunctions_lawful _ valid
  have empty : contents natFunctions (createDefault : HashSet Nat) = 0 := rfl
  have added := multisetRun.card_le
  rw [empty, Multiset.card_zero] at added
  exact ⟨set, ran, reachable_createDefault.run valid ran, invariant.numElements_eq ▸ added⟩

theorem find_correct_on_reachable_of_inserts_and_erase :
    ∃ set, HashSet.run natFunctions createDefault [.insert 1, .insert 2, .erase 1] = some set ∧
      natFunctions.Lawful ∧ Reachable natFunctions set ∧
      ∃ index, find natFunctions set 2 set.numBuckets = some index ∧ Found natFunctions set 2 index := by
  obtain ⟨set, ran, reachable, -⟩ := reachable_of_inserts_and_erase
  exact ⟨set, ran, natFunctions_lawful, reachable, find_correct_on_reachable natFunctions_lawful reachable 2⟩

/-- On every reachable set the loop `for (it = begin(); it != end();) it = Erase(it);`,
given any number of rounds above `Size()`, returns after `Size()` erases: it
visits each element once, and leaves an empty set of size zero in which `Verify()`
finds no misplaced element. -/
theorem eraseEach_visits_each_element_once (lawful : fns.Lawful) {set : HashSet α}
    (reachable : Reachable fns set) {fuel : Nat} (enough : set.numElements < fuel) :
    ∃ visited final, eraseEach fns set fuel (begin fns set) = some (visited, final) ∧
      (visited : Multiset α) = contents fns set ∧ visited.length = set.numElements ∧
      final.numElements = 0 ∧ contents fns final = 0 ∧ verify fns final = some 0 := by
  have invariant := reachable.invariant lawful
  have count := invariant.numElements_eq
  have erasing := erasingFrom_begin invariant.probed
    (invariant.room.imp id fun fewer => count ▸ fewer)
  obtain ⟨visited, final, loop, allVisited, empty, probed, shape⟩ :=
    eraseEach_spec lawful fuel erasing (count ▸ enough)
  have length : visited.length = set.numElements := by
    rw [count, ← allVisited, Multiset.coe_card]
  have remaining : final.numElements = set.numElements - visited.length := by rw [shape]
  refine ⟨visited, final, loop, allVisited, length, ?_, empty,
    verify_eq_zero_of_probed lawful probed⟩
  rw [remaining, length, Nat.sub_self]

theorem eraseEach_visits_each_element_once_of_inserts_and_erase :
    ∃ set, HashSet.run natFunctions createDefault [.insert 1, .insert 2, .erase 1] = some set ∧
      natFunctions.Lawful ∧ Reachable natFunctions set ∧ set.numElements < 4 ∧
      ∃ visited final, eraseEach natFunctions set 4 (begin natFunctions set) = some (visited, final) ∧
        (visited : Multiset Nat) = contents natFunctions set ∧ visited.length = set.numElements ∧
        final.numElements = 0 ∧ contents natFunctions final = 0 ∧ verify natFunctions final = some 0 := by
  obtain ⟨set, ran, reachable, few⟩ := reachable_of_inserts_and_erase
  have enough : set.numElements < 4 := by omega
  exact ⟨set, ran, natFunctions_lawful, reachable, enough,
    eraseEach_visits_each_element_once natFunctions_lawful reachable enough⟩

end HashSet

end ArtRuntime.Base
