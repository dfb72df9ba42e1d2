import ArtRuntime.Base.HashSet
import ArtRuntime.Foundation.CyclicIndex
import ArtRuntime.Foundation.RangeCount
import Mathlib.Algebra.Order.Group.Multiset
import Mathlib.Tactic.Abel

/-! # The probe invariant of a `HashSet`

The comment above `Erase` in `hash_set.h` names the invariant the whole class
relies on: "there's no empty slots from the 'ideal' index of an element to its
actual location/index". `Probed` states it with the distances of
`Foundation.CyclicIndex`: every slot on the way from the ideal slot of an
element to its own slot holds an element.

The set's elements are `contents`, the multiset of its occupied slots. Under
the invariant, and with a free slot somewhere, the probe loops do what the
class promises: `FirstAvailableSlot` returns the first free slot on the way
from an ideal slot (`placeElement_eq`), and `Find` returns a slot that `Pred`
matches with the key, or `end()` exactly when no element of the set matches
(`find_spec`). Storing an element there keeps the invariant
(`Probed.store`), and so does `Resize`, which stores every old element again
(`resize_spec`). `Verify` counts exactly the elements the invariant fails for
(`verify_eq_countIn`). -/

namespace ArtRuntime.Base

open ArtRuntime.Foundation

namespace HashSetFunctions

/-- What a `HashSet` needs of its function objects: `MakeEmpty` makes a value
that `IsEmpty` reports empty, and `Pred` matches an element with a key only when
`HashFn` gives both the same hash. -/
structure Lawful {α : Type} (fns : HashSetFunctions α) : Prop where
  isEmpty_makeEmpty : fns.isEmpty fns.makeEmpty = true
  hash_eq_of_pred : ∀ {element key : α}, fns.pred element key = true →
    fns.hash element = fns.hash key

end HashSetFunctions

namespace HashSet

variable {α : Type} (fns : HashSetFunctions α)

/-- What a slot holding `element` adds to the set: the element, unless the slot is free. -/
def occupant (element : α) : Multiset α := if fns.isEmpty element then 0 else {element}

/-- The elements of the set: the multiset of its occupied slots. -/
def contents (set : HashSet α) : Multiset α :=
  Multiset.filter (fun element => fns.isEmpty element = false) (set.data : Multiset α)

/-- The ideal slot of the element in slot `index`, where `FirstAvailableSlot`
starts looking for it. -/
def idealIndex (set : HashSet α) (index : Nat) : Nat :=
  set.indexForHash (fns.hash (elementForIndex fns set index))

/-- No free slot lies on the way from the ideal slot of an element to its own slot. -/
def Probed (set : HashSet α) : Prop :=
  ∀ index < set.numBuckets, isFreeSlot fns set index = false →
    ∀ t < set.numBuckets,
      cyclicDist set.numBuckets (idealIndex fns set index) t <
        cyclicDist set.numBuckets (idealIndex fns set index) index →
      isFreeSlot fns set t = false

/-- The set has no storage, or a free slot: what makes every probe loop end. -/
def HasFreeSlot (set : HashSet α) : Prop :=
  set.numBuckets = 0 ∨ ∃ index < set.numBuckets, isFreeSlot fns set index = true

/-- What `Find(key)` must return: the index of a slot whose element `Pred`
matches with `key`, or `NumBuckets()`, which is `end()`, when the set holds no
such element. -/
def Found (set : HashSet α) (key : α) (index : Nat) : Prop :=
  (index < set.numBuckets ∧ isFreeSlot fns set index = false ∧
      fns.pred (elementForIndex fns set index) key = true) ∨
    (index = set.numBuckets ∧ ∀ element ∈ contents fns set, fns.pred element key = false)

/-- Whether the element in slot `index` lies past a free slot on its way from
its ideal slot: the slots that `Verify` counts as errors. -/
def misplaced (set : HashSet α) (index : Nat) : Bool :=
  !isFreeSlot fns set index && (List.range set.numBuckets).any fun t =>
    decide (cyclicDist set.numBuckets (idealIndex fns set index) t <
      cyclicDist set.numBuckets (idealIndex fns set index) index) && isFreeSlot fns set t

theorem natFunctions_lawful : natFunctions.Lawful where
  isEmpty_makeEmpty := rfl
  hash_eq_of_pred matched := by simpa [natFunctions] using matched

/-! ## Slots of a table -/

@[simp] theorem numBuckets_mk (data : List α) (numElements elementsUntilExpand : Nat)
    (minLoadFactor maxLoadFactor : ℚ) :
    (HashSet.mk data numElements elementsUntilExpand minLoadFactor maxLoadFactor).numBuckets =
      data.length := rfl

@[simp] theorem elementForIndex_mk (data : List α) (numElements elementsUntilExpand : Nat)
    (minLoadFactor maxLoadFactor : ℚ) (index : Nat) :
    elementForIndex fns (HashSet.mk data numElements elementsUntilExpand minLoadFactor
      maxLoadFactor) index = data.getD index fns.makeEmpty := rfl

@[simp] theorem contents_mk (data : List α) (numElements elementsUntilExpand : Nat)
    (minLoadFactor maxLoadFactor : ℚ) :
    contents fns (HashSet.mk data numElements elementsUntilExpand minLoadFactor maxLoadFactor) =
      Multiset.filter (fun element => fns.isEmpty element = false) (data : Multiset α) := rfl

@[simp] theorem occupant_of_isEmpty {element : α} (empty : fns.isEmpty element = true) :
    occupant fns element = 0 := by
  simp [occupant, empty]

@[simp] theorem occupant_of_not_isEmpty {element : α} (present : fns.isEmpty element = false) :
    occupant fns element = {element} := by
  simp [occupant, present]

theorem indexForHash_of_numBuckets {set other : HashSet α} (same : other.numBuckets = set.numBuckets)
    (hash : Nat) : other.indexForHash hash = set.indexForHash hash := by
  simp only [indexForHash, same]

theorem nextIndex_eq_cyclicNext (set : HashSet α) (index : Nat) :
    set.nextIndex index = cyclicNext set.numBuckets index := rfl

theorem getD_set_of_lt {l : List α} {index : Nat} (inBounds : index < l.length) (x d : α)
    (other : Nat) : (l.set index x).getD other d = if index = other then x else l.getD other d := by
  rw [List.getD_eq_getElem?_getD, List.getElem?_set, List.getD_eq_getElem?_getD]
  split <;> simp_all

variable {fns}

section Store

variable {set : HashSet α} {index : Nat}

theorem elementForIndex_store (inBounds : index < set.numBuckets) (element : α) (other : Nat) :
    elementForIndex fns { set with data := set.data.set index element } other =
      if index = other then element else elementForIndex fns set other :=
  getD_set_of_lt inBounds element fns.makeEmpty other

theorem isFreeSlot_store (inBounds : index < set.numBuckets) (element : α) (other : Nat) :
    isFreeSlot fns { set with data := set.data.set index element } other =
      if index = other then fns.isEmpty element else isFreeSlot fns set other := by
  simp only [isFreeSlot, elementForIndex_store inBounds]
  split <;> rfl

@[simp] theorem numBuckets_store (element : α) :
    ({ set with data := set.data.set index element } : HashSet α).numBuckets = set.numBuckets :=
  List.length_set

theorem contents_store (fns : HashSetFunctions α) (inBounds : index < set.numBuckets)
    (element : α) :
    contents fns { set with data := set.data.set index element } +
        occupant fns (elementForIndex fns set index) =
      contents fns set + occupant fns element := by
  have inData : index < set.data.length := inBounds
  have split := List.set_eq_take_append_cons_drop (l := set.data) (i := index) (a := element)
  rw [if_pos inData] at split
  have whole : set.data = set.data.take index ++ set.data[index] :: set.data.drop (index + 1) := by
    conv_lhs => rw [← List.take_append_drop index set.data, List.drop_eq_getElem_cons inData]
  have slot : elementForIndex fns set index = set.data[index] := by
    simp [elementForIndex, List.getD_eq_getElem?_getD, List.getElem?_eq_getElem inData]
  -- Both sides hold the slots around `index` and one more element each.
  have middle : ∀ x : α, ((set.data.take index ++ x :: set.data.drop (index + 1) : List α) :
      Multiset α) = x ::ₘ ((set.data.take index ++ set.data.drop (index + 1) : List α) :
      Multiset α) := fun x => Multiset.coe_eq_coe.mpr List.perm_middle
  simp only [contents, slot, split]
  conv_rhs => rw [whole]
  rw [middle, middle, Multiset.filter_cons, Multiset.filter_cons]
  generalize Multiset.filter (fun x => fns.isEmpty x = false)
    ((set.data.take index ++ set.data.drop (index + 1) : List α) : Multiset α) = rest
  cases present : fns.isEmpty element <;> cases slotPresent : fns.isEmpty set.data[index] <;>
    simp only [occupant, present, slotPresent, Bool.true_eq_false, Bool.false_eq_true, if_true,
      if_false, zero_add, add_zero] <;> abel

end Store

theorem mem_contents {set : HashSet α} {element : α} :
    element ∈ contents fns set ↔ ∃ index < set.numBuckets,
      isFreeSlot fns set index = false ∧ elementForIndex fns set index = element := by
  simp only [contents, Multiset.mem_filter, Multiset.mem_coe, List.mem_iff_getElem, isFreeSlot,
    elementForIndex, numBuckets]
  constructor
  · rintro ⟨⟨index, inBounds, rfl⟩, present⟩
    exact ⟨index, inBounds, by simpa [List.getD_eq_getElem?_getD, inBounds] using present,
      by simp [List.getD_eq_getElem?_getD, inBounds]⟩
  · rintro ⟨index, inBounds, present, rfl⟩
    simp only [List.getD_eq_getElem?_getD, List.getElem?_eq_getElem inBounds,
      Option.getD_some] at present ⊢
    exact ⟨⟨index, inBounds, rfl⟩, present⟩

theorem card_contents_le (set : HashSet α) :
    Multiset.card (contents fns set) ≤ set.numBuckets := by
  have fewer := Multiset.card_le_card
    (Multiset.filter_le (fun element => fns.isEmpty element = false) (set.data : Multiset α))
  simpa [contents, numBuckets] using fewer

theorem exists_isFreeSlot_of_card_lt {set : HashSet α}
    (room : Multiset.card (contents fns set) < set.numBuckets) :
    ∃ index < set.numBuckets, isFreeSlot fns set index = true := by
  by_contra noneFree
  simp only [not_exists, not_and, Bool.not_eq_true] at noneFree
  have everyPresent : ∀ element ∈ (set.data : Multiset α), fns.isEmpty element = false := by
    intro element member
    obtain ⟨index, inBounds, rfl⟩ := List.mem_iff_getElem.mp (Multiset.mem_coe.mp member)
    simpa [isFreeSlot, elementForIndex, List.getD_eq_getElem?_getD, inBounds] using
      noneFree index inBounds
  have whole : contents fns set = set.data := Multiset.filter_eq_self.mpr everyPresent
  rw [whole, Multiset.coe_card] at room
  exact absurd room (Nat.lt_irrefl _)

/-! ## The probe loops as walks on the cycle -/

theorem firstAvailableSlotFrom_eq_cyclicSearch (set : HashSet α) :
    ∀ fuel index, firstAvailableSlotFrom fns set fuel index =
      cyclicSearch set.numBuckets (isFreeSlot fns set) fuel index
  | 0, _ => rfl
  | fuel + 1, index => by
    simp only [firstAvailableSlotFrom, cyclicSearch, nextIndex_eq_cyclicNext,
      firstAvailableSlotFrom_eq_cyclicSearch set fuel]

/-- The loop of `FindIndex` stops at the first slot that is free or that `Pred`
matches, and reports a free one as `NumBuckets()`. -/
theorem findIndexFrom_eq_cyclicSearch (set : HashSet α) (key : α) :
    ∀ fuel index, findIndexFrom fns set key fuel index =
      (cyclicSearch set.numBuckets
        (fun slot => isFreeSlot fns set slot || fns.pred (elementForIndex fns set slot) key)
        fuel index).map fun slot => if isFreeSlot fns set slot then set.numBuckets else slot
  | 0, _ => rfl
  | fuel + 1, index => by
    simp only [findIndexFrom, cyclicSearch, nextIndex_eq_cyclicNext,
      findIndexFrom_eq_cyclicSearch set key fuel, isFreeSlot]
    by_cases free : fns.isEmpty (elementForIndex fns set index) = true
    · simp [free]
    · by_cases matched : fns.pred (elementForIndex fns set index) key = true
      · simp [free, matched]
      · simp [free, matched]

/-- `FirstAvailableSlot` from a slot of a table with a free slot returns the
first free slot on the way. -/
theorem firstAvailableSlot_spec (set : HashSet α) {start free : Nat}
    (startInBounds : start < set.numBuckets) (freeInBounds : free < set.numBuckets)
    (isFree : isFreeSlot fns set free = true) :
    ∃ slot < set.numBuckets, firstAvailableSlot fns set start = some slot ∧
      isFreeSlot fns set slot = true ∧
      ∀ t < set.numBuckets, cyclicDist set.numBuckets start t <
        cyclicDist set.numBuckets start slot → isFreeSlot fns set t = false := by
  rw [firstAvailableSlot, firstAvailableSlotFrom_eq_cyclicSearch]
  exact cyclicSearch_exists startInBounds freeInBounds isFree

/-- `InsertWithHash` and `Resize` store an element in the first free slot on the
way from its ideal slot. -/
theorem placeElement_eq {set : HashSet α} (element : α) {free : Nat}
    (freeInBounds : free < set.numBuckets) (isFree : isFreeSlot fns set free = true) :
    ∃ slot < set.numBuckets,
      placeElement fns set element = some { set with data := set.data.set slot element } ∧
      isFreeSlot fns set slot = true ∧
      ∀ t < set.numBuckets, cyclicDist set.numBuckets (set.indexForHash (fns.hash element)) t <
        cyclicDist set.numBuckets (set.indexForHash (fns.hash element)) slot →
        isFreeSlot fns set t = false := by
  have startInBounds := indexForHash_lt (Nat.lt_of_le_of_lt (Nat.zero_le _) freeInBounds)
    (fns.hash element)
  obtain ⟨slot, inBounds, search, slotFree, before⟩ :=
    firstAvailableSlot_spec set startInBounds freeInBounds isFree
  refine ⟨slot, inBounds, ?_, slotFree, before⟩
  simp only [placeElement, search, Option.bind_eq_bind, Option.bind_some]
  rfl

/-! ## The invariant under stores -/

/-- Storing a present element in a free slot that the probe from its ideal slot
reaches first keeps the invariant. -/
theorem Probed.store {set : HashSet α} (probed : Probed fns set) {slot : Nat}
    (inBounds : slot < set.numBuckets) {element : α} (present : fns.isEmpty element = false)
    (reached : ∀ t < set.numBuckets,
      cyclicDist set.numBuckets (set.indexForHash (fns.hash element)) t <
        cyclicDist set.numBuckets (set.indexForHash (fns.hash element)) slot →
        isFreeSlot fns set t = false) :
    Probed fns { set with data := set.data.set slot element } := by
  intro index indexInBounds occupied t tInBounds closer
  simp only [numBuckets_store] at indexInBounds tInBounds closer
  simp only [idealIndex, elementForIndex_store inBounds,
    indexForHash_of_numBuckets (numBuckets_store element)] at closer
  rw [isFreeSlot_store inBounds] at occupied ⊢
  by_cases stored : slot = index
  · -- The new element: every slot before its own on its way was taken already.
    subst stored
    simp only [if_true] at closer
    have tBefore := reached t tInBounds closer
    have different : slot ≠ t := fun same => by subst same; exact absurd closer (Nat.lt_irrefl _)
    rw [if_neg different]
    exact tBefore
  · -- An old element: its way is as before, and the store only fills a slot.
    rw [if_neg stored] at occupied closer
    by_cases filled : slot = t
    · rw [if_pos filled]; exact present
    · rw [if_neg filled]
      exact probed index indexInBounds occupied t tInBounds closer

/-- `placeElement` on a probed table with fewer elements than slots stores a
present element in a free slot: the table stays probed and holds one element more. -/
theorem placeElement_spec {set : HashSet α} (probed : Probed fns set)
    (room : Multiset.card (contents fns set) < set.numBuckets) {element : α}
    (present : fns.isEmpty element = false) :
    ∃ placed, placeElement fns set element = some placed ∧ Probed fns placed ∧
      contents fns placed = element ::ₘ contents fns set ∧
      placed = { set with data := placed.data } ∧ placed.numBuckets = set.numBuckets := by
  obtain ⟨free, freeInBounds, isFree⟩ := exists_isFreeSlot_of_card_lt room
  obtain ⟨slot, inBounds, placedEq, slotFree, reached⟩ := placeElement_eq element freeInBounds isFree
  have stored := contents_store fns inBounds element
  simp only [isFreeSlot] at slotFree
  rw [occupant_of_isEmpty fns slotFree, occupant_of_not_isEmpty fns present, add_zero, add_comm,
    Multiset.singleton_add] at stored
  exact ⟨_, placedEq, probed.store inBounds present reached, stored, rfl, numBuckets_store element⟩

theorem probed_of_free {set : HashSet α}
    (allFree : ∀ index < set.numBuckets, isFreeSlot fns set index = true) : Probed fns set := by
  intro index inBounds occupied
  rw [allFree index inBounds] at occupied
  contradiction

/-! ## `Find` -/

theorem find_spec (lawful : fns.Lawful) {set : HashSet α} (probed : Probed fns set)
    (hasFree : HasFreeSlot fns set) (key : α) :
    ∃ index, find fns set key set.numBuckets = some index ∧ Found fns set key index := by
  rcases hasFree with noStorage | ⟨free, freeInBounds, isFree⟩
  · -- No storage: `FindIndex` returns 0, which is `NumBuckets()`.
    refine ⟨0, by simp [find, findIndex, noStorage], Or.inr ⟨noStorage.symm, ?_⟩⟩
    intro element member
    obtain ⟨index, inBounds, -⟩ := mem_contents.mp member
    omega
  · have start := indexForHash_lt (Nat.lt_of_le_of_lt (Nat.zero_le _) freeInBounds)
      (fns.hash key)
    obtain ⟨slot, slotInBounds, search, stops, before⟩ :=
      cyclicSearch_exists (p := fun slot => isFreeSlot fns set slot ||
        fns.pred (elementForIndex fns set slot) key) start freeInBounds (by simp [isFree])
    have returns : find fns set key set.numBuckets =
        some (if isFreeSlot fns set slot then set.numBuckets else slot) := by
      rw [find, findIndex, if_neg (by omega), findIndexFrom_eq_cyclicSearch, search]
      rfl
    refine ⟨_, returns, ?_⟩
    cases slotFree : isFreeSlot fns set slot
    · -- The walk stopped at an element `Pred` matches.
      simp only [slotFree, Bool.false_or] at stops
      exact Or.inl ⟨slotInBounds, slotFree, stops⟩
    · -- The walk met a free slot: a matching element would have been met first.
      refine Or.inr ⟨rfl, fun element member => ?_⟩
      obtain ⟨index, inBounds, occupied, rfl⟩ := mem_contents.mp member
      cases matched : fns.pred (elementForIndex fns set index) key
      · rfl
      have ideal : idealIndex fns set index = set.indexForHash (fns.hash key) := by
        rw [idealIndex, lawful.hash_eq_of_pred matched]
      have notBefore : ¬ cyclicDist set.numBuckets (set.indexForHash (fns.hash key)) index <
          cyclicDist set.numBuckets (set.indexForHash (fns.hash key)) slot := by
        intro closer
        have := before index inBounds closer
        simp [occupied, matched] at this
      have notAfter : ¬ cyclicDist set.numBuckets (set.indexForHash (fns.hash key)) slot <
          cyclicDist set.numBuckets (set.indexForHash (fns.hash key)) index := by
        intro closer
        have := probed index inBounds occupied slot slotInBounds (ideal ▸ closer)
        rw [slotFree] at this
        contradiction
      have same : slot = index := cyclicDist_inj start slotInBounds inBounds (by omega)
      rw [same, occupied] at slotFree
      contradiction

/-! ## `Resize` -/

/-- The loop of `Resize` stores each present old element in the first free slot
on its way: the rebuilt table is probed and holds the old elements besides its
own, as long as they fit. -/
theorem foldlM_reinsert_spec :
    ∀ (old : List α) {acc : HashSet α}, Probed fns acc →
      Multiset.card (contents fns acc) + Multiset.card
          (Multiset.filter (fun element => fns.isEmpty element = false) (old : Multiset α)) ≤
        acc.numBuckets →
      ∃ rebuilt, old.foldlM (reinsert fns) acc = some rebuilt ∧ Probed fns rebuilt ∧
        contents fns rebuilt = contents fns acc +
          Multiset.filter (fun element => fns.isEmpty element = false) (old : Multiset α) ∧
        rebuilt = { acc with data := rebuilt.data } ∧ rebuilt.numBuckets = acc.numBuckets
  | [], acc, probed, _ => ⟨acc, rfl, probed, by simp, rfl, rfl⟩
  | element :: old, acc, probed, room => by
    have remaining : Multiset.filter (fun element => fns.isEmpty element = false)
        ((element :: old : List α) : Multiset α) =
        (if fns.isEmpty element = false then {element} else 0) +
          Multiset.filter (fun element => fns.isEmpty element = false) (old : Multiset α) := by
      rw [← Multiset.cons_coe, Multiset.filter_cons]
    rw [List.foldlM_cons, remaining]
    rw [remaining] at room
    cases present : fns.isEmpty element
    · -- A present element takes the first free slot on its way; one is left for it.
      simp only [present, if_true, Multiset.card_add, Multiset.card_singleton] at room ⊢
      obtain ⟨placed, placedEq, probedPlaced, placedContents, placedShape, placedBuckets⟩ :=
        placeElement_spec probed (by omega) present
      obtain ⟨rebuilt, folded, probedRebuilt, rebuiltContents, shape, buckets⟩ :=
        foldlM_reinsert_spec old probedPlaced
          (by rw [placedContents, placedBuckets, Multiset.card_cons]; omega)
      refine ⟨rebuilt, ?_, probedRebuilt, ?_, ?_, buckets.trans placedBuckets⟩
      · simp only [reinsert, present, Bool.false_eq_true, if_false, placedEq, Option.bind_eq_bind,
          Option.bind_some]
        exact folded
      · rw [rebuiltContents, placedContents, ← Multiset.singleton_add, add_left_comm, add_assoc]
      · rw [shape, placedShape]
    · -- A free value is passed over.
      simp only [present, Bool.true_eq_false, if_false, zero_add] at room ⊢
      obtain ⟨rebuilt, folded, probedRebuilt, rebuiltContents, shape, buckets⟩ :=
        foldlM_reinsert_spec old probed room
      refine ⟨rebuilt, ?_, probedRebuilt, rebuiltContents, shape, buckets⟩
      simp only [reinsert, present, if_true, pure, Option.bind_eq_bind, Option.bind_some]
      exact folded

theorem probed_replicate (lawful : fns.Lawful) (set : HashSet α) (size : Nat) :
    Probed fns { set with data := List.replicate size fns.makeEmpty } := by
  apply probed_of_free
  intro index inBounds
  simp only [numBuckets_mk, List.length_replicate] at inBounds
  simp [isFreeSlot, List.getD_eq_getElem?_getD, inBounds, lawful.isEmpty_makeEmpty]

theorem contents_replicate (lawful : fns.Lawful) (set : HashSet α) (size : Nat) :
    contents fns { set with data := List.replicate size fns.makeEmpty } = 0 := by
  simp [lawful.isEmpty_makeEmpty]

/-- `Resize` to a size that holds the elements keeps them and the invariant,
and sets the bound of the next expansion from the new bucket count. -/
theorem resize_spec (lawful : fns.Lawful) (set : HashSet α) (newSize : Nat)
    (room : Multiset.card (contents fns set) ≤
      if newSize < kMinBuckets then kMinBuckets else newSize) :
    ∃ resized, resize fns set newSize = some resized ∧ Probed fns resized ∧
      contents fns resized = contents fns set ∧
      resized.numBuckets = (if newSize < kMinBuckets then kMinBuckets else newSize) ∧
      resized = { set with data := resized.data, elementsUntilExpand :=
        ⌊((if newSize < kMinBuckets then kMinBuckets else newSize : Nat) : ℚ) *
          set.maxLoadFactor⌋₊ } := by
  obtain ⟨rebuilt, folded, probed, rebuiltContents, shape, buckets⟩ :=
    foldlM_reinsert_spec set.data (probed_replicate lawful set
      (if newSize < kMinBuckets then kMinBuckets else newSize))
      (by simp only [contents_replicate lawful, Multiset.card_zero, zero_add, numBuckets_mk,
        List.length_replicate]; exact room)
  refine ⟨{ rebuilt with elementsUntilExpand :=
    ⌊((if newSize < kMinBuckets then kMinBuckets else newSize : Nat) : ℚ) * set.maxLoadFactor⌋₊ },
    ?_, probed, ?_, ?_, ?_⟩
  · simp only [resize, folded, Option.bind_eq_bind, Option.bind_some]
    rfl
  · show contents fns rebuilt = contents fns set
    rw [rebuiltContents, contents_replicate lawful, zero_add]
    rfl
  · show rebuilt.numBuckets = _
    rw [buckets, numBuckets_mk, List.length_replicate]
  · rw [shape]

/-! ## `Verify` -/

theorem misplaced_eq_false_iff {set : HashSet α} {index : Nat}
    (occupied : isFreeSlot fns set index = false) :
    misplaced fns set index = false ↔ ∀ t < set.numBuckets,
      cyclicDist set.numBuckets (idealIndex fns set index) t <
        cyclicDist set.numBuckets (idealIndex fns set index) index → isFreeSlot fns set t = false := by
  simp only [misplaced, occupied, Bool.not_false, Bool.true_and, List.any_eq_false, List.mem_range,
    Bool.and_eq_true, decide_eq_true_eq, not_and, Bool.not_eq_true]

theorem probed_iff_not_misplaced (set : HashSet α) :
    Probed fns set ↔ ∀ index < set.numBuckets, misplaced fns set index = false := by
  constructor
  · intro probed index inBounds
    cases occupied : isFreeSlot fns set index
    · exact (misplaced_eq_false_iff occupied).mpr (probed index inBounds occupied)
    · simp [misplaced, occupied]
  · intro placed index inBounds occupied
    exact (misplaced_eq_false_iff occupied).mp (placed index inBounds)

/-- One slot of `Verify` counts an error exactly when its element is misplaced:
the slot that `FirstAvailableSlot` finds for the element, its own slot cleared,
is its own slot when every slot on its way holds an element, and a free slot on
its way otherwise. -/
theorem verifySlot_eq (lawful : fns.Lawful) {set : HashSet α} {index : Nat}
    (inBounds : index < set.numBuckets) (errors : Nat) :
    verifySlot fns set errors index =
      some (if misplaced fns set index then errors + 1 else errors) := by
  cases occupied : isFreeSlot fns set index
  · have clearedFree : isFreeSlot fns { set with data := set.data.set index fns.makeEmpty } index =
        true := by
      rw [isFreeSlot_store inBounds, if_pos rfl, lawful.isEmpty_makeEmpty]
    have start := indexForHash_lt (Nat.lt_of_le_of_lt (Nat.zero_le _) inBounds)
      (fns.hash (elementForIndex fns set index))
    obtain ⟨slot, slotInBounds, search, slotFree, before⟩ :=
      firstAvailableSlot_spec { set with data := set.data.set index fns.makeEmpty }
        (by simpa [numBuckets] using start) (by simpa [numBuckets] using inBounds) clearedFree
    simp only [numBuckets_store] at slotInBounds search before
    rw [isFreeSlot_store inBounds] at slotFree
    have sameSlot : slot = index ↔ misplaced fns set index = false := by
      rw [misplaced_eq_false_iff occupied]
      constructor
      · -- Every slot on the way before its own holds an element, or the search stopped there.
        intro same t tInBounds closer
        have different : index ≠ t := by
          rintro rfl
          exact absurd closer (Nat.lt_irrefl _)
        have := before t tInBounds (same ▸ closer)
        rwa [isFreeSlot_store inBounds, if_neg different] at this
      · intro placed
        by_cases atOwn : index = slot
        · exact atOwn.symm
        · rw [if_neg atOwn] at slotFree
          have notBefore : ¬ cyclicDist set.numBuckets (idealIndex fns set index) slot <
              cyclicDist set.numBuckets (idealIndex fns set index) index := by
            intro closer
            rw [placed slot slotInBounds closer] at slotFree
            contradiction
          have notAfter : ¬ cyclicDist set.numBuckets (idealIndex fns set index) index <
              cyclicDist set.numBuckets (idealIndex fns set index) slot := by
            intro closer
            have := before index inBounds closer
            rw [isFreeSlot_store inBounds, if_pos rfl, lawful.isEmpty_makeEmpty] at this
            contradiction
          exact cyclicDist_inj start slotInBounds inBounds (by unfold idealIndex at *; omega)
    have present : fns.isEmpty (elementForIndex fns set index) = false := occupied
    simp only [verifySlot, present, Bool.false_eq_true, if_false,
      indexForHash_of_numBuckets (numBuckets_store _), search, Option.bind_eq_bind,
      Option.bind_some, pure]
    by_cases same : slot = index
    · rw [if_pos same.symm, (sameSlot.mp same)]
      rfl
    · have : misplaced fns set index = true := by
        cases h : misplaced fns set index
        · exact absurd (sameSlot.mpr h) same
        · rfl
      rw [if_neg (Ne.symm same), this]
      rfl
  · have present : fns.isEmpty (elementForIndex fns set index) = true := occupied
    simp [verifySlot, present, misplaced, occupied, pure]

theorem foldlM_verifySlot (lawful : fns.Lawful) (set : HashSet α) :
    ∀ (indices : List Nat), (∀ index ∈ indices, index < set.numBuckets) → ∀ errors,
      indices.foldlM (verifySlot fns set) errors =
        some (errors + indices.countP (misplaced fns set))
  | [], _, errors => rfl
  | index :: indices, inBounds, errors => by
    rw [List.foldlM_cons, verifySlot_eq lawful (inBounds index (List.mem_cons_self ..)),
      Option.bind_eq_bind, Option.bind_some,
      foldlM_verifySlot lawful set indices (fun i member => inBounds i (List.mem_cons_of_mem _ member)),
      List.countP_cons]
    split <;> simp only [Option.some.injEq] <;> omega

theorem verify_eq_countIn (lawful : fns.Lawful) (set : HashSet α) :
    verify fns set = some (countIn (misplaced fns set) 0 set.numBuckets) := by
  rw [verify, foldlM_verifySlot lawful set _ (fun index member => List.mem_range.mp member),
    countIn, Nat.sub_zero, List.range_eq_range', Nat.zero_add]

/-- So `Verify() == 0` exactly when the probe invariant holds. -/
theorem verify_eq_zero_iff (lawful : fns.Lawful) (set : HashSet α) :
    verify fns set = some 0 ↔ Probed fns set := by
  rw [verify_eq_countIn lawful, Option.some_inj, countIn.eq_zero_iff, probed_iff_not_misplaced]
  exact ⟨fun none index inBounds => none index (Nat.zero_le _) inBounds,
    fun none index _ inBounds => none index inBounds⟩

theorem verify_eq_zero_iff_of_createDefault :
    natFunctions.Lawful ∧
      (verify natFunctions createDefault = some 0 ↔ Probed natFunctions createDefault) :=
  ⟨natFunctions_lawful, verify_eq_zero_iff natFunctions_lawful createDefault⟩

theorem verify_eq_zero_of_probed (lawful : fns.Lawful) {set : HashSet α} (probed : Probed fns set) :
    verify fns set = some 0 := by
  rw [verify_eq_countIn lawful, countIn.eq_zero_iff.mpr]
  intro index _ inBounds
  exact (probed_iff_not_misplaced set).mp probed index inBounds

end HashSet

end ArtRuntime.Base
