import Mathlib.Data.Rat.Floor
import Mathlib.Tactic.NormNum

/-! # Hash sets

`HashSet` of `libartbase/base/hash_set.h`: open addressing over the
`NumBuckets()` slots of `data_`, with linear probing, an empty value marking a
free slot, and backward-shift `Erase`. The element type and the `EmptyFn`,
`HashFn` and `Pred` it is instantiated with are parameters. The load factors,
`double` in the source, are exact rationals here, and a conversion of one to
`size_t` is `Nat.floor`.

Every probe loop of the source runs until it meets a free slot (or, in
`FindIndex`, a slot that `Pred` matches). The model runs each on fuel, and
`none` is a loop that never returns: `NumBuckets()` probes visit every slot,
so a loop still running after them runs forever.

The set expands when `Size()` reaches `NumBuckets() * max_load_factor_`,
rounded down, and `Resize` sets that bound again from the new bucket count.
With `SetLoadFactor(0.999, 0.9995)` the set of 1000 buckets expands at 999
elements to `999 / 0.999 = 1000` buckets, the bound stays 999, and the
1000th element takes the last free slot. The assertion after `Expand` is the
only check of that, and a build without it goes on with a full table, in which
`Find` of an element that is not there probes forever, and so does `Erase`, which
looks for a free slot to end its shift at. The rationals give exactly the values
binary64 gives on that run. -/

namespace ArtRuntime.Base

/-- The function objects a `HashSet` is instantiated with: `EmptyFn`,
`HashFn` and `Pred`. -/
structure HashSetFunctions (α : Type) where
  isEmpty : α → Bool
  makeEmpty : α
  hash : α → Nat
  pred : α → α → Bool

def kMinBuckets : Nat := 1000

/-- The slots of `data_`, `num_buckets_` of them, the two counters and the
load factors. -/
structure HashSet (α : Type) where
  data : List α
  numElements : Nat
  elementsUntilExpand : Nat
  minLoadFactor : ℚ
  maxLoadFactor : ℚ

/-- The operations a client applies to a set; `erase key` is
`Erase(Find(key))`, made only when `Find(key) != end()`. -/
inductive HashSetOperation (α : Type) where
  | insert (element : α)
  | erase (key : α)
  | clear
  | reserve (numElements : Nat)
  | shrinkToMaximumLoad
  | setLoadFactor (minLoadFactor maxLoadFactor : ℚ)

namespace HashSet

variable {α : Type} (fns : HashSetFunctions α)

/-- `HashSet(min_load_factor, max_load_factor)`: no storage yet. -/
def create (minLoadFactor maxLoadFactor : ℚ) : HashSet α :=
  ⟨[], 0, 0, minLoadFactor, maxLoadFactor⟩

/-- `HashSet()`, with `kDefaultMinLoadFactor` and `kDefaultMaxLoadFactor`. -/
def createDefault : HashSet α := create (2 / 5) (7 / 10)

def numBuckets (set : HashSet α) : Nat := set.data.length

def elementForIndex (set : HashSet α) (index : Nat) : α := set.data.getD index fns.makeEmpty

def isFreeSlot (set : HashSet α) (index : Nat) : Bool := fns.isEmpty (elementForIndex fns set index)

def indexForHash (set : HashSet α) (hash : Nat) : Nat :=
  if set.numBuckets = 0 then 0 else hash % set.numBuckets

def nextIndex (set : HashSet α) (index : Nat) : Nat :=
  if set.numBuckets ≤ index + 1 then 0 else index + 1

def calculateLoadFactor (set : HashSet α) : ℚ := (set.numElements : ℚ) / set.numBuckets

/-- The loop of `FirstAvailableSlot` from `index`, on at most `fuel` slots. -/
def firstAvailableSlotFrom (set : HashSet α) : (fuel index : Nat) → Option Nat
  | 0, _ => none
  | fuel + 1, index =>
    if isFreeSlot fns set index then some index
    else firstAvailableSlotFrom set fuel (set.nextIndex index)

def firstAvailableSlot (set : HashSet α) (index : Nat) : Option Nat :=
  firstAvailableSlotFrom fns set set.numBuckets index

/-- The loop of `FindIndex` from `index`, on at most `fuel` slots: a free slot
ends it with `NumBuckets()`, a slot that `Pred` matches with its index. -/
def findIndexFrom (set : HashSet α) (key : α) : (fuel index : Nat) → Option Nat
  | 0, _ => none
  | fuel + 1, index =>
    let slot := elementForIndex fns set index
    if fns.isEmpty slot then some set.numBuckets
    else if fns.pred slot key then some index
    else findIndexFrom set key fuel (set.nextIndex index)

def findIndex (set : HashSet α) (key : α) (hash fuel : Nat) : Option Nat :=
  if set.numBuckets = 0 then some 0 else findIndexFrom fns set key fuel (set.indexForHash hash)

/-- `Find`: the index of the iterator it returns, `NumBuckets()` being
`end()`, with the loop of `FindIndex` on `fuel` slots. -/
def find (set : HashSet α) (key : α) (fuel : Nat) : Option Nat :=
  findIndex fns set key (fns.hash key) fuel

/-- `NextNonEmptySlot` of the iterator. -/
def nextNonEmptySlot (set : HashSet α) (index : Nat) : Nat :=
  if bounded : index + 1 < set.numBuckets ∧ isFreeSlot fns set (index + 1) = true then
    nextNonEmptySlot set (index + 1)
  else index + 1
termination_by set.numBuckets - index
decreasing_by have := bounded.1; omega

/-- The element stored in the first free slot from its ideal one, as
`InsertWithHash` and `Resize` store it. -/
def placeElement (set : HashSet α) (element : α) : Option (HashSet α) := do
  let index ← firstAvailableSlot fns set (set.indexForHash (fns.hash element))
  pure { set with data := set.data.set index element }

/-- One old slot of the loop of `Resize`: its element, if any, stored again. -/
def reinsert (set : HashSet α) (element : α) : Option (HashSet α) :=
  if fns.isEmpty element then pure set else placeElement fns set element

/-- `Resize`: fresh storage of at least `kMinBuckets` free slots, and the old
elements stored again in slot order. -/
def resize (set : HashSet α) (newSize : Nat) : Option (HashSet α) := do
  let newSize := if newSize < kMinBuckets then kMinBuckets else newSize
  let fresh := { set with data := List.replicate newSize fns.makeEmpty }
  let rebuilt ← set.data.foldlM (reinsert fns) fresh
  pure { rebuilt with elementsUntilExpand := ⌊(newSize : ℚ) * set.maxLoadFactor⌋₊ }

def expand (set : HashSet α) : Option (HashSet α) :=
  resize fns set ⌊(set.numElements : ℚ) / set.minLoadFactor⌋₊

/-- `Insert`, which allows duplicates. -/
def insert (set : HashSet α) (element : α) : Option (HashSet α) := do
  let set ← if set.elementsUntilExpand ≤ set.numElements then expand fns set else pure set
  let set ← placeElement fns set element
  pure { set with numElements := set.numElements + 1 }

/-- The loop of `Erase` on at most `fuel` slots. `emptyIndex` is the slot to be
emptied and `index` the last slot looked at; the next element moves back into
the hole unless its ideal slot lies cyclically in `(emptyIndex, nextIndex]`.
Also whether an element moved. -/
def eraseFrom (set : HashSet α) : (fuel emptyIndex index : Nat) → (filled : Bool) →
    Option (HashSet α × Bool)
  | 0, _, _, _ => none
  | fuel + 1, emptyIndex, index, filled =>
    let nextIndex := set.nextIndex index
    let nextElement := elementForIndex fns set nextIndex
    if fns.isEmpty nextElement then
      some ({ set with data := set.data.set emptyIndex fns.makeEmpty }, filled)
    else
      let nextIdealIndex := set.indexForHash (fns.hash nextElement)
      let unwrappedNextIndex :=
        if nextIndex < emptyIndex then nextIndex + set.numBuckets else nextIndex
      let unwrappedNextIdealIndex :=
        if nextIdealIndex < emptyIndex then nextIdealIndex + set.numBuckets else nextIdealIndex
      if unwrappedNextIdealIndex ≤ emptyIndex ∨ unwrappedNextIndex < unwrappedNextIdealIndex then
        eraseFrom { set with data := set.data.set emptyIndex nextElement } fuel nextIndex nextIndex
          true
      else eraseFrom set fuel emptyIndex nextIndex filled

/-- `Erase(it)` for the iterator at `index`: the set without that element and
the index of the iterator returned. -/
def erase (set : HashSet α) (index : Nat) : Option (HashSet α × Nat) := do
  let (erased, filled) ← eraseFrom fns set set.numBuckets index index false
  let erased := { erased with numElements := erased.numElements - 1 }
  pure (erased, if filled then index else nextNonEmptySlot fns erased index)

/-- `begin()`: the first slot that holds an element, `NumBuckets()` if none does. -/
def begin (set : HashSet α) : Nat :=
  if set.numBuckets ≠ 0 ∧ isFreeSlot fns set 0 = true then nextNonEmptySlot fns set 0 else 0

/-- The loop `for (it = begin(); it != end();) it = Erase(it);` from the iterator at
`index`, on at most `fuel` rounds: the elements met at the iterator, and the set left. -/
def eraseEach (set : HashSet α) : (fuel index : Nat) → Option (List α × HashSet α)
  | 0, _ => none
  | fuel + 1, index =>
    if index = set.numBuckets then some ([], set)
    else do
      let (erased, next) ← erase fns set index
      let (visited, final) ← eraseEach erased fuel next
      pure (elementForIndex fns set index :: visited, final)

/-- `Clear`: the storage released. -/
def clear (set : HashSet α) : HashSet α :=
  { set with data := [], numElements := 0, elementsUntilExpand := 0 }

def shrinkToMaximumLoad (set : HashSet α) : Option (HashSet α) :=
  resize fns set ⌊(set.numElements : ℚ) / set.maxLoadFactor⌋₊

/-- The loop of `Reserve` that adds buckets until they hold more than
`numElements + 1` elements below the maximum load, on at most `fuel` rounds. -/
def reserveFrom (set : HashSet α) (numElements : Nat) : (fuel numBuckets : Nat) → Option Nat
  | 0, _ => none
  | fuel + 1, numBuckets =>
    if ⌊(numBuckets : ℚ) * set.maxLoadFactor⌋₊ ≤ numElements + 1 then
      reserveFrom set numElements fuel (numBuckets + 1)
    else some numBuckets

/-- `Reserve`; for a positive maximum load factor `p / q` the loop ends within
`2 * q + 3` rounds. -/
def reserve (set : HashSet α) (numElements : Nat) : Option (HashSet α) := do
  let numBuckets ← reserveFrom set numElements (2 * set.maxLoadFactor.den + 3)
    ⌊(numElements : ℚ) / set.maxLoadFactor⌋₊
  if set.numBuckets < numBuckets then resize fns set numBuckets else pure set

/-- `SetLoadFactor`: a set loaded past the new maximum is resized to the mean of
the two load factors. -/
def setLoadFactor (set : HashSet α) (minLoadFactor maxLoadFactor : ℚ) : Option (HashSet α) :=
  let set := { set with
    minLoadFactor := minLoadFactor
    maxLoadFactor := maxLoadFactor
    elementsUntilExpand := ⌊(set.numBuckets : ℚ) * maxLoadFactor⌋₊ }
  if maxLoadFactor < set.calculateLoadFactor then
    resize fns set ⌊(set.numElements : ℚ) / ((minLoadFactor + maxLoadFactor) * (1 / 2))⌋₊
  else some set

/-- One slot of the loop of `Verify`: one more error when the element of the
slot, taken out, would be stored in another slot. -/
def verifySlot (set : HashSet α) (errors index : Nat) : Option Nat :=
  let element := elementForIndex fns set index
  if fns.isEmpty element then pure errors
  else do
    let cleared := { set with data := set.data.set index fns.makeEmpty }
    let firstSlot ← firstAvailableSlot fns cleared (cleared.indexForHash (fns.hash element))
    pure (if index = firstSlot then errors else errors + 1)

/-- `Verify`: the number of elements that `FirstAvailableSlot` would not put
back in their own slot. -/
def verify (set : HashSet α) : Option Nat :=
  (List.range set.numBuckets).foldlM (verifySlot fns set) 0

def apply (set : HashSet α) : HashSetOperation α → Option (HashSet α)
  | .insert element => insert fns set element
  | .erase key => do
    let index ← find fns set key set.numBuckets
    if index = set.numBuckets then pure set else Prod.fst <$> erase fns set index
  | .clear => pure (clear set)
  | .reserve numElements => reserve fns set numElements
  | .shrinkToMaximumLoad => shrinkToMaximumLoad fns set
  | .setLoadFactor minLoadFactor maxLoadFactor => setLoadFactor fns set minLoadFactor maxLoadFactor

def run (set : HashSet α) (operations : List (HashSetOperation α)) : Option (HashSet α) :=
  operations.foldlM (apply fns) set


theorem firstAvailableSlotFrom_of_isFreeSlot {set : HashSet α} {index : Nat}
    (free : isFreeSlot fns set index = true) (fuel : Nat) :
    firstAvailableSlotFrom fns set (fuel + 1) index = some index := by
  rw [firstAvailableSlotFrom, if_pos free]

/-! ## One step of each operation -/

@[simp] theorem run_nil (set : HashSet α) : run fns set [] = some set := rfl

@[simp] theorem run_cons (set : HashSet α) (operation : HashSetOperation α)
    (operations : List (HashSetOperation α)) :
    run fns set (operation :: operations) = (apply fns set operation).bind (run fns · operations) :=
  List.foldlM_cons

theorem run_append (set : HashSet α) (operations later : List (HashSetOperation α)) :
    run fns set (operations ++ later) = (run fns set operations).bind (run fns · later) :=
  List.foldlM_append

theorem insert_of_lt {set : HashSet α} (room : set.numElements < set.elementsUntilExpand)
    (element : α) :
    insert fns set element = (placeElement fns set element).map
      fun placed => { placed with numElements := placed.numElements + 1 } := by
  simp only [insert, if_neg (Nat.not_le.mpr room), pure_bind]
  cases placeElement fns set element <;> rfl

/-- `Insert` at the bound of the expansion stores the element in the expanded
set. -/
theorem insert_of_expand {set grown : HashSet α}
    (atBound : set.elementsUntilExpand ≤ set.numElements) (expanded : expand fns set = some grown)
    (element : α) :
    insert fns set element = (placeElement fns grown element).map
      fun placed => { placed with numElements := placed.numElements + 1 } := by
  simp only [insert, if_pos atBound, expanded, Option.bind_eq_bind, Option.bind_some]
  cases placeElement fns grown element <;> rfl

theorem placeElement_of_isFreeSlot {set : HashSet α} {element : α}
    (free : isFreeSlot fns set (set.indexForHash (fns.hash element)) = true)
    (nonempty : 0 < set.numBuckets) :
    placeElement fns set element =
      some { set with data := set.data.set (set.indexForHash (fns.hash element)) element } := by
  obtain ⟨fuel, buckets⟩ : ∃ fuel, set.numBuckets = fuel + 1 := ⟨set.numBuckets - 1, by omega⟩
  simp only [placeElement, firstAvailableSlot, buckets,
    firstAvailableSlotFrom_of_isFreeSlot fns free]
  rfl

/-! ## The probe loops -/

theorem nextIndex_lt {set : HashSet α} (nonempty : 0 < set.numBuckets) (index : Nat) :
    set.nextIndex index < set.numBuckets := by
  unfold nextIndex
  split <;> omega

theorem indexForHash_lt {set : HashSet α} (nonempty : 0 < set.numBuckets) (hash : Nat) :
    set.indexForHash hash < set.numBuckets := by
  unfold indexForHash
  rw [if_neg (Nat.pos_iff_ne_zero.mp nonempty)]
  exact Nat.mod_lt hash nonempty

theorem elementForIndex_mem {set : HashSet α} {index : Nat} (inBounds : index < set.numBuckets) :
    elementForIndex fns set index ∈ set.data := by
  rw [elementForIndex, List.getD_eq_getElem?_getD, List.getElem?_eq_getElem inBounds,
    Option.getD_some]
  exact List.getElem_mem inBounds

/-- In a table where every slot holds an element that `Pred` does not match
with `key`, the loop of `FindIndex` never returns. -/
theorem findIndexFrom_eq_none {set : HashSet α} {key : α}
    (occupied : ∀ index < set.numBuckets, fns.isEmpty (elementForIndex fns set index) = false ∧
      fns.pred (elementForIndex fns set index) key = false) :
    ∀ fuel index, index < set.numBuckets → findIndexFrom fns set key fuel index = none := by
  intro fuel
  induction fuel with
  | zero => intro index _; rfl
  | succ fuel ih =>
    intro index inBounds
    obtain ⟨notEmpty, unmatched⟩ := occupied index inBounds
    have nonempty : 0 < set.numBuckets := Nat.lt_of_le_of_lt (Nat.zero_le index) inBounds
    simp only [findIndexFrom, notEmpty, unmatched]
    exact ih (set.nextIndex index) (nextIndex_lt nonempty index)

theorem find_eq_none {set : HashSet α} {key : α} (nonempty : 0 < set.numBuckets)
    (occupied : ∀ index < set.numBuckets, fns.isEmpty (elementForIndex fns set index) = false ∧
      fns.pred (elementForIndex fns set index) key = false) (fuel : Nat) :
    find fns set key fuel = none := by
  unfold find findIndex
  rw [if_neg (Nat.pos_iff_ne_zero.mp nonempty)]
  exact findIndexFrom_eq_none fns occupied fuel _ (indexForHash_lt nonempty _)

theorem occupied_set {set : HashSet α}
    (occupied : ∀ index < set.numBuckets, fns.isEmpty (elementForIndex fns set index) = false)
    (nonempty : 0 < set.numBuckets) (slot : Nat) {element : α} (taken : fns.isEmpty element = false) :
    let stored : HashSet α := { set with data := set.data.set slot element }
    0 < stored.numBuckets ∧
      ∀ index < stored.numBuckets, fns.isEmpty (elementForIndex fns stored index) = false := by
  intro stored
  have same : stored.numBuckets = set.numBuckets := List.length_set ..
  rw [same]
  refine ⟨nonempty, fun index inBounds => ?_⟩
  show fns.isEmpty ((set.data.set slot element).getD index fns.makeEmpty) = false
  rw [List.getD_eq_getElem?_getD, List.getElem?_set]
  by_cases moved : slot = index
  · rw [if_pos moved, if_pos (moved ▸ inBounds)]
    exact taken
  · rw [if_neg moved, ← List.getD_eq_getElem?_getD]
    exact occupied index inBounds

/-- In a table where every slot holds an element, the loop of `Erase` never meets a
free slot: its moves keep every slot taken, so it runs out of any fuel. -/
theorem eraseFrom_of_occupied {set : HashSet α} (nonempty : 0 < set.numBuckets)
    (occupied : ∀ index < set.numBuckets, fns.isEmpty (elementForIndex fns set index) = false) :
    ∀ fuel emptyIndex index filled, eraseFrom fns set fuel emptyIndex index filled = none := by
  intro fuel
  induction fuel generalizing set with
  | zero => intro _ _ _; rfl
  | succ fuel ih =>
    intro emptyIndex index filled
    have taken := occupied (set.nextIndex index) (nextIndex_lt nonempty index)
    -- the next element moves into the hole or stays; either way the table stays full
    obtain ⟨movedNonempty, movedOccupied⟩ := occupied_set fns occupied nonempty emptyIndex taken
    simp only [eraseFrom, taken, Bool.false_eq_true, if_false, ih nonempty occupied,
      ih movedNonempty movedOccupied, ite_self]

theorem eraseEach_of_occupied {set : HashSet α} (nonempty : 0 < set.numBuckets)
    (occupied : ∀ index < set.numBuckets, fns.isEmpty (elementForIndex fns set index) = false)
    {index : Nat} (inBounds : index < set.numBuckets) (fuel : Nat) :
    eraseEach fns set fuel index = none := by
  cases fuel with
  | zero => rfl
  | succ fuel =>
    have erased : erase fns set index = none := by
      simp only [erase, eraseFrom_of_occupied fns nonempty occupied, Option.bind_eq_bind,
        Option.bind_none]
    simp only [eraseEach, if_neg (Nat.ne_of_lt inBounds), erased, Option.bind_eq_bind,
      Option.bind_none]

theorem verifySlot_of_ideal {set : HashSet α} (emptyIsEmpty : fns.isEmpty fns.makeEmpty = true)
    {index : Nat} (inBounds : index < set.numBuckets)
    (ideal : isFreeSlot fns set index = false →
      set.indexForHash (fns.hash (elementForIndex fns set index)) = index) (errors : Nat) :
    verifySlot fns set errors index = some errors := by
  unfold verifySlot
  cases occupied : fns.isEmpty (elementForIndex fns set index) with
  | true => simp only [occupied, if_true]; rfl
  | false =>
    let cleared : HashSet α := { set with data := set.data.set index fns.makeEmpty }
    have sameBuckets : cleared.numBuckets = set.numBuckets := List.length_set ..
    have inData : index < set.data.length := inBounds
    have clearedFree : isFreeSlot fns cleared index = true := by
      simp [isFreeSlot, elementForIndex, cleared, List.getD_eq_getElem?_getD, inData, emptyIsEmpty]
    obtain ⟨fuel, buckets⟩ : ∃ fuel, cleared.numBuckets = fuel + 1 :=
      ⟨set.numBuckets - 1, by omega⟩
    have clearedIdeal : cleared.indexForHash (fns.hash (elementForIndex fns set index)) = index :=
      calc cleared.indexForHash (fns.hash (elementForIndex fns set index))
          = set.indexForHash (fns.hash (elementForIndex fns set index)) := by
            simp only [indexForHash, sameBuckets]
        _ = index := ideal occupied
    simp only [occupied, Bool.false_eq_true, if_false]
    show (do
        let firstSlot ← firstAvailableSlot fns cleared
          (cleared.indexForHash (fns.hash (elementForIndex fns set index)))
        pure (if index = firstSlot then errors else errors + 1)) = some errors
    rw [clearedIdeal, firstAvailableSlot, buckets,
      firstAvailableSlotFrom_of_isFreeSlot fns clearedFree]
    simp

/-- `Verify` counts no error in a table whose every element sits in its ideal
slot. -/
theorem verify_eq_zero_of_ideal {set : HashSet α} (emptyIsEmpty : fns.isEmpty fns.makeEmpty = true)
    (ideal : ∀ index < set.numBuckets, isFreeSlot fns set index = false →
      set.indexForHash (fns.hash (elementForIndex fns set index)) = index) :
    verify fns set = some 0 := by
  unfold verify
  -- the count stays zero over any slots of the table
  suffices keeps : ∀ indices : List Nat, (∀ index ∈ indices, index < set.numBuckets) →
      indices.foldlM (verifySlot fns set) 0 = some 0 from
    keeps (List.range set.numBuckets) (fun index member => List.mem_range.mp member)
  intro indices inBounds
  induction indices with
  | nil => rfl
  | cons index rest ih =>
    have inRange : index < set.numBuckets := inBounds index (List.mem_cons_self ..)
    rw [List.foldlM_cons, verifySlot_of_ideal fns emptyIsEmpty inRange (ideal index inRange)]
    exact ih (fun other member => inBounds other (List.mem_cons_of_mem _ member))

/-! ## A table that fills up

`Nat` elements with zero as the empty value, hashed to themselves and
compared by equality. After `SetLoadFactor(0.999, 0.9995)` on a new set the
keys 1 to 999 land in their own slots of 1000 buckets, and the 1000th key
makes the set expand to the same 1000 buckets and takes slot 0, the last free
one. -/

def natFunctions : HashSetFunctions Nat where
  isEmpty element := element == 0
  makeEmpty := 0
  hash element := element
  pred slot key := slot == key

/-- The slots of `kMinBuckets` buckets holding the keys up to `count`, each in
its own slot. -/
def filledSlots (count : Nat) : List Nat :=
  (List.range kMinBuckets).map fun index => if index ≤ count then index else 0

/-- The set after `SetLoadFactor(0.999, 0.9995)` and the inserts of the keys
up to `count`. -/
def filling (count : Nat) : HashSet Nat := ⟨filledSlots count, count, 999, 999 / 1000, 1999 / 2000⟩

def fillingOperations : List (HashSetOperation Nat) :=
  .setLoadFactor (999 / 1000) (1999 / 2000) :: (List.range' 1 kMinBuckets).map .insert

theorem data_filling (count : Nat) : (filling count).data = filledSlots count := by
  simp only [filling]

@[simp] theorem length_filledSlots (count : Nat) : (filledSlots count).length = kMinBuckets := by
  simp [filledSlots]

theorem getD_filledSlots (count index : Nat) :
    (filledSlots count).getD index 0 = if index < kMinBuckets ∧ index ≤ count then index else 0 := by
  by_cases inRange : index < kMinBuckets
  · simp [filledSlots, List.getD_eq_getElem?_getD, inRange]
  · simp [filledSlots, List.getD_eq_getElem?_getD, inRange]

theorem set_filledSlots (count : Nat) :
    (filledSlots count).set (count + 1) (count + 1) = filledSlots (count + 1) := by
  apply List.ext_getElem (by simp)
  intro index _ inRange
  simp only [filledSlots, List.getElem_set, List.getElem_map, List.getElem_range]
  split_ifs <;> omega

theorem replicate_eq_filledSlots_zero : List.replicate kMinBuckets 0 = filledSlots 0 := by
  apply List.ext_getElem (by simp)
  intro index _ _
  simp only [filledSlots, List.getElem_replicate, List.getElem_map, List.getElem_range]
  split_ifs <;> omega

theorem filledSlots_last : filledSlots 999 = List.range (999 + 1) := by
  rw [filledSlots, List.map_congr_left (g := id), List.map_id]
  · rfl
  · intro index member
    have : index < kMinBuckets := List.mem_range.mp member
    simp only [kMinBuckets] at this
    simp [show index ≤ 999 by omega]

theorem numBuckets_of_filledSlots {set : HashSet Nat} {count : Nat} (slots : set.data = filledSlots count) :
    set.numBuckets = kMinBuckets := by
  rw [numBuckets, slots, length_filledSlots]

theorem placeElement_filledSlots {set : HashSet Nat} {count : Nat}
    (slots : set.data = filledSlots count) (room : count + 1 < kMinBuckets) :
    placeElement natFunctions set (count + 1) = some { set with data := filledSlots (count + 1) } := by
  have buckets := numBuckets_of_filledSlots slots
  have ideal : set.indexForHash (natFunctions.hash (count + 1)) = count + 1 := by
    simp only [indexForHash, buckets]
    exact Nat.mod_eq_of_lt room
  have free : isFreeSlot natFunctions set (count + 1) = true := by
    show natFunctions.isEmpty (set.data.getD (count + 1) 0) = true
    rw [slots, getD_filledSlots, if_neg (by omega)]
    rfl
  rw [placeElement_of_isFreeSlot natFunctions (by rw [ideal]; exact free) (by rw [buckets]; decide),
    ideal, slots, set_filledSlots]

theorem insert_filling {count : Nat} (below : count < 999) :
    insert natFunctions (filling count) (count + 1) = some (filling (count + 1)) := by
  rw [insert_of_lt natFunctions (show count < 999 from below),
    placeElement_filledSlots (data_filling count) (by unfold kMinBuckets; omega)]
  simp only [Option.map_some, filling]

theorem run_inserts_filling (inserts : Nat) : ∀ count, count + inserts ≤ 999 →
    run natFunctions (filling count) ((List.range' (count + 1) inserts).map .insert) =
      some (filling (count + inserts)) := by
  induction inserts with
  | zero => intro count _; rfl
  | succ inserts ih =>
    intro count fits
    rw [List.range'_succ, List.map_cons, run_cons, apply, insert_filling (by omega),
      Option.bind_some, ih (count + 1) (by omega), Nat.add_right_comm, Nat.add_assoc]

theorem floor_maxLoad : ⌊((kMinBuckets : Nat) : ℚ) * (1999 / 2000)⌋₊ = 999 := by
  have buckets : ((kMinBuckets : Nat) : ℚ) = 1000 := by simp [kMinBuckets]
  rw [buckets, Nat.floor_eq_iff (by norm_num)]
  norm_num

theorem floor_minLoad : ⌊((999 : Nat) : ℚ) / (999 / 1000)⌋₊ = kMinBuckets := by
  norm_num [kMinBuckets]

theorem setLoadFactor_createDefault :
    setLoadFactor natFunctions createDefault (999 / 1000) (1999 / 2000) =
      some ⟨[], 0, 0, 999 / 1000, 1999 / 2000⟩ := by
  norm_num [setLoadFactor, createDefault, create, calculateLoadFactor, numBuckets]

/-- The first insert expands the set without storage to `kMinBuckets` free
slots. -/
theorem expand_empty :
    expand natFunctions ⟨[], 0, 0, 999 / 1000, 1999 / 2000⟩ = some (filling 0) := by
  simp only [expand, resize, Nat.cast_zero, zero_div, Nat.floor_zero, List.foldlM_nil, pure_bind]
  rw [if_pos (by decide), floor_maxLoad, show natFunctions.makeEmpty = 0 from rfl,
    replicate_eq_filledSlots_zero]
  rfl

theorem foldlM_reinsert_filledSlots (set : HashSet Nat) (count : Nat) (room : count < kMinBuckets) :
    (List.range (count + 1)).foldlM (reinsert natFunctions) { set with data := filledSlots 0 } =
      some { set with data := filledSlots count } := by
  induction count with
  | zero => rfl
  | succ count ih =>
    rw [List.range_succ, List.foldlM_append, ih (by omega)]
    simp only [Option.bind_eq_bind, Option.bind_some, List.foldlM_cons, List.foldlM_nil]
    rw [reinsert, if_neg (by simp [natFunctions]),
      @placeElement_filledSlots { set with data := filledSlots count } count (by simp only) room]
    rfl

/-- At 999 keys the set expands to `999 / 0.999 = 1000` buckets: the same
table, with the same bound of 999 elements. -/
theorem expand_filling_last : expand natFunctions (filling 999) = some (filling 999) := by
  have rebuilt := foldlM_reinsert_filledSlots (filling 999) 999 (by decide)
  rw [← replicate_eq_filledSlots_zero, ← filledSlots_last] at rebuilt
  have buckets : ⌊((filling 999).numElements : ℚ) / (filling 999).minLoadFactor⌋₊ = kMinBuckets :=
    floor_minLoad
  have bound : ⌊((kMinBuckets : Nat) : ℚ) * (filling 999).maxLoadFactor⌋₊ = 999 := floor_maxLoad
  rw [expand, resize, buckets, if_neg (Nat.lt_irrefl _), show natFunctions.makeEmpty = 0 from rfl,
    data_filling, rebuilt, bound]
  simp only [filling, Option.bind_eq_bind, Option.bind_some, Option.pure_def]

theorem insert_first :
    insert natFunctions ⟨[], 0, 0, 999 / 1000, 1999 / 2000⟩ 1 = some (filling 1) := by
  rw [insert_of_expand natFunctions (Nat.le_refl 0) expand_empty,
    placeElement_filledSlots (data_filling 0) (by decide)]
  simp only [Option.map_some, filling]

/-- The set of 1000 keys in 1000 buckets: the key 1000 in slot 0, every other
key in its own slot. -/
def fullTable : HashSet Nat :=
  ⟨(filledSlots 999).set 0 kMinBuckets, kMinBuckets, 999, 999 / 1000, 1999 / 2000⟩

/-- The 1000th key finds the expansion leaving the table as it was and takes
slot 0, its ideal slot and the last free one. -/
theorem insert_filling_last : insert natFunctions (filling 999) kMinBuckets = some fullTable := by
  have buckets : (filling 999).numBuckets = kMinBuckets := numBuckets_of_filledSlots (data_filling 999)
  have ideal : (filling 999).indexForHash (natFunctions.hash kMinBuckets) = 0 := by
    simp only [indexForHash, buckets]
    exact Nat.mod_self kMinBuckets
  have free : isFreeSlot natFunctions (filling 999) 0 = true := by
    show natFunctions.isEmpty ((filling 999).data.getD 0 0) = true
    rw [data_filling, getD_filledSlots, if_pos (by decide)]
    rfl
  rw [insert_of_expand natFunctions (Nat.le_refl 999) expand_filling_last,
    placeElement_of_isFreeSlot natFunctions (by rw [ideal]; exact free) (by rw [buckets]; decide),
    ideal, data_filling]
  simp only [Option.map_some, filling, fullTable]
  rfl

theorem getD_fullTable (index : Nat) (inRange : index < kMinBuckets) :
    fullTable.data.getD index 0 = if index = 0 then kMinBuckets else index := by
  simp only [fullTable, List.getD_eq_getElem?_getD, List.getElem?_set, length_filledSlots]
  by_cases first : index = 0
  · simp [first, kMinBuckets]
  · rw [if_neg (Ne.symm first), if_neg first, ← List.getD_eq_getElem?_getD, getD_filledSlots,
      if_pos ⟨inRange, by unfold kMinBuckets at inRange; omega⟩]

theorem fillingOperations_eq :
    fillingOperations = .setLoadFactor (999 / 1000) (1999 / 2000) :: .insert 1 ::
      ((List.range' 2 998).map .insert ++ [.insert kMinBuckets]) := by
  rw [fillingOperations, show kMinBuckets = 998 + 1 + 1 from rfl, List.range'_succ, List.map_cons,
    ← List.range'_append, List.map_append]
  rfl

theorem numBuckets_fullTable : fullTable.numBuckets = kMinBuckets := by
  simp [fullTable, numBuckets]

theorem elementForIndex_fullTable {index : Nat} (inBounds : index < fullTable.numBuckets) :
    elementForIndex natFunctions fullTable index = if index = 0 then kMinBuckets else index :=
  getD_fullTable index (numBuckets_fullTable ▸ inBounds)

theorem occupied_fullTable :
    ∀ index < fullTable.numBuckets,
      natFunctions.isEmpty (elementForIndex natFunctions fullTable index) = false := by
  intro index inBounds
  have occupied : elementForIndex natFunctions fullTable index ≠ 0 := by
    rw [elementForIndex_fullTable inBounds]
    unfold kMinBuckets
    split_ifs <;> omega
  exact beq_eq_false_iff_ne.mpr occupied

theorem run_fillingOperations : run natFunctions createDefault fillingOperations = some fullTable := by
  have inserts := run_inserts_filling 998 1 (by decide)
  rw [fillingOperations_eq, run_cons, apply, setLoadFactor_createDefault, Option.bind_some,
    run_cons, apply, insert_first, Option.bind_some, run_append, inserts, Option.bind_some,
    run_cons, apply, insert_filling_last, Option.bind_some, run_nil]

theorem verify_fullTable : verify natFunctions fullTable = some 0 := by
  apply verify_eq_zero_of_ideal natFunctions rfl
  intro index inBounds _
  have inRange : index < kMinBuckets := by rw [← numBuckets_fullTable]; exact inBounds
  have nonzero : fullTable.numBuckets ≠ 0 := by rw [numBuckets_fullTable]; decide
  rw [elementForIndex_fullTable inBounds]
  show (if fullTable.numBuckets = 0 then 0
    else (if index = 0 then kMinBuckets else index) % fullTable.numBuckets) = index
  rw [if_neg nonzero, numBuckets_fullTable]
  by_cases first : index = 0
  · rw [if_pos first, Nat.mod_self, first]
  · rw [if_neg first, Nat.mod_eq_of_lt inRange]

/-- After `SetLoadFactor(0.999, 0.9995)` and the inserts of the keys 1 to
1000 every slot of the 1000 buckets is taken, and `Verify` finds each element
in its place; `Find` of a key that the set does not hold probes forever
instead of returning `end()`. -/
theorem run_fillingOperations_find_never_returns :
    ∃ full, run natFunctions createDefault fillingOperations = some full ∧
      full.numElements = full.numBuckets ∧ verify natFunctions full = some 0 ∧
      ∀ key, key ∉ full.data → ∀ fuel, find natFunctions full key fuel = none := by
  refine ⟨fullTable, run_fillingOperations, numBuckets_fullTable.symm, verify_fullTable, ?_⟩
  intro key absent fuel
  apply find_eq_none natFunctions (by rw [numBuckets_fullTable]; decide)
  intro index inBounds
  have differs : elementForIndex natFunctions fullTable index ≠ key :=
    fun same => absent (same ▸ elementForIndex_mem natFunctions inBounds)
  exact ⟨occupied_fullTable index inBounds, beq_eq_false_iff_ne.mpr differs⟩

/-- The same reachable table, with `Verify() == 0` and 1000 elements, cannot be
emptied by erasing while iterating: `begin()` is slot 0, and the first `Erase`
probes for a free slot forever, so the loop
`for (it = begin(); it != end();) it = Erase(it);` never ends. -/
theorem eraseEach_never_returns_on_full_table :
    run natFunctions createDefault fillingOperations = some fullTable ∧
      verify natFunctions fullTable = some 0 ∧ fullTable.numElements = kMinBuckets ∧
      begin natFunctions fullTable = 0 ∧
      (∀ fuel, eraseFrom natFunctions fullTable fuel 0 0 false = none) ∧
      ∀ fuel, eraseEach natFunctions fullTable fuel (begin natFunctions fullTable) = none := by
  have nonempty : 0 < fullTable.numBuckets := by rw [numBuckets_fullTable]; decide
  have first : begin natFunctions fullTable = 0 := by
    have taken := occupied_fullTable 0 nonempty
    simp only [begin, isFreeSlot, taken, Bool.false_eq_true, and_false, if_false]
  refine ⟨run_fillingOperations, verify_fullTable, rfl, first, ?_, ?_⟩
  · intro fuel
    exact eraseFrom_of_occupied natFunctions nonempty occupied_fullTable fuel 0 0 false
  · intro fuel
    rw [first]
    exact eraseEach_of_occupied natFunctions nonempty occupied_fullTable nonempty fuel

end HashSet

end ArtRuntime.Base
