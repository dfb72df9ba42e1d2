import ArtRuntime.Base.HashSetProbing

/-! # Backward-shift `Erase`

`Erase` empties the slot of an element and then walks on until it meets a free
slot. An element met on the way whose ideal slot does not lie between the hole
and its own slot is moved back into the hole, and its slot becomes the new
hole. The source compares "unwrapped" indices; `eraseFrom_succ` reads the
comparison as the question whether the ideal slot lies on the way from the
hole, past it, to the element's slot.

The loop keeps `Shifting`: the invariant holds for every slot but the hole,
and every element passed over since the hole was made has its ideal slot past
the hole. When the walk meets a free slot, no element's way crosses the hole,
and emptying it gives a probed table (`eraseFrom_spec`). The set loses exactly
the erased element, and nothing outside the cluster after the erased slot
changes.

`eraseEach_spec` follows the loop `for (it = begin(); it != end();)
it = Erase(it);` over every set that keeps the invariant and has a free slot:
it visits each element once and leaves the set empty. The slots before the
iterator stay free, so the shift never wraps around to slots the iterator
has passed. -/

namespace ArtRuntime.Base

open ArtRuntime.Foundation

namespace HashSet

variable {α : Type} {fns : HashSetFunctions α}

/-- One round of the loop of `Erase`, with the unwrapped comparison read as a
question about the cycle: the next element moves back into the hole unless its
ideal slot lies past the hole on the way to the element. -/
theorem eraseFrom_succ {set : HashSet α} {hole : Nat} (holeInBounds : hole < set.numBuckets)
    (fuel index : Nat) (filled : Bool) :
    eraseFrom fns set (fuel + 1) hole index filled =
      if isFreeSlot fns set (set.nextIndex index) then
        some ({ set with data := set.data.set hole fns.makeEmpty }, filled)
      else if cyclicDist set.numBuckets hole (idealIndex fns set (set.nextIndex index)) = 0 ∨
          cyclicDist set.numBuckets hole (set.nextIndex index) <
            cyclicDist set.numBuckets hole (idealIndex fns set (set.nextIndex index)) then
        eraseFrom fns
          { set with data := set.data.set hole (elementForIndex fns set (set.nextIndex index)) }
          fuel (set.nextIndex index) (set.nextIndex index) true
      else eraseFrom fns set fuel hole (set.nextIndex index) filled := by
  have unwrapped : ∀ slot, (if slot < hole then slot + set.numBuckets else slot) =
      hole + cyclicDist set.numBuckets hole slot := unwrap_eq_add_cyclicDist holeInBounds
  have same : ∀ a b : Nat, (hole + a ≤ hole ∨ hole + b < hole + a) ↔ (a = 0 ∨ b < a) := by
    intro a b; omega
  simp only [eraseFrom, isFreeSlot, idealIndex, unwrapped, same]
  -- The two sides differ only in how the conditions are decided.
  congr

/-- The state of the loop of `Erase`: the hole at `hole`, the slots looked at up
to `index`, and a free slot `free` still ahead. -/
structure Shifting (fns : HashSetFunctions α) (set : HashSet α) (hole index free : Nat) : Prop where
  hole_lt : hole < set.numBuckets
  index_lt : index < set.numBuckets
  free_lt : free < set.numBuckets
  /-- The invariant, for every element but the one in the hole, with the hole taken as held. -/
  probed : ∀ i < set.numBuckets, i ≠ hole → isFreeSlot fns set i = false →
    ∀ t < set.numBuckets, t ≠ hole →
      cyclicDist set.numBuckets (idealIndex fns set i) t <
        cyclicDist set.numBuckets (idealIndex fns set i) i →
      isFreeSlot fns set t = false
  /-- The elements passed over since the hole was made have their ideal slot past the hole. -/
  passed : ∀ s < set.numBuckets, 0 < cyclicDist set.numBuckets hole s →
    cyclicDist set.numBuckets hole s ≤ cyclicDist set.numBuckets hole index →
    isFreeSlot fns set s = false ∧ 0 < cyclicDist set.numBuckets hole (idealIndex fns set s) ∧
      cyclicDist set.numBuckets hole (idealIndex fns set s) ≤ cyclicDist set.numBuckets hole s
  free_isFree : isFreeSlot fns set free = true
  free_ne : free ≠ hole
  ahead : cyclicDist set.numBuckets hole index < cyclicDist set.numBuckets hole free

/-- What the loop of `Erase` with the hole at `hole` leaves: a probed table that
lost the element of the hole and nothing else, unchanged on the way from `free`
round to the hole, and with the hole filled exactly when an element moved into it. -/
structure Erased (fns : HashSetFunctions α) (set : HashSet α) (hole free : Nat) (filled : Bool)
    (result : HashSet α × Bool) : Prop where
  probed : Probed fns result.1
  contents_add : contents fns result.1 + occupant fns (elementForIndex fns set hole) =
    contents fns set
  shape : result.1 = { set with data := result.1.data }
  numBuckets_eq : result.1.numBuckets = set.numBuckets
  frame : ∀ w < set.numBuckets,
    cyclicDist set.numBuckets hole free ≤ cyclicDist set.numBuckets hole w →
    elementForIndex fns result.1 w = elementForIndex fns set w
  filledHole : (result.2 = true ∧ isFreeSlot fns result.1 hole = false) ∨
    (result.2 = filled ∧ isFreeSlot fns result.1 hole = true)

namespace Shifting

variable {set : HashSet α} {hole index free : Nat}

theorem index_ne_free (shifting : Shifting fns set hole index free) : index ≠ free := by
  rintro rfl
  exact Nat.lt_irrefl _ shifting.ahead

theorem next_dist (shifting : Shifting fns set hole index free) :
    cyclicDist set.numBuckets hole (set.nextIndex index) =
      cyclicDist set.numBuckets hole index + 1 := by
  have freeDist := cyclicDist_lt shifting.hole_lt shifting.free_lt
  exact cyclicDist_next_right shifting.hole_lt shifting.index_lt (by have := shifting.ahead; omega)

theorem next_lt (shifting : Shifting fns set hole index free) :
    set.nextIndex index < set.numBuckets :=
  nextIndex_lt (Nat.lt_of_le_of_lt (Nat.zero_le _) shifting.hole_lt) index

/-- When the walk meets a free slot, the way of no element crosses the hole: an
element past the free slot would have it on its way, and an element passed over
has its ideal slot past the hole. -/
theorem not_crossed (shifting : Shifting fns set hole index free)
    (stop : isFreeSlot fns set (set.nextIndex index) = true) {i : Nat} (iInBounds : i < set.numBuckets)
    (iNe : i ≠ hole) (occupied : isFreeSlot fns set i = false) :
    ¬ cyclicDist set.numBuckets (idealIndex fns set i) hole <
      cyclicDist set.numBuckets (idealIndex fns set i) i := by
  intro crossed
  have holeLt := shifting.hole_lt
  have idealLt : idealIndex fns set i < set.numBuckets :=
    indexForHash_lt (Nat.lt_of_le_of_lt (Nat.zero_le _) holeLt) _
  have nextLt := shifting.next_lt
  have nextDist := shifting.next_dist
  have toI : cyclicDist set.numBuckets hole i =
      cyclicDist set.numBuckets (idealIndex fns set i) i -
        cyclicDist set.numBuckets (idealIndex fns set i) hole :=
    cyclicDist_sub_of_lt idealLt holeLt iInBounds crossed
  have idealToI := cyclicDist_lt idealLt iInBounds
  -- The element sits among the slots looked at: the free slot after them is not on its way.
  have within : cyclicDist set.numBuckets hole i ≤ cyclicDist set.numBuckets hole index := by
    by_contra beyond
    have nextNe : set.nextIndex index ≠ i := by
      rintro same
      rw [same, occupied] at stop
      contradiction
    have nextBefore : cyclicDist set.numBuckets hole (set.nextIndex index) <
        cyclicDist set.numBuckets hole i := by
      have differ : cyclicDist set.numBuckets hole (set.nextIndex index) ≠
          cyclicDist set.numBuckets hole i :=
        fun same => nextNe (cyclicDist_inj holeLt nextLt iInBounds same)
      omega
    have viaHole := cyclicDist_add idealLt holeLt (c := set.nextIndex index) (by omega)
    have held := shifting.probed i iInBounds iNe occupied _ nextLt
      (by intro same; rw [same] at nextDist; simp at nextDist) (by omega)
    rw [stop] at held
    contradiction
  -- So its ideal slot lies past the hole, and its way from there does not reach the hole.
  obtain ⟨-, idealPast, idealBefore⟩ :=
    shifting.passed i iInBounds (cyclicDist_pos holeLt (Ne.symm iNe)) within
  have idealNe : idealIndex fns set i ≠ hole := by
    intro same
    rw [same, cyclicDist_self] at idealPast
    exact Nat.lt_irrefl _ idealPast
  have back := cyclicDist_add_back holeLt idealLt (Ne.symm idealNe)
  by_cases atIdeal : cyclicDist set.numBuckets hole (idealIndex fns set i) =
      cyclicDist set.numBuckets hole i
  · have same := cyclicDist_inj holeLt idealLt iInBounds atIdeal
    rw [same, cyclicDist_self] at crossed
    exact Nat.not_lt_zero _ crossed
  · have fromIdeal := cyclicDist_sub_of_lt holeLt idealLt iInBounds (by omega)
    omega

theorem erased_of_free (lawful : fns.Lawful) (shifting : Shifting fns set hole index free)
    (stop : isFreeSlot fns set (set.nextIndex index) = true) (filled : Bool) :
    Erased fns set hole free filled ({ set with data := set.data.set hole fns.makeEmpty }, filled) := by
  have holeLt := shifting.hole_lt
  refine ⟨?_, ?_, rfl, numBuckets_store _, ?_, Or.inr ⟨rfl, ?_⟩⟩
  · intro i iInBounds occupied t tInBounds closer
    simp only [numBuckets_store] at iInBounds tInBounds closer
    rw [isFreeSlot_store holeLt] at occupied ⊢
    have iNe : hole ≠ i := by
      rintro rfl
      simp [lawful.isEmpty_makeEmpty] at occupied
    rw [if_neg iNe] at occupied
    simp only [idealIndex, elementForIndex_store holeLt, if_neg iNe,
      indexForHash_of_numBuckets (numBuckets_store _)] at closer
    by_cases tIsHole : hole = t
    · subst tIsHole
      exact absurd closer (shifting.not_crossed stop iInBounds (Ne.symm iNe) occupied)
    · rw [if_neg tIsHole]
      exact shifting.probed i iInBounds (Ne.symm iNe) occupied t tInBounds (Ne.symm tIsHole) closer
  · rw [contents_store fns holeLt, occupant_of_isEmpty fns lawful.isEmpty_makeEmpty, add_zero]
  · intro w _ beyond
    have wNe : hole ≠ w := by
      rintro rfl
      rw [cyclicDist_self] at beyond
      exact absurd beyond (Nat.not_le.mpr (cyclicDist_pos holeLt shifting.free_ne.symm))
    rw [elementForIndex_store holeLt, if_neg wNe]
  · rw [isFreeSlot_store holeLt, if_pos rfl, lawful.isEmpty_makeEmpty]

theorem hole_on_way (shifting : Shifting fns set hole index free)
    (move : cyclicDist set.numBuckets hole (idealIndex fns set (set.nextIndex index)) = 0 ∨
      cyclicDist set.numBuckets hole (set.nextIndex index) <
        cyclicDist set.numBuckets hole (idealIndex fns set (set.nextIndex index))) :
    cyclicDist set.numBuckets (idealIndex fns set (set.nextIndex index)) hole ≤
      cyclicDist set.numBuckets (idealIndex fns set (set.nextIndex index)) (set.nextIndex index) := by
  have holeLt := shifting.hole_lt
  have idealLt : idealIndex fns set (set.nextIndex index) < set.numBuckets :=
    indexForHash_lt (Nat.lt_of_le_of_lt (Nat.zero_le _) holeLt) _
  rcases move with atHole | later
  · rw [(cyclicDist_eq_zero_iff holeLt).mp atHole, cyclicDist_self]
    exact Nat.zero_le _
  · have idealNe : idealIndex fns set (set.nextIndex index) ≠ hole := by
      intro same
      rw [same, cyclicDist_self] at later
      exact Nat.not_lt_zero _ later
    have back := cyclicDist_add_back holeLt idealLt (Ne.symm idealNe)
    have viaHole := cyclicDist_add idealLt holeLt (c := set.nextIndex index) (by omega)
    omega

theorem move (shifting : Shifting fns set hole index free)
    (present : isFreeSlot fns set (set.nextIndex index) = false)
    (move : cyclicDist set.numBuckets hole (idealIndex fns set (set.nextIndex index)) = 0 ∨
      cyclicDist set.numBuckets hole (set.nextIndex index) <
        cyclicDist set.numBuckets hole (idealIndex fns set (set.nextIndex index))) :
    Shifting fns { set with data := set.data.set hole (elementForIndex fns set (set.nextIndex index)) }
      (set.nextIndex index) (set.nextIndex index) free := by
  have holeLt := shifting.hole_lt
  have nextLt := shifting.next_lt
  have nextDist := shifting.next_dist
  have nextNeHole : set.nextIndex index ≠ hole := by
    intro same
    rw [same, cyclicDist_self] at nextDist
    omega
  have freeNe : free ≠ set.nextIndex index := by
    rintro same
    rw [← same, shifting.free_isFree] at present
    contradiction
  have onWay := shifting.hole_on_way move
  refine ⟨by rw [numBuckets_store]; exact nextLt, by rw [numBuckets_store]; exact nextLt,
    by rw [numBuckets_store]; exact shifting.free_lt, ?_, ?_, ?_, freeNe, ?_⟩
  · intro i iInBounds iNe occupied t tInBounds tNe closer
    simp only [numBuckets_store] at iInBounds tInBounds closer
    rw [isFreeSlot_store holeLt] at occupied ⊢
    simp only [idealIndex, elementForIndex_store holeLt,
      indexForHash_of_numBuckets (numBuckets_store _)] at closer
    by_cases atHole : hole = i
    · -- The moved element: its way to the hole is part of its way to its old slot.
      subst atHole
      simp only [if_true] at closer
      have tNeHole : hole ≠ t := by
        rintro rfl
        exact Nat.lt_irrefl _ closer
      rw [if_neg tNeHole]
      exact shifting.probed _ nextLt nextNeHole present t tInBounds (Ne.symm tNeHole)
        (Nat.lt_of_lt_of_le closer onWay)
    · rw [if_neg atHole] at occupied closer
      by_cases tIsHole : hole = t
      · rw [if_pos tIsHole]
        exact present
      · rw [if_neg tIsHole]
        exact shifting.probed i iInBounds (Ne.symm atHole) occupied t tInBounds (Ne.symm tIsHole)
          closer
  · intro s _ past within
    simp only [numBuckets_store, cyclicDist_self] at past within
    omega
  · rw [isFreeSlot_store holeLt, if_neg (Ne.symm shifting.free_ne)]
    exact shifting.free_isFree
  · simp only [numBuckets_store, cyclicDist_self]
    exact cyclicDist_pos nextLt (Ne.symm freeNe)

theorem pass (shifting : Shifting fns set hole index free)
    (present : isFreeSlot fns set (set.nextIndex index) = false)
    (stay : ¬ (cyclicDist set.numBuckets hole (idealIndex fns set (set.nextIndex index)) = 0 ∨
      cyclicDist set.numBuckets hole (set.nextIndex index) <
        cyclicDist set.numBuckets hole (idealIndex fns set (set.nextIndex index)))) :
    Shifting fns set hole (set.nextIndex index) free := by
  have holeLt := shifting.hole_lt
  have nextLt := shifting.next_lt
  have nextDist := shifting.next_dist
  have freeNe : free ≠ set.nextIndex index := by
    rintro same
    rw [← same, shifting.free_isFree] at present
    contradiction
  refine ⟨holeLt, nextLt, shifting.free_lt, shifting.probed, ?_, shifting.free_isFree,
    shifting.free_ne, ?_⟩
  · intro s sInBounds past within
    by_cases earlier : cyclicDist set.numBuckets hole s ≤ cyclicDist set.numBuckets hole index
    · exact shifting.passed s sInBounds past earlier
    · have same := cyclicDist_inj holeLt sInBounds nextLt (by omega)
      subst same
      refine ⟨present, ?_, ?_⟩ <;> omega
  · have ahead := shifting.ahead
    have differ : cyclicDist set.numBuckets hole (set.nextIndex index) ≠
        cyclicDist set.numBuckets hole free :=
      fun same => freeNe (cyclicDist_inj holeLt nextLt shifting.free_lt same).symm
    omega

end Shifting

/-- What the loop leaves after a move is what it leaves from the old hole: the
moved element stays in the old hole, and the rest of the way is the recursive
call's. -/
theorem Erased.of_move {set : HashSet α} {hole index free : Nat} {filled : Bool}
    {result : HashSet α × Bool} (shifting : Shifting fns set hole index free)
    (present : isFreeSlot fns set (set.nextIndex index) = false)
    (erased : Erased fns
      { set with data := set.data.set hole (elementForIndex fns set (set.nextIndex index)) }
      (set.nextIndex index) free true result) :
    Erased fns set hole free filled result := by
  have holeLt := shifting.hole_lt
  have nextLt := shifting.next_lt
  have nextDist := shifting.next_dist
  have freeLt := shifting.free_lt
  have nextNeHole : set.nextIndex index ≠ hole := by
    intro same
    rw [same, cyclicDist_self] at nextDist
    omega
  have freeNe : free ≠ set.nextIndex index := by
    rintro same
    rw [← same, shifting.free_isFree] at present
    contradiction
  have nextBefore : cyclicDist set.numBuckets hole (set.nextIndex index) <
      cyclicDist set.numBuckets hole free := by
    have ahead := shifting.ahead
    have differ : cyclicDist set.numBuckets hole (set.nextIndex index) ≠
        cyclicDist set.numBuckets hole free :=
      fun same => freeNe (cyclicDist_inj holeLt nextLt freeLt same).symm
    omega
  have nextToFree := cyclicDist_sub_of_lt holeLt nextLt freeLt nextBefore
  have frame := erased.frame
  simp only [numBuckets_store] at frame
  -- Every slot from the free slot round to the old hole is one the recursive call keeps.
  have kept : ∀ w < set.numBuckets,
      cyclicDist set.numBuckets hole free ≤ cyclicDist set.numBuckets hole w ∨ w = hole →
      elementForIndex fns result.1 w = elementForIndex fns
        { set with data := set.data.set hole (elementForIndex fns set (set.nextIndex index)) } w := by
    intro w wInBounds beyond
    apply frame w wInBounds
    rcases beyond with farther | rfl
    · have nextToW := cyclicDist_sub_of_lt holeLt nextLt wInBounds (by omega)
      omega
    · have back := cyclicDist_add_back holeLt nextLt (Ne.symm nextNeHole)
      have freeDist := cyclicDist_lt holeLt freeLt
      omega
  have movedIn : elementForIndex fns result.1 hole = elementForIndex fns set (set.nextIndex index) := by
    rw [kept hole holeLt (Or.inr rfl), elementForIndex_store holeLt, if_pos rfl]
  refine ⟨erased.probed, ?_, erased.shape, ?_, ?_, Or.inl ⟨?_, ?_⟩⟩
  · -- The moved element is counted once: in the old hole, and no longer in its slot.
    have stored := contents_store fns holeLt (elementForIndex fns set (set.nextIndex index))
    have recursive := erased.contents_add
    rw [elementForIndex_store holeLt, if_neg (Ne.symm nextNeHole)] at recursive
    apply add_right_cancel (b := occupant fns (elementForIndex fns set (set.nextIndex index)))
    rw [add_right_comm, recursive, stored]
  · rw [erased.numBuckets_eq, numBuckets_store]
  · intro w wInBounds beyond
    have wNe : hole ≠ w := by
      rintro rfl
      rw [cyclicDist_self] at beyond
      exact absurd beyond (Nat.not_le.mpr (cyclicDist_pos holeLt shifting.free_ne.symm))
    rw [kept w wInBounds (Or.inl beyond), elementForIndex_store holeLt, if_neg wNe]
  · rcases erased.filledHole with ⟨moved, -⟩ | ⟨moved, -⟩ <;> exact moved
  · simp only [isFreeSlot, movedIn]
    exact present

/-- The loop of `Erase` from a state that keeps `Shifting` returns within the
fuel that reaches the free slot, and leaves what `Erased` says. -/
theorem eraseFrom_spec (lawful : fns.Lawful) {free : Nat} :
    ∀ (fuel : Nat) {set : HashSet α} {hole index : Nat} (filled : Bool),
      Shifting fns set hole index free → cyclicDist set.numBuckets index free ≤ fuel →
      ∃ result, eraseFrom fns set fuel hole index filled = some result ∧
        Erased fns set hole free filled result
  | 0, set, hole, index, filled, shifting, enough => by
    have same := (cyclicDist_eq_zero_iff shifting.index_lt).mp (Nat.le_zero.mp enough)
    exact absurd same shifting.index_ne_free
  | fuel + 1, set, hole, index, filled, shifting, enough => by
    rw [eraseFrom_succ shifting.hole_lt]
    by_cases stop : isFreeSlot fns set (set.nextIndex index) = true
    · rw [if_pos stop]
      exact ⟨_, rfl, shifting.erased_of_free lawful stop filled⟩
    · have present : isFreeSlot fns set (set.nextIndex index) = false := by simpa using stop
      rw [if_neg stop]
      have closer := cyclicDist_next_left shifting.index_lt shifting.free_lt shifting.index_ne_free
      rw [← nextIndex_eq_cyclicNext] at closer
      by_cases move : cyclicDist set.numBuckets hole (idealIndex fns set (set.nextIndex index)) = 0 ∨
          cyclicDist set.numBuckets hole (set.nextIndex index) <
            cyclicDist set.numBuckets hole (idealIndex fns set (set.nextIndex index))
      · rw [if_pos move]
        obtain ⟨result, loop, erased⟩ := eraseFrom_spec lawful fuel true
          (shifting.move present move) (by simp only [numBuckets_store]; omega)
        exact ⟨result, loop, erased.of_move shifting present⟩
      · rw [if_neg move]
        exact eraseFrom_spec lawful fuel filled (shifting.pass present move) (by omega)

/-- `Erase(it)` on a probed set with a free slot: the element at the iterator
leaves the set and nothing else does, the invariant holds again, only the
slots on the way from the iterator to the free slot change, and the iterator
returned is the same one when an element moved into its slot and the next
occupied slot otherwise. -/
theorem erase_spec (lawful : fns.Lawful) {set : HashSet α} (probed : Probed fns set)
    {index free : Nat} (inBounds : index < set.numBuckets)
    (occupied : isFreeSlot fns set index = false) (freeInBounds : free < set.numBuckets)
    (isFree : isFreeSlot fns set free = true) :
    ∃ erased, erase fns set index = some (erased, if isFreeSlot fns erased index then
        nextNonEmptySlot fns erased index else index) ∧
      Probed fns erased ∧
      contents fns erased + {elementForIndex fns set index} = contents fns set ∧
      erased = { set with data := erased.data, numElements := set.numElements - 1 } ∧
      erased.numBuckets = set.numBuckets ∧
      ∀ w < set.numBuckets,
        cyclicDist set.numBuckets index free ≤ cyclicDist set.numBuckets index w →
        elementForIndex fns erased w = elementForIndex fns set w := by
  have freeNe : free ≠ index := by
    rintro rfl
    rw [isFree] at occupied
    contradiction
  have start : Shifting fns set index index free :=
    { hole_lt := inBounds
      index_lt := inBounds
      free_lt := freeInBounds
      probed := fun i iInBounds _ present t tInBounds _ closer =>
        probed i iInBounds present t tInBounds closer
      passed := fun s _ past within => by
        rw [cyclicDist_self] at within
        omega
      free_isFree := isFree
      free_ne := freeNe
      ahead := by
        rw [cyclicDist_self]
        exact cyclicDist_pos inBounds freeNe.symm }
  obtain ⟨⟨loopResult, filled⟩, loop, erased⟩ := eraseFrom_spec lawful set.numBuckets false start
    (Nat.le_of_lt (cyclicDist_lt inBounds freeInBounds))
  have shape : loopResult = { set with data := loopResult.data } := erased.shape
  refine ⟨{ loopResult with numElements := loopResult.numElements - 1 }, ?_, erased.probed, ?_, ?_,
    erased.numBuckets_eq, erased.frame⟩
  · -- `filled` says whether an element moved into the erased slot.
    have iterator : filled = !isFreeSlot fns loopResult index := by
      rcases erased.filledHole with ⟨moved, stays⟩ | ⟨moved, emptied⟩
      · simp only at moved stays
        rw [moved, stays]
        rfl
      · simp only at moved emptied
        rw [moved, emptied]
        rfl
    simp only [erase, loop, Option.bind_eq_bind, Option.bind_some, iterator]
    change _ = some (_, if isFreeSlot fns loopResult index then _ else _)
    cases isFreeSlot fns loopResult index <;> rfl
  · have counted := erased.contents_add
    rwa [occupant_of_not_isEmpty fns occupied] at counted
  · rw [shape]

/-- `NextNonEmptySlot` from a slot returns the first occupied slot after it, or
`NumBuckets()` when there is none. -/
theorem nextNonEmptySlot_spec (fns : HashSetFunctions α) (set : HashSet α) {index : Nat}
    (inBounds : index < set.numBuckets) :
    index < nextNonEmptySlot fns set index ∧ nextNonEmptySlot fns set index ≤ set.numBuckets ∧
      (∀ s, index < s → s < nextNonEmptySlot fns set index → isFreeSlot fns set s = true) ∧
      (nextNonEmptySlot fns set index < set.numBuckets →
        isFreeSlot fns set (nextNonEmptySlot fns set index) = false) := by
  fun_induction nextNonEmptySlot fns set index with
  | case1 index skip ih =>
    obtain ⟨after, atMost, between, found⟩ := ih skip.1
    refine ⟨by omega, atMost, fun s past before => ?_, found⟩
    by_cases next : s = index + 1
    · exact next ▸ skip.2
    · exact between s (by omega) before
  | case2 index stop =>
    refine ⟨by omega, by omega, fun s past before => by omega, fun inRange => ?_⟩
    cases free : isFreeSlot fns set (index + 1)
    · rfl
    · exact absurd ⟨inRange, free⟩ stop

theorem contents_eq_zero_of_free {set : HashSet α}
    (allFree : ∀ s < set.numBuckets, isFreeSlot fns set s = true) : contents fns set = 0 := by
  rw [Multiset.eq_zero_iff_forall_notMem]
  intro element member
  obtain ⟨s, inBounds, occupied, -⟩ := mem_contents.mp member
  rw [allFree s inBounds] at occupied
  contradiction

/-- The state of the loop that erases from the iterator at `index`: a probed set
with room for a free slot, free below the iterator, with an element at it. -/
structure ErasingFrom (fns : HashSetFunctions α) (set : HashSet α) (index : Nat) : Prop where
  probed : Probed fns set
  room : set.numBuckets = 0 ∨ Multiset.card (contents fns set) < set.numBuckets
  index_le : index ≤ set.numBuckets
  below : ∀ s < index, isFreeSlot fns set s = true
  atIndex : index < set.numBuckets → isFreeSlot fns set index = false

theorem erasingFrom_begin {set : HashSet α} (probed : Probed fns set)
    (room : set.numBuckets = 0 ∨ Multiset.card (contents fns set) < set.numBuckets) :
    ErasingFrom fns set (begin fns set) := by
  unfold begin
  split
  · rename_i skip
    obtain ⟨_, atMost, between, found⟩ :=
      nextNonEmptySlot_spec fns set (Nat.pos_of_ne_zero skip.1)
    refine ⟨probed, room, atMost, fun s before => ?_, found⟩
    cases s with
    | zero => exact skip.2
    | succ s => exact between (s + 1) (Nat.succ_pos s) before
  · rename_i start
    refine ⟨probed, room, Nat.zero_le _, fun s before => absurd before (Nat.not_lt_zero s),
      fun inRange => ?_⟩
    cases free : isFreeSlot fns set 0
    · rfl
    · exact absurd ⟨Nat.pos_iff_ne_zero.mp inRange, free⟩ start

theorem ErasingFrom.erase (lawful : fns.Lawful) {set : HashSet α} {index : Nat}
    (erasing : ErasingFrom fns set index) (inBounds : index < set.numBuckets) :
    ∃ erased next, erase fns set index = some (erased, next) ∧ ErasingFrom fns erased next ∧
      contents fns erased + {elementForIndex fns set index} = contents fns set ∧
      erased = { set with data := erased.data, numElements := set.numElements - 1 } := by
  have occupied := erasing.atIndex inBounds
  have room : Multiset.card (contents fns set) < set.numBuckets := by
    rcases erasing.room with none | fewer
    · omega
    · exact fewer
  -- The free slot the shift ends at is the first one on the way from the iterator.
  obtain ⟨someFree, someFreeInBounds, someFreeIsFree⟩ := exists_isFreeSlot_of_card_lt room
  obtain ⟨free, freeInBounds, isFree, first⟩ :=
    exists_first_cyclic (a := index) (fun s => isFreeSlot fns set s = true) someFreeInBounds
      someFreeIsFree
  obtain ⟨erased, erasedEq, probed, counted, shape, buckets, frame⟩ :=
    erase_spec lawful erasing.probed inBounds occupied freeInBounds isFree
  have nextSpec := nextNonEmptySlot_spec fns erased (buckets ▸ inBounds)
  rw [buckets] at nextSpec
  refine ⟨erased, _, erasedEq, ⟨probed, ?_, ?_, ?_, ?_⟩, counted, shape⟩
  · right
    have fewer := congrArg Multiset.card counted
    rw [Multiset.card_add, Multiset.card_singleton] at fewer
    omega
  · split
    · rw [buckets]
      exact nextSpec.2.1
    · omega
  · -- Below the iterator nothing changed; from it to the next iterator all is free.
    have keptBelow : ∀ s < index, isFreeSlot fns erased s = true := by
      intro s before
      have zeroFree := erasing.below 0 (by omega)
      have zeroNotBefore : ¬ cyclicDist set.numBuckets index 0 <
          cyclicDist set.numBuckets index free := fun closer => first 0 (by omega) closer zeroFree
      have unchanged := frame s (by omega) (by unfold cyclicDist at *; split_ifs at * <;> omega)
      simp only [isFreeSlot, unchanged]
      exact erasing.below s before
    intro s before
    by_cases emptied : isFreeSlot fns erased index = true
    · rw [if_pos emptied] at before
      rcases Nat.lt_trichotomy s index with lower | same | higher
      · exact keptBelow s lower
      · exact same ▸ emptied
      · exact nextSpec.2.2.1 s higher before
    · rw [if_neg emptied] at before
      exact keptBelow s before
  · intro nextInBounds
    by_cases emptied : isFreeSlot fns erased index = true
    · rw [if_pos emptied] at nextInBounds ⊢
      exact nextSpec.2.2.2 (buckets ▸ nextInBounds)
    · rw [if_neg emptied]
      simpa using emptied

/-- The loop `for (it = begin(); it != end();) it = Erase(it);` from an iterator
that keeps `ErasingFrom` returns within one round more than there are elements:
it visits every element of the set once and leaves a probed set with nothing in
it, its size counted down once per element. -/
theorem eraseEach_spec (lawful : fns.Lawful) :
    ∀ (fuel : Nat) {set : HashSet α} {index : Nat}, ErasingFrom fns set index →
      Multiset.card (contents fns set) < fuel →
      ∃ visited final, eraseEach fns set fuel index = some (visited, final) ∧
        (visited : Multiset α) = contents fns set ∧ contents fns final = 0 ∧ Probed fns final ∧
        final = { set with data := final.data, numElements := set.numElements - visited.length }
  | 0, _, _, _, enough => absurd enough (Nat.not_lt_zero _)
  | fuel + 1, set, index, erasing, enough => by
    by_cases atEnd : index = set.numBuckets
    · -- `end()`: every slot lies below the iterator, so the set is empty.
      have empty : contents fns set = 0 :=
        contents_eq_zero_of_free fun s inBounds => erasing.below s (atEnd ▸ inBounds)
      refine ⟨[], set, by simp [eraseEach, atEnd], by simp [empty], empty, erasing.probed, ?_⟩
      simp
    · have inBounds : index < set.numBuckets := Nat.lt_of_le_of_ne erasing.index_le atEnd
      obtain ⟨erased, next, erasedEq, erasingNext, counted, shape⟩ := erasing.erase lawful inBounds
      have fewer : Multiset.card (contents fns erased) < fuel := by
        have := congrArg Multiset.card counted
        rw [Multiset.card_add, Multiset.card_singleton] at this
        omega
      obtain ⟨visited, final, loop, allVisited, empty, probed, finalShape⟩ :=
        eraseEach_spec lawful fuel erasingNext fewer
      refine ⟨elementForIndex fns set index :: visited, final, ?_, ?_, empty, probed, ?_⟩
      · simp only [eraseEach, if_neg atEnd, erasedEq, loop, Option.bind_eq_bind, Option.bind_some]
        rfl
      · rw [← Multiset.cons_coe, allVisited, ← counted, add_comm, Multiset.singleton_add]
      · rw [finalShape, shape]
        simp only [List.length_cons, Nat.sub_sub, Nat.add_comm 1]

end HashSet

end ArtRuntime.Base
