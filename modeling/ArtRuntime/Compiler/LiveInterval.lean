import Mathlib.Data.List.Chain
import Mathlib.Data.List.Nodup
import Mathlib.Data.List.TakeWhile
import Mathlib.Order.Bounds.Defs
import Mathlib.Order.Interval.Set.LinearOrder

/-! # Live intervals

`LiveRange` and `LiveInterval` of `compiler/optimizing/ssa_liveness_analysis.h`.
An interval is the chain of its ranges from `first_range_` through `next_`;
here the chain is a list, each range with the address the arena gave it, so
that `last_range_` and `range_search_start_` are addresses into the list as
they are pointers into the chain. Building the interval backwards with
`AddRange`, `AddLoopRange` and `SetFrom`, and cutting it with `SplitAt`, keep
the ranges sorted and apart, `last_range_` at the end of the chain, and the
search start in the chain. The positions an interval covers are the union of
its ranges; `CoversSlow` and, while the search start is behind the positions
asked about, `Covers` decide them, and `FirstIntersectionWith` finds the
first position two intervals both cover. -/

namespace ArtRuntime.Compiler.SsaLiveness

/-- `LiveRange`: the positions `[start, end)`. -/
structure LiveRange where
  start : Nat
  stop : Nat
  deriving DecidableEq, Repr

/-- `LiveInterval`: its chain of ranges with their addresses, `last_range_`,
`range_search_start_` (none for `nullptr`), whether it is fixed, and the next
address of the arena. -/
structure LiveInterval where
  ranges : List (Nat × LiveRange)
  lastRange : Option Nat
  rangeSearchStart : Option Nat
  isFixed : Bool
  allocated : Nat
  deriving DecidableEq, Repr

namespace LiveInterval

/-- An interval with no ranges. -/
def empty (isFixed : Bool) (allocated : Nat) : LiveInterval := ⟨[], none, none, isFixed, allocated⟩

/-- The chain from a pointer: the ranges from the one at `address` on. -/
def chainFrom (ranges : List (Nat × LiveRange)) : Option Nat → List (Nat × LiveRange)
  | none => []
  | some address => ranges.dropWhile (·.1 != address)

/-- The range a pointer points at. -/
def rangeAt (ranges : List (Nat × LiveRange)) (address : Option Nat) : Option LiveRange :=
  (chainFrom ranges address).head?.map (·.2)

/-- `first_range_->start_ = start`. -/
def setFirstStart (ranges : List (Nat × LiveRange)) (start : Nat) : List (Nat × LiveRange) :=
  match ranges with
  | [] => []
  | (address, range) :: rest => (address, { range with start := start }) :: rest

/-- `AddRange`: the ranges are added backwards, each ending at or before the
first one's start. -/
def addRange (interval : LiveInterval) (start stop : Nat) : LiveInterval :=
  match interval.ranges with
  | [] =>
      { interval with
        ranges := [(interval.allocated, ⟨start, stop⟩)]
        lastRange := some interval.allocated
        rangeSearchStart := some interval.allocated
        allocated := interval.allocated + 1 }
  | (address, first) :: rest =>
      if first.start = stop then
        -- There is a use in the following block.
        { interval with ranges := (address, { first with start := start }) :: rest }
      else if first.start = start ∧ first.stop = stop then interval
      else
        -- There is a hole in the interval.
        { interval with
          ranges := (interval.allocated, ⟨start, stop⟩) :: (address, first) :: rest
          rangeSearchStart := some interval.allocated
          allocated := interval.allocated + 1 }

/-- `AddLoopRange`: the ranges ending before `end` are in the loop, and the
first range after them, `after_loop`, decides how `[start, end)` joins. `none`
where the source dereferences a null `last_in_loop`. -/
def addLoopRange (interval : LiveInterval) (start stop : Nat) : Option LiveInterval :=
  let inLoop := interval.ranges.takeWhile (·.2.stop < stop)
  let afterLoop := interval.ranges.dropWhile (·.2.stop < stop)
  match afterLoop with
  | [] =>
      -- Uses are only in the loop.
      some { interval with
        ranges := [(interval.allocated, ⟨start, stop⟩)]
        lastRange := some interval.allocated
        rangeSearchStart := some interval.allocated
        allocated := interval.allocated + 1 }
  | (address, after) :: rest =>
      if after.start ≤ stop then
        -- There are uses after the loop.
        some { interval with
          ranges := (address, { after with start := start }) :: rest
          rangeSearchStart := some address }
      else
        -- The use after the loop is after a lifetime hole.
        match inLoop.getLast? with
        | some (lastInLoop, _) =>
            some { interval with
              ranges := (lastInLoop, ⟨start, stop⟩) :: afterLoop
              rangeSearchStart := some lastInLoop }
        | none => none

/-- `SetFrom`: the definition starts the interval. -/
def setFrom (interval : LiveInterval) (start : Nat) : LiveInterval :=
  match interval.ranges with
  | [] =>
      -- Instruction without uses.
      { interval with
        ranges := [(interval.allocated, ⟨start, start + 2⟩)]
        lastRange := some interval.allocated
        rangeSearchStart := some interval.allocated
        allocated := interval.allocated + 1 }
  | _ => { interval with ranges := setFirstStart interval.ranges start }

/-- `GetStart`. -/
def getStart (interval : LiveInterval) : Nat := ((interval.ranges.head?.map (·.2.start)).getD 0)

/-- `GetEnd`, through `last_range_`. -/
def getEnd (interval : LiveInterval) : Nat := ((rangeAt interval.ranges interval.lastRange).map (·.stop)).getD 0

/-- `FindRangeAtOrAfter`: the chain from the first range, at or after
`search_start`, that ends after `position`. -/
def findRangeAtOrAfter (interval : LiveInterval) (position : Nat) (searchStart : Option Nat) :
    List (Nat × LiveRange) :=
  (chainFrom interval.ranges searchStart).dropWhile (·.2.stop ≤ position)

/-- Whether the chain's first range starts at or before `position`. -/
def coversFrom (position : Nat) : List (Nat × LiveRange) → Bool
  | [] => false
  | (_, range) :: _ => range.start ≤ position

/-- `CoversSlow`: searches from the first range. -/
def coversSlow (interval : LiveInterval) (position : Nat) : Bool :=
  coversFrom position (interval.findRangeAtOrAfter position (interval.ranges.head?.map (·.1)))

/-- `Covers`: searches from `range_search_start_`, and moves it to the range found. -/
def covers (interval : LiveInterval) (position : Nat) : Bool × LiveInterval :=
  let candidate := interval.findRangeAtOrAfter position interval.rangeSearchStart
  (coversFrom position candidate, { interval with rangeSearchStart := candidate.head?.map (·.1) })

/-- The loop of `FirstIntersectionWith`: advance whichever range lies wholly
before the other, until two ranges intersect. -/
def firstIntersection : List (Nat × LiveRange) → List (Nat × LiveRange) → Option Nat
  | [], _ => none
  | _, [] => none
  | (myAddress, myRange) :: myRest, (otherAddress, otherRange) :: otherRest =>
      if myRange.stop ≤ otherRange.start then firstIntersection myRest ((otherAddress, otherRange) :: otherRest)
      else if otherRange.stop ≤ myRange.start then firstIntersection ((myAddress, myRange) :: myRest) otherRest
      else some (max myRange.start otherRange.start)
termination_by mine others => mine.length + others.length

/-- `FirstIntersectionWith`: none for `kNoLifetime`. -/
def firstIntersectionWith (interval current : LiveInterval) : Option Nat :=
  firstIntersection (interval.findRangeAtOrAfter current.getStart interval.rangeSearchStart) current.ranges

/-- `range_search_start_ != nullptr && range_search_start_->GetEnd() >=
current->GetEnd()`: the search start lies in the part `SplitAt` moves out. -/
def searchStartInSibling (interval : LiveInterval) (current : LiveRange) : Bool :=
  ((rangeAt interval.ranges interval.rangeSearchStart).map fun range => decide (current.stop ≤ range.stop)).getD false

/-- `SplitAt`: this interval keeps the positions before `position`, and the
returned sibling, when the interval lives past `position`, the rest. `none`
for the source's unreachable end of the loop. -/
def splitAt (interval : LiveInterval) (position : Nat) : Option (LiveInterval × Option LiveInterval) :=
  if interval.getEnd ≤ position then some (interval, none)
  else
    let before := interval.ranges.takeWhile (·.2.stop ≤ position)
    match interval.ranges.dropWhile (·.2.stop ≤ position) with
    | [] => none
    | (address, current) :: rest =>
        let searchInSibling := interval.searchStartInSibling current
        if position ≤ current.start then
          -- `position` is in a lifetime hole.
          match before.getLast? with
          | some (previous, _) =>
              some ({ interval with
                  ranges := before
                  lastRange := some previous
                  rangeSearchStart := if searchInSibling then none else interval.rangeSearchStart },
                some { interval with
                  ranges := (address, current) :: rest
                  rangeSearchStart := some address })
          | none => none
        else
          -- `current` covers `position`: a new last range ends this interval.
          some ({ interval with
              ranges := before ++ [(interval.allocated, ⟨current.start, position⟩)]
              lastRange := some interval.allocated
              rangeSearchStart := if searchInSibling then some interval.allocated else interval.rangeSearchStart
              allocated := interval.allocated + 1 },
            some { interval with
              ranges := (address, { current with start := position }) :: rest
              rangeSearchStart := some address
              allocated := interval.allocated + 1 })

/-! ## Well-formed intervals and what they cover -/

/-- Consecutive ranges: the second starts after the first ends. -/
def Apart (first second : Nat × LiveRange) : Prop := first.2.stop < second.2.start

/-- The positions of a chain of ranges. -/
def coverage (ranges : List (Nat × LiveRange)) : Set Nat :=
  {position | ∃ range ∈ ranges, range.2.start ≤ position ∧ position < range.2.stop}

/-- The representation invariant, but for being non-empty: ranges with
`start < end` in order and apart, `last_range_` at the end of the chain, the
search start in the chain, and addresses the arena gave out, once each. -/
structure Shaped (interval : LiveInterval) : Prop where
  valid : ∀ range ∈ interval.ranges, range.2.start < range.2.stop
  ordered : interval.ranges.IsChain Apart
  lastRange : interval.lastRange = interval.ranges.getLast?.map (·.1)
  searchStart : ∀ address, interval.rangeSearchStart = some address → address ∈ interval.ranges.map (·.1)
  allocated : ∀ address ∈ interval.ranges.map (·.1), address < interval.allocated
  distinct : (interval.ranges.map (·.1)).Nodup

/-- A well-formed interval: shaped, with at least one range. -/
structure WellFormed (interval : LiveInterval) : Prop extends Shaped interval where
  nonempty : interval.ranges ≠ []

theorem shaped_empty (isFixed : Bool) (allocated : Nat) : Shaped (empty isFixed allocated) :=
  ⟨by simp [empty], by simp [empty], rfl, by simp [empty], by simp [empty], by simp [empty]⟩

section Chains

variable {ranges : List (Nat × LiveRange)}

@[simp] theorem coverage_nil : coverage [] = ∅ := by simp [coverage]

theorem coverage_append (first second : List (Nat × LiveRange)) :
    coverage (first ++ second) = coverage first ∪ coverage second := by
  ext position
  simp only [coverage, List.mem_append, Set.mem_ofPred_eq, Set.mem_union]
  constructor
  · rintro ⟨range, member | member, covered⟩
    · exact Or.inl ⟨range, member, covered⟩
    · exact Or.inr ⟨range, member, covered⟩
  · rintro (⟨range, member, covered⟩ | ⟨range, member, covered⟩)
    · exact ⟨range, Or.inl member, covered⟩
    · exact ⟨range, Or.inr member, covered⟩

theorem coverage_cons (range : Nat × LiveRange) (ranges : List (Nat × LiveRange)) :
    coverage (range :: ranges) = Set.Ico range.2.start range.2.stop ∪ coverage ranges := by
  have single : coverage [range] = Set.Ico range.2.start range.2.stop := by
    ext position
    simp [coverage]
  rw [← single, ← coverage_append, List.singleton_append]

theorem coverage_subset_Ico {lo hi : Nat} (inside : ∀ range ∈ ranges, lo ≤ range.2.start ∧ range.2.stop ≤ hi) :
    coverage ranges ⊆ Set.Ico lo hi := by
  rintro position ⟨range, member, started, before⟩
  have bounds := inside range member
  exact ⟨le_trans bounds.1 started, lt_of_lt_of_le before bounds.2⟩

theorem lt_of_mem_coverage {hi : Nat} (ended : ∀ range ∈ ranges, range.2.stop ≤ hi) :
    ∀ position ∈ coverage ranges, position < hi := by
  rintro position ⟨range, member, _, before⟩
  exact lt_of_lt_of_le before (ended range member)

theorem le_of_mem_coverage {lo : Nat} (starts : ∀ range ∈ ranges, lo ≤ range.2.start) :
    ∀ position ∈ coverage ranges, lo ≤ position := by
  rintro position ⟨range, member, started, _⟩
  exact le_trans (starts range member) started

theorem pairwise_of_isChain (valid : ∀ range ∈ ranges, range.2.start < range.2.stop)
    (ordered : ranges.IsChain Apart) : ranges.Pairwise Apart := by
  induction ranges with
  | nil => exact List.Pairwise.nil
  | cons range rest induction =>
    have restValid : ∀ other ∈ rest, other.2.start < other.2.stop := fun other member =>
      valid other (List.mem_cons_of_mem _ member)
    have restPairwise := induction restValid ordered.tail
    refine List.pairwise_cons.mpr ⟨?_, restPairwise⟩
    -- Every later range starts after the next one, which starts after this one ends.
    cases rest with
    | nil => simp
    | cons next later =>
      have first : Apart range next := (List.isChain_cons_cons.mp ordered).1
      intro other member
      rcases List.mem_cons.mp member with rfl | member
      · exact first
      · have nextBefore := List.rel_of_pairwise_cons restPairwise member
        have nextValid := valid next (by simp)
        unfold Apart at first nextBefore ⊢
        omega

theorem dropWhile_append_of_forall {p : Nat × LiveRange → Bool} {first second : List (Nat × LiveRange)}
    (all : ∀ range ∈ first, p range = true) : (first ++ second).dropWhile p = second.dropWhile p := by
  induction first with
  | nil => rfl
  | cons range rest induction =>
    rw [List.cons_append, List.dropWhile_cons_of_pos (all range (by simp))]
    exact induction fun other member => all other (List.mem_cons_of_mem _ member)

/-- In a sorted chain, the first range ending after `position` decides whether
the chain covers it. -/
theorem coversFrom_dropWhile (position : Nat) (valid : ∀ range ∈ ranges, range.2.start < range.2.stop)
    (sorted : ranges.Pairwise Apart) :
    coversFrom position (ranges.dropWhile (·.2.stop ≤ position)) = true ↔ position ∈ coverage ranges := by
  induction ranges with
  | nil => simp [coversFrom]
  | cons range rest induction =>
    have restValid : ∀ other ∈ rest, other.2.start < other.2.stop := fun other member =>
      valid other (List.mem_cons_of_mem _ member)
    rw [coverage_cons]
    by_cases ended : range.2.stop ≤ position
    · rw [List.dropWhile_cons_of_pos (by simpa using ended), induction restValid (List.Pairwise.of_cons sorted)]
      simp [Set.mem_Ico, not_lt.mpr ended]
    · rw [List.dropWhile_cons_of_neg (by simpa using ended)]
      -- Every later range starts after this one ends, so after `position`.
      have later : position ∉ coverage rest := by
        rintro ⟨other, member, covered⟩
        have apart := List.rel_of_pairwise_cons sorted member
        unfold Apart at apart
        omega
      simp [coversFrom, Set.mem_Ico, later, lt_of_not_ge ended]

theorem chainFrom_head (ranges : List (Nat × LiveRange)) : chainFrom ranges (ranges.head?.map (·.1)) = ranges := by
  cases ranges with
  | nil => rfl
  | cons range rest => simp [chainFrom]

/-- A pointer into a chain with distinct addresses points at the one range with
that address. -/
theorem chainFrom_eq_of_append {before after : List (Nat × LiveRange)} {range : Nat × LiveRange}
    (notBefore : ∀ other ∈ before, other.1 ≠ range.1) :
    chainFrom (before ++ range :: after) (some range.1) = range :: after := by
  induction before with
  | nil => simp [chainFrom]
  | cons other rest induction =>
    rw [List.cons_append, chainFrom, List.dropWhile_cons_of_pos (by simpa using notBefore other (by simp))]
    exact induction fun another member => notBefore another (List.mem_cons_of_mem _ member)

theorem exists_append_chainFrom (ranges : List (Nat × LiveRange)) (address : Option Nat) :
    ∃ before, ranges = before ++ chainFrom ranges address := by
  cases address with
  | none => exact ⟨ranges, by simp [chainFrom]⟩
  | some address => exact ⟨ranges.takeWhile (·.1 != address), by simp [chainFrom]⟩

theorem chainFrom_dropWhile (p : Nat × LiveRange → Bool) (distinct : (ranges.map (·.1)).Nodup) :
    chainFrom ranges ((ranges.dropWhile p).head?.map (·.1)) = ranges.dropWhile p := by
  have split := List.takeWhile_append_dropWhile (p := p) (l := ranges)
  cases dropped : ranges.dropWhile p with
  | nil => rfl
  | cons range rest =>
    rw [dropped] at split
    rw [← split, List.map_append, List.nodup_append] at distinct
    rw [List.head?_cons, Option.map_some, ← split]
    apply chainFrom_eq_of_append
    intro other member
    exact distinct.2.2 other.1 (List.mem_map_of_mem member) range.1 (by simp)

theorem rangeAt_of_mem {range : Nat × LiveRange} (distinct : (ranges.map (·.1)).Nodup) (member : range ∈ ranges) :
    rangeAt ranges (some range.1) = some range.2 := by
  obtain ⟨before, after, split⟩ := List.append_of_mem member
  rw [split, List.map_append, List.nodup_append] at distinct
  rw [rangeAt, split, chainFrom_eq_of_append fun other otherMember =>
    distinct.2.2 other.1 (List.mem_map_of_mem otherMember) range.1 (by simp)]
  rfl

theorem chainFrom_append_of_mem {before after : List (Nat × LiveRange)} {pointed : Nat}
    (member : pointed ∈ before.map (·.1)) :
    chainFrom (before ++ after) (some pointed) = chainFrom before (some pointed) ++ after := by
  induction before with
  | nil => simp at member
  | cons range rest induction =>
    by_cases found : range.1 = pointed
    · simp [chainFrom, found]
    · have later : pointed ∈ rest.map (·.1) := by
        rw [List.map_cons, List.mem_cons] at member
        exact member.resolve_left (Ne.symm found)
      simp only [chainFrom] at induction ⊢
      rw [List.cons_append, List.dropWhile_cons_of_pos (by simpa using found),
        List.dropWhile_cons_of_pos (by simpa using found)]
      exact induction later

end Chains

section Search

variable {interval : LiveInterval}

theorem coversSlow_iff (shaped : Shaped interval) (position : Nat) :
    interval.coversSlow position = true ↔ position ∈ coverage interval.ranges := by
  rw [coversSlow, findRangeAtOrAfter, chainFrom_head]
  exact coversFrom_dropWhile position shaped.valid (pairwise_of_isChain shaped.valid shaped.ordered)

/-- The search start lies behind `scanned`: every range before it ends by
then, and with no search start every range does. -/
def SearchBehind (interval : LiveInterval) (scanned : Nat) : Prop :=
  ∀ range ∈ interval.ranges, range ∉ chainFrom interval.ranges interval.rangeSearchStart → range.2.stop ≤ scanned

/-- From a search start behind `position`, the search finds what a search from
the first range finds. -/
theorem findRangeAtOrAfter_eq {scanned position : Nat} (shaped : Shaped interval)
    (behind : SearchBehind interval scanned) (later : scanned ≤ position) :
    interval.findRangeAtOrAfter position interval.rangeSearchStart =
      interval.ranges.dropWhile (·.2.stop ≤ position) := by
  obtain ⟨before, split⟩ := exists_append_chainFrom interval.ranges interval.rangeSearchStart
  have distinct : (before ++ chainFrom interval.ranges interval.rangeSearchStart).Nodup := by
    rw [← split]
    exact List.Nodup.of_map _ shaped.distinct
  rw [findRangeAtOrAfter]
  conv_rhs => rw [split]
  rw [dropWhile_append_of_forall]
  intro range member
  have outside : range ∉ chainFrom interval.ranges interval.rangeSearchStart := fun inside =>
    List.disjoint_of_nodup_append distinct member inside
  have ended := behind range (split ▸ List.mem_append_left _ member) outside
  simpa using le_trans ended later

/-- `Covers` at a position the search start is behind answers as `CoversSlow`,
and leaves the search start behind that position. -/
theorem covers_eq {scanned position : Nat} (shaped : Shaped interval) (behind : SearchBehind interval scanned)
    (later : scanned ≤ position) :
    (interval.covers position).1 = interval.coversSlow position ∧ Shaped (interval.covers position).2 ∧
      SearchBehind (interval.covers position).2 position := by
  have found := findRangeAtOrAfter_eq shaped behind later
  simp only [covers, found]
  refine ⟨by rw [coversSlow, findRangeAtOrAfter, chainFrom_head], ?_, ?_⟩
  · refine { shaped with searchStart := ?_ }
    intro address pointed
    obtain ⟨range, first, rfl⟩ := Option.map_eq_some_iff.mp pointed
    exact List.mem_map_of_mem ((List.dropWhile_sublist _).subset (List.mem_of_mem_head? first))
  · intro range member outside
    simp only [chainFrom_dropWhile _ shaped.distinct] at outside
    have split := List.takeWhile_append_dropWhile (p := fun range : Nat × LiveRange => decide (range.2.stop ≤ position))
      (l := interval.ranges)
    rw [← split, List.mem_append] at member
    rcases member with before | after
    · simpa using List.mem_takeWhile_imp before
    · exact absurd after outside

/-- `Covers` asked at each of `positions` in turn: its answers, and the
interval with the search start it leaves. -/
def coversInOrder (interval : LiveInterval) : List Nat → List Bool × LiveInterval
  | [] => ([], interval)
  | position :: positions =>
      let (answer, searched) := interval.covers position
      let (answers, final) := searched.coversInOrder positions
      (answer :: answers, final)

/-- Asked at positions that do not decrease, from a search start behind the
first, `Covers` answers every time as `CoversSlow`. -/
theorem coversInOrder_eq {scanned : Nat} {positions : List Nat} (shaped : Shaped interval)
    (behind : SearchBehind interval scanned) (ascending : (scanned :: positions).IsChain (· ≤ ·)) :
    (interval.coversInOrder positions).1 = positions.map interval.coversSlow := by
  -- Induction on the positions, with the interval each call of `Covers` leaves.
  induction positions generalizing interval scanned with
  | nil => rfl
  | cons position positions induction =>
    have later := (List.isChain_cons_cons.mp ascending).1
    have step := covers_eq shaped behind later
    have rest := induction step.2.1 step.2.2 ascending.tail
    simp only [coversInOrder, List.map_cons]
    rw [rest, step.1]
    rfl

end Search

section Building

variable {interval : LiveInterval}

/-- A shaped chain keeps its shape with its first range replaced by a valid one
that still ends before the second starts. -/
theorem shaped_replaceFirst {address : Nat} {first range : LiveRange} {rest : List (Nat × LiveRange)}
    (shaped : Shaped interval) (chain : interval.ranges = (address, first) :: rest)
    (valid : range.start < range.stop) (apart : ∀ next ∈ rest.head?, range.stop < next.2.start) :
    Shaped { interval with ranges := (address, range) :: rest } := by
  have addresses : ((address, range) :: rest).map (·.1) = interval.ranges.map (·.1) := by simp [chain]
  have restShaped := shaped.valid
  have ordered := shaped.ordered
  rw [chain, List.forall_mem_cons] at restShaped
  rw [chain, List.isChain_cons] at ordered
  refine ⟨List.forall_mem_cons.mpr ⟨valid, restShaped.2⟩, List.isChain_cons.mpr ⟨apart, ordered.2⟩, ?_, ?_, ?_, ?_⟩
  · rw [shaped.lastRange, chain]
    simp only [List.getLast?_cons, Option.map_some]
    cases rest.getLast? <;> rfl
  · intro pointed search
    rw [addresses]
    exact shaped.searchStart pointed search
  · rw [addresses]
    exact shaped.allocated
  · rw [addresses]
    exact shaped.distinct

/-- The chain from a range of a shaped chain on, searched from its first range,
is shaped. -/
theorem shaped_suffix {before rest : List (Nat × LiveRange)} {range : Nat × LiveRange}
    (shaped : Shaped interval) (split : interval.ranges = before ++ range :: rest) :
    Shaped { interval with ranges := range :: rest, rangeSearchStart := some range.1 } := by
  have distinct := shaped.distinct
  have ordered := shaped.ordered
  rw [split, List.map_append, List.nodup_append] at distinct
  rw [split, List.isChain_append] at ordered
  refine ⟨fun other member => shaped.valid other (by simp [split, member]), ordered.2.1, ?_, ?_, ?_, distinct.2.1⟩
  · rw [shaped.lastRange, split, List.getLast?_append, List.getLast?_cons]
    rfl
  · intro pointed search
    cases search
    simp
  · intro address member
    exact shaped.allocated address (by rw [split, List.map_append]; exact List.mem_append_right _ member)

theorem shaped_single {start stop : Nat} (valid : start < stop) :
    Shaped { interval with
      ranges := [(interval.allocated, ⟨start, stop⟩)]
      lastRange := some interval.allocated
      rangeSearchStart := some interval.allocated
      allocated := interval.allocated + 1 } :=
  ⟨by simpa using valid, List.isChain_singleton _, rfl, by simp, by simp, by simp⟩

/-- A fresh range put before a shaped chain, ending before it starts, keeps it
shaped and becomes the search start. -/
theorem shaped_cons_fresh {start stop : Nat} (shaped : Shaped interval) (nonempty : interval.ranges ≠ [])
    (valid : start < stop) (apart : ∀ first ∈ interval.ranges.head?, stop < first.2.start) :
    Shaped { interval with
      ranges := (interval.allocated, ⟨start, stop⟩) :: interval.ranges
      rangeSearchStart := some interval.allocated
      allocated := interval.allocated + 1 } := by
  refine ⟨List.forall_mem_cons.mpr ⟨valid, shaped.valid⟩, List.isChain_cons.mpr ⟨apart, shaped.ordered⟩, ?_,
    by simp, ?_, ?_⟩
  · obtain ⟨last, lastMember⟩ := List.getLast?_isSome.mpr nonempty |> Option.isSome_iff_exists.mp
    rw [shaped.lastRange, List.getLast?_cons, lastMember]
    rfl
  · intro address member
    rcases List.mem_cons.mp member with rfl | member
    · exact Nat.lt_succ_self _
    · exact Nat.lt_succ_of_lt (shaped.allocated address member)
  · -- The arena hands out an address no range has yet.
    refine List.nodup_cons.mpr ⟨fun member => ?_, shaped.distinct⟩
    exact Nat.lt_irrefl _ (shaped.allocated _ member)

theorem apart_second {address : Nat} {first : LiveRange} {rest : List (Nat × LiveRange)} (shaped : Shaped interval)
    (chain : interval.ranges = (address, first) :: rest) : ∀ next ∈ rest.head?, first.stop < next.2.start := by
  have ordered := shaped.ordered
  rw [chain, List.isChain_cons] at ordered
  exact ordered.1

/-- The search starts at the first range, as it does while the interval is
being built. -/
def SearchesFromFirst (interval : LiveInterval) : Prop :=
  interval.rangeSearchStart = interval.ranges.head?.map (·.1)

/-- What `AddRange` expects of its range: valid, and ending at or before the
first range's start, or the first range itself. -/
def AddRangeAllowed (interval : LiveInterval) (start stop : Nat) : Prop :=
  start < stop ∧ ∀ first ∈ interval.ranges.head?, stop ≤ first.2.start ∨ (first.2.start = start ∧ first.2.stop = stop)

theorem addRange_spec {start stop : Nat} (shaped : Shaped interval) (allowed : AddRangeAllowed interval start stop) :
    WellFormed (interval.addRange start stop) ∧
      coverage (interval.addRange start stop).ranges = Set.Ico start stop ∪ coverage interval.ranges ∧
      (SearchesFromFirst interval → SearchesFromFirst (interval.addRange start stop)) := by
  obtain ⟨valid, fits⟩ := allowed
  cases chain : interval.ranges with
  | nil =>
    simp only [addRange, chain]
    exact ⟨⟨shaped_single valid, by simp⟩, by simp [coverage_cons], fun _ => rfl⟩
  | cons head rest =>
    obtain ⟨address, first⟩ := head
    have firstFits := fits (address, first) (by simp [chain])
    have firstValid := shaped.valid (address, first) (by simp [chain])
    simp only at firstFits firstValid
    have unfolded : interval.addRange start stop =
        if first.start = stop then { interval with ranges := (address, { first with start := start }) :: rest }
        else if first.start = start ∧ first.stop = stop then interval
        else
          { interval with
            ranges := (interval.allocated, ⟨start, stop⟩) :: (address, first) :: rest
            rangeSearchStart := some interval.allocated
            allocated := interval.allocated + 1 } := by
      simp only [addRange, chain]
    by_cases extend : first.start = stop
    · -- There is a use in the following block: the first range now starts at `start`.
      rw [unfolded, if_pos extend]
      refine ⟨⟨shaped_replaceFirst shaped chain (show start < first.stop by omega)
        fun next member => apart_second shaped chain next member, by simp⟩, ?_,
        fun searches => by simpa [SearchesFromFirst, chain] using searches⟩
      rw [coverage_cons, coverage_cons]
      dsimp only
      rw [← Set.union_assoc, extend, Set.Ico_union_Ico_eq_Ico (by omega) (by omega)]
    by_cases same : first.start = start ∧ first.stop = stop
    · rw [unfolded, if_neg extend, if_pos same, chain, coverage_cons]
      obtain ⟨sameStart, sameStop⟩ := same
      refine ⟨⟨shaped, by simp [chain]⟩, ?_, id⟩
      rw [← sameStart, ← sameStop]
      exact (Set.union_eq_self_of_subset_left Set.subset_union_left).symm
    · -- There is a hole in the interval: a new range starts it.
      have before : stop < first.start := by omega
      rw [unfolded, if_neg extend, if_neg same, ← chain]
      refine ⟨⟨shaped_cons_fresh shaped (by simp [chain]) valid (by simpa [chain] using before), by simp⟩,
        coverage_cons _ _, fun _ => rfl⟩

theorem getStart_le (shaped : Shaped interval) : ∀ range ∈ interval.ranges, interval.getStart ≤ range.2.start := by
  have sorted := pairwise_of_isChain shaped.valid shaped.ordered
  cases chain : interval.ranges with
  | nil => simp
  | cons first rest =>
    rw [chain] at sorted
    have firstValid := shaped.valid first (by simp [chain])
    intro range member
    rw [getStart, chain]
    rcases List.mem_cons.mp member with rfl | later
    · simp
    · have apart := List.rel_of_pairwise_cons sorted later
      unfold Apart at apart
      simp only [List.head?_cons, Option.map_some, Option.getD_some]
      omega

/-- What `SetFrom` expects: the definition lies before the end of the first
range. -/
def SetFromAllowed (interval : LiveInterval) (start : Nat) : Prop :=
  ∀ first ∈ interval.ranges.head?, start < first.2.stop

/-- `SetFrom` makes the first range start at the definition; an interval with
no range gets the range of an instruction without uses. -/
theorem setFrom_spec {start : Nat} (shaped : Shaped interval) (allowed : SetFromAllowed interval start) :
    WellFormed (interval.setFrom start) ∧
      coverage (interval.setFrom start).ranges =
        Set.Ico start ((interval.ranges.head?.map (·.2.stop)).getD (start + 2)) ∪ coverage interval.ranges.tail ∧
      (SearchesFromFirst interval → SearchesFromFirst (interval.setFrom start)) := by
  cases chain : interval.ranges with
  | nil =>
    simp only [setFrom, chain]
    exact ⟨⟨shaped_single (by omega), by simp⟩, by simp [coverage_cons], fun _ => rfl⟩
  | cons head rest =>
    obtain ⟨address, first⟩ := head
    have before : start < first.stop := allowed (address, first) (by simp [chain])
    have result : interval.setFrom start = { interval with ranges := (address, { first with start := start }) :: rest } := by
      simp only [setFrom, chain, setFirstStart]
    rw [result]
    exact ⟨⟨shaped_replaceFirst shaped chain before fun next member => apart_second shaped chain next member, by simp⟩,
      coverage_cons _ _, fun searches => by simpa [SearchesFromFirst, chain] using searches⟩

/-- What `AddLoopRange` expects: an interval, and a loop that starts at or
before it and reaches its first range. -/
def AddLoopRangeAllowed (interval : LiveInterval) (start stop : Nat) : Prop :=
  ∃ first ∈ interval.ranges.head?, start ≤ first.2.start ∧ first.2.start ≤ stop

theorem addLoopRange_spec {start stop : Nat} (shaped : Shaped interval) (allowed : AddLoopRangeAllowed interval start stop) :
    ∃ result, interval.addLoopRange start stop = some result ∧ WellFormed result ∧
      coverage result.ranges = Set.Ico start stop ∪ coverage interval.ranges ∧ SearchesFromFirst result := by
  obtain ⟨first, firstMember, startBefore, reaches⟩ := allowed
  have firstStart : interval.getStart = first.2.start := by simp [getStart, Option.mem_def.mp firstMember]
  have startsAfter : ∀ range ∈ interval.ranges, start ≤ range.2.start := fun range member =>
    le_trans startBefore (firstStart ▸ getStart_le shaped range member)
  -- The ranges in the loop end before the loop does, so it covers them.
  have inLoopCovered : coverage (interval.ranges.takeWhile (·.2.stop < stop)) ⊆ Set.Ico start stop := by
    apply coverage_subset_Ico
    intro range member
    exact ⟨startsAfter range ((List.takeWhile_sublist _).subset member),
      le_of_lt (by simpa using List.mem_takeWhile_imp member)⟩
  have split := List.takeWhile_append_dropWhile (p := fun range : Nat × LiveRange => decide (range.2.stop < stop))
    (l := interval.ranges)
  have notInLoop := List.head?_dropWhile_not (fun range : Nat × LiveRange => decide (range.2.stop < stop)) interval.ranges
  simp only [addLoopRange]
  split
  · next dropped =>
    -- Uses are only in the loop.
    have firstIn : first ∈ interval.ranges := List.mem_of_mem_head? firstMember
    have firstValid := shaped.valid first firstIn
    have firstInLoop : first.2.stop < stop := by simpa using List.dropWhile_eq_nil_iff.mp dropped first firstIn
    rw [dropped, List.append_nil] at split
    rw [split] at inLoopCovered
    refine ⟨_, rfl, ⟨shaped_single (by omega), by simp⟩, ?_, rfl⟩
    rw [coverage_cons, coverage_nil, Set.union_empty, Set.union_eq_left.mpr inLoopCovered]
  · next address after rest dropped =>
    rw [dropped] at split notInLoop
    have afterSuffix := shaped_suffix shaped split.symm
    have afterValid := shaped.valid (address, after) (by rw [← split]; simp)
    have afterStarts := startsAfter (address, after) (by rw [← split]; simp)
    simp only [decide_eq_false_iff_not, not_lt] at notInLoop afterValid afterStarts
    split
    · next joins =>
      -- There are uses after the loop: its range now starts the loop.
      refine ⟨_, rfl, ⟨shaped_replaceFirst afterSuffix rfl (show start < after.stop by omega)
        fun next member => apart_second afterSuffix rfl next member, by simp⟩, ?_, rfl⟩
      rw [← split, coverage_append, coverage_cons, coverage_cons]
      dsimp only
      rw [← Set.union_assoc (Set.Ico start stop), Set.union_eq_left.mpr inLoopCovered, ← Set.union_assoc,
        Set.Ico_union_Ico' joins (by omega), min_eq_left afterStarts, max_eq_right notInLoop]
    · next hole =>
      split
      · next lastAddress lastRange last =>
        -- The use after the loop is after a lifetime hole: the last range in the loop becomes the loop.
        obtain ⟨inLoopFirst, inLoop⟩ := List.getLast?_eq_some_iff.mp last
        have lastMember : (lastAddress, lastRange) ∈ interval.ranges.takeWhile (·.2.stop < stop) := by simp [inLoop]
        have lastInLoop : lastRange.stop < stop := by simpa using List.mem_takeWhile_imp lastMember
        have lastStarts := startsAfter _ ((List.takeWhile_sublist _).subset lastMember)
        have lastValid := shaped.valid _ ((List.takeWhile_sublist _).subset lastMember)
        have lastSplit : interval.ranges = inLoopFirst ++ (lastAddress, lastRange) :: (address, after) :: rest := by
          rw [← split, inLoop, List.append_assoc, List.singleton_append]
        have lastSuffix := shaped_suffix shaped lastSplit
        simp only at lastStarts lastValid
        rw [dropped]
        refine ⟨_, rfl, ⟨shaped_replaceFirst lastSuffix rfl (show start < stop by omega) ?_, by simp⟩, ?_, rfl⟩
        · simpa using hole
        · rw [coverage_cons, ← split, coverage_append, ← Set.union_assoc, Set.union_eq_left.mpr inLoopCovered]
      · next noLast =>
        -- The first range reaches the loop's end, so it is not before it.
        rw [List.getLast?_eq_none_iff.mp noLast, List.nil_append] at split
        rw [← split] at firstMember
        simp only [List.head?_cons, Option.mem_def, Option.some.injEq] at firstMember
        rw [← firstMember] at reaches
        exact absurd reaches hole

/-- The intervals `ComputeLiveRanges` builds: from an empty one, by `AddRange`,
`AddLoopRange` and `SetFrom` calls, each given what it expects. -/
inductive Built : LiveInterval → Prop
  | empty (isFixed : Bool) (allocated : Nat) : Built (LiveInterval.empty isFixed allocated)
  | addRange {interval : LiveInterval} {start stop : Nat} :
      Built interval → AddRangeAllowed interval start stop → Built (interval.addRange start stop)
  | addLoopRange {interval result : LiveInterval} {start stop : Nat} :
      Built interval → AddLoopRangeAllowed interval start stop → interval.addLoopRange start stop = some result →
        Built result
  | setFrom {interval : LiveInterval} {start : Nat} :
      Built interval → SetFromAllowed interval start → Built (interval.setFrom start)

theorem built_shaped (built : Built interval) : Shaped interval ∧ SearchesFromFirst interval := by
  induction built with
  | empty isFixed allocated => exact ⟨shaped_empty isFixed allocated, rfl⟩
  | addRange _ allowed induction =>
    have step := addRange_spec induction.1 allowed
    exact ⟨step.1.toShaped, step.2.2 induction.2⟩
  | addLoopRange _ allowed returned induction =>
    obtain ⟨result, stepReturned, wellFormed, _, searches⟩ := addLoopRange_spec induction.1 allowed
    rw [returned, Option.some.injEq] at stepReturned
    rw [stepReturned]
    exact ⟨wellFormed.toShaped, searches⟩
  | setFrom _ allowed induction =>
    have step := setFrom_spec induction.1 allowed
    exact ⟨step.1.toShaped, step.2.2 induction.2⟩

end Building

section Splitting

variable {interval : LiveInterval}

theorem getEnd_eq {last : Nat × LiveRange} (shaped : Shaped interval) (isLast : interval.ranges.getLast? = some last) :
    interval.getEnd = last.2.stop := by
  rw [getEnd, shaped.lastRange, isLast, Option.map_some,
    rangeAt_of_mem shaped.distinct (List.mem_of_getLast? isLast)]
  rfl

/-- The chain up to a range of a shaped chain, ended there, is shaped, with a
search start in it or none. -/
theorem shaped_before_split {before after : List (Nat × LiveRange)} {last : Nat × LiveRange} {searchStart : Option Nat}
    (shaped : Shaped interval) (split : interval.ranges = before ++ after) (isLast : before.getLast? = some last)
    (inside : ∀ address, searchStart = some address → address ∈ before.map (·.1)) :
    Shaped { interval with ranges := before, lastRange := some last.1, rangeSearchStart := searchStart } := by
  have distinct := shaped.distinct
  have ordered := shaped.ordered
  rw [split, List.map_append, List.nodup_append] at distinct
  rw [split, List.isChain_append] at ordered
  refine ⟨fun range member => shaped.valid range (by simp [split, member]), ordered.1, by simp [isLast], inside, ?_,
    distinct.1⟩
  intro address member
  exact shaped.allocated address (by rw [split, List.map_append]; exact List.mem_append_left _ member)

/-- The first part of a shaped chain, followed by a range at the arena's next
address that starts after it, is shaped. -/
theorem shaped_snoc_fresh {before after : List (Nat × LiveRange)} (fresh : LiveRange) (searchStart : Option Nat)
    (shaped : Shaped interval) (split : interval.ranges = before ++ after) (valid : fresh.start < fresh.stop)
    (apart : ∀ last ∈ before.getLast?, Apart last (interval.allocated, fresh))
    (inside : ∀ address, searchStart = some address → address ∈ (before ++ [(interval.allocated, fresh)]).map (·.1)) :
    Shaped { interval with
      ranges := before ++ [(interval.allocated, fresh)]
      lastRange := some interval.allocated
      rangeSearchStart := searchStart
      allocated := interval.allocated + 1 } := by
  have ordered := shaped.ordered
  rw [split, List.isChain_append] at ordered
  have distinct := shaped.distinct
  rw [split, List.map_append, List.nodup_append] at distinct
  have beforeBelow : ∀ pointed ∈ before.map (·.1), pointed < interval.allocated := fun pointed member =>
    shaped.allocated pointed (by rw [split, List.map_append]; exact List.mem_append_left _ member)
  refine ⟨?_, List.isChain_append.mpr ⟨ordered.1, List.isChain_singleton _, fun last isLast next isNext => ?_⟩,
    by simp, inside, ?_, ?_⟩
  · intro range member
    rcases List.mem_append.mp member with inBefore | isNew
    · exact shaped.valid range (by simp [split, inBefore])
    · rw [List.mem_singleton.mp isNew]
      exact valid
  · rw [← Option.some.inj isNext]
    exact apart last isLast
  · intro pointed member
    rw [List.map_append, List.mem_append] at member
    rcases member with inBefore | isNew
    · exact Nat.lt_succ_of_lt (beforeBelow pointed inBefore)
    · rw [List.mem_singleton.mp isNew]
      exact Nat.lt_succ_self _
  · -- The arena hands out an address no range has yet.
    rw [List.map_append, List.nodup_append]
    refine ⟨distinct.1, by simp, ?_⟩
    intro pointed inBefore fresh isFresh
    rw [List.mem_singleton.mp isFresh]
    exact Nat.ne_of_lt (beforeBelow pointed inBefore)

theorem shaped_allocate {allocated : Nat} (shaped : Shaped interval) (more : interval.allocated ≤ allocated) :
    Shaped { interval with allocated := allocated } :=
  { shaped with allocated := fun address member => lt_of_lt_of_le (shaped.allocated address member) more }

theorem searchStart_mem_before {before rest : List (Nat × LiveRange)} {address : Nat} {current : LiveRange}
    (shaped : Shaped interval) (split : interval.ranges = before ++ (address, current) :: rest)
    (notInSibling : interval.searchStartInSibling current = false) :
    ∀ pointed, interval.rangeSearchStart = some pointed → pointed ∈ before.map (·.1) := by
  intro pointed search
  obtain ⟨range, member, rfl⟩ := List.mem_map.mp (shaped.searchStart pointed search)
  rw [searchStartInSibling, search, rangeAt_of_mem shaped.distinct member] at notInSibling
  have endsBefore : range.2.stop < current.stop := by simpa using notInSibling
  have sorted := pairwise_of_isChain shaped.valid shaped.ordered
  rw [split, List.pairwise_append, List.pairwise_cons] at sorted
  rw [split, List.mem_append, List.mem_cons] at member
  rcases member with inBefore | rfl | inRest
  · exact List.mem_map_of_mem inBefore
  · exact absurd endsBefore (lt_irrefl _)
  · have apart := sorted.2.1.1 range inRest
    have rangeValid := shaped.valid range (by simp [split, inRest])
    unfold Apart at apart
    simp only at apart
    omega

/-- Behind a search start in the first part of a chain, the ranges of that part
before it end by `scanned`. -/
theorem searchBehind_before_split {before after : List (Nat × LiveRange)} {scanned : Nat} (shaped : Shaped interval)
    (split : interval.ranges = before ++ after) (behind : SearchBehind interval scanned)
    (inside : ∀ pointed, interval.rangeSearchStart = some pointed → pointed ∈ before.map (·.1)) :
    ∀ range ∈ before, range ∉ chainFrom before interval.rangeSearchStart → range.2.stop ≤ scanned := by
  intro range member outside
  apply behind range (by rw [split]; exact List.mem_append_left _ member)
  cases search : interval.rangeSearchStart with
  | none => simp [chainFrom]
  | some pointed =>
    rw [search] at outside
    have distinct := shaped.distinct
    rw [split, List.map_append, List.nodup_append] at distinct
    rw [split, chainFrom_append_of_mem (inside pointed search), List.mem_append]
    rintro (inChain | inAfter)
    · exact outside inChain
    · exact distinct.2.2 range.1 (List.mem_map_of_mem member) range.1 (List.mem_map_of_mem inAfter) rfl

/-- What `SplitAt` at `position` leaves: two well-formed intervals that divide
the coverage at `position`, the sibling searched from its first range, and this
interval's search start behind `position` if it was behind before. -/
structure SplitCorrect (interval : LiveInterval) (position : Nat) (kept sibling : LiveInterval) : Prop where
  keptWellFormed : WellFormed kept
  siblingWellFormed : WellFormed sibling
  partition : coverage interval.ranges = coverage kept.ranges ∪ coverage sibling.ranges
  keptBefore : ∀ covered ∈ coverage kept.ranges, covered < position
  siblingAfter : ∀ covered ∈ coverage sibling.ranges, position ≤ covered
  siblingSearch : SearchesFromFirst sibling
  keptSearch : ∀ scanned, SearchBehind interval scanned → scanned ≤ position → SearchBehind kept position

section Cut

variable {position address : Nat} {current : LiveRange} {before rest : List (Nat × LiveRange)}
variable (shaped : Shaped interval) (split : interval.ranges = before ++ (address, current) :: rest)
include shaped split

theorem restAfter_of_split : ∀ range ∈ rest, current.stop < range.2.start := by
  have sorted := pairwise_of_isChain shaped.valid shaped.ordered
  rw [split, List.pairwise_append, List.pairwise_cons] at sorted
  exact sorted.2.1.1

variable (beforeEnded : ∀ range ∈ before, range.2.stop ≤ position)
include beforeEnded

theorem splitCorrect_hole {previous : Nat × LiveRange} (hole : position ≤ current.start)
    (isPrevious : before.getLast? = some previous) :
    SplitCorrect interval position
      { interval with
        ranges := before
        lastRange := some previous.1
        rangeSearchStart := if interval.searchStartInSibling current then none else interval.rangeSearchStart }
      { interval with ranges := (address, current) :: rest, rangeSearchStart := some address } := by
  have restAfter := restAfter_of_split shaped split
  have currentValid := shaped.valid (address, current) (by simp [split])
  have searchBefore := searchStart_mem_before shaped split
  refine ⟨⟨shaped_before_split shaped split isPrevious ?_, List.ne_nil_of_mem (List.mem_of_getLast? isPrevious)⟩,
    ⟨shaped_suffix shaped split, by simp⟩, by rw [split, coverage_append], lt_of_mem_coverage beforeEnded, ?_, rfl, ?_⟩
  · intro pointed search
    split at search
    · simp at search
    · next notInSibling => exact searchBefore (by simpa using notInSibling) pointed search
  · apply le_of_mem_coverage
    intro range member
    rcases List.mem_cons.mp member with rfl | inRest
    · exact hole
    · have apart := restAfter range inRest
      simp only at currentValid
      omega
  · -- Behind a search start moved out, every range kept ends by `position`.
    intro scanned behind later range member outside
    by_cases inSibling : interval.searchStartInSibling current = true
    · exact beforeEnded range member
    · rw [if_neg inSibling] at outside
      exact le_trans (searchBehind_before_split shaped split behind (searchBefore (by simpa using inSibling)) range member
        outside) later

/-- `current` covers `position`: a new range ends this interval and `current`
shortened starts the sibling. -/
theorem splitCorrect_inside (inside : current.start < position) (notEnded : position < current.stop) :
    SplitCorrect interval position
      { interval with
        ranges := before ++ [(interval.allocated, ⟨current.start, position⟩)]
        lastRange := some interval.allocated
        rangeSearchStart :=
          if interval.searchStartInSibling current then some interval.allocated else interval.rangeSearchStart
        allocated := interval.allocated + 1 }
      { interval with
        ranges := (address, { current with start := position }) :: rest
        rangeSearchStart := some address
        allocated := interval.allocated + 1 } := by
  have restAfter := restAfter_of_split shaped split
  have searchBefore := searchStart_mem_before shaped split
  have ordered := shaped.ordered
  rw [split, List.isChain_append] at ordered
  have keptShaped := shaped_snoc_fresh ⟨current.start, position⟩
    (if interval.searchStartInSibling current then some interval.allocated else interval.rangeSearchStart) shaped split inside
    (fun last isLast => ordered.2.2 last isLast (address, current) rfl) (by
      intro pointed search
      split at search
      · simp [← Option.some.inj search]
      · next notInSibling =>
        rw [List.map_append]
        exact List.mem_append_left _ (searchBefore (by simpa using notInSibling) pointed search))
  have siblingShaped := shaped_suffix shaped split
  have siblingReplaced : Shaped { interval with
      ranges := (address, { current with start := position }) :: rest
      rangeSearchStart := some address } :=
    shaped_replaceFirst siblingShaped rfl notEnded fun next member => apart_second siblingShaped rfl next member
  refine ⟨⟨keptShaped, by simp⟩, ⟨shaped_allocate siblingReplaced (Nat.le_succ _), by simp⟩, ?_, ?_, ?_, rfl, ?_⟩
  · rw [split, coverage_append, coverage_append, coverage_cons, coverage_cons, coverage_cons, coverage_nil]
    dsimp only
    rw [← Set.Ico_union_Ico_eq_Ico (le_of_lt inside) (le_of_lt notEnded)]
    simp only [Set.union_empty, Set.union_assoc]
  · apply lt_of_mem_coverage
    intro range member
    rcases List.mem_append.mp member with inBefore | isNew
    · exact beforeEnded range inBefore
    · rw [List.mem_singleton.mp isNew]
  · apply le_of_mem_coverage
    intro range member
    rcases List.mem_cons.mp member with rfl | inRest
    · exact le_refl _
    · have apart := restAfter range inRest
      omega
  · -- Behind the new last range, or behind a search start that stays, every range kept ends by `position`.
    intro scanned behind later range member outside
    rcases List.mem_append.mp member with inBefore | isNew
    · by_cases inSibling : interval.searchStartInSibling current = true
      · exact beforeEnded range inBefore
      · rw [if_neg inSibling] at outside
        have searchInBefore := searchBefore (by simpa using inSibling)
        apply le_trans _ later
        apply searchBehind_before_split shaped split behind searchInBefore range inBefore
        intro inChain
        apply outside
        cases search : interval.rangeSearchStart with
        | none => simp [search, chainFrom] at inChain
        | some pointed =>
          rw [search] at inChain
          rw [chainFrom_append_of_mem (searchInBefore pointed search)]
          exact List.mem_append_left _ inChain
    · rw [List.mem_singleton.mp isNew]

end Cut

theorem SplitCorrect.coversSlow_eq {position : Nat} {kept sibling : LiveInterval} (shaped : Shaped interval)
    (correct : SplitCorrect interval position kept sibling) (covered : Nat) :
    interval.coversSlow covered =
      (decide (covered < position) && kept.coversSlow covered || decide (position ≤ covered) && sibling.coversSlow covered) := by
  apply Bool.eq_iff_iff.mpr
  rw [coversSlow_iff shaped, correct.partition, Bool.or_eq_true, Bool.and_eq_true, Bool.and_eq_true,
    coversSlow_iff correct.keptWellFormed.toShaped, coversSlow_iff correct.siblingWellFormed.toShaped,
    decide_eq_true_eq, decide_eq_true_eq, Set.mem_union]
  constructor
  · rintro (inKept | inSibling)
    · exact Or.inl ⟨correct.keptBefore covered inKept, inKept⟩
    · exact Or.inr ⟨correct.siblingAfter covered inSibling, inSibling⟩
  · rintro (⟨_, inKept⟩ | ⟨_, inSibling⟩)
    · exact Or.inl inKept
    · exact Or.inr inSibling

theorem splitAt_spec {position : Nat} (wellFormed : WellFormed interval) (started : interval.getStart < position)
    (ends : position < interval.getEnd) :
    ∃ kept sibling, interval.splitAt position = some (kept, some sibling) ∧ SplitCorrect interval position kept sibling := by
  have shaped := wellFormed.toShaped
  have split := List.takeWhile_append_dropWhile (p := fun range : Nat × LiveRange => decide (range.2.stop ≤ position))
    (l := interval.ranges)
  have notEnded := List.head?_dropWhile_not (fun range : Nat × LiveRange => decide (range.2.stop ≤ position))
    interval.ranges
  have beforeEnded : ∀ range ∈ interval.ranges.takeWhile (·.2.stop ≤ position), range.2.stop ≤ position :=
    fun range member => by simpa using List.mem_takeWhile_imp member
  simp only [splitAt, if_neg (not_le.mpr ends)]
  split
  · next dropped =>
    -- The last range ends after `position`, so the search stops at it at the latest.
    obtain ⟨last, isLast⟩ := Option.isSome_iff_exists.mp (List.getLast?_isSome.mpr wellFormed.nonempty)
    have lastEnded := List.dropWhile_eq_nil_iff.mp dropped last (List.mem_of_getLast? isLast)
    rw [getEnd_eq shaped isLast] at ends
    simp only [decide_eq_true_eq] at lastEnded
    omega
  · next address current rest dropped =>
    rw [dropped] at split notEnded
    simp only [List.head?_cons, decide_eq_false_iff_not, not_le] at notEnded
    split
    · next hole =>
      split
      · next previous previousRange isPrevious =>
        exact ⟨_, _, rfl, splitCorrect_hole shaped split.symm beforeEnded hole isPrevious⟩
      · next noPrevious =>
        -- Without a range before it, `current` is the first range, which starts before `position`.
        rw [List.getLast?_eq_none_iff.mp noPrevious, List.nil_append] at split
        simp only [getStart, ← split, List.head?_cons, Option.map_some, Option.getD_some] at started
        omega
    · next inside =>
      exact ⟨_, _, rfl, splitCorrect_inside shaped split.symm beforeEnded (lt_of_not_ge inside) notEnded⟩

end Splitting

section Intersection

/-- The least of a set of positions, none when it is empty. -/
def IsFirst (positions : Set Nat) : Option Nat → Prop
  | some position => IsLeast positions position
  | none => positions = ∅

theorem start_le_of_mem_coverage {range : Nat × LiveRange} {rest : List (Nat × LiveRange)}
    (valid : ∀ other ∈ range :: rest, other.2.start < other.2.stop) (sorted : (range :: rest).Pairwise Apart) :
    ∀ position ∈ coverage (range :: rest), range.2.start ≤ position := by
  apply le_of_mem_coverage
  intro other member
  rcases List.mem_cons.mp member with rfl | inRest
  · exact le_refl _
  · have apart := List.rel_of_pairwise_cons sorted inRest
    have rangeValid := valid range (by simp)
    unfold Apart at apart
    omega

theorem coverage_cons_inter_of_before {range other : Nat × LiveRange} {rest others : List (Nat × LiveRange)}
    (valid : ∀ range ∈ other :: others, range.2.start < range.2.stop) (sorted : (other :: others).Pairwise Apart)
    (before : range.2.stop ≤ other.2.start) :
    coverage (range :: rest) ∩ coverage (other :: others) = coverage rest ∩ coverage (other :: others) := by
  have after := start_le_of_mem_coverage valid sorted
  rw [coverage_cons, Set.union_inter_distrib_right, Set.union_eq_right]
  rintro position ⟨⟨_, ended⟩, covered⟩
  have started := after position covered
  omega

theorem firstIntersection_isFirst (mine others : List (Nat × LiveRange))
    (mineValid : ∀ range ∈ mine, range.2.start < range.2.stop) (mineSorted : mine.Pairwise Apart)
    (othersValid : ∀ range ∈ others, range.2.start < range.2.stop) (othersSorted : others.Pairwise Apart) :
    IsFirst (coverage mine ∩ coverage others) (firstIntersection mine others) := by
  fun_induction firstIntersection mine others with
  | case1 others => simp [IsFirst]
  | case2 mine nonempty => simp [IsFirst]
  | case3 myAddress myRange myRest otherAddress otherRange otherRest before induction =>
    -- My range ends before the other chain starts: skip it.
    rw [coverage_cons_inter_of_before othersValid othersSorted before]
    exact induction (fun range member => mineValid range (List.mem_cons_of_mem _ member)) mineSorted.of_cons
      othersValid othersSorted
  | case4 myAddress myRange myRest otherAddress otherRange otherRest notBefore before induction =>
    rw [Set.inter_comm, coverage_cons_inter_of_before mineValid mineSorted before, Set.inter_comm]
    exact induction mineValid mineSorted (fun range member => othersValid range (List.mem_cons_of_mem _ member))
      othersSorted.of_cons
  | case5 myAddress myRange myRest otherAddress otherRange otherRest notBefore notAfter =>
    -- The two ranges intersect; every common position lies at or after both starts.
    have myValid := mineValid (myAddress, myRange) (by simp)
    have otherValid := othersValid (otherAddress, otherRange) (by simp)
    refine ⟨⟨?_, ?_⟩, ?_⟩
    · rw [coverage_cons]
      exact Or.inl ⟨le_max_left _ _, by simp only at myValid ⊢; omega⟩
    · rw [coverage_cons]
      exact Or.inl ⟨le_max_right _ _, by simp only at otherValid ⊢; omega⟩
    · rintro position ⟨myCovered, otherCovered⟩
      exact max_le (start_le_of_mem_coverage mineValid mineSorted position myCovered)
        (start_le_of_mem_coverage othersValid othersSorted position otherCovered)

/-- Behind the start of `current`, `FirstIntersectionWith` finds the first
position both intervals cover. -/
theorem firstIntersectionWith_isFirst {interval current : LiveInterval} {scanned : Nat} (shaped : Shaped interval)
    (currentShaped : Shaped current) (behind : SearchBehind interval scanned) (later : scanned ≤ current.getStart) :
    IsFirst (coverage interval.ranges ∩ coverage current.ranges) (interval.firstIntersectionWith current) := by
  have sorted := pairwise_of_isChain shaped.valid shaped.ordered
  -- The ranges the search skips end before `current` starts.
  have skipped : coverage (interval.ranges.dropWhile (·.2.stop ≤ current.getStart)) ∩ coverage current.ranges =
      coverage interval.ranges ∩ coverage current.ranges := by
    conv_rhs => rw [← List.takeWhile_append_dropWhile (p := fun range : Nat × LiveRange =>
      decide (range.2.stop ≤ current.getStart)) (l := interval.ranges)]
    rw [coverage_append, Set.union_inter_distrib_right, eq_comm, Set.union_eq_right]
    rintro position ⟨skippedCovered, currentCovered⟩
    have before := lt_of_mem_coverage (fun range member => by simpa using List.mem_takeWhile_imp member)
      position skippedCovered
    have after := le_of_mem_coverage (getStart_le currentShaped) position currentCovered
    omega
  rw [firstIntersectionWith, findRangeAtOrAfter_eq shaped behind later, ← skipped]
  exact firstIntersection_isFirst _ _ (fun range member => shaped.valid range ((List.dropWhile_sublist _).subset member))
    (sorted.sublist (List.dropWhile_sublist _)) currentShaped.valid
    (pairwise_of_isChain currentShaped.valid currentShaped.ordered)

end Intersection

/-! ## The interval's operations -/

theorem liveInterval_operations_keep_coverage :
    (∀ (interval : LiveInterval) (start stop : Nat), Shaped interval → AddRangeAllowed interval start stop →
      WellFormed (interval.addRange start stop) ∧
        coverage (interval.addRange start stop).ranges = Set.Ico start stop ∪ coverage interval.ranges) ∧
    (∀ (interval : LiveInterval) (start stop : Nat), Shaped interval → AddLoopRangeAllowed interval start stop →
      ∃ result, interval.addLoopRange start stop = some result ∧ WellFormed result ∧
        coverage result.ranges = Set.Ico start stop ∪ coverage interval.ranges) ∧
    (∀ (interval : LiveInterval) (start : Nat), Shaped interval → SetFromAllowed interval start →
      WellFormed (interval.setFrom start) ∧
        coverage (interval.setFrom start).ranges =
          Set.Ico start ((interval.ranges.head?.map (·.2.stop)).getD (start + 2)) ∪ coverage interval.ranges.tail) ∧
    (∀ interval : LiveInterval, Built interval → Shaped interval ∧ SearchesFromFirst interval) ∧
    (∀ (interval : LiveInterval) (position : Nat), WellFormed interval → interval.getStart < position →
      position < interval.getEnd →
      ∃ kept sibling, interval.splitAt position = some (kept, some sibling) ∧ WellFormed kept ∧ WellFormed sibling ∧
        (∀ covered, interval.coversSlow covered =
          (decide (covered < position) && kept.coversSlow covered ||
            decide (position ≤ covered) && sibling.coversSlow covered)) ∧
        SearchesFromFirst sibling ∧
        (∀ scanned, SearchBehind interval scanned → scanned ≤ position → SearchBehind kept position)) ∧
    (∀ (interval : LiveInterval) (scanned : Nat) (positions : List Nat), Shaped interval →
      SearchBehind interval scanned → (scanned :: positions).IsChain (· ≤ ·) →
      (interval.coversInOrder positions).1 = positions.map interval.coversSlow) ∧
    (∀ (interval : LiveInterval) (covered : Nat), Shaped interval →
      (interval.coversSlow covered = true ↔ covered ∈ coverage interval.ranges)) ∧
    (∀ (interval current : LiveInterval) (scanned : Nat), Shaped interval → Shaped current →
      SearchBehind interval scanned → scanned ≤ current.getStart →
      IsFirst (coverage interval.ranges ∩ coverage current.ranges) (interval.firstIntersectionWith current)) := by
  refine ⟨fun _ _ _ shaped allowed => ⟨(addRange_spec shaped allowed).1, (addRange_spec shaped allowed).2.1⟩,
    fun _ _ _ shaped allowed => ?_,
    fun _ _ shaped allowed => ⟨(setFrom_spec shaped allowed).1, (setFrom_spec shaped allowed).2.1⟩,
    fun _ built => built_shaped built, fun _ _ wellFormed started ends => ?_,
    fun _ _ _ shaped behind ascending => coversInOrder_eq shaped behind ascending,
    fun _ covered shaped => coversSlow_iff shaped covered,
    fun _ _ _ shaped currentShaped behind later => firstIntersectionWith_isFirst shaped currentShaped behind later⟩
  · obtain ⟨result, returned, wellFormed, covers, _⟩ := addLoopRange_spec shaped allowed
    exact ⟨result, returned, wellFormed, covers⟩
  · obtain ⟨kept, sibling, returned, correct⟩ := splitAt_spec wellFormed started ends
    exact ⟨kept, sibling, returned, correct.keptWellFormed, correct.siblingWellFormed,
      correct.coversSlow_eq wellFormed.toShaped, correct.siblingSearch, correct.keptSearch⟩

/-- The interval `[2, 6) [10, 14)` that two `AddRange` calls build, with a
range added before it, a loop over it, a definition inside its first range and
a split inside its last. -/
theorem liveInterval_operations_keep_coverage_of_two_ranges :
    let interval := ((empty false 0).addRange 10 14).addRange 2 6
    Shaped interval ∧ WellFormed interval ∧ AddRangeAllowed interval 0 2 ∧ AddLoopRangeAllowed interval 0 20 ∧
      SetFromAllowed interval 3 ∧ interval.getStart < 12 ∧ 12 < interval.getEnd ∧
      (WellFormed (interval.addRange 0 2) ∧
        coverage (interval.addRange 0 2).ranges = Set.Ico 0 2 ∪ coverage interval.ranges) ∧
      (∃ result, interval.addLoopRange 0 20 = some result ∧ WellFormed result ∧
        coverage result.ranges = Set.Ico 0 20 ∪ coverage interval.ranges) ∧
      (WellFormed (interval.setFrom 3) ∧
        coverage (interval.setFrom 3).ranges =
          Set.Ico 3 ((interval.ranges.head?.map (·.2.stop)).getD (3 + 2)) ∪ coverage interval.ranges.tail) ∧
      ∃ kept sibling, interval.splitAt 12 = some (kept, some sibling) ∧ WellFormed kept ∧ WellFormed sibling ∧
        (∀ covered, interval.coversSlow covered =
          (decide (covered < 12) && kept.coversSlow covered || decide (12 ≤ covered) && sibling.coversSlow covered)) ∧
        SearchesFromFirst sibling ∧
        (∀ scanned, SearchBehind interval scanned → scanned ≤ 12 → SearchBehind kept 12) := by
  intro interval
  have built : Built interval :=
    .addRange (.addRange (.empty false 0) ⟨by decide, by simp [empty]⟩) ⟨by decide, by decide⟩
  have shaped := (built_shaped built).1
  have wellFormed : WellFormed interval := ⟨shaped, by decide⟩
  have allowedAdd : AddRangeAllowed interval 0 2 := ⟨by decide, by decide⟩
  have allowedLoop : AddLoopRangeAllowed interval 0 20 := ⟨(1, ⟨2, 6⟩), by decide, by decide, by decide⟩
  have allowedFrom : SetFromAllowed interval 3 := by
    intro first member
    rw [show interval.ranges.head? = some (1, ⟨2, 6⟩) by decide, Option.mem_some_iff] at member
    rw [← member]
    decide
  have keep := liveInterval_operations_keep_coverage
  exact ⟨shaped, wellFormed, allowedAdd, allowedLoop, allowedFrom, by decide, by decide,
    keep.1 interval 0 2 shaped allowedAdd, keep.2.1 interval 0 20 shaped allowedLoop,
    keep.2.2.1 interval 3 shaped allowedFrom, keep.2.2.2.2.1 interval 12 wellFormed (by decide) (by decide)⟩

/-- `AddLoopRange` of a loop that ends before the interval's first range
starts dereferences the null `last_in_loop`, and `SetFrom` past the end of the
first range leaves a range that ends before it starts. -/
theorem addLoopRange_and_setFrom_outside_first_range_fail :
    Built ((empty false 0).addRange 10 12) ∧ ((empty false 0).addRange 10 12).addLoopRange 2 6 = none ∧
      Built ((empty false 0).addRange 4 6) ∧ ¬ WellFormed (((empty false 0).addRange 4 6).setFrom 8) := by
  refine ⟨Built.addRange (Built.empty false 0) ⟨by decide, by simp [empty]⟩, by decide,
    Built.addRange (Built.empty false 0) ⟨by decide, by simp [empty]⟩, ?_⟩
  intro wellFormed
  have invalid := wellFormed.valid (0, ⟨8, 6⟩) (by decide)
  exact absurd invalid (by decide)

end LiveInterval

end ArtRuntime.Compiler.SsaLiveness
