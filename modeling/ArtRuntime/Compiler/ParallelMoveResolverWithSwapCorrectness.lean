import Mathlib
import ArtRuntime.Compiler.ParallelMoveResolverWithSwap
import ArtRuntime.Compiler.ParallelMoveSemantics
import ArtRuntime.Foundation.OptionFold

/-! # The resolver with swaps performs parallel moves of single cells

`ParallelMoveResolverWithSwap::EmitNativeCode` is correct on the parallel moves
the register allocator makes of single cells: for a parallel move whose moves
carry values of one width between registers and 32-bit stack slots (or from
constants), with pairwise distinct destinations, it returns, and the code it
emits performs the simultaneous assignment (`emitNativeCode_performs_parallel_move`).
Pairs, double stack slots and moves of two widths are outside this statement;
`pairSwappedThroughHalf` in `ParallelMoveResolverWithSwap` is one of them that fails.

The proof follows the depth-first traversal of `PerformMove`. The moves marked
pending form a stack, each reading the destination of the one below it
(`Linked`); only the bottom one, where the traversal started, may read anything.
When a move finds its destination read by a pending move, that move is the bottom
of the stack, and the move's own source is the destination of the pending move
below it: the swap moves the value to its place and leaves the displaced value
where the move below will look for it. A move read by no one is emitted. Every
step keeps `Represents`, and the loop of `PerformMove` never leaves a move behind
that reads its destination and is not pending (`Scanning.scanned`).
-/

namespace ArtRuntime.Compiler

namespace ParallelMoveResolverWithSwap

open ParallelMoveResolver

/-! ## A swap of single cells -/

/-- Where the value read from `location` is after `source` and `destination` are swapped. -/
def swappedLocation (source destination location : Location) : Location :=
  if location = source then destination else if location = destination then source else location

section Swap

variable {wide : Bool} {source destination : Location}

theorem lowOf_of_isSingle {location : Location} (single : location.isSingle wide = true) :
    location.lowOf = .noLocation := by
  cases location <;> simp_all [Location.isSingle, Location.lowOf]

theorem highOf_of_isSingle {location : Location} (single : location.isSingle wide = true) :
    location.highOf = .noLocation := by
  cases location <;> simp_all [Location.isSingle, Location.highOf]

theorem updateSourceOf_of_isSingle {move : MoveOperands} {updatedLocation : Location}
    (single : updatedLocation.isSingle wide = true) (left : move.isEliminated = false)
    (newSource : Location) : updateSourceOf move updatedLocation newSource = { move with source := newSource } := by
  have present := MoveOperands.isEliminated_eq_false_iff.mp left
  simp [updateSourceOf, lowOf_of_isSingle single, highOf_of_isSingle single, Ne.symm present]

theorem updateAfterSwap_of_isEliminated {move : MoveOperands} (eliminated : move.isEliminated = true) :
    updateAfterSwap source destination move = move := by
  simp [updateAfterSwap, MoveOperands.blocks_of_isEliminated eliminated]

theorem updateAfterSwap_of_left {move : MoveOperands} (sourceSingle : source.isSingle wide = true)
    (destinationSingle : destination.isSingle wide = true) (left : move.isEliminated = false)
    (moveSource : move.source.isSingleSource wide = true) :
    updateAfterSwap source destination move =
      { move with source := swappedLocation source destination move.source } := by
  have blocksSource := MoveOperands.blocks_iff left moveSource
    (Location.isSingleSource_of_isSingle sourceSingle)
  have blocksDestination := MoveOperands.blocks_iff left moveSource
    (Location.isSingleSource_of_isSingle destinationSingle)
  unfold updateAfterSwap swappedLocation
  by_cases readsSource : move.source = source
  · rw [if_pos (blocksSource.mpr readsSource), if_pos readsSource,
      updateSourceOf_of_isSingle sourceSingle left]
  · rw [if_neg (fun blocks => readsSource (blocksSource.mp blocks)), if_neg readsSource]
    by_cases readsDestination : move.source = destination
    · rw [if_pos (blocksDestination.mpr readsDestination), if_pos readsDestination,
        updateSourceOf_of_isSingle destinationSingle left]
    · rw [if_neg (fun blocks => readsDestination (blocksDestination.mp blocks)), if_neg readsDestination]

theorem read_swappedLocation {type : DataType} (wideType : type.is64BitType = wide)
    (sourceSingle : source.isSingle wide = true) (destinationSingle : destination.isSingle wide = true)
    (different : source ≠ destination) {location : Location}
    (locationSource : location.isSingleSource wide = true) (store : Store) :
    (swappedLocation source destination location).read ((Emitted.swap source destination type).run store)
      wide = location.read store wide := by
  unfold swappedLocation
  by_cases readsSource : location = source
  · rw [if_pos readsSource, readsSource,
      Emitted.read_run_swap_destination wideType sourceSingle destinationSingle]
  · rw [if_neg readsSource]
    by_cases readsDestination : location = destination
    · rw [if_pos readsDestination, readsDestination,
        Emitted.read_run_swap_source wideType sourceSingle destinationSingle different]
    · rw [if_neg readsDestination, Emitted.read_run_swap_of_ne wideType sourceSingle destinationSingle
        locationSource readsSource readsDestination]

theorem swappedLocation_of_ne {location : Location} (notSource : location ≠ source)
    (notDestination : location ≠ destination) : swappedLocation source destination location = location := by
  simp [swappedLocation, notSource, notDestination]

theorem swappedLocation_isSingleSource (sourceSingle : source.isSingle wide = true)
    (destinationSingle : destination.isSingle wide = true) {location : Location}
    (locationSource : location.isSingleSource wide = true) :
    (swappedLocation source destination location).isSingleSource wide = true := by
  unfold swappedLocation
  split
  · exact Location.isSingleSource_of_isSingle destinationSingle
  · split
    · exact Location.isSingleSource_of_isSingle sourceSingle
    · exact locationSource

end Swap

section Resolver

variable {resolver : ParallelMoveResolver} {index k : Nat}

@[simp] theorem moves_emitSwap (resolver : ParallelMoveResolver) (index : Nat) :
    (emitSwap resolver index).moves = resolver.moves := rfl

@[simp] theorem emitted_swapMove (resolver : ParallelMoveResolver) (index : Nat) :
    (swapMove resolver index).emitted = resolver.emitted ++
      [.swap (resolver.moveAt index).source (resolver.moveAt index).destination
        (resolver.moveAt index).type] := rfl

@[simp] theorem length_swapMove (resolver : ParallelMoveResolver) (index : Nat) :
    (swapMove resolver index).moves.length = resolver.moves.length := by
  simp [swapMove, eliminate]

theorem getD_map_of_fixed {α : Type} {f : α → α} {fallback : α} (fixed : f fallback = fallback)
    (list : List α) (k : Nat) : (list.map f).getD k fallback = f (list.getD k fallback) :=
  calc (list.map f).getD k fallback = (list.map f).getD k (f fallback) := by rw [fixed]
    _ = f (list.getD k fallback) := List.getD_map ..

theorem moveAt_swapMove (resolver : ParallelMoveResolver) (index k : Nat) :
    (swapMove resolver index).moveAt k =
      updateAfterSwap (resolver.moveAt index).source (resolver.moveAt index).destination
        ((emitSwap resolver index |>.eliminate index).moveAt k) := by
  have fixed : updateAfterSwap (resolver.moveAt index).source (resolver.moveAt index).destination
      default = default := updateAfterSwap_of_isEliminated rfl
  exact getD_map_of_fixed fixed _ k

theorem moveAt_swapMove_self (inBounds : index < resolver.moves.length) :
    (swapMove resolver index).moveAt index = (resolver.moveAt index).eliminate := by
  rw [moveAt_swapMove, eliminate, moveAt_setMove_self (by simpa using inBounds)]
  exact updateAfterSwap_of_isEliminated rfl

theorem moveAt_swapMove_of_ne (different : k ≠ index) :
    (swapMove resolver index).moveAt k =
      updateAfterSwap (resolver.moveAt index).source (resolver.moveAt index).destination
        (resolver.moveAt k) := by
  rw [moveAt_swapMove, eliminate, moveAt_setMove_of_ne different]
  rfl

end Resolver

/-! ## The swap keeps the worklist standing for the parallel move -/

section Steps

variable {wide : Bool} {original : List MoveOperands}
  (singles : ∀ move ∈ original, move.isSingle wide = true)
  (distinct : (original.map MoveOperands.destination).Nodup)
include singles distinct

/-- Swapping a move whose source is the destination of another move left keeps
the relation: the swapped move has its value, and the value displaced from its
destination waits in its source, which the other move will write. -/
theorem represents_swapMove {resolver : ParallelMoveResolver} {index parent : Nat}
    (represents : Represents wide original resolver) (inBounds : index < original.length)
    (left : (resolver.moveAt index).isEliminated = false)
    (destinationEq : (resolver.moveAt index).destination = (original.getD index default).destination)
    (different : (resolver.moveAt index).source ≠ (original.getD index default).destination)
    (parentInBounds : parent < original.length)
    (parentLeft : (resolver.moveAt parent).isEliminated = false)
    (cycle : (original.getD parent default).destination = (resolver.moveAt index).source) :
    Represents wide original (swapMove resolver index) := by
  have sourceSingle : (resolver.moveAt index).source.isSingle wide = true :=
    cycle ▸ MoveOperands.destination_of_isSingle (getD_isSingle singles parentInBounds)
  have destinationSingle := MoveOperands.destination_of_isSingle (getD_isSingle singles inBounds)
  have wideType := represents.width_eq singles inBounds
  have run : ∀ initial, execute initial (swapMove resolver index).emitted =
      (Emitted.swap (resolver.moveAt index).source (original.getD index default).destination
        (resolver.moveAt index).type).run (execute initial resolver.emitted) := by
    intro initial
    rw [emitted_swapMove, execute_append_singleton, destinationEq]
  have atIndex : (swapMove resolver index).moveAt index = (resolver.moveAt index).eliminate :=
    moveAt_swapMove_self (represents.length_eq ▸ inBounds)
  have atEliminated : ∀ k, k ≠ index → (resolver.moveAt k).isEliminated = true →
      (swapMove resolver index).moveAt k = resolver.moveAt k := by
    intro k different eliminated
    rw [moveAt_swapMove_of_ne different, updateAfterSwap_of_isEliminated eliminated]
  have atLeft : ∀ k < original.length, k ≠ index → (resolver.moveAt k).isEliminated = false →
      (swapMove resolver index).moveAt k = { resolver.moveAt k with
        source := swappedLocation (resolver.moveAt index).source
          (original.getD index default).destination (resolver.moveAt k).source } := by
    intro k kInBounds different kLeft
    rw [moveAt_swapMove_of_ne different, destinationEq, updateAfterSwap_of_left sourceSingle
      destinationSingle kLeft (represents.source_single k kInBounds kLeft)]
  -- a move is left after the swap exactly when it was left before and is not the swapped one
  have leftAfter : ∀ k < original.length, ((swapMove resolver index).moveAt k).isEliminated = false →
      k ≠ index ∧ (resolver.moveAt k).isEliminated = false := by
    intro k kInBounds kLeft
    have different : k ≠ index := by
      rintro rfl
      rw [atIndex] at kLeft
      simp at kLeft
    refine ⟨different, ?_⟩
    cases kBefore : (resolver.moveAt k).isEliminated
    · rfl
    · rw [atEliminated k different kBefore, kBefore] at kLeft
      exact kLeft
  have stillLeft : ∀ k < original.length, k ≠ index → (resolver.moveAt k).isEliminated = false →
      ((swapMove resolver index).moveAt k).isEliminated = false := by
    intro k kInBounds different kLeft
    rw [atLeft k kInBounds different kLeft]
    exact MoveOperands.isEliminated_eq_false_iff.mpr (Location.ne_noLocation_of_isSingleSource
      (swappedLocation_isSingleSource sourceSingle destinationSingle
        (represents.source_single k kInBounds kLeft)))
  refine ⟨by simpa using represents.length_eq, fun k => ?_, fun k kInBounds kLeft => ?_,
    fun k kInBounds kLeft => ?_, fun k kInBounds kLeft initial => ?_,
    fun k kInBounds eliminated initial => ?_, fun instruction member cell written => ?_⟩
  · by_cases same : k = index
    · subst same
      rw [atIndex, MoveOperands.type_eliminate, represents.type_eq]
    · cases kBefore : (resolver.moveAt k).isEliminated
      · rw [atLeft k (represents.lt_of_left kBefore) same kBefore]
        exact represents.type_eq k
      · rw [atEliminated k same kBefore, represents.type_eq]
  · obtain ⟨notIndex, kBefore⟩ := leftAfter k kInBounds kLeft
    rw [atLeft k kInBounds notIndex kBefore]
    exact swappedLocation_isSingleSource sourceSingle destinationSingle
      (represents.source_single k kInBounds kBefore)
  · obtain ⟨notIndex, kBefore⟩ := leftAfter k kInBounds kLeft
    rw [atLeft k kInBounds notIndex kBefore]
    exact represents.destination_eq k kInBounds kBefore
  · obtain ⟨notIndex, kBefore⟩ := leftAfter k kInBounds kLeft
    rw [atLeft k kInBounds notIndex kBefore, run, read_swappedLocation wideType sourceSingle
      destinationSingle different (represents.source_single k kInBounds kBefore)]
    exact represents.source_read k kInBounds kBefore initial
  · by_cases same : k = index
    · subst same
      rw [run, Emitted.read_run_swap_destination wideType sourceSingle destinationSingle]
      exact represents.source_read k kInBounds left initial
    · have kBefore : (resolver.moveAt k).isEliminated = true := by
        cases kLeft : (resolver.moveAt k).isEliminated
        · rw [stillLeft k kInBounds same kLeft] at eliminated
          exact eliminated
        · rfl
      have notParent : k ≠ parent := by
        rintro rfl
        exact Bool.noConfusion (kBefore.symm.trans parentLeft)
      have kDestination := Location.isSingleSource_of_isSingle
        (MoveOperands.destination_of_isSingle (getD_isSingle singles kInBounds))
      rw [run, Emitted.read_run_swap_of_ne wideType sourceSingle destinationSingle kDestination
        (fun equal => notParent (destination_injective distinct kInBounds parentInBounds
          (equal.trans cycle.symm)))
        (fun equal => same (destination_injective distinct kInBounds inBounds equal))]
      exact represents.done k kInBounds kBefore initial
  · rw [emitted_swapMove, List.mem_append, List.mem_singleton] at member
    rcases member with old | new
    · exact represents.writes instruction old cell written
    · subst new
      rw [Emitted.writes, destinationEq, List.mem_append] at written
      rcases written with inSource | inDestination
      · exact ⟨_, getD_mem parentInBounds, cycle ▸ inSource⟩
      · exact ⟨_, getD_mem inBounds, inDestination⟩

end Steps

/-! ## The steps of `PerformMove` -/

section Equations

variable {perform : ParallelMoveResolver → Nat → Option (ParallelMoveResolver × Option Nat)}
  {resolver : ParallelMoveResolver} {index position steps : Nat} {destination : Location}

theorem resolveMove_of_self (self : (resolver.moveAt index).source = destination) :
    resolveMove resolver index destination none = (resolver.eliminate index, none) := by
  simp [resolveMove, self]

theorem resolveMove_of_unblocked (different : (resolver.moveAt index).source ≠ destination)
    (unblocked : resolver.moves.findIdx? (·.blocks destination) = none) :
    resolveMove resolver index destination none = ((resolver.emitMove index).eliminate index, none) := by
  simp [resolveMove, different, unblocked]

theorem resolveMove_of_blocked (different : (resolver.moveAt index).source ≠ destination) {other : Nat}
    (blocked : resolver.moves.findIdx? (·.blocks destination) = some other)
    (sameWidth : (resolver.moveAt index).is64BitMove = (resolver.moveAt other).is64BitMove) :
    resolveMove resolver index destination none = (swapMove resolver index, none) := by
  simp [resolveMove, different, blocked, sameWidth]

theorem scanBlockers_of_end (past : ¬ position < resolver.moves.length) :
    scanBlockers perform index destination (steps + 1) resolver position =
      some (resolver, .finished none) := by
  simp [scanBlockers, past]

theorem scanBlockers_of_skip (inBounds : position < resolver.moves.length)
    (passed : ((resolver.moveAt position).blocks destination &&
      !(resolver.moveAt position).isPending) = false) :
    scanBlockers perform index destination (steps + 1) resolver position =
      scanBlockers perform index destination steps resolver (position + 1) := by
  simp only [scanBlockers, if_pos inBounds, passed, Bool.false_eq_true, if_false]

theorem scanBlockers_of_perform (inBounds : position < resolver.moves.length)
    (blocking : ((resolver.moveAt position).blocks destination &&
      !(resolver.moveAt position).isPending) = true) {after : ParallelMoveResolver}
    (performed : perform resolver position = some (after, none)) :
    scanBlockers perform index destination (steps + 1) resolver position =
      scanBlockers perform index destination steps after (position + 1) := by
  simp [scanBlockers, inBounds, blocking, performed]

theorem performMove_of_redundant {fuel : Nat} (redundant : (resolver.moveAt index).isRedundant = true) :
    performMove (fuel + 1) resolver index = some (resolver.eliminate index, none) := by
  simp [performMove, redundant]

theorem performMove_of_finished {fuel : Nat} (needed : (resolver.moveAt index).isRedundant = false)
    {scanned : ParallelMoveResolver}
    (scan : scanBlockers (performMove fuel) index (resolver.moveAt index).destination fuel
      (resolver.markPending index) 0 = some (scanned, .finished none)) :
    performMove (fuel + 1) resolver index =
      some (resolveMove (scanned.clearPending index (resolver.moveAt index).destination) index
        (resolver.moveAt index).destination none) := by
  simp [performMove, needed, scan]

end Equations

/-! ## The stack of pending moves -/

section Traversal

variable {wide : Bool} {original : List MoveOperands} {resolver : ParallelMoveResolver}

/-- The pending moves, innermost first, each reading the destination of the move
below it, whose destination it blocks. The bottom move may read anything. -/
def Linked (original : List MoveOperands) (resolver : ParallelMoveResolver) : List Nat → Prop
  | child :: parent :: rest =>
      (resolver.moveAt child).source = (original.getD parent default).destination ∧
        Linked original resolver (parent :: rest)
  | _ => True

theorem Linked.tail {top : Nat} {stack : List Nat} (linked : Linked original resolver (top :: stack)) :
    Linked original resolver stack := by
  cases stack with
  | nil => trivial
  | cons parent rest => exact linked.2

theorem Linked.exists_parent : ∀ {stack : List Nat}, Linked original resolver stack →
    ∀ child ∈ stack.dropLast, ∃ parent ∈ stack.tail,
      (resolver.moveAt child).source = (original.getD parent default).destination
  | [], _, _, member => by simp at member
  | [_], _, _, member => by simp at member
  | top :: parent :: rest, linked, child, member => by
    rw [List.dropLast_cons_cons] at member
    rcases List.mem_cons.mp member with rfl | inner
    · exact ⟨parent, List.mem_cons_self, linked.1⟩
    · obtain ⟨below, belowMember, reads⟩ := Linked.exists_parent linked.2 child inner
      exact ⟨below, List.mem_cons_of_mem _ belowMember, reads⟩

theorem Linked.congr {other : ParallelMoveResolver} : ∀ {stack : List Nat}, Linked original resolver stack →
    (∀ child ∈ stack.dropLast, (other.moveAt child).source = (resolver.moveAt child).source) →
    Linked original other stack
  | [], _, _ => trivial
  | [_], _, _ => trivial
  | top :: parent :: rest, linked, same => by
    refine ⟨(same top (by simp)).trans linked.1, Linked.congr linked.2 fun child member => ?_⟩
    exact same child (by rw [List.dropLast_cons_cons]; exact List.mem_cons_of_mem _ member)

/-- A move left that is not pending. -/
def Free (resolver : ParallelMoveResolver) (j : Nat) : Prop :=
  (resolver.moveAt j).isEliminated = false ∧ (resolver.moveAt j).destination ≠ .noLocation

/-- The moves of `stack`, each once, are the pending moves. -/
structure Frames (original : List MoveOperands) (resolver : ParallelMoveResolver) (stack : List Nat) :
    Prop where
  nodup : stack.Nodup
  mem : ∀ j ∈ stack, j < original.length ∧ (resolver.moveAt j).isEliminated = false
  pending_iff : ∀ j < original.length, (resolver.moveAt j).isEliminated = false →
    ((resolver.moveAt j).destination = .noLocation ↔ j ∈ stack)

theorem Frames.free_iff {stack : List Nat} (frames : Frames original resolver stack) {j : Nat}
    (inBounds : j < original.length) (left : (resolver.moveAt j).isEliminated = false) :
    Free resolver j ↔ j ∉ stack :=
  ⟨fun free member => free.2 ((frames.pending_iff j inBounds left).mpr member),
    fun notMember => ⟨left, fun cleared => notMember ((frames.pending_iff j inBounds left).mp cleared)⟩⟩

theorem Frames.length_lt {stack : List Nat} (frames : Frames original resolver stack) {index : Nat}
    (inBounds : index < original.length) (notMember : index ∉ stack) :
    stack.length < original.length := by
  have nodup : (index :: stack).Nodup := List.Nodup.cons notMember frames.nodup
  have within : index :: stack ⊆ List.range original.length := by
    intro j member
    rcases List.mem_cons.mp member with rfl | inStack
    · exact List.mem_range.mpr inBounds
    · exact List.mem_range.mpr (frames.mem j inStack).1
  have bound := (nodup.subperm within).length_le
  simp only [List.length_cons, List.length_range] at bound
  omega

variable (wide original)

/-- What `PerformMove(index)` is called with: a move left, not pending and not
reading a constant, above the pending moves `stack`, reading the destination of
the top one. -/
structure Ready (resolver : ParallelMoveResolver) (stack : List Nat) (index : Nat) : Prop where
  represents : Represents wide original resolver
  frames : Frames original resolver stack
  linked : Linked original resolver (index :: stack)
  index_lt : index < original.length
  left : (resolver.moveAt index).isEliminated = false
  not_mem : index ∉ stack
  not_constant : (resolver.moveAt index).source.isConstant = false

/-- What `PerformMove(index)` leaves: the move eliminated, the same pending moves,
no move eliminated before brought back, no free move newly reading the
destination of a pending move, and the moves from constants untouched. -/
structure Performed (before after : ParallelMoveResolver) (stack : List Nat) (index : Nat) : Prop where
  represents : Represents wide original after
  frames : Frames original after stack
  linked : Linked original after stack
  eliminated : (after.moveAt index).isEliminated = true
  stays_eliminated : ∀ j, (before.moveAt j).isEliminated = true → (after.moveAt j).isEliminated = true
  readers : ∀ f ∈ stack, ∀ j, Free after j →
    (after.moveAt j).source = (original.getD f default).destination →
    Free before j ∧ (before.moveAt j).source = (original.getD f default).destination
  constants : ∀ j, (before.moveAt j).source.isConstant = true → after.moveAt j = before.moveAt j

/-- The dependency loop of `PerformMove(index)` at `position`, started from the
worklist `marked` with the move pending: no free move before `position` reads the
move's destination. -/
structure Scanning (marked resolver : ParallelMoveResolver) (stack : List Nat) (index position : Nat) :
    Prop where
  represents : Represents wide original resolver
  frames : Frames original resolver (index :: stack)
  linked : Linked original resolver (index :: stack)
  scanned : ∀ j < position, Free resolver j →
    (resolver.moveAt j).source ≠ (original.getD index default).destination
  stays_eliminated : ∀ j, (marked.moveAt j).isEliminated = true → (resolver.moveAt j).isEliminated = true
  readers : ∀ f ∈ stack, ∀ j, Free resolver j →
    (resolver.moveAt j).source = (original.getD f default).destination →
    Free marked j ∧ (marked.moveAt j).source = (original.getD f default).destination
  constants : ∀ j, (marked.moveAt j).source.isConstant = true → resolver.moveAt j = marked.moveAt j

/-- `perform` does what `PerformMove` must with `fuel`: called on a ready move
with a stack short enough for the fuel, it returns without a required swap. -/
def PerformSpec (perform : ParallelMoveResolver → Nat → Option (ParallelMoveResolver × Option Nat))
    (fuel : Nat) : Prop :=
  ∀ {resolver : ParallelMoveResolver} {stack : List Nat} {index : Nat}, Ready wide original resolver stack index →
    2 * original.length + 1 ≤ fuel + stack.length →
    ∃ after, perform resolver index = some (after, none) ∧
      Performed wide original resolver after stack index

end Traversal

/-! ## The dependency loop -/

section Loop

variable {wide : Bool} {original : List MoveOperands} {resolver marked : ParallelMoveResolver}
  {stack : List Nat} {index position : Nat}

theorem moveAt_markPending_self (inBounds : index < resolver.moves.length) :
    (resolver.markPending index).moveAt index = { resolver.moveAt index with destination := .noLocation } :=
  moveAt_setMove_self inBounds

theorem moveAt_clearPending_self (inBounds : index < resolver.moves.length) (destination : Location) :
    (resolver.clearPending index destination).moveAt index = { resolver.moveAt index with destination } :=
  moveAt_setMove_self inBounds

theorem Ready.scanning (ready : Ready wide original resolver stack index) :
    Scanning wide original (resolver.markPending index) (resolver.markPending index) stack index 0 := by
  have inMoves : index < resolver.moves.length := ready.represents.length_eq ▸ ready.index_lt
  have atIndex := moveAt_markPending_self inMoves
  have atOther : ∀ k, k ≠ index → (resolver.markPending index).moveAt k = resolver.moveAt k :=
    fun _ different => moveAt_setMove_of_ne different
  refine ⟨ready.represents.setDestination ready.index_lt ready.left (Or.inr rfl),
    ⟨List.Nodup.cons ready.not_mem ready.frames.nodup, fun j member => ?_, fun j inBounds left => ?_⟩,
    ready.linked.congr fun child _ => ?_, fun _ bound => absurd bound (Nat.not_lt_zero _),
    fun _ eliminated => eliminated, fun _ _ _ free reads => ⟨free, reads⟩, fun _ _ => rfl⟩
  · rcases List.mem_cons.mp member with rfl | inStack
    · rw [atIndex]
      exact ⟨ready.index_lt, ready.left⟩
    · have different : j ≠ index := fun same => ready.not_mem (same ▸ inStack)
      rw [atOther j different]
      exact ready.frames.mem j inStack
  · by_cases same : j = index
    · subst same
      rw [atIndex]
      simp
    · rw [atOther j same] at left ⊢
      rw [ready.frames.pending_iff j inBounds left, List.mem_cons, or_iff_right same]
  · by_cases same : child = index
    · subst same
      rw [atIndex]
    · rw [atOther child same]

theorem Scanning.index_lt (scanning : Scanning wide original marked resolver stack index position) :
    index < original.length :=
  (scanning.frames.mem index List.mem_cons_self).1

variable (singles : ∀ move ∈ original, move.isSingle wide = true)
include singles

theorem Scanning.ready (scanning : Scanning wide original marked resolver stack index position)
    (inBounds : position < original.length)
    (blocking : ((resolver.moveAt position).blocks (original.getD index default).destination &&
      !(resolver.moveAt position).isPending) = true) :
    Ready wide original resolver (index :: stack) position := by
  have destinationSingle := MoveOperands.destination_of_isSingle
    (getD_isSingle singles scanning.index_lt)
  rw [Bool.and_eq_true, Bool.not_eq_true'] at blocking
  have left : (resolver.moveAt position).isEliminated = false := by
    cases eliminated : (resolver.moveAt position).isEliminated
    · rfl
    · rw [MoveOperands.blocks_of_isEliminated eliminated] at blocking
      exact absurd blocking.1 Bool.false_ne_true
  have reads := (MoveOperands.blocks_iff left (scanning.represents.source_single position inBounds left)
    (Location.isSingleSource_of_isSingle destinationSingle)).mp blocking.1
  have free : Free resolver position :=
    ⟨left, (MoveOperands.isPending_eq_false_iff left).mp blocking.2⟩
  exact ⟨scanning.represents, scanning.frames, ⟨reads, scanning.linked⟩, inBounds, left,
    (scanning.frames.free_iff inBounds left).mp free,
    reads ▸ Location.isConstant_eq_false_of_isSingle destinationSingle⟩

theorem Scanning.skip (scanning : Scanning wide original marked resolver stack index position)
    (inBounds : position < original.length)
    (passed : ((resolver.moveAt position).blocks (original.getD index default).destination &&
      !(resolver.moveAt position).isPending) = false) :
    Scanning wide original marked resolver stack index (position + 1) := by
  refine { scanning with scanned := fun j bound free => ?_ }
  rcases Nat.lt_succ_iff_lt_or_eq.mp bound with before | rfl
  · exact scanning.scanned j before free
  · have destinationSingle := MoveOperands.destination_of_isSingle
      (getD_isSingle singles scanning.index_lt)
    have notPending := (MoveOperands.isPending_eq_false_iff free.1).mpr free.2
    rw [notPending, Bool.not_false, Bool.and_true] at passed
    intro reads
    rw [(MoveOperands.blocks_iff free.1 (scanning.represents.source_single j inBounds free.1)
      (Location.isSingleSource_of_isSingle destinationSingle)).mpr reads] at passed
    exact Bool.noConfusion passed

omit singles in
/-- After performing the move at `position`, the loop has passed it: the move is
eliminated, and no free move newly reads the destination. -/
theorem Scanning.perform (scanning : Scanning wide original marked resolver stack index position)
    {after : ParallelMoveResolver} (performed : Performed wide original resolver after (index :: stack) position) :
    Scanning wide original marked after stack index (position + 1) := by
  refine ⟨performed.represents, performed.frames, performed.linked, fun j bound free reads => ?_,
    fun j eliminated => performed.stays_eliminated j (scanning.stays_eliminated j eliminated),
    fun f member j free reads => ?_, fun j constant => ?_⟩
  · rcases Nat.lt_succ_iff_lt_or_eq.mp bound with before | rfl
    · obtain ⟨freeBefore, readsBefore⟩ := performed.readers index List.mem_cons_self j free reads
      exact scanning.scanned j before freeBefore readsBefore
    · exact Bool.noConfusion (free.1.symm.trans performed.eliminated)
  · obtain ⟨freeBefore, readsBefore⟩ :=
      performed.readers f (List.mem_cons_of_mem _ member) j free reads
    exact scanning.readers f member j freeBefore readsBefore
  · have unchanged := scanning.constants j constant
    rw [performed.constants j (unchanged ▸ constant), unchanged]

omit singles in
theorem Scanning.finish (scanning : Scanning wide original marked resolver stack index position)
    (past : original.length ≤ position) :
    Scanning wide original marked resolver stack index original.length :=
  { scanning with scanned := fun j bound => scanning.scanned j (Nat.lt_of_lt_of_le bound past) }

/-- The dependency loop returns, performing every free move that reads the
destination, when `perform` does what `PerformMove` must. -/
theorem scanBlockers_spec {perform : ParallelMoveResolver → Nat → Option (ParallelMoveResolver × Option Nat)}
    {fuel : Nat} (performs : PerformSpec wide original perform fuel)
    (room : 2 * original.length + 1 ≤ fuel + (stack.length + 1)) :
    ∀ steps position resolver, Scanning wide original marked resolver stack index position →
      position ≤ original.length → original.length + 1 ≤ steps + position →
      ∃ scanned, scanBlockers perform index (original.getD index default).destination steps resolver
          position = some (scanned, .finished none) ∧
        Scanning wide original marked scanned stack index original.length := by
  intro steps
  induction steps with
  | zero => intro position resolver _ atMost enough; omega
  | succ steps induction =>
    intro position resolver scanning atMost enough
    have lengthEq := scanning.represents.length_eq
    by_cases more : position < original.length
    · by_cases blocking : ((resolver.moveAt position).blocks (original.getD index default).destination &&
          !(resolver.moveAt position).isPending) = true
      · obtain ⟨after, performed, post⟩ :=
          performs (scanning.ready singles more blocking) (by simpa using room)
        rw [scanBlockers_of_perform (lengthEq ▸ more) blocking performed]
        exact induction (position + 1) after (scanning.perform post) more (by omega)
      · rw [Bool.not_eq_true] at blocking
        rw [scanBlockers_of_skip (lengthEq ▸ more) blocking]
        exact induction (position + 1) resolver (scanning.skip singles more blocking) more (by omega)
    · rw [scanBlockers_of_end (lengthEq ▸ more)]
      exact ⟨resolver, rfl, scanning.finish (Nat.not_lt.mp more)⟩

end Loop

/-! ## The end of `PerformMove` -/

section Resolve

variable {wide : Bool} {original : List MoveOperands} {before scanned after : ParallelMoveResolver}
  {stack : List Nat} {index : Nat}

/-- An ending of `PerformMove` that eliminates the move and renames the sources of
the moves left by `rename` is what `PerformMove` must leave, when the renaming
keeps the sources of the pending moves above the bottom one, moves no free move
onto the destination of a pending move, and keeps constants. -/
theorem performed_of_resolved (ready : Ready wide original before stack index)
    (scanning : Scanning wide original (before.markPending index) scanned stack index original.length)
    (represents : Represents wide original after) (rename : Location → Location)
    (eliminated : (after.moveAt index).isEliminated = true)
    (unchanged : ∀ k, k ≠ index → (scanned.moveAt k).isEliminated = true →
      after.moveAt k = scanned.moveAt k)
    (renamed : ∀ k, k ≠ index → (scanned.moveAt k).isEliminated = false →
      after.moveAt k = { scanned.moveAt k with source := rename (scanned.moveAt k).source })
    (renameValid : ∀ location, location ≠ .noLocation → rename location ≠ .noLocation)
    (renameLinked : ∀ child ∈ stack.dropLast,
      rename (scanned.moveAt child).source = (scanned.moveAt child).source)
    (renameReaders : ∀ f ∈ stack, ∀ j, j ≠ index → Free scanned j →
      rename (scanned.moveAt j).source = (original.getD f default).destination →
      (scanned.moveAt j).source = (original.getD f default).destination)
    (renameConstant : ∀ location : Location, location.isConstant = true → rename location = location) :
    Performed wide original before after stack index := by
  have notMember : index ∉ stack := (List.nodup_cons.mp scanning.frames.nodup).1
  have ne_of_mem : ∀ k ∈ stack, k ≠ index := fun k member same => notMember (same ▸ member)
  have markedAt : ∀ k, k ≠ index → (before.markPending index).moveAt k = before.moveAt k :=
    fun _ different => moveAt_setMove_of_ne different
  -- every move but `index` stays left or eliminated, and keeps its destination
  have leftIff : ∀ k, k ≠ index →
      ((after.moveAt k).isEliminated = false ↔ (scanned.moveAt k).isEliminated = false) := by
    intro k different
    cases kLeft : (scanned.moveAt k).isEliminated
    · rw [renamed k different kLeft]
      exact iff_of_true (MoveOperands.isEliminated_eq_false_iff.mpr
        (renameValid _ (MoveOperands.isEliminated_eq_false_iff.mp kLeft))) rfl
    · rw [unchanged k different kLeft, kLeft]
  have destinationEq : ∀ k, k ≠ index → (after.moveAt k).destination = (scanned.moveAt k).destination := by
    intro k different
    cases kLeft : (scanned.moveAt k).isEliminated
    · rw [renamed k different kLeft]
    · rw [unchanged k different kLeft]
  refine ⟨represents, ⟨(List.nodup_cons.mp scanning.frames.nodup).2, fun j member => ?_,
    fun j inBounds left => ?_⟩, ?_, eliminated, fun j eliminatedBefore => ?_,
    fun f member j free reads => ?_, fun j constant => ?_⟩
  · obtain ⟨inBounds, left⟩ := scanning.frames.mem j (List.mem_cons_of_mem _ member)
    exact ⟨inBounds, (leftIff j (ne_of_mem j member)).mpr left⟩
  · have different : j ≠ index := by
      rintro rfl
      exact Bool.noConfusion (left.symm.trans eliminated)
    rw [destinationEq j different,
      scanning.frames.pending_iff j inBounds ((leftIff j different).mp left), List.mem_cons,
      or_iff_right different]
  · refine scanning.linked.tail.congr fun child member => ?_
    have inStack := List.mem_of_mem_dropLast member
    rw [renamed child (ne_of_mem child inStack)
      (scanning.frames.mem child (List.mem_cons_of_mem _ inStack)).2]
    exact renameLinked child member
  · have different : j ≠ index := by
      rintro rfl
      exact Bool.noConfusion (eliminatedBefore.symm.trans ready.left)
    have scannedEliminated :=
      scanning.stays_eliminated j (by rw [markedAt j different]; exact eliminatedBefore)
    rw [unchanged j different scannedEliminated]
    exact scannedEliminated
  · have different : j ≠ index := by
      rintro rfl
      exact Bool.noConfusion (free.1.symm.trans eliminated)
    have left := (leftIff j different).mp free.1
    have freeScanned : Free scanned j := ⟨left, by rw [← destinationEq j different]; exact free.2⟩
    rw [renamed j different left] at reads
    obtain ⟨freeMarked, readsMarked⟩ := scanning.readers f member j freeScanned
      (renameReaders f member j different freeScanned reads)
    unfold Free at freeMarked ⊢
    rw [markedAt j different] at freeMarked readsMarked
    exact ⟨freeMarked, readsMarked⟩
  · have different : j ≠ index := by
      rintro rfl
      exact Bool.noConfusion (constant.symm.trans ready.not_constant)
    have scannedEq := scanning.constants j (by rw [markedAt j different]; exact constant)
    rw [markedAt j different] at scannedEq
    cases kLeft : (scanned.moveAt j).isEliminated
    · rw [renamed j different kLeft, scannedEq, renameConstant _ constant]
    · rw [unchanged j different kLeft, scannedEq]

theorem performed_of_same (ready : Ready wide original before stack index)
    (scanning : Scanning wide original (before.markPending index) scanned stack index original.length)
    (represents : Represents wide original after) (eliminated : (after.moveAt index).isEliminated = true)
    (same : ∀ k, k ≠ index → after.moveAt k = scanned.moveAt k) :
    Performed wide original before after stack index :=
  performed_of_resolved ready scanning represents id eliminated (fun k different _ => same k different)
    (fun k different _ => same k different) (fun _ present => present) (fun _ _ => rfl)
    (fun _ _ _ _ _ reads => reads) (fun _ _ => rfl)

variable (singles : ∀ move ∈ original, move.isSingle wide = true)
  (distinct : (original.map MoveOperands.destination).Nodup)
include singles distinct

/-- The end of `PerformMove`, once the loop has performed every free move reading
the destination: the move is the last of a cycle, or is swapped with the bottom
of the stack, or is read by no one and emitted. -/
theorem resolveMove_spec (ready : Ready wide original before stack index)
    (scanning : Scanning wide original (before.markPending index) scanned stack index original.length) :
    ∃ after, resolveMove (scanned.clearPending index (original.getD index default).destination) index
        (original.getD index default).destination none = (after, none) ∧
      Performed wide original before after stack index := by
  have inBounds := ready.index_lt
  have destinationSingle := MoveOperands.destination_of_isSingle (getD_isSingle singles inBounds)
  have inMoves : index < scanned.moves.length := scanning.represents.length_eq ▸ inBounds
  have left : (scanned.moveAt index).isEliminated = false :=
    (scanning.frames.mem index List.mem_cons_self).2
  have clearedAt := moveAt_clearPending_self inMoves (original.getD index default).destination
  have clearedOther : ∀ k, k ≠ index →
      (scanned.clearPending index (original.getD index default).destination).moveAt k = scanned.moveAt k :=
    fun _ different => moveAt_setMove_of_ne different
  have cleared : Represents wide original
      (scanned.clearPending index (original.getD index default).destination) :=
    scanning.represents.setDestination inBounds left (Or.inl rfl)
  have clearedLeft : ((scanned.clearPending index (original.getD index default).destination).moveAt
      index).isEliminated = false := by rw [clearedAt]; exact left
  have clearedDestination : ((scanned.clearPending index (original.getD index default).destination).moveAt
      index).destination = (original.getD index default).destination := by rw [clearedAt]
  have clearedLength : (scanned.clearPending index (original.getD index default).destination).moves.length =
      original.length := cleared.length_eq
  have clearedInMoves :
      index < (scanned.clearPending index (original.getD index default).destination).moves.length := by
    rw [clearedLength]
    exact inBounds
  by_cases self : ((scanned.clearPending index (original.getD index default).destination).moveAt
      index).source = (original.getD index default).destination
  · -- the swaps of the cycle made the move redundant
    refine ⟨_, resolveMove_of_self self, performed_of_same ready scanning
      (cleared.eliminate_self inBounds clearedLeft self) ?_ fun k different => ?_⟩
    · rw [eliminate, moveAt_setMove_self clearedInMoves]
      rfl
    · rw [eliminate, moveAt_setMove_of_ne different, clearedOther k different]
  cases found : (scanned.clearPending index (original.getD index default).destination).moves.findIdx?
      (·.blocks (original.getD index default).destination) with
  | none =>
    -- no move reads the destination: the move is emitted
    have unread : ∀ j < original.length, j ≠ index →
        ((scanned.clearPending index (original.getD index default).destination).moveAt j).isEliminated =
          false →
        ((scanned.clearPending index (original.getD index default).destination).moveAt j).source ≠
          (original.getD index default).destination := by
      intro j jInBounds _ jLeft reads
      have jInMoves :
          j < (scanned.clearPending index (original.getD index default).destination).moves.length := by
        rw [clearedLength]
        exact jInBounds
      have member : (scanned.clearPending index (original.getD index default).destination).moveAt j ∈
          (scanned.clearPending index (original.getD index default).destination).moves := by
        rw [moveAt, List.getD_eq_getElem _ _ jInMoves]
        exact List.getElem_mem jInMoves
      have blocks := List.findIdx?_eq_none_iff.mp found _ member
      rw [(MoveOperands.blocks_iff jLeft (cleared.source_single j jInBounds jLeft)
        (Location.isSingleSource_of_isSingle destinationSingle)).mpr reads] at blocks
      exact Bool.noConfusion blocks
    refine ⟨_, resolveMove_of_unblocked self found, performed_of_same ready scanning
      (cleared.emitMove_eliminate singles distinct inBounds clearedLeft clearedDestination unread) ?_
      fun k different => ?_⟩
    · rw [eliminate, moveAt_setMove_self (show index < ((scanned.clearPending index
        (original.getD index default).destination).emitMove index).moves.length from clearedInMoves)]
      rfl
    · rw [eliminate, moveAt_setMove_of_ne different, moveAt_emitMove, clearedOther k different]
  | some other =>
    -- a pending move reads the destination: it is the bottom of the stack, and the
    -- move reads the destination of the pending move below it
    obtain ⟨otherInMoves, blocking, -⟩ := List.findIdx?_eq_some_iff_getElem.mp found
    have otherInBounds : other < original.length := clearedLength ▸ otherInMoves
    have otherAt : (scanned.clearPending index (original.getD index default).destination).moveAt other =
        (scanned.clearPending index (original.getD index default).destination).moves[other] :=
      List.getD_eq_getElem _ _ otherInMoves
    rw [← otherAt] at blocking
    have otherLeft : ((scanned.clearPending index (original.getD index default).destination).moveAt
        other).isEliminated = false := by
      cases eliminated : ((scanned.clearPending index (original.getD index default).destination).moveAt
          other).isEliminated
      · rfl
      · rw [MoveOperands.blocks_of_isEliminated eliminated] at blocking
        exact Bool.noConfusion blocking
    have otherReads := (MoveOperands.blocks_iff otherLeft (cleared.source_single other otherInBounds otherLeft)
      (Location.isSingleSource_of_isSingle destinationSingle)).mp blocking
    have otherNe : other ≠ index := by
      rintro rfl
      exact self otherReads
    rw [clearedOther other otherNe] at otherLeft otherReads
    have pending : other ∈ index :: stack := by
      by_contra notPending
      have free := (scanning.frames.free_iff otherInBounds otherLeft).mpr notPending
      exact scanning.scanned other otherInBounds free otherReads
    obtain ⟨parent, rest, rfl⟩ : ∃ parent rest, stack = parent :: rest := by
      cases stack with
      | nil => simp [otherNe] at pending
      | cons parent rest => exact ⟨parent, rest, rfl⟩
    have parentNe : parent ≠ index := fun same => ready.not_mem (same ▸ List.mem_cons_self)
    obtain ⟨parentInBounds, parentLeft⟩ :=
      scanning.frames.mem parent (List.mem_cons_of_mem _ List.mem_cons_self)
    have cycle : (original.getD parent default).destination =
        ((scanned.clearPending index (original.getD index default).destination).moveAt index).source := by
      rw [clearedAt]
      exact scanning.linked.1.symm
    have sameWidth : ((scanned.clearPending index (original.getD index default).destination).moveAt
        index).is64BitMove =
        ((scanned.clearPending index (original.getD index default).destination).moveAt other).is64BitMove := by
      rw [MoveOperands.is64BitMove, MoveOperands.is64BitMove, cleared.width_eq singles inBounds,
        cleared.width_eq singles otherInBounds]
    have sourceSingle : ((scanned.clearPending index (original.getD index default).destination).moveAt
        index).source.isSingle wide = true :=
      cycle ▸ MoveOperands.destination_of_isSingle (getD_isSingle singles parentInBounds)
    have clearedParentLeft : ((scanned.clearPending index (original.getD index default).destination).moveAt
        parent).isEliminated = false := by
      rw [clearedOther parent parentNe]
      exact parentLeft
    have stackNodup := (List.nodup_cons.mp scanning.frames.nodup).2
    refine ⟨_, resolveMove_of_blocked self found sameWidth, performed_of_resolved ready scanning
      (represents_swapMove singles distinct cleared inBounds clearedLeft clearedDestination self
        parentInBounds clearedParentLeft cycle)
      (swappedLocation ((scanned.clearPending index (original.getD index default).destination).moveAt
        index).source (original.getD index default).destination) ?_ (fun k different eliminated => ?_)
      (fun k different kLeft => ?_) (fun location present => ?_) (fun child member => ?_)
      (fun f member j different free reads => ?_) (fun location constant => ?_)⟩
    · rw [moveAt_swapMove_self clearedInMoves]
      rfl
    · rw [moveAt_swapMove_of_ne different, clearedOther k different,
        updateAfterSwap_of_isEliminated eliminated]
    · rw [moveAt_swapMove_of_ne different, clearedOther k different, clearedDestination,
        updateAfterSwap_of_left sourceSingle destinationSingle kLeft
          (scanning.represents.source_single k (scanning.represents.lt_of_left kLeft) kLeft)]
    · unfold swappedLocation
      split
      · exact Location.ne_noLocation_of_isSingleSource (Location.isSingleSource_of_isSingle destinationSingle)
      · split
        · exact Location.ne_noLocation_of_isSingleSource (Location.isSingleSource_of_isSingle sourceSingle)
        · exact present
    · -- a pending move above the bottom reads the destination of a pending move below it
      obtain ⟨below, belowMember, reads⟩ := scanning.linked.tail.exists_parent child member
      have belowInBounds := (scanning.frames.mem below
        (List.mem_cons_of_mem _ (List.mem_cons_of_mem _ belowMember))).1
      apply swappedLocation_of_ne
      · intro equal
        have same := destination_injective distinct belowInBounds parentInBounds
          (reads.symm.trans (equal.trans cycle.symm))
        exact (List.nodup_cons.mp stackNodup).1 (same ▸ belowMember)
      · intro equal
        have same := destination_injective distinct belowInBounds inBounds (reads.symm.trans equal)
        exact ready.not_mem (same ▸ List.mem_cons_of_mem _ belowMember)
    · unfold swappedLocation at reads
      split at reads
      · have same := destination_injective distinct inBounds
          (scanning.frames.mem f (List.mem_cons_of_mem _ member)).1 reads
        exact absurd (same ▸ member) ready.not_mem
      · split at reads
        · rename_i readsDestination
          exact absurd readsDestination (scanning.scanned j
            (scanning.represents.lt_of_left free.1) free)
        · exact reads
    · have notSource : location ≠ ((scanned.clearPending index
          (original.getD index default).destination).moveAt index).source := by
        rintro rfl
        exact Bool.noConfusion (constant.symm.trans (Location.isConstant_eq_false_of_isSingle sourceSingle))
      have notDestination : location ≠ (original.getD index default).destination := by
        rintro rfl
        exact Bool.noConfusion (constant.symm.trans
          (Location.isConstant_eq_false_of_isSingle destinationSingle))
      exact swappedLocation_of_ne notSource notDestination

omit singles distinct in
theorem performed_of_agree (ready : Ready wide original before stack index)
    (represents : Represents wide original after) (eliminated : (after.moveAt index).isEliminated = true)
    (same : ∀ k, k ≠ index → after.moveAt k = before.moveAt k) :
    Performed wide original before after stack index := by
  have ne_of_mem : ∀ k ∈ stack, k ≠ index := fun k member same => ready.not_mem (same ▸ member)
  refine ⟨represents, ⟨ready.frames.nodup, fun j member => ?_, fun j inBounds left => ?_⟩,
    ready.linked.tail.congr fun child member => ?_, eliminated, fun j eliminatedBefore => ?_,
    fun f _ j free reads => ?_, fun j constant => ?_⟩
  · rw [same j (ne_of_mem j member)]
    exact ready.frames.mem j member
  · have different : j ≠ index := by
      rintro rfl
      exact Bool.noConfusion (left.symm.trans eliminated)
    rw [same j different] at left ⊢
    exact ready.frames.pending_iff j inBounds left
  · rw [same child (ne_of_mem child (List.mem_of_mem_dropLast member))]
  · by_cases different : j = index
    · subst different
      exact eliminated
    · rw [same j different]
      exact eliminatedBefore
  · have different : j ≠ index := by
      rintro rfl
      exact Bool.noConfusion (free.1.symm.trans eliminated)
    unfold Free at free ⊢
    rw [same j different] at free reads
    exact ⟨free, reads⟩
  · have different : j ≠ index := by
      rintro rfl
      exact Bool.noConfusion (constant.symm.trans ready.not_constant)
    exact same j different

/-- `PerformMove` with enough fuel for the moves not yet pending performs the
move: it returns without asking its caller for a swap, and leaves what it must. -/
theorem performMove_spec : ∀ fuel, PerformSpec wide original (performMove fuel) fuel
  | 0 => by
    intro ready room
    have shorter := ready.frames.length_lt ready.index_lt ready.not_mem
    omega
  | fuel + 1 => by
    intro ready room
    rename_i resolver stack index
    have inBounds := ready.index_lt
    have shorter := ready.frames.length_lt inBounds ready.not_mem
    have hasDestination : (resolver.moveAt index).destination ≠ .noLocation := fun cleared =>
      ready.not_mem ((ready.frames.pending_iff index inBounds ready.left).mp cleared)
    have destinationEq : (resolver.moveAt index).destination = (original.getD index default).destination :=
      (ready.represents.destination_eq index inBounds ready.left).resolve_right hasDestination
    cases redundant : (resolver.moveAt index).isRedundant
    · -- the loop performs the moves reading the destination, then the move ends
      obtain ⟨scanned, scan, scanning⟩ := scanBlockers_spec singles (performMove_spec fuel)
        (by omega) fuel 0 _ ready.scanning (Nat.zero_le _) (by omega)
      rw [← destinationEq] at scan
      obtain ⟨after, resolved, performed⟩ := resolveMove_spec singles distinct ready scanning
      refine ⟨after, ?_, performed⟩
      rw [performMove_of_finished redundant scan, destinationEq, resolved]
    · -- a move to its own destination is dropped
      have self := (MoveOperands.isRedundant_eq_true_iff ready.left hasDestination).mp redundant
      refine ⟨_, performMove_of_redundant redundant, performed_of_agree ready
        (ready.represents.eliminate_self inBounds ready.left (self.trans destinationEq)) ?_
        fun k different => moveAt_setMove_of_ne different⟩
      rw [eliminate, moveAt_setMove_self (ready.represents.length_eq ▸ inBounds)]
      rfl

end Resolve

/-! ## `EmitNativeCode` -/

theorem emitNativeCode_eq {fuel : Nat} {parallelMove : List MoveOperands}
    {stackDone movedDone : ParallelMoveResolver}
    (stackLoop : (List.range (buildInitialMoveList parallelMove).length).foldlM (performStackMove fuel)
      ⟨buildInitialMoveList parallelMove, []⟩ = some stackDone)
    (movedLoop : (List.range (buildInitialMoveList parallelMove).length).foldlM
      (performNonConstantMove fuel) stackDone = some movedDone) :
    emitNativeCode fuel parallelMove =
      some ((List.range (buildInitialMoveList parallelMove).length).foldl emitConstantMove movedDone) := by
  simp [emitNativeCode, stackLoop, movedLoop]

section Loops

variable (wide original) in
/-- Between the loops of `EmitNativeCode` no move is pending. -/
structure Settled (resolver : ParallelMoveResolver) : Prop where
  represents : Represents wide original resolver
  frames : Frames original resolver []

variable {wide : Bool} {original : List MoveOperands} {resolver after : ParallelMoveResolver} {index : Nat}

theorem Settled.ready (settled : Settled wide original resolver)
    (left : (resolver.moveAt index).isEliminated = false)
    (notConstant : (resolver.moveAt index).source.isConstant = false) :
    Ready wide original resolver [] index :=
  ⟨settled.represents, settled.frames, trivial, settled.represents.lt_of_left left, left,
    List.not_mem_nil, notConstant⟩

theorem Settled.of_performed (performed : Performed wide original resolver after [] index) :
    Settled wide original after :=
  ⟨performed.represents, performed.frames⟩

variable (singles : ∀ move ∈ original, move.isSingle wide = true)
  (distinct : (original.map MoveOperands.destination).Nodup)
include singles distinct

theorem performStackMove_settled {fuel : Nat} (enough : 2 * original.length + 1 ≤ fuel)
    (settled : Settled wide original resolver) (index : Nat) :
    ∃ after, performStackMove fuel resolver index = some after ∧ Settled wide original after := by
  unfold performStackMove
  dsimp only
  split
  · exact ⟨resolver, rfl, settled⟩
  · rename_i skipped
    rw [Bool.or_eq_true, not_or, Bool.not_eq_true, Bool.not_eq_true] at skipped
    split
    · obtain ⟨performedResolver, performed, post⟩ := performMove_spec singles distinct fuel
        (settled.ready skipped.1 skipped.2) (by simpa using enough)
      exact ⟨performedResolver, by rw [performed]; rfl, Settled.of_performed post⟩
    · exact ⟨resolver, rfl, settled⟩

theorem performNonConstantMove_settled {fuel : Nat} (enough : 2 * original.length + 1 ≤ fuel)
    (settled : Settled wide original resolver) (index : Nat) :
    ∃ after, performNonConstantMove fuel resolver index = some after ∧ Settled wide original after ∧
      ((after.moveAt index).isEliminated = true ∨ (after.moveAt index).source.isConstant = true) ∧
      (∀ j, (resolver.moveAt j).isEliminated = true → (after.moveAt j).isEliminated = true) ∧
      (∀ j, (resolver.moveAt j).source.isConstant = true → after.moveAt j = resolver.moveAt j) := by
  unfold performNonConstantMove
  dsimp only
  split
  · rename_i performing
    rw [Bool.and_eq_true, Bool.not_eq_true', Bool.not_eq_true'] at performing
    obtain ⟨performedResolver, performed, post⟩ := performMove_spec singles distinct fuel
      (settled.ready performing.1 performing.2) (by simpa using enough)
    exact ⟨performedResolver, by rw [performed]; rfl, Settled.of_performed post, Or.inl post.eliminated,
      post.stays_eliminated, post.constants⟩
  · rename_i skipped
    refine ⟨resolver, rfl, settled, ?_, fun _ eliminated => eliminated, fun _ _ => rfl⟩
    cases eliminated : (resolver.moveAt index).isEliminated
    · cases constant : (resolver.moveAt index).source.isConstant
      · simp [eliminated, constant] at skipped
      · exact Or.inr rfl
    · exact Or.inl rfl

theorem emitConstantMove_settled (settled : Settled wide original resolver)
    (constantsLeft : ∀ j, (resolver.moveAt j).isEliminated = false →
      (resolver.moveAt j).source.isConstant = true) (index : Nat) :
    Settled wide original (emitConstantMove resolver index) ∧
      ((emitConstantMove resolver index).moveAt index).isEliminated = true ∧
      ∀ j, j ≠ index → (emitConstantMove resolver index).moveAt j = resolver.moveAt j := by
  unfold emitConstantMove
  split
  · rename_i emitting
    rw [Bool.not_eq_true'] at emitting
    have inBounds := settled.represents.lt_of_left emitting
    have destinationSingle := MoveOperands.destination_of_isSingle (getD_isSingle singles inBounds)
    have destinationEq : (resolver.moveAt index).destination = (original.getD index default).destination :=
      (settled.represents.destination_eq index inBounds emitting).resolve_right fun cleared =>
        List.not_mem_nil ((settled.frames.pending_iff index inBounds emitting).mp cleared)
    have unread : ∀ j < original.length, j ≠ index → (resolver.moveAt j).isEliminated = false →
        (resolver.moveAt j).source ≠ (original.getD index default).destination := by
      intro j _ _ jLeft reads
      have constant := constantsLeft j jLeft
      rw [reads, Location.isConstant_eq_false_of_isSingle destinationSingle] at constant
      exact Bool.noConfusion constant
    have eliminated : (((resolver.emitMove index).eliminate index).moveAt index).isEliminated = true := by
      rw [eliminate, moveAt_setMove_self (show index < (resolver.emitMove index).moves.length from
        settled.represents.length_eq ▸ inBounds)]
      rfl
    have same : ∀ j, j ≠ index → ((resolver.emitMove index).eliminate index).moveAt j = resolver.moveAt j :=
      fun _ different => moveAt_setMove_of_ne different
    refine ⟨⟨settled.represents.emitMove_eliminate singles distinct inBounds emitting destinationEq unread,
      ⟨List.nodup_nil, fun _ member => absurd member List.not_mem_nil, fun j jInBounds left => ?_⟩⟩,
      eliminated, same⟩
    have different : j ≠ index := by
      rintro rfl
      exact Bool.noConfusion (left.symm.trans eliminated)
    rw [same j different] at left ⊢
    exact settled.frames.pending_iff j jInBounds left
  · rename_i skipped
    rw [Bool.not_eq_true', Bool.not_eq_false] at skipped
    exact ⟨settled, skipped, fun _ _ => rfl⟩

/-- The three loops of `EmitNativeCode` return, and the code they emit performs the
moves of the worklist. -/
theorem loops_perform {fuel : Nat} (enough : 2 * original.length + 1 ≤ fuel) :
    ∃ stackDone movedDone,
      (List.range original.length).foldlM (performStackMove fuel) ⟨original, []⟩ = some stackDone ∧
      (List.range original.length).foldlM (performNonConstantMove fuel) stackDone = some movedDone ∧
      ∀ initial, SimultaneousAssignment original [] initial
        (execute initial ((List.range original.length).foldl emitConstantMove movedDone).emitted) := by
  have start : Settled wide original ⟨original, []⟩ := by
    refine ⟨represents_start singles, List.nodup_nil, fun _ member => absurd member List.not_mem_nil,
      fun j inBounds _ => ?_⟩
    have present := Location.ne_noLocation_of_isSingleSource (Location.isSingleSource_of_isSingle
      (MoveOperands.destination_of_isSingle (getD_isSingle singles inBounds)))
    exact iff_of_false present List.not_mem_nil
  obtain ⟨stackDone, stackLoop, stackSettled⟩ :=
    Foundation.exists_foldlM_eq_some (fun _ resolver => Settled wide original resolver)
      (fun _ item _ settled => performStackMove_settled singles distinct enough settled item)
      (List.range original.length) [] _ start
  obtain ⟨movedDone, movedLoop, movedSettled, settledMoves⟩ :=
    Foundation.exists_foldlM_eq_some (fun done resolver => Settled wide original resolver ∧
        ∀ j ∈ done, (resolver.moveAt j).isEliminated = true ∨ (resolver.moveAt j).source.isConstant = true)
      (fun done item state holds => by
        obtain ⟨next, stepped, nextSettled, itemDone, staysEliminated, constantsStay⟩ :=
          performNonConstantMove_settled singles distinct enough holds.1 item
        refine ⟨next, stepped, nextSettled, fun j member => ?_⟩
        rcases List.mem_append.mp member with old | new
        · rcases holds.2 j old with eliminated | constant
          · exact Or.inl (staysEliminated j eliminated)
          · rw [constantsStay j constant]
            exact Or.inr constant
        · rw [List.mem_singleton.mp new]
          exact itemDone)
      (List.range original.length) [] stackDone ⟨stackSettled, by simp⟩
  -- after the second loop every move left reads a constant
  have constantsLeft : ∀ j, (movedDone.moveAt j).isEliminated = false →
      (movedDone.moveAt j).source.isConstant = true := by
    intro j left
    rcases settledMoves j (by simpa using movedSettled.represents.lt_of_left left) with eliminated | constant
    · exact absurd (left.symm.trans eliminated) Bool.false_ne_true
    · exact constant
  have finished := Foundation.foldl_invariant (fun done resolver => Settled wide original resolver ∧
      (∀ j, (resolver.moveAt j).isEliminated = false → (resolver.moveAt j).source.isConstant = true) ∧
      ∀ j ∈ done, (resolver.moveAt j).isEliminated = true)
    (fun done item state holds => by
      obtain ⟨settled, itemEliminated, same⟩ :=
        emitConstantMove_settled singles distinct holds.1 holds.2.1 item
      refine ⟨settled, fun j left => ?_, fun j member => ?_⟩
      · have different : j ≠ item := by
          rintro rfl
          exact absurd (left.symm.trans itemEliminated) Bool.false_ne_true
        rw [same j different] at left ⊢
        exact holds.2.1 j left
      · rcases List.mem_append.mp member with old | new
        · by_cases different : j = item
          · subst different
            exact itemEliminated
          · rw [same j different]
            exact holds.2.2 j old
        · rw [List.mem_singleton.mp new]
          exact itemEliminated)
    (List.range original.length) [] movedDone ⟨movedSettled, constantsLeft, by simp⟩
  refine ⟨stackDone, movedDone, stackLoop, movedLoop, fun initial => ?_⟩
  exact finished.1.represents.performs singles
    (fun i inBounds => finished.2.2 i (by simpa using inBounds)) initial

end Loops

/-- `ParallelMoveResolverWithSwap::EmitNativeCode` performs every parallel move of
single cells: when every move carries a value of one width from a register, a
32-bit stack slot or a constant to a register or a 32-bit stack slot, and no two
moves share a destination, it returns with fuel twice the number of moves and
one more, and on every store its code leaves in each destination the value its
source had before and changes no other cell. -/
theorem emitNativeCode_performs_parallel_move {wide : Bool} {parallelMove : List MoveOperands}
    (singles : ∀ move ∈ parallelMove, move.isSingle wide = true)
    (distinct : (parallelMove.map MoveOperands.destination).Nodup) {fuel : Nat}
    (enough : 2 * parallelMove.length + 1 ≤ fuel) :
    ∃ resolver, emitNativeCode fuel parallelMove = some resolver ∧
      ∀ initial, SimultaneousAssignment parallelMove [] initial (execute initial resolver.emitted) := by
  have sublist : (buildInitialMoveList parallelMove).Sublist parallelMove := List.filter_sublist
  have shorter : (buildInitialMoveList parallelMove).length ≤ parallelMove.length := sublist.length_le
  obtain ⟨stackDone, movedDone, stackLoop, movedLoop, performs⟩ :=
    loops_perform (fun move member => singles move (sublist.subset member))
      ((sublist.map _).nodup distinct)
      (show 2 * (buildInitialMoveList parallelMove).length + 1 ≤ fuel by omega)
  exact ⟨_, emitNativeCode_eq stackLoop movedLoop, fun initial =>
    simultaneousAssignment_of_buildInitialMoveList singles distinct (fun _ _ _ _ => List.not_mem_nil)
      (performs initial)⟩

/-- Three registers rotated, a constant and a stack slot moved, all 32-bit. -/
def rotationWithConstant : List MoveOperands :=
  [⟨.register 0, .register 1, .kInt32⟩, ⟨.register 1, .register 2, .kInt32⟩,
    ⟨.register 2, .register 0, .kInt32⟩, ⟨.constant 5, .register 3, .kInt32⟩,
    ⟨.stackSlot 8, .stackSlot 12, .kInt32⟩]

theorem emitNativeCode_performs_parallel_move_rotationWithConstant :
    (∀ move ∈ rotationWithConstant, move.isSingle false = true) ∧
      (rotationWithConstant.map MoveOperands.destination).Nodup ∧
      2 * rotationWithConstant.length + 1 ≤ 11 ∧
      ∃ resolver, emitNativeCode 11 rotationWithConstant = some resolver ∧
        ∀ initial, SimultaneousAssignment rotationWithConstant [] initial (execute initial resolver.emitted) := by
  have singles : ∀ move ∈ rotationWithConstant, move.isSingle false = true := by decide
  have distinct : (rotationWithConstant.map MoveOperands.destination).Nodup := by decide
  have enough : 2 * rotationWithConstant.length + 1 ≤ 11 := by decide
  exact ⟨singles, distinct, enough, emitNativeCode_performs_parallel_move singles distinct enough⟩

end ParallelMoveResolverWithSwap

end ArtRuntime.Compiler
