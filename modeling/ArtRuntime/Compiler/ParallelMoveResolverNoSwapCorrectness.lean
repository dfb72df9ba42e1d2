import Mathlib
import ArtRuntime.Compiler.ParallelMoveResolverNoSwapSafety
import ArtRuntime.Foundation.OptionFold

/-! # The resolver without swaps performs parallel moves of single cells

`ParallelMoveResolverNoSwap::EmitNativeCode`, on a parallel move of single cells of
one width with distinct destinations, none of its locations a scratch register of
VIXL, returns with no pending move, and its code performs the parallel move with
VIXL's scratch registers free to change.

`PerformMove` is a depth-first traversal like the one of the resolver with swaps:
the moves it is inside of are pending, each reading the destination of the move
below it but the bottom one. After its dependency loop a move is blocked only when
the bottom move reads its destination: the cycle is then broken through a scratch
location, and the move from the scratch location waits in `pending_moves_`
(`OpenCycle`). No move is performed inside the traversal after that: every move
below emits into its own destination, and the bottom one, which reads the
destination of the pending move, performs it and frees the scratch location
(`Quiet` again).
-/

namespace ArtRuntime.Compiler

namespace ParallelMoveResolverNoSwap

open ParallelMoveResolver ScratchRegisters
open ParallelMoveResolverWithSwap (Linked Free Frames)

/-! ## The steps of `PerformMove`, one equation each -/

section Equations

variable {resolver : ParallelMoveResolverNoSwap} {index fuel : Nat}

theorem performMove_of_redundant (redundant : (resolver.moveAt index).isRedundant = true) :
    performMove (fuel + 1) resolver index = some (resolver.lift (·.eliminate index)) := by
  rw [performMove]
  simp only [redundant, if_true]

theorem performMove_of_needed (needed : (resolver.moveAt index).isRedundant = false) :
    performMove (fuel + 1) resolver index =
      ((List.range resolver.moves.length).foldlM
          (fun current i => if ((current.moveAt i).blocks (resolver.moveAt index).destination &&
            !(current.moveAt i).isPending) = true then performMove fuel current i else some current)
          (resolver.lift (·.markPending index)) >>= fun scanned =>
        (scanned.lift (·.clearPending index (resolver.moveAt index).destination)).breakCycleOrEmit index
            (resolver.moveAt index).destination
            ((scanned.lift (·.clearPending index (resolver.moveAt index).destination)).moveAt index).source >>=
          fun resolved => drainPendingMoves index
            ((scanned.lift (·.clearPending index (resolver.moveAt index).destination)).moveAt index).source fuel
            resolved) := by
  rw [performMove]
  simp only [needed, Bool.false_eq_true, if_false]

theorem breakCycleOrEmit_of_unblocked {destination source : Location}
    (unblocked : resolver.isBlockedByMoves destination = false) :
    resolver.breakCycleOrEmit index destination source =
      some ((resolver.emitAs index source destination).updateMoveSource source destination) := by
  simp [breakCycleOrEmit, unblocked]

theorem breakCycleOrEmit_of_allocated {destination source scratch : Location}
    {allocated : ParallelMoveResolverNoSwap} (blocked : resolver.isBlockedByMoves destination = true)
    (allocation : resolver.allocateScratchLocationFor source.getKind = some (scratch, allocated)) :
    resolver.breakCycleOrEmit index destination source =
      some (((allocated.emitAs index source scratch).updateMoveSource source scratch).addPendingMove scratch
        destination (if (resolver.moveAt index).is64BitMove then .kInt64 else .kInt32)) := by
  simp [breakCycleOrEmit, blocked, allocation]

theorem drainPendingMoves_of_none {source : Location} (found : resolver.getUnblockedPendingMove source = none) :
    drainPendingMoves index source (fuel + 1) resolver = some resolver := by
  rw [drainPendingMoves, found]

theorem drainPendingMoves_of_some {source : Location} {pending : MoveOperands}
    (found : resolver.getUnblockedPendingMove source = some pending) :
    drainPendingMoves index source (fuel + 1) resolver =
      drainPendingMoves index source fuel
        ((((resolver.deletePendingMove pending).emitAs index pending.source pending.destination).updateMoveSource
          pending.source pending.destination).freeScratchLocations pending.source) := by
  rw [drainPendingMoves, found]

theorem getUnblockedPendingMove_of_nil (empty : resolver.pendingMoves = []) (loc : Location) :
    resolver.getUnblockedPendingMove loc = none := by
  simp [getUnblockedPendingMove, empty]

theorem getUnblockedPendingMove_of_apart {pending : MoveOperands} (single : resolver.pendingMoves = [pending])
    {loc : Location} (apart : pending.destination.overlapsWith loc = false) :
    resolver.getUnblockedPendingMove loc = none := by
  simp [getUnblockedPendingMove, single, apart]

theorem getUnblockedPendingMove_of_unblocked {pending : MoveOperands} (single : resolver.pendingMoves = [pending])
    {loc : Location} (overlaps : pending.destination.overlapsWith loc = true)
    (unblocked : resolver.isBlockedByMoves pending.destination = false) :
    resolver.getUnblockedPendingMove loc = some pending := by
  simp [getUnblockedPendingMove, single, overlaps, unblocked]

end Equations

/-! ## The stack of pending moves -/

section Stack

variable {original : List MoveOperands} {base : ParallelMoveResolver}

/-- In a linked stack of distinct moves, the moves above the bottom one read
destinations of moves below them, so none reads the destination of the top one. -/
theorem source_ne_top_of_linked (distinct : (original.map MoveOperands.destination).Nodup) {top : Nat}
    {stack : List Nat} (linked : Linked original base (top :: stack)) (nodup : (top :: stack).Nodup)
    (inBounds : ∀ f ∈ top :: stack, f < original.length) {child : Nat}
    (member : child ∈ (top :: stack).dropLast) :
    (base.moveAt child).source ≠ (original.getD top default).destination := by
  obtain ⟨parent, parentMember, reads⟩ := linked.exists_parent child member
  intro readsTop
  have same : parent = top := destination_injective distinct
    (inBounds parent (List.mem_cons_of_mem _ parentMember)) (inBounds top List.mem_cons_self)
    (reads.symm.trans readsTop)
  exact (List.nodup_cons.mp nodup).1 (same ▸ parentMember)

theorem getLast?_of_reads_top (distinct : (original.map MoveOperands.destination).Nodup) {top : Nat}
    {stack : List Nat} (linked : Linked original base (top :: stack)) (nodup : (top :: stack).Nodup)
    (inBounds : ∀ f ∈ top :: stack, f < original.length) {reader : Nat} (member : reader ∈ top :: stack)
    (reads : (base.moveAt reader).source = (original.getD top default).destination) :
    (top :: stack).getLast? = some reader := by
  have whole := List.dropLast_append_getLast (List.cons_ne_nil top stack)
  rw [← whole, List.mem_append, List.mem_singleton] at member
  rcases member with above | bottom
  · exact absurd reads (source_ne_top_of_linked distinct linked nodup inBounds above)
  · rw [List.getLast?_eq_some_getLast (List.cons_ne_nil top stack), bottom]

theorem exists_reader_of_linked : ∀ {top : Nat} {stack : List Nat}, Linked original base (top :: stack) →
    ∀ f ∈ stack, ∃ child ∈ top :: stack, (base.moveAt child).source = (original.getD f default).destination
  | _, [], _, _, member => absurd member List.not_mem_nil
  | top, parent :: rest, linked, f, member => by
    rcases List.mem_cons.mp member with rfl | below
    · exact ⟨top, List.mem_cons_self, linked.1⟩
    · obtain ⟨child, childMember, reads⟩ := exists_reader_of_linked linked.2 f below
      exact ⟨child, List.mem_cons_of_mem _ childMember, reads⟩

theorem getLast?_cons_of_ne_nil {top : Nat} {stack : List Nat} (nonempty : stack ≠ []) :
    (top :: stack).getLast? = stack.getLast? := by
  cases stack with
  | nil => exact absurd rfl nonempty
  | cons parent rest => exact List.getLast?_cons_cons

end Stack

/-! ## The invariants of the traversal -/

section Traversal

variable (wide : Bool) (original : List MoveOperands) (temps : ScratchRegisters)

/-- No cycle is open: no move is pending and no scratch location is taken. -/
structure Quiet (resolver : ParallelMoveResolverNoSwap) : Prop where
  pendingMoves_eq : resolver.pendingMoves = []
  scratches_eq : resolver.scratches = []

/-- A cycle broken through the scratch location `pending.source` and not yet
closed, inside the traversal of `frames`: the move from the scratch location is
the only pending move, the bottom frame reads its destination, no frame writes
the scratch location, and the scratch location is a register taken from VIXL or
a destination nothing read. -/
structure OpenCycle (resolver : ParallelMoveResolverNoSwap) (frames : List Nat) (pending : MoveOperands) :
    Prop where
  pendingMoves_eq : resolver.pendingMoves = [pending]
  bottom_reads : ∃ bottom, frames.getLast? = some bottom ∧
    (resolver.moveAt bottom).source = pending.destination
  scratch_ne_frame : ∀ f ∈ frames, pending.source ≠ (original.getD f default).destination
  scratch_ne_destination : pending.source ≠ pending.destination
  scratches_eq : resolver.scratches = [] ∨ resolver.scratches = [pending.source]

/-- What `PerformMove(index)` is called with: no cycle open, and a move left, not
pending and not reading a constant, above the pending moves `stack`, reading the
destination of the top one. -/
structure Ready (resolver : ParallelMoveResolverNoSwap) (stack : List Nat) (index : Nat) : Prop where
  carries : Carries wide original temps resolver
  sound : ScratchesSound original temps resolver
  quiet : Quiet resolver
  frames : Frames original resolver.toParallelMoveResolver stack
  linked : Linked original resolver.toParallelMoveResolver (index :: stack)
  index_lt : index < original.length
  left : (resolver.moveAt index).isEliminated = false
  not_mem : index ∉ stack
  not_constant : (resolver.moveAt index).source.isConstant = false

/-- The worklist after `PerformMove(index)`: the move eliminated, the same pending
moves, no move eliminated before brought back, no move left newly reading the
destination of a pending move, the moves from constants untouched, and no move
newly reading a constant. -/
structure Advanced (before after : ParallelMoveResolverNoSwap) (stack : List Nat) (index : Nat) : Prop where
  frames : Frames original after.toParallelMoveResolver stack
  linked : Linked original after.toParallelMoveResolver stack
  eliminated : (after.moveAt index).isEliminated = true
  stays_eliminated : ∀ j, (before.moveAt j).isEliminated = true → (after.moveAt j).isEliminated = true
  readers : ∀ f ∈ stack, ∀ j, (after.moveAt j).isEliminated = false →
    (after.moveAt j).source = (original.getD f default).destination →
    (before.moveAt j).source = (original.getD f default).destination
  constants : ∀ j, (before.moveAt j).source.isConstant = true → after.moveAt j = before.moveAt j
  no_new_constants : ∀ j, (after.moveAt j).source.isConstant = true → (before.moveAt j).source.isConstant = true

/-- What `PerformMove(index)` leaves, the cycles aside: the worklist advanced, with
the code and the scratch registers standing for the parallel move. -/
structure Resolved (before after : ParallelMoveResolverNoSwap) (stack : List Nat) (index : Nat) : Prop
    extends Advanced original before after stack index where
  carries : Carries wide original temps after
  sound : ScratchesSound original temps after

/-- `Resolved`, with no cycle open, or one open below whose traversal needs no
more moves performed: no free move reads the destination of the top pending move. -/
structure Performed (before after : ParallelMoveResolverNoSwap) (stack : List Nat) (index : Nat) : Prop
    extends Resolved wide original temps before after stack index where
  phase : Quiet after ∨ ∃ pending, OpenCycle original after stack pending ∧
    ∀ parent ∈ stack.head?, ∀ j, Free after.toParallelMoveResolver j →
      (after.moveAt j).source ≠ (original.getD parent default).destination

/-- The dependency loop of `PerformMove(index)` at `position`, the move pending
above `stack`: no free move before `position` reads its destination, and with a
cycle open below no free move reads it at all. -/
structure Scanning (before resolver : ParallelMoveResolverNoSwap) (stack : List Nat) (index position : Nat) :
    Prop where
  carries : Carries wide original temps resolver
  sound : ScratchesSound original temps resolver
  frames : Frames original resolver.toParallelMoveResolver (index :: stack)
  linked : Linked original resolver.toParallelMoveResolver (index :: stack)
  self_unread : (resolver.moveAt index).source ≠ (original.getD index default).destination
  scanned : ∀ j < position, Free resolver.toParallelMoveResolver j →
    (resolver.moveAt j).source ≠ (original.getD index default).destination
  stays_eliminated : ∀ j, (before.moveAt j).isEliminated = true → (resolver.moveAt j).isEliminated = true
  readers : ∀ f ∈ stack, ∀ j, (resolver.moveAt j).isEliminated = false →
    (resolver.moveAt j).source = (original.getD f default).destination →
    (before.moveAt j).source = (original.getD f default).destination
  constants : ∀ j, (before.moveAt j).source.isConstant = true → resolver.moveAt j = before.moveAt j
  no_new_constants : ∀ j, (resolver.moveAt j).source.isConstant = true →
    (before.moveAt j).source.isConstant = true
  phase : Quiet resolver ∨ ∃ pending, OpenCycle original resolver (index :: stack) pending ∧
    ∀ j, Free resolver.toParallelMoveResolver j →
      (resolver.moveAt j).source ≠ (original.getD index default).destination

/-- After the dependency loop of `PerformMove(index)`, the destination put back:
the move is free again, and no other free move reads its destination. -/
structure Resolving (before resolver : ParallelMoveResolverNoSwap) (stack : List Nat) (index : Nat) : Prop where
  carries : Carries wide original temps resolver
  sound : ScratchesSound original temps resolver
  frames : Frames original resolver.toParallelMoveResolver stack
  linked : Linked original resolver.toParallelMoveResolver (index :: stack)
  index_lt : index < original.length
  left : (resolver.moveAt index).isEliminated = false
  not_mem : index ∉ stack
  self_unread : (resolver.moveAt index).source ≠ (original.getD index default).destination
  unread : ∀ j, j ≠ index → Free resolver.toParallelMoveResolver j →
    (resolver.moveAt j).source ≠ (original.getD index default).destination
  stays_eliminated : ∀ j, (before.moveAt j).isEliminated = true → (resolver.moveAt j).isEliminated = true
  readers : ∀ f ∈ stack, ∀ j, (resolver.moveAt j).isEliminated = false →
    (resolver.moveAt j).source = (original.getD f default).destination →
    (before.moveAt j).source = (original.getD f default).destination
  constants : ∀ j, (before.moveAt j).source.isConstant = true → resolver.moveAt j = before.moveAt j
  no_new_constants : ∀ j, (resolver.moveAt j).source.isConstant = true →
    (before.moveAt j).source.isConstant = true
  phase : Quiet resolver ∨ ∃ pending, OpenCycle original resolver (index :: stack) pending

/-- `perform` does what `PerformMove` must with `fuel`: called on a ready move with
a stack short enough for the fuel, it returns what `PerformMove` must leave. -/
def PerformSpec (perform : ParallelMoveResolverNoSwap → Nat → Option ParallelMoveResolverNoSwap)
    (fuel : Nat) : Prop :=
  ∀ {resolver : ParallelMoveResolverNoSwap} {stack : List Nat} {index : Nat},
    Ready wide original temps resolver stack index → original.length + 2 ≤ fuel + stack.length →
    ∃ after, perform resolver index = some after ∧ Performed wide original temps resolver after stack index

end Traversal

/-! ## The phases -/

section Phases

variable {original : List MoveOperands} {resolver other : ParallelMoveResolverNoSwap} {frames : List Nat}
  {pending : MoveOperands}

/-- An open cycle stays open over a step that keeps the pending moves, the scratch
locations and what the bottom frame reads. -/
theorem OpenCycle.congr (cycle : OpenCycle original resolver frames pending)
    (samePending : other.pendingMoves = resolver.pendingMoves) (sameScratches : other.scratches = resolver.scratches)
    (bottomSource : ∀ bottom, frames.getLast? = some bottom →
      (resolver.moveAt bottom).source = pending.destination → (other.moveAt bottom).source = pending.destination) :
    OpenCycle original other frames pending := by
  obtain ⟨bottom, isBottom, reads⟩ := cycle.bottom_reads
  refine ⟨samePending.trans cycle.pendingMoves_eq, ⟨bottom, isBottom, bottomSource bottom isBottom reads⟩,
    cycle.scratch_ne_frame, cycle.scratch_ne_destination, ?_⟩
  rw [sameScratches]
  exact cycle.scratches_eq

theorem OpenCycle.mem (cycle : OpenCycle original resolver frames pending) : pending ∈ resolver.pendingMoves := by
  rw [cycle.pendingMoves_eq]
  exact List.mem_singleton_self pending

theorem OpenCycle.pop {top : Nat} {stack : List Nat} (cycle : OpenCycle original resolver (top :: stack) pending)
    (nonempty : stack ≠ []) : OpenCycle original resolver stack pending := by
  obtain ⟨bottom, isBottom, reads⟩ := cycle.bottom_reads
  rw [getLast?_cons_of_ne_nil nonempty] at isBottom
  exact ⟨cycle.pendingMoves_eq, ⟨bottom, isBottom, reads⟩,
    fun f member => cycle.scratch_ne_frame f (List.mem_cons_of_mem _ member), cycle.scratch_ne_destination,
    cycle.scratches_eq⟩

end Phases

/-! ## The dependency loop -/

section Loop

variable {wide : Bool} {original : List MoveOperands} {temps : ScratchRegisters}
  {before resolver : ParallelMoveResolverNoSwap} {stack : List Nat} {index position : Nat}

theorem left_of_stays_eliminated {after : ParallelMoveResolverNoSwap}
    (stays : ∀ j, (resolver.moveAt j).isEliminated = true → (after.moveAt j).isEliminated = true) {j : Nat}
    (left : (after.moveAt j).isEliminated = false) : (resolver.moveAt j).isEliminated = false := by
  cases eliminated : (resolver.moveAt j).isEliminated
  · rfl
  · rw [stays j eliminated] at left
    exact Bool.noConfusion left

/-- The pending moves stay the same when the moves left keep their destinations and
no move left was eliminated, the moves of the stack staying left. -/
theorem frames_congr {base other : ParallelMoveResolver} (frames : Frames original base stack)
    (kept : ∀ j, (other.moveAt j).isEliminated = false →
      (base.moveAt j).isEliminated = false ∧ (other.moveAt j).destination = (base.moveAt j).destination)
    (stackLeft : ∀ j ∈ stack, (other.moveAt j).isEliminated = false) : Frames original other stack := by
  refine ⟨frames.nodup, fun j member => ⟨(frames.mem j member).1, stackLeft j member⟩, fun j inBounds left => ?_⟩
  obtain ⟨wasLeft, sameDestination⟩ := kept j left
  rw [sameDestination]
  exact frames.pending_iff j inBounds wasLeft

theorem Ready.destination_eq (ready : Ready wide original temps before stack index) :
    (before.moveAt index).destination = (original.getD index default).destination :=
  (ready.carries.destination_eq index ready.index_lt ready.left).resolve_right fun cleared =>
    ready.not_mem ((ready.frames.pending_iff index ready.index_lt ready.left).mp cleared)

theorem moveAt_lift_markPending_self (inBounds : index < resolver.moves.length) :
    (resolver.lift (·.markPending index)).moveAt index = { resolver.moveAt index with destination := .noLocation } :=
  ParallelMoveResolverWithSwap.moveAt_markPending_self inBounds

theorem moveAt_lift_markPending_of_ne {j : Nat} (different : j ≠ index) :
    (resolver.lift (·.markPending index)).moveAt j = resolver.moveAt j :=
  moveAt_setMove_of_ne different

theorem moveAt_lift_clearPending_self (inBounds : index < resolver.moves.length) (destination : Location) :
    (resolver.lift (·.clearPending index destination)).moveAt index = { resolver.moveAt index with destination } :=
  ParallelMoveResolverWithSwap.moveAt_clearPending_self inBounds destination

theorem moveAt_lift_clearPending_of_ne {j : Nat} (different : j ≠ index) (destination : Location) :
    (resolver.lift (·.clearPending index destination)).moveAt j = resolver.moveAt j :=
  moveAt_setMove_of_ne different

variable (singles : ∀ move ∈ original, move.isSingle wide = true)

include singles in
/-- Marking the move pending opens the loop: it joins the stack, and no move is
scanned yet; its source is not its destination, or the move would be redundant. -/
theorem Ready.scanning (ready : Ready wide original temps before stack index)
    (needed : (before.moveAt index).isRedundant = false) :
    Scanning wide original temps before (before.lift (·.markPending index)) stack index 0 := by
  have inMoves : index < before.moves.length := ready.carries.length_eq ▸ ready.index_lt
  have atIndex := moveAt_lift_markPending_self inMoves
  have atOther : ∀ k, k ≠ index → (before.lift (·.markPending index)).moveAt k = before.moveAt k :=
    fun _ different => moveAt_lift_markPending_of_ne different
  have sameSource : ∀ k, ((before.lift (·.markPending index)).moveAt k).source = (before.moveAt k).source := by
    intro k
    by_cases same : k = index
    · subst same
      rw [atIndex]
    · rw [atOther k same]
  have sameEliminated : ∀ k, ((before.lift (·.markPending index)).moveAt k).isEliminated =
      (before.moveAt k).isEliminated := fun k => by
    simp only [MoveOperands.isEliminated, sameSource k]
  have destinationEq : (before.moveAt index).destination = (original.getD index default).destination :=
    (ready.carries.destination_eq index ready.index_lt ready.left).resolve_right fun cleared =>
      ready.not_mem ((ready.frames.pending_iff index ready.index_lt ready.left).mp cleared)
  have hasDestination : (before.moveAt index).destination ≠ .noLocation := by
    rw [destinationEq]
    exact Location.ne_noLocation_of_isSingleSource (Location.isSingleSource_of_isSingle
      (MoveOperands.destination_of_isSingle (getD_isSingle singles ready.index_lt)))
  have selfUnread : (before.moveAt index).source ≠ (original.getD index default).destination := by
    intro self
    have redundant := (MoveOperands.isRedundant_eq_true_iff ready.left hasDestination).mpr
      (self.trans destinationEq.symm)
    exact Bool.noConfusion (redundant.symm.trans needed)
  refine ⟨ready.carries.setDestination ready.index_lt ready.left (Or.inr rfl),
    ready.sound.setMove inMoves fun _ => ⟨ready.left, rfl⟩,
    ⟨List.Nodup.cons ready.not_mem ready.frames.nodup, fun j member => ?_, fun j inBounds left => ?_⟩,
    ready.linked.congr fun child _ => sameSource child, by rw [sameSource]; exact selfUnread,
    fun _ bound => absurd bound (Nat.not_lt_zero _), fun j eliminated => by rw [sameEliminated]; exact eliminated,
    fun _ _ j _ reads => by rw [← sameSource]; exact reads, fun j constant => ?_,
    fun j constant => by rw [← sameSource]; exact constant, .inl ⟨ready.quiet.1, ready.quiet.2⟩⟩
  · rcases List.mem_cons.mp member with rfl | inStack
    · rw [atIndex]
      exact ⟨ready.index_lt, ready.left⟩
    · have different : j ≠ index := fun same => ready.not_mem (same ▸ inStack)
      rw [atOther j different]
      exact ready.frames.mem j inStack
  · by_cases same : j = index
    · subst same
      rw [atIndex]
      simp
    · rw [atOther j same] at left ⊢
      rw [ready.frames.pending_iff j inBounds left, List.mem_cons, or_iff_right same]
  · have different : j ≠ index := by
      rintro rfl
      exact Bool.noConfusion (constant.symm.trans ready.not_constant)
    exact atOther j different

include singles in
/-- A move the loop performs is ready: it reads the destination and is not pending,
and no cycle is open, since with one open no free move reads the destination. -/
theorem Scanning.ready (scanning : Scanning wide original temps before resolver stack index position)
    (inBounds : position < original.length)
    (blocking : ((resolver.moveAt position).blocks (original.getD index default).destination &&
      !(resolver.moveAt position).isPending) = true) :
    Ready wide original temps resolver (index :: stack) position := by
  have indexInBounds := (scanning.frames.mem index List.mem_cons_self).1
  have destinationSingle := MoveOperands.destination_of_isSingle (getD_isSingle singles indexInBounds)
  rw [Bool.and_eq_true, Bool.not_eq_true'] at blocking
  have left : (resolver.moveAt position).isEliminated = false := by
    cases eliminated : (resolver.moveAt position).isEliminated
    · rfl
    · rw [MoveOperands.blocks_of_isEliminated eliminated] at blocking
      exact absurd blocking.1 Bool.false_ne_true
  have reads := (MoveOperands.blocks_iff left (scanning.carries.source_single position inBounds left)
    (Location.isSingleSource_of_isSingle destinationSingle)).mp blocking.1
  have free : Free resolver.toParallelMoveResolver position :=
    ⟨left, (MoveOperands.isPending_eq_false_iff left).mp blocking.2⟩
  have quiet : Quiet resolver := by
    rcases scanning.phase with quiet | ⟨_, _, unread⟩
    · exact quiet
    · exact absurd reads (unread position free)
  exact ⟨scanning.carries, scanning.sound, quiet, scanning.frames, ⟨reads, scanning.linked⟩, inBounds, left,
    (scanning.frames.free_iff inBounds left).mp free,
    reads ▸ Location.isConstant_eq_false_of_isSingle destinationSingle⟩

include singles in
theorem Scanning.skip (scanning : Scanning wide original temps before resolver stack index position)
    (inBounds : position < original.length)
    (passed : ((resolver.moveAt position).blocks (original.getD index default).destination &&
      !(resolver.moveAt position).isPending) = false) :
    Scanning wide original temps before resolver stack index (position + 1) := by
  refine { scanning with scanned := fun j bound free => ?_ }
  rcases Nat.lt_succ_iff_lt_or_eq.mp bound with earlier | rfl
  · exact scanning.scanned j earlier free
  · have indexInBounds := (scanning.frames.mem index List.mem_cons_self).1
    have destinationSingle := MoveOperands.destination_of_isSingle (getD_isSingle singles indexInBounds)
    have notPending := (MoveOperands.isPending_eq_false_iff free.1).mpr free.2
    rw [notPending, Bool.not_false, Bool.and_true] at passed
    intro reads
    rw [(MoveOperands.blocks_iff free.1 (scanning.carries.source_single j inBounds free.1)
      (Location.isSingleSource_of_isSingle destinationSingle)).mpr reads] at passed
    exact Bool.noConfusion passed

/-- After performing the move at `position`, the loop has passed it: the move is
eliminated, no free move newly reads the destination, and a cycle it left open
leaves none reading it at all. -/
theorem Scanning.perform (scanning : Scanning wide original temps before resolver stack index position)
    {after : ParallelMoveResolverNoSwap}
    (performed : Performed wide original temps resolver after (index :: stack) position) :
    Scanning wide original temps before after stack index (position + 1) := by
  have indexLeft : (after.moveAt index).isEliminated = false := (performed.frames.mem index List.mem_cons_self).2
  -- a move free after the step was free before: left, and not pending
  have wasFree : ∀ j, Free after.toParallelMoveResolver j → Free resolver.toParallelMoveResolver j := by
    intro j free
    have inBounds := performed.carries.lt_of_left free.1
    have wasLeft := left_of_stays_eliminated performed.stays_eliminated free.1
    exact (scanning.frames.free_iff inBounds wasLeft).mpr ((performed.frames.free_iff inBounds free.1).mp free)
  refine ⟨performed.carries, performed.sound, performed.frames, performed.linked, fun self => ?_,
    fun j bound free reads => ?_,
    fun j eliminated => performed.stays_eliminated j (scanning.stays_eliminated j eliminated),
    fun f member j left reads => ?_, fun j constant => ?_,
    fun j constant => scanning.no_new_constants j (performed.no_new_constants j constant), ?_⟩
  · exact scanning.self_unread (performed.readers index List.mem_cons_self index indexLeft self)
  · rcases Nat.lt_succ_iff_lt_or_eq.mp bound with earlier | rfl
    · exact scanning.scanned j earlier (wasFree j free)
        (performed.readers index List.mem_cons_self j free.1 reads)
    · exact Bool.noConfusion (free.1.symm.trans performed.eliminated)
  · exact scanning.readers f member j (left_of_stays_eliminated performed.stays_eliminated left)
      (performed.readers f (List.mem_cons_of_mem _ member) j left reads)
  · have unchanged := scanning.constants j constant
    rw [performed.constants j (unchanged ▸ constant), unchanged]
  · rcases performed.phase with quiet | ⟨pending, cycle, unread⟩
    · exact .inl quiet
    · exact .inr ⟨pending, cycle, unread index rfl⟩

include singles in
/-- Putting the destination back after the loop: the move is free again, and no
other free move reads its destination. -/
theorem Scanning.resolving (scanning : Scanning wide original temps before resolver stack index original.length)
    (notConstant : (before.moveAt index).source.isConstant = false) :
    Resolving wide original temps before
      (resolver.lift (·.clearPending index (original.getD index default).destination)) stack index := by
  have indexInBounds := (scanning.frames.mem index List.mem_cons_self).1
  have indexLeft := (scanning.frames.mem index List.mem_cons_self).2
  have inMoves : index < resolver.moves.length := scanning.carries.length_eq ▸ indexInBounds
  have notMember : index ∉ stack := (List.nodup_cons.mp scanning.frames.nodup).1
  have destinationValid : (original.getD index default).destination ≠ .noLocation :=
    Location.ne_noLocation_of_isSingleSource (Location.isSingleSource_of_isSingle
      (MoveOperands.destination_of_isSingle (getD_isSingle singles indexInBounds)))
  let cleared := resolver.lift (·.clearPending index (original.getD index default).destination)
  have atIndex : cleared.moveAt index =
      { resolver.moveAt index with destination := (original.getD index default).destination } :=
    moveAt_lift_clearPending_self inMoves _
  have atOther : ∀ k, k ≠ index → cleared.moveAt k = resolver.moveAt k :=
    fun _ different => moveAt_lift_clearPending_of_ne different _
  have sameSource : ∀ k, (cleared.moveAt k).source = (resolver.moveAt k).source := by
    intro k
    by_cases same : k = index
    · subst same
      rw [atIndex]
    · rw [atOther k same]
  have sameEliminated : ∀ k, (cleared.moveAt k).isEliminated = (resolver.moveAt k).isEliminated := fun k => by
    simp only [MoveOperands.isEliminated, sameSource k]
  -- the move leaves the stack: its destination is back
  have frames : Frames original cleared.toParallelMoveResolver stack := by
    refine ⟨(List.nodup_cons.mp scanning.frames.nodup).2, fun j member => ?_, fun j inBounds left => ?_⟩
    · rw [sameEliminated]
      exact scanning.frames.mem j (List.mem_cons_of_mem _ member)
    · by_cases same : j = index
      · subst same
        rw [atIndex]
        exact iff_of_false destinationValid notMember
      · rw [atOther j same] at left ⊢
        rw [scanning.frames.pending_iff j inBounds left, List.mem_cons, or_iff_right same]
  refine ⟨scanning.carries.setDestination indexInBounds indexLeft (Or.inl rfl),
    scanning.sound.setMove inMoves (fun _ => ⟨indexLeft, rfl⟩), frames,
    scanning.linked.congr fun child _ => sameSource child, indexInBounds,
    by rw [sameEliminated]; exact indexLeft, notMember, by rw [sameSource]; exact scanning.self_unread,
    fun j different free reads => ?_,
    fun j eliminated => by rw [sameEliminated]; exact scanning.stays_eliminated j eliminated,
    fun f member j left reads => ?_, fun j constant => ?_,
    fun j constant => scanning.no_new_constants j (by rw [← sameSource]; exact constant), ?_⟩
  · unfold Free at free
    rw [atOther j different] at free reads
    exact scanning.scanned j (scanning.carries.lt_of_left free.1) free reads
  · rw [sameEliminated] at left
    rw [sameSource] at reads
    exact scanning.readers f member j left reads
  · have different : j ≠ index := by
      rintro rfl
      exact Bool.noConfusion (constant.symm.trans notConstant)
    rw [atOther j different]
    exact scanning.constants j constant
  · rcases scanning.phase with quiet | ⟨pending, cycle, _⟩
    · exact .inl ⟨quiet.1, quiet.2⟩
    · exact .inr ⟨pending, cycle.congr rfl rfl fun bottom _ reads => by rw [sameSource]; exact reads⟩

include singles in
/-- One step of the dependency loop: a move that reads the destination and is not
pending is performed, when `perform` does what `PerformMove` must, and any other
move is passed. -/
theorem Scanning.next {perform : ParallelMoveResolverNoSwap → Nat → Option ParallelMoveResolverNoSwap} {fuel : Nat}
    (performs : PerformSpec wide original temps perform fuel) (room : original.length + 2 ≤ fuel + (stack.length + 1))
    (scanning : Scanning wide original temps before resolver stack index position) (inBounds : position < original.length) :
    ∃ next, (if ((resolver.moveAt position).blocks (original.getD index default).destination &&
        !(resolver.moveAt position).isPending) = true then perform resolver position else some resolver) = some next ∧
      Scanning wide original temps before next stack index (position + 1) := by
  by_cases blocking : ((resolver.moveAt position).blocks (original.getD index default).destination &&
      !(resolver.moveAt position).isPending) = true
  · obtain ⟨after, performed, post⟩ := performs (scanning.ready singles inBounds blocking) (by simpa using room)
    rw [if_pos blocking]
    exact ⟨after, performed, scanning.perform post⟩
  · rw [if_neg blocking]
    exact ⟨resolver, rfl, scanning.skip singles inBounds (Bool.eq_false_iff.mpr blocking)⟩

end Loop

/-! ## Performing a move into a location -/

section Moved

variable {resolver after : ParallelMoveResolverNoSwap} {index j : Nat} {source target : Location}

/-- `after` is `resolver` with the move at `index` eliminated and the moves that
read `source` reading `target`: what emitting a move and `UpdateMoveSource` leave. -/
def MovedInto (resolver after : ParallelMoveResolverNoSwap) (index : Nat) (source target : Location) : Prop :=
  ∀ j, after.moveAt j =
    if j = index then { resolver.moveAt index with source := .noLocation, destination := .noLocation }
    else if (resolver.moveAt j).source = source then { resolver.moveAt j with source := target }
    else resolver.moveAt j

theorem movedInto_emitAs_updateMoveSource (inBounds : index < resolver.moves.length) (valid : source ≠ .noLocation)
    (emittedSource emittedDestination target : Location) :
    MovedInto resolver ((resolver.emitAs index emittedSource emittedDestination).updateMoveSource source target)
      index source target := by
  intro j
  rw [moveAt_updateMoveSource _ j _ _ valid]
  by_cases same : j = index
  · subst same
    rw [moveAt_emitAs_self _ _ _ inBounds, if_pos rfl, if_neg (Ne.symm valid)]
  · rw [moveAt_emitAs_of_ne _ _ _ same, if_neg same]

/-- Eliminating the move at `index` and changing no other is moving it into a
location that no move is redirected to. -/
theorem movedInto_of_eliminated
    (atIndex : after.moveAt index = { resolver.moveAt index with source := .noLocation, destination := .noLocation })
    (atOther : ∀ j, j ≠ index → after.moveAt j = resolver.moveAt j) (source : Location) :
    MovedInto resolver after index source source := by
  intro j
  by_cases same : j = index
  · subst same
    rw [if_pos rfl]
    exact atIndex
  · rw [if_neg same, atOther j same]
    split
    · rename_i reads
      rw [← reads]
    · rfl

theorem movedInto_lift_eliminate (inBounds : index < resolver.moves.length) (source : Location) :
    MovedInto resolver (resolver.lift (·.eliminate index)) index source source :=
  movedInto_of_eliminated (moveAt_setMove_self inBounds) (fun _ different => moveAt_setMove_of_ne different) source

namespace MovedInto

theorem moveAt_self (moved : MovedInto resolver after index source target) :
    after.moveAt index = { resolver.moveAt index with source := .noLocation, destination := .noLocation } := by
  rw [moved index, if_pos rfl]

theorem isEliminated_self (moved : MovedInto resolver after index source target) :
    (after.moveAt index).isEliminated = true := by
  rw [moved.moveAt_self]
  rfl

theorem moveAt_of_ne (moved : MovedInto resolver after index source target) (different : j ≠ index)
    (notReading : (resolver.moveAt j).source ≠ source) : after.moveAt j = resolver.moveAt j := by
  rw [moved j, if_neg different, if_neg notReading]

theorem moveAt_of_reads (moved : MovedInto resolver after index source target) (different : j ≠ index)
    (reads : (resolver.moveAt j).source = source) : after.moveAt j = { resolver.moveAt j with source := target } := by
  rw [moved j, if_neg different, if_pos reads]

theorem destination_of_ne (moved : MovedInto resolver after index source target) (different : j ≠ index) :
    (after.moveAt j).destination = (resolver.moveAt j).destination := by
  by_cases reads : (resolver.moveAt j).source = source
  · rw [moved.moveAt_of_reads different reads]
  · rw [moved.moveAt_of_ne different reads]

theorem isEliminated_of_ne (moved : MovedInto resolver after index source target) (valid : source ≠ .noLocation)
    (targetValid : target ≠ .noLocation) (different : j ≠ index) :
    (after.moveAt j).isEliminated = (resolver.moveAt j).isEliminated := by
  by_cases reads : (resolver.moveAt j).source = source
  · rw [moved.moveAt_of_reads different reads]
    simp only [MoveOperands.isEliminated, reads]
    rw [Location.isInvalid_eq_false_iff.mpr valid, Location.isInvalid_eq_false_iff.mpr targetValid]
  · rw [moved.moveAt_of_ne different reads]

theorem source_ne (moved : MovedInto resolver after index source target) (valid : source ≠ .noLocation)
    (apart : target ≠ source) (j : Nat) : (after.moveAt j).source ≠ source := by
  by_cases same : j = index
  · subst same
    rw [moved.moveAt_self]
    exact Ne.symm valid
  · by_cases reads : (resolver.moveAt j).source = source
    · rw [moved.moveAt_of_reads same reads]
      exact apart
    · rw [moved.moveAt_of_ne same reads]
      exact reads

theorem source_eq_of_ne (moved : MovedInto resolver after index source target) {loc : Location}
    (reads : (after.moveAt j).source = loc) (valid : loc ≠ .noLocation) (notTarget : loc ≠ target) :
    j ≠ index ∧ (resolver.moveAt j).source = loc := by
  have different : j ≠ index := by
    rintro rfl
    rw [moved.moveAt_self] at reads
    exact valid reads.symm
  refine ⟨different, ?_⟩
  by_cases redirected : (resolver.moveAt j).source = source
  · rw [moved.moveAt_of_reads different redirected] at reads
    exact absurd reads.symm notTarget
  · rw [moved.moveAt_of_ne different redirected] at reads
    exact reads

variable {original : List MoveOperands} {before : ParallelMoveResolverNoSwap} {stack : List Nat}

/-- Performing the move at `index` into `target`, with the moves reading `source`
redirected, advances the worklist: `target` is valid, no constant and written by no
frame, `source` is no constant, and the worklist before stood in the same relation
to `before`. -/
theorem advanced (moved : MovedInto resolver after index source target) (valid : source ≠ .noLocation)
    (targetValid : target ≠ .noLocation) (sourceNotConstant : source.isConstant = false)
    (targetNotConstant : target.isConstant = false)
    (apart : ∀ f ∈ stack, target ≠ (original.getD f default).destination) (notMember : index ∉ stack)
    (frames : Frames original resolver.toParallelMoveResolver stack)
    (linked : Linked original after.toParallelMoveResolver stack)
    (notConstant : (before.moveAt index).source.isConstant = false)
    (stays : ∀ j, (before.moveAt j).isEliminated = true → (resolver.moveAt j).isEliminated = true)
    (readers : ∀ f ∈ stack, ∀ j, (resolver.moveAt j).isEliminated = false →
      (resolver.moveAt j).source = (original.getD f default).destination →
      (before.moveAt j).source = (original.getD f default).destination)
    (constants : ∀ j, (before.moveAt j).source.isConstant = true → resolver.moveAt j = before.moveAt j)
    (noNewConstants : ∀ j, (resolver.moveAt j).source.isConstant = true →
      (before.moveAt j).source.isConstant = true) :
    Advanced original before after stack index := by
  have eliminatedEq : ∀ j, j ≠ index → (after.moveAt j).isEliminated = (resolver.moveAt j).isEliminated :=
    fun j different => moved.isEliminated_of_ne valid targetValid different
  have notIndex : ∀ j, (after.moveAt j).isEliminated = false → j ≠ index := by
    rintro j left rfl
    rw [moved.isEliminated_self] at left
    exact Bool.noConfusion left
  refine ⟨frames_congr frames (fun j left => ?_) (fun j member => ?_), linked, moved.isEliminated_self,
    fun j eliminated => ?_, fun f member j left reads => ?_, fun j constant => ?_, fun j constant => ?_⟩
  · have different := notIndex j left
    exact ⟨by rw [← eliminatedEq j different]; exact left, moved.destination_of_ne different⟩
  · have different : j ≠ index := fun same => notMember (same ▸ member)
    rw [eliminatedEq j different]
    exact (frames.mem j member).2
  · by_cases same : j = index
    · subst same
      exact moved.isEliminated_self
    · rw [eliminatedEq j same]
      exact stays j eliminated
  · have destinationValid : (original.getD f default).destination ≠ .noLocation := by
      intro none
      rw [none] at reads
      exact MoveOperands.isEliminated_eq_false_iff.mp left reads
    obtain ⟨different, wasReading⟩ := moved.source_eq_of_ne reads destinationValid (Ne.symm (apart f member))
    rw [eliminatedEq j different] at left
    exact readers f member j left wasReading
  · have unchanged := constants j constant
    have different : j ≠ index := by
      rintro rfl
      exact Bool.noConfusion (constant.symm.trans notConstant)
    have notReading : (resolver.moveAt j).source ≠ source := by
      intro reads
      rw [← reads, unchanged] at sourceNotConstant
      exact Bool.noConfusion (constant.symm.trans sourceNotConstant)
    rw [moved.moveAt_of_ne different notReading, unchanged]
  · by_cases same : j = index
    · subst same
      rw [moved.moveAt_self] at constant
      exact Bool.noConfusion constant
    · by_cases reads : (resolver.moveAt j).source = source
      · rw [moved.moveAt_of_reads same reads] at constant
        exact Bool.noConfusion (constant.symm.trans targetNotConstant)
      · rw [moved.moveAt_of_ne same reads] at constant
        exact noNewConstants j constant

end MovedInto

end Moved

/-! ## The end of `PerformMove` -/

section Resolve

variable {wide : Bool} {original : List MoveOperands} {temps : ScratchRegisters}
  {before resolver : ParallelMoveResolverNoSwap} {stack : List Nat} {index : Nat}

variable (singles : ∀ move ∈ original, move.isSingle wide = true)
  (distinct : (original.map MoveOperands.destination).Nodup)
  (reserved : ∀ move ∈ original, move.source ∉ temps.locations ∧ move.destination ∉ temps.locations)

include distinct in
theorem Carries.pending_destination_ne (carries : Carries wide original temps resolver) {pending : MoveOperands}
    (member : pending ∈ resolver.pendingMoves) {g : Nat} (gInBounds : g < original.length)
    (left : (resolver.moveAt g).isEliminated = false) :
    pending.destination ≠ (original.getD g default).destination := by
  obtain ⟨_, i, iInBounds, eliminated, destinationEq, _⟩ := carries.pending pending member
  intro same
  have equal : i = g := destination_injective distinct iInBounds gInBounds (destinationEq.symm.trans same)
  subst equal
  exact Bool.noConfusion (eliminated.symm.trans left)

theorem Quiet.available (quiet : Quiet resolver) (sound : ScratchesSound original temps resolver) {loc : Location}
    (temp : loc ∈ temps.locations) : loc ∈ resolver.vixlTemps.locations :=
  (sound.kept loc temp).resolve_right (by rw [quiet.scratches_eq]; exact List.not_mem_nil)

theorem Quiet.core_ne_nil (quiet : Quiet resolver) (sound : ScratchesSound original temps resolver)
    (nonempty : temps.core ≠ []) : resolver.vixlTemps.core ≠ [] := by
  obtain ⟨reg, member⟩ := List.exists_mem_of_ne_nil temps.core nonempty
  rcases mem_locations.mp (quiet.available sound (mem_locations.mpr (.inl ⟨reg, member, rfl⟩))) with
    ⟨_, taken, _⟩ | ⟨_, _, same⟩
  · exact List.ne_nil_of_mem taken
  · exact Location.noConfusion same

theorem Quiet.fpu_ne_nil (quiet : Quiet resolver) (sound : ScratchesSound original temps resolver)
    (nonempty : temps.fpu ≠ []) : resolver.vixlTemps.fpu ≠ [] := by
  obtain ⟨reg, member⟩ := List.exists_mem_of_ne_nil temps.fpu nonempty
  rcases mem_locations.mp (quiet.available sound (mem_locations.mpr (.inr ⟨reg, member, rfl⟩))) with
    ⟨_, _, same⟩ | ⟨_, taken, _⟩
  · exact Location.noConfusion same
  · exact List.ne_nil_of_mem taken

namespace Resolving

include distinct in
/-- Performing the move into a valid location, not a constant and no destination of
a frame below, advances the worklist as `PerformMove` must. -/
theorem advanced (resolving : Resolving wide original temps before resolver stack index)
    (notConstant : (before.moveAt index).source.isConstant = false) {target : Location}
    (valid : target ≠ .noLocation) (targetNotConstant : target.isConstant = false)
    (apart : ∀ f ∈ stack, target ≠ (original.getD f default).destination) {after : ParallelMoveResolverNoSwap}
    (moved : MovedInto resolver after index (resolver.moveAt index).source target) :
    Advanced original before after stack index := by
  have sourceValid : (resolver.moveAt index).source ≠ .noLocation :=
    MoveOperands.isEliminated_eq_false_iff.mp resolving.left
  have sourceNotConstant : (resolver.moveAt index).source.isConstant = false := by
    cases constant : (resolver.moveAt index).source.isConstant
    · rfl
    · rw [resolving.no_new_constants index constant] at notConstant
      exact Bool.noConfusion notConstant
  have stackNotIndex : ∀ j ∈ stack, j ≠ index := fun j member same => resolving.not_mem (same ▸ member)
  -- the frames below read what they read: none reads the source, the parent's destination
  have linked : Linked original after.toParallelMoveResolver stack := by
    refine resolving.linked.tail.congr fun child member => ?_
    cases stack with
    | nil => exact absurd member List.not_mem_nil
    | cons parent rest =>
      have notReading : (resolver.moveAt child).source ≠ (resolver.moveAt index).source := by
        rw [resolving.linked.1]
        exact source_ne_top_of_linked distinct resolving.linked.tail resolving.frames.nodup
          (fun f inStack => (resolving.frames.mem f inStack).1) member
      rw [moved.moveAt_of_ne (stackNotIndex child (List.mem_of_mem_dropLast member)) notReading]
  exact moved.advanced sourceValid valid sourceNotConstant targetNotConstant apart resolving.not_mem
    resolving.frames linked notConstant resolving.stays_eliminated resolving.readers resolving.constants
    resolving.no_new_constants

include singles distinct reserved in
theorem emit (resolving : Resolving wide original temps before resolver stack index)
    (notConstant : (before.moveAt index).source.isConstant = false)
    (unblocked : resolver.isBlockedByMoves (original.getD index default).destination = false) :
    Resolved wide original temps before
      ((resolver.emitAs index (resolver.moveAt index).source (original.getD index default).destination).updateMoveSource
        (resolver.moveAt index).source (original.getD index default).destination) stack index := by
  have inMoves : index < resolver.moves.length := resolving.carries.length_eq ▸ resolving.index_lt
  have destinationSingle := MoveOperands.destination_of_isSingle (getD_isSingle singles resolving.index_lt)
  have destinationSource := Location.isSingleSource_of_isSingle destinationSingle
  have destinationValid := Location.ne_noLocation_of_isSingleSource destinationSource
  have sourceValid := MoveOperands.isEliminated_eq_false_iff.mp resolving.left
  have sourceSingle := resolving.carries.source_single index resolving.index_lt resolving.left
  have wideType := resolving.carries.width_eq singles resolving.index_lt
  obtain ⟨pendingUnread, unread⟩ :=
    (resolving.carries.isBlockedByMoves_eq_false_iff destinationSource).mp unblocked
  have apart : ∀ f ∈ stack, (original.getD index default).destination ≠ (original.getD f default).destination := by
    intro f member same
    apply resolving.not_mem
    rw [destination_injective distinct resolving.index_lt (resolving.frames.mem f member).1 same]
    exact member
  refine ⟨resolving.advanced distinct notConstant destinationValid
    (Location.isConstant_eq_false_of_isSingle destinationSingle) apart
    (movedInto_emitAs_updateMoveSource inMoves sourceValid _ _ _), ?_, ?_⟩
  · have emitted := resolving.carries.emitOwn singles distinct resolving.index_lt resolving.left
      (fun j jInBounds _ jLeft => unread j jInBounds jLeft) pendingUnread
    refine emitted.updateMoveSource sourceValid destinationSource fun initial => ?_
    rw [emitted_emitAs resolver _ _ inMoves]
    exact (read_execute_move_source wideType sourceSingle destinationSingle initial _).symm
  · exact (resolving.sound.emitAs inMoves _ _).updateMoveSource sourceValid destinationValid
      fun temp => absurd temp (reserved _ (getD_mem resolving.index_lt)).2

include distinct in
theorem reader_is_bottom (resolving : Resolving wide original temps before resolver stack index) {j : Nat}
    (jInBounds : j < original.length) (jLeft : (resolver.moveAt j).isEliminated = false)
    (reads : (resolver.moveAt j).source = (original.getD index default).destination) :
    j ≠ index ∧ (index :: stack).getLast? = some j := by
  have different : j ≠ index := by
    rintro rfl
    exact resolving.self_unread reads
  have pending : j ∈ stack := by
    by_contra notMember
    exact resolving.unread j different ((resolving.frames.free_iff jInBounds jLeft).mpr notMember) reads
  refine ⟨different, getLast?_of_reads_top distinct resolving.linked
    (List.nodup_cons.mpr ⟨resolving.not_mem, resolving.frames.nodup⟩) (fun f member => ?_)
    (List.mem_cons_of_mem _ pending) reads⟩
  rcases List.mem_cons.mp member with rfl | inStack
  · exact resolving.index_lt
  · exact (resolving.frames.mem f inStack).1

include singles distinct in
/-- With a cycle open below, nothing blocks the move after its loop: the bottom frame
reads the destination of the pending move, and the pending move the scratch location. -/
theorem unblocked_of_open (resolving : Resolving wide original temps before resolver stack index)
    {pending : MoveOperands} (cycle : OpenCycle original resolver (index :: stack) pending) :
    resolver.isBlockedByMoves (original.getD index default).destination = false := by
  have destinationSource := Location.isSingleSource_of_isSingle
    (MoveOperands.destination_of_isSingle (getD_isSingle singles resolving.index_lt))
  refine (resolving.carries.isBlockedByMoves_eq_false_iff destinationSource).mpr
    ⟨fun move member => ?_, fun j jInBounds jLeft reads => ?_⟩
  · rw [cycle.pendingMoves_eq, List.mem_singleton] at member
    subst member
    exact cycle.scratch_ne_frame index List.mem_cons_self
  · obtain ⟨_, isBottom⟩ := resolving.reader_is_bottom distinct jInBounds jLeft reads
    obtain ⟨bottom, cycleBottom, bottomReads⟩ := cycle.bottom_reads
    rw [isBottom, Option.some.injEq] at cycleBottom
    subst cycleBottom
    exact resolving.carries.pending_destination_ne distinct cycle.mem resolving.index_lt resolving.left
      (bottomReads.symm.trans reads)

end Resolving

variable (wide original temps) in
/-- A scratch location `AllocateScratchLocationFor` returns with no cycle open, in the
middle of `PerformMove(index)`, and the resolver `allocated` it leaves: the worklist
and the pending moves unchanged, at most the scratch location taken, and the scratch
location a single cell that no move reads and no frame writes. -/
structure ScratchFor (resolver allocated : ParallelMoveResolverNoSwap) (stack : List Nat) (index : Nat)
    (scratch : Location) : Prop where
  same_base : allocated.toParallelMoveResolver = resolver.toParallelMoveResolver
  same_pending : allocated.pendingMoves = resolver.pendingMoves
  sound : ScratchesSound original temps allocated
  scratches_eq : allocated.scratches = [] ∨ allocated.scratches = [scratch]
  taken : scratch ∈ temps.locations → scratch ∈ allocated.scratches
  single : scratch.isSingle wide = true
  unread : ∀ j < original.length, (resolver.moveAt j).isEliminated = false → (resolver.moveAt j).source ≠ scratch
  allowed : (∃ move ∈ original, move.destination = scratch) ∨ scratch ∈ temps.locations
  not_finished : ∀ j < original.length, (resolver.moveAt j).isEliminated = true →
    (original.getD j default).destination ≠ scratch
  apart : ∀ f ∈ index :: stack, scratch ≠ (original.getD f default).destination

namespace Resolving

include singles distinct reserved in
/-- With no cycle open and the bottom frame reading the destination, the scratch
location found is the destination of a free move that no move reads, or a register
VIXL still had. -/
theorem allocate (resolving : Resolving wide original temps before resolver stack index) (quiet : Quiet resolver)
    {bottom : Nat} (isBottom : stack.getLast? = some bottom)
    (bottomReads : (resolver.moveAt bottom).source = (original.getD index default).destination)
    {kind : Location.Kind} {scratch : Location} {allocated : ParallelMoveResolverNoSwap}
    (allocation : resolver.allocateScratchLocationFor kind = some (scratch, allocated)) :
    ScratchFor wide original temps resolver allocated stack index scratch := by
  have bottomInStack : bottom ∈ stack := List.mem_of_getLast? isBottom
  have framesIn : ∀ g ∈ index :: stack, g < original.length ∧ (resolver.moveAt g).isEliminated = false := by
    intro g member
    rcases List.mem_cons.mp member with rfl | inStack
    · exact ⟨resolving.index_lt, resolving.left⟩
    · exact resolving.frames.mem g inStack
  -- every frame's destination is read by a frame: the bottom reads the top one's
  have framesRead : ∀ f ∈ index :: stack, ∃ g ∈ index :: stack,
      (resolver.moveAt g).source = (original.getD f default).destination := by
    intro f member
    rcases List.mem_cons.mp member with rfl | inStack
    · exact ⟨bottom, List.mem_cons_of_mem _ bottomInStack, bottomReads⟩
    · exact exists_reader_of_linked resolving.linked f inStack
  rcases allocateScratchLocationFor_cases resolver allocation with
    ⟨unchanged, valid, unblocked, _, origin⟩ | ⟨available, sameBase, samePending, scratchesEq, locationsEq⟩
  · -- a destination that no move reads, no scratch location being taken
    subst allocated
    obtain ⟨move, member, destinationEq⟩ := origin.resolve_left (by rw [quiet.scratches_eq]; exact List.not_mem_nil)
    obtain ⟨k, kInMoves, rfl⟩ := List.getElem_of_mem member
    have atK : resolver.moveAt k = resolver.moves[k] := by
      rw [ParallelMoveResolver.moveAt, List.getD_eq_getElem _ _ kInMoves]
    rw [← atK] at destinationEq
    have kInBounds : k < original.length := resolving.carries.length_eq ▸ kInMoves
    have kLeft : (resolver.moveAt k).isEliminated = false := by
      cases eliminated : (resolver.moveAt k).isEliminated
      · rfl
      · exact absurd (destinationEq.symm.trans (resolving.carries.eliminated_destination k eliminated)) valid
    have scratchEq : scratch = (original.getD k default).destination :=
      destinationEq.symm.trans ((resolving.carries.destination_eq k kInBounds kLeft).resolve_right
        fun none => valid (destinationEq.symm.trans none))
    subst scratchEq
    have scratchSingle := MoveOperands.destination_of_isSingle (getD_isSingle singles kInBounds)
    obtain ⟨_, unread⟩ := (resolving.carries.isBlockedByMoves_eq_false_iff
      (Location.isSingleSource_of_isSingle scratchSingle)).mp unblocked
    refine ⟨rfl, rfl, resolving.sound, .inl quiet.scratches_eq,
      fun temp => absurd temp (reserved _ (getD_mem kInBounds)).2, scratchSingle, unread,
      .inl ⟨_, getD_mem kInBounds, rfl⟩, fun j jInBounds eliminated same => ?_, fun f member same => ?_⟩
    · have equal := destination_injective distinct jInBounds kInBounds same
      subst equal
      exact Bool.noConfusion (eliminated.symm.trans kLeft)
    · obtain ⟨g, gMember, reads⟩ := framesRead f member
      exact unread g (framesIn g gMember).1 (framesIn g gMember).2 (reads.trans same.symm)
  · -- a register of VIXL, which no move reads and no move writes
    have temp := resolving.sound.available_temp scratch available
    have notTaken := resolving.sound.available_free scratch available
    have unread : ∀ j < original.length, (resolver.moveAt j).isEliminated = false →
        (resolver.moveAt j).source ≠ scratch := by
      intro j jInBounds left reads
      have taken := resolving.sound.reads_scratch j jInBounds left (by rw [reads]; exact temp)
      rw [reads] at taken
      exact notTaken taken
    have notDestination : ∀ j < original.length, (original.getD j default).destination ≠ scratch :=
      fun j jInBounds same => (reserved _ (getD_mem jInBounds)).2 (by rw [same]; exact temp)
    refine ⟨sameBase, samePending, resolving.sound.take available sameBase samePending scratchesEq locationsEq,
      .inr (by rw [scratchesEq, quiet.scratches_eq]; rfl),
      fun _ => by rw [scratchesEq]; exact List.mem_append_right _ (List.mem_singleton_self _),
      isSingle_of_mem_locations temp wide, unread, .inr temp, fun j jInBounds _ => notDestination j jInBounds,
      fun f member => Ne.symm (notDestination f (framesIn f member).1)⟩

include singles distinct reserved in
/-- A move still blocked after its loop with no cycle open: the bottom frame reads its
destination, so the move goes to a scratch location and the move from there waits,
leaving the cycle open below with nothing reading the parent's destination. -/
theorem breakCycle (resolving : Resolving wide original temps before resolver stack index)
    (notConstant : (before.moveAt index).source.isConstant = false) (quiet : Quiet resolver)
    (tempsCore : temps.core ≠ []) (tempsFpu : temps.fpu ≠ [])
    (blocked : resolver.isBlockedByMoves (original.getD index default).destination = true) (fuel : Nat) :
    ∃ after, (resolver.breakCycleOrEmit index (original.getD index default).destination
        (resolver.moveAt index).source >>= fun resolved =>
          drainPendingMoves index (resolver.moveAt index).source (fuel + 1) resolved) = some after ∧
      Performed wide original temps before after stack index := by
  have inMoves : index < resolver.moves.length := resolving.carries.length_eq ▸ resolving.index_lt
  have destinationSingle := MoveOperands.destination_of_isSingle (getD_isSingle singles resolving.index_lt)
  have destinationSource := Location.isSingleSource_of_isSingle destinationSingle
  have sourceValid := MoveOperands.isEliminated_eq_false_iff.mp resolving.left
  have sourceSingle := resolving.carries.source_single index resolving.index_lt resolving.left
  have wideType := resolving.carries.width_eq singles resolving.index_lt
  -- only the bottom frame can read the destination
  obtain ⟨bottom, isBottom, bottomReads⟩ : ∃ bottom, stack.getLast? = some bottom ∧
      (resolver.moveAt bottom).source = (original.getD index default).destination := by
    by_contra noBottom
    have unblocked : resolver.isBlockedByMoves (original.getD index default).destination = false := by
      refine (resolving.carries.isBlockedByMoves_eq_false_iff destinationSource).mpr
        ⟨fun move member => ?_, fun j jInBounds jLeft reads => ?_⟩
      · rw [quiet.pendingMoves_eq] at member
        exact absurd member List.not_mem_nil
      · obtain ⟨different, isLast⟩ := resolving.reader_is_bottom distinct jInBounds jLeft reads
        cases stack with
        | nil => exact different (by simpa using isLast.symm)
        | cons parent rest =>
          rw [getLast?_cons_of_ne_nil (List.cons_ne_nil _ _)] at isLast
          exact noBottom ⟨j, isLast, reads⟩
    rw [unblocked] at blocked
    exact Bool.noConfusion blocked
  have bottomInStack := List.mem_of_getLast? isBottom
  obtain ⟨parent, rest, rfl⟩ := List.exists_cons_of_ne_nil (List.ne_nil_of_mem bottomInStack)
  have sourceEq : (resolver.moveAt index).source = (original.getD parent default).destination :=
    resolving.linked.1
  -- the scratch location
  obtain ⟨scratch, allocated, allocation⟩ := resolver.allocateScratchLocationFor_isSome
    (resolver.moveAt index).source.getKind (quiet.core_ne_nil resolving.sound tempsCore)
    (quiet.fpu_ne_nil resolving.sound tempsFpu)
  have scratchFor := resolving.allocate singles distinct reserved quiet isBottom bottomReads allocation
  have allocatedAt : ∀ j, allocated.moveAt j = resolver.moveAt j := fun j => by
    show ParallelMoveResolver.moveAt allocated.toParallelMoveResolver j = _
    rw [scratchFor.same_base]
  have allocatedInMoves : index < allocated.moves.length := by
    show index < allocated.toParallelMoveResolver.moves.length
    rw [scratchFor.same_base]
    exact inMoves
  have scratchSource := Location.isSingleSource_of_isSingle scratchFor.single
  have scratchValid := Location.ne_noLocation_of_isSingleSource scratchSource
  have scratchNeSource : scratch ≠ (resolver.moveAt index).source :=
    Ne.symm (scratchFor.unread index resolving.index_lt resolving.left)
  let type := if (resolver.moveAt index).is64BitMove then DataType.kInt64 else .kInt32
  let broken := ((allocated.emitAs index (resolver.moveAt index).source scratch).updateMoveSource
    (resolver.moveAt index).source scratch).addPendingMove scratch (original.getD index default).destination type
  have moved : MovedInto resolver broken index (resolver.moveAt index).source scratch := by
    intro j
    have expand := movedInto_emitAs_updateMoveSource allocatedInMoves sourceValid
      (resolver.moveAt index).source scratch scratch j
    simp only [allocatedAt] at expand
    exact expand
  have brokenCarries : Carries wide original temps broken := by
    have cycleBroken := (resolving.carries.congr scratchFor.same_base scratchFor.same_pending).breakCycle singles
      resolving.index_lt (by rw [allocatedAt]; exact resolving.left) scratchFor.single
      (fun j jInBounds jLeft => by rw [allocatedAt] at jLeft ⊢; exact scratchFor.unread j jInBounds jLeft)
      (fun move member => by
        rw [scratchFor.same_pending, quiet.pendingMoves_eq] at member
        exact absurd member List.not_mem_nil)
      (fun j jInBounds eliminated => scratchFor.not_finished j jInBounds (by rw [← allocatedAt]; exact eliminated))
      scratchFor.allowed type
    rw [allocatedAt] at cycleBroken
    have redirected := cycleBroken.updateMoveSource sourceValid scratchSource fun initial => by
      show scratch.read (execute initial (allocated.emitAs index (resolver.moveAt index).source scratch).emitted) wide =
        (resolver.moveAt index).source.read (execute initial
          (allocated.emitAs index (resolver.moveAt index).source scratch).emitted) wide
      rw [emitted_emitAs allocated _ _ allocatedInMoves, allocatedAt]
      exact (read_execute_move_source wideType sourceSingle scratchFor.single initial _).symm
    rwa [← addPendingMove_updateMoveSource] at redirected
  have brokenSound : ScratchesSound original temps broken :=
    ((scratchFor.sound.emitAs allocatedInMoves _ _).updateMoveSource sourceValid scratchValid
      scratchFor.taken).addPendingMove scratchFor.taken type
  have advanced := resolving.advanced distinct notConstant scratchValid
    (Location.isConstant_eq_false_of_isSingle scratchFor.single)
    (fun f member => scratchFor.apart f (List.mem_cons_of_mem _ member)) moved
  -- the cycle is open below: the bottom frame still reads the destination
  have cycle : OpenCycle original broken (parent :: rest) ⟨scratch, (original.getD index default).destination, type⟩ := by
    refine ⟨?_, ⟨bottom, isBottom, ?_⟩, fun f member => scratchFor.apart f (List.mem_cons_of_mem _ member),
      scratchFor.apart index List.mem_cons_self, scratchFor.scratches_eq⟩
    · show allocated.pendingMoves ++ _ = _
      rw [scratchFor.same_pending, quiet.pendingMoves_eq]
      rfl
    · have bottomNotIndex : bottom ≠ index := fun same => resolving.not_mem (same ▸ bottomInStack)
      rw [moved.moveAt_of_ne bottomNotIndex (by rw [bottomReads]; exact Ne.symm resolving.self_unread)]
      exact bottomReads
  -- the pending move writes the destination, not the source, the parent's destination
  have apart : (original.getD index default).destination.overlapsWith (resolver.moveAt index).source = false := by
    rw [Bool.eq_false_iff]
    intro overlaps
    have same := (Location.overlapsWith_iff_of_isSingleSource destinationSource sourceSingle).mp overlaps
    rw [sourceEq] at same
    apply resolving.not_mem
    rw [destination_injective distinct resolving.index_lt (resolving.frames.mem parent List.mem_cons_self).1 same]
    exact List.mem_cons_self
  refine ⟨broken, ?_, ⟨⟨advanced, brokenCarries, brokenSound⟩, .inr ⟨_, cycle, fun above member j _ => ?_⟩⟩⟩
  · rw [breakCycleOrEmit_of_allocated blocked allocation, Option.bind_eq_bind, Option.bind_some]
    exact drainPendingMoves_of_none (getUnblockedPendingMove_of_apart cycle.pendingMoves_eq apart)
  · obtain rfl : parent = above := by simpa using member
    rw [← sourceEq]
    exact moved.source_ne sourceValid scratchNeSource j

end Resolving

namespace Resolved

include singles distinct reserved in
/-- The bottom frame closes the cycle: once the moves reading the destination of the
pending move read elsewhere, the pending move is performed with the operands of the
bottom frame, and the moves reading the scratch location read its destination. -/
theorem performPending (resolved : Resolved wide original temps before resolver [] index)
    (notConstant : (before.moveAt index).source.isConstant = false) (inBounds : index < original.length)
    {pending : MoveOperands} (single : resolver.pendingMoves = [pending])
    (unread : ∀ j < original.length, (resolver.moveAt j).isEliminated = false →
      (resolver.moveAt j).source ≠ pending.destination) :
    Resolved wide original temps before
      (((resolver.deletePendingMove pending).emitAs index pending.source pending.destination).updateMoveSource
        pending.source pending.destination) [] index := by
  have member : pending ∈ resolver.pendingMoves := by
    rw [single]
    exact List.mem_singleton_self pending
  obtain ⟨sourceSingle, finishing, finishingInBounds, _, destinationEq, _⟩ := resolved.carries.pending pending member
  have destinationSingle : pending.destination.isSingle wide = true :=
    destinationEq ▸ MoveOperands.destination_of_isSingle (getD_isSingle singles finishingInBounds)
  have sourceSource := Location.isSingleSource_of_isSingle sourceSingle
  have sourceValid := Location.ne_noLocation_of_isSingleSource sourceSource
  have destinationSource := Location.isSingleSource_of_isSingle destinationSingle
  have destinationValid := Location.ne_noLocation_of_isSingleSource destinationSource
  have inMoves : index < resolver.moves.length := resolved.carries.length_eq ▸ inBounds
  have wideType := resolved.carries.width_eq singles inBounds
  have performed := resolved.carries.performPending singles distinct inBounds resolved.eliminated member unread
    fun other otherMember => by
      rw [single, List.erase_cons_head] at otherMember
      exact absurd otherMember List.not_mem_nil
  have moved : MovedInto (resolver.deletePendingMove pending)
      (((resolver.deletePendingMove pending).emitAs index pending.source pending.destination).updateMoveSource
        pending.source pending.destination) index pending.source pending.destination :=
    movedInto_emitAs_updateMoveSource inMoves sourceValid _ _ _
  refine ⟨moved.advanced sourceValid destinationValid (Location.isConstant_eq_false_of_isSingle sourceSingle)
    (Location.isConstant_eq_false_of_isSingle destinationSingle) (fun _ member => absurd member List.not_mem_nil)
    List.not_mem_nil resolved.frames trivial notConstant resolved.stays_eliminated resolved.readers
    resolved.constants resolved.no_new_constants, ?_, ?_⟩
  · refine performed.updateMoveSource sourceValid destinationSource fun initial => ?_
    rw [emitted_emitAs (resolver.deletePendingMove pending) _ _ inMoves]
    exact (read_execute_move_source wideType sourceSource destinationSingle initial _).symm
  · refine ((resolved.sound.deletePendingMove pending).emitAs inMoves _ _).updateMoveSource sourceValid
      destinationValid fun temp => ?_
    rw [destinationEq] at temp
    exact absurd temp (reserved _ (getD_mem finishingInBounds)).2

/-- With no move pending, the loop that frees the scratch locations after the
pending move from `loc` gives `loc` back to VIXL when it took it: no cycle is open
any more. -/
theorem freeScratch (resolved : Resolved wide original temps before resolver stack index) {loc : Location}
    (empty : resolver.pendingMoves = []) (scratches : resolver.scratches = [] ∨ resolver.scratches = [loc])
    (single : loc.isSingle wide = true)
    (unread : ∀ j < original.length, (resolver.moveAt j).isEliminated = false → (resolver.moveAt j).source ≠ loc) :
    Resolved wide original temps before (resolver.freeScratchLocations loc) stack index ∧
      Quiet (resolver.freeScratchLocations loc) := by
  rcases scratches with none | one
  · rw [freeScratchLocations_of_nil resolver none]
    exact ⟨resolved, empty, none⟩
  · have singleSource := Location.isSingleSource_of_isSingle single
    have unblocked : resolver.isBlockedByMoves loc = false :=
      (resolved.carries.isBlockedByMoves_eq_false_iff singleSource).mpr
        ⟨fun move member => absurd (empty ▸ member) List.not_mem_nil, unread⟩
    rw [freeScratchLocations_of_singleton resolver one
      ((Location.overlapsWith_iff_of_isSingleSource singleSource singleSource).mpr rfl) unblocked]
    have taken : loc ∈ resolver.scratches := by
      rw [one]
      exact List.mem_singleton_self loc
    -- a scratch location taken is a register VIXL gave
    have register : (∃ reg, loc = .register reg) ∨ ∃ reg, loc = .fpuRegister reg := by
      rcases mem_locations.mp (resolved.sound.scratch_temp loc taken) with ⟨reg, _, same⟩ | ⟨reg, _, same⟩
      · exact .inl ⟨reg, same⟩
      · exact .inr ⟨reg, same⟩
    have given : ScratchesSound original temps (resolver.freeScratchLocation loc) :=
      resolved.sound.give taken unread (fun move member => absurd (empty ▸ member) List.not_mem_nil)
      rfl rfl rfl (resolver.locations_freeScratchLocation register
        fun available => resolved.sound.available_free loc available taken)
    refine ⟨{ resolved with carries := resolved.carries.congr rfl rfl, sound := given }, empty, ?_⟩
    rw [scratches_freeScratchLocation, one, List.erase_cons_head]

end Resolved

namespace Resolving

include singles distinct reserved in
/-- The bottom frame of an open cycle reads the destination of the pending move:
once it is emitted nothing reads that destination, the pending move is performed,
its scratch location is freed, and no cycle is open. -/
theorem close (resolving : Resolving wide original temps before resolver [] index)
    (notConstant : (before.moveAt index).source.isConstant = false) {pending : MoveOperands}
    (cycle : OpenCycle original resolver [index] pending) (fuel : Nat) :
    ∃ after, drainPendingMoves index (resolver.moveAt index).source (fuel + 2)
        ((resolver.emitAs index (resolver.moveAt index).source (original.getD index default).destination).updateMoveSource
          (resolver.moveAt index).source (original.getD index default).destination) = some after ∧
      Performed wide original temps before after [] index := by
  have inMoves : index < resolver.moves.length := resolving.carries.length_eq ▸ resolving.index_lt
  have sourceValid := MoveOperands.isEliminated_eq_false_iff.mp resolving.left
  have sourceSingle := resolving.carries.source_single index resolving.index_lt resolving.left
  -- the move is the bottom frame: it reads the destination of the pending move
  obtain ⟨bottom, isBottom, bottomReads⟩ := cycle.bottom_reads
  obtain rfl : bottom = index := by simpa using isBottom.symm
  set next := (resolver.emitAs bottom (resolver.moveAt bottom).source (original.getD bottom default).destination).updateMoveSource
    (resolver.moveAt bottom).source (original.getD bottom default).destination
  have emitted : Resolved wide original temps before next [] bottom :=
    resolving.emit singles distinct reserved notConstant (resolving.unblocked_of_open singles distinct cycle)
  have moved : MovedInto resolver next bottom (resolver.moveAt bottom).source (original.getD bottom default).destination :=
    movedInto_emitAs_updateMoveSource inMoves sourceValid _ _ _
  have unread : ∀ j < original.length, (next.moveAt j).isEliminated = false →
      (next.moveAt j).source ≠ pending.destination := fun j _ _ => by
    rw [← bottomReads]
    exact moved.source_ne sourceValid (Ne.symm resolving.self_unread) j
  obtain ⟨pendingSingle, _⟩ := resolving.carries.pending pending cycle.mem
  have pendingSource := Location.isSingleSource_of_isSingle pendingSingle
  have destinationSource : pending.destination.isSingleSource wide = true := bottomReads ▸ sourceSingle
  have unblocked := (emitted.carries.isBlockedByMoves_eq_false_iff destinationSource).mpr
    ⟨fun move member => by
      rw [pendingMoves_updateMoveSource, pendingMoves_emitAs, cycle.pendingMoves_eq, List.mem_singleton] at member
      rw [member]
      exact cycle.scratch_ne_destination, unread⟩
  have found : next.getUnblockedPendingMove (resolver.moveAt bottom).source = some pending :=
    getUnblockedPendingMove_of_unblocked (by exact cycle.pendingMoves_eq)
    ((Location.overlapsWith_iff_of_isSingleSource destinationSource sourceSingle).mpr bottomReads.symm) unblocked
  -- the pending move performed: the moves reading the scratch location read its destination
  have closed := emitted.performPending singles distinct reserved notConstant resolving.index_lt
    cycle.pendingMoves_eq unread
  have empty : (((next.deletePendingMove pending).emitAs bottom pending.source pending.destination).updateMoveSource
      pending.source pending.destination).pendingMoves = [] := by
    simp [next, cycle.pendingMoves_eq]
  have performed := closed.freeScratch empty cycle.scratches_eq pendingSingle fun j _ _ =>
    source_updateMoveSource_ne _ j (Location.ne_noLocation_of_isSingleSource pendingSource) cycle.scratch_ne_destination
  refine ⟨_, ?_, performed.1, .inl performed.2⟩
  rw [drainPendingMoves_of_some found]
  exact drainPendingMoves_of_none (getUnblockedPendingMove_of_nil performed.2.pendingMoves_eq _)

include singles distinct reserved in
/-- The end of `PerformMove(index)`: with no cycle open the move is emitted, or breaks
the cycle when it is still blocked; with one open it is emitted, and closes the cycle
when it is the bottom frame or leaves it open below. -/
theorem finish (resolving : Resolving wide original temps before resolver stack index)
    (notConstant : (before.moveAt index).source.isConstant = false)
    (tempsCore : temps.core ≠ []) (tempsFpu : temps.fpu ≠ []) (fuel : Nat) :
    ∃ after, (resolver.breakCycleOrEmit index (original.getD index default).destination
        (resolver.moveAt index).source >>= fun resolved =>
          drainPendingMoves index (resolver.moveAt index).source (fuel + 2) resolved) = some after ∧
      Performed wide original temps before after stack index := by
  have inMoves : index < resolver.moves.length := resolving.carries.length_eq ▸ resolving.index_lt
  have sourceValid := MoveOperands.isEliminated_eq_false_iff.mp resolving.left
  rcases resolving.phase with quiet | ⟨pending, cycle⟩
  · cases blocked : resolver.isBlockedByMoves (original.getD index default).destination
    case false =>
      -- nothing reads the destination: the move is emitted into it
      refine ⟨_, ?_, resolving.emit singles distinct reserved notConstant blocked,
        .inl ⟨quiet.pendingMoves_eq, quiet.scratches_eq⟩⟩
      rw [breakCycleOrEmit_of_unblocked blocked, Option.bind_eq_bind, Option.bind_some]
      exact drainPendingMoves_of_none (getUnblockedPendingMove_of_nil (by exact quiet.pendingMoves_eq) _)
    case true =>
      exact resolving.breakCycle singles distinct reserved notConstant quiet tempsCore tempsFpu blocked (fuel + 1)
  · have unblocked := resolving.unblocked_of_open singles distinct cycle
    rw [breakCycleOrEmit_of_unblocked unblocked, Option.bind_eq_bind, Option.bind_some]
    cases stack with
    | nil => exact resolving.close singles distinct reserved notConstant cycle fuel
    | cons parent rest =>
      -- a frame above the bottom one: the cycle stays open below
      have sourceEq : (resolver.moveAt index).source = (original.getD parent default).destination :=
        resolving.linked.1
      have parentLeft := resolving.frames.mem parent List.mem_cons_self
      have pendingApart : pending.destination ≠ (resolver.moveAt index).source := by
        rw [sourceEq]
        exact resolving.carries.pending_destination_ne distinct cycle.mem parentLeft.1 parentLeft.2
      have moved := movedInto_emitAs_updateMoveSource inMoves sourceValid (resolver.moveAt index).source
        (original.getD index default).destination (original.getD index default).destination
      have below : OpenCycle original ((resolver.emitAs index (resolver.moveAt index).source
          (original.getD index default).destination).updateMoveSource (resolver.moveAt index).source
          (original.getD index default).destination) (parent :: rest) pending := by
        refine (cycle.pop (List.cons_ne_nil _ _)).congr rfl rfl fun bottom isBottom reads => ?_
        have different : bottom ≠ index := fun same =>
          resolving.not_mem (same ▸ List.mem_of_getLast? isBottom)
        rw [moved.moveAt_of_ne different (by rw [reads]; exact pendingApart)]
        exact reads
      have single := (resolving.carries.pending pending cycle.mem).2
      have apart : pending.destination.overlapsWith (resolver.moveAt index).source = false := by
        obtain ⟨finishing, finishingInBounds, _, destinationEq, _⟩ := single
        have destinationSource : pending.destination.isSingleSource wide = true :=
          destinationEq ▸ Location.isSingleSource_of_isSingle
            (MoveOperands.destination_of_isSingle (getD_isSingle singles finishingInBounds))
        rw [Bool.eq_false_iff]
        intro overlaps
        exact pendingApart ((Location.overlapsWith_iff_of_isSingleSource destinationSource
          (resolving.carries.source_single index resolving.index_lt resolving.left)).mp overlaps)
      refine ⟨_, drainPendingMoves_of_none (getUnblockedPendingMove_of_apart below.pendingMoves_eq apart),
        resolving.emit singles distinct reserved notConstant unblocked,
        .inr ⟨pending, below, fun above member j _ => ?_⟩⟩
      obtain rfl : parent = above := by simpa using member
      rw [← sourceEq]
      exact moved.source_ne sourceValid (Ne.symm resolving.self_unread) j

end Resolving

end Resolve

/-! ## `PerformMove` -/

section Perform

variable {wide : Bool} {original : List MoveOperands} {temps : ScratchRegisters}
  {resolver : ParallelMoveResolverNoSwap} {stack : List Nat} {index : Nat}

variable (singles : ∀ move ∈ original, move.isSingle wide = true)
  (distinct : (original.map MoveOperands.destination).Nodup)
  (reserved : ∀ move ∈ original, move.source ∉ temps.locations ∧ move.destination ∉ temps.locations)
  (tempsCore : temps.core ≠ []) (tempsFpu : temps.fpu ≠ [])

include singles distinct in
theorem Ready.redundant (ready : Ready wide original temps resolver stack index)
    (redundant : (resolver.moveAt index).isRedundant = true) :
    Performed wide original temps resolver (resolver.lift (·.eliminate index)) stack index := by
  have inMoves : index < resolver.moves.length := ready.carries.length_eq ▸ ready.index_lt
  have sourceValid := MoveOperands.isEliminated_eq_false_iff.mp ready.left
  have hasDestination : (resolver.moveAt index).destination ≠ .noLocation := by
    rw [ready.destination_eq]
    exact Location.ne_noLocation_of_isSingleSource (Location.isSingleSource_of_isSingle
      (MoveOperands.destination_of_isSingle (getD_isSingle singles ready.index_lt)))
  have self : (resolver.moveAt index).source = (original.getD index default).destination :=
    ((MoveOperands.isRedundant_eq_true_iff ready.left hasDestination).mp redundant).trans ready.destination_eq
  have moved := movedInto_lift_eliminate inMoves (resolver.moveAt index).source
  have apart : ∀ f ∈ stack, (resolver.moveAt index).source ≠ (original.getD f default).destination := by
    intro f member same
    rw [self] at same
    apply ready.not_mem
    rw [destination_injective distinct ready.index_lt (ready.frames.mem f member).1 same]
    exact member
  have linked : Linked original (resolver.lift (·.eliminate index)).toParallelMoveResolver stack :=
    ready.linked.tail.congr fun child member => by
      have different : child ≠ index := fun same => ready.not_mem (same ▸ List.mem_of_mem_dropLast member)
      have unchanged : (resolver.lift (·.eliminate index)).moveAt child = resolver.moveAt child :=
        moveAt_setMove_of_ne different
      rw [unchanged]
  refine ⟨⟨moved.advanced sourceValid sourceValid ready.not_constant ready.not_constant apart ready.not_mem
    ready.frames linked ready.not_constant (fun _ eliminated => eliminated) (fun _ _ _ _ reads => reads)
    (fun _ _ => rfl) (fun _ constant => constant),
    ready.carries.eliminate_self ready.index_lt ready.left self,
    ready.sound.setMove inMoves fun stillLeft => by simp at stillLeft⟩,
    .inl ⟨ready.quiet.pendingMoves_eq, ready.quiet.scratches_eq⟩⟩

include singles distinct reserved tempsCore tempsFpu in
/-- `PerformMove` with enough fuel for the moves not yet pending performs the move:
it returns, and leaves what it must. The fuel falls by one for each frame, and the
bottom frame needs two more for the pending move it may perform. -/
theorem performMove_spec : ∀ fuel, PerformSpec wide original temps (performMove fuel) fuel
  | 0 => by
    intro ready room
    have shorter := ready.frames.length_lt ready.index_lt ready.not_mem
    omega
  | fuel + 1 => by
    intro ready room
    rename_i resolver stack index
    have inner : PerformSpec wide original temps (performMove fuel) fuel := @performMove_spec fuel
    have shorter := ready.frames.length_lt ready.index_lt ready.not_mem
    cases redundant : (resolver.moveAt index).isRedundant
    case true => exact ⟨_, performMove_of_redundant redundant, ready.redundant singles distinct redundant⟩
    case false =>
      -- the dependency loop, then the end of the move
      obtain ⟨rest, rfl⟩ : ∃ rest, fuel = rest + 2 := ⟨fuel - 2, by omega⟩
      rw [performMove_of_needed redundant, ready.destination_eq, ready.carries.length_eq]
      exact Foundation.exists_foldlM_range_bind_eq_some
        (fun position scanned => Scanning wide original temps resolver scanned stack index position)
        original.length _ (ready.scanning singles redundant)
        (fun _ inBounds _ scanning => scanning.next singles inner (by omega) inBounds)
        fun _ scanning => (scanning.resolving singles ready.not_constant).finish singles distinct reserved
          ready.not_constant tempsCore tempsFpu rest

end Perform

/-! ## `EmitNativeCode` -/

section Loops

variable (wide original temps) in
/-- Between the loops of `EmitNativeCode` no move is pending and no cycle is open. -/
structure Settled (resolver : ParallelMoveResolverNoSwap) : Prop where
  carries : Carries wide original temps resolver
  sound : ScratchesSound original temps resolver
  quiet : Quiet resolver
  frames : Frames original resolver.toParallelMoveResolver []

variable (wide original temps) in
/-- After the first loop, besides, no move left reads the destination of a move
left: the last two loops emit the moves left in any order. -/
structure Independent (resolver : ParallelMoveResolverNoSwap) : Prop extends Settled wide original temps resolver where
  apart : ∀ j < original.length, ∀ k < original.length, (resolver.moveAt j).isEliminated = false →
    (resolver.moveAt k).isEliminated = false → (resolver.moveAt j).source ≠ (original.getD k default).destination

variable {wide : Bool} {original : List MoveOperands} {temps : ScratchRegisters}
  {resolver after : ParallelMoveResolverNoSwap} {index : Nat}

theorem Settled.destination_eq (settled : Settled wide original temps resolver)
    (left : (resolver.moveAt index).isEliminated = false) :
    (resolver.moveAt index).destination = (original.getD index default).destination :=
  (settled.carries.destination_eq index (settled.carries.lt_of_left left) left).resolve_right fun cleared =>
    List.not_mem_nil ((settled.frames.pending_iff index (settled.carries.lt_of_left left) left).mp cleared)

theorem Settled.ready (settled : Settled wide original temps resolver)
    (left : (resolver.moveAt index).isEliminated = false)
    (notConstant : (resolver.moveAt index).source.isConstant = false) :
    Ready wide original temps resolver [] index :=
  ⟨settled.carries, settled.sound, settled.quiet, settled.frames, trivial, settled.carries.lt_of_left left, left,
    List.not_mem_nil, notConstant⟩

/-- A move performed from the bottom of the traversal leaves no cycle open: an open
cycle needs a frame below to read the destination of its pending move. -/
theorem Settled.of_performed (performed : Performed wide original temps resolver after [] index) :
    Settled wide original temps after := by
  refine ⟨performed.carries, performed.sound, ?_, performed.frames⟩
  rcases performed.phase with quiet | ⟨_, cycle, _⟩
  · exact quiet
  · obtain ⟨_, isBottom, _⟩ := cycle.bottom_reads
    exact absurd isBottom (by simp)

/-- Moving the move at `index` into a valid location that is the destination of no
move left keeps the moves left independent. -/
theorem Independent.of_movedInto (independent : Independent wide original temps resolver)
    (carries : Carries wide original temps after) (sound : ScratchesSound original temps after) (quiet : Quiet after)
    {source target : Location} (moved : MovedInto resolver after index source target) (valid : source ≠ .noLocation)
    (targetValid : target ≠ .noLocation)
    (targetApart : ∀ k < original.length, (after.moveAt k).isEliminated = false →
      target ≠ (original.getD k default).destination) :
    Independent wide original temps after := by
  have notIndex : ∀ j, (after.moveAt j).isEliminated = false → j ≠ index := by
    rintro j left rfl
    rw [moved.isEliminated_self] at left
    exact Bool.noConfusion left
  have wasLeft : ∀ j, (after.moveAt j).isEliminated = false → (resolver.moveAt j).isEliminated = false :=
    fun j left => by rw [← moved.isEliminated_of_ne valid targetValid (notIndex j left)]; exact left
  refine ⟨⟨carries, sound, quiet, frames_congr independent.frames
    (fun j left => ⟨wasLeft j left, moved.destination_of_ne (notIndex j left)⟩)
    fun _ member => absurd member List.not_mem_nil⟩, fun j jInBounds k kInBounds jLeft kLeft reads => ?_⟩
  by_cases redirected : (resolver.moveAt j).source = source
  · rw [moved.moveAt_of_reads (notIndex j jLeft) redirected] at reads
    exact targetApart k kInBounds kLeft reads
  · rw [moved.moveAt_of_ne (notIndex j jLeft) redirected] at reads
    exact independent.apart j jInBounds k kInBounds (wasLeft j jLeft) (wasLeft k kLeft) reads

variable (singles : ∀ move ∈ original, move.isSingle wide = true)
  (distinct : (original.map MoveOperands.destination).Nodup)
  (reserved : ∀ move ∈ original, move.source ∉ temps.locations ∧ move.destination ∉ temps.locations)
  (tempsCore : temps.core ≠ []) (tempsFpu : temps.fpu ≠ [])

include singles distinct in
theorem Independent.emitOwn (independent : Independent wide original temps resolver)
    (left : (resolver.moveAt index).isEliminated = false) :
    Carries wide original temps
      (resolver.emitAs index (resolver.moveAt index).source (original.getD index default).destination) := by
  have inBounds := independent.carries.lt_of_left left
  exact independent.carries.emitOwn singles distinct inBounds left
    (fun j jInBounds _ jLeft => independent.apart j jInBounds index inBounds jLeft left)
    fun pending member => absurd (independent.quiet.pendingMoves_eq ▸ member) List.not_mem_nil

include singles distinct reserved tempsCore tempsFpu in
theorem performNonConstantMove_settled {fuel : Nat} (enough : original.length + 2 ≤ fuel)
    (settled : Settled wide original temps resolver) (index : Nat) :
    ∃ after, performNonConstantMove fuel resolver index = some after ∧ Settled wide original temps after ∧
      ((after.moveAt index).isEliminated = true ∨ (after.moveAt index).source.isConstant = true) ∧
      (∀ j, (resolver.moveAt j).isEliminated = true → (after.moveAt j).isEliminated = true) ∧
      (∀ j, (resolver.moveAt j).source.isConstant = true → after.moveAt j = resolver.moveAt j) := by
  unfold performNonConstantMove
  dsimp only
  split
  · rename_i performing
    rw [Bool.and_eq_true, Bool.not_eq_true', Bool.not_eq_true'] at performing
    obtain ⟨performedResolver, performed, post⟩ := performMove_spec singles distinct reserved tempsCore tempsFpu fuel
      (settled.ready performing.1 performing.2) (by simpa using enough)
    exact ⟨performedResolver, performed, Settled.of_performed post, Or.inl post.eliminated, post.stays_eliminated,
      post.constants⟩
  · rename_i skipped
    refine ⟨resolver, rfl, settled, ?_, fun _ eliminated => eliminated, fun _ _ => rfl⟩
    cases eliminated : (resolver.moveAt index).isEliminated
    · cases constant : (resolver.moveAt index).source.isConstant
      · simp [eliminated, constant] at skipped
      · exact Or.inr rfl
    · exact Or.inl rfl

include singles distinct reserved in
/-- The second loop: a move left into a register is emitted, and the moves reading
its constant read the register instead. -/
theorem emitConstantToRegister_independent (independent : Independent wide original temps resolver) (index : Nat) :
    Independent wide original temps (emitConstantToRegister resolver index) := by
  unfold emitConstantToRegister
  dsimp only
  split
  · rename_i emitting
    simp only [Bool.and_eq_true, Bool.not_eq_true'] at emitting
    have left := emitting.1.1
    have inBounds := independent.carries.lt_of_left left
    have inMoves : index < resolver.moves.length := independent.carries.length_eq ▸ inBounds
    have sourceValid := MoveOperands.isEliminated_eq_false_iff.mp left
    have sourceSingle := independent.carries.source_single index inBounds left
    have destinationSingle := MoveOperands.destination_of_isSingle (getD_isSingle singles inBounds)
    have destinationValid :=
      Location.ne_noLocation_of_isSingleSource (Location.isSingleSource_of_isSingle destinationSingle)
    rw [independent.destination_eq left]
    have moved := movedInto_emitAs_updateMoveSource inMoves sourceValid (resolver.moveAt index).source
      (original.getD index default).destination (original.getD index default).destination
    refine independent.of_movedInto ?_ ?_ ⟨independent.quiet.pendingMoves_eq, independent.quiet.scratches_eq⟩ moved
      sourceValid destinationValid fun k kInBounds kLeft same => ?_
    · refine (independent.emitOwn singles distinct left).updateMoveSource sourceValid
        (Location.isSingleSource_of_isSingle destinationSingle) fun initial => ?_
      rw [emitted_emitAs resolver _ _ inMoves]
      exact (read_execute_move_source (independent.carries.width_eq singles inBounds) sourceSingle
        destinationSingle initial _).symm
    · exact (independent.sound.emitAs inMoves _ _).updateMoveSource sourceValid destinationValid
        fun temp => absurd temp (reserved _ (getD_mem inBounds)).2
    · -- the destination is the move's own, and the move is eliminated
      have equal := destination_injective distinct inBounds kInBounds same
      subst equal
      rw [moved.isEliminated_self] at kLeft
      exact Bool.noConfusion kLeft
  · exact independent

include singles distinct in
theorem emitRemainingMove_independent (independent : Independent wide original temps resolver) (index : Nat) :
    Independent wide original temps (emitRemainingMove resolver index) ∧
      ((emitRemainingMove resolver index).moveAt index).isEliminated = true ∧
      ∀ j, (resolver.moveAt j).isEliminated = true → ((emitRemainingMove resolver index).moveAt j).isEliminated = true := by
  unfold emitRemainingMove
  dsimp only
  split
  · rename_i emitting
    rw [Bool.not_eq_true'] at emitting
    have inBounds := independent.carries.lt_of_left emitting
    have inMoves : index < resolver.moves.length := independent.carries.length_eq ▸ inBounds
    have sourceValid := MoveOperands.isEliminated_eq_false_iff.mp emitting
    rw [independent.destination_eq emitting]
    -- no move is redirected: the move is moved into its own source
    have moved : MovedInto resolver (resolver.emitAs index (resolver.moveAt index).source
        (original.getD index default).destination) index (resolver.moveAt index).source
        (resolver.moveAt index).source :=
      movedInto_of_eliminated (moveAt_emitAs_self resolver _ _ inMoves)
        (fun _ different => moveAt_emitAs_of_ne resolver _ _ different) _
    refine ⟨independent.of_movedInto (independent.emitOwn singles distinct emitting) (independent.sound.emitAs inMoves _ _)
      ⟨independent.quiet.pendingMoves_eq, independent.quiet.scratches_eq⟩ moved sourceValid sourceValid
      fun k kInBounds kLeft => independent.apart index inBounds k kInBounds emitting ?_, moved.isEliminated_self,
      fun j eliminated => ?_⟩
    · have different : k ≠ index := by
        rintro rfl
        rw [moved.isEliminated_self] at kLeft
        exact Bool.noConfusion kLeft
      rw [← moved.isEliminated_of_ne sourceValid sourceValid different]
      exact kLeft
    · by_cases same : j = index
      · subst same
        exact moved.isEliminated_self
      · rw [moved.isEliminated_of_ne sourceValid sourceValid same]
        exact eliminated
  · rename_i skipped
    rw [Bool.not_eq_true', Bool.not_eq_false] at skipped
    exact ⟨independent, skipped, fun _ eliminated => eliminated⟩

include singles in
/-- Once every move is eliminated with none pending, the code has performed the
parallel move, with VIXL's scratch registers free to change. -/
theorem Carries.performs (carries : Carries wide original temps resolver) (empty : resolver.pendingMoves = [])
    (allDone : ∀ i < original.length, (resolver.moveAt i).isEliminated = true) (initial : Store) :
    SimultaneousAssignment original temps.cells initial (execute initial resolver.emitted) := by
  refine ⟨fun move member _ => ?_, fun cell outside notScratch => ?_⟩
  · obtain ⟨i, inBounds, rfl⟩ := List.getElem_of_mem member
    have single := getD_isSingle singles inBounds
    rw [List.getD_eq_getElem _ _ inBounds] at single
    rcases carries.done i inBounds (allDone i inBounds) with ⟨_, pending, _⟩ | done
    · exact absurd (empty ▸ pending) List.not_mem_nil
    · have value := done initial
      rw [List.getD_eq_getElem _ _ inBounds] at value
      rw [MoveOperands.is64BitMove, MoveOperands.is64BitType_of_isSingle single]
      exact value
  · refine execute_of_not_mem_writes (fun instruction member written => ?_) initial
    rcases carries.writes instruction member cell written with ⟨move, original, inDestination⟩ | temp
    · exact outside move original inDestination
    · exact notScratch temp

include singles reserved in
/-- The worklist `BuildInitialMoveList` starts from, before any code, with every
scratch register of VIXL free. -/
theorem settled_start (available : temps.locations.Nodup) :
    Settled wide original temps
      { moves := original, emitted := [], pendingMoves := [], scratches := [], vixlTemps := temps } := by
  have left : ∀ i < original.length, (original.getD i default).isEliminated = false := fun i inBounds =>
    MoveOperands.isEliminated_eq_false_iff.mpr (Location.ne_noLocation_of_isSingleSource
      (MoveOperands.source_of_isSingle (getD_isSingle singles inBounds)))
  refine ⟨⟨rfl, fun _ => rfl, fun i inBounds _ => MoveOperands.source_of_isSingle (getD_isSingle singles inBounds),
    fun _ _ _ => .inl rfl, fun i eliminated => ?_, fun _ _ _ _ => rfl, fun _ member => absurd member List.not_mem_nil,
    fun i inBounds eliminated => absurd (eliminated.symm.trans (left i inBounds)) Bool.noConfusion,
    fun _ member => absurd member List.not_mem_nil⟩,
    ⟨List.nodup_nil, available, fun _ member => absurd member List.not_mem_nil, fun _ member => member,
      fun _ _ => List.not_mem_nil, fun _ temp => .inl temp,
      fun i inBounds _ temp => absurd temp (reserved _ (getD_mem inBounds)).1,
      fun _ member => absurd member List.not_mem_nil⟩,
    ⟨rfl, rfl⟩, ⟨List.nodup_nil, fun _ member => absurd member List.not_mem_nil, fun i inBounds _ => ?_⟩⟩
  · by_cases inBounds : i < original.length
    · exact absurd (eliminated.symm.trans (left i inBounds)) Bool.noConfusion
    · exact congrArg MoveOperands.destination (List.getD_eq_default _ _ (Nat.not_lt.mp inBounds))
  · exact iff_of_false (Location.ne_noLocation_of_isSingleSource (Location.isSingleSource_of_isSingle
      (MoveOperands.destination_of_isSingle (getD_isSingle singles inBounds)))) List.not_mem_nil

include singles distinct reserved tempsCore tempsFpu in
/-- The three loops of `EmitNativeCode` return with no move pending, and the code
they emit performs the moves of the worklist. After the first loop every move left
reads a constant, so the last two emit them in any order. -/
theorem loops_perform {fuel : Nat} (enough : original.length + 2 ≤ fuel) (available : temps.locations.Nodup) :
    ∃ result, ((List.range original.length).foldlM (performNonConstantMove fuel)
        { moves := original, emitted := [], pendingMoves := [], scratches := [], vixlTemps := temps } >>=
          fun performed => some ((List.range original.length).foldl emitRemainingMove
            ((List.range original.length).foldl emitConstantToRegister performed))) = some result ∧
      result.pendingMoves = [] ∧
      ∀ initial, SimultaneousAssignment original temps.cells initial (execute initial result.emitted) := by
  refine Foundation.exists_foldlM_range_bind_eq_some
    (fun position state => Settled wide original temps state ∧
      ∀ j < position, (state.moveAt j).isEliminated = true ∨ (state.moveAt j).source.isConstant = true)
    original.length _ ⟨settled_start singles reserved available, fun _ bound => absurd bound (Nat.not_lt_zero _)⟩
    (fun position _ state holds => ?_) fun performed holds => ?_
  · obtain ⟨settled, done⟩ := holds
    obtain ⟨next, stepped, nextSettled, itemDone, staysEliminated, constantsStay⟩ :=
      performNonConstantMove_settled singles distinct reserved tempsCore tempsFpu enough settled position
    refine ⟨next, stepped, nextSettled, fun j bound => ?_⟩
    rcases Nat.lt_succ_iff_lt_or_eq.mp bound with earlier | rfl
    · rcases done j earlier with eliminated | constant
      · exact .inl (staysEliminated j eliminated)
      · rw [constantsStay j constant]
        exact .inr constant
    · exact itemDone
  · obtain ⟨settled, done⟩ := holds
    -- every move left reads a constant, and no destination is one
    have independent : Independent wide original temps performed := by
      refine ⟨settled, fun j jInBounds k kInBounds jLeft _ reads => ?_⟩
      have constant := (done j jInBounds).resolve_left (by rw [jLeft]; exact Bool.false_ne_true)
      rw [reads, Location.isConstant_eq_false_of_isSingle
        (MoveOperands.destination_of_isSingle (getD_isSingle singles kInBounds))] at constant
      exact Bool.noConfusion constant
    have constants := Foundation.foldl_invariant (fun _ state => Independent wide original temps state)
      (fun _ item _ holds => emitConstantToRegister_independent singles distinct reserved holds item)
      (List.range original.length) [] performed independent
    have finished := Foundation.foldl_invariant (fun done state => Independent wide original temps state ∧
        ∀ j ∈ done, (state.moveAt j).isEliminated = true)
      (fun done item _ holds => by
        obtain ⟨next, itemEliminated, staysEliminated⟩ := emitRemainingMove_independent singles distinct holds.1 item
        refine ⟨next, fun j member => ?_⟩
        rcases List.mem_append.mp member with old | new
        · exact staysEliminated j (holds.2 j old)
        · rw [List.mem_singleton.mp new]
          exact itemEliminated)
      (List.range original.length) [] _ ⟨constants, by simp⟩
    exact ⟨_, rfl, finished.1.quiet.pendingMoves_eq, finished.1.carries.performs singles
      finished.1.quiet.pendingMoves_eq fun i inBounds => finished.2 i (by simpa using inBounds)⟩

end Loops

/-- `ParallelMoveResolverNoSwap::EmitNativeCode`, with the scratch locations of
`ParallelMoveResolverARM64`, performs every parallel move of single cells that
keeps off VIXL's scratch registers: when every move carries a value of one width
from a register, a 32-bit stack slot or a constant to a register or a 32-bit stack
slot, no two moves share a destination, and VIXL has a core and a floating-point
register to give, it returns with no move pending, with fuel two more than the
number of moves, and on every store its code leaves in each destination the value
its source had before and changes no cell but the destinations and VIXL's registers. -/
theorem emitNativeCode_performs_parallel_move_through_scratches {wide : Bool} {parallelMove : List MoveOperands}
    {vixlTemps : ScratchRegisters} (singles : ∀ move ∈ parallelMove, move.isSingle wide = true)
    (distinct : (parallelMove.map MoveOperands.destination).Nodup)
    (reserved : ∀ move ∈ parallelMove, move.source ∉ vixlTemps.locations ∧ move.destination ∉ vixlTemps.locations)
    (coreNodup : vixlTemps.core.Nodup) (fpuNodup : vixlTemps.fpu.Nodup) (tempsCore : vixlTemps.core ≠ [])
    (tempsFpu : vixlTemps.fpu ≠ []) {fuel : Nat} (enough : parallelMove.length + 2 ≤ fuel) :
    ∃ resolver, emitNativeCode vixlTemps fuel parallelMove = some resolver ∧ resolver.pendingMoves = [] ∧
      ∀ initial, SimultaneousAssignment parallelMove vixlTemps.cells initial (execute initial resolver.emitted) := by
  have sublist : (buildInitialMoveList parallelMove).Sublist parallelMove := List.filter_sublist
  have shorter : (buildInitialMoveList parallelMove).length ≤ parallelMove.length := sublist.length_le
  obtain ⟨resolver, run, empty, performs⟩ :=
    loops_perform (fun move member => singles move (sublist.subset member)) ((sublist.map _).nodup distinct)
      (fun move member => reserved move (sublist.subset member)) tempsCore tempsFpu
      (show (buildInitialMoveList parallelMove).length + 2 ≤ fuel by omega) (locations_nodup coreNodup fpuNodup)
  -- no destination is a scratch register
  have apart : ∀ move ∈ parallelMove, ∀ cell ∈ move.destination.cells, cell ∉ vixlTemps.cells :=
    fun move member cell inDestination temp => (reserved move member).2
      (mem_locations_of_mem_cells (MoveOperands.destination_of_isSingle (singles move member)) inDestination temp)
  exact ⟨resolver, run, empty, fun initial =>
    simultaneousAssignment_of_buildInitialMoveList singles distinct apart (performs initial)⟩

/-- Three core registers rotated, two floating-point registers swapped and a constant
put in a stack slot, all 32-bit: both cycles go through a register of VIXL. -/
def rotationsThroughScratches : List MoveOperands :=
  [⟨.register 0, .register 1, .kInt32⟩, ⟨.register 1, .register 2, .kInt32⟩, ⟨.register 2, .register 0, .kInt32⟩,
    ⟨.fpuRegister 0, .fpuRegister 1, .kFloat32⟩, ⟨.fpuRegister 1, .fpuRegister 0, .kFloat32⟩,
    ⟨.constant 5, .stackSlot 8, .kInt32⟩]

theorem emitNativeCode_performs_parallel_move_through_scratches_rotations :
    (∀ move ∈ rotationsThroughScratches, move.isSingle false = true) ∧
      (rotationsThroughScratches.map MoveOperands.destination).Nodup ∧
      (∀ move ∈ rotationsThroughScratches, move.source ∉ vixlScratchRegisters.locations ∧
        move.destination ∉ vixlScratchRegisters.locations) ∧
      vixlScratchRegisters.core.Nodup ∧ vixlScratchRegisters.fpu.Nodup ∧ vixlScratchRegisters.core ≠ [] ∧
      vixlScratchRegisters.fpu ≠ [] ∧ rotationsThroughScratches.length + 2 ≤ 8 ∧
      ∃ resolver, emitNativeCode vixlScratchRegisters 8 rotationsThroughScratches = some resolver ∧
        resolver.pendingMoves = [] ∧ ∀ initial, SimultaneousAssignment rotationsThroughScratches
          vixlScratchRegisters.cells initial (execute initial resolver.emitted) := by
  have singles : ∀ move ∈ rotationsThroughScratches, move.isSingle false = true := by decide
  have distinct : (rotationsThroughScratches.map MoveOperands.destination).Nodup := by decide
  have reserved : ∀ move ∈ rotationsThroughScratches, move.source ∉ vixlScratchRegisters.locations ∧
      move.destination ∉ vixlScratchRegisters.locations := by decide
  have coreNodup : vixlScratchRegisters.core.Nodup := by decide
  have fpuNodup : vixlScratchRegisters.fpu.Nodup := by decide
  have tempsCore : vixlScratchRegisters.core ≠ [] := by decide
  have tempsFpu : vixlScratchRegisters.fpu ≠ [] := by decide
  have enough : rotationsThroughScratches.length + 2 ≤ 8 := by decide
  exact ⟨singles, distinct, reserved, coreNodup, fpuNodup, tempsCore, tempsFpu, enough,
    emitNativeCode_performs_parallel_move_through_scratches singles distinct reserved coreNodup fpuNodup tempsCore
      tempsFpu enough⟩

end ParallelMoveResolverNoSwap

end ArtRuntime.Compiler
