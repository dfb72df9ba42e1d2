import Mathlib
import ArtRuntime.Compiler.ParallelMoveResolverWithSwap

/-! # The parallel move resolver without swaps, on ARM64

`ParallelMoveResolverNoSwap` of `compiler/optimizing/parallel_move_resolver.cc`
with the scratch locations of `ParallelMoveResolverARM64`, its only user. A
move still blocked once the moves reading its destination are performed is in
a cycle: its source goes to a scratch location, and the move from the scratch
location to its destination waits in `pending_moves_`. A pending move is
performed once a performed move's source overlaps its destination and nothing
reads that destination any more. After every move, `UpdateMoveSource` makes the
moves that read its source read its destination.

A scratch location is a location of the kind asked for that no move reads:
first one of `scratches_`, then the destination of any move, and only then a
scratch register of VIXL, which `FreeScratchLocation` gives back.
-/

namespace ArtRuntime.Compiler

/-- The scratch registers VIXL can still hand out, by register code. -/
structure ScratchRegisters where
  core : List Nat
  fpu : List Nat
  deriving DecidableEq, Repr

namespace ScratchRegisters

/-- `AcquireX` and `AcquireD`: the lowest register of the list. -/
def acquire (available : List Nat) : Option (Nat × List Nat) :=
  available.min?.map fun reg => (reg, available.erase reg)

/-- `Release`: the register is available again. -/
def release (available : List Nat) (reg : Nat) : List Nat :=
  if reg ∈ available then available else reg :: available

end ScratchRegisters

/-- `ParallelMoveResolverNoSwap` as `ParallelMoveResolverARM64` extends it: the
worklist and emitted code, the moves left pending by cycles, the scratch
locations taken, and the scratch registers `vixl_temps_` can still hand out. -/
structure ParallelMoveResolverNoSwap extends ParallelMoveResolver where
  pendingMoves : List MoveOperands
  scratches : List Location
  vixlTemps : ScratchRegisters
  deriving DecidableEq, Repr

namespace ParallelMoveResolverNoSwap

open ParallelMoveResolver ScratchRegisters

variable (resolver : ParallelMoveResolverNoSwap)

/-- The same change of the worklist and emitted code. -/
def lift (change : ParallelMoveResolver → ParallelMoveResolver) : ParallelMoveResolverNoSwap :=
  { resolver with toParallelMoveResolver := change resolver.toParallelMoveResolver }

/-- `IsBlockedByMoves(loc)`: a pending move or a move of the worklist reads `loc`. -/
def isBlockedByMoves (loc : Location) : Bool :=
  resolver.pendingMoves.any (·.blocks loc) || resolver.moves.any (·.blocks loc)

/-- `GetScratchLocation(kind)`. -/
def getScratchLocation (kind : Location.Kind) : Location :=
  match resolver.scratches.find? fun loc => loc.getKind == kind && !resolver.isBlockedByMoves loc with
  | some loc => loc
  | none =>
      match resolver.moves.find? fun move =>
          move.destination.getKind == kind && !resolver.isBlockedByMoves move.destination with
      | some move => move.destination
      | none => .noLocation

/-- `AddScratchLocation(loc)`. -/
def addScratchLocation (loc : Location) : ParallelMoveResolverNoSwap :=
  { resolver with scratches := resolver.scratches ++ [loc] }

/-- `RemoveScratchLocation(loc)`. -/
def removeScratchLocation (loc : Location) : ParallelMoveResolverNoSwap :=
  { resolver with scratches := resolver.scratches.erase loc }

/-- `ParallelMoveResolverARM64::AllocateScratchLocationFor(kind)`: a core register for
core registers and stack slots, a floating-point one for floating-point registers
and SIMD stack slots; `none` when VIXL has no register left. -/
def allocateScratchLocationFor (kind : Location.Kind) : Option (Location × ParallelMoveResolverNoSwap) :=
  let kind := if kind == .kFpuRegister || kind == .kSIMDStackSlot then Location.Kind.kFpuRegister
    else Location.Kind.kRegister
  let scratch := resolver.getScratchLocation kind
  if scratch != .noLocation then some (scratch, resolver)
  else if kind == .kRegister then
    (acquire resolver.vixlTemps.core).map fun (reg, core) =>
      (.register reg, addScratchLocation { resolver with vixlTemps.core := core } (.register reg))
  else
    (acquire resolver.vixlTemps.fpu).map fun (reg, fpu) =>
      (.fpuRegister reg, addScratchLocation { resolver with vixlTemps.fpu := fpu } (.fpuRegister reg))

/-- `ParallelMoveResolverARM64::FreeScratchLocation(loc)`. -/
def freeScratchLocation (loc : Location) : ParallelMoveResolverNoSwap :=
  let vixlTemps := match loc with
    | .register reg => { resolver.vixlTemps with core := release resolver.vixlTemps.core reg }
    | .fpuRegister reg => { resolver.vixlTemps with fpu := release resolver.vixlTemps.fpu reg }
    | _ => resolver.vixlTemps
  removeScratchLocation { resolver with vixlTemps } loc

/-- `AddPendingMove(source, destination, type)`. -/
def addPendingMove (source destination : Location) (type : DataType) : ParallelMoveResolverNoSwap :=
  { resolver with pendingMoves := resolver.pendingMoves ++ [⟨source, destination, type⟩] }

/-- `DeletePendingMove(move)`. -/
def deletePendingMove (move : MoveOperands) : ParallelMoveResolverNoSwap :=
  { resolver with pendingMoves := resolver.pendingMoves.erase move }

/-- `GetUnblockedPendingMove(loc)`: a pending move writing a location that
overlaps `loc` and that nothing reads any more. -/
def getUnblockedPendingMove (loc : Location) : Option MoveOperands :=
  resolver.pendingMoves.find? fun move =>
    move.destination.overlapsWith loc && !resolver.isBlockedByMoves move.destination

/-- `UpdateMoveSource(from, to)`: the moves reading `from` read `to` instead. -/
def updateMoveSource (source destination : Location) : ParallelMoveResolverNoSwap :=
  { resolver with
    moves := resolver.moves.map fun move =>
      if move.source == source then { move with source := destination } else move }

/-- The loop over `scratches_` after a pending move from `pendingSource`, from
position `i`; `FreeScratchLocation` may shorten the list under it. -/
def freeScratchLocationsFrom (pendingSource : Location) :
    Nat → ParallelMoveResolverNoSwap → Nat → ParallelMoveResolverNoSwap
  | 0, resolver, _ => resolver
  | bound + 1, resolver, i =>
      match resolver.scratches[i]? with
      | none => resolver
      | some scratch =>
          let resolver :=
            if scratch.overlapsWith pendingSource && !resolver.isBlockedByMoves scratch then
              resolver.freeScratchLocation pendingSource
            else resolver
          freeScratchLocationsFrom pendingSource bound resolver (i + 1)

/-- The loop never runs more often than `scratches_` is long at its start. -/
def freeScratchLocations (pendingSource : Location) : ParallelMoveResolverNoSwap :=
  freeScratchLocationsFrom pendingSource resolver.scratches.length resolver 0

/-- Emit `moves_[index]` with the operands `source` and `destination`, and eliminate it. -/
def emitAs (index : Nat) (source destination : Location) : ParallelMoveResolverNoSwap :=
  resolver.lift fun base =>
    ((base.setMove index { base.moveAt index with source, destination }).emitMove index).eliminate index

/-- The middle of `PerformMove(index)`: a move still blocked is in a cycle, moves
its source to a scratch location and leaves the move from there to its
destination pending; any other move is emitted. -/
def breakCycleOrEmit (index : Nat) (destination source : Location) : Option ParallelMoveResolverNoSwap :=
  if resolver.isBlockedByMoves destination then
    let type := if (resolver.moveAt index).is64BitMove then DataType.kInt64 else DataType.kInt32
    (resolver.allocateScratchLocationFor source.getKind).map fun (scratch, resolver) =>
      ((resolver.emitAs index source scratch).updateMoveSource source scratch).addPendingMove scratch
        destination type
  else some ((resolver.emitAs index source destination).updateMoveSource source destination)

/-- The loop at the end of `PerformMove(index)`: perform the pending moves that the
move from `source` unblocked, with the operands of `moves_[index]`. -/
def drainPendingMoves (index : Nat) (source : Location) :
    Nat → ParallelMoveResolverNoSwap → Option ParallelMoveResolverNoSwap
  | 0, _ => none
  | fuel + 1, resolver =>
      match resolver.getUnblockedPendingMove source with
      | none => some resolver
      | some pendingMove =>
          let resolver := ((resolver.deletePendingMove pendingMove).emitAs index pendingMove.source
            pendingMove.destination).updateMoveSource pendingMove.source pendingMove.destination
          drainPendingMoves index source fuel (resolver.freeScratchLocations pendingMove.source)

/-- `PerformMove(index)`. -/
def performMove : Nat → ParallelMoveResolverNoSwap → Nat → Option ParallelMoveResolverNoSwap
  | 0, _, _ => none
  | fuel + 1, resolver, index =>
      let move := resolver.moveAt index
      if move.isRedundant then some (resolver.lift (·.eliminate index))
      else
        let destination := move.destination
        do
          let resolver ← (List.range resolver.moves.length).foldlM
            (fun resolver i =>
              let otherMove := resolver.moveAt i
              if otherMove.blocks destination && !otherMove.isPending then performMove fuel resolver i
              else some resolver)
            (resolver.lift (·.markPending index))
          let resolver := resolver.lift (·.clearPending index destination)
          -- the source may have changed while the moves reading the destination were performed
          let source := (resolver.moveAt index).source
          let resolver ← resolver.breakCycleOrEmit index destination source
          drainPendingMoves index source fuel resolver

/-- The first loop of `EmitNativeCode`: every move that does not read a constant. -/
def performNonConstantMove (fuel : Nat) (resolver : ParallelMoveResolverNoSwap) (i : Nat) :
    Option ParallelMoveResolverNoSwap :=
  let move := resolver.moveAt i
  if !move.isEliminated && !move.source.isConstant then performMove fuel resolver i else some resolver

/-- The second loop: constants into registers, later moves of the same constant
reading the register instead. -/
def emitConstantToRegister (resolver : ParallelMoveResolverNoSwap) (i : Nat) : ParallelMoveResolverNoSwap :=
  let move := resolver.moveAt i
  let destination := move.destination
  if !move.isEliminated && !destination.isStackSlot && !destination.isDoubleStackSlot then
    (resolver.emitAs i move.source destination).updateMoveSource move.source destination
  else resolver

/-- The last loop: the moves left, constants into stack slots. -/
def emitRemainingMove (resolver : ParallelMoveResolverNoSwap) (i : Nat) : ParallelMoveResolverNoSwap :=
  let move := resolver.moveAt i
  if !move.isEliminated then resolver.emitAs i move.source move.destination else resolver

/-- `EmitNativeCode(parallel_move)` with VIXL's scratch registers `vixlTemps`: the
resolver at the end. Its `pending_moves_` should be empty, as the last debug
check of `EmitNativeCode` asks. -/
def emitNativeCode (vixlTemps : ScratchRegisters) (fuel : Nat) (parallelMove : List MoveOperands) :
    Option ParallelMoveResolverNoSwap := do
  let moves := buildInitialMoveList parallelMove
  let indices := List.range moves.length
  let resolver ← indices.foldlM (performNonConstantMove fuel)
    { moves, emitted := [], pendingMoves := [], scratches := [], vixlTemps }
  let resolver := indices.foldl emitConstantToRegister resolver
  return indices.foldl emitRemainingMove resolver

/-! ## The code writes only destinations and scratch registers

Every location a move is emitted into is a destination of the parallel move or
a scratch location, and a scratch location is a destination of another move or
a register taken from VIXL. So the code writes nothing but the destinations and
VIXL's scratch registers: the part of a simultaneous assignment that holds.
-/

section Confined

variable {allowed : Cell → Prop}

/-- The destinations of the worklist, and the cells its emitted code writes, are `allowed`. -/
structure WritesWithin (allowed : Cell → Prop) (base : ParallelMoveResolver) : Prop where
  destinations : ∀ move ∈ base.moves, move.destination.Within allowed
  emitted : ∀ instruction ∈ base.emitted, ∀ cell ∈ instruction.writes, allowed cell

namespace WritesWithin

variable {base : ParallelMoveResolver}

theorem moveAt (within : WritesWithin allowed base) (index : Nat) :
    (base.moveAt index).destination.Within allowed :=
  moveAt_of_forall within.destinations Location.Within.noLocation index

theorem setMove (within : WritesWithin allowed base) (index : Nat) (move : MoveOperands)
    (destination : move.destination.Within allowed) : WritesWithin allowed (base.setMove index move) :=
  ⟨forall_setMove within.destinations destination index, within.emitted⟩

theorem emitMove (within : WritesWithin allowed base) (index : Nat) :
    WritesWithin allowed (base.emitMove index) := by
  refine ⟨within.destinations, fun instruction member => ?_⟩
  rcases List.mem_append.mp member with old | new
  · exact within.emitted instruction old
  · rw [List.mem_singleton.mp new]
    exact within.moveAt index

theorem eliminate (within : WritesWithin allowed base) (index : Nat) :
    WritesWithin allowed (base.eliminate index) :=
  within.setMove index (base.moveAt index).eliminate Location.Within.noLocation

end WritesWithin

/-- The invariant of the resolver: besides the worklist, the pending moves, the
scratch locations and the scratch registers left are all `allowed`. -/
structure Confined (allowed : Cell → Prop) (resolver : ParallelMoveResolverNoSwap) : Prop where
  base : WritesWithin allowed resolver.toParallelMoveResolver
  pendingMoves : ∀ move ∈ resolver.pendingMoves, move.source.Within allowed ∧ move.destination.Within allowed
  scratches : ∀ loc ∈ resolver.scratches, loc.Within allowed
  core : ∀ reg ∈ resolver.vixlTemps.core, allowed (.core reg)
  fpu : ∀ reg ∈ resolver.vixlTemps.fpu, allowed (.fpu reg)

theorem acquire_mem {available rest : List Nat} {reg : Nat} (acquired : acquire available = some (reg, rest)) :
    reg ∈ available ∧ ∀ other ∈ rest, other ∈ available := by
  obtain ⟨lowest, found, same⟩ := Option.map_eq_some_iff.mp acquired
  cases same
  exact ⟨List.min?_mem found, fun other member => List.mem_of_mem_erase member⟩

theorem mem_release {available : List Nat} {reg other : Nat} (member : other ∈ release available reg) :
    other ∈ available ∨ other = reg := by
  unfold release at member
  split at member
  · exact .inl member
  · rcases List.mem_cons.mp member with same | old
    · exact .inr same
    · exact .inl old

namespace Confined

variable {resolver : ParallelMoveResolverNoSwap}

theorem lift (confined : Confined allowed resolver) {change : ParallelMoveResolver → ParallelMoveResolver}
    (keeps : WritesWithin allowed resolver.toParallelMoveResolver →
      WritesWithin allowed (change resolver.toParallelMoveResolver)) :
    Confined allowed (resolver.lift change) :=
  ⟨keeps confined.base, confined.pendingMoves, confined.scratches, confined.core, confined.fpu⟩

theorem emitAs (confined : Confined allowed resolver) (index : Nat) (source : Location)
    {destination : Location} (within : destination.Within allowed) :
    Confined allowed (resolver.emitAs index source destination) :=
  confined.lift fun writes => ((writes.setMove index _ within).emitMove index).eliminate index

theorem updateMoveSource (confined : Confined allowed resolver) (source destination : Location) :
    Confined allowed (resolver.updateMoveSource source destination) := by
  refine ⟨⟨fun move member => ?_, confined.base.emitted⟩, confined.pendingMoves, confined.scratches,
    confined.core, confined.fpu⟩
  obtain ⟨original, originalMember, rfl⟩ := List.mem_map.mp member
  split
  · exact confined.base.destinations original originalMember
  · exact confined.base.destinations original originalMember

theorem addPendingMove (confined : Confined allowed resolver) {source destination : Location}
    (sourceWithin : source.Within allowed) (destinationWithin : destination.Within allowed) (type : DataType) :
    Confined allowed (resolver.addPendingMove source destination type) := by
  refine ⟨confined.base, fun move member => ?_, confined.scratches, confined.core, confined.fpu⟩
  rcases List.mem_append.mp member with old | new
  · exact confined.pendingMoves move old
  · rw [List.mem_singleton.mp new]
    exact ⟨sourceWithin, destinationWithin⟩

theorem deletePendingMove (confined : Confined allowed resolver) (move : MoveOperands) :
    Confined allowed (resolver.deletePendingMove move) :=
  ⟨confined.base, fun other member => confined.pendingMoves other (List.mem_of_mem_erase member),
    confined.scratches, confined.core, confined.fpu⟩

theorem getScratchLocation_within (confined : Confined allowed resolver) (kind : Location.Kind) :
    (resolver.getScratchLocation kind).Within allowed := by
  unfold getScratchLocation
  split
  · rename_i loc found
    exact confined.scratches loc (List.mem_of_find?_eq_some found)
  · split
    · rename_i move found
      exact confined.base.destinations move (List.mem_of_find?_eq_some found)
    · exact Location.Within.noLocation

theorem allocateScratchLocationFor (confined : Confined allowed resolver) {kind : Location.Kind}
    {scratch : Location} {after : ParallelMoveResolverNoSwap}
    (allocated : resolver.allocateScratchLocationFor kind = some (scratch, after)) :
    scratch.Within allowed ∧ Confined allowed after := by
  unfold ParallelMoveResolverNoSwap.allocateScratchLocationFor at allocated
  dsimp only at allocated
  generalize (if (kind == .kFpuRegister || kind == .kSIMDStackSlot) = true then Location.Kind.kFpuRegister
    else Location.Kind.kRegister) = scratchKind at allocated
  split at allocated
  · cases allocated
    exact ⟨confined.getScratchLocation_within _, confined⟩
  · split at allocated
    · obtain ⟨⟨reg, core⟩, acquired, same⟩ := Option.map_eq_some_iff.mp allocated
      cases same
      obtain ⟨taken, rest⟩ := acquire_mem acquired
      have registerWithin : (Location.register reg).Within allowed := by
        intro cell member
        rw [List.mem_singleton.mp member]
        exact confined.core reg taken
      refine ⟨registerWithin, confined.base, confined.pendingMoves, fun loc member => ?_,
        fun other member => confined.core other (rest other member), confined.fpu⟩
      rcases List.mem_append.mp member with old | new
      · exact confined.scratches loc old
      · exact List.mem_singleton.mp new ▸ registerWithin
    · obtain ⟨⟨reg, fpu⟩, acquired, same⟩ := Option.map_eq_some_iff.mp allocated
      cases same
      obtain ⟨taken, rest⟩ := acquire_mem acquired
      have registerWithin : (Location.fpuRegister reg).Within allowed := by
        intro cell member
        rw [List.mem_singleton.mp member]
        exact confined.fpu reg taken
      refine ⟨registerWithin, confined.base, confined.pendingMoves, fun loc member => ?_, confined.core,
        fun other member => confined.fpu other (rest other member)⟩
      rcases List.mem_append.mp member with old | new
      · exact confined.scratches loc old
      · exact List.mem_singleton.mp new ▸ registerWithin

theorem freeScratchLocation (confined : Confined allowed resolver) {loc : Location}
    (within : loc.Within allowed) : Confined allowed (resolver.freeScratchLocation loc) := by
  unfold ParallelMoveResolverNoSwap.freeScratchLocation removeScratchLocation
  refine ⟨confined.base, confined.pendingMoves,
    fun other member => confined.scratches other (List.mem_of_mem_erase member), ?_, ?_⟩
  · cases loc with
    | register reg =>
        intro other member
        rcases mem_release member with old | rfl
        · exact confined.core other old
        · exact within _ List.mem_cons_self
    | _ => exact confined.core
  · cases loc with
    | fpuRegister reg =>
        intro other member
        rcases mem_release member with old | rfl
        · exact confined.fpu other old
        · exact within _ List.mem_cons_self
    | _ => exact confined.fpu

theorem freeScratchLocationsFrom (confined : Confined allowed resolver) {pendingSource : Location}
    (within : pendingSource.Within allowed) (bound i : Nat) :
    Confined allowed (freeScratchLocationsFrom pendingSource bound resolver i) := by
  induction bound generalizing resolver i with
  | zero => exact confined
  | succ bound induction =>
      unfold ParallelMoveResolverNoSwap.freeScratchLocationsFrom
      split
      · exact confined
      · dsimp only
        split
        · exact induction (confined.freeScratchLocation within) (i + 1)
        · exact induction confined (i + 1)

theorem breakCycleOrEmit (confined : Confined allowed resolver) {index : Nat} {destination : Location}
    (within : destination.Within allowed) (source : Location) {after : ParallelMoveResolverNoSwap}
    (resolved : resolver.breakCycleOrEmit index destination source = some after) :
    Confined allowed after := by
  unfold ParallelMoveResolverNoSwap.breakCycleOrEmit at resolved
  split at resolved
  · obtain ⟨⟨scratch, allocatedResolver⟩, allocated, rfl⟩ := Option.map_eq_some_iff.mp resolved
    obtain ⟨scratchWithin, allocatedConfined⟩ := confined.allocateScratchLocationFor allocated
    exact ((allocatedConfined.emitAs index source scratchWithin).updateMoveSource source scratch).addPendingMove
      scratchWithin within _
  · cases resolved
    exact (confined.emitAs index source within).updateMoveSource source destination

theorem drainPendingMoves (confined : Confined allowed resolver) {index : Nat} {source : Location}
    {fuel : Nat} {after : ParallelMoveResolverNoSwap}
    (drained : ParallelMoveResolverNoSwap.drainPendingMoves index source fuel resolver = some after) :
    Confined allowed after := by
  induction fuel generalizing resolver with
  | zero => simp [ParallelMoveResolverNoSwap.drainPendingMoves] at drained
  | succ fuel induction =>
      unfold ParallelMoveResolverNoSwap.drainPendingMoves at drained
      split at drained
      · cases drained
        exact confined
      · rename_i pendingMove found
        -- the pending move came from the resolver's own list: both its locations are allowed
        obtain ⟨sourceWithin, destinationWithin⟩ :=
          confined.pendingMoves pendingMove (List.mem_of_find?_eq_some found)
        have performed := ((confined.deletePendingMove pendingMove).emitAs index pendingMove.source
          destinationWithin).updateMoveSource pendingMove.source pendingMove.destination
        exact induction (performed.freeScratchLocationsFrom sourceWithin _ 0) drained

theorem performMove (confined : Confined allowed resolver) {fuel index : Nat}
    {after : ParallelMoveResolverNoSwap}
    (performed : ParallelMoveResolverNoSwap.performMove fuel resolver index = some after) :
    Confined allowed after := by
  induction fuel generalizing resolver index after with
  | zero => simp [ParallelMoveResolverNoSwap.performMove] at performed
  | succ fuel induction =>
      unfold ParallelMoveResolverNoSwap.performMove at performed
      dsimp only at performed
      have destinationWithin := confined.base.moveAt index
      split at performed
      · cases performed
        exact confined.lift fun writes => writes.eliminate index
      · obtain ⟨blockersDone, blockersLoop, performed⟩ := Option.bind_eq_some_iff.mp performed
        obtain ⟨resolved, breaking, drained⟩ := Option.bind_eq_some_iff.mp performed
        have marked : Confined allowed (resolver.lift (·.markPending index)) :=
          confined.lift fun writes => writes.setMove index _ Location.Within.noLocation
        -- the loop over the moves reading the destination keeps the invariant move by move
        have afterBlockers : Confined allowed blockersDone :=
          SatisfiesM_Option_eq.mp (List.satisfiesM_foldlM marked
            fun before beforeConfined i _ => SatisfiesM_Option_eq.mpr fun next stepped => by
              split at stepped
              · exact induction beforeConfined stepped
              · cases stepped
                exact beforeConfined) _ blockersLoop
        have restored : Confined allowed
            (blockersDone.lift (·.clearPending index (resolver.moveAt index).destination)) :=
          afterBlockers.lift fun writes => writes.setMove index _ destinationWithin
        exact (restored.breakCycleOrEmit destinationWithin _ breaking).drainPendingMoves drained

end Confined

end Confined

/-- `EmitNativeCode` writes only the destinations of the parallel move and VIXL's
scratch registers: every other cell keeps its value. -/
theorem emitNativeCode_keeps_cells_outside_destinations {vixlTemps : ScratchRegisters} {fuel : Nat}
    {parallelMove : List MoveOperands} {resolver : ParallelMoveResolverNoSwap}
    (returned : emitNativeCode vixlTemps fuel parallelMove = some resolver) (initial : Store) {cell : Cell}
    (outside : ∀ move ∈ parallelMove, cell ∉ move.destination.cells)
    (notCore : ∀ reg ∈ vixlTemps.core, cell ≠ .core reg) (notFpu : ∀ reg ∈ vixlTemps.fpu, cell ≠ .fpu reg) :
    execute initial resolver.emitted cell = initial cell := by
  let allowed : Cell → Prop := fun cell =>
    (∃ move ∈ parallelMove, cell ∈ move.destination.cells) ∨
      (∃ reg ∈ vixlTemps.core, cell = .core reg) ∨ ∃ reg ∈ vixlTemps.fpu, cell = .fpu reg
  have start : Confined allowed
      { moves := buildInitialMoveList parallelMove, emitted := [], pendingMoves := [], scratches := [],
        vixlTemps } := by
    refine ⟨⟨fun move member cell inDestination => ?_, by simp⟩, by simp, by simp,
      fun reg member => .inr (.inl ⟨reg, member, rfl⟩), fun reg member => .inr (.inr ⟨reg, member, rfl⟩)⟩
    exact .inl ⟨move, (List.mem_filter.mp member).1, inDestination⟩
  unfold emitNativeCode at returned
  simp only [Option.bind_eq_bind, Option.pure_def] at returned
  obtain ⟨performedAll, performLoop, returned⟩ := Option.bind_eq_some_iff.mp returned
  cases returned
  have afterPerform : Confined allowed performedAll :=
    SatisfiesM_Option_eq.mp (List.satisfiesM_foldlM start fun before confined i _ =>
      SatisfiesM_Option_eq.mpr fun after stepped => by
        unfold performNonConstantMove at stepped
        dsimp only at stepped
        split at stepped
        · exact confined.performMove stepped
        · cases stepped
          exact confined) _ performLoop
  have afterConstants : Confined allowed (List.foldl emitConstantToRegister performedAll
      (List.range (buildInitialMoveList parallelMove).length)) :=
    List.foldlRecOn _ _ afterPerform fun before confined i _ => by
    unfold emitConstantToRegister
    dsimp only
    split
    · exact (confined.emitAs i _ (confined.base.moveAt i)).updateMoveSource _ _
    · exact confined
  have final : Confined allowed (List.foldl emitRemainingMove
      (List.foldl emitConstantToRegister performedAll (List.range (buildInitialMoveList parallelMove).length))
      (List.range (buildInitialMoveList parallelMove).length)) :=
    List.foldlRecOn _ _ afterConstants fun before confined i _ => by
    unfold emitRemainingMove
    dsimp only
    split
    · exact confined.emitAs i _ (confined.base.moveAt i)
    · exact confined
  refine execute_of_not_mem_writes (fun instruction member written => ?_) initial
  rcases final.base.emitted instruction member _ written with
    ⟨move, original, inDestination⟩ | ⟨reg, taken, rfl⟩ | ⟨reg, taken, rfl⟩
  · exact outside move original inDestination
  · exact notCore reg taken rfl
  · exact notFpu reg taken rfl

/-- The two scratch registers and the one floating-point scratch register VIXL
has on ARM64 (ip0 and ip1, then d31). -/
def vixlScratchRegisters : ScratchRegisters := ⟨[16, 17], [31]⟩

/-- A long moves from X0 into the double stack slot at 0 while the two ints in the
slot's halves move to W0 and W2. The cycle through W0 takes W2, a destination no
move reads yet, as its scratch location; the move into W2 then finds W2 read by
the pending move, and goes through a VIXL register to a pending move of its own. -/
def spilledOverHalves : List MoveOperands :=
  [⟨.register 0, .doubleStackSlot 0, .kInt64⟩, ⟨.stackSlot 4, .register 0, .kInt32⟩,
    ⟨.stackSlot 0, .register 2, .kInt32⟩]

/-- The run on `spilledOverHalves`: the move from the VIXL register into W2 is
still pending at the end. -/
theorem emitNativeCode_spilledOverHalves :
    emitNativeCode vixlScratchRegisters 4 spilledOverHalves =
      some { moves := [⟨.noLocation, .noLocation, .kInt64⟩, ⟨.noLocation, .noLocation, .kInt32⟩,
               ⟨.noLocation, .noLocation, .kInt32⟩],
             emitted := [.move (.stackSlot 4) (.register 2) .kInt32, .move (.stackSlot 0) (.register 16) .kInt32,
               .move (.register 0) (.doubleStackSlot 0) .kInt64, .move (.register 2) (.register 0) .kInt64],
             pendingMoves := [⟨.register 16, .register 2, .kInt32⟩],
             scratches := [.register 16],
             vixlTemps := ⟨[17], [31]⟩ } := by
  decide

theorem emitNativeCode_keeps_cells_outside_destinations_spilledOverHalves :
    (∀ move ∈ spilledOverHalves, Cell.core 1 ∉ move.destination.cells) ∧
      (∀ reg ∈ vixlScratchRegisters.core, Cell.core 1 ≠ .core reg) ∧
      (∀ reg ∈ vixlScratchRegisters.fpu, Cell.core 1 ≠ .fpu reg) ∧
      execute (fun _ => 1) [.move (.stackSlot 4) (.register 2) .kInt32,
        .move (.stackSlot 0) (.register 16) .kInt32, .move (.register 0) (.doubleStackSlot 0) .kInt64,
        .move (.register 2) (.register 0) .kInt64] (.core 1) = 1 := by
  have outside : ∀ move ∈ spilledOverHalves, Cell.core 1 ∉ move.destination.cells := by decide
  have notCore : ∀ reg ∈ vixlScratchRegisters.core, Cell.core 1 ≠ .core reg := by decide
  have notFpu : ∀ reg ∈ vixlScratchRegisters.fpu, Cell.core 1 ≠ .fpu reg := by decide
  exact ⟨outside, notCore, notFpu,
    emitNativeCode_keeps_cells_outside_destinations emitNativeCode_spilledOverHalves _ outside notCore notFpu⟩

theorem execute_spilledOverHalves_core_two (initial : Store) :
    execute initial [.move (.stackSlot 4) (.register 2) .kInt32, .move (.stackSlot 0) (.register 16) .kInt32,
        .move (.register 0) (.doubleStackSlot 0) .kInt64, .move (.register 2) (.register 0) .kInt64]
      (.core 2) = initial (.stack 4) % 2 ^ 32 := by
  simp [execute, Emitted.run, Location.read, Location.write, Location.cells, Location.registerWidth,
    DataType.is64BitType, Foundation.WordStore.readWords, Foundation.WordStore.writeWords]

/-- Neither resolver performs every parallel move as a simultaneous assignment.
Without swaps, on ARM64, a move of `spilledOverHalves` is left pending and W2 gets
the int meant for W0. With swaps, R0 of `pairSwappedThroughHalf`, neither a
destination nor a scratch location, gets the low word of S0. -/
theorem parallelMoveResolvers_break_simultaneous_assignment :
    (∃ resolver, emitNativeCode vixlScratchRegisters 4 spilledOverHalves = some resolver ∧
      resolver.pendingMoves = [⟨.register 16, .register 2, .kInt32⟩] ∧
      ∀ initial : Store, execute initial resolver.emitted (.core 2) = initial (.stack 4) % 2 ^ 32 ∧
        (initial (.stack 0) % 2 ^ 32 ≠ initial (.stack 4) % 2 ^ 32 → ∀ scratch,
          ¬SimultaneousAssignment spilledOverHalves scratch initial (execute initial resolver.emitted))) ∧
    (∃ resolver, ParallelMoveResolverWithSwap.emitNativeCode 5
        ParallelMoveResolverWithSwap.pairSwappedThroughHalf = some resolver ∧
      ∀ initial : Store, execute initial resolver.emitted (.core 0) = initial (.fpu 0) % 2 ^ 32 ∧
        (initial (.fpu 0) % 2 ^ 32 ≠ initial (.core 0) → ∀ scratch, Cell.core 0 ∉ scratch →
          ¬SimultaneousAssignment ParallelMoveResolverWithSwap.pairSwappedThroughHalf scratch initial
            (execute initial resolver.emitted))) := by
  constructor
  · refine ⟨_, emitNativeCode_spilledOverHalves, rfl, fun initial => ⟨?_, ?_⟩⟩
    · exact execute_spilledOverHalves_core_two initial
    · intro differ scratch assigned
      -- the move into W2 should leave the int of the low half there
      have intoCoreTwo := assigned.1 ⟨.stackSlot 0, .register 2, .kInt32⟩ (by simp [spilledOverHalves])
        (by simp)
      simp only [MoveOperands.is64BitMove, DataType.is64BitType, Location.read, Location.registerWidth,
        Location.cells, Foundation.WordStore.readWords] at intoCoreTwo
      rw [execute_spilledOverHalves_core_two initial] at intoCoreTwo
      apply differ
      simpa using intoCoreTwo.symm
  · have lowWord := ParallelMoveResolverWithSwap.execute_pairSwappedThroughHalf_core_zero
    refine ⟨_, ParallelMoveResolverWithSwap.emitNativeCode_pairSwappedThroughHalf,
      fun initial => ⟨lowWord initial, fun differ scratch notScratch assigned => ?_⟩⟩
    -- R0 is a cell of no destination, so it should keep its value
    have kept := assigned.2 (.core 0) (by simp [ParallelMoveResolverWithSwap.pairSwappedThroughHalf,
      Location.cells]) notScratch
    exact differ ((lowWord initial).symm.trans kept)

end ParallelMoveResolverNoSwap

end ArtRuntime.Compiler
