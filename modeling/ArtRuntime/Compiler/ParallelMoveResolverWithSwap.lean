import Mathlib
import ArtRuntime.Compiler.ParallelMove

/-! # The parallel move resolver with swaps

`ParallelMoveResolverWithSwap` of `compiler/optimizing/parallel_move_resolver.cc`,
used by the ARM, MIPS and x86 back ends. `PerformMove` first performs, depth
first, every move that reads its destination, marking itself pending so that a
cycle comes back to it. A move still blocked afterwards is blocked by a pending
move of its cycle, and is swapped with its source; the sources of the moves
that read either side are then updated, a half of a pair standing for the half
it was swapped with. A 32-bit move blocked by a 64-bit one hands the swap to
the 64-bit move by returning it up the recursion (`required_swap`), and the
dependency loop starts again (`i = -1`) when the move it performed was swapped.

The recursion and the restarted loop run on fuel; `none` means it ran out.
-/

namespace ArtRuntime.Compiler

namespace ParallelMoveResolverWithSwap

open ParallelMoveResolver

/-- `UpdateSourceOf(move, updated_location, new_source)`: `updated_location` was
swapped with `new_source`, and a move reading a half of it now reads that half of
`new_source`. -/
def updateSourceOf (move : MoveOperands) (updatedLocation newSource : Location) : MoveOperands :=
  if updatedLocation.lowOf == move.source then { move with source := newSource.lowOf }
  else if updatedLocation.highOf == move.source then { move with source := newSource.highOf }
  else { move with source := newSource }

/-- One move after the swap of `source` with `swapDestination`. -/
def updateAfterSwap (source swapDestination : Location) (otherMove : MoveOperands) : MoveOperands :=
  if otherMove.blocks source then updateSourceOf otherMove source swapDestination
  else if otherMove.blocks swapDestination then updateSourceOf otherMove swapDestination source
  else otherMove

/-- `EmitSwap(index)`. -/
def emitSwap (resolver : ParallelMoveResolver) (index : Nat) : ParallelMoveResolver :=
  let move := resolver.moveAt index
  { resolver with emitted := resolver.emitted ++ [.swap move.source move.destination move.type] }

/-- The `do_swap` branch of `PerformMove`: emit the swap, eliminate the move, and
update every move that reads either side. -/
def swapMove (resolver : ParallelMoveResolver) (index : Nat) : ParallelMoveResolver :=
  let move := resolver.moveAt index
  let swapped := (emitSwap resolver index).eliminate index
  { swapped with moves := swapped.moves.map (updateAfterSwap move.source move.destination) }

/-- The end of `PerformMove`, once the moves blocking it are performed: the move
is the last of its cycle, is swapped, hands the swap to a 64-bit move that blocks
it, or is not blocked and emitted. Returns the move its caller is asked to swap. -/
def resolveMove (resolver : ParallelMoveResolver) (index : Nat) (destination : Location)
    (requiredSwap : Option Nat) : ParallelMoveResolver × Option Nat :=
  let move := resolver.moveAt index
  if move.source == destination then (resolver.eliminate index, none)
  else
    match requiredSwap with
    | some _ => (swapMove resolver index, requiredSwap)
    | none =>
        match resolver.moves.findIdx? (·.blocks destination) with
        | some other =>
            if !move.is64BitMove && (resolver.moveAt other).is64BitMove then (resolver, some other)
            else (swapMove resolver index, none)
        | none => ((resolver.emitMove index).eliminate index, none)

/-- How the dependency loop of `PerformMove` ends: it runs out of moves, with the
`required_swap` it broke out with, or it returns a move to swap to the caller. -/
inductive ScanEnd
  | finished (requiredSwap : Option Nat)
  | returned (requiredSwap : Nat)
  deriving DecidableEq, Repr

/-- The dependency loop of `PerformMove(index)` from position `i`, for a move whose
destination is `destination`; `perform` is the recursive `PerformMove`. -/
def scanBlockers (perform : ParallelMoveResolver → Nat → Option (ParallelMoveResolver × Option Nat))
    (index : Nat) (destination : Location) :
    Nat → ParallelMoveResolver → Nat → Option (ParallelMoveResolver × ScanEnd)
  | 0, _, _ => none
  | fuel + 1, resolver, i =>
      if i < resolver.moves.length then
        let otherMove := resolver.moveAt i
        if otherMove.blocks destination && !otherMove.isPending then
          match perform resolver i with
          | none => none
          | some (resolver, requiredSwap) =>
              if requiredSwap = some index then some (resolver, .finished requiredSwap)
              -- the move performed was swapped: look for a new cycle from the start
              else if requiredSwap = some i then scanBlockers perform index destination fuel resolver 0
              else
                match requiredSwap with
                | some other => some (resolver, .returned other)
                | none => scanBlockers perform index destination fuel resolver (i + 1)
        else scanBlockers perform index destination fuel resolver (i + 1)
      else some (resolver, .finished none)

/-- `PerformMove(index)`: the resolver after, and the move the caller is asked to swap. -/
def performMove : Nat → ParallelMoveResolver → Nat → Option (ParallelMoveResolver × Option Nat)
  | 0, _, _ => none
  | fuel + 1, resolver, index =>
      let move := resolver.moveAt index
      if move.isRedundant then some (resolver.eliminate index, none)
      else
        let destination := move.destination
        match scanBlockers (performMove fuel) index destination fuel (resolver.markPending index) 0 with
        | none => none
        | some (resolver, .returned requiredSwap) =>
            some (resolver.clearPending index destination, some requiredSwap)
        | some (resolver, .finished requiredSwap) =>
            some (resolveMove (resolver.clearPending index destination) index destination requiredSwap)

/-- The first loop of `EmitNativeCode`: moves between stack slots first. -/
def performStackMove (fuel : Nat) (resolver : ParallelMoveResolver) (i : Nat) :
    Option ParallelMoveResolver :=
  let move := resolver.moveAt i
  if move.isEliminated || move.source.isConstant then some resolver
  else if (move.source.isStackSlot || move.source.isDoubleStackSlot) &&
      (move.destination.isStackSlot || move.destination.isDoubleStackSlot) then
    (performMove fuel resolver i).map Prod.fst
  else some resolver

/-- The second loop of `EmitNativeCode`: every move that does not read a constant. -/
def performNonConstantMove (fuel : Nat) (resolver : ParallelMoveResolver) (i : Nat) :
    Option ParallelMoveResolver :=
  let move := resolver.moveAt i
  if !move.isEliminated && !move.source.isConstant then (performMove fuel resolver i).map Prod.fst
  else some resolver

/-- The last loop of `EmitNativeCode`: the moves left read constants. -/
def emitConstantMove (resolver : ParallelMoveResolver) (i : Nat) : ParallelMoveResolver :=
  if !(resolver.moveAt i).isEliminated then (resolver.emitMove i).eliminate i else resolver

/-- `EmitNativeCode(parallel_move)`: the resolver at the end, its `moves_` all
eliminated and the code emitted. -/
def emitNativeCode (fuel : Nat) (parallelMove : List MoveOperands) : Option ParallelMoveResolver := do
  let moves := buildInitialMoveList parallelMove
  let indices := List.range moves.length
  let resolver ← indices.foldlM (performStackMove fuel) ⟨moves, []⟩
  let resolver ← indices.foldlM (performNonConstantMove fuel) resolver
  return indices.foldl emitConstantMove resolver

/-! ## The code writes only cells of the moves' own locations

A swap writes its source as well as its destination, and the sources change as
swaps are emitted; but a source only ever becomes a location of the swapped
move or a half of one. So every cell the code writes belongs to a source or a
destination of the parallel move.
-/

section Confined

variable {allowed : Cell → Prop}

theorem updateSourceOf_destination (move : MoveOperands) (updatedLocation newSource : Location) :
    (updateSourceOf move updatedLocation newSource).destination = move.destination := by
  unfold updateSourceOf
  split
  · rfl
  · split <;> rfl

theorem updateSourceOf_source_within (move : MoveOperands) (updatedLocation : Location)
    {newSource : Location} (within : newSource.Within allowed) :
    (updateSourceOf move updatedLocation newSource).source.Within allowed := by
  unfold updateSourceOf
  split
  · exact within.lowOf
  · split
    · exact within.highOf
    · exact within

theorem updateAfterSwap_within {source swapDestination : Location} {otherMove : MoveOperands}
    (sourceWithin : source.Within allowed) (swapDestinationWithin : swapDestination.Within allowed)
    (otherWithin : otherMove.source.Within allowed ∧ otherMove.destination.Within allowed) :
    (updateAfterSwap source swapDestination otherMove).source.Within allowed ∧
      (updateAfterSwap source swapDestination otherMove).destination.Within allowed := by
  unfold updateAfterSwap
  split
  · exact ⟨updateSourceOf_source_within _ _ swapDestinationWithin,
      (updateSourceOf_destination _ _ _).symm ▸ otherWithin.2⟩
  · split
    · exact ⟨updateSourceOf_source_within _ _ sourceWithin,
        (updateSourceOf_destination _ _ _).symm ▸ otherWithin.2⟩
    · exact otherWithin

/-- The locations of every move are `allowed`, and so is every cell the emitted
code writes. -/
structure Confined (allowed : Cell → Prop) (resolver : ParallelMoveResolver) : Prop where
  moves : ∀ move ∈ resolver.moves, move.source.Within allowed ∧ move.destination.Within allowed
  emitted : ∀ instruction ∈ resolver.emitted, ∀ cell ∈ instruction.writes, allowed cell

namespace Confined

variable {resolver : ParallelMoveResolver}

theorem moveAt (confined : Confined allowed resolver) (index : Nat) :
    (resolver.moveAt index).source.Within allowed ∧ (resolver.moveAt index).destination.Within allowed :=
  moveAt_of_forall confined.moves ⟨Location.Within.noLocation, Location.Within.noLocation⟩ index

theorem setMove (confined : Confined allowed resolver) (index : Nat) (move : MoveOperands)
    (within : move.source.Within allowed ∧ move.destination.Within allowed) :
    Confined allowed (resolver.setMove index move) :=
  ⟨forall_setMove confined.moves within index, confined.emitted⟩

theorem eliminate (confined : Confined allowed resolver) (index : Nat) :
    Confined allowed (resolver.eliminate index) :=
  confined.setMove index _ ⟨Location.Within.noLocation, Location.Within.noLocation⟩

theorem markPending (confined : Confined allowed resolver) (index : Nat) :
    Confined allowed (resolver.markPending index) :=
  confined.setMove index (resolver.moveAt index).markPending.2
    ⟨(confined.moveAt index).1, Location.Within.noLocation⟩

theorem clearPending (confined : Confined allowed resolver) (index : Nat) {destination : Location}
    (within : destination.Within allowed) : Confined allowed (resolver.clearPending index destination) :=
  confined.setMove index ((resolver.moveAt index).clearPending destination)
    ⟨(confined.moveAt index).1, within⟩

theorem emitMove (confined : Confined allowed resolver) (index : Nat) :
    Confined allowed (resolver.emitMove index) := by
  refine ⟨confined.moves, fun instruction member => ?_⟩
  rcases List.mem_append.mp member with old | new
  · exact confined.emitted instruction old
  · rw [List.mem_singleton.mp new]
    exact (confined.moveAt index).2

theorem emitSwap (confined : Confined allowed resolver) (index : Nat) :
    Confined allowed (ParallelMoveResolverWithSwap.emitSwap resolver index) := by
  refine ⟨confined.moves, fun instruction member => ?_⟩
  rcases List.mem_append.mp member with old | new
  · exact confined.emitted instruction old
  · rw [List.mem_singleton.mp new]
    intro cell written
    rcases List.mem_append.mp written with fromSource | fromDestination
    · exact (confined.moveAt index).1 cell fromSource
    · exact (confined.moveAt index).2 cell fromDestination

theorem swapMove (confined : Confined allowed resolver) (index : Nat) :
    Confined allowed (ParallelMoveResolverWithSwap.swapMove resolver index) := by
  have swapped := (confined.emitSwap index).eliminate index
  refine ⟨fun move member => ?_, swapped.emitted⟩
  obtain ⟨original, originalMember, rfl⟩ := List.mem_map.mp member
  exact updateAfterSwap_within (confined.moveAt index).1 (confined.moveAt index).2
    (swapped.moves original originalMember)

theorem resolveMove (confined : Confined allowed resolver) (index : Nat) (destination : Location)
    (requiredSwap : Option Nat) :
    Confined allowed (ParallelMoveResolverWithSwap.resolveMove resolver index destination requiredSwap).1 := by
  unfold ParallelMoveResolverWithSwap.resolveMove
  dsimp only
  split
  · exact confined.eliminate index
  · split
    · exact confined.swapMove index
    · split
      · split
        · exact confined
        · exact confined.swapMove index
      · exact (confined.emitMove index).eliminate index

theorem scanBlockers
    {perform : ParallelMoveResolver → Nat → Option (ParallelMoveResolver × Option Nat)}
    (performs : ∀ {before after : ParallelMoveResolver} {i : Nat} {requiredSwap : Option Nat},
      Confined allowed before → perform before i = some (after, requiredSwap) → Confined allowed after)
    {index : Nat} {destination : Location} {fuel i : Nat} {after : ParallelMoveResolver}
    {scanEnd : ScanEnd} (confined : Confined allowed resolver)
    (scanned : ParallelMoveResolverWithSwap.scanBlockers perform index destination fuel resolver i =
      some (after, scanEnd)) :
    Confined allowed after := by
  induction fuel generalizing resolver i with
  | zero => simp [ParallelMoveResolverWithSwap.scanBlockers] at scanned
  | succ fuel induction =>
      unfold ParallelMoveResolverWithSwap.scanBlockers at scanned
      dsimp only at scanned
      split at scanned
      · split at scanned
        · split at scanned
          · cases scanned
          · rename_i next requiredSwap performed
            have nextConfined := performs confined performed
            split at scanned
            · cases scanned
              exact nextConfined
            · split at scanned
              · exact induction nextConfined scanned
              · split at scanned
                · cases scanned
                  exact nextConfined
                · exact induction nextConfined scanned
        · exact induction confined scanned
      · cases scanned
        exact confined

theorem performMove {fuel index : Nat} {after : ParallelMoveResolver} {requiredSwap : Option Nat}
    (confined : Confined allowed resolver)
    (performed : ParallelMoveResolverWithSwap.performMove fuel resolver index = some (after, requiredSwap)) :
    Confined allowed after := by
  induction fuel generalizing resolver index after requiredSwap with
  | zero => simp [ParallelMoveResolverWithSwap.performMove] at performed
  | succ fuel induction =>
      unfold ParallelMoveResolverWithSwap.performMove at performed
      dsimp only at performed
      -- the destination is put back after the loop: it is one of the move's own
      have destinationWithin := (confined.moveAt index).2
      split at performed
      · cases performed
        exact confined.eliminate index
      · split at performed
        · cases performed
        · rename_i scanned
          cases performed
          exact (Confined.scanBlockers induction (confined.markPending index) scanned).clearPending index
            destinationWithin
        · rename_i scanned
          have afterEq := congrArg Prod.fst (Option.some.inj performed)
          dsimp only at afterEq
          rw [← afterEq]
          exact ((Confined.scanBlockers induction (confined.markPending index) scanned).clearPending index
            destinationWithin).resolveMove index _ _

end Confined

end Confined

/-- `EmitNativeCode` writes only cells of the sources and destinations of the
parallel move: every other cell keeps its value. -/
theorem emitNativeCode_keeps_cells_outside_moves {fuel : Nat} {parallelMove : List MoveOperands}
    {resolver : ParallelMoveResolver} (returned : emitNativeCode fuel parallelMove = some resolver)
    (initial : Store) {cell : Cell}
    (outside : ∀ move ∈ parallelMove, cell ∉ move.source.cells ∧ cell ∉ move.destination.cells) :
    execute initial resolver.emitted cell = initial cell := by
  let allowed : Cell → Prop :=
    fun cell => ∃ move ∈ parallelMove, cell ∈ move.source.cells ∨ cell ∈ move.destination.cells
  have start : Confined allowed ⟨buildInitialMoveList parallelMove, []⟩ := by
    refine ⟨fun move member => ?_, by simp⟩
    have original := (List.mem_filter.mp member).1
    exact ⟨fun cell inSource => ⟨move, original, .inl inSource⟩,
      fun cell inDestination => ⟨move, original, .inr inDestination⟩⟩
  have performs : ∀ {before after : ParallelMoveResolver} {i : Nat},
      Confined allowed before → (performMove fuel before i).map Prod.fst = some after →
        Confined allowed after := by
    intro before after i confined performed
    obtain ⟨⟨result, requiredSwap⟩, performedMove, rfl⟩ := Option.map_eq_some_iff.mp performed
    exact confined.performMove performedMove
  unfold emitNativeCode at returned
  simp only [Option.bind_eq_bind, Option.pure_def] at returned
  obtain ⟨stackDone, stackLoop, returned⟩ := Option.bind_eq_some_iff.mp returned
  obtain ⟨nonConstantDone, nonConstantLoop, returned⟩ := Option.bind_eq_some_iff.mp returned
  cases returned
  have afterStack : Confined allowed stackDone :=
    SatisfiesM_Option_eq.mp (List.satisfiesM_foldlM start fun before confined i _ =>
      SatisfiesM_Option_eq.mpr fun after stepped => by
        unfold performStackMove at stepped
        dsimp only at stepped
        split at stepped
        · cases stepped
          exact confined
        · split at stepped
          · exact performs confined stepped
          · cases stepped
            exact confined) _ stackLoop
  have afterNonConstant : Confined allowed nonConstantDone :=
    SatisfiesM_Option_eq.mp (List.satisfiesM_foldlM afterStack fun before confined i _ =>
      SatisfiesM_Option_eq.mpr fun after stepped => by
        unfold performNonConstantMove at stepped
        dsimp only at stepped
        split at stepped
        · exact performs confined stepped
        · cases stepped
          exact confined) _ nonConstantLoop
  have final : Confined allowed (List.foldl emitConstantMove nonConstantDone
      (List.range (buildInitialMoveList parallelMove).length)) :=
    List.foldlRecOn _ _ afterNonConstant fun before confined i _ => by
      unfold emitConstantMove
      split
      · exact (confined.emitMove i).eliminate i
      · exact confined
  refine execute_of_not_mem_writes (fun instruction member written => ?_) initial
  obtain ⟨move, original, inMove⟩ := final.emitted instruction member _ written
  rcases inMove with inSource | inDestination
  · exact (outside move original).1 inSource
  · exact (outside move original).2 inDestination

/-- A double moves from the core pair (R0, R1) to the floating-point pair (S0, S1)
while a float moves from S1 to R1. The 32-bit move finds the 64-bit one pending
and hands it the swap, which exchanges both pairs whole. -/
def pairSwappedThroughHalf : List MoveOperands :=
  [⟨.registerPair 0 1, .fpuRegisterPair 0 1, .kFloat64⟩, ⟨.fpuRegister 1, .register 1, .kFloat32⟩]

theorem emitNativeCode_pairSwappedThroughHalf :
    emitNativeCode 5 pairSwappedThroughHalf =
      some ⟨[⟨.noLocation, .noLocation, .kFloat64⟩, ⟨.noLocation, .noLocation, .kFloat32⟩],
        [.swap (.registerPair 0 1) (.fpuRegisterPair 0 1) .kFloat64]⟩ := by
  decide

theorem emitNativeCode_keeps_cells_outside_moves_pairSwappedThroughHalf :
    (∀ move ∈ pairSwappedThroughHalf, Cell.core 7 ∉ move.source.cells ∧ Cell.core 7 ∉ move.destination.cells) ∧
      execute (fun _ => 1) [.swap (.registerPair 0 1) (.fpuRegisterPair 0 1) .kFloat64] (.core 7) = 1 := by
  have outside : ∀ move ∈ pairSwappedThroughHalf,
      Cell.core 7 ∉ move.source.cells ∧ Cell.core 7 ∉ move.destination.cells := by
    decide
  exact ⟨outside, emitNativeCode_keeps_cells_outside_moves emitNativeCode_pairSwappedThroughHalf _ outside⟩

/-- After the swap R0, a half of the source and no destination, holds the low
word of S0. -/
theorem execute_pairSwappedThroughHalf_core_zero (initial : Store) :
    execute initial [.swap (.registerPair 0 1) (.fpuRegisterPair 0 1) .kFloat64] (.core 0) =
      initial (.fpu 0) % 2 ^ 32 := by
  simp [execute, Emitted.run, Location.read, Location.write, Location.cells,
    Foundation.WordStore.readWords, Foundation.WordStore.writeWords]

end ParallelMoveResolverWithSwap

end ArtRuntime.Compiler
