import ArtRuntime.Compiler.Location

/-! # Parallel moves and the code that performs them

`compiler/optimizing/nodes.h`: an `HParallelMove` is a list of
`MoveOperands`, each a source, a destination and the type of the value moved.
The resolvers mark a move pending by clearing its destination and eliminated
by clearing both operands; a move blocks a location while its source overlaps
it.

The resolvers emit moves and swaps. Run on a store, a move copies the value of
its source into its destination and a swap exchanges the two, at the width of
the move's type. A parallel move stands for a simultaneous assignment: every
destination receives the value its source had before, and no other cell but
the scratch locations the resolver uses changes.
-/

namespace ArtRuntime.Compiler

/-- `MoveOperands`, without the instruction it is for, which only debug checks read. -/
structure MoveOperands where
  source : Location
  destination : Location
  type : DataType
  deriving DecidableEq, Repr

/-- `MoveOperands` with both operands cleared, as `Eliminate` leaves it. -/
instance : Inhabited MoveOperands := ⟨⟨.noLocation, .noLocation, .kVoid⟩⟩

namespace MoveOperands

/-- `MarkPending`: the destination to restore, and the move with its destination cleared. -/
def markPending (move : MoveOperands) : Location × MoveOperands :=
  (move.destination, { move with destination := .noLocation })

/-- `ClearPending(dest)`. -/
def clearPending (move : MoveOperands) (dest : Location) : MoveOperands :=
  { move with destination := dest }

def isPending (move : MoveOperands) : Bool :=
  move.destination.isInvalid && move.source.isValid

def isEliminated (move : MoveOperands) : Bool := move.source.isInvalid

/-- `Blocks(loc)`: the move still has to read a location overlapping `loc`. -/
def blocks (move : MoveOperands) (loc : Location) : Bool :=
  !move.isEliminated && move.source.overlapsWith loc

def isRedundant (move : MoveOperands) : Bool :=
  move.isEliminated || move.destination.isInvalid || move.source == move.destination

def eliminate (move : MoveOperands) : MoveOperands :=
  { move with source := .noLocation, destination := .noLocation }

def is64BitMove (move : MoveOperands) : Bool := move.type.is64BitType

end MoveOperands

/-- `BuildInitialMoveList`: the moves of the parallel move that are not redundant. -/
def buildInitialMoveList (parallelMove : List MoveOperands) : List MoveOperands :=
  parallelMove.filter fun move => !move.isRedundant

/-- The code a resolver emits: `EmitMove` and `EmitSwap` of a move's operands at
the move's type. -/
inductive Emitted
  | move (source destination : Location) (type : DataType)
  | swap (source destination : Location) (type : DataType)
  deriving DecidableEq, Repr

namespace Emitted

/-- The store after one emitted instruction. -/
def run (store : Store) : Emitted → Store
  | move source destination type =>
      destination.write store type.is64BitType (source.read store type.is64BitType)
  | swap source destination type =>
      let wide := type.is64BitType
      let sourceValue := source.read store wide
      let destinationValue := destination.read store wide
      destination.write (source.write store wide destinationValue) wide sourceValue

/-- The cells an emitted instruction may write. -/
def writes : Emitted → List Cell
  | move _ destination _ => destination.cells
  | swap source destination _ => source.cells ++ destination.cells

theorem run_of_not_mem_writes {store : Store} {emitted : Emitted} {cell : Cell}
    (outside : cell ∉ emitted.writes) : emitted.run store cell = store cell := by
  cases emitted with
  | move source destination type => exact Location.write_of_not_mem outside
  | swap source destination type =>
      have outsideSource : cell ∉ source.cells := fun member => outside (List.mem_append_left _ member)
      have outsideDestination : cell ∉ destination.cells :=
        fun member => outside (List.mem_append_right _ member)
      simp only [run]
      rw [Location.write_of_not_mem outsideDestination, Location.write_of_not_mem outsideSource]

end Emitted

/-- The store after the emitted code, in the order it was emitted. -/
def execute (store : Store) (emitted : List Emitted) : Store :=
  emitted.foldl Emitted.run store

theorem execute_of_not_mem_writes {emitted : List Emitted} {cell : Cell}
    (outside : ∀ instruction ∈ emitted, cell ∉ instruction.writes) (store : Store) :
    execute store emitted cell = store cell := by
  induction emitted generalizing store with
  | nil => rfl
  | cons instruction rest induction =>
      rw [execute, List.foldl_cons, ← execute,
        induction (fun other member => outside other (List.mem_cons_of_mem _ member)),
        Emitted.run_of_not_mem_writes (outside instruction List.mem_cons_self)]

/-- What `ParallelMoveResolver` keeps while it resolves a parallel move: the
worklist `moves_`, which the resolvers index, and the code emitted so far. -/
structure ParallelMoveResolver where
  moves : List MoveOperands
  emitted : List Emitted
  deriving DecidableEq, Repr

namespace ParallelMoveResolver

/-- `moves_[index]`; an index past the end reads an eliminated move. -/
def moveAt (resolver : ParallelMoveResolver) (index : Nat) : MoveOperands :=
  resolver.moves.getD index default

def setMove (resolver : ParallelMoveResolver) (index : Nat) (move : MoveOperands) :
    ParallelMoveResolver :=
  { resolver with moves := resolver.moves.set index move }

/-- `EmitMove(index)`: the move of `moves_[index]`, from its source to its destination. -/
def emitMove (resolver : ParallelMoveResolver) (index : Nat) : ParallelMoveResolver :=
  let move := resolver.moveAt index
  { resolver with emitted := resolver.emitted ++ [.move move.source move.destination move.type] }

def eliminate (resolver : ParallelMoveResolver) (index : Nat) : ParallelMoveResolver :=
  resolver.setMove index (resolver.moveAt index).eliminate

def markPending (resolver : ParallelMoveResolver) (index : Nat) : ParallelMoveResolver :=
  resolver.setMove index (resolver.moveAt index).markPending.2

def clearPending (resolver : ParallelMoveResolver) (index : Nat) (destination : Location) :
    ParallelMoveResolver :=
  resolver.setMove index ((resolver.moveAt index).clearPending destination)

/-! ### Properties every move of the worklist has -/

variable {resolver : ParallelMoveResolver} {property : MoveOperands → Prop}

/-- A property of every move of the worklist, that the eliminated move has too,
holds of `moves_[index]`. -/
theorem moveAt_of_forall (all : ∀ move ∈ resolver.moves, property move) (eliminated : property default)
    (index : Nat) : property (resolver.moveAt index) := by
  unfold moveAt
  rw [List.getD_eq_getElem?_getD]
  cases lookup : resolver.moves[index]? with
  | none => exact eliminated
  | some move => exact all move (List.mem_of_getElem? lookup)

theorem forall_setMove (all : ∀ move ∈ resolver.moves, property move) {move : MoveOperands}
    (holds : property move) (index : Nat) :
    ∀ other ∈ (resolver.setMove index move).moves, property other := by
  intro other member
  rcases List.mem_or_eq_of_mem_set member with old | new
  · exact all other old
  · exact new ▸ holds

end ParallelMoveResolver

/-- The parallel move performed from `initial` to `final`, with the cells of
`scratch` free to change: every move with a destination leaves there the value
its source had in `initial`, and every cell outside the destinations and
`scratch` is unchanged. -/
def SimultaneousAssignment (parallelMove : List MoveOperands) (scratch : List Cell)
    (initial final : Store) : Prop :=
  (∀ move ∈ parallelMove, move.destination ≠ .noLocation →
      move.destination.read final move.is64BitMove = move.source.read initial move.is64BitMove) ∧
    ∀ cell, (∀ move ∈ parallelMove, cell ∉ move.destination.cells) → cell ∉ scratch →
      final cell = initial cell

end ArtRuntime.Compiler
