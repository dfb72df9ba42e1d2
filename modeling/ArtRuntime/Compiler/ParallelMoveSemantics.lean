import Mathlib
import ArtRuntime.Compiler.ParallelMove

/-! # Parallel moves of single cells

A move of a value of one width between single cells: a core or floating-point
register, a stack slot for a 32-bit value, and a constant as a source. Such
locations overlap only when they are equal, and a value read from one at the
move's width comes back unchanged from another it is written to.

`Represents` relates the worklist `moves_` of a resolver and the code it has
emitted to the parallel move it started from. Every move left reads, after the
code, the value its original source had before; every move eliminated has left
that value in its destination; and the code writes only destinations. Emitting a
move that no other move reads from, and eliminating a move whose source is its
destination, keep the relation. Once every move is eliminated the code has
performed the parallel move (`Represents.performs`).
-/

namespace ArtRuntime.Compiler

namespace Location

/-- A location of one cell that a value of width `wide` fits in: a register of
either file, or a stack slot for a 32-bit value. -/
def isSingle (wide : Bool) : Location → Bool
  | register _ | fpuRegister _ => true
  | stackSlot _ => !wide
  | _ => false

/-- What a move between single cells reads: a single cell, or a constant. -/
def isSingleSource (wide : Bool) (location : Location) : Bool :=
  location.isConstant || location.isSingle wide

variable {wide : Bool} {location other : Location}

@[simp] theorem isInvalid_eq_true_iff : location.isInvalid = true ↔ location = noLocation := by
  cases location <;> simp [isInvalid, getKind]

@[simp] theorem isInvalid_eq_false_iff : location.isInvalid = false ↔ location ≠ noLocation := by
  rw [← Bool.not_eq_true, isInvalid_eq_true_iff]

theorem isSingleSource_of_isSingle (single : location.isSingle wide = true) :
    location.isSingleSource wide = true := by
  simp [isSingleSource, single]

theorem ne_noLocation_of_isSingleSource (source : location.isSingleSource wide = true) :
    location ≠ noLocation := by
  rintro rfl
  simp [isSingleSource, isConstant, isSingle, getKind] at source

theorem isConstant_eq_false_of_isSingle (single : location.isSingle wide = true) :
    location.isConstant = false := by
  cases location <;> simp_all [isSingle, isConstant, getKind]

theorem contains_eq_of_isSingleSource (source : location.isSingleSource wide = true) (other : Location) :
    location.contains other = (location == other) := by
  have whole : (location.isPair || location.isDoubleStackSlot) = false := by
    cases location <;> simp_all [isSingleSource, isSingle, isConstant, isPair, isDoubleStackSlot, getKind]
  simp [contains, whole]

theorem overlapsWith_iff_of_isSingleSource (source : location.isSingleSource wide = true)
    (otherSource : other.isSingleSource wide = true) :
    location.overlapsWith other = true ↔ location = other := by
  rw [overlapsWith, contains_eq_of_isSingleSource source, contains_eq_of_isSingleSource otherSource]
  simp only [Bool.or_eq_true, beq_iff_eq]
  exact ⟨fun equal => equal.elim id Eq.symm, Or.inl⟩

theorem not_mem_cells_of_ne (source : location.isSingleSource wide = true)
    (single : other.isSingle wide = true) (different : location ≠ other) :
    ∀ cell ∈ location.cells, cell ∉ other.cells := by
  cases location <;> cases other <;> simp_all [isSingleSource, isSingle, isConstant, getKind, cells]

theorem read_lt (source : location.isSingleSource wide = true) (store : Store) :
    location.read store wide < 2 ^ registerWidth wide := by
  cases location with
  | constant bits => exact Nat.mod_lt _ (Nat.two_pow_pos _)
  | register reg => exact Nat.mod_lt _ (Nat.two_pow_pos _)
  | fpuRegister reg => exact Nat.mod_lt _ (Nat.two_pow_pos _)
  | stackSlot stackIndex =>
      -- only a 32-bit value lives in one stack slot
      have narrow : wide = false := by simpa [isSingleSource, isSingle, isConstant, getKind] using source
      subst narrow
      simp [read, cells, Foundation.WordStore.readWords, registerWidth, Nat.mod_lt]
  | _ => simp [isSingleSource, isSingle, isConstant, getKind] at source

theorem read_congr (source : location.isSingleSource wide = true) {store other : Store}
    (same : ∀ cell ∈ location.cells, store cell = other cell) :
    location.read store wide = location.read other wide := by
  cases location <;>
    simp_all [isSingleSource, isSingle, isConstant, getKind, read, cells,
      Foundation.WordStore.readWords]

theorem read_write_self (single : location.isSingle wide = true) {value : Nat}
    (fits : value < 2 ^ registerWidth wide) (store : Store) :
    location.read (location.write store wide value) wide = value := by
  cases location <;>
    simp_all [isSingle, read, write, cells, registerWidth, Nat.mod_eq_of_lt,
      Foundation.WordStore.readWords, Foundation.WordStore.writeWords]

theorem read_write_of_ne (source : location.isSingleSource wide = true)
    (single : other.isSingle wide = true) (different : location ≠ other) (store : Store)
    (value : Nat) : location.read (other.write store wide value) wide = location.read store wide :=
  read_congr source fun cell member =>
    write_of_not_mem (not_mem_cells_of_ne source single different cell member)

theorem eq_of_mem_cells (single : location.isSingle wide = true)
    (otherSingle : other.isSingle wide = true) {cell : Cell} (member : cell ∈ location.cells)
    (otherMember : cell ∈ other.cells) : location = other := by
  by_contra different
  exact not_mem_cells_of_ne (isSingleSource_of_isSingle single) otherSingle different cell member
    otherMember

end Location

namespace MoveOperands

/-- A move of a value of width `wide` from a single cell or a constant to a single cell. -/
def isSingle (wide : Bool) (move : MoveOperands) : Bool :=
  move.type.is64BitType == wide && move.source.isSingleSource wide && move.destination.isSingle wide

variable {wide : Bool} {move : MoveOperands}

theorem is64BitType_of_isSingle (single : move.isSingle wide = true) : move.type.is64BitType = wide := by
  simp only [isSingle, Bool.and_eq_true, beq_iff_eq] at single
  exact single.1.1

theorem source_of_isSingle (single : move.isSingle wide = true) :
    move.source.isSingleSource wide = true := by
  simp only [isSingle, Bool.and_eq_true] at single
  exact single.1.2

theorem destination_of_isSingle (single : move.isSingle wide = true) :
    move.destination.isSingle wide = true := by
  simp only [isSingle, Bool.and_eq_true] at single
  exact single.2

@[simp] theorem isEliminated_eliminate (move : MoveOperands) : move.eliminate.isEliminated = true := rfl

@[simp] theorem type_eliminate (move : MoveOperands) : move.eliminate.type = move.type := rfl

theorem isEliminated_eq_false_iff : move.isEliminated = false ↔ move.source ≠ .noLocation :=
  Location.isInvalid_eq_false_iff

theorem blocks_of_isEliminated (eliminated : move.isEliminated = true) (location : Location) :
    move.blocks location = false := by
  simp [blocks, eliminated]

theorem blocks_iff (left : move.isEliminated = false) (source : move.source.isSingleSource wide = true)
    {location : Location} (single : location.isSingleSource wide = true) :
    move.blocks location = true ↔ move.source = location := by
  simp [blocks, left, Location.overlapsWith_iff_of_isSingleSource source single]

theorem isPending_eq_false_iff (left : move.isEliminated = false) :
    move.isPending = false ↔ move.destination ≠ .noLocation := by
  have present := isEliminated_eq_false_iff.mp left
  have valid : move.source.isValid = true := by
    cases source : move.source <;> simp_all [Location.isValid, Location.getKind]
  simp [isPending, valid]

theorem isRedundant_eq_true_iff (left : move.isEliminated = false)
    (hasDestination : move.destination ≠ .noLocation) :
    move.isRedundant = true ↔ move.source = move.destination := by
  have destinationValid : move.destination.isInvalid = false :=
    Location.isInvalid_eq_false_iff.mpr hasDestination
  simp [isRedundant, left, destinationValid]

theorem source_eq_of_isRedundant (redundant : move.isRedundant = true) (left : move.isEliminated = false)
    (hasDestination : move.destination ≠ .noLocation) : move.source = move.destination :=
  (isRedundant_eq_true_iff left hasDestination).mp redundant

end MoveOperands

/-! ## The code a resolver emits -/

theorem execute_append_singleton (store : Store) (emitted : List Emitted) (instruction : Emitted) :
    execute store (emitted ++ [instruction]) = instruction.run (execute store emitted) := by
  simp [execute, List.foldl_append]

namespace Emitted

section Swap

variable {wide : Bool} {source destination : Location} {type : DataType}
  (wideType : type.is64BitType = wide) (sourceSingle : source.isSingle wide = true)
  (destinationSingle : destination.isSingle wide = true)
include wideType sourceSingle destinationSingle

theorem read_run_swap_destination (store : Store) :
    destination.read ((swap source destination type).run store) wide = source.read store wide := by
  subst wideType
  exact Location.read_write_self destinationSingle
    (Location.read_lt (Location.isSingleSource_of_isSingle sourceSingle) store) _

theorem read_run_swap_source (different : source ≠ destination) (store : Store) :
    source.read ((swap source destination type).run store) wide = destination.read store wide := by
  subst wideType
  simp only [run]
  rw [Location.read_write_of_ne (Location.isSingleSource_of_isSingle sourceSingle) destinationSingle
    different, Location.read_write_self sourceSingle
      (Location.read_lt (Location.isSingleSource_of_isSingle destinationSingle) store)]

theorem read_run_swap_of_ne {location : Location} (locationSource : location.isSingleSource wide = true)
    (notSource : location ≠ source) (notDestination : location ≠ destination) (store : Store) :
    location.read ((swap source destination type).run store) wide = location.read store wide := by
  subst wideType
  simp only [run]
  rw [Location.read_write_of_ne locationSource destinationSingle notDestination,
    Location.read_write_of_ne locationSource sourceSingle notSource]

end Swap

end Emitted

namespace ParallelMoveResolver

variable {resolver : ParallelMoveResolver} {index other : Nat} {move : MoveOperands}

@[simp] theorem moves_emitMove (resolver : ParallelMoveResolver) (index : Nat) :
    (resolver.emitMove index).moves = resolver.moves := rfl

@[simp] theorem emitted_emitMove (resolver : ParallelMoveResolver) (index : Nat) :
    (resolver.emitMove index).emitted = resolver.emitted ++
      [.move (resolver.moveAt index).source (resolver.moveAt index).destination
        (resolver.moveAt index).type] := rfl

@[simp] theorem moveAt_emitMove (resolver : ParallelMoveResolver) (index other : Nat) :
    (resolver.emitMove index).moveAt other = resolver.moveAt other := rfl

@[simp] theorem emitted_setMove (resolver : ParallelMoveResolver) (index : Nat) (move : MoveOperands) :
    (resolver.setMove index move).emitted = resolver.emitted := rfl

@[simp] theorem length_setMove (resolver : ParallelMoveResolver) (index : Nat) (move : MoveOperands) :
    (resolver.setMove index move).moves.length = resolver.moves.length :=
  List.length_set ..

theorem moveAt_setMove_self (inBounds : index < resolver.moves.length) :
    (resolver.setMove index move).moveAt index = move := by
  simp [moveAt, setMove, List.getD_eq_getElem?_getD, inBounds]

theorem moveAt_setMove_of_ne (different : other ≠ index) :
    (resolver.setMove index move).moveAt other = resolver.moveAt other := by
  simp [moveAt, setMove, List.getD_eq_getElem?_getD, Ne.symm different]

theorem moveAt_of_le (outOfBounds : resolver.moves.length ≤ index) : resolver.moveAt index = default :=
  List.getD_eq_default _ _ outOfBounds

/-! ## A worklist that stands for a parallel move -/

section Represents

variable (wide : Bool) (original : List MoveOperands)

/-- The worklist of `resolver` and its code stand for the parallel move `original`
of values of width `wide`: the moves keep their places, types and destinations
(cleared while pending), a move left reads after the code the value its original
source had before, an eliminated move has put that value into its destination,
and the code writes only destinations. -/
structure Represents (resolver : ParallelMoveResolver) : Prop where
  length_eq : resolver.moves.length = original.length
  type_eq : ∀ i, (resolver.moveAt i).type = (original.getD i default).type
  source_single : ∀ i < original.length, (resolver.moveAt i).isEliminated = false →
    (resolver.moveAt i).source.isSingleSource wide = true
  destination_eq : ∀ i < original.length, (resolver.moveAt i).isEliminated = false →
    (resolver.moveAt i).destination = (original.getD i default).destination ∨
      (resolver.moveAt i).destination = .noLocation
  source_read : ∀ i < original.length, (resolver.moveAt i).isEliminated = false → ∀ initial,
    (resolver.moveAt i).source.read (execute initial resolver.emitted) wide =
      (original.getD i default).source.read initial wide
  done : ∀ i < original.length, (resolver.moveAt i).isEliminated = true → ∀ initial,
    (original.getD i default).destination.read (execute initial resolver.emitted) wide =
      (original.getD i default).source.read initial wide
  writes : ∀ instruction ∈ resolver.emitted, ∀ cell ∈ instruction.writes,
    ∃ move ∈ original, cell ∈ move.destination.cells

end Represents

section Steps

variable {wide : Bool} {original : List MoveOperands}
  (singles : ∀ move ∈ original, move.isSingle wide = true)

theorem getD_isSingle (singles : ∀ move ∈ original, move.isSingle wide = true) {i : Nat}
    (inBounds : i < original.length) : (original.getD i default).isSingle wide = true := by
  rw [List.getD_eq_getElem _ _ inBounds]
  exact singles _ (List.getElem_mem inBounds)

theorem destination_injective (distinct : (original.map MoveOperands.destination).Nodup) {i j : Nat}
    (iInBounds : i < original.length) (jInBounds : j < original.length)
    (same : (original.getD i default).destination = (original.getD j default).destination) : i = j := by
  rw [List.getD_eq_getElem _ _ iInBounds, List.getD_eq_getElem _ _ jInBounds] at same
  have iMapped : i < (original.map MoveOperands.destination).length := by simpa using iInBounds
  have jMapped : j < (original.map MoveOperands.destination).length := by simpa using jInBounds
  have mapped : (original.map MoveOperands.destination)[i] =
      (original.map MoveOperands.destination)[j] := by
    simpa using same
  exact (distinct.getElem_inj_iff).mp mapped

theorem getD_mem {i : Nat} (inBounds : i < original.length) : original.getD i default ∈ original := by
  rw [List.getD_eq_getElem _ _ inBounds]
  exact List.getElem_mem inBounds

include singles

theorem represents_start : Represents wide original ⟨original, []⟩ where
  length_eq := rfl
  type_eq _ := rfl
  source_single _ inBounds _ := MoveOperands.source_of_isSingle (getD_isSingle singles inBounds)
  destination_eq _ _ _ := Or.inl rfl
  source_read _ _ _ _ := rfl
  done i inBounds eliminated := by
    have left : (original.getD i default).isEliminated = false :=
      MoveOperands.isEliminated_eq_false_iff.mpr (Location.ne_noLocation_of_isSingleSource
        (MoveOperands.source_of_isSingle (getD_isSingle singles inBounds)))
    exact Bool.noConfusion (eliminated.symm.trans left)
  writes := by simp

namespace Represents

variable {resolver : ParallelMoveResolver} {index : Nat}

omit singles in
/-- Replacing the move at `index` keeps the relation when the new move has the
same type and either still reads its original value or has finished. -/
theorem setMove (represents : Represents wide original resolver) (inBounds : index < original.length)
    {move : MoveOperands} (typeEq : move.type = (resolver.moveAt index).type)
    (remains : move.isEliminated = false →
      move.source.isSingleSource wide = true ∧
      (move.destination = (original.getD index default).destination ∨
        move.destination = .noLocation) ∧
      ∀ initial, move.source.read (execute initial resolver.emitted) wide =
        (original.getD index default).source.read initial wide)
    (finished : move.isEliminated = true → ∀ initial,
      (original.getD index default).destination.read (execute initial resolver.emitted) wide =
        (original.getD index default).source.read initial wide) :
    Represents wide original (resolver.setMove index move) := by
  have indexInMoves : index < resolver.moves.length := represents.length_eq ▸ inBounds
  have atIndex := @ParallelMoveResolver.moveAt_setMove_self resolver index move indexInMoves
  have atOther : ∀ j, j ≠ index → (resolver.setMove index move).moveAt j = resolver.moveAt j :=
    fun _ different => ParallelMoveResolver.moveAt_setMove_of_ne different
  refine ⟨by simpa using represents.length_eq, fun j => ?_, fun j jInBounds left => ?_,
    fun j jInBounds left => ?_, fun j jInBounds left => ?_, fun j jInBounds eliminated => ?_,
    represents.writes⟩
  all_goals by_cases same : j = index
  · subst same
    rw [atIndex, typeEq, represents.type_eq]
  · rw [atOther j same, represents.type_eq]
  · subst same
    rw [atIndex] at left ⊢
    exact (remains left).1
  · rw [atOther j same] at left ⊢
    exact represents.source_single j jInBounds left
  · subst same
    rw [atIndex] at left ⊢
    exact (remains left).2.1
  · rw [atOther j same] at left ⊢
    exact represents.destination_eq j jInBounds left
  · subst same
    rw [atIndex] at left ⊢
    exact (remains left).2.2
  · rw [atOther j same] at left ⊢
    exact represents.source_read j jInBounds left
  · subst same
    rw [atIndex] at eliminated
    exact finished eliminated
  · rw [atOther j same] at eliminated
    exact represents.done j jInBounds eliminated

omit singles in
theorem lt_of_left (represents : Represents wide original resolver) {k : Nat}
    (left : (resolver.moveAt k).isEliminated = false) : k < original.length := by
  by_contra outside
  rw [ParallelMoveResolver.moveAt_of_le (represents.length_eq ▸ Nat.not_lt.mp outside)] at left
  exact Bool.noConfusion left

theorem width_eq (represents : Represents wide original resolver) (inBounds : index < original.length) :
    (resolver.moveAt index).type.is64BitType = wide := by
  rw [represents.type_eq index]
  exact MoveOperands.is64BitType_of_isSingle (getD_isSingle singles inBounds)

theorem emitMove (distinct : (original.map MoveOperands.destination).Nodup)
    (represents : Represents wide original resolver) (inBounds : index < original.length)
    (left : (resolver.moveAt index).isEliminated = false)
    (destinationEq : (resolver.moveAt index).destination = (original.getD index default).destination)
    (unread : ∀ j < original.length, j ≠ index → (resolver.moveAt j).isEliminated = false →
      (resolver.moveAt j).source ≠ (original.getD index default).destination) :
    Represents wide original (resolver.emitMove index) := by
  have destinationSingle := MoveOperands.destination_of_isSingle (getD_isSingle singles inBounds)
  have run : ∀ initial, execute initial (resolver.emitMove index).emitted =
      (original.getD index default).destination.write (execute initial resolver.emitted) wide
        ((resolver.moveAt index).source.read (execute initial resolver.emitted) wide) := by
    intro initial
    rw [ParallelMoveResolver.emitted_emitMove, execute_append_singleton, Emitted.run,
      represents.width_eq singles inBounds, destinationEq]
  refine ⟨represents.length_eq, represents.type_eq, represents.source_single, represents.destination_eq,
    fun j jInBounds jLeft initial => ?_, fun j jInBounds eliminated initial => ?_,
    fun instruction member cell written => ?_⟩
  · have jSource := represents.source_single j jInBounds jLeft
    rw [ParallelMoveResolver.moveAt_emitMove, run]
    by_cases reread : (resolver.moveAt j).source = (original.getD index default).destination
    · -- only the move itself may read its own destination
      have same : j = index := by
        by_contra different
        exact unread j jInBounds different jLeft reread
      subst same
      rw [reread] at jSource ⊢
      rw [Location.read_write_self destinationSingle (Location.read_lt jSource _), ← reread]
      exact represents.source_read j jInBounds jLeft initial
    · rw [Location.read_write_of_ne jSource destinationSingle reread]
      exact represents.source_read j jInBounds jLeft initial
  · have different : j ≠ index := by
      rintro rfl
      exact Bool.noConfusion (eliminated.symm.trans left)
    have jDestination := Location.isSingleSource_of_isSingle
      (MoveOperands.destination_of_isSingle (getD_isSingle singles jInBounds))
    rw [run, Location.read_write_of_ne jDestination destinationSingle
      (fun same => different (destination_injective distinct jInBounds inBounds same))]
    exact represents.done j jInBounds eliminated initial
  · rw [ParallelMoveResolver.emitted_emitMove, List.mem_append, List.mem_singleton] at member
    rcases member with old | new
    · exact represents.writes instruction old cell written
    · subst new
      rw [Emitted.writes, destinationEq] at written
      exact ⟨_, getD_mem inBounds, written⟩

/-- `EmitMove(index)` followed by `Eliminate()`, for a move that no other move
left reads from: its destination now holds its value. -/
theorem emitMove_eliminate (distinct : (original.map MoveOperands.destination).Nodup)
    (represents : Represents wide original resolver) (inBounds : index < original.length)
    (left : (resolver.moveAt index).isEliminated = false)
    (destinationEq : (resolver.moveAt index).destination = (original.getD index default).destination)
    (unread : ∀ j < original.length, j ≠ index → (resolver.moveAt j).isEliminated = false →
      (resolver.moveAt j).source ≠ (original.getD index default).destination) :
    Represents wide original ((resolver.emitMove index).eliminate index) := by
  have emitted := represents.emitMove singles distinct inBounds left destinationEq unread
  refine emitted.setMove inBounds rfl (fun stillLeft => by simp at stillLeft) fun _ initial => ?_
  have destinationSingle := MoveOperands.destination_of_isSingle (getD_isSingle singles inBounds)
  rw [ParallelMoveResolver.emitted_emitMove, execute_append_singleton, Emitted.run,
    represents.width_eq singles inBounds, destinationEq, Location.read_write_self destinationSingle
      (Location.read_lt (represents.source_single index inBounds left) _)]
  exact represents.source_read index inBounds left initial

omit singles in
theorem eliminate_self (represents : Represents wide original resolver) (inBounds : index < original.length)
    (left : (resolver.moveAt index).isEliminated = false)
    (self : (resolver.moveAt index).source = (original.getD index default).destination) :
    Represents wide original (resolver.eliminate index) := by
  refine represents.setMove inBounds rfl (fun stillLeft => by simp at stillLeft) fun _ initial => ?_
  rw [← self]
  exact represents.source_read index inBounds left initial

omit singles in
theorem setDestination (represents : Represents wide original resolver) (inBounds : index < original.length)
    (left : (resolver.moveAt index).isEliminated = false) {destination : Location}
    (allowed : destination = (original.getD index default).destination ∨ destination = .noLocation) :
    Represents wide original (resolver.setMove index { resolver.moveAt index with destination }) :=
  represents.setMove inBounds rfl
    (fun _ => ⟨represents.source_single index inBounds left, allowed,
      represents.source_read index inBounds left⟩)
    fun eliminated => absurd (eliminated.symm.trans left) Bool.noConfusion

theorem performs (represents : Represents wide original resolver)
    (allDone : ∀ i < original.length, (resolver.moveAt i).isEliminated = true) (initial : Store) :
    SimultaneousAssignment original [] initial (execute initial resolver.emitted) := by
  refine ⟨fun move member _ => ?_, fun cell outside _ => ?_⟩
  · obtain ⟨i, inBounds, rfl⟩ := List.getElem_of_mem member
    have single := getD_isSingle singles inBounds
    rw [List.getD_eq_getElem _ _ inBounds] at single
    have done := represents.done i inBounds (allDone i inBounds) initial
    rw [List.getD_eq_getElem _ _ inBounds] at done
    rw [MoveOperands.is64BitMove, MoveOperands.is64BitType_of_isSingle single]
    exact done
  · refine execute_of_not_mem_writes (fun instruction member written => ?_) initial
    obtain ⟨move, original, inDestination⟩ := represents.writes instruction member cell written
    exact outside move original inDestination

end Represents

end Steps

end ParallelMoveResolver

/-- A parallel move performed without its redundant moves is performed: a move
from a single cell to itself keeps its cell, which no other move writes and which
is no scratch cell. -/
theorem simultaneousAssignment_of_buildInitialMoveList {wide : Bool} {parallelMove : List MoveOperands}
    (singles : ∀ move ∈ parallelMove, move.isSingle wide = true)
    (distinct : (parallelMove.map MoveOperands.destination).Nodup) {scratch : List Cell}
    (apart : ∀ move ∈ parallelMove, ∀ cell ∈ move.destination.cells, cell ∉ scratch) {initial final : Store}
    (performed : SimultaneousAssignment (buildInitialMoveList parallelMove) scratch initial final) :
    SimultaneousAssignment parallelMove scratch initial final := by
  have kept : ∀ move ∈ buildInitialMoveList parallelMove, move ∈ parallelMove :=
    fun move member => (List.mem_filter.mp member).1
  refine ⟨fun move member hasDestination => ?_, fun cell outside scratch =>
    performed.2 cell (fun move member => outside move (kept move member)) scratch⟩
  by_cases initialMove : move ∈ buildInitialMoveList parallelMove
  · exact performed.1 move initialMove hasDestination
  · -- a redundant move reads its own destination, whose cells no kept move writes
    have single := singles move member
    have redundant : move.isRedundant = true := by
      simpa [buildInitialMoveList, member] using initialMove
    have left := MoveOperands.isEliminated_eq_false_iff.mpr
      (Location.ne_noLocation_of_isSingleSource (MoveOperands.source_of_isSingle single))
    have self := MoveOperands.source_eq_of_isRedundant redundant left hasDestination
    have destinationSingle := MoveOperands.destination_of_isSingle single
    have unchanged : ∀ cell ∈ move.destination.cells, final cell = initial cell := by
      intro cell inDestination
      refine performed.2 cell (fun other otherMember inOther => ?_) (apart move member cell inDestination)
      have same := Location.eq_of_mem_cells destinationSingle
        (MoveOperands.destination_of_isSingle (singles other (kept other otherMember)))
        inDestination inOther
      have equal := List.inj_on_of_nodup_map distinct member (kept other otherMember) same
      exact initialMove (equal ▸ otherMember)
    rw [MoveOperands.is64BitMove, MoveOperands.is64BitType_of_isSingle single, self]
    exact Location.read_congr (Location.isSingleSource_of_isSingle destinationSingle) unchanged

end ArtRuntime.Compiler
