import Mathlib
import ArtRuntime.Compiler.ParallelMoveResolverNoSwap
import ArtRuntime.Compiler.ParallelMoveResolverWithSwapCorrectness

/-! # What each step of the resolver without swaps keeps

The resolver without swaps moves values through scratch locations: a move in a
cycle first copies its source into a scratch location, and the move from there
into its destination waits among the pending moves. `Carries` says what the
worklist, the pending moves and the emitted code stand for, on a parallel move of
single cells of one width: a move left reads after the code the value its
original source had before, a pending move reads the value of the eliminated move
it finishes, and an eliminated move has put its value into its destination unless
a pending move is still to. `ScratchesSound` is the bookkeeping of VIXL's scratch
registers: each is free or a scratch location, and a move reads one only while it
is a scratch location.

Every step of `PerformMove` keeps both: emitting a move into a destination that no
move reads (`Carries.emitOwn`), breaking a cycle through a scratch location that no
move reads (`Carries.breakCycle`), performing a pending move whose destination no
move reads (`Carries.performPending`), and redirecting the moves that read a
location to another that holds the same value (`Carries.updateMoveSource`).
-/

namespace ArtRuntime.Compiler

namespace ScratchRegisters

/-- The scratch registers as locations: the core ones, then the floating-point ones. -/
def locations (registers : ScratchRegisters) : List Location :=
  registers.core.map .register ++ registers.fpu.map .fpuRegister

/-- The cells of the scratch registers. -/
def cells (registers : ScratchRegisters) : List Cell :=
  registers.core.map .core ++ registers.fpu.map .fpu

variable {registers : ScratchRegisters} {loc : Location}

theorem mem_locations : loc ∈ registers.locations ↔
    (∃ reg ∈ registers.core, loc = .register reg) ∨ ∃ reg ∈ registers.fpu, loc = .fpuRegister reg := by
  simp [locations, eq_comm]

theorem isSingle_of_mem_locations (member : loc ∈ registers.locations) (wide : Bool) :
    loc.isSingle wide = true := by
  rcases mem_locations.mp member with ⟨reg, _, rfl⟩ | ⟨reg, _, rfl⟩ <;> rfl

theorem mem_cells_of_mem_locations (member : loc ∈ registers.locations) {cell : Cell}
    (inLocation : cell ∈ loc.cells) : cell ∈ registers.cells := by
  rcases mem_locations.mp member with ⟨reg, taken, rfl⟩ | ⟨reg, taken, rfl⟩ <;>
    simp_all [cells, Location.cells]

theorem mem_locations_of_mem_cells {wide : Bool} (single : loc.isSingle wide = true) {cell : Cell}
    (inLocation : cell ∈ loc.cells) (temp : cell ∈ registers.cells) : loc ∈ registers.locations := by
  cases loc <;> simp_all [Location.isSingle, Location.cells, cells, locations]

theorem locations_nodup (core : registers.core.Nodup) (fpu : registers.fpu.Nodup) :
    registers.locations.Nodup :=
  List.Nodup.append (core.map fun _ _ same => Location.register.inj same)
    (fpu.map fun _ _ same => Location.fpuRegister.inj same) (by simp [List.Disjoint])

theorem acquire_eq_some {available rest : List Nat} {reg : Nat}
    (acquired : acquire available = some (reg, rest)) : reg ∈ available ∧ rest = available.erase reg := by
  obtain ⟨lowest, found, same⟩ := Option.map_eq_some_iff.mp acquired
  cases same
  exact ⟨List.min?_mem found, rfl⟩

theorem acquire_isSome {available : List Nat} (nonempty : available ≠ []) :
    ∃ reg rest, acquire available = some (reg, rest) := by
  obtain ⟨lowest, found⟩ := Option.isSome_iff_exists.mp (List.isSome_min?_of_ne_nil nonempty)
  exact ⟨lowest, available.erase lowest, by simp [acquire, found]⟩

theorem release_eq_cons {available : List Nat} {reg : Nat} (notMember : reg ∉ available) :
    release available reg = reg :: available := by
  simp [release, notMember]

theorem locations_erase_core (registers : ScratchRegisters) (reg : Nat) :
    ({ registers with core := registers.core.erase reg } : ScratchRegisters).locations =
      registers.locations.erase (.register reg) := by
  simp only [locations]
  rw [List.map_erase fun _ _ same => by cases same; rfl]
  by_cases member : reg ∈ registers.core
  · rw [List.erase_append_left _ (List.mem_map_of_mem member)]
  · rw [List.erase_of_not_mem (by simpa using member), List.erase_of_not_mem (by simp [member])]

theorem locations_erase_fpu (registers : ScratchRegisters) (reg : Nat) :
    ({ registers with fpu := registers.fpu.erase reg } : ScratchRegisters).locations =
      registers.locations.erase (.fpuRegister reg) := by
  simp only [locations]
  rw [List.map_erase fun _ _ same => by cases same; rfl, List.erase_append_right _ (by simp)]

theorem locations_release_core (registers : ScratchRegisters) {reg : Nat} (notMember : reg ∉ registers.core) :
    ({ registers with core := release registers.core reg } : ScratchRegisters).locations =
      .register reg :: registers.locations := by
  simp [locations, release_eq_cons notMember]

theorem locations_release_fpu (registers : ScratchRegisters) {reg : Nat} (notMember : reg ∉ registers.fpu) :
    ({ registers with fpu := release registers.fpu reg } : ScratchRegisters).locations.Perm
      (.fpuRegister reg :: registers.locations) := by
  simp only [locations, release_eq_cons notMember, List.map_cons]
  exact List.perm_middle

end ScratchRegisters

namespace ParallelMoveResolverNoSwap

open ParallelMoveResolver ScratchRegisters

/-! ## The operations, field by field -/

section Fields

variable (resolver : ParallelMoveResolverNoSwap) (index j : Nat) (source destination : Location)

theorem length_emitAs : (resolver.emitAs index source destination).moves.length = resolver.moves.length := by
  simp [emitAs, lift, ParallelMoveResolver.eliminate]

variable {index j} in
theorem moveAt_emitAs_of_ne (different : j ≠ index) :
    (resolver.emitAs index source destination).moveAt j = resolver.moveAt j := by
  simp only [emitAs, lift, ParallelMoveResolver.eliminate]
  rw [moveAt_setMove_of_ne different, moveAt_emitMove, moveAt_setMove_of_ne different]

variable {index} in
theorem moveAt_emitAs_self (inBounds : index < resolver.moves.length) :
    (resolver.emitAs index source destination).moveAt index =
      { resolver.moveAt index with source := .noLocation, destination := .noLocation } := by
  simp only [emitAs, lift, ParallelMoveResolver.eliminate]
  rw [moveAt_setMove_self (by simpa using inBounds), moveAt_emitMove, moveAt_setMove_self inBounds]
  rfl

variable {index} in
theorem emitted_emitAs (inBounds : index < resolver.moves.length) :
    (resolver.emitAs index source destination).emitted =
      resolver.emitted ++ [.move source destination (resolver.moveAt index).type] := by
  simp only [emitAs, lift, ParallelMoveResolver.eliminate, emitted_setMove, emitted_emitMove]
  rw [moveAt_setMove_self inBounds]

@[simp] theorem pendingMoves_emitAs :
    (resolver.emitAs index source destination).pendingMoves = resolver.pendingMoves := rfl

@[simp] theorem scratches_emitAs :
    (resolver.emitAs index source destination).scratches = resolver.scratches := rfl

@[simp] theorem vixlTemps_emitAs :
    (resolver.emitAs index source destination).vixlTemps = resolver.vixlTemps := rfl

theorem length_updateMoveSource :
    (resolver.updateMoveSource source destination).moves.length = resolver.moves.length := by
  simp [updateMoveSource]

theorem moveAt_updateMoveSource (valid : source ≠ .noLocation) :
    (resolver.updateMoveSource source destination).moveAt j =
      if (resolver.moveAt j).source = source then { resolver.moveAt j with source := destination }
      else resolver.moveAt j := by
  have fixed : (fun move : MoveOperands =>
      if (move.source == source) = true then { move with source := destination } else move) default =
        default := by
    simp [show (default : MoveOperands).source = .noLocation from rfl, Ne.symm valid]
  have expand : (resolver.updateMoveSource source destination).moveAt j =
      (fun move : MoveOperands =>
        if (move.source == source) = true then { move with source := destination } else move)
        (resolver.moveAt j) :=
    ParallelMoveResolverWithSwap.getD_map_of_fixed (f := fun move : MoveOperands =>
      if (move.source == source) = true then { move with source := destination } else move) fixed _ j
  rw [expand]
  simp only [beq_iff_eq]

@[simp] theorem emitted_updateMoveSource :
    (resolver.updateMoveSource source destination).emitted = resolver.emitted := rfl

@[simp] theorem pendingMoves_updateMoveSource :
    (resolver.updateMoveSource source destination).pendingMoves = resolver.pendingMoves := rfl

@[simp] theorem scratches_updateMoveSource :
    (resolver.updateMoveSource source destination).scratches = resolver.scratches := rfl

@[simp] theorem vixlTemps_updateMoveSource :
    (resolver.updateMoveSource source destination).vixlTemps = resolver.vixlTemps := rfl

variable {source destination} in
theorem isEliminated_updateMoveSource (valid : source ≠ .noLocation) (replacementValid : destination ≠ .noLocation) :
    ((resolver.updateMoveSource source destination).moveAt j).isEliminated = (resolver.moveAt j).isEliminated := by
  rw [moveAt_updateMoveSource resolver j source destination valid]
  split
  · rename_i reads
    simp only [MoveOperands.isEliminated, reads]
    rw [Location.isInvalid_eq_false_iff.mpr valid, Location.isInvalid_eq_false_iff.mpr replacementValid]
  · rfl

variable {source destination} in
theorem source_updateMoveSource_ne (valid : source ≠ .noLocation) (apart : source ≠ destination) :
    ((resolver.updateMoveSource source destination).moveAt j).source ≠ source := by
  rw [moveAt_updateMoveSource resolver j source destination valid]
  split
  · exact Ne.symm apart
  · assumption

theorem addPendingMove_updateMoveSource (replaced replacement : Location) (type : DataType) :
    (resolver.updateMoveSource replaced replacement).addPendingMove source destination type =
      (resolver.addPendingMove source destination type).updateMoveSource replaced replacement := rfl

@[simp] theorem toParallelMoveResolver_addPendingMove (type : DataType) :
    (resolver.addPendingMove source destination type).toParallelMoveResolver =
      resolver.toParallelMoveResolver := rfl

@[simp] theorem pendingMoves_addPendingMove (type : DataType) :
    (resolver.addPendingMove source destination type).pendingMoves =
      resolver.pendingMoves ++ [⟨source, destination, type⟩] := rfl

@[simp] theorem scratches_addPendingMove (type : DataType) :
    (resolver.addPendingMove source destination type).scratches = resolver.scratches := rfl

@[simp] theorem vixlTemps_addPendingMove (type : DataType) :
    (resolver.addPendingMove source destination type).vixlTemps = resolver.vixlTemps := rfl

@[simp] theorem toParallelMoveResolver_deletePendingMove (move : MoveOperands) :
    (resolver.deletePendingMove move).toParallelMoveResolver = resolver.toParallelMoveResolver := rfl

@[simp] theorem pendingMoves_deletePendingMove (move : MoveOperands) :
    (resolver.deletePendingMove move).pendingMoves = resolver.pendingMoves.erase move := rfl

@[simp] theorem scratches_deletePendingMove (move : MoveOperands) :
    (resolver.deletePendingMove move).scratches = resolver.scratches := rfl

@[simp] theorem vixlTemps_deletePendingMove (move : MoveOperands) :
    (resolver.deletePendingMove move).vixlTemps = resolver.vixlTemps := rfl

theorem isBlockedByMoves_eq_false_iff (loc : Location) :
    resolver.isBlockedByMoves loc = false ↔
      (∀ move ∈ resolver.pendingMoves, move.blocks loc = false) ∧
        ∀ move ∈ resolver.moves, move.blocks loc = false := by
  simp [isBlockedByMoves]

@[simp] theorem toParallelMoveResolver_freeScratchLocation (loc : Location) :
    (resolver.freeScratchLocation loc).toParallelMoveResolver = resolver.toParallelMoveResolver := rfl

@[simp] theorem pendingMoves_freeScratchLocation (loc : Location) :
    (resolver.freeScratchLocation loc).pendingMoves = resolver.pendingMoves := rfl

@[simp] theorem scratches_freeScratchLocation (loc : Location) :
    (resolver.freeScratchLocation loc).scratches = resolver.scratches.erase loc := rfl

theorem locations_freeScratchLocation {loc : Location}
    (register : (∃ reg, loc = .register reg) ∨ ∃ reg, loc = .fpuRegister reg)
    (notAvailable : loc ∉ resolver.vixlTemps.locations) :
    (resolver.freeScratchLocation loc).vixlTemps.locations.Perm (loc :: resolver.vixlTemps.locations) := by
  rcases register with ⟨reg, rfl⟩ | ⟨reg, rfl⟩
  · have notMember : reg ∉ resolver.vixlTemps.core := fun member =>
      notAvailable (mem_locations.mpr (.inl ⟨reg, member, rfl⟩))
    exact (locations_release_core _ notMember).symm ▸ List.Perm.refl _
  · have notMember : reg ∉ resolver.vixlTemps.fpu := fun member =>
      notAvailable (mem_locations.mpr (.inr ⟨reg, member, rfl⟩))
    exact locations_release_fpu _ notMember

end Fields

/-! ## Scratch locations: where they come from and where they go -/

section Allocation

variable (resolver : ParallelMoveResolverNoSwap)

/-- `GetScratchLocation(kind)` finds nothing, or a location of the kind that no move
reads, among the scratch locations or the destinations of the worklist. -/
theorem getScratchLocation_spec (kind : Location.Kind) :
    resolver.getScratchLocation kind = .noLocation ∨
      ((resolver.getScratchLocation kind).getKind = kind ∧
        resolver.isBlockedByMoves (resolver.getScratchLocation kind) = false ∧
        (resolver.getScratchLocation kind ∈ resolver.scratches ∨
          ∃ move ∈ resolver.moves, move.destination = resolver.getScratchLocation kind)) := by
  unfold getScratchLocation
  split
  · rename_i loc found
    have chosen := List.find?_some found
    simp only [Bool.and_eq_true, beq_iff_eq, Bool.not_eq_true'] at chosen
    exact .inr ⟨chosen.1, chosen.2, .inl (List.mem_of_find?_eq_some found)⟩
  · split
    · rename_i move found
      have chosen := List.find?_some found
      simp only [Bool.and_eq_true, beq_iff_eq, Bool.not_eq_true'] at chosen
      exact .inr ⟨chosen.1, chosen.2, .inr ⟨move, List.mem_of_find?_eq_some found, rfl⟩⟩
    · exact .inl rfl

/-- What `AllocateScratchLocationFor` returns: a register location that no move
reads, among the scratch locations or the destinations, with nothing changed; or a
register VIXL still had, taken from VIXL into the scratch locations. -/
theorem allocateScratchLocationFor_cases {kind : Location.Kind} {scratch : Location}
    {after : ParallelMoveResolverNoSwap}
    (allocated : resolver.allocateScratchLocationFor kind = some (scratch, after)) :
    (after = resolver ∧ scratch ≠ .noLocation ∧ resolver.isBlockedByMoves scratch = false ∧
      (scratch.getKind = .kRegister ∨ scratch.getKind = .kFpuRegister) ∧
      (scratch ∈ resolver.scratches ∨ ∃ move ∈ resolver.moves, move.destination = scratch)) ∨
    (scratch ∈ resolver.vixlTemps.locations ∧
      after.toParallelMoveResolver = resolver.toParallelMoveResolver ∧
      after.pendingMoves = resolver.pendingMoves ∧ after.scratches = resolver.scratches ++ [scratch] ∧
      after.vixlTemps.locations = resolver.vixlTemps.locations.erase scratch) := by
  unfold allocateScratchLocationFor at allocated
  dsimp only at allocated
  have registerKind : (if (kind == .kFpuRegister || kind == .kSIMDStackSlot) = true then
      Location.Kind.kFpuRegister else .kRegister) = .kRegister ∨
      (if (kind == .kFpuRegister || kind == .kSIMDStackSlot) = true then
        Location.Kind.kFpuRegister else .kRegister) = .kFpuRegister := by
    split
    · exact .inr rfl
    · exact .inl rfl
  generalize (if (kind == .kFpuRegister || kind == .kSIMDStackSlot) = true then Location.Kind.kFpuRegister
    else Location.Kind.kRegister) = scratchKind at allocated registerKind
  split at allocated
  · rename_i found
    cases allocated
    rcases getScratchLocation_spec resolver scratchKind with none | ⟨kindEq, unblocked, origin⟩
    · simp [none] at found
    · refine .inl ⟨rfl, fun none => by simp [none] at found, unblocked, by rw [kindEq]; exact registerKind,
        origin⟩
  · split at allocated
    · obtain ⟨⟨reg, core⟩, acquired, same⟩ := Option.map_eq_some_iff.mp allocated
      cases same
      obtain ⟨taken, rfl⟩ := acquire_eq_some acquired
      exact .inr ⟨mem_locations.mpr (.inl ⟨reg, taken, rfl⟩), rfl, rfl, rfl,
        locations_erase_core resolver.vixlTemps reg⟩
    · obtain ⟨⟨reg, fpu⟩, acquired, same⟩ := Option.map_eq_some_iff.mp allocated
      cases same
      obtain ⟨taken, rfl⟩ := acquire_eq_some acquired
      exact .inr ⟨mem_locations.mpr (.inr ⟨reg, taken, rfl⟩), rfl, rfl, rfl,
        locations_erase_fpu resolver.vixlTemps reg⟩

theorem allocateScratchLocationFor_isSome (kind : Location.Kind) (core : resolver.vixlTemps.core ≠ [])
    (fpu : resolver.vixlTemps.fpu ≠ []) :
    ∃ scratch after, resolver.allocateScratchLocationFor kind = some (scratch, after) := by
  unfold allocateScratchLocationFor
  dsimp only
  generalize (if (kind == .kFpuRegister || kind == .kSIMDStackSlot) = true then Location.Kind.kFpuRegister
    else Location.Kind.kRegister) = scratchKind
  split
  · exact ⟨_, _, rfl⟩
  · split
    · obtain ⟨reg, rest, acquired⟩ := acquire_isSome core
      exact ⟨_, _, by rw [acquired]; rfl⟩
    · obtain ⟨reg, rest, acquired⟩ := acquire_isSome fpu
      exact ⟨_, _, by rw [acquired]; rfl⟩

theorem freeScratchLocations_of_nil (empty : resolver.scratches = []) (loc : Location) :
    resolver.freeScratchLocations loc = resolver := by
  simp [freeScratchLocations, empty, freeScratchLocationsFrom]

theorem freeScratchLocations_of_singleton {loc : Location} (single : resolver.scratches = [loc])
    (overlaps : loc.overlapsWith loc = true) (unblocked : resolver.isBlockedByMoves loc = false) :
    resolver.freeScratchLocations loc = resolver.freeScratchLocation loc := by
  simp [freeScratchLocations, single, freeScratchLocationsFrom, overlaps, unblocked]

end Allocation

/-! ## Scratch locations and the values they carry -/

section Invariants

variable (wide : Bool) (original : List MoveOperands) (temps : ScratchRegisters)

/-- The worklist, the pending moves and the code of `resolver` stand for the
parallel move `original` of values of width `wide`, with VIXL's scratch registers
`temps`: the moves keep their places, types and destinations (cleared while
pending); a move left reads after the code the value its original source had
before; a pending move reads the value of the eliminated move whose destination
it writes; an eliminated move has put its value into its destination unless a
pending move is still to; and the code writes only destinations and scratch
registers. -/
structure Carries (resolver : ParallelMoveResolverNoSwap) : Prop where
  length_eq : resolver.moves.length = original.length
  type_eq : ∀ i, (resolver.moveAt i).type = (original.getD i default).type
  source_single : ∀ i < original.length, (resolver.moveAt i).isEliminated = false →
    (resolver.moveAt i).source.isSingleSource wide = true
  destination_eq : ∀ i < original.length, (resolver.moveAt i).isEliminated = false →
    (resolver.moveAt i).destination = (original.getD i default).destination ∨
      (resolver.moveAt i).destination = .noLocation
  eliminated_destination : ∀ i, (resolver.moveAt i).isEliminated = true →
    (resolver.moveAt i).destination = .noLocation
  source_read : ∀ i < original.length, (resolver.moveAt i).isEliminated = false → ∀ initial,
    (resolver.moveAt i).source.read (execute initial resolver.emitted) wide =
      (original.getD i default).source.read initial wide
  pending : ∀ move ∈ resolver.pendingMoves, move.source.isSingle wide = true ∧
    ∃ i < original.length, (resolver.moveAt i).isEliminated = true ∧
      move.destination = (original.getD i default).destination ∧ ∀ initial,
        move.source.read (execute initial resolver.emitted) wide =
          (original.getD i default).source.read initial wide
  done : ∀ i < original.length, (resolver.moveAt i).isEliminated = true →
    (∃ move ∈ resolver.pendingMoves, move.destination = (original.getD i default).destination) ∨
      ∀ initial, (original.getD i default).destination.read (execute initial resolver.emitted) wide =
        (original.getD i default).source.read initial wide
  writes : ∀ instruction ∈ resolver.emitted, ∀ cell ∈ instruction.writes,
    (∃ move ∈ original, cell ∈ move.destination.cells) ∨ cell ∈ temps.cells

/-- The scratch registers of `temps` are each either still free in `vixl_temps_`
or among the scratch locations `scratches_`, each once, and a move left or pending
reads one only while it is a scratch location. -/
structure ScratchesSound (resolver : ParallelMoveResolverNoSwap) : Prop where
  scratches_nodup : resolver.scratches.Nodup
  available_nodup : resolver.vixlTemps.locations.Nodup
  scratch_temp : ∀ loc ∈ resolver.scratches, loc ∈ temps.locations
  available_temp : ∀ loc ∈ resolver.vixlTemps.locations, loc ∈ temps.locations
  available_free : ∀ loc ∈ resolver.vixlTemps.locations, loc ∉ resolver.scratches
  kept : ∀ loc ∈ temps.locations, loc ∈ resolver.vixlTemps.locations ∨ loc ∈ resolver.scratches
  reads_scratch : ∀ i < original.length, (resolver.moveAt i).isEliminated = false →
    (resolver.moveAt i).source ∈ temps.locations → (resolver.moveAt i).source ∈ resolver.scratches
  pending_scratch : ∀ move ∈ resolver.pendingMoves, move.source ∈ temps.locations →
    move.source ∈ resolver.scratches

end Invariants

/-! ## What one emitted move does to single cells -/

section Emission

variable {wide : Bool} {source destination location : Location} {type : DataType}
  (wideType : type.is64BitType = wide) (sourceSingle : source.isSingleSource wide = true)
  (destinationSingle : destination.isSingle wide = true)
include wideType sourceSingle destinationSingle

theorem read_execute_move_self (initial : Store) (emitted : List Emitted) :
    destination.read (execute initial (emitted ++ [.move source destination type])) wide =
      source.read (execute initial emitted) wide := by
  subst wideType
  rw [execute_append_singleton, Emitted.run]
  exact Location.read_write_self destinationSingle (Location.read_lt sourceSingle _) _

omit sourceSingle in
theorem read_execute_move_of_ne (locationSource : location.isSingleSource wide = true)
    (different : location ≠ destination) (initial : Store) (emitted : List Emitted) :
    location.read (execute initial (emitted ++ [.move source destination type])) wide =
      location.read (execute initial emitted) wide := by
  subst wideType
  rw [execute_append_singleton, Emitted.run]
  exact Location.read_write_of_ne locationSource destinationSingle different _ _

theorem read_execute_move_source (initial : Store) (emitted : List Emitted) :
    source.read (execute initial (emitted ++ [.move source destination type])) wide =
      destination.read (execute initial (emitted ++ [.move source destination type])) wide := by
  rw [read_execute_move_self wideType sourceSingle destinationSingle]
  by_cases same : source = destination
  · subst same
    exact read_execute_move_self wideType sourceSingle destinationSingle initial emitted
  · exact read_execute_move_of_ne wideType destinationSingle sourceSingle same initial emitted

end Emission

/-! ## The steps keep `Carries` -/

section Steps

variable {wide : Bool} {original : List MoveOperands} {temps : ScratchRegisters}
  {resolver : ParallelMoveResolverNoSwap} {index : Nat}

namespace Carries

theorem lt_of_left (carries : Carries wide original temps resolver) {k : Nat}
    (left : (resolver.moveAt k).isEliminated = false) : k < original.length := by
  by_contra outside
  rw [ParallelMoveResolver.moveAt_of_le (carries.length_eq ▸ Nat.not_lt.mp outside)] at left
  exact Bool.noConfusion left

theorem congr (carries : Carries wide original temps resolver) {other : ParallelMoveResolverNoSwap}
    (sameBase : other.toParallelMoveResolver = resolver.toParallelMoveResolver)
    (samePending : other.pendingMoves = resolver.pendingMoves) : Carries wide original temps other := by
  obtain ⟨base, pendingMoves, scratches, vixlTemps⟩ := other
  obtain ⟨base', pendingMoves', scratches', vixlTemps'⟩ := resolver
  dsimp only at sameBase samePending
  subst sameBase samePending
  exact ⟨carries.length_eq, carries.type_eq, carries.source_single, carries.destination_eq,
    carries.eliminated_destination, carries.source_read, carries.pending, carries.done, carries.writes⟩

theorem pending_ne_noLocation (carries : Carries wide original temps resolver) {move : MoveOperands}
    (member : move ∈ resolver.pendingMoves) : move.source ≠ .noLocation :=
  Location.ne_noLocation_of_isSingleSource
    (Location.isSingleSource_of_isSingle (carries.pending move member).1)

theorem isBlockedByMoves_eq_false_iff (carries : Carries wide original temps resolver) {loc : Location}
    (single : loc.isSingleSource wide = true) :
    resolver.isBlockedByMoves loc = false ↔
      (∀ move ∈ resolver.pendingMoves, move.source ≠ loc) ∧
        ∀ i < original.length, (resolver.moveAt i).isEliminated = false → (resolver.moveAt i).source ≠ loc := by
  rw [ParallelMoveResolverNoSwap.isBlockedByMoves_eq_false_iff]
  apply and_congr
  · refine forall₂_congr fun move member => ?_
    have pendingSingle := Location.isSingleSource_of_isSingle (carries.pending move member).1
    have left : move.isEliminated = false :=
      MoveOperands.isEliminated_eq_false_iff.mpr (carries.pending_ne_noLocation member)
    rw [← Bool.not_eq_true, MoveOperands.blocks_iff left pendingSingle single]
  · constructor
    · intro unblocked i inBounds left
      have inMoves : i < resolver.moves.length := carries.length_eq ▸ inBounds
      have member : resolver.moveAt i ∈ resolver.moves := by
        rw [ParallelMoveResolver.moveAt, List.getD_eq_getElem _ _ inMoves]
        exact List.getElem_mem inMoves
      intro reads
      have blocked := (MoveOperands.blocks_iff left (carries.source_single i inBounds left) single).mpr reads
      rw [unblocked _ member] at blocked
      exact Bool.false_ne_true blocked
    · intro unread move member
      obtain ⟨i, inMoves, rfl⟩ := List.getElem_of_mem member
      have atIndex : resolver.moveAt i = resolver.moves[i] := by
        rw [ParallelMoveResolver.moveAt, List.getD_eq_getElem _ _ inMoves]
      rw [← atIndex]
      cases left : (resolver.moveAt i).isEliminated
      · have inBounds : i < original.length := carries.length_eq ▸ inMoves
        rw [← Bool.not_eq_true, MoveOperands.blocks_iff left (carries.source_single i inBounds left) single]
        exact unread i inBounds left
      · exact MoveOperands.blocks_of_isEliminated left loc

variable (singles : ∀ move ∈ original, move.isSingle wide = true)

include singles in
theorem width_eq (carries : Carries wide original temps resolver) (inBounds : index < original.length) :
    (resolver.moveAt index).type.is64BitType = wide := by
  rw [carries.type_eq index]
  exact MoveOperands.is64BitType_of_isSingle (getD_isSingle singles inBounds)

omit singles in
/-- Replacing the move at `index`, with the same type, keeps the relation when the
new move still reads its original value or has finished, and stays eliminated if
the old one was. -/
theorem setMove (carries : Carries wide original temps resolver) (inBounds : index < original.length)
    {move : MoveOperands} (typeEq : move.type = (resolver.moveAt index).type)
    (remains : move.isEliminated = false →
      move.source.isSingleSource wide = true ∧
      (move.destination = (original.getD index default).destination ∨
        move.destination = .noLocation) ∧
      ∀ initial, move.source.read (execute initial resolver.emitted) wide =
        (original.getD index default).source.read initial wide)
    (finished : move.isEliminated = true →
      (∃ pending ∈ resolver.pendingMoves,
        pending.destination = (original.getD index default).destination) ∨
      ∀ initial, (original.getD index default).destination.read (execute initial resolver.emitted) wide =
        (original.getD index default).source.read initial wide)
    (eliminatedDestination : move.isEliminated = true → move.destination = .noLocation)
    (keepsEliminated : (resolver.moveAt index).isEliminated = true → move.isEliminated = true) :
    Carries wide original temps (resolver.lift fun base => base.setMove index move) := by
  have indexInMoves : index < resolver.moves.length := carries.length_eq ▸ inBounds
  have atIndex : (resolver.lift fun base => base.setMove index move).moveAt index = move :=
    @ParallelMoveResolver.moveAt_setMove_self resolver.toParallelMoveResolver index move indexInMoves
  have atOther : ∀ j, j ≠ index → (resolver.lift fun base => base.setMove index move).moveAt j =
      resolver.moveAt j :=
    fun _ different => ParallelMoveResolver.moveAt_setMove_of_ne different
  refine ⟨by simpa [lift] using carries.length_eq, fun j => ?_, fun j jInBounds left => ?_,
    fun j jInBounds left => ?_, fun j eliminated => ?_, fun j jInBounds left => ?_, fun pending member => ?_,
    fun j jInBounds eliminated => ?_, carries.writes⟩
  · by_cases same : j = index
    · subst same
      rw [atIndex, typeEq, carries.type_eq]
    · rw [atOther j same, carries.type_eq]
  · by_cases same : j = index
    · subst same
      rw [atIndex] at left ⊢
      exact (remains left).1
    · rw [atOther j same] at left ⊢
      exact carries.source_single j jInBounds left
  · by_cases same : j = index
    · subst same
      rw [atIndex] at left ⊢
      exact (remains left).2.1
    · rw [atOther j same] at left ⊢
      exact carries.destination_eq j jInBounds left
  · by_cases same : j = index
    · subst same
      rw [atIndex] at eliminated ⊢
      exact eliminatedDestination eliminated
    · rw [atOther j same] at eliminated ⊢
      exact carries.eliminated_destination j eliminated
  · by_cases same : j = index
    · subst same
      rw [atIndex] at left ⊢
      exact (remains left).2.2
    · rw [atOther j same] at left ⊢
      exact carries.source_read j jInBounds left
  · obtain ⟨single, i, iInBounds, eliminated, destinationEq, reads⟩ := carries.pending pending member
    refine ⟨single, i, iInBounds, ?_, destinationEq, reads⟩
    by_cases same : i = index
    · subst same
      rw [atIndex]
      exact keepsEliminated eliminated
    · rw [atOther i same]
      exact eliminated
  · by_cases same : j = index
    · subst same
      rw [atIndex] at eliminated
      exact finished eliminated
    · rw [atOther j same] at eliminated
      exact carries.done j jInBounds eliminated

omit singles in
theorem setDestination (carries : Carries wide original temps resolver) (inBounds : index < original.length)
    (left : (resolver.moveAt index).isEliminated = false) {destination : Location}
    (allowed : destination = (original.getD index default).destination ∨ destination = .noLocation) :
    Carries wide original temps
      (resolver.lift fun base => base.setMove index { base.moveAt index with destination }) :=
  carries.setMove inBounds rfl
    (fun _ => ⟨carries.source_single index inBounds left, allowed,
      carries.source_read index inBounds left⟩)
    (fun eliminated => absurd (eliminated.symm.trans left) Bool.noConfusion)
    (fun eliminated => absurd (eliminated.symm.trans left) Bool.noConfusion)
    (fun eliminated => absurd (eliminated.symm.trans left) Bool.noConfusion)

omit singles in
theorem eliminate_self (carries : Carries wide original temps resolver) (inBounds : index < original.length)
    (left : (resolver.moveAt index).isEliminated = false)
    (self : (resolver.moveAt index).source = (original.getD index default).destination) :
    Carries wide original temps (resolver.lift (·.eliminate index)) :=
  carries.setMove inBounds rfl (fun stillLeft => by simp at stillLeft)
    (fun _ => Or.inr fun initial => self ▸ carries.source_read index inBounds left initial)
    (fun _ => rfl) (fun _ => rfl)

omit singles in
/-- Redirecting the moves that read `replaced` to `replacement`, which holds the
same value after the code, keeps the relation. -/
theorem updateMoveSource (carries : Carries wide original temps resolver) {replaced replacement : Location}
    (valid : replaced ≠ .noLocation) (replacementSingle : replacement.isSingleSource wide = true)
    (same : ∀ initial, replacement.read (execute initial resolver.emitted) wide =
      replaced.read (execute initial resolver.emitted) wide) :
    Carries wide original temps (resolver.updateMoveSource replaced replacement) := by
  have replacementValid := Location.ne_noLocation_of_isSingleSource replacementSingle
  have atMove : ∀ j, (resolver.updateMoveSource replaced replacement).moveAt j =
      if (resolver.moveAt j).source = replaced then { resolver.moveAt j with source := replacement }
      else resolver.moveAt j := fun j => moveAt_updateMoveSource resolver j replaced replacement valid
  have eliminatedEq : ∀ j, ((resolver.updateMoveSource replaced replacement).moveAt j).isEliminated =
      (resolver.moveAt j).isEliminated :=
    fun j => isEliminated_updateMoveSource resolver j valid replacementValid
  refine ⟨by rw [length_updateMoveSource]; exact carries.length_eq, fun j => ?_,
    fun j jInBounds left => ?_, fun j jInBounds left => ?_, fun j eliminated => ?_,
    fun j jInBounds left initial => ?_,
    fun pending member => ?_, fun j jInBounds eliminated => ?_, carries.writes⟩
  · rw [atMove j]
    split
    · exact carries.type_eq j
    · exact carries.type_eq j
  · rw [eliminatedEq] at left
    rw [atMove j]
    split
    · exact replacementSingle
    · exact carries.source_single j jInBounds left
  · rw [eliminatedEq] at left
    rw [atMove j]
    split
    · exact carries.destination_eq j jInBounds left
    · exact carries.destination_eq j jInBounds left
  · rw [eliminatedEq] at eliminated
    -- an eliminated move reads nothing, so no redirection reaches it
    have notReplaced : (resolver.moveAt j).source ≠ replaced := by
      rw [Location.isInvalid_eq_true_iff.mp eliminated]
      exact Ne.symm valid
    rw [atMove j, if_neg notReplaced]
    exact carries.eliminated_destination j eliminated
  · rw [eliminatedEq] at left
    rw [atMove j]
    split
    · rename_i reads
      rw [emitted_updateMoveSource, same initial, ← reads]
      exact carries.source_read j jInBounds left initial
    · exact carries.source_read j jInBounds left initial
  · obtain ⟨single, i, iInBounds, eliminated, destinationEq, reads⟩ := carries.pending pending member
    exact ⟨single, i, iInBounds, by rw [eliminatedEq]; exact eliminated, destinationEq, reads⟩
  · rw [eliminatedEq] at eliminated
    exact carries.done j jInBounds eliminated

variable (distinct : (original.map MoveOperands.destination).Nodup)
include singles distinct

/-- Emitting a move left into its own destination, which no other move left and no
pending move reads, and eliminating it, keeps the relation: its destination now
holds its value. -/
theorem emitOwn (carries : Carries wide original temps resolver) (inBounds : index < original.length)
    (left : (resolver.moveAt index).isEliminated = false)
    (unread : ∀ j < original.length, j ≠ index → (resolver.moveAt j).isEliminated = false →
      (resolver.moveAt j).source ≠ (original.getD index default).destination)
    (pendingUnread : ∀ pending ∈ resolver.pendingMoves,
      pending.source ≠ (original.getD index default).destination) :
    Carries wide original temps
      (resolver.emitAs index (resolver.moveAt index).source (original.getD index default).destination) := by
  have inMoves : index < resolver.moves.length := carries.length_eq ▸ inBounds
  have destinationSingle := MoveOperands.destination_of_isSingle (getD_isSingle singles inBounds)
  have sourceSingle := carries.source_single index inBounds left
  have wideType := carries.width_eq singles inBounds
  have atIndex := moveAt_emitAs_self resolver (resolver.moveAt index).source
    (original.getD index default).destination inMoves
  have atOther : ∀ j, j ≠ index → (resolver.emitAs index (resolver.moveAt index).source
      (original.getD index default).destination).moveAt j = resolver.moveAt j :=
    fun j different => moveAt_emitAs_of_ne resolver _ _ different
  have emitted := emitted_emitAs resolver (resolver.moveAt index).source
    (original.getD index default).destination inMoves
  -- a cell or constant other than the destination reads after as before
  have kept : ∀ {location : Location}, location.isSingleSource wide = true →
      location ≠ (original.getD index default).destination → ∀ initial,
      location.read (execute initial (resolver.emitAs index (resolver.moveAt index).source
        (original.getD index default).destination).emitted) wide =
        location.read (execute initial resolver.emitted) wide := by
    intro location single different initial
    rw [emitted]
    exact read_execute_move_of_ne wideType destinationSingle single different initial _
  refine ⟨by rw [length_emitAs]; exact carries.length_eq, fun j => ?_, fun j jInBounds jLeft => ?_,
    fun j jInBounds jLeft => ?_, fun j eliminated => ?_, fun j jInBounds jLeft initial => ?_,
    fun pending member => ?_,
    fun j jInBounds eliminated => ?_, fun instruction member cell written => ?_⟩
  · by_cases same : j = index
    · subst same
      rw [atIndex]
      exact carries.type_eq j
    · rw [atOther j same]
      exact carries.type_eq j
  all_goals try
    have different : j ≠ index := by
      rintro rfl
      rw [atIndex] at jLeft
      exact Bool.noConfusion jLeft
    rw [atOther j different] at jLeft ⊢
  · exact carries.source_single j jInBounds jLeft
  · exact carries.destination_eq j jInBounds jLeft
  · by_cases same : j = index
    · subst same
      rw [atIndex]
    · rw [atOther j same] at eliminated ⊢
      exact carries.eliminated_destination j eliminated
  · rw [kept (carries.source_single j jInBounds jLeft) (unread j jInBounds different jLeft)]
    exact carries.source_read j jInBounds jLeft initial
  · obtain ⟨single, i, iInBounds, eliminated, destinationEq, reads⟩ := carries.pending pending member
    have different : i ≠ index := by
      rintro rfl
      exact Bool.noConfusion (eliminated.symm.trans left)
    refine ⟨single, i, iInBounds, by rw [atOther i different]; exact eliminated, destinationEq,
      fun initial => ?_⟩
    rw [pendingMoves_emitAs] at member
    rw [kept (Location.isSingleSource_of_isSingle single) (pendingUnread pending member)]
    exact reads initial
  · by_cases same : j = index
    · subst same
      refine Or.inr fun initial => ?_
      rw [emitted, read_execute_move_self wideType sourceSingle destinationSingle]
      exact carries.source_read j jInBounds left initial
    · rw [atOther j same] at eliminated
      rcases carries.done j jInBounds eliminated with awaiting | performed
      · exact Or.inl awaiting
      · refine Or.inr fun initial => ?_
        have jDestination := Location.isSingleSource_of_isSingle
          (MoveOperands.destination_of_isSingle (getD_isSingle singles jInBounds))
        rw [kept jDestination (fun equal => same (destination_injective distinct jInBounds inBounds equal))]
        exact performed initial
  · rw [emitted, List.mem_append, List.mem_singleton] at member
    rcases member with old | new
    · exact carries.writes instruction old cell written
    · subst new
      exact Or.inl ⟨_, getD_mem inBounds, written⟩

omit distinct in
/-- Breaking a cycle: the source of a move left goes to a scratch cell that no move
reads and no eliminated move has finished into, the move is eliminated, and the move
from the scratch cell to its destination becomes pending. -/
theorem breakCycle (carries : Carries wide original temps resolver) (inBounds : index < original.length)
    (left : (resolver.moveAt index).isEliminated = false) {scratch : Location}
    (scratchSingle : scratch.isSingle wide = true)
    (unread : ∀ j < original.length, (resolver.moveAt j).isEliminated = false →
      (resolver.moveAt j).source ≠ scratch)
    (pendingUnread : ∀ pending ∈ resolver.pendingMoves, pending.source ≠ scratch)
    (notFinished : ∀ j < original.length, (resolver.moveAt j).isEliminated = true →
      (original.getD j default).destination ≠ scratch)
    (allowed : (∃ move ∈ original, move.destination = scratch) ∨ scratch ∈ temps.locations)
    (type : DataType) :
    Carries wide original temps ((resolver.emitAs index (resolver.moveAt index).source scratch).addPendingMove
      scratch (original.getD index default).destination type) := by
  have inMoves : index < resolver.moves.length := carries.length_eq ▸ inBounds
  have sourceSingle := carries.source_single index inBounds left
  have wideType := carries.width_eq singles inBounds
  let broken := (resolver.emitAs index (resolver.moveAt index).source scratch).addPendingMove
    scratch (original.getD index default).destination type
  have atIndex : broken.moveAt index =
      { resolver.moveAt index with source := .noLocation, destination := .noLocation } :=
    moveAt_emitAs_self resolver (resolver.moveAt index).source scratch inMoves
  have atOther : ∀ j, j ≠ index → broken.moveAt j = resolver.moveAt j :=
    fun j different => moveAt_emitAs_of_ne resolver _ _ different
  have emitted : broken.emitted =
      resolver.emitted ++ [.move (resolver.moveAt index).source scratch (resolver.moveAt index).type] :=
    emitted_emitAs resolver (resolver.moveAt index).source scratch inMoves
  have pendings : broken.pendingMoves =
      resolver.pendingMoves ++ [⟨scratch, (original.getD index default).destination, type⟩] := rfl
  have leftBefore : ∀ j, (broken.moveAt j).isEliminated = false →
      j ≠ index ∧ (resolver.moveAt j).isEliminated = false := by
    intro j jLeft
    have different : j ≠ index := by
      rintro rfl
      rw [atIndex] at jLeft
      exact Bool.noConfusion jLeft
    rw [atOther j different] at jLeft
    exact ⟨different, jLeft⟩
  have kept : ∀ {location : Location}, location.isSingleSource wide = true → location ≠ scratch →
      ∀ initial, location.read (execute initial broken.emitted) wide =
        location.read (execute initial resolver.emitted) wide := by
    intro location single different initial
    rw [emitted]
    exact read_execute_move_of_ne wideType scratchSingle single different initial _
  refine ⟨by simpa [broken, length_emitAs] using carries.length_eq, fun j => ?_,
    fun j jInBounds jLeft => ?_, fun j jInBounds jLeft => ?_, fun j eliminated => ?_,
    fun j jInBounds jLeft initial => ?_,
    fun pending member => ?_, fun j jInBounds eliminated => ?_,
    fun instruction member cell written => ?_⟩
  · by_cases same : j = index
    · subst same
      rw [atIndex]
      exact carries.type_eq j
    · rw [atOther j same]
      exact carries.type_eq j
  · obtain ⟨different, jLeftBefore⟩ := leftBefore j jLeft
    rw [atOther j different]
    exact carries.source_single j jInBounds jLeftBefore
  · obtain ⟨different, jLeftBefore⟩ := leftBefore j jLeft
    rw [atOther j different]
    exact carries.destination_eq j jInBounds jLeftBefore
  · by_cases same : j = index
    · subst same
      rw [atIndex]
    · rw [atOther j same] at eliminated ⊢
      exact carries.eliminated_destination j eliminated
  · obtain ⟨different, jLeftBefore⟩ := leftBefore j jLeft
    rw [atOther j different, kept (carries.source_single j jInBounds jLeftBefore)
      (unread j jInBounds jLeftBefore)]
    exact carries.source_read j jInBounds jLeftBefore initial
  · rw [pendings, List.mem_append, List.mem_singleton] at member
    rcases member with old | rfl
    · obtain ⟨single, i, iInBounds, eliminated, destinationEq, reads⟩ := carries.pending pending old
      have different : i ≠ index := by
        rintro rfl
        exact Bool.noConfusion (eliminated.symm.trans left)
      refine ⟨single, i, iInBounds, by rw [atOther i different]; exact eliminated, destinationEq,
        fun initial => ?_⟩
      rw [kept (Location.isSingleSource_of_isSingle single) (pendingUnread pending old)]
      exact reads initial
    · -- the new pending move: the scratch cell holds the value of the move broken
      refine ⟨scratchSingle, index, inBounds, by rw [atIndex]; rfl, rfl, fun initial => ?_⟩
      rw [emitted, read_execute_move_self wideType sourceSingle scratchSingle]
      exact carries.source_read index inBounds left initial
  · by_cases same : j = index
    · subst same
      exact Or.inl ⟨⟨scratch, (original.getD j default).destination, type⟩,
        by rw [pendings]; exact List.mem_append_right _ (List.mem_singleton_self _), rfl⟩
    · rw [atOther j same] at eliminated
      rcases carries.done j jInBounds eliminated with ⟨pending, member, destinationEq⟩ | performed
      · exact Or.inl ⟨pending, by rw [pendings]; exact List.mem_append_left _ member, destinationEq⟩
      · refine Or.inr fun initial => ?_
        have jDestination := Location.isSingleSource_of_isSingle
          (MoveOperands.destination_of_isSingle (getD_isSingle singles jInBounds))
        rw [kept jDestination (notFinished j jInBounds eliminated)]
        exact performed initial
  · rw [emitted, List.mem_append, List.mem_singleton] at member
    rcases member with old | new
    · exact carries.writes instruction old cell written
    · subst new
      rcases allowed with ⟨move, member, rfl⟩ | temp
      · exact Or.inl ⟨move, member, written⟩
      · exact Or.inr (mem_cells_of_mem_locations temp written)

/-- Performing a pending move whose destination no move left and no other pending
move reads, carried by the eliminated move at `index`: the move it finishes is
done. -/
theorem performPending (carries : Carries wide original temps resolver) (inBounds : index < original.length)
    (indexEliminated : (resolver.moveAt index).isEliminated = true) {pending : MoveOperands}
    (member : pending ∈ resolver.pendingMoves)
    (unread : ∀ j < original.length, (resolver.moveAt j).isEliminated = false →
      (resolver.moveAt j).source ≠ pending.destination)
    (pendingUnread : ∀ other ∈ resolver.pendingMoves.erase pending, other.source ≠ pending.destination) :
    Carries wide original temps
      ((resolver.deletePendingMove pending).emitAs index pending.source pending.destination) := by
  obtain ⟨pendingSingle, finishing, finishingInBounds, finishingEliminated, destinationEq, value⟩ :=
    carries.pending pending member
  have inMoves : index < resolver.moves.length := carries.length_eq ▸ inBounds
  have wideType := carries.width_eq singles inBounds
  have destinationSingle : pending.destination.isSingle wide = true :=
    destinationEq ▸ MoveOperands.destination_of_isSingle (getD_isSingle singles finishingInBounds)
  let performed := (resolver.deletePendingMove pending).emitAs index pending.source pending.destination
  have atIndex : performed.moveAt index =
      { resolver.moveAt index with source := .noLocation, destination := .noLocation } :=
    moveAt_emitAs_self (resolver.deletePendingMove pending) pending.source pending.destination inMoves
  have atOther : ∀ j, j ≠ index → performed.moveAt j = resolver.moveAt j :=
    fun j different => moveAt_emitAs_of_ne (resolver.deletePendingMove pending) _ _ different
  have emitted : performed.emitted =
      resolver.emitted ++ [.move pending.source pending.destination (resolver.moveAt index).type] :=
    emitted_emitAs (resolver.deletePendingMove pending) pending.source pending.destination inMoves
  -- the eliminated moves stay eliminated, the move at `index` among them
  have eliminatedAfter : ∀ j, (resolver.moveAt j).isEliminated = true →
      (performed.moveAt j).isEliminated = true := by
    intro j eliminated
    by_cases same : j = index
    · subst same
      rw [atIndex]
      rfl
    · rw [atOther j same]
      exact eliminated
  have leftBefore : ∀ j, (performed.moveAt j).isEliminated = false →
      j ≠ index ∧ (resolver.moveAt j).isEliminated = false := by
    intro j left
    have different : j ≠ index := by
      rintro rfl
      rw [atIndex] at left
      exact Bool.noConfusion left
    rw [atOther j different] at left
    exact ⟨different, left⟩
  have kept : ∀ {location : Location}, location.isSingleSource wide = true →
      location ≠ pending.destination → ∀ initial,
      location.read (execute initial performed.emitted) wide =
        location.read (execute initial resolver.emitted) wide := by
    intro location single different initial
    rw [emitted]
    exact read_execute_move_of_ne wideType destinationSingle single different initial _
  refine ⟨by simpa [performed, length_emitAs] using carries.length_eq, fun j => ?_,
    fun j jInBounds jLeft => ?_, fun j jInBounds jLeft => ?_, fun j eliminated => ?_,
    fun j jInBounds jLeft initial => ?_,
    fun other otherMember => ?_, fun j jInBounds eliminated => ?_,
    fun instruction instructionMember cell written => ?_⟩
  · by_cases same : j = index
    · subst same
      rw [atIndex]
      exact carries.type_eq j
    · rw [atOther j same]
      exact carries.type_eq j
  · obtain ⟨different, left⟩ := leftBefore j jLeft
    rw [atOther j different]
    exact carries.source_single j jInBounds left
  · obtain ⟨different, left⟩ := leftBefore j jLeft
    rw [atOther j different]
    exact carries.destination_eq j jInBounds left
  · by_cases same : j = index
    · subst same
      rw [atIndex]
    · rw [atOther j same] at eliminated ⊢
      exact carries.eliminated_destination j eliminated
  · obtain ⟨different, left⟩ := leftBefore j jLeft
    rw [atOther j different, kept (carries.source_single j jInBounds left) (unread j jInBounds left)]
    exact carries.source_read j jInBounds left initial
  · have otherPending : other ∈ resolver.pendingMoves := List.mem_of_mem_erase otherMember
    obtain ⟨single, i, iInBounds, eliminated, otherDestination, reads⟩ := carries.pending other otherPending
    refine ⟨single, i, iInBounds, eliminatedAfter i eliminated, otherDestination, fun initial => ?_⟩
    rw [kept (Location.isSingleSource_of_isSingle single) (pendingUnread other otherMember)]
    exact reads initial
  · by_cases finishes : (original.getD j default).destination = pending.destination
    · -- the move the pending move finishes: its destination now holds its value
      have same : j = finishing :=
        destination_injective distinct jInBounds finishingInBounds (finishes.trans destinationEq)
      subst same
      refine Or.inr fun initial => ?_
      rw [finishes, emitted, read_execute_move_self wideType
        (Location.isSingleSource_of_isSingle pendingSingle) destinationSingle]
      exact value initial
    · have wasEliminated : (resolver.moveAt j).isEliminated = true := by
        by_cases same : j = index
        · subst same
          exact indexEliminated
        · rwa [atOther j same] at eliminated
      rcases carries.done j jInBounds wasEliminated with ⟨other, otherMember, otherDestination⟩ | performedRead
      · have notPending : other ≠ pending := by
          rintro rfl
          exact finishes otherDestination.symm
        exact Or.inl ⟨other, List.mem_erase_of_ne notPending |>.mpr otherMember, otherDestination⟩
      · refine Or.inr fun initial => ?_
        have jDestination := Location.isSingleSource_of_isSingle
          (MoveOperands.destination_of_isSingle (getD_isSingle singles jInBounds))
        rw [kept jDestination finishes]
        exact performedRead initial
  · rw [emitted, List.mem_append, List.mem_singleton] at instructionMember
    rcases instructionMember with old | new
    · exact carries.writes instruction old cell written
    · subst new
      refine Or.inl ⟨_, getD_mem finishingInBounds, ?_⟩
      rw [← destinationEq]
      exact written

end Carries

/-! ## The steps keep `ScratchesSound` -/

namespace ScratchesSound

variable {other : ParallelMoveResolverNoSwap}

theorem congr (sound : ScratchesSound original temps resolver) (sameScratches : other.scratches = resolver.scratches)
    (sameTemps : other.vixlTemps = resolver.vixlTemps)
    (reads : ∀ i < original.length, (other.moveAt i).isEliminated = false →
      (other.moveAt i).source ∈ temps.locations → (other.moveAt i).source ∈ resolver.scratches)
    (pendingReads : ∀ move ∈ other.pendingMoves, move.source ∈ temps.locations →
      move.source ∈ resolver.scratches) :
    ScratchesSound original temps other := by
  obtain ⟨scratchesNodup, availableNodup, scratchTemp, availableTemp, availableFree, kept, -, -⟩ := sound
  rw [← sameScratches] at scratchesNodup scratchTemp availableFree kept reads pendingReads
  rw [← sameTemps] at availableNodup availableTemp availableFree kept
  exact ⟨scratchesNodup, availableNodup, scratchTemp, availableTemp, availableFree, kept, reads, pendingReads⟩

theorem emitAs (sound : ScratchesSound original temps resolver) (inBounds : index < resolver.moves.length)
    (source destination : Location) : ScratchesSound original temps (resolver.emitAs index source destination) := by
  refine sound.congr rfl rfl (fun i iInBounds left temp => ?_) sound.pending_scratch
  by_cases same : i = index
  · subst same
    rw [moveAt_emitAs_self resolver source destination inBounds] at left
    exact Bool.noConfusion left
  · rw [moveAt_emitAs_of_ne resolver source destination same] at left temp ⊢
    exact sound.reads_scratch i iInBounds left temp

theorem setMove (sound : ScratchesSound original temps resolver) (inBounds : index < resolver.moves.length)
    {move : MoveOperands}
    (keeps : move.isEliminated = false →
      (resolver.moveAt index).isEliminated = false ∧ move.source = (resolver.moveAt index).source) :
    ScratchesSound original temps (resolver.lift fun base => base.setMove index move) := by
  refine sound.congr rfl rfl (fun i iInBounds left temp => ?_) sound.pending_scratch
  by_cases same : i = index
  · subst same
    have atIndex : (resolver.lift fun base => base.setMove i move).moveAt i = move :=
      @ParallelMoveResolver.moveAt_setMove_self resolver.toParallelMoveResolver i move inBounds
    rw [atIndex] at left temp ⊢
    obtain ⟨wasLeft, sameSource⟩ := keeps left
    rw [sameSource] at temp ⊢
    exact sound.reads_scratch i iInBounds wasLeft temp
  · have atOther : (resolver.lift fun base => base.setMove index move).moveAt i = resolver.moveAt i :=
      ParallelMoveResolver.moveAt_setMove_of_ne same
    rw [atOther] at left temp ⊢
    exact sound.reads_scratch i iInBounds left temp

/-- Redirecting moves to a location keeps the scratch registers sound when that
location, if it is a scratch register, is a scratch location. -/
theorem updateMoveSource (sound : ScratchesSound original temps resolver) {replaced replacement : Location}
    (valid : replaced ≠ .noLocation) (replacementValid : replacement ≠ .noLocation)
    (replacementScratch : replacement ∈ temps.locations → replacement ∈ resolver.scratches) :
    ScratchesSound original temps (resolver.updateMoveSource replaced replacement) := by
  refine sound.congr rfl rfl (fun i inBounds left temp => ?_) sound.pending_scratch
  rw [isEliminated_updateMoveSource resolver i valid replacementValid] at left
  rw [moveAt_updateMoveSource resolver i replaced replacement valid] at temp ⊢
  by_cases reads : (resolver.moveAt i).source = replaced
  · rw [if_pos reads] at temp ⊢
    exact replacementScratch temp
  · rw [if_neg reads] at temp ⊢
    exact sound.reads_scratch i inBounds left temp

theorem addPendingMove (sound : ScratchesSound original temps resolver) {source destination : Location}
    (sourceScratch : source ∈ temps.locations → source ∈ resolver.scratches) (type : DataType) :
    ScratchesSound original temps (resolver.addPendingMove source destination type) := by
  refine sound.congr rfl rfl sound.reads_scratch fun move member temp => ?_
  rcases List.mem_append.mp member with old | new
  · exact sound.pending_scratch move old temp
  · rw [List.mem_singleton.mp new] at temp ⊢
    exact sourceScratch temp

theorem deletePendingMove (sound : ScratchesSound original temps resolver) (move : MoveOperands) :
    ScratchesSound original temps (resolver.deletePendingMove move) :=
  sound.congr rfl rfl sound.reads_scratch fun other member =>
    sound.pending_scratch other (List.mem_of_mem_erase member)

theorem take (sound : ScratchesSound original temps resolver) {scratch : Location}
    (available : scratch ∈ resolver.vixlTemps.locations)
    (sameBase : other.toParallelMoveResolver = resolver.toParallelMoveResolver)
    (samePending : other.pendingMoves = resolver.pendingMoves)
    (scratchesEq : other.scratches = resolver.scratches ++ [scratch])
    (locationsEq : other.vixlTemps.locations = resolver.vixlTemps.locations.erase scratch) :
    ScratchesSound original temps other := by
  have notTaken : scratch ∉ resolver.scratches := sound.available_free scratch available
  have grown : ∀ loc ∈ resolver.scratches, loc ∈ other.scratches := fun loc member => by
    rw [scratchesEq]
    exact List.mem_append_left _ member
  have erased : ∀ {loc}, loc ∈ other.vixlTemps.locations ↔ loc ≠ scratch ∧ loc ∈ resolver.vixlTemps.locations := by
    intro loc
    rw [locationsEq]
    exact sound.available_nodup.mem_erase_iff
  refine ⟨?_, ?_, fun loc member => ?_, fun loc member => sound.available_temp loc (erased.mp member).2,
    fun loc member => ?_, fun loc temp => ?_, fun i inBounds left temp => ?_, fun move member temp => ?_⟩
  · rw [scratchesEq]
    exact List.nodup_append.mpr ⟨sound.scratches_nodup, List.nodup_singleton _,
      fun loc member other otherMember same => notTaken (by rwa [same, List.mem_singleton.mp otherMember] at member)⟩
  · rw [locationsEq]
    exact sound.available_nodup.erase scratch
  · rw [scratchesEq] at member
    rcases List.mem_append.mp member with old | new
    · exact sound.scratch_temp loc old
    · rw [List.mem_singleton.mp new]
      exact sound.available_temp scratch available
  · obtain ⟨different, wasAvailable⟩ := erased.mp member
    rw [scratchesEq]
    intro taken
    rcases List.mem_append.mp taken with old | new
    · exact sound.available_free loc wasAvailable old
    · exact different (List.mem_singleton.mp new)
  · by_cases same : loc = scratch
    · subst same
      exact .inr (by rw [scratchesEq]; exact List.mem_append_right _ (List.mem_singleton_self _))
    · rcases sound.kept loc temp with wasAvailable | taken
      · exact .inl (erased.mpr ⟨same, wasAvailable⟩)
      · exact .inr (grown loc taken)
  · have atI : other.moveAt i = resolver.moveAt i := by
      show ParallelMoveResolver.moveAt other.toParallelMoveResolver i = _
      rw [sameBase]
    rw [atI] at left temp ⊢
    exact grown _ (sound.reads_scratch i inBounds left temp)
  · rw [samePending] at member
    exact grown _ (sound.pending_scratch move member temp)

theorem give (sound : ScratchesSound original temps resolver) {scratch : Location}
    (taken : scratch ∈ resolver.scratches)
    (unread : ∀ i < original.length, (resolver.moveAt i).isEliminated = false → (resolver.moveAt i).source ≠ scratch)
    (pendingUnread : ∀ move ∈ resolver.pendingMoves, move.source ≠ scratch)
    (sameBase : other.toParallelMoveResolver = resolver.toParallelMoveResolver)
    (samePending : other.pendingMoves = resolver.pendingMoves)
    (scratchesEq : other.scratches = resolver.scratches.erase scratch)
    (locationsPerm : other.vixlTemps.locations.Perm (scratch :: resolver.vixlTemps.locations)) :
    ScratchesSound original temps other := by
  have notAvailable : scratch ∉ resolver.vixlTemps.locations := fun available =>
    sound.available_free scratch available taken
  have remaining : ∀ {loc}, loc ∈ other.scratches ↔ loc ≠ scratch ∧ loc ∈ resolver.scratches := by
    intro loc
    rw [scratchesEq]
    exact sound.scratches_nodup.mem_erase_iff
  have given : ∀ {loc}, loc ∈ other.vixlTemps.locations ↔ loc = scratch ∨ loc ∈ resolver.vixlTemps.locations := by
    intro loc
    rw [locationsPerm.mem_iff, List.mem_cons]
  refine ⟨?_, ?_, fun loc member => sound.scratch_temp loc (remaining.mp member).2, fun loc member => ?_,
    fun loc member => ?_, fun loc temp => ?_, fun i inBounds left temp => ?_, fun move member temp => ?_⟩
  · rw [scratchesEq]
    exact sound.scratches_nodup.erase scratch
  · exact locationsPerm.nodup_iff.mpr (List.nodup_cons.mpr ⟨notAvailable, sound.available_nodup⟩)
  · rcases given.mp member with rfl | wasAvailable
    · exact sound.scratch_temp loc taken
    · exact sound.available_temp loc wasAvailable
  · intro stillTaken
    rcases given.mp member with rfl | wasAvailable
    · exact (remaining.mp stillTaken).1 rfl
    · exact sound.available_free loc wasAvailable (remaining.mp stillTaken).2
  · by_cases same : loc = scratch
    · exact .inl (given.mpr (.inl same))
    · rcases sound.kept loc temp with wasAvailable | wasTaken
      · exact .inl (given.mpr (.inr wasAvailable))
      · exact .inr (remaining.mpr ⟨same, wasTaken⟩)
  · have atI : other.moveAt i = resolver.moveAt i := by
      show ParallelMoveResolver.moveAt other.toParallelMoveResolver i = _
      rw [sameBase]
    rw [atI] at left temp ⊢
    exact remaining.mpr ⟨unread i inBounds left, sound.reads_scratch i inBounds left temp⟩
  · rw [samePending] at member
    exact remaining.mpr ⟨pendingUnread move member, sound.pending_scratch move member temp⟩

end ScratchesSound

end Steps

end ParallelMoveResolverNoSwap

end ArtRuntime.Compiler
