import Mathlib.Data.List.Basic

/-! # Memories that record their reads

A memory maps addresses to cells and keeps the addresses read so far, latest
first. A model of code that walks a buffer reads through `read`, so that the
code staying inside a region is a statement about the log, and
the content of the memory never changes by reading it. -/

namespace ArtRuntime.Foundation

structure TracedMemory (Cell : Type) where
  cells : Nat → Cell
  reads : List Nat

namespace TracedMemory

variable {Cell : Type}

/-- Read one cell and log its address. -/
def read (memory : TracedMemory Cell) (address : Nat) : Cell × TracedMemory Cell :=
  (memory.cells address, { memory with reads := address :: memory.reads })

@[simp] theorem read_fst (memory : TracedMemory Cell) (address : Nat) :
    (memory.read address).1 = memory.cells address := rfl

@[simp] theorem read_cells (memory : TracedMemory Cell) (address : Nat) :
    (memory.read address).2.cells = memory.cells := rfl

@[simp] theorem read_reads (memory : TracedMemory Cell) (address : Nat) :
    (memory.read address).2.reads = address :: memory.reads := rfl

/-- Between `before` and `after` the memory was only read, and only inside
`[low, high)`. -/
def ReadsWithin (before after : TracedMemory Cell) (low high : Nat) : Prop :=
  after.cells = before.cells ∧
    ∃ fresh, after.reads = fresh ++ before.reads ∧ ∀ address ∈ fresh, low ≤ address ∧ address < high

namespace ReadsWithin

variable {before middle after : TracedMemory Cell} {low high : Nat}

theorem refl (memory : TracedMemory Cell) (low high : Nat) : ReadsWithin memory memory low high :=
  ⟨rfl, [], rfl, by simp⟩

theorem read (memory : TracedMemory Cell) {address : Nat}
    (inside : low ≤ address ∧ address < high) :
    ReadsWithin memory (memory.read address).2 low high :=
  ⟨rfl, [address], rfl, by simpa using inside⟩

theorem trans (first : ReadsWithin before middle low high)
    (second : ReadsWithin middle after low high) : ReadsWithin before after low high := by
  obtain ⟨firstCells, firstFresh, firstReads, firstInside⟩ := first
  obtain ⟨secondCells, secondFresh, secondReads, secondInside⟩ := second
  refine ⟨secondCells.trans firstCells, secondFresh ++ firstFresh, ?_, ?_⟩
  · rw [secondReads, firstReads, List.append_assoc]
  · intro address member
    rcases List.mem_append.mp member with inSecond | inFirst
    · exact secondInside address inSecond
    · exact firstInside address inFirst

theorem mono {low' high' : Nat} (within : ReadsWithin before after low high)
    (lowLe : low' ≤ low) (highLe : high ≤ high') : ReadsWithin before after low' high' := by
  obtain ⟨sameCells, fresh, reads, inside⟩ := within
  refine ⟨sameCells, fresh, reads, fun address member => ?_⟩
  have bounds := inside address member
  omega

end ReadsWithin

end TracedMemory

end ArtRuntime.Foundation
