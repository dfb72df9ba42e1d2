import Mathlib.Data.Finset.Card

/-! # Linked cells in an arena

Singly linked lists whose cells live at the addresses of an arena. A cell holds
a value and the address of the next cell, none at the end. `Path heap start
cells finish` says that following the links from `start` meets exactly
`cells`, with their addresses, and arrives at `finish`; a `Chain` is a path to
the end. Allocation takes the arena's `top`, and a write to a cell off a path
keeps the path. -/

namespace ArtRuntime.Foundation

/-- A list cell: its value and the address of the next cell. -/
structure Cell (α : Type) where
  value : α
  next : Option Nat
  deriving DecidableEq, Repr

/-- An arena of cells: the cell at each address, and `top`, the address the
next allocation takes. -/
structure CellHeap (α : Type) where
  cells : Nat → Option (Cell α)
  top : Nat

namespace CellHeap

variable {α : Type}

/-- A new cell at `top`. -/
def alloc (heap : CellHeap α) (cell : Cell α) : Nat × CellHeap α :=
  (heap.top, ⟨Function.update heap.cells heap.top (some cell), heap.top + 1⟩)

/-- `SetNext`: link the cell at `address` to `next`. -/
def setNext (heap : CellHeap α) (address : Nat) (next : Option Nat) : CellHeap α :=
  ⟨Function.update heap.cells address ((heap.cells address).map fun cell => { cell with next := next }), heap.top⟩

/-- Nothing is allocated at or above `top`. -/
def Bounded (heap : CellHeap α) : Prop :=
  ∀ address, heap.top ≤ address → heap.cells address = none

/-- The first value from `start` that `found` accepts, in at most `fuel`
steps: `for (node = start; node != nullptr; node = node->GetNext())`, returning
at the first node found. -/
def find (heap : CellHeap α) (found : α → Bool) : Nat → Option Nat → Option α
  | _, none => none
  | 0, some _ => none
  | fuel + 1, some address =>
      match heap.cells address with
      | none => none
      | some cell => if found cell.value then some cell.value else heap.find found fuel cell.next

/-- The cells from `start`, in at most `fuel` steps. -/
def walk (heap : CellHeap α) : Nat → Option Nat → List (Nat × α)
  | _, none => []
  | 0, some _ => []
  | fuel + 1, some address =>
      match heap.cells address with
      | none => []
      | some cell => (address, cell.value) :: heap.walk fuel cell.next

@[simp] theorem alloc_fst (heap : CellHeap α) (cell : Cell α) : (heap.alloc cell).1 = heap.top := rfl

@[simp] theorem alloc_top (heap : CellHeap α) (cell : Cell α) : (heap.alloc cell).2.top = heap.top + 1 := rfl

@[simp] theorem alloc_cells_self (heap : CellHeap α) (cell : Cell α) :
    (heap.alloc cell).2.cells heap.top = some cell := by
  simp [alloc]

theorem alloc_cells_of_ne (heap : CellHeap α) (cell : Cell α) {address : Nat} (other : address ≠ heap.top) :
    (heap.alloc cell).2.cells address = heap.cells address := by
  simp [alloc, Function.update_of_ne other]

@[simp] theorem setNext_top (heap : CellHeap α) (address : Nat) (next : Option Nat) :
    (heap.setNext address next).top = heap.top := rfl

theorem setNext_cells_self (heap : CellHeap α) (address : Nat) (next : Option Nat) :
    (heap.setNext address next).cells address = (heap.cells address).map fun cell => { cell with next := next } := by
  simp [setNext]

theorem setNext_cells_of_ne (heap : CellHeap α) {address other : Nat} (next : Option Nat) (apart : other ≠ address) :
    (heap.setNext address next).cells other = heap.cells other := by
  simp [setNext, Function.update_of_ne apart]

theorem Bounded.alloc {heap : CellHeap α} (bounded : heap.Bounded) (cell : Cell α) : (heap.alloc cell).2.Bounded := by
  intro address above
  rw [alloc_cells_of_ne heap cell (by simp at above; omega)]
  exact bounded address (by simp at above; omega)

theorem Bounded.setNext {heap : CellHeap α} (bounded : heap.Bounded) (address : Nat) (next : Option Nat) :
    (heap.setNext address next).Bounded := by
  intro other above
  by_cases same : other = address
  · subst same
    rw [setNext_cells_self, bounded other above, Option.map_none]
  · rw [setNext_cells_of_ne heap next same]
    exact bounded other above

/-- The cells of a list moved to consecutive addresses from `top`. -/
def relocate : Nat → List (Nat × α) → List (Nat × α)
  | _, [] => []
  | top, (_, value) :: rest => (top, value) :: relocate (top + 1) rest

@[simp] theorem relocate_nil (top : Nat) : relocate top ([] : List (Nat × α)) = [] := rfl

@[simp] theorem relocate_cons (top address : Nat) (value : α) (rest : List (Nat × α)) :
    relocate top ((address, value) :: rest) = (top, value) :: relocate (top + 1) rest := rfl

@[simp] theorem length_relocate (top : Nat) (cells : List (Nat × α)) : (relocate top cells).length = cells.length := by
  induction cells generalizing top with
  | nil => rfl
  | cons entry rest induction => simp [relocate, induction]

@[simp] theorem map_snd_relocate (top : Nat) (cells : List (Nat × α)) :
    (relocate top cells).map Prod.snd = cells.map Prod.snd := by
  induction cells generalizing top with
  | nil => rfl
  | cons entry rest induction => simp [relocate, induction]

theorem map_fst_relocate (top : Nat) (cells : List (Nat × α)) :
    (relocate top cells).map Prod.fst = List.range' top cells.length := by
  induction cells generalizing top with
  | nil => rfl
  | cons entry rest induction => simp [relocate, induction, List.range'_succ]

theorem le_of_mem_relocate {top : Nat} {cells : List (Nat × α)} {entry : Nat × α} (member : entry ∈ relocate top cells) :
    top ≤ entry.1 := by
  have inRange : entry.1 ∈ List.range' top cells.length := by
    rw [← map_fst_relocate]
    exact List.mem_map_of_mem member
  exact (List.mem_range'_1.mp inRange).1

theorem exists_of_mem_relocate {top : Nat} {cells : List (Nat × α)} {entry : Nat × α}
    (member : entry ∈ relocate top cells) : ∃ original ∈ cells, original.2 = entry.2 := by
  have value : entry.2 ∈ cells.map Prod.snd := by
    rw [← map_snd_relocate top]
    exact List.mem_map_of_mem member
  exact List.mem_map.mp value

theorem relocate_append (top : Nat) (first second : List (Nat × α)) :
    relocate top (first ++ second) = relocate top first ++ relocate (top + first.length) second := by
  induction first generalizing top with
  | nil => rfl
  | cons entry rest induction =>
    simp only [List.cons_append, relocate, induction, List.length_cons]
    rw [Nat.add_assoc, Nat.add_comm 1]

theorem findIdx?_address {address : Nat} {value : α} {before after : List (Nat × α)}
    (off : address ∉ before.map Prod.fst) :
    (before ++ (address, value) :: after).findIdx? (fun entry => some entry.1 == some address) = some before.length := by
  have absent : before.findIdx? (fun entry => entry.1 == address) = none :=
    List.findIdx?_eq_none_iff.mpr fun entry member => by
      simpa using fun same => off (List.mem_map.mpr ⟨entry, member, same⟩)
  simp [List.findIdx?_append, absent, List.findIdx?_cons]

/-! ## Paths and chains -/

/-- Following the links from `start` meets the cells `cells`, with their
addresses, and arrives at `finish`. -/
inductive Path (heap : CellHeap α) : Option Nat → List (Nat × α) → Option Nat → Prop
  | nil (finish : Option Nat) : Path heap finish [] finish
  | cons {address : Nat} {cell : Cell α} {rest : List (Nat × α)} {finish : Option Nat} :
      heap.cells address = some cell → Path heap cell.next rest finish →
        Path heap (some address) ((address, cell.value) :: rest) finish

/-- Following the links from `start` meets the cells `cells` and ends. -/
def Chain (heap : CellHeap α) (start : Option Nat) (cells : List (Nat × α)) : Prop :=
  Path heap start cells none

variable {heap other : CellHeap α} {start middle finish : Option Nat} {cells first second : List (Nat × α)}

theorem Path.append (before : Path heap start first middle) (after : Path heap middle second finish) :
    Path heap start (first ++ second) finish := by
  induction before with
  | nil => exact after
  | cons read _ induction => exact .cons read (induction after)

theorem Path.split (path : Path heap start (first ++ second) finish) :
    ∃ middle, Path heap start first middle ∧ Path heap middle second finish := by
  induction first generalizing start with
  | nil => exact ⟨start, .nil start, path⟩
  | cons head rest induction =>
    cases path with
    | cons read tail =>
      obtain ⟨middle, before, after⟩ := induction tail
      exact ⟨middle, .cons read before, after⟩

theorem Path.cons_inv {address : Nat} {entry : Nat × α} {rest : List (Nat × α)}
    (path : Path heap (some address) (entry :: rest) finish) :
    ∃ cell, heap.cells address = some cell ∧ entry = (address, cell.value) ∧ Path heap cell.next rest finish := by
  cases path with
  | cons read tail => exact ⟨_, read, rfl, tail⟩

theorem Path.frame (path : Path heap start cells finish)
    (agree : ∀ entry ∈ cells, other.cells entry.1 = heap.cells entry.1) : Path other start cells finish := by
  induction path with
  | nil finish => exact .nil finish
  | cons read _ induction =>
    refine .cons ((agree _ List.mem_cons_self).trans read) (induction fun entry member => ?_)
    exact agree entry (List.mem_cons_of_mem _ member)

theorem Path.lt_top (bounded : heap.Bounded) (path : Path heap start cells finish) :
    ∀ entry ∈ cells, entry.1 < heap.top := by
  induction path with
  | nil => simp
  | @cons address cell _ _ read _ induction =>
    intro entry member
    rcases List.mem_cons.mp member with rfl | later
    · by_contra above
      rw [bounded address (not_lt.mp above)] at read
      cases read
    · exact induction entry later

theorem Path.read_of_mem (path : Path heap start cells finish) :
    ∀ entry ∈ cells, ∃ cell, heap.cells entry.1 = some cell ∧ cell.value = entry.2 := by
  induction path with
  | nil => simp
  | @cons address cell _ _ read _ induction =>
    intro entry member
    rcases List.mem_cons.mp member with rfl | later
    · exact ⟨cell, read, rfl⟩
    · exact induction entry later

theorem Path.alloc (bounded : heap.Bounded) (path : Path heap start cells finish) (cell : Cell α) :
    Path (heap.alloc cell).2 start cells finish :=
  path.frame fun entry member => alloc_cells_of_ne heap cell (Nat.ne_of_lt (path.lt_top bounded entry member))

theorem Path.setNext {address : Nat} (path : Path heap start cells finish) (off : address ∉ cells.map Prod.fst)
    (next : Option Nat) : Path (heap.setNext address next) start cells finish :=
  path.frame fun entry member =>
    setNext_cells_of_ne heap next fun same => off (List.mem_map.mpr ⟨entry, member, same⟩)

theorem Path.snoc {address : Nat} {cell : Cell α} (path : Path heap start cells (some address))
    (read : heap.cells address = some cell) :
    Path heap start (cells ++ [(address, cell.value)]) cell.next :=
  path.append (.cons read (.nil _))

theorem Path.nil_inv (path : Path heap start [] finish) : start = finish := by
  cases path
  rfl

theorem Path.next_of_last {address : Nat} {value : α} (path : Path heap start (cells ++ [(address, value)]) finish) :
    (heap.cells address).bind (·.next) = finish := by
  obtain ⟨middle, -, last⟩ := path.split
  cases last with
  | cons read tail =>
    rw [read]
    exact tail.nil_inv

/-- Relinking the last cell of a path, a cell it meets once, sends the path to
the new link. -/
theorem Path.redirect {address : Nat} {value : α} (path : Path heap start (cells ++ [(address, value)]) finish)
    (distinct : ((cells ++ [(address, value)]).map Prod.fst).Nodup) (next : Option Nat) :
    Path (heap.setNext address next) start (cells ++ [(address, value)]) next := by
  obtain ⟨middle, before, last⟩ := path.split
  have off : address ∉ cells.map Prod.fst := by
    rw [List.map_append, List.nodup_append] at distinct
    exact fun member => distinct.2.2 address member address (by simp) rfl
  cases last with
  | @cons _ cell _ _ read _ =>
    have relinked : (heap.setNext address next).cells address = some { cell with next := next } := by
      rw [setNext_cells_self, read]
      rfl
    exact (before.setNext off next).append (@Path.cons α _ address { cell with next := next } [] next relinked (.nil next))

theorem Chain.unique (chain : Chain heap start first) (again : Chain heap start second) : first = second := by
  induction first generalizing start second with
  | nil =>
    cases chain
    cases again
    rfl
  | cons entry rest induction =>
    cases chain with
    | @cons address cell _ _ read tail =>
      cases again with
      | @cons _ cellAgain restAgain _ readAgain tailAgain =>
        obtain rfl : cell = cellAgain := Option.some.inj (read.symm.trans readAgain)
        rw [induction tail tailAgain]

/-- A chain meets each address once: a second visit would start the same
chain again, and a shorter one. -/
theorem Chain.nodup (chain : Chain heap start cells) : (cells.map Prod.fst).Nodup := by
  induction cells generalizing start with
  | nil => exact List.nodup_nil
  | cons entry rest induction =>
    cases chain with
    | @cons address cell _ _ read tail =>
      refine List.nodup_cons.mpr ⟨fun again => ?_, induction tail⟩
      obtain ⟨revisited, member, same⟩ := List.mem_map.mp again
      obtain ⟨before, after, rfl⟩ := List.append_of_mem member
      obtain ⟨middle, -, revisit⟩ := tail.split
      cases revisit with
      | @cons revisitedAddress revisitedCell _ _ revisitedRead revisitedTail =>
        simp only at same
        subst same
        have whole : Chain heap (some revisitedAddress) _ := Path.cons read tail
        have lengths := congrArg List.length (Chain.unique whole (Path.cons revisitedRead revisitedTail))
        simp at lengths
        omega

theorem Chain.length_le_top (bounded : heap.Bounded) (chain : Chain heap start cells) : cells.length ≤ heap.top := by
  have distinct := chain.nodup
  have below : (cells.map Prod.fst).toFinset ⊆ Finset.range heap.top := by
    intro address member
    obtain ⟨entry, inCells, rfl⟩ := List.mem_map.mp (List.mem_toFinset.mp member)
    exact Finset.mem_range.mpr (Path.lt_top bounded chain entry inCells)
  calc cells.length = (cells.map Prod.fst).toFinset.card := by rw [List.toFinset_card_of_nodup distinct, List.length_map]
    _ ≤ (Finset.range heap.top).card := Finset.card_le_card below
    _ = heap.top := Finset.card_range _

/-- Where every link goes up a bounded rank to an allocated cell, every
allocated cell starts a chain: induction on the ranks left above it. -/
theorem chain_of_rank (rank : Nat → Nat) (bound : Nat) (bounded : ∀ address, rank address ≤ bound)
    (linked : ∀ address cell next, heap.cells address = some cell → cell.next = some next →
      rank address < rank next ∧ ∃ nextCell, heap.cells next = some nextCell) :
    ∀ address cell, heap.cells address = some cell → ∃ cells, Chain heap (some address) cells := by
  intro address
  induction gap : bound - rank address using Nat.strong_induction_on generalizing address with
  | _ distance ih =>
    intro cell read
    cases next : cell.next with
    | none =>
      refine ⟨[(address, cell.value)], .cons read ?_⟩
      rw [next]
      exact .nil none
    | some following =>
      obtain ⟨up, nextCell, nextRead⟩ := linked address cell following read next
      have closer : bound - rank following < distance := by
        have := bounded following
        omega
      obtain ⟨rest, chain⟩ := ih _ closer following rfl nextCell nextRead
      refine ⟨(address, cell.value) :: rest, .cons read ?_⟩
      rw [next]
      exact chain

theorem walk_of_chain {fuel : Nat} (chain : Chain heap start cells) (enough : cells.length ≤ fuel) :
    heap.walk fuel start = cells := by
  induction cells generalizing start fuel with
  | nil =>
    cases chain
    cases fuel <;> rfl
  | cons entry rest induction =>
    cases chain with
    | @cons address cell _ _ read tail =>
      obtain ⟨fuel, rfl⟩ : ∃ smaller, fuel = smaller + 1 := ⟨fuel - 1, by simp at enough; omega⟩
      simp only [walk, read]
      rw [induction tail (by simp at enough; omega)]

end CellHeap

end ArtRuntime.Foundation
