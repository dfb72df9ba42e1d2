import Mathlib.Data.List.TakeWhile
import ArtRuntime.Compiler.Gvn.ValueSet

/-! # The bucket loops of `ValueSet`

What the loops over a bucket's nodes do to the arena and to the set's record:
`CloneBucket` gives the set its own copy of a bucket, `DeleteAllImpureWhich`
unlinks the nodes that satisfy its condition, cloning a shared bucket first,
and the rehashing copy builds a set's buckets from another's. Each loop is
proved against the `Chain` of the bucket it walks, with the cells it may write
named by `Keeps`. -/

namespace ArtRuntime.Compiler.Gvn

open Foundation CellHeap

variable {I : Type}

/-- From `before` to `after`, only the record at `target` may change, and of
the cells below `before`'s top only those that `touched` holds. -/
structure Keeps (before after : World I) (target : Nat) (touched : Nat → Prop) : Prop where
  grows : before.arena.top ≤ after.arena.top
  cells : ∀ address, address < before.arena.top → ¬ touched address →
    after.arena.cells address = before.arena.cells address
  others : ∀ other, other ≠ target → after.sets other = before.sets other

namespace Keeps

variable {before middle after : World I} {target : Nat} {touched : Nat → Prop}

theorem refl (world : World I) (target : Nat) (touched : Nat → Prop) : Keeps world world target touched :=
  ⟨le_rfl, fun _ _ _ => rfl, fun _ _ => rfl⟩

theorem trans (first : Keeps before middle target touched) (second : Keeps middle after target touched) :
    Keeps before after target touched :=
  ⟨le_trans first.grows second.grows,
    fun address below off =>
      (second.cells address (lt_of_lt_of_le below first.grows) off).trans (first.cells address below off),
    fun other apart => (second.others other apart).trans (first.others other apart)⟩

theorem mono {wider : Nat → Prop} (keeps : Keeps before after target touched)
    (more : ∀ address, touched address → wider address) : Keeps before after target wider :=
  ⟨keeps.grows, fun address below off => keeps.cells address below fun inside => off (more address inside),
    keeps.others⟩

theorem of_fresh (keeps : Keeps before after target fun address => touched address ∨ before.arena.top ≤ address) :
    Keeps before after target touched :=
  ⟨keeps.grows, fun address below off => keeps.cells address below fun inside => inside.elim off (Nat.not_le.mpr below),
    keeps.others⟩

theorem write (world : World I) (target : Nat) (set : ValueSet) (touched : Nat → Prop) :
    Keeps world (world.write target set) target touched :=
  ⟨le_rfl, fun _ _ _ => rfl, fun _ apart => World.write_sets_of_ne world set apart⟩

theorem path {start finish : Option Nat} {cells : List (Nat × Entry I)} (keeps : Keeps before after target touched)
    (bounded : before.arena.Bounded) (path : Path before.arena start cells finish)
    (off : ∀ entry ∈ cells, ¬ touched entry.1) : Path after.arena start cells finish :=
  path.frame fun entry member => keeps.cells entry.1 (path.lt_top bounded entry member) (off entry member)

end Keeps

/-- `after`'s record at `target` is `before`'s but for the head of bucket
`index`. -/
def HeadOnly (before after : World I) (target index : Nat) : Prop :=
  after.sets target =
    { before.sets target with
      buckets := Function.update (before.sets target).buckets index ((after.sets target).buckets index) }

theorem HeadOnly.refl (world : World I) (target index : Nat) : HeadOnly world world target index := by
  simp [HeadOnly]

theorem HeadOnly.trans {before middle after : World I} {target index : Nat} (first : HeadOnly before middle target index)
    (second : HeadOnly middle after target index) : HeadOnly before after target index := by
  unfold HeadOnly at *
  rw [second, first]
  simp

/-- A record that changed only at the head of bucket `index`, with its
ownership bit spelled out. -/
theorem HeadOnly.record {before after : World I} {target index : Nat} (headOnly : HeadOnly before after target index) :
    after.sets target =
      { before.sets target with
        buckets := Function.update (before.sets target).buckets index ((after.sets target).buckets index)
        bucketsOwned := Function.update (before.sets target).bucketsOwned index
          ((after.sets target).bucketsOwned index) } := by
  unfold HeadOnly at headOnly
  rw [headOnly]
  simp

/-- The chain of bucket `index` of the set at `target`, as the loops walk it. -/
def bucketCells (world : World I) (target index : Nat) : List (Nat × Entry I) :=
  world.arena.walk world.arena.top ((world.sets target).buckets index)

theorem bucketCells_of_chain {world : World I} {target index : Nat} {cells : List (Nat × Entry I)}
    (bounded : world.arena.Bounded) (chain : Chain world.arena ((world.sets target).buckets index) cells) :
    bucketCells world target index = cells :=
  walk_of_chain chain (chain.length_le_top bounded)

/-! ## `CloneBucket` -/

section Clone

variable {target index : Nat} {iterator : Option Nat}

/-- One pass of the clone loop on the world: the clone of a node holding
`value` is allocated and linked after `clonePrevious`, or heads the bucket when
there is none. -/
def linkClone (world : World I) (target index : Nat) (clonePrevious : Option Nat) (value : Entry I) : World I :=
  match clonePrevious with
  | none => ⟨(world.arena.alloc ⟨value, none⟩).2, Function.update world.sets target
      { world.sets target with
        buckets := Function.update (world.sets target).buckets index (some world.arena.top) }⟩
  | some previous => ⟨((world.arena.alloc ⟨value, none⟩).2).setNext previous (some world.arena.top), world.sets⟩

theorem cloneLoop_cons {fuel : Nat} {world : World I} {node : Nat} {cell : Cell (Entry I)}
    {clonePrevious cloneIterator : Option Nat} (read : world.arena.cells node = some cell) :
    World.cloneLoop target index iterator (fuel + 1) world (some node) clonePrevious cloneIterator =
      World.cloneLoop target index iterator fuel (linkClone world target index clonePrevious cell.value)
        cell.next (some world.arena.top) (if some node = iterator then some world.arena.top else cloneIterator) := by
  rw [World.cloneLoop, read]
  rfl

section LinkClone

variable {world : World I} {clonePrevious : Option Nat} {value : Entry I}

@[simp] theorem linkClone_top : (linkClone world target index clonePrevious value).arena.top = world.arena.top + 1 := by
  cases clonePrevious <;> rfl

theorem linkClone_cells_top (apart : clonePrevious ≠ some world.arena.top) :
    (linkClone world target index clonePrevious value).arena.cells world.arena.top = some ⟨value, none⟩ := by
  cases clonePrevious with
  | none => exact alloc_cells_self _ _
  | some previous =>
    simp only [linkClone]
    rw [setNext_cells_of_ne _ _ fun same => apart (by rw [same]), alloc_cells_self]

theorem bounded_linkClone (bounded : world.arena.Bounded) :
    (linkClone world target index clonePrevious value).arena.Bounded := by
  cases clonePrevious with
  | none => exact bounded.alloc _
  | some previous => exact (bounded.alloc _).setNext _ _

theorem keeps_linkClone :
    Keeps world (linkClone world target index clonePrevious value) target fun address => some address = clonePrevious := by
  refine ⟨by simp, fun address below off => ?_, fun other apart => ?_⟩
  · cases clonePrevious with
    | none => exact alloc_cells_of_ne _ _ (Nat.ne_of_lt below)
    | some previous =>
      simp only [linkClone]
      rw [setNext_cells_of_ne _ _ fun same => off (by rw [same]), alloc_cells_of_ne _ _ (Nat.ne_of_lt below)]
  · cases clonePrevious with
    | none => exact Function.update_of_ne apart _ _
    | some previous => rfl

theorem headOnly_linkClone : HeadOnly world (linkClone world target index clonePrevious value) target index := by
  cases clonePrevious <;> simp [HeadOnly, linkClone]

end LinkClone

/-- The clones made so far, `clones`: the last is `clonePrevious`, and they
follow the bucket's head in order; before the first, the head is still `node`. -/
def Cloned (world : World I) (target index : Nat) (node : Option Nat) (clones : List (Nat × Entry I))
    (clonePrevious : Option Nat) : Prop :=
  (clones.map Prod.fst).getLast? = clonePrevious ∧
    if clones = [] then (world.sets target).buckets index = node
    else Chain world.arena ((world.sets target).buckets index) clones

theorem cloned_start (world : World I) (target index : Nat) :
    Cloned world target index ((world.sets target).buckets index) [] none :=
  ⟨rfl, by simp⟩

theorem Cloned.chain {world : World I} {node : Option Nat} {clones : List (Nat × Entry I)} {clonePrevious : Option Nat}
    (cloned : Cloned world target index node clones clonePrevious) (ended : node = none) :
    Chain world.arena ((world.sets target).buckets index) clones := by
  by_cases empty : clones = []
  · have head := cloned.2
    simp only [empty, if_true] at head
    rw [empty, head, ended]
    exact .nil none
  · simpa only [empty, if_false] using cloned.2

theorem Cloned.link {world : World I} {node : Option Nat} {clones : List (Nat × Entry I)} {clonePrevious : Option Nat}
    (bounded : world.arena.Bounded) (cloned : Cloned world target index node clones clonePrevious)
    (value : Entry I) (next : Option Nat) :
    Cloned (linkClone world target index clonePrevious value) target index next
      (clones ++ [(world.arena.top, value)]) (some world.arena.top) := by
  refine ⟨by simp, ?_⟩
  simp only [List.append_eq_nil_iff, List.cons_ne_nil, and_false, if_false]
  rcases List.eq_nil_or_concat clones with empty | ⟨before, last, rfl⟩
  · -- the first clone heads the bucket
    subst empty
    obtain rfl : clonePrevious = none := cloned.1.symm
    have fresh : (linkClone world target index none value).arena.cells world.arena.top = some ⟨value, none⟩ :=
      linkClone_cells_top (by simp)
    simpa [linkClone, Chain] using (Path.cons fresh (.nil none) : Path _ (some world.arena.top) _ none)
  · -- a later clone is linked after the last one, which is below the top
    obtain rfl : clonePrevious = some last.1 := by simpa using cloned.1.symm
    have chain : Chain world.arena ((world.sets target).buckets index) (before ++ [last]) := by
      simpa using cloned.2
    have below : last.1 < world.arena.top := chain.lt_top bounded last (by simp)
    have fresh : Path (linkClone world target index (some last.1) value).arena (some world.arena.top)
        [(world.arena.top, value)] none := .cons (linkClone_cells_top (by simpa using Nat.ne_of_lt below)) (.nil none)
    have relinked := Path.redirect (by simpa using chain.alloc bounded ⟨value, none⟩) (by simpa using chain.nodup)
      (some world.arena.top)
    simpa [linkClone, Chain] using relinked.append fresh

@[simp] theorem cloneLoop_none {fuel : Nat} {world : World I} {clonePrevious cloneIterator : Option Nat} :
    World.cloneLoop target index iterator fuel world none clonePrevious cloneIterator = (world, cloneIterator) := by
  cases fuel <;> rfl

/-- The clone loop from `node`, with the chain `rest` still to clone: the
bucket becomes the clones made so far followed by the clones of `rest`, at the
addresses from the top, and only the clones are written. The clone returned is
that of `iterator` when `rest` holds it, at its position. -/
theorem cloneLoop_spec {fuel : Nat} {world : World I} {node clonePrevious cloneIterator : Option Nat}
    {clones rest : List (Nat × Entry I)}
    (bounded : world.arena.Bounded) (cloned : Cloned world target index node clones clonePrevious)
    (chain : Chain world.arena node rest) (apart : ∀ entry ∈ rest, entry.1 ∉ clones.map Prod.fst)
    (enough : rest.length ≤ fuel) :
    let result := World.cloneLoop target index iterator fuel world node clonePrevious cloneIterator
    Chain result.1.arena ((result.1.sets target).buckets index) (clones ++ relocate world.arena.top rest) ∧
      result.1.arena.Bounded ∧ result.1.arena.top = world.arena.top + rest.length ∧
      Keeps world result.1 target (fun address => address ∈ clones.map Prod.fst) ∧
      HeadOnly world result.1 target index ∧
      result.2 = ((rest.findIdx? fun entry => some entry.1 == iterator).map (world.arena.top + ·)).or cloneIterator := by
  induction rest generalizing world node clonePrevious cloneIterator clones fuel with
  | nil =>
    obtain rfl : node = none := by cases chain; rfl
    simpa using ⟨cloned.chain rfl, bounded, Keeps.refl _ _ _, HeadOnly.refl _ _ _⟩
  | cons entry rest induction =>
    cases chain with
    | @cons address cell _ _ read tail =>
    obtain ⟨fuel, rfl⟩ : ∃ smaller, fuel = smaller + 1 := ⟨fuel - 1, by simp at enough; omega⟩
    have below : ∀ entry ∈ (address, cell.value) :: rest, entry.1 < world.arena.top :=
      Path.lt_top bounded (Path.cons read tail)
    -- the node's clone is linked after the last clone, which is not on the rest of the chain
    have keepsLink : Keeps world (linkClone world target index clonePrevious cell.value) target _ := keeps_linkClone
    have last : ∀ address, some address = clonePrevious → address ∈ clones.map Prod.fst := by
      intro address same
      exact List.mem_of_getLast? (cloned.1.trans same.symm)
    have tail' := keepsLink.path bounded tail fun entry member same =>
      apart entry (List.mem_cons_of_mem _ member) (last _ same)
    -- the rest of the chain is below the top, and apart from the clones
    have apart' : ∀ entry ∈ rest, entry.1 ∉ (clones ++ [(world.arena.top, cell.value)]).map Prod.fst := by
      intro entry member inClones
      simp only [List.map_append, List.mem_append, List.map_cons, List.map_nil, List.mem_singleton] at inClones
      rcases inClones with inClones | same
      · exact apart entry (List.mem_cons_of_mem _ member) inClones
      · have := below entry (List.mem_cons_of_mem _ member)
        omega
    obtain ⟨chained, bounded', top, keeps, headOnly, cloneIterator'⟩ := induction (bounded_linkClone bounded)
      (cloned.link bounded cell.value cell.next) tail' apart' (by simp at enough; omega)
    rw [cloneLoop_cons read]
    refine ⟨by simpa using chained, bounded', by simp [top]; omega, ?_, headOnly_linkClone.trans headOnly, ?_⟩
    · refine Keeps.of_fresh ((keepsLink.mono fun address same => Or.inl (last address same)).trans
        (keeps.mono fun address member => ?_))
      simp only [List.map_append, List.mem_append, List.map_cons, List.map_nil, List.mem_singleton] at member
      exact member.imp_right fun same => Nat.le_of_eq same.symm
    · -- the chain meets `iterator` once: here, or further on
      rw [cloneIterator', List.findIdx?_cons]
      by_cases here : some address = iterator
      · have later : rest.findIdx? (fun entry => some entry.1 == iterator) = none := by
          have distinct := Chain.nodup (Path.cons read tail)
          simp only [List.map_cons, List.nodup_cons, List.mem_map] at distinct
          refine List.findIdx?_eq_none_iff.mpr fun entry member => ?_
          simp only [← here, Bool.eq_false_iff]
          exact fun same => distinct.1 ⟨entry, member, by simpa using same⟩
        simp [here, later]
      · simp [here, Option.map_map, Function.comp_def, Nat.add_assoc, Nat.add_comm 1]

/-- `CloneBucket`: the bucket becomes clones of its chain at the addresses from
the top, and owned; no cell below the top is written, and the clone of
`iterator` is the one at its position. -/
theorem cloneBucket_spec {world : World I} {cells : List (Nat × Entry I)} (bounded : world.arena.Bounded)
    (chain : Chain world.arena ((world.sets target).buckets index) cells) :
    let result := World.cloneBucket world target index iterator
    Chain result.1.arena ((result.1.sets target).buckets index) (relocate world.arena.top cells) ∧
      result.1.arena.Bounded ∧ result.1.arena.top = world.arena.top + cells.length ∧
      Keeps world result.1 target (fun _ => False) ∧
      result.1.sets target =
        { world.sets target with
          buckets := Function.update (world.sets target).buckets index ((result.1.sets target).buckets index)
          bucketsOwned := Function.update (world.sets target).bucketsOwned index true } ∧
      result.2 = (cells.findIdx? fun entry => some entry.1 == iterator).map (world.arena.top + ·) := by
  obtain ⟨chained, bounded', top, keeps, headOnly, cloneIterator⟩ :=
    @cloneLoop_spec I target index iterator world.arena.top world _ none none [] cells bounded
      (cloned_start world target index) chain (by simp) (chain.length_le_top bounded)
  dsimp only [World.cloneBucket]
  generalize World.cloneLoop target index iterator world.arena.top world _ none none = cloned at *
  refine ⟨by simpa using chained, bounded', top, ?_, ?_, by simpa using cloneIterator⟩
  · exact (keeps.mono fun address member => by simp at member).trans (Keeps.write _ _ _ _)
  · rw [World.write_sets_self, headOnly]
    simp

/-- Cloning a shared bucket whose chain is `before ++ after` at the last node
of `before`, as the scan does: the clone returned and the node after it split
the cloned chain there. -/
theorem cloneBucket_split {world : World I} {before after : List (Nat × Entry I)} (bounded : world.arena.Bounded)
    (chain : Chain world.arena ((world.sets target).buckets index) (before ++ after)) :
    let cloned := World.cloneBucket world target index ((before.map Prod.fst).getLast?)
    let node := match cloned.2 with
      | none => (cloned.1.sets target).buckets index
      | some previous => (cloned.1.arena.cells previous).bind (·.next)
    Path cloned.1.arena ((cloned.1.sets target).buckets index) (relocate world.arena.top before) node ∧
      Chain cloned.1.arena node (relocate (world.arena.top + before.length) after) ∧
      ((relocate world.arena.top before).map Prod.fst).getLast? = cloned.2 := by
  obtain ⟨chained, -, -, -, -, clone⟩ :=
    @cloneBucket_spec I target index ((before.map Prod.fst).getLast?) world (before ++ after) bounded chain
  have distinct := chain.nodup
  generalize World.cloneBucket world target index ((before.map Prod.fst).getLast?) = cloned at *
  rw [relocate_append] at chained
  obtain ⟨middle, first, second⟩ := chained.split
  rcases List.eq_nil_or_concat before with empty | ⟨before, ⟨lastAddress, lastValue⟩, rfl⟩
  · -- nothing before: the scan starts again from the clone's head
    subst empty
    have unmatched : after.findIdx? (fun _ => false) = none := List.findIdx?_eq_none_iff.mpr fun _ _ => rfl
    have none : cloned.2 = none := by simpa [unmatched] using clone
    simp only [none, relocate_nil, List.map_nil, List.getLast?_nil, and_true]
    obtain rfl := first.nil_inv
    exact ⟨.nil _, by simpa [Chain] using second⟩
  · -- the clone of the last node before links to the clone of the first after
    simp only [List.concat_eq_append, List.append_assoc, List.singleton_append, List.map_append, List.map_cons,
      List.nodup_append, List.nodup_cons, List.mem_cons] at distinct
    have position := @findIdx?_address (Entry I) lastAddress lastValue before after fun member =>
      distinct.2.2 _ member _ (Or.inl rfl) rfl
    have previous : ((before ++ [(lastAddress, lastValue)]).map Prod.fst).getLast? = some lastAddress := by simp
    have cells : before ++ [(lastAddress, lastValue)] ++ after = before ++ (lastAddress, lastValue) :: after := by simp
    rw [List.concat_eq_append, previous, cells, position] at clone
    rw [List.concat_eq_append, relocate_append] at first
    simp only [relocate_cons, relocate_nil] at first
    simp only [clone, Option.map_some, List.concat_eq_append, relocate_append, relocate_cons, relocate_nil,
      List.map_append, List.map_cons, List.map_nil, List.getLast?_append, List.getLast?_singleton, Option.some_or,
      and_true]
    rw [first.next_of_last]
    exact ⟨first, by simpa [Chain, Nat.add_assoc] using second⟩

end Clone

/-! ## The deletion loop of `DeleteAllImpureWhich` -/

section Delete

variable {target index : Nat} {cond : World I → Entry I → Bool}

/-- Unlinking a node: the node before it, or the bucket's head when there is
none, is linked to `next`. -/
def unlink (world : World I) (target index : Nat) (previous next : Option Nat) : World I :=
  match previous with
  | none => world.write target { world.sets target with buckets := Function.update (world.sets target).buckets index next }
  | some previous => { world with arena := world.arena.setNext previous next }

@[simp] theorem deleteLoop_none {fuel : Nat} {world : World I} {previous : Option Nat} :
    World.deleteLoop cond target index fuel world previous none = world := by
  cases fuel <;> rfl

theorem deleteLoop_cons {fuel : Nat} {world : World I} {previous : Option Nat} {node : Nat} {cell : Cell (Entry I)}
    (read : world.arena.cells node = some cell) :
    World.deleteLoop cond target index (fuel + 1) world previous (some node) =
      if cond world cell.value then
        World.deleteLoop cond target index fuel (unlink world target index previous cell.next) previous cell.next
      else World.deleteLoop cond target index fuel world (some node) cell.next := by
  rw [World.deleteLoop, read]
  cases previous <;> rfl

section Unlink

variable {world : World I} {previous next : Option Nat}

@[simp] theorem unlink_top : (unlink world target index previous next).arena.top = world.arena.top := by
  cases previous <;> rfl

theorem bounded_unlink (bounded : world.arena.Bounded) : (unlink world target index previous next).arena.Bounded := by
  cases previous with
  | none => exact bounded
  | some previous => exact bounded.setNext _ _

theorem keeps_unlink :
    Keeps world (unlink world target index previous next) target fun address => some address = previous := by
  refine ⟨by simp, fun address _ off => ?_, fun other apart => ?_⟩
  · cases previous with
    | none => rfl
    | some previous => exact setNext_cells_of_ne _ _ fun same => off (by rw [same])
  · cases previous with
    | none => exact World.write_sets_of_ne _ _ apart
    | some previous => rfl

theorem headOnly_unlink : HeadOnly world (unlink world target index previous next) target index := by
  cases previous <;> simp [HeadOnly, unlink]

theorem unlink_path {kept : List (Nat × Entry I)} {node : Option Nat}
    (path : Path world.arena ((world.sets target).buckets index) kept node)
    (last : (kept.map Prod.fst).getLast? = previous) (distinct : (kept.map Prod.fst).Nodup) :
    Path (unlink world target index previous next).arena
      (((unlink world target index previous next).sets target).buckets index) kept next := by
  rcases List.eq_nil_or_concat kept with empty | ⟨before, final, rfl⟩
  · -- nothing kept: the bucket's head is relinked
    subst empty
    obtain rfl : previous = none := last.symm
    simpa [unlink] using Path.nil next
  · -- the last node kept is relinked
    obtain rfl : previous = some final.1 := by simpa using last.symm
    have relinked := Path.redirect (by simpa using path) (by simpa using distinct) next
    simpa [unlink] using relinked

end Unlink

/-- The deletion loop keeps what it has kept, `kept`, ending at `previous`,
and drops from the chain `rest` still to walk the nodes that satisfy `cond`, as
it reads at `origin`: `cond` may read the world, but not what the loop writes.
Only cells of the bucket are written. -/
theorem deleteLoop_spec {origin : World I} {touched : Nat → Prop}
    (stable : ∀ later, Keeps origin later target touched → cond later = cond origin)
    {fuel : Nat} {world : World I} {previous node : Option Nat} {kept rest : List (Nat × Entry I)}
    (bounded : world.arena.Bounded) (fromOrigin : Keeps origin world target touched)
    (inside : ∀ entry ∈ kept ++ rest, touched entry.1)
    (path : Path world.arena ((world.sets target).buckets index) kept node)
    (last : (kept.map Prod.fst).getLast? = previous) (chain : Chain world.arena node rest)
    (enough : rest.length ≤ fuel) :
    let result := World.deleteLoop cond target index fuel world previous node
    Chain result.arena ((result.sets target).buckets index) (kept ++ rest.filter fun entry => !cond origin entry.2) ∧
      result.arena.Bounded ∧ result.arena.top = world.arena.top ∧
      Keeps world result target (fun address => address ∈ (kept ++ rest).map Prod.fst) ∧
      HeadOnly world result target index := by
  induction rest generalizing world previous node kept fuel with
  | nil =>
    obtain rfl : node = none := by cases chain; rfl
    simpa using ⟨path, bounded, Keeps.refl _ _ _, HeadOnly.refl _ _ _⟩
  | cons entry rest induction =>
    cases chain with
    | @cons address cell _ _ read tail =>
    obtain ⟨fuel, rfl⟩ : ∃ smaller, fuel = smaller + 1 := ⟨fuel - 1, by simp at enough; omega⟩
    have distinct := Chain.nodup (path.append (Path.cons read tail))
    simp only [List.map_append, List.map_cons, List.nodup_append, List.nodup_cons] at distinct
    rw [deleteLoop_cons read, stable world fromOrigin]
    by_cases dropped : cond origin cell.value
    · -- the node is unlinked; the node before it, kept, is the only cell written
      have keeps : Keeps world (unlink world target index previous cell.next) target
          (fun address => address ∈ kept.map Prod.fst) :=
        keeps_unlink.mono fun address same => List.mem_of_getLast? (last.trans same.symm)
      have keptTouched : ∀ address ∈ kept.map Prod.fst, touched address := by
        intro address member
        obtain ⟨entry, inKept, rfl⟩ := List.mem_map.mp member
        exact inside entry (List.mem_append_left _ inKept)
      have inside' : ∀ entry ∈ kept ++ rest, touched entry.1 := by
        intro entry member
        rcases List.mem_append.mp member with inKept | inRest
        · exact inside entry (List.mem_append_left _ inKept)
        · exact inside entry (List.mem_append_right _ (List.mem_cons_of_mem _ inRest))
      obtain ⟨chained, bounded', top, keeps', headOnly⟩ := induction (bounded_unlink bounded)
        (fromOrigin.trans (keeps.mono keptTouched)) inside' (unlink_path path last distinct.1) last
        (keeps.path bounded tail fun entry member inKept =>
          distinct.2.2 _ inKept _ (List.mem_cons_of_mem _ (List.mem_map_of_mem member)) rfl)
        (by simp at enough; omega)
      simp only [dropped, if_true, List.filter_cons, Bool.not_true]
      refine ⟨chained, bounded', by simp [top], (keeps.mono fun address member => ?_).trans
        (keeps'.mono fun address member => ?_), headOnly_unlink.trans headOnly⟩
      · simp [member]
      · simp only [List.map_append, List.mem_append, List.map_cons, List.mem_cons] at member ⊢
        tauto
    · -- the node is kept and becomes the previous one
      obtain ⟨chained, bounded', top, keeps', headOnly⟩ := induction bounded fromOrigin
        (fun entry member => inside entry (by simpa using member)) (path.snoc read)
        (by simp : ((kept ++ [(address, cell.value)]).map Prod.fst).getLast? = some address) tail
        (by simp at enough; omega)
      simp only [dropped, List.filter_cons, Bool.not_false, if_true]
      refine ⟨by simpa using chained, bounded', top, keeps'.mono fun address member => by simpa using member, headOnly⟩

@[simp] theorem scanShared_none {fuel : Nat} {world : World I} {previous : Option Nat} :
    World.scanShared cond target index fuel world previous none = (world, previous, none) := by
  cases fuel <;> rfl

/-- The first loop of `DeleteAllImpureWhich` on a shared bucket walks the
chain `rest` while `cond` fails, after the nodes `kept`. If it never holds, the
loop ends at the last node; at the first node where it holds, the bucket is
cloned, and the loop goes on from the clone of that node. -/
theorem scanShared_eq {fuel : Nat} {world : World I} {previous node : Option Nat} {kept rest : List (Nat × Entry I)}
    (chain : Chain world.arena node rest) (last : (kept.map Prod.fst).getLast? = previous)
    (enough : rest.length ≤ fuel) :
    World.scanShared cond target index fuel world previous node =
      if rest.all (fun entry => !cond world entry.2) then (world, ((kept ++ rest).map Prod.fst).getLast?, none)
      else
        let cloned := World.cloneBucket world target index
          (((kept ++ rest.takeWhile fun entry => !cond world entry.2).map Prod.fst).getLast?)
        (cloned.1, cloned.2, match cloned.2 with
          | none => (cloned.1.sets target).buckets index
          | some previous => (cloned.1.arena.cells previous).bind (·.next)) := by
  induction rest generalizing kept previous node fuel with
  | nil =>
    obtain rfl : node = none := by cases chain; rfl
    simp [last]
  | cons entry rest induction =>
    cases chain with
    | @cons address cell _ _ read tail =>
    obtain ⟨fuel, rfl⟩ : ∃ smaller, fuel = smaller + 1 := ⟨fuel - 1, by simp at enough; omega⟩
    rw [World.scanShared, read]
    dsimp only
    by_cases found : cond world cell.value
    · -- the first node where `cond` holds: the nodes before it are `kept`; the
      -- clone's answer is split first, so that both `match`es on it reduce
      rw [if_pos found]
      cases clonedNext : (World.cloneBucket world target index previous).2 <;>
        simp only [clonedNext, found, List.all_cons, Bool.not_true, Bool.false_and, Bool.false_eq_true, if_false,
          List.takeWhile_cons, List.append_nil, last]
    · -- walk on, with the node kept
      rw [if_neg found, induction tail (by simp : ((kept ++ [(address, cell.value)]).map Prod.fst).getLast? = some address)
        (by simp at enough; omega)]
      simp only [found, List.all_cons, Bool.not_false, Bool.true_and, List.takeWhile_cons, if_true,
        List.append_assoc, List.singleton_append]

/-- What deleting from bucket `index` of `target` did, from `world` to
`result`: the bucket holds the entries `keep` accepts, each in an old node or a
new one; of the old nodes only those of an owned bucket were written; and the
bucket is owned after only if it was, or if all its nodes are new. -/
structure BucketDeleted (keep : Entry I → Bool) (world result : World I) (target index : Nat) : Prop where
  chain : Chain result.arena ((result.sets target).buckets index) (bucketCells result target index)
  kept : (bucketCells result target index).map Prod.snd = ((bucketCells world target index).map Prod.snd).filter keep
  old : ∀ entry ∈ bucketCells result target index, entry ∈ bucketCells world target index ∨ world.arena.top ≤ entry.1
  bounded : result.arena.Bounded
  keeps : Keeps world result target fun address =>
    (world.sets target).bucketsOwned index = true ∧ address ∈ (bucketCells world target index).map Prod.fst
  record : result.sets target =
    { world.sets target with
      buckets := Function.update (world.sets target).buckets index ((result.sets target).buckets index)
      bucketsOwned := Function.update (world.sets target).bucketsOwned index ((result.sets target).bucketsOwned index) }
  owned : (result.sets target).bucketsOwned index = true →
    (world.sets target).bucketsOwned index = true ∨ ∀ entry ∈ bucketCells result target index, world.arena.top ≤ entry.1

/-- The deletion loop over a whole chain, from the node `node` after `kept`,
leaves a bucket whose values are those `cond` rejects. -/
theorem deleteLoop_values {world : World I} {kept rest : List (Nat × Entry I)} (cells : List (Nat × Entry I))
    (whole : cells.map Prod.snd = kept.map Prod.snd ++ rest.map Prod.snd)
    (passes : ∀ entry ∈ kept, cond world entry.2 = false) :
    (kept ++ rest.filter fun entry => !cond world entry.2).map Prod.snd =
      (cells.map Prod.snd).filter fun entry => !cond world entry := by
  have keptAll : (kept.map Prod.snd).filter (fun entry => !cond world entry) = kept.map Prod.snd := by
    rw [List.filter_eq_self]
    intro value member
    obtain ⟨entry, inKept, rfl⟩ := List.mem_map.mp member
    simp [passes entry inKept]
  rw [whole, List.filter_append, keptAll, List.map_append, List.filter_map]
  rfl

theorem BucketDeleted.of_chain {keep : Entry I → Bool} {world result : World I} {cells remaining : List (Nat × Entry I)}
    (cellsEq : bucketCells world target index = cells)
    (chain : Chain result.arena ((result.sets target).buckets index) remaining) (bounded : result.arena.Bounded)
    (kept : remaining.map Prod.snd = (cells.map Prod.snd).filter keep)
    (old : ∀ entry ∈ remaining, entry ∈ cells ∨ world.arena.top ≤ entry.1)
    (keeps : Keeps world result target fun address =>
      (world.sets target).bucketsOwned index = true ∧ address ∈ cells.map Prod.fst)
    (record : result.sets target =
      { world.sets target with
        buckets := Function.update (world.sets target).buckets index ((result.sets target).buckets index)
        bucketsOwned := Function.update (world.sets target).bucketsOwned index ((result.sets target).bucketsOwned index) })
    (owned : (result.sets target).bucketsOwned index = true →
      (world.sets target).bucketsOwned index = true ∨ ∀ entry ∈ remaining, world.arena.top ≤ entry.1) :
    BucketDeleted keep world result target index := by
  subst cellsEq
  obtain rfl := bucketCells_of_chain bounded chain
  exact ⟨chain, kept, old, bounded, keeps, record, owned⟩

theorem BucketDeleted.of_unchanged {keep : Entry I → Bool} {world : World I} {cells : List (Nat × Entry I)}
    (cellsEq : bucketCells world target index = cells) (bounded : world.arena.Bounded)
    (chain : Chain world.arena ((world.sets target).buckets index) cells) (passes : ∀ entry ∈ cells, keep entry.2 = true) :
    BucketDeleted keep world world target index := by
  refine BucketDeleted.of_chain cellsEq chain bounded ?_ (fun entry member => Or.inl member) (Keeps.refl _ _ _)
    (by simp) (fun owned => Or.inl owned)
  rw [List.filter_eq_self.mpr]
  intro value member
  obtain ⟨entry, inCells, rfl⟩ := List.mem_map.mp member
  exact passes entry inCells

/-- `DeleteAllImpureWhich` on one bucket, with `cond` not reading the nodes of
the bucket: an owned bucket is unlinked in place; a shared one is left alone
when nothing is deleted, and otherwise cloned first, so that only new nodes are
written. -/
theorem deleteInBucket_spec {world : World I}
    (stable : ∀ later, Keeps world later target (fun address => address ∈ (bucketCells world target index).map Prod.fst) →
      cond later = cond world)
    (bounded : world.arena.Bounded)
    (chain : Chain world.arena ((world.sets target).buckets index) (bucketCells world target index)) :
    BucketDeleted (fun entry => !cond world entry) world (World.deleteInBucket cond target world index) target index := by
  generalize cellsEq : bucketCells world target index = cells at stable chain
  -- the loops may also write the nodes they allocate
  have stable' : ∀ later, Keeps world later target (fun address => address ∈ cells.map Prod.fst ∨ world.arena.top ≤ address) →
      cond later = cond world := fun later keeps => stable later keeps.of_fresh
  unfold World.deleteInBucket
  cases headAt : (world.sets target).buckets index with
  | none =>
    rw [headAt] at chain
    cases chain
    exact BucketDeleted.of_unchanged cellsEq bounded (by rw [headAt]; exact .nil none) (by simp)
  | some head =>
    dsimp only
    rw [headAt] at chain
    have enough := chain.length_le_top bounded
    by_cases owned : (world.sets target).bucketsOwned index = true
    · -- an owned bucket: the deletion loop runs from its head
      simp only [owned, Bool.not_true, Bool.false_eq_true, if_false]
      obtain ⟨chained, bounded', -, keeps, headOnly⟩ := @deleteLoop_spec I target index cond world _ stable'
        world.arena.top world none (some head) [] cells bounded (Keeps.refl _ _ _)
        (fun entry member => Or.inl (List.mem_map_of_mem (by simpa using member))) (by rw [headAt]; exact .nil _) rfl
        chain enough
      refine BucketDeleted.of_chain cellsEq chained bounded' (deleteLoop_values cells (by simp) (by simp))
        (fun entry member => by
          rw [List.nil_append] at member
          exact Or.inl (List.mem_filter.mp member).1)
        (keeps.mono fun address member => ⟨owned, by simpa using member⟩) headOnly.record fun _ => Or.inl owned
    · -- a shared bucket: the scan looks for the first node to delete
      simp only [owned, Bool.not_false, if_true]
      have started : (([] : List (Nat × Entry I)).map Prod.fst).getLast? = none := rfl
      rw [scanShared_eq chain started enough]
      by_cases all : cells.all (fun entry => !cond world entry.2)
      · simp only [all, if_true, deleteLoop_none]
        exact BucketDeleted.of_unchanged cellsEq bounded (by rw [headAt]; exact chain)
          fun entry member => List.all_eq_true.mp all entry member
      · -- the bucket is cloned, and the deletion goes on in the clone
        simp only [all, Bool.false_eq_true, if_false, List.nil_append]
        have split : cells.takeWhile (fun entry => !cond world entry.2) ++
            cells.dropWhile (fun entry => !cond world entry.2) = cells := List.takeWhile_append_dropWhile
        have passes : ∀ entry ∈ cells.takeWhile (fun entry => !cond world entry.2), cond world entry.2 = false :=
          fun entry member => by simpa using List.mem_takeWhile_imp member
        generalize cells.takeWhile (fun entry => !cond world entry.2) = before at split passes ⊢
        generalize cells.dropWhile (fun entry => !cond world entry.2) = after at split
        subst split
        have chain' : Chain world.arena ((world.sets target).buckets index) (before ++ after) := by
          rw [headAt]
          exact chain
        obtain ⟨path, rest, lastClone⟩ := cloneBucket_split bounded chain'
        obtain ⟨-, bounded₁, top₁, keeps₁, record₁, -⟩ :=
          @cloneBucket_spec I target index ((before.map Prod.fst).getLast?) world (before ++ after) bounded chain'
        generalize World.cloneBucket world target index ((before.map Prod.fst).getLast?) = cloned at *
        -- every node of the clone is new
        have fresh : ∀ entry ∈ relocate world.arena.top before ++ relocate (world.arena.top + before.length) after,
            world.arena.top ≤ entry.1 := by
          intro entry member
          rcases List.mem_append.mp member with inBefore | inAfter
          · exact le_of_mem_relocate inBefore
          · exact le_trans (Nat.le_add_right _ _) (le_of_mem_relocate inAfter)
        obtain ⟨chained, bounded₂, -, keeps₂, headOnly₂⟩ := @deleteLoop_spec I target index cond world _ stable'
          cloned.1.arena.top cloned.1 cloned.2 _ (relocate world.arena.top before)
          (relocate (world.arena.top + before.length) after) bounded₁ (keeps₁.mono fun _ absurd => absurd.elim)
          (fun entry member => Or.inr (fresh entry member)) path lastClone rest (by simp [top₁]; omega)
        have passes' : ∀ entry ∈ relocate world.arena.top before, cond world entry.2 = false := by
          intro entry member
          obtain ⟨original, inBefore, same⟩ := exists_of_mem_relocate member
          rw [← same]
          exact passes original inBefore
        -- what the deletion keeps of the clone is new
        have kept : ∀ entry ∈ relocate world.arena.top before ++
            (relocate (world.arena.top + before.length) after).filter (fun entry => !cond world entry.2),
            world.arena.top ≤ entry.1 := by
          intro entry member
          rcases List.mem_append.mp member with inBefore | inAfter
          · exact fresh entry (List.mem_append_left _ inBefore)
          · exact fresh entry (List.mem_append_right _ (List.mem_filter.mp inAfter).1)
        refine BucketDeleted.of_chain cellsEq chained bounded₂ (deleteLoop_values _ (by simp) passes')
          (fun entry member => Or.inr (kept entry member)) ?_ ?_ fun _ => Or.inr kept
        · -- only the clone's nodes were written
          refine ((keeps₁.mono fun _ absurd => absurd.elim).trans (keeps₂.mono fun address member => Or.inr ?_)).of_fresh
          obtain ⟨entry, inClone, rfl⟩ := List.mem_map.mp member
          exact fresh entry inClone
        · unfold HeadOnly at headOnly₂
          rw [headOnly₂, record₁]
          simp

end Delete

end ArtRuntime.Compiler.Gvn