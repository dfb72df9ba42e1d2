import ArtRuntime.Compiler.Gvn.BucketLoops
import ArtRuntime.Compiler.Gvn.Refinement

/-! # The copy-on-write discipline of value sets

A set writes the nodes of a bucket only when it owns the bucket, and clones a
shared bucket before it deletes from it. That leaves the other sets as they
were only while the nodes of an owned bucket are on no other bucket:
`OwnsAlone`. Every world that `ValueSet(allocator)`, `Add`, `Kill` and `Clear`
reach keeps it for every set, and there `Kill` filters the even buckets of its
set and changes no other set.

Each operation is first shown to rewrite one bucket in the way `Rebucketed`
describes, or, for the two that write a whole record, to empty buckets; the
discipline is derived once from that. -/

namespace ArtRuntime.Compiler.Gvn

open Foundation CellHeap

variable {I : Type}

/-- The addresses of the nodes of bucket `index` of the set at `target`. -/
def bucketAddresses (world : World I) (target index : Nat) : List Nat :=
  (bucketCells world target index).map Prod.fst

/-- The entries of bucket `index` of the set at `target`, in order. -/
def bucketEntries (world : World I) (target index : Nat) : List (Entry I) :=
  (bucketCells world target index).map Prod.snd

/-- Every bucket of every set is a finite chain of nodes in the arena. -/
structure Linked (world : World I) : Prop where
  bounded : world.arena.Bounded
  chains : ∀ set index, Chain world.arena ((world.sets set).buckets index) (bucketCells world set index)

/-- No node of bucket `index` of the set at `target` is on another bucket. -/
def Alone (world : World I) (target index : Nat) : Prop :=
  ∀ other otherIndex, (other, otherIndex) ≠ (target, index) →
    ∀ address ∈ bucketAddresses world target index, address ∉ bucketAddresses world other otherIndex

/-- The buckets the set at `target` owns are its alone. -/
def OwnsAlone (world : World I) (target : Nat) : Prop :=
  ∀ index, (world.sets target).bucketsOwned index = true → Alone world target index

theorem bucketCells_of_none {world : World I} {set index : Nat} (empty : (world.sets set).buckets index = none) :
    bucketCells world set index = [] := by
  unfold bucketCells
  rw [empty]
  cases world.arena.top <;> rfl

theorem entries_eq_flatMap (world : World I) (target : Nat) :
    world.entries target = (List.range (world.sets target).numBuckets).flatMap (bucketEntries world target) := by
  rw [World.entries, List.map_flatMap]
  rfl

theorem Linked.lt_top {world : World I} (linked : Linked world) {set index address : Nat}
    (member : address ∈ bucketAddresses world set index) : address < world.arena.top := by
  obtain ⟨entry, inCells, rfl⟩ := List.mem_map.mp member
  exact (linked.chains set index).lt_top linked.bounded entry inCells

/-- A bucket whose head a step kept, and none of whose nodes it touched, is
the same chain after. -/
theorem Linked.chain_of_keeps {world result : World I} {target : Nat} {touched : Nat → Prop}
    (linked : Linked world) (keeps : Keeps world result target touched) {set index : Nat}
    (head : (result.sets set).buckets index = (world.sets set).buckets index)
    (off : ∀ address ∈ bucketAddresses world set index, ¬ touched address) :
    Chain result.arena ((result.sets set).buckets index) (bucketCells world set index) := by
  rw [head]
  exact keeps.path linked.bounded (linked.chains set index) fun entry member =>
    off entry.1 (List.mem_map_of_mem member)

/-! ## Steps that rewrite one bucket -/

/-- From `world` to `result` only bucket `index` of the set at `target`
changed: every other bucket has the same nodes and ownership, a node of the
new bucket is one of the old bucket's or a new one, and the bucket is owned
after only if it was before or all its nodes are new. -/
structure Rebucketed (world result : World I) (target index : Nat) : Prop where
  linked : Linked result
  grows : world.arena.top ≤ result.arena.top
  cells : ∀ set k, (set, k) ≠ (target, index) → bucketCells result set k = bucketCells world set k
  ownership : ∀ set k, (set, k) ≠ (target, index) →
    (result.sets set).bucketsOwned k = (world.sets set).bucketsOwned k
  old : ∀ address ∈ bucketAddresses result target index,
    address ∈ bucketAddresses world target index ∨ world.arena.top ≤ address
  owned : (result.sets target).bucketsOwned index = true →
    (world.sets target).bucketsOwned index = true ∨
      ∀ address ∈ bucketAddresses result target index, world.arena.top ≤ address

namespace Rebucketed

variable {world middle result : World I} {target index : Nat}

theorem refl (linked : Linked world) (target index : Nat) : Rebucketed world world target index :=
  ⟨linked, le_rfl, fun _ _ _ => rfl, fun _ _ _ => rfl, fun _ member => .inl member, fun owned => .inl owned⟩

theorem trans (first : Rebucketed world middle target index) (second : Rebucketed middle result target index) :
    Rebucketed world result target index where
  linked := second.linked
  grows := first.grows.trans second.grows
  cells set k apart := (second.cells set k apart).trans (first.cells set k apart)
  ownership set k apart := (second.ownership set k apart).trans (first.ownership set k apart)
  old address member := by
    rcases second.old address member with old | fresh
    · exact first.old address old
    · exact .inr (first.grows.trans fresh)
  owned owned := by
    rcases second.owned owned with wasOwned | allFresh
    · rcases first.owned wasOwned with before | firstFresh
      · exact .inl before
      · -- the middle bucket was all new, and so is what the second step left of it
        refine .inr fun address member => ?_
        rcases second.old address member with old | fresh
        · exact firstFresh address old
        · exact first.grows.trans fresh
    · exact .inr fun address member => first.grows.trans (allFresh address member)

/-- A step that touched only the rewritten bucket's own nodes, read off what it
did to that bucket. -/
theorem of_keeps {touched : Nat → Prop} (linked : Linked world) (keeps : Keeps world result target touched)
    (bounded : result.arena.Bounded)
    (buckets : ∀ k, k ≠ index → (result.sets target).buckets k = (world.sets target).buckets k)
    (ownedBits : ∀ k, k ≠ index → (result.sets target).bucketsOwned k = (world.sets target).bucketsOwned k)
    (off : ∀ set k, (set, k) ≠ (target, index) → ∀ address ∈ bucketAddresses world set k, ¬ touched address)
    {cells : List (Nat × Entry I)} (chain : Chain result.arena ((result.sets target).buckets index) cells)
    (old : ∀ entry ∈ cells, entry.1 ∈ bucketAddresses world target index ∨ world.arena.top ≤ entry.1)
    (owned : (result.sets target).bucketsOwned index = true →
      (world.sets target).bucketsOwned index = true ∨ ∀ entry ∈ cells, world.arena.top ≤ entry.1) :
    Rebucketed world result target index := by
  obtain rfl := bucketCells_of_chain bounded chain
  -- the other buckets keep their heads, whether of `target` or of another set
  have heads : ∀ set k, (set, k) ≠ (target, index) →
      (result.sets set).buckets k = (world.sets set).buckets k ∧
        (result.sets set).bucketsOwned k = (world.sets set).bucketsOwned k := by
    intro set k apart
    by_cases same : set = target
    · subst same
      have differs : k ≠ index := fun equal => apart (by rw [equal])
      exact ⟨buckets k differs, ownedBits k differs⟩
    · rw [keeps.others set same]
      exact ⟨rfl, rfl⟩
  have chains : ∀ set k, (set, k) ≠ (target, index) →
      Chain result.arena ((result.sets set).buckets k) (bucketCells world set k) :=
    fun set k apart => linked.chain_of_keeps keeps (heads set k apart).1 (off set k apart)
  have cellsEq : ∀ set k, (set, k) ≠ (target, index) → bucketCells result set k = bucketCells world set k :=
    fun set k apart => bucketCells_of_chain bounded (chains set k apart)
  refine ⟨⟨bounded, fun set k => ?_⟩, keeps.grows, cellsEq, fun set k apart => (heads set k apart).2, ?_, ?_⟩
  · by_cases same : (set, k) = (target, index)
    · obtain ⟨rfl, rfl⟩ := Prod.mk.inj same
      exact chain
    · rw [cellsEq set k same]
      exact chains set k same
  · intro address member
    obtain ⟨entry, inCells, rfl⟩ := List.mem_map.mp member
    exact old entry inCells
  · intro wasOwned
    refine (owned wasOwned).imp_right fun allFresh address member => ?_
    obtain ⟨entry, inCells, rfl⟩ := List.mem_map.mp member
    exact allFresh entry inCells

theorem alone (linked : Linked world) (rebucketed : Rebucketed world result target index) {set k : Nat}
    (apart : (set, k) ≠ (target, index)) (alone : Alone world set k) : Alone result set k := by
  intro other otherIndex different address member inOther
  rw [bucketAddresses, rebucketed.cells set k apart] at member
  by_cases changed : (other, otherIndex) = (target, index)
  · obtain ⟨rfl, rfl⟩ := Prod.mk.inj changed
    rcases rebucketed.old address inOther with old | fresh
    · exact alone other otherIndex (fun same => apart same.symm) address member old
    · exact absurd (linked.lt_top member) (Nat.not_lt.mpr fresh)
  · rw [bucketAddresses, rebucketed.cells other otherIndex changed] at inOther
    exact alone other otherIndex different address member inOther

/-- The rewritten bucket, if owned after, is alone: its nodes are its old ones,
of a bucket that was owned and so alone, or new. -/
theorem alone_self (linked : Linked world) (rebucketed : Rebucketed world result target index)
    (owns : OwnsAlone world target) (owned : (result.sets target).bucketsOwned index = true) :
    Alone result target index := by
  intro other otherIndex different address member inOther
  rw [bucketAddresses, rebucketed.cells other otherIndex different] at inOther
  have below := linked.lt_top inOther
  rcases rebucketed.old address member with old | fresh
  · rcases rebucketed.owned owned with wasOwned | allFresh
    · exact owns index wasOwned other otherIndex different address old inOther
    · exact absurd below (Nat.not_lt.mpr (allFresh address member))
  · exact absurd below (Nat.not_lt.mpr fresh)

theorem ownsAlone (linked : Linked world) (rebucketed : Rebucketed world result target index)
    (ownsTarget : OwnsAlone world target) {set : Nat} (owns : OwnsAlone world set) : OwnsAlone result set := by
  intro k owned
  by_cases same : (set, k) = (target, index)
  · obtain ⟨rfl, rfl⟩ := Prod.mk.inj same
    exact rebucketed.alone_self linked ownsTarget owned
  · rw [rebucketed.ownership set k same] at owned
    exact rebucketed.alone linked same (owns k owned)

end Rebucketed

/-! ## `CloneBucket` and `Add` -/

section Add

variable {world : World I} {target index : Nat}

theorem cloneBucket_rebucketed (linked : Linked world) (target index : Nat) (iterator : Option Nat) :
    Rebucketed world (World.cloneBucket world target index iterator).1 target index := by
  obtain ⟨chained, bounded, -, keeps, record, -⟩ :=
    @cloneBucket_spec I target index iterator world _ linked.bounded (linked.chains target index)
  -- the clones are all new, and owned
  have fresh : ∀ entry ∈ relocate world.arena.top (bucketCells world target index), world.arena.top ≤ entry.1 :=
    fun _ member => le_of_mem_relocate member
  refine Rebucketed.of_keeps linked keeps bounded (fun k differs => ?_) (fun k differs => ?_)
    (fun _ _ _ _ _ absurd => absurd) chained (fun entry member => .inr (fresh entry member))
    (fun _ => .inr fresh)
  · rw [record]
    exact Function.update_of_ne differs _ _
  · rw [record]
    exact Function.update_of_ne differs _ _

theorem link_rebucketed (linked : Linked world) (target index : Nat) (entry : Entry I) (numEntries : Nat) :
    let node := world.arena.alloc ⟨entry, (world.sets target).buckets index⟩
    Rebucketed world ⟨node.2, Function.update world.sets target
      { world.sets target with
        buckets := Function.update (world.sets target).buckets index (some node.1), numEntries := numEntries }⟩
      target index := by
  intro node
  have keeps : Keeps world ⟨node.2, Function.update world.sets target
      { world.sets target with
        buckets := Function.update (world.sets target).buckets index (some node.1), numEntries := numEntries }⟩
      target (fun _ => False) :=
    ⟨by simp [node], fun address below _ => alloc_cells_of_ne _ _ (Nat.ne_of_lt below),
      fun other apart => Function.update_of_ne apart _ _⟩
  -- the new node, then the old chain, which the allocation does not touch
  have chain : Chain node.2 (some node.1) ((world.arena.top, entry) :: bucketCells world target index) :=
    .cons (alloc_cells_self _ _) ((linked.chains target index).alloc linked.bounded _)
  refine Rebucketed.of_keeps linked keeps (linked.bounded.alloc _) (fun k differs => ?_) (fun _ _ => by simp)
    (fun _ _ _ _ _ absurd => absurd) (by simpa using chain) (fun entry member => ?_)
    (fun owned => .inl (by simpa using owned))
  · simp [Function.update_of_ne differs]
  · rcases List.mem_cons.mp member with rfl | later
    · exact .inr le_rfl
    · exact .inl (List.mem_map_of_mem later)

variable {E : Type} (info : InstructionInfo I E)

theorem add_rebucketed (linked : Linked world) (target : Nat) (instruction : I) :
    Rebucketed world (world.add info target instruction) target
      ((world.sets target).bucketIndex (hashCode info instruction)) := by
  unfold World.add
  dsimp only
  generalize (world.sets target).bucketIndex (hashCode info instruction) = index
  -- a shared bucket is cloned first; then the new node heads it
  have owning : Rebucketed world
      (if !(world.sets target).bucketsOwned index then (World.cloneBucket world target index none).1 else world)
      target index := by
    split
    · exact cloneBucket_rebucketed linked target index none
    · exact Rebucketed.refl linked target index
  generalize (if !(world.sets target).bucketsOwned index then (World.cloneBucket world target index none).1
    else world) = owned at owning ⊢
  exact owning.trans (link_rebucketed owning.linked target index ⟨instruction, hashCode info instruction⟩
    ((owned.sets target).numEntries + 1))

end Add

/-! ## Records written whole: `ValueSet(allocator)` and `Clear` -/

section Write

variable {world : World I} {target : Nat} {set : ValueSet}

/-- A bucket of a record written whole is emptied or keeps its head. -/
theorem buckets_write
    (emptied : ∀ index, set.buckets index = none ∨ set.buckets index = (world.sets target).buckets index)
    (owner index : Nat) :
    ((world.write target set).sets owner).buckets index = none ∨
      ((world.write target set).sets owner).buckets index = (world.sets owner).buckets index := by
  by_cases same : owner = target
  · subst same
    rw [World.write_sets_self]
    exact emptied index
  · exact .inr (by rw [World.write_sets_of_ne world set same])

theorem bucketCells_write_of_kept {owner index : Nat}
    (kept : ((world.write target set).sets owner).buckets index = (world.sets owner).buckets index) :
    bucketCells (world.write target set) owner index = bucketCells world owner index := by
  simp only [bucketCells, World.write_arena, kept]

/-- No bucket gains a node when a record is written whole. -/
theorem mem_bucketAddresses_write
    (emptied : ∀ index, set.buckets index = none ∨ set.buckets index = (world.sets target).buckets index)
    {owner index address : Nat} (member : address ∈ bucketAddresses (world.write target set) owner index) :
    address ∈ bucketAddresses world owner index := by
  rcases buckets_write emptied owner index with empty | kept
  · rw [bucketAddresses, bucketCells_of_none empty] at member
    cases member
  · rwa [bucketAddresses, bucketCells_write_of_kept kept] at member

theorem Linked.write (linked : Linked world)
    (emptied : ∀ index, set.buckets index = none ∨ set.buckets index = (world.sets target).buckets index) :
    Linked (world.write target set) := by
  refine ⟨linked.bounded, fun owner index => ?_⟩
  rcases buckets_write emptied owner index with empty | kept
  · rw [bucketCells_of_none empty, empty]
    exact .nil none
  · rw [bucketCells_write_of_kept kept, kept]
    exact linked.chains owner index

/-- A written record that owns only emptied buckets owns them alone, and every
other set keeps owning its buckets alone. -/
theorem ownsAlone_write
    (emptied : ∀ index, set.buckets index = none ∨ set.buckets index = (world.sets target).buckets index)
    (ownsEmptied : ∀ index, set.bucketsOwned index = true → set.buckets index = none) {owner : Nat}
    (owns : owner ≠ target → OwnsAlone world owner) : OwnsAlone (world.write target set) owner := by
  intro index owned other otherIndex different address member inOther
  by_cases same : owner = target
  · subst same
    rw [World.write_sets_self] at owned
    rw [bucketAddresses, bucketCells_of_none (by simpa using ownsEmptied index owned)] at member
    cases member
  · rw [World.write_sets_of_ne world set same] at owned
    exact owns same index owned other otherIndex different address (mem_bucketAddresses_write emptied member)
      (mem_bucketAddresses_write emptied inOther)

theorem create_emptied (world : World I) (target index : Nat) :
    ValueSet.create.buckets index = none ∨ ValueSet.create.buckets index = (world.sets target).buckets index :=
  .inl rfl

theorem clear_emptied (world : World I) (target index : Nat) :
    (world.sets target).clear.buckets index = none ∨
      (world.sets target).clear.buckets index = (world.sets target).buckets index := by
  simp only [ValueSet.clear]
  split
  · exact .inl rfl
  · exact .inr rfl

theorem clear_ownsEmptied (world : World I) (target index : Nat)
    (owned : (world.sets target).clear.bucketsOwned index = true) : (world.sets target).clear.buckets index = none := by
  simp only [ValueSet.clear, ValueSet.initialBits, decide_eq_true_eq] at owned ⊢
  simp [owned]

end Write

/-! ## `DeleteAllImpureWhich` with a condition on the entry alone -/

section Delete

variable {world : World I} {target : Nat} (test : Entry I → Bool)

/-- One bucket of the deletion rewrites that bucket, to the entries `test`
rejects, and leaves the record's other fields and the other sets. -/
theorem deleteInBucket_rebucketed (linked : Linked world) (owns : OwnsAlone world target) (index : Nat) :
    let result := World.deleteInBucket (fun _ => test) target world index
    Rebucketed world result target index ∧
      bucketEntries result target index = (bucketEntries world target index).filter (fun entry => !test entry) ∧
      (result.sets target).numBuckets = (world.sets target).numBuckets ∧
      ∀ other, other ≠ target → result.sets other = world.sets other := by
  have deleted : BucketDeleted (fun entry => !test entry) world
      (World.deleteInBucket (fun _ => test) target world index) target index :=
    @deleteInBucket_spec I target index (fun _ => test) world (fun _ _ => rfl) linked.bounded
      (linked.chains target index)
  generalize World.deleteInBucket (fun _ => test) target world index = result at deleted ⊢
  have record := deleted.record
  refine ⟨Rebucketed.of_keeps linked deleted.keeps deleted.bounded (fun k differs => ?_) (fun k differs => ?_)
      (fun set k apart address member touched => ?_) deleted.chain (fun entry member => ?_) (fun owned => ?_),
    deleted.kept, by rw [record], deleted.keeps.others⟩
  · rw [record]
    exact Function.update_of_ne differs _ _
  · rw [record]
    exact Function.update_of_ne differs _ _
  · -- only the nodes of an owned bucket are touched, and those are on no other bucket
    exact owns index touched.1 set k apart address touched.2 member
  · exact (deleted.old entry member).imp_left (List.mem_map_of_mem ·)
  · exact deleted.owned owned

/-- The deletion over a list of distinct buckets, by induction on the list:
each step rewrites one bucket of the list, and what the steps after it do
leaves that bucket alone. -/
theorem foldl_deleteInBucket (indices : List Nat) (distinct : indices.Nodup) {world : World I}
    (linked : Linked world) (owns : OwnsAlone world target) :
    let result := indices.foldl (World.deleteInBucket (fun _ => test) target) world
    Linked result ∧ (∀ set, OwnsAlone world set → OwnsAlone result set) ∧
      (∀ other, other ≠ target → result.sets other = world.sets other) ∧
      (result.sets target).numBuckets = (world.sets target).numBuckets ∧
      ∀ set index, bucketEntries result set index =
        if set = target ∧ index ∈ indices then (bucketEntries world set index).filter (fun entry => !test entry)
        else bucketEntries world set index := by
  induction indices generalizing world with
  | nil => exact ⟨linked, fun _ owns => owns, fun _ _ => rfl, rfl, fun set index => by simp⟩
  | cons first rest induction =>
    obtain ⟨firstAbsent, restDistinct⟩ := List.nodup_cons.mp distinct
    obtain ⟨rebucketed, filtered, numBuckets, others⟩ := deleteInBucket_rebucketed test linked owns first
    obtain ⟨linked', keepsOwns, others', numBuckets', entries'⟩ :=
      induction restDistinct rebucketed.linked (rebucketed.ownsAlone linked owns owns)
    have unchanged : ∀ set index, (set, index) ≠ (target, first) →
        bucketEntries (World.deleteInBucket (fun _ => test) target world first) set index =
          bucketEntries world set index :=
      fun set index apart => by rw [bucketEntries, rebucketed.cells set index apart, bucketEntries]
    refine ⟨linked', fun set owned => keepsOwns set (rebucketed.ownsAlone linked owns owned),
      fun other apart => (others' other apart).trans (others other apart), numBuckets'.trans numBuckets,
      fun set index => ?_⟩
    rw [List.foldl_cons, entries' set index]
    by_cases later : set = target ∧ index ∈ rest
    · -- a bucket the later steps filter, which the first step left as it was
      obtain ⟨rfl, inRest⟩ := later
      have differs : (set, index) ≠ (set, first) := fun same =>
        firstAbsent (by rw [← (Prod.mk.inj same).2]; exact inRest)
      simp [inRest, unchanged set index differs]
    · rw [if_neg later]
      by_cases here : (set, index) = (target, first)
      · obtain ⟨rfl, rfl⟩ := Prod.mk.inj here
        simp [filtered]
      · have notFirst : ¬ (set = target ∧ index ∈ first :: rest) := by
          rintro ⟨rfl, inList⟩
          rcases List.mem_cons.mp inList with rfl | inRest
          · exact here rfl
          · exact later ⟨rfl, inRest⟩
        rw [if_neg notFirst, unchanged set index here]

theorem mem_range'_two {index count : Nat} :
    index ∈ List.range' 0 ((count + 1) / 2) 2 ↔ index < count ∧ index % 2 = 0 := by
  rw [List.mem_range']
  constructor
  · rintro ⟨half, below, rfl⟩
    omega
  · rintro ⟨below, even⟩
    exact ⟨index / 2, by omega, by omega⟩

/-- `DeleteAllImpureWhich` with a condition on the entry alone: the even
buckets below `num_buckets_` keep the entries `test` rejects, everything else
is as it was, and the discipline is kept. -/
theorem deleteAllImpureWhich_spec (linked : Linked world) (owns : OwnsAlone world target) :
    let result := World.deleteAllImpureWhich (fun _ => test) world target
    Linked result ∧ (∀ set, OwnsAlone world set → OwnsAlone result set) ∧
      (∀ other, other ≠ target → result.sets other = world.sets other) ∧
      (result.sets target).numBuckets = (world.sets target).numBuckets ∧
      ∀ set index, bucketEntries result set index =
        if set = target ∧ index < (world.sets target).numBuckets ∧ index % 2 = 0 then
          (bucketEntries world set index).filter (fun entry => !test entry)
        else bucketEntries world set index := by
  obtain ⟨linked', owns', others, numBuckets, entries⟩ :=
    foldl_deleteInBucket test _ (List.nodup_range' 2) linked owns
  refine ⟨linked', owns', others, numBuckets, fun set index => ?_⟩
  rw [World.deleteAllImpureWhich, entries set index]
  simp only [mem_range'_two]

end Delete

/-! ## The worlds the operations reach -/

variable {E : Type} (info : InstructionInfo I E)

/-- The worlds reached from one with no nodes by `ValueSet(allocator)`, `Add`,
`Kill` and `Clear`, on any sets and in any order. -/
inductive Reachable : World I → Prop
  | empty : Reachable ⟨⟨fun _ => none, 0⟩, fun _ => ValueSet.create⟩
  | create {world : World I} (target : Nat) : Reachable world → Reachable (world.create target)
  | add {world : World I} (target : Nat) (instruction : I) : Reachable world →
      Reachable (world.add info target instruction)
  | kill {world : World I} (target : Nat) (sideEffects : E) : Reachable world →
      Reachable (world.kill info target sideEffects)
  | clear {world : World I} (target : Nat) : Reachable world → Reachable (world.clear target)

/-- The discipline holds in every reachable world, by induction on the run:
each operation keeps it. -/
theorem Reachable.disciplined {world : World I} (reachable : Reachable info world) :
    Linked world ∧ ∀ set, OwnsAlone world set := by
  induction reachable with
  | empty =>
    have empty : ∀ set index, bucketCells (⟨⟨fun _ => none, 0⟩, fun _ => ValueSet.create⟩ : World I) set index = [] :=
      fun _ _ => rfl
    refine ⟨⟨fun _ _ => rfl, fun set index => ?_⟩, fun set index _ other otherIndex _ address member => ?_⟩
    · rw [empty]
      exact .nil none
    · rw [bucketAddresses, empty] at member
      cases member
  | create target _ induction =>
    obtain ⟨linked, owns⟩ := induction
    exact ⟨linked.write (create_emptied _ target), fun set =>
      ownsAlone_write (create_emptied _ target) (fun _ _ => rfl) fun _ => owns set⟩
  | add target instruction _ induction =>
    obtain ⟨linked, owns⟩ := induction
    have rebucketed := add_rebucketed info linked target instruction
    exact ⟨rebucketed.linked, fun set => rebucketed.ownsAlone linked (owns target) (owns set)⟩
  | kill target sideEffects _ induction =>
    obtain ⟨linked, owns⟩ := induction
    obtain ⟨linked', owns', -⟩ :=
      deleteAllImpureWhich_spec (fun entry => info.mayDependOn entry.instruction sideEffects) linked (owns target)
    exact ⟨linked', fun set => owns' set (owns set)⟩
  | clear target _ induction =>
    obtain ⟨linked, owns⟩ := induction
    exact ⟨linked.write (clear_emptied _ target), fun set =>
      ownsAlone_write (clear_emptied _ target) (clear_ownsEmptied _ target) fun _ => owns set⟩

end ArtRuntime.Compiler.Gvn
