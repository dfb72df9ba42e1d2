import ArtRuntime.Base.BitUtils
import ArtRuntime.Foundation.CellHeap

/-! # The value sets of global value numbering

`ValueSet` of `compiler/optimizing/gvn.cc`: a hash table whose buckets are
linked lists of `Node`s in an arena. Buckets are shared between a set and the
sets copied from it until one of them writes: a bucket a set does not own is
cloned before a change. Pure instructions hash to odd buckets, so that `Kill`
and `IntersectWith` walk only the even ones.

The sets are objects in memory, so a set is named by its address in a `World`,
with the arena of nodes they all allocate in; `this` is the set `target`, and a
set's fields are read when the code reads them, which matters when a set is
given as its own argument. `buckets_owned_` is modelled as the set of its bits. -/

namespace ArtRuntime.Compiler.Gvn

open Foundation

/-- What a `ValueSet` asks of an `HInstruction`: `ComputeHashCode`, `Equals`,
whether its side effects `HasDependencies`, `IsClinitCheck`, and `MayDependOn`
of its side effects; and whether the graph `HasIrreducibleLoops`. -/
structure InstructionInfo (I E : Type) where
  computeHashCode : I → Nat
  equals : I → I → Bool
  hasDependencies : I → Bool
  isClinitCheck : I → Bool
  mayDependOn : I → E → Bool
  hasIrreducibleLoops : Bool

/-- The payload of a `ValueSet::Node`: `instruction_` and `hash_code_`. -/
structure Entry (I : Type) where
  instruction : I
  hashCode : Nat
  deriving DecidableEq, Repr

/-- `ValueSet`: `num_buckets_`, `buckets_`, `buckets_owned_` and `num_entries_`. -/
structure ValueSet where
  numBuckets : Nat
  buckets : Nat → Option Nat
  bucketsOwned : Nat → Bool
  numEntries : Nat

/-- The arena of nodes and the sets, by address. -/
structure World (I : Type) where
  arena : CellHeap (Entry I)
  sets : Nat → ValueSet

namespace ValueSet

/-- `kMinimumNumberOfBuckets`. -/
def kMinimumNumberOfBuckets : Nat := 8

/-- `BitVector::SetInitialBits(num_bits)`: the bits below `num_bits`. -/
def initialBits (numBits : Nat) : Nat → Bool := fun index => decide (index < numBits)

/-- `ValueSet(allocator)`: empty buckets, all owned. -/
def create : ValueSet :=
  ⟨kMinimumNumberOfBuckets, fun _ => none, initialBits kMinimumNumberOfBuckets, 0⟩

/-- `RoundUpToPowerOfTwo` on `size_t`. -/
def roundUpToPowerOfTwo (x : Nat) : Nat :=
  if x < 2 then x else 1 <<< (64 - Base.clz 64 (x - 1))

/-- `IdealBucketCount`: `num_entries_ * 1.5`, rounded up to a power of two, and
at least `kMinimumNumberOfBuckets`. -/
def idealBucketCount (set : ValueSet) : Nat :=
  let bucketCount := roundUpToPowerOfTwo (set.numEntries + (set.numEntries >>> 1))
  if bucketCount > kMinimumNumberOfBuckets then bucketCount else kMinimumNumberOfBuckets

/-- `BucketIndex`. -/
def bucketIndex (set : ValueSet) (hashCode : Nat) : Nat := hashCode &&& (set.numBuckets - 1)

/-- `IsEmpty`. -/
def isEmpty (set : ValueSet) : Bool := set.numEntries == 0

/-- `Clear`. -/
def clear (set : ValueSet) : ValueSet :=
  { set with
    numEntries := 0
    buckets := fun index => if index < set.numBuckets then none else set.buckets index
    bucketsOwned := initialBits set.numBuckets }

end ValueSet

variable {I E : Type} (info : InstructionInfo I E)

/-- `ValueSet::HashCode`: pure instructions (and `ClinitCheck`) get an odd hash
code, unless the graph has irreducible loops. -/
def hashCode (instruction : I) : Nat :=
  let hashCode := info.computeHashCode instruction
  let pure := !info.hasDependencies instruction || info.isClinitCheck instruction
  if !pure || info.hasIrreducibleLoops then (hashCode <<< 1 ||| 0) % 2 ^ 64 else (hashCode <<< 1 ||| 1) % 2 ^ 64

namespace World

/-- Write the set at `target`. -/
def write (world : World I) (target : Nat) (set : ValueSet) : World I :=
  { world with sets := Function.update world.sets target set }

@[simp] theorem write_arena (world : World I) (target : Nat) (set : ValueSet) :
    (world.write target set).arena = world.arena := rfl

@[simp] theorem write_sets_self (world : World I) (target : Nat) (set : ValueSet) :
    (world.write target set).sets target = set := by
  simp [write]

theorem write_sets_of_ne (world : World I) {target other : Nat} (set : ValueSet) (apart : other ≠ target) :
    (world.write target set).sets other = world.sets other := by
  simp [write, Function.update_of_ne apart]

/-- `ValueSet(allocator)` at `target`. -/
def create (world : World I) (target : Nat) : World I := world.write target ValueSet.create

/-- `Lookup`: an instruction of the bucket with the same hash code that `Equals`
the given one. -/
def lookup (world : World I) (target : Nat) (instruction : I) : Option I :=
  let set := world.sets target
  let hashCode := hashCode info instruction
  let index := set.bucketIndex hashCode
  (world.arena.find (fun entry => entry.hashCode == hashCode && info.equals entry.instruction instruction)
    world.arena.top (set.buckets index)).map (·.instruction)

/-- `Contains`: whether the instruction itself is in its bucket. -/
def contains [DecidableEq I] (world : World I) (target : Nat) (instruction : I) : Bool :=
  let set := world.sets target
  let index := set.bucketIndex (hashCode info instruction)
  (world.arena.find (fun entry => entry.instruction == instruction) world.arena.top (set.buckets index)).isSome

/-- The loop of `CloneBucket` from `node`: each node's clone is linked after
`clonePrevious`, or is the bucket's head when there is none, and the clone of
`iterator` is kept. -/
def cloneLoop (target index : Nat) (iterator : Option Nat) :
    Nat → World I → Option Nat → Option Nat → Option Nat → World I × Option Nat
  | _, world, none, _, cloneIterator => (world, cloneIterator)
  | 0, world, some _, _, cloneIterator => (world, cloneIterator)
  | fuel + 1, world, some node, clonePrevious, cloneIterator =>
      match world.arena.cells node with
      | none => (world, cloneIterator)
      | some cell =>
          let cloneCurrent := world.arena.alloc ⟨cell.value, none⟩
          let cloneIterator := if some node = iterator then some cloneCurrent.1 else cloneIterator
          let set := world.sets target
          let linked : World I :=
            match clonePrevious with
            | none => ⟨cloneCurrent.2, Function.update world.sets target
                { set with buckets := Function.update set.buckets index (some cloneCurrent.1) }⟩
            | some previous => ⟨cloneCurrent.2.setNext previous (some cloneCurrent.1), world.sets⟩
          cloneLoop target index iterator fuel linked cell.next (some cloneCurrent.1) cloneIterator

/-- `CloneBucket(index, iterator)`: the set's own copy of a bucket, and the
clone of `iterator`. -/
def cloneBucket (world : World I) (target index : Nat) (iterator : Option Nat) : World I × Option Nat :=
  let cloned := cloneLoop target index iterator world.arena.top world ((world.sets target).buckets index) none none
  let set := cloned.1.sets target
  (cloned.1.write target { set with bucketsOwned := Function.update set.bucketsOwned index true }, cloned.2)

/-- `Add`: a bucket the set does not own is cloned, then a new node heads it. -/
def add (world : World I) (target : Nat) (instruction : I) : World I :=
  let hashCode := hashCode info instruction
  let index := (world.sets target).bucketIndex hashCode
  let owned := if !(world.sets target).bucketsOwned index then (cloneBucket world target index none).1 else world
  let set := owned.sets target
  let node := owned.arena.alloc ⟨⟨instruction, hashCode⟩, set.buckets index⟩
  ⟨node.2, Function.update owned.sets target
    { set with buckets := Function.update set.buckets index (some node.1), numEntries := set.numEntries + 1 }⟩

/-- The first loop of `DeleteAllImpureWhich` on a bucket the set does not own:
walk while no node satisfies `cond`; at the first that does, clone the bucket
and go on from the clone of that node, with `previous` the clone of the node
before it. -/
def scanShared (cond : World I → Entry I → Bool) (target index : Nat) :
    Nat → World I → Option Nat → Option Nat → World I × Option Nat × Option Nat
  | _, world, previous, none => (world, previous, none)
  | 0, world, previous, some node => (world, previous, some node)
  | fuel + 1, world, previous, some node =>
      match world.arena.cells node with
      | none => (world, previous, some node)
      | some cell =>
          if cond world cell.value then
            let cloned := cloneBucket world target index previous
            let node := match cloned.2 with
              | none => (cloned.1.sets target).buckets index
              | some previous => (cloned.1.arena.cells previous).bind (·.next)
            (cloned.1, cloned.2, node)
          else scanShared cond target index fuel world (some node) cell.next

/-- The second loop of `DeleteAllImpureWhich`: unlink every node that
satisfies `cond`. -/
def deleteLoop (cond : World I → Entry I → Bool) (target index : Nat) :
    Nat → World I → Option Nat → Option Nat → World I
  | _, world, _, none => world
  | 0, world, _, some _ => world
  | fuel + 1, world, previous, some node =>
      match world.arena.cells node with
      | none => world
      | some cell =>
          let next := cell.next
          if cond world cell.value then
            match previous with
            | none =>
                let set := world.sets target
                deleteLoop cond target index fuel
                  (world.write target { set with buckets := Function.update set.buckets index next }) previous next
            | some previous =>
                deleteLoop cond target index fuel { world with arena := world.arena.setNext previous next }
                  (some previous) next
          else deleteLoop cond target index fuel world (some node) next

/-- One bucket of `DeleteAllImpureWhich`. -/
def deleteInBucket (cond : World I → Entry I → Bool) (target : Nat) (world : World I) (index : Nat) : World I :=
  match (world.sets target).buckets index with
  | none => world
  | some head =>
      let scanned :=
        if !(world.sets target).bucketsOwned index then
          scanShared cond target index world.arena.top world none (some head)
        else (world, none, some head)
      deleteLoop cond target index scanned.1.arena.top scanned.1 scanned.2.1 scanned.2.2

/-- `DeleteAllImpureWhich(cond)`: the even buckets, `for (i = 0; i < num_buckets_; i += 2)`. -/
def deleteAllImpureWhich (cond : World I → Entry I → Bool) (world : World I) (target : Nat) : World I :=
  (List.range' 0 (((world.sets target).numBuckets + 1) / 2) 2).foldl (deleteInBucket cond target) world

/-- `Kill(side_effects)`. -/
def kill (world : World I) (target : Nat) (sideEffects : E) : World I :=
  deleteAllImpureWhich (fun _ entry => info.mayDependOn entry.instruction sideEffects) world target

/-- `Clear`. -/
def clear (world : World I) (target : Nat) : World I := world.write target (world.sets target).clear

/-- `IntersectWith(predecessor)`: `Contains` reads the predecessor as it is
when each node is tested. -/
def intersectWith [DecidableEq I] (world : World I) (target predecessor : Nat) : World I :=
  if (world.sets target).isEmpty then world
  else if (world.sets predecessor).isEmpty then world.clear target
  else deleteAllImpureWhich (fun world entry => !world.contains info predecessor entry.instruction) world target

/-- The inner loop of the rehashing copy: a duplicate of each node of a bucket
of the source heads the bucket of its hash code. -/
def rehashLoop (target : Nat) : Nat → World I → Option Nat → World I
  | _, world, none => world
  | 0, world, some _ => world
  | fuel + 1, world, some node =>
      match world.arena.cells node with
      | none => world
      | some cell =>
          let set := world.sets target
          let newIndex := set.bucketIndex cell.value.hashCode
          let duplicate := world.arena.alloc ⟨cell.value, set.buckets newIndex⟩
          rehashLoop target fuel
            ⟨duplicate.2, Function.update world.sets target
              { set with buckets := Function.update set.buckets newIndex (some duplicate.1) }⟩ cell.next

/-- `PopulateFromInternal(other)`: with as many buckets, share the source's
buckets, owning none; otherwise duplicate and rehash every node, owning every
bucket. -/
def populateFromInternal (world : World I) (target source : Nat) : World I :=
  let set := world.sets target
  let other := world.sets source
  let populated :=
    if set.numBuckets = other.numBuckets then
      world.write target
        { set with
          bucketsOwned := fun _ => false
          buckets := fun index => if index < set.numBuckets then other.buckets index else set.buckets index }
    else
      let cleared := world.write target
        { set with buckets := fun index => if index < set.numBuckets then none else set.buckets index }
      let rehashed := (List.range other.numBuckets).foldl
        (fun world index => rehashLoop target world.arena.top world ((world.sets source).buckets index)) cleared
      let set := rehashed.sets target
      rehashed.write target { set with bucketsOwned := ValueSet.initialBits set.numBuckets }
  let set := populated.sets target
  populated.write target { set with numEntries := other.numEntries }

/-- The copy constructor `ValueSet(allocator, other)` at `target`: the ideal
number of buckets for the source, then `PopulateFromInternal`. -/
def copy (world : World I) (target source : Nat) : World I :=
  let fresh : ValueSet := ⟨(world.sets source).idealBucketCount, fun _ => none, fun _ => false, 0⟩
  (world.write target fresh).populateFromInternal target source

/-- `PopulateFrom(other)`. -/
def populateFrom (world : World I) (target source : Nat) : World I :=
  if target = source then world else world.populateFromInternal target source

end World

end ArtRuntime.Compiler.Gvn
