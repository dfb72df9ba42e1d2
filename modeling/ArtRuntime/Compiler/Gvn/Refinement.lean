import ArtRuntime.Compiler.Gvn.ValueSet

/-! # What a value set holds

The contents of the set at `target`: the instructions of the nodes met by
walking each bucket below `num_buckets_`, as a multiset, since the same
instruction may be stored twice. -/

namespace ArtRuntime.Compiler.Gvn

open Foundation

variable {I : Type}

namespace World

/-- The entries of the set at `target`, bucket after bucket. -/
def entries (world : World I) (target : Nat) : List (Entry I) :=
  ((List.range (world.sets target).numBuckets).flatMap fun index =>
    world.arena.walk world.arena.top ((world.sets target).buckets index)).map Prod.snd

/-- The instructions the set at `target` holds. -/
def contents (world : World I) (target : Nat) : Multiset I :=
  ((world.entries target).map Entry.instruction : Multiset I)

end World

/-- `Kill` unlinks nodes without decrementing `num_entries_`, so a set it empties
is not `IsEmpty`; `IntersectWith` with that set as the predecessor then takes
the branch for a non-empty one and keeps the pure instructions, where an empty
predecessor should empty the set. Here instruction 0 is impure and depends on
every side effect, instruction 1 is pure. -/
theorem intersectWith_killed_set_keeps_pure :
    let info : InstructionInfo Nat Unit :=
      ⟨id, (· == ·), (· == 0), fun _ => false, fun instruction _ => instruction == 0, false⟩
    let start : World Nat := ⟨⟨fun _ => none, 0⟩, fun _ => ValueSet.create⟩
    let killed := ((start.create 0).add info 0 0).kill info 0 ()
    let holding := (killed.create 1).add info 1 1
    killed.contents 0 = 0 ∧ (killed.sets 0).isEmpty = false ∧ holding.contents 1 = {1} ∧
      (holding.intersectWith info 1 0).contents 1 = {1} := by
  decide

/-- `num_entries_` is not exact: `Kill` leaves the count of a set it empties
at one, though no instruction is reachable from its buckets. -/
theorem kill_leaves_entry_count_stale :
    let info : InstructionInfo Nat Unit :=
      ⟨id, (· == ·), (· == 0), fun _ => false, fun instruction _ => instruction == 0, false⟩
    let start : World Nat := ⟨⟨fun _ => none, 0⟩, fun _ => ValueSet.create⟩
    let added := (start.create 0).add info 0 0
    let killed := added.kill info 0 ()
    (added.entries 0).length = 1 ∧ (added.sets 0).numEntries = 1 ∧
      (killed.entries 0).length = 0 ∧ (killed.sets 0).numEntries = 1 := by
  decide

end ArtRuntime.Compiler.Gvn
