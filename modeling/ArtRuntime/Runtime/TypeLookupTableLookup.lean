import ArtRuntime.Runtime.TypeLookupTableCreate

/-! # What `Lookup` finds in the table the constructor builds

Each taken slot of a built table holds the entry of a stored class, so an entry
matches a string of the dex format only where the string is the descriptor of
that class. `Lookup` of a descriptor walks the path from the slot of its hash to
the slot of its class; `Lookup` of any other string walks a whole chain, which
meets each slot once, without a match. -/

namespace ArtRuntime.Runtime.TypeLookupTable

open ArtRuntime.Foundation ArtRuntime.Dex.Utf

variable {computeModifiedUtf8Hash : List UInt8 → UInt32} {dex : DexFile}
  {table : TypeLookupTable} {placed : List Nat}

/-- An entry of a built table matches a string of the dex format only as the
entry of the class whose descriptor the string is. -/
theorem Built.matched (built : Built computeModifiedUtf8Hash dex table placed)
    (fits : ∀ j ∈ placed, j < table.size)
    (descriptors : ∀ j ∈ placed, ∃ units, dex.descriptor j = modifiedUtf8Of units ++ [0])
    {pos : Nat} (inside : pos < table.size) (full : (table.entryAt pos).isEmpty = false)
    {units : List UInt16} {hash : UInt32}
    (matched : (table.cmpHashBits (table.entryAt pos).data hash &&
      table.isStringsEquals (modifiedUtf8Of units ++ [0]) (table.entryAt pos).strOffset) = true) :
    ∃ j ∈ placed, dex.descriptor j = modifiedUtf8Of units ++ [0] ∧
      table.getClassDefIdx (table.entryAt pos).data = j := by
  obtain ⟨j, member, offsetEq, dataEq⟩ := built.stored pos inside full
  obtain ⟨stored, storedEq⟩ := descriptors j member
  obtain ⟨r, compared, zero⟩ := compareModifiedUtf8ToModifiedUtf8_modifiedUtf8Of units stored
  have equals := ((Bool.and_eq_true _ _).mp matched).2
  rw [isStringsEquals, offsetEq, built.stringData, ← DexFile.descriptor, storedEq, compared,
    beq_iff_eq, Option.some.injEq] at equals
  refine ⟨j, member, by rw [storedEq, zero.mp equals], ?_⟩
  rw [dataEq]
  exact getClassDefIdx_makeData built.shaped _ (fits j member)

theorem Built.full_of_path (built : Built computeModifiedUtf8Hash dex table placed)
    {start finish : Nat} {cells : List (Nat × Entry)}
    (path : CellHeap.Path table.chainHeap (some start) cells (some finish)) :
    ∀ entry ∈ cells, (table.entryAt entry.1).isEmpty = false := by
  intro entry member
  obtain ⟨-, -, notLast⟩ := not_last_of_path path entry member
  cases empty : (table.entryAt entry.1).isEmpty
  · rfl
  · rw [built.emptyLast _ empty] at notLast
    cases notLast

section Found

variable (built : Built computeModifiedUtf8Hash dex table placed)
  (fits : ∀ j ∈ placed, j < table.size)
  (descriptors : ∀ j ∈ placed, ∃ units, dex.descriptor j = modifiedUtf8Of units ++ [0])

include built fits descriptors

/-- `Lookup` of the descriptor of a stored class, with the hash of that
descriptor, finds the class: every entry before its slot that matches is the
entry of a class with the same descriptor, so of the class itself. -/
theorem Built.lookup_descriptor
    (distinct : ∀ j ∈ placed, ∀ k ∈ placed, dex.descriptor j = dex.descriptor k → j = k)
    {i : Nat} (member : i ∈ placed) :
    table.lookup (dex.descriptor i) (computeModifiedUtf8Hash (dex.descriptor i)) = some i := by
  obtain ⟨units, descriptorEq⟩ := descriptors i member
  obtain ⟨pos, before, ⟨offsetEq, dataEq⟩, path⟩ := built.reach i member
  have full : (table.entryAt pos).isEmpty = false := by
    simpa [Entry.isEmpty, offsetEq] using built.offsets i member
  have inside : pos < table.size := built.shaped.lt_size_of_not_empty full
  obtain ⟨after, chain⟩ := built.chain inside
  -- the path and the chain from the slot of the class make one chain, at most the size long
  have long := CellHeap.Chain.length_le_top chainHeap_bounded (path.append chain)
  have started : after ≠ [] := by
    rintro rfl
    cases chain
  obtain ⟨fuel, fuelEq⟩ : ∃ fuel, table.size = before.length + (fuel + 1) := by
    have := List.length_pos_iff.mpr started
    simp only [List.length_append, show table.chainHeap.top = table.size from rfl] at long
    exact ⟨table.size - before.length - 1, by omega⟩
  rw [lookup, fuelEq]
  apply lookupFrom_of_path built.emptyLast path
  · intro entry onPath matched
    obtain ⟨entryInside, entryEq⟩ := entryAt_of_path path entry onPath
    rw [entryEq, descriptorEq] at matched
    obtain ⟨j, memberJ, sameDescriptor, classEq⟩ :=
      built.matched fits descriptors entryInside (built.full_of_path path entry onPath) matched
    rw [entryEq, classEq]
    exact distinct j memberJ i member (sameDescriptor.trans descriptorEq.symm)
  · -- the slot of the class matches the descriptor
    obtain ⟨r, compared, zero⟩ := compareModifiedUtf8ToModifiedUtf8_modifiedUtf8Of units units
    have equals : table.isStringsEquals (dex.descriptor i) (table.entryAt pos).strOffset = true := by
      rw [isStringsEquals, offsetEq, built.stringData, ← DexFile.descriptor, descriptorEq, compared,
        zero.mpr rfl]
      rfl
    rw [lookupFrom, if_neg (by rw [full]; decide), dataEq,
      cmpHashBits_makeData built.shaped _ (fits i member), Bool.true_and, ← dataEq, equals, if_pos rfl,
      dataEq, getClassDefIdx_makeData built.shaped _ (fits i member)]

/-- `Lookup` of a string of the dex format that is not the descriptor of a
stored class finds nothing, whatever the hash: the chain from the slot of the
hash meets each slot once and none of its entries matches. -/
theorem Built.lookup_of_not_descriptor {units : List UInt16}
    (absent : ∀ j ∈ placed, dex.descriptor j ≠ modifiedUtf8Of units ++ [0]) (hash : UInt32) :
    table.lookup (modifiedUtf8Of units ++ [0]) hash = some kDexNoIndex := by
  obtain ⟨cells, chain⟩ := built.chain (built.shaped.and_mask_lt hash.toNat)
  apply lookupFrom_of_chain chain _ (chain.length_le_top chainHeap_bounded)
  intro entry member entryFull
  obtain ⟨entryInside, entryEq⟩ := entryAt_of_path chain entry member
  rw [entryEq] at entryFull ⊢
  cases matched : (table.cmpHashBits (table.entryAt entry.1).data hash &&
      table.isStringsEquals (modifiedUtf8Of units ++ [0]) (table.entryAt entry.1).strOffset)
  · rfl
  · obtain ⟨j, memberJ, sameDescriptor, -⟩ :=
      built.matched fits descriptors entryInside entryFull matched
    exact absurd sameDescriptor (absent j memberJ)

end Found

/-- The constructor over a dex file of `1` to `65535` class definitions, with
distinct descriptors of the dex format at non-zero offsets, builds a table, the
one that `Open` gives back from its entries. Every chain of it is finite and
meets each slot once, and `Lookup` finds every class by its descriptor and
nothing for any other string. -/
theorem create_lookup_finds_exactly_classes
    (sized : 1 ≤ dex.numClassDefs ∧ dex.numClassDefs ≤ 65535)
    (offsets : ∀ i < dex.numClassDefs, dex.descriptorOffset i ≠ 0)
    (distinct : ∀ i < dex.numClassDefs, ∀ j < dex.numClassDefs,
      dex.descriptor i = dex.descriptor j → i = j)
    (descriptors : ∀ i < dex.numClassDefs, ∃ units, dex.descriptor i = modifiedUtf8Of units ++ [0]) :
    ∃ table, create computeModifiedUtf8Hash dex = some table ∧
      openTable dex.stringData table.entries dex.numClassDefs = table ∧
      (∀ pos < table.size, ∃ cells, CellHeap.Chain table.chainHeap (some pos) cells ∧
        (cells.map Prod.fst).Nodup) ∧
      (∀ i < dex.numClassDefs,
        table.lookup (dex.descriptor i) (computeModifiedUtf8Hash (dex.descriptor i)) = some i) ∧
      ∀ units : List UInt16, (∀ i < dex.numClassDefs, dex.descriptor i ≠ modifiedUtf8Of units ++ [0]) →
        ∀ hash : UInt32, table.lookup (modifiedUtf8Of units ++ [0]) hash = some kDexNoIndex := by
  obtain ⟨table, placed, created, built, classes, mask⟩ := create_spec sized offsets
  have fits : ∀ j ∈ placed, j < table.size := by
    intro j member
    have below := (classes j).mpr member
    have room := (shaped_of_calculateMask sized.1 sized.2 dex.stringData).2
    rw [size, mask]
    omega
  have stored : ∀ j ∈ placed, ∃ units, dex.descriptor j = modifiedUtf8Of units ++ [0] :=
    fun j member => descriptors j ((classes j).mpr member)
  refine ⟨table, created, ?_, ?_, ?_, ?_⟩
  · rw [openTable, ← built.stringData, ← mask]
  · intro pos inside
    obtain ⟨cells, chain⟩ := built.chain inside
    exact ⟨cells, chain, chain.nodup⟩
  · intro i below
    apply built.lookup_descriptor fits stored _ ((classes i).mp below)
    intro j memberJ k memberK same
    exact distinct j ((classes j).mpr memberJ) k ((classes k).mpr memberK) same
  · intro units absent hash
    exact built.lookup_of_not_descriptor fits stored
      (fun j member => absent j ((classes j).mpr member)) hash

/-- Three classes, "LA;", "LB;" and "LC;", whose hashes `0`, `4` and `8` all
fall in bucket `0` of the table of four slots and differ above the mask. The
second stage puts "LB;" in slot `1`, the home of bucket `1`, so the chain of
bucket `1` runs into the chain of bucket `0`. -/
theorem create_lookup_finds_exactly_classes_of_colliding_classes :
    let dex : DexFile := ⟨[1, 5, 9], fun offset =>
      if offset = 1 then [0x4c, 0x41, 0x3b, 0] else if offset = 5 then [0x4c, 0x42, 0x3b, 0]
      else if offset = 9 then [0x4c, 0x43, 0x3b, 0] else []⟩
    let computeModifiedUtf8Hash : List UInt8 → UInt32 := fun descriptor =>
      if descriptor = [0x4c, 0x41, 0x3b, 0] then 0 else if descriptor = [0x4c, 0x42, 0x3b, 0] then 4 else 8
    (1 ≤ dex.numClassDefs ∧ dex.numClassDefs ≤ 65535) ∧
      (∀ i < dex.numClassDefs, dex.descriptorOffset i ≠ 0) ∧
      (∀ i < dex.numClassDefs, ∀ j < dex.numClassDefs, dex.descriptor i = dex.descriptor j → i = j) ∧
      (∀ i < dex.numClassDefs, ∃ units, dex.descriptor i = modifiedUtf8Of units ++ [0]) ∧
      (create computeModifiedUtf8Hash dex).map (fun table => table.entries.map Entry.nextPosDelta) =
        some [1, 1, 0, 0] ∧
      ∃ table, create computeModifiedUtf8Hash dex = some table ∧
        openTable dex.stringData table.entries dex.numClassDefs = table ∧
        (∀ pos < table.size, ∃ cells, CellHeap.Chain table.chainHeap (some pos) cells ∧
          (cells.map Prod.fst).Nodup) ∧
        (∀ i < dex.numClassDefs,
          table.lookup (dex.descriptor i) (computeModifiedUtf8Hash (dex.descriptor i)) = some i) ∧
        ∀ units : List UInt16, (∀ i < dex.numClassDefs, dex.descriptor i ≠ modifiedUtf8Of units ++ [0]) →
          ∀ hash : UInt32, table.lookup (modifiedUtf8Of units ++ [0]) hash = some kDexNoIndex := by
  intro dex computeModifiedUtf8Hash
  have sized : 1 ≤ dex.numClassDefs ∧ dex.numClassDefs ≤ 65535 := by decide
  have offsets : ∀ i < dex.numClassDefs, dex.descriptorOffset i ≠ 0 := by decide
  have distinct : ∀ i < dex.numClassDefs, ∀ j < dex.numClassDefs,
      dex.descriptor i = dex.descriptor j → i = j := by decide
  have descriptors : ∀ i < dex.numClassDefs, ∃ units, dex.descriptor i = modifiedUtf8Of units ++ [0] := by
    intro i below
    match i, below with
    | 0, _ => exact ⟨[0x4c, 0x41, 0x3b], rfl⟩
    | 1, _ => exact ⟨[0x4c, 0x42, 0x3b], rfl⟩
    | 2, _ => exact ⟨[0x4c, 0x43, 0x3b], rfl⟩
  exact ⟨sized, offsets, distinct, descriptors, by decide,
    create_lookup_finds_exactly_classes sized offsets distinct descriptors⟩

end ArtRuntime.Runtime.TypeLookupTable
