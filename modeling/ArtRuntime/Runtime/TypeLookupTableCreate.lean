import ArtRuntime.Runtime.TypeLookupTable

/-! # What the constructor of the type lookup table builds

`Built table placed` is what holds after the classes `placed` are stored: each
taken slot holds the entry of one of them, every empty slot is a default entry,
the links go up a bounded rank to taken slots, and the slot of each placed class
is reached from the slot of its hash. Both stages keep it: the first stage
stores a class on its own slot, which begins an empty chain, and the second
appends a class after the end of the chain from the slot of its hash. Every
slot of the result then starts a finite chain, and `Lookup` of a descriptor
walks from the slot of its hash to the class. -/

namespace ArtRuntime.Runtime.TypeLookupTable

open ArtRuntime.Foundation ArtRuntime.Dex.Utf

/-! ## Tables that agree on slots -/

section Agree

variable {table other : TypeLookupTable}

theorem link_of_entryAt (mask : other.mask = table.mask) {pos : Nat}
    (same : other.entryAt pos = table.entryAt pos) : other.link pos = table.link pos := by
  simp only [link, nextPos, mask, same]

theorem cells_chainHeap_of_entryAt (mask : other.mask = table.mask) {pos : Nat}
    (same : other.entryAt pos = table.entryAt pos) :
    other.chainHeap.cells pos = table.chainHeap.cells pos := by
  have sizeEq : other.size = table.size := by rw [size, size, mask]
  simp only [chainHeap, sizeEq, same, link_of_entryAt mask same]

theorem path_of_entryAt (mask : other.mask = table.mask) {start finish : Option Nat}
    {cells : List (Nat × Entry)} (path : CellHeap.Path table.chainHeap start cells finish)
    (same : ∀ entry ∈ cells, other.entryAt entry.1 = table.entryAt entry.1) :
    CellHeap.Path other.chainHeap start cells finish :=
  path.frame fun entry member => cells_chainHeap_of_entryAt mask (same entry member)

end Agree

variable (computeModifiedUtf8Hash : List UInt8 → UInt32) (dex : DexFile)

/-- The slot of the hash of the descriptor of class definition `i`. -/
def home (table : TypeLookupTable) (i : Nat) : Nat :=
  (computeModifiedUtf8Hash (dex.descriptor i)).toNat &&& table.mask

@[simp] theorem home_setEntry (table : TypeLookupTable) (pos : Nat) (entry : Entry) (i : Nat) :
    home computeModifiedUtf8Hash dex (table.setEntry pos entry) i = home computeModifiedUtf8Hash dex table i := by
  simp only [home, mask_setEntry]

/-- Slot `pos` holds the entry of class definition `i`, whatever its link. -/
def Stores (table : TypeLookupTable) (pos i : Nat) : Prop :=
  (table.entryAt pos).strOffset = dex.descriptorOffset i ∧
    (table.entryAt pos).data =
      makeData (UInt16.ofNat i) (computeModifiedUtf8Hash (dex.descriptor i)) table.mask

/-- The slots that hold an entry. -/
def taken (table : TypeLookupTable) : Finset Nat :=
  (Finset.range table.size).filter fun pos => (table.entryAt pos).isEmpty = false

/-- What the constructor keeps once the classes `placed` are stored. -/
structure Built (table : TypeLookupTable) (placed : List Nat) : Prop where
  shaped : table.Shaped
  stringData : table.stringData = dex.stringData
  offsets : ∀ i ∈ placed, dex.descriptorOffset i ≠ 0
  emptyDefault : ∀ pos, (table.entryAt pos).isEmpty = true → table.entryAt pos = {}
  stored : ∀ pos < table.size, (table.entryAt pos).isEmpty = false →
    ∃ i ∈ placed, Stores computeModifiedUtf8Hash dex table pos i
  count : (taken table).card = placed.length
  reach : ∀ i ∈ placed, ∃ pos cells, Stores computeModifiedUtf8Hash dex table pos i ∧
    CellHeap.Path table.chainHeap (some (home computeModifiedUtf8Hash dex table i)) cells (some pos)
  targets : ∀ pos next, table.link pos = some next → (table.entryAt next).isEmpty = false
  ranked : ∃ rank : Nat → Nat, ∃ bound, (∀ pos, rank pos ≤ bound) ∧
    ∀ pos next, table.link pos = some next → rank pos < rank next

variable {computeModifiedUtf8Hash dex}

theorem Built.emptyLast {table : TypeLookupTable} {placed : List Nat}
    (built : Built computeModifiedUtf8Hash dex table placed) :
    ∀ pos, (table.entryAt pos).isEmpty = true → (table.entryAt pos).isLast = true := by
  intro pos empty
  rw [built.emptyDefault pos empty]
  rfl

theorem Built.chain {table : TypeLookupTable} {placed : List Nat}
    (built : Built computeModifiedUtf8Hash dex table placed) {pos : Nat} (inside : pos < table.size) :
    ∃ cells, CellHeap.Chain table.chainHeap (some pos) cells := by
  obtain ⟨rank, bound, bounded, up⟩ := built.ranked
  apply CellHeap.chain_of_rank rank bound bounded _ pos _ (cells_chainHeap inside)
  intro address cell next read linked
  obtain ⟨-, rfl⟩ := cells_chainHeap_eq_some read
  refine ⟨up address next linked, _, cells_chainHeap ?_⟩
  simp only [link] at linked
  split at linked
  · cases linked
  · cases linked
    exact built.shaped.and_mask_lt _

theorem Built.taken_of_path {table : TypeLookupTable} {placed : List Nat}
    (built : Built computeModifiedUtf8Hash dex table placed) {start finish : Nat}
    {cells : List (Nat × Entry)} (path : CellHeap.Path table.chainHeap (some start) cells (some finish))
    (full : (table.entryAt start).isEmpty = false) : (table.entryAt finish).isEmpty = false := by
  cases cells using List.reverseRecOn with
  | nil => rw [← Option.some.inj path.nil_inv]; exact full
  | append_singleton before last =>
    have linked := path.next_of_last
    obtain ⟨inside, -, -⟩ := not_last_of_path path last (by simp)
    rw [cells_chainHeap inside, Option.bind_some] at linked
    exact built.targets last.1 finish linked

/-! ## Storing a class -/

theorem entryAt_replicate (stringData : UInt32 → List UInt8) (mask size pos : Nat) :
    (⟨stringData, mask, List.replicate size {}⟩ : TypeLookupTable).entryAt pos = {} := by
  simp only [entryAt, List.getD_eq_getElem?_getD, List.getElem?_replicate]
  split <;> rfl

theorem built_initial {n : Nat} (pos : 1 ≤ n) (small : n ≤ 65535) :
    Built computeModifiedUtf8Hash dex
      ⟨dex.stringData, calculateMask n, List.replicate (calculateMask n + 1) {}⟩ [] := by
  have blank := entryAt_replicate dex.stringData (calculateMask n) (calculateMask n + 1)
  have unlinked : ∀ pos, (⟨dex.stringData, calculateMask n, List.replicate (calculateMask n + 1) {}⟩ :
      TypeLookupTable).link pos = none := by
    intro pos
    rw [link, blank]
    rfl
  refine ⟨(shaped_of_calculateMask pos small dex.stringData).1, rfl, by simp,
    fun pos _ => blank pos, ?_, ?_, by simp, ?_, ⟨fun _ => 0, 0, fun _ => le_refl 0, ?_⟩⟩
  · intro pos _ full
    rw [blank] at full
    cases full
  · rw [List.length_nil, Finset.card_eq_zero, taken, Finset.filter_eq_empty_iff]
    intro pos _
    rw [blank]
    decide
  · intro pos next linked
    rw [unlinked] at linked
    cases linked
  · intro pos next linked
    rw [unlinked] at linked
    cases linked

/-- Slot `pos`, the last of its chain in `table`, links to `free` in `other`,
its entry otherwise the same. -/
def Relinked (table other : TypeLookupTable) (free pos : Nat) : Prop :=
  (table.entryAt pos).isEmpty = false ∧ (table.entryAt pos).isLast = true ∧
    (other.entryAt pos).strOffset = (table.entryAt pos).strOffset ∧
    (other.entryAt pos).data = (table.entryAt pos).data ∧ other.link pos = some free

theorem taken_of_fill {table other : TypeLookupTable} {free : Nat} (sizeEq : other.size = table.size)
    (inside : free < table.size) (freeFull : (other.entryAt free).isEmpty = false)
    (keepsEmpty : ∀ pos ≠ free, (other.entryAt pos).isEmpty = (table.entryAt pos).isEmpty) :
    taken other = Insert.insert free (taken table) := by
  ext pos
  simp only [taken, Finset.mem_filter, Finset.mem_range, Finset.mem_insert, sizeEq]
  by_cases atFree : pos = free
  · rw [atFree]
    simp [inside, freeFull]
  · simp [atFree, keepsEmpty pos atFree]

/-- New links only into a slot that had no link in and has none out keep the
links ranked: that slot takes a rank above all others. -/
theorem ranked_of_links {table other : TypeLookupTable} {free : Nat}
    (ranked : ∃ rank : Nat → Nat, ∃ bound, (∀ pos, rank pos ≤ bound) ∧
      ∀ pos next, table.link pos = some next → rank pos < rank next)
    (freeLast : other.link free = none)
    (links : ∀ pos next, other.link pos = some next → next = free ∨ table.link pos = some next)
    (notInto : ∀ pos, table.link pos ≠ some free) :
    ∃ rank : Nat → Nat, ∃ bound, (∀ pos, rank pos ≤ bound) ∧
      ∀ pos next, other.link pos = some next → rank pos < rank next := by
  obtain ⟨rank, bound, bounded, up⟩ := ranked
  refine ⟨fun pos => if pos = free then bound + 1 else rank pos, bound + 1, ?_, ?_⟩
  · intro pos
    dsimp only
    split
    · exact le_refl _
    · exact Nat.le_succ_of_le (bounded pos)
  · intro pos next linked
    have apart : pos ≠ free := by
      rintro rfl
      rw [freeLast] at linked
      cases linked
    simp only [if_neg apart]
    rcases links pos next linked with rfl | old
    · simp only [if_true]
      exact Nat.lt_succ_of_le (bounded pos)
    · have nextApart : next ≠ free := by
        rintro rfl
        exact notInto pos old
      simp only [if_neg nextApart]
      exact up pos next old

/-- Storing class `i` in a free slot that is the slot of its hash, or that the
end of the chain from there is relinked to, keeps `Built`. The first stage
stores the first way, the second the other. -/
theorem Built.fill {table other : TypeLookupTable} {placed : List Nat}
    (built : Built computeModifiedUtf8Hash dex table placed) {i free : Nat}
    (offset : dex.descriptorOffset i ≠ 0) (inside : free < table.size)
    (empty : (table.entryAt free).isEmpty = true) (shaped : other.Shaped)
    (mask : other.mask = table.mask) (stringData : other.stringData = table.stringData)
    (filled : other.entryAt free =
      { (classEntry computeModifiedUtf8Hash dex table.mask i).1 with nextPosDelta := 0 })
    (others : ∀ pos ≠ free, other.entryAt pos = table.entryAt pos ∨ Relinked table other free pos)
    (reached : home computeModifiedUtf8Hash dex table i = free ∨ ∃ last cells,
      CellHeap.Path table.chainHeap (some (home computeModifiedUtf8Hash dex table i)) cells (some last) ∧
        Relinked table other free last) :
    Built computeModifiedUtf8Hash dex other (placed ++ [i]) := by
  have sizeEq : other.size = table.size := by rw [size, size, mask]
  have keepsFields : ∀ pos ≠ free, (other.entryAt pos).strOffset = (table.entryAt pos).strOffset ∧
      (other.entryAt pos).data = (table.entryAt pos).data := by
    intro pos apart
    rcases others pos apart with same | ⟨-, -, offsetSame, dataSame, -⟩
    · rw [same]; exact ⟨rfl, rfl⟩
    · exact ⟨offsetSame, dataSame⟩
  have keepsEmpty : ∀ pos ≠ free, (other.entryAt pos).isEmpty = (table.entryAt pos).isEmpty := by
    intro pos apart
    simp only [Entry.isEmpty, (keepsFields pos apart).1]
  have keepsStores : ∀ pos ≠ free, ∀ j, Stores computeModifiedUtf8Hash dex table pos j →
      Stores computeModifiedUtf8Hash dex other pos j := by
    intro pos apart j stored
    obtain ⟨offsetEq, dataEq⟩ := stored
    rw [Stores, (keepsFields pos apart).1, (keepsFields pos apart).2, mask]
    exact ⟨offsetEq, dataEq⟩
  have freeFull : (other.entryAt free).isEmpty = false := by
    rw [filled]
    simpa [Entry.isEmpty, classEntry] using offset
  have freeLast : other.link free = none := by
    rw [link, filled]
    rfl
  have freeStores : Stores computeModifiedUtf8Hash dex other free i := by
    rw [Stores, filled, mask]
    exact ⟨rfl, rfl⟩
  have links : ∀ pos next, other.link pos = some next → next = free ∨ table.link pos = some next := by
    intro pos next linked
    have apart : pos ≠ free := by
      rintro rfl
      rw [freeLast] at linked
      cases linked
    rcases others pos apart with same | ⟨-, -, -, -, relinked⟩
    · exact .inr (by rw [← link_of_entryAt mask same, linked])
    · rw [relinked] at linked
      exact .inl (Option.some.inj linked).symm
  -- an old path never passes the free slot or a relinked end, both last in `table`
  have keepsPath : ∀ {start finish : Nat} {cells : List (Nat × Entry)},
      CellHeap.Path table.chainHeap (some start) cells (some finish) →
        CellHeap.Path other.chainHeap (some start) cells (some finish) := by
    intro start finish cells path
    apply path_of_entryAt mask path
    intro entry member
    obtain ⟨-, -, notLast⟩ := not_last_of_path path entry member
    have apart : entry.1 ≠ free := by
      intro same
      rw [same, built.emptyLast free empty] at notLast
      cases notLast
    rcases others entry.1 apart with same | ⟨-, last, -⟩
    · exact same
    · rw [last] at notLast
      cases notLast
  have fullOfStores : ∀ pos, ∀ j ∈ placed, Stores computeModifiedUtf8Hash dex table pos j →
      pos ≠ free := by
    rintro pos j member ⟨offsetEq, -⟩ rfl
    have : (table.entryAt pos).isEmpty = false := by
      simpa [Entry.isEmpty, offsetEq] using built.offsets j member
    rw [empty] at this
    cases this
  refine ⟨shaped, stringData.trans built.stringData, ?_, ?_, ?_, ?_, ?_, ?_, ?_⟩
  · intro j member
    rcases List.mem_append.mp member with old | new
    · exact built.offsets j old
    · rw [List.mem_singleton.mp new]
      exact offset
  · intro pos isEmpty
    have apart : pos ≠ free := by
      rintro rfl
      rw [freeFull] at isEmpty
      cases isEmpty
    rw [keepsEmpty pos apart] at isEmpty
    rcases others pos apart with same | ⟨full, -⟩
    · rw [same]
      exact built.emptyDefault pos isEmpty
    · rw [full] at isEmpty
      cases isEmpty
  · intro pos below full
    by_cases atFree : pos = free
    · rw [atFree]
      exact ⟨i, by simp, freeStores⟩
    · rw [keepsEmpty pos atFree] at full
      obtain ⟨j, member, stores⟩ := built.stored pos (sizeEq ▸ below) full
      exact ⟨j, List.mem_append_left _ member, keepsStores pos atFree j stores⟩
  · have absent : free ∉ taken table := by
      simp [taken, empty]
    rw [taken_of_fill sizeEq inside freeFull keepsEmpty, Finset.card_insert_of_notMem absent, built.count,
      List.length_append, List.length_singleton]
  · intro j member
    rcases List.mem_append.mp member with old | new
    · obtain ⟨pos, cells, stores, path⟩ := built.reach j old
      have homeEq : home computeModifiedUtf8Hash dex other j = home computeModifiedUtf8Hash dex table j := by
        rw [home, home, mask]
      refine ⟨pos, cells, keepsStores pos (fullOfStores pos j old stores) j stores, ?_⟩
      rw [homeEq]
      exact keepsPath path
    · rw [List.mem_singleton.mp new]
      have homeEq : home computeModifiedUtf8Hash dex other i = home computeModifiedUtf8Hash dex table i := by
        rw [home, home, mask]
      rw [homeEq]
      rcases reached with atHome | ⟨last, cells, path, full, -, -, -, relinked⟩
      · exact ⟨free, [], freeStores, by rw [atHome]; exact .nil _⟩
      · -- the old path to the end of the chain, and the new link from there
        have lastInside : last < other.size := by
          rw [sizeEq]
          exact built.shaped.lt_size_of_not_empty full
        refine ⟨free, cells ++ [(last, other.entryAt last)], freeStores, ?_⟩
        have extended := (keepsPath path).snoc (cells_chainHeap lastInside)
        rw [relinked] at extended
        exact extended
  · intro pos next linked
    rcases links pos next linked with rfl | old
    · exact freeFull
    · have full := built.targets pos next old
      have apart : next ≠ free := by
        rintro rfl
        rw [empty] at full
        cases full
      rw [keepsEmpty next apart]
      exact full
  · -- no old link goes into the free slot, which was empty
    refine ranked_of_links built.ranked freeLast links fun pos into => ?_
    have full := built.targets pos free into
    rw [empty] at full
    cases full

/-! ## The two stages -/

theorem firstStageStep_of_free {table : TypeLookupTable} {conflicts : List Nat} {i : Nat}
    (free : (table.entryAt (home computeModifiedUtf8Hash dex table i)).isEmpty = true) :
    firstStageStep computeModifiedUtf8Hash dex (table, conflicts) i =
      (table.setEntry (home computeModifiedUtf8Hash dex table i)
        { (classEntry computeModifiedUtf8Hash dex table.mask i).1 with nextPosDelta := 0 }, conflicts) := by
  simp only [home, DexFile.descriptor] at free
  simp only [firstStageStep, setOnInitialPos, classEntry, free, Bool.not_true, Bool.false_eq_true,
    if_false, if_true, home, DexFile.descriptor]

theorem firstStageStep_of_taken {table : TypeLookupTable} {conflicts : List Nat} {i : Nat}
    (taken : (table.entryAt (home computeModifiedUtf8Hash dex table i)).isEmpty = false) :
    firstStageStep computeModifiedUtf8Hash dex (table, conflicts) i = (table, conflicts ++ [i]) := by
  simp only [home, DexFile.descriptor] at taken
  simp only [firstStageStep, setOnInitialPos, classEntry, taken, Bool.not_false, if_true,
    Bool.false_eq_true, if_false]

theorem Built.place {table : TypeLookupTable} {placed : List Nat}
    (built : Built computeModifiedUtf8Hash dex table placed) {i : Nat}
    (offset : dex.descriptorOffset i ≠ 0)
    (free : (table.entryAt (home computeModifiedUtf8Hash dex table i)).isEmpty = true) :
    Built computeModifiedUtf8Hash dex (table.setEntry (home computeModifiedUtf8Hash dex table i)
      { (classEntry computeModifiedUtf8Hash dex table.mask i).1 with nextPosDelta := 0 })
      (placed ++ [i]) := by
  have inside : home computeModifiedUtf8Hash dex table i < table.size := built.shaped.and_mask_lt _
  apply built.fill offset inside free (built.shaped.setEntry _ _) rfl rfl
  · rw [entryAt_setEntry built.shaped inside, if_pos rfl]
  · intro pos apart
    left
    rw [entryAt_setEntry built.shaped inside, if_neg (Ne.symm apart)]
  · exact .inl rfl

theorem insert_eq {table : TypeLookupTable} {entry : Entry} {hash : UInt32} {last free : Nat}
    (found : table.findLastEntryInBucket table.size (hash.toNat &&& table.mask) = some last)
    (foundFree : table.nextEmptyFrom table.size ((last + 1) &&& table.mask) = some free) :
    table.insert entry hash = some ((table.setEntry last { table.entryAt last with
      nextPosDelta := UInt16.ofNat (if free ≥ last then free - last else free + table.size - last) }).setEntry
        free { entry with nextPosDelta := 0 }) := by
  simp only [TypeLookupTable.insert, found, foundFree, Option.bind_eq_bind, Option.bind_some]
  rfl

theorem delta_spec {table : TypeLookupTable} (shaped : table.Shaped) {last free : Nat}
    (lastInside : last < table.size) (freeInside : free < table.size) (apart : free ≠ last) :
    let delta := if free ≥ last then free - last else free + table.size - last
    0 < delta ∧ delta < 2 ^ 16 ∧ (last + delta) &&& table.mask = free := by
  intro delta
  have bound := shaped.size_le
  rw [shaped.and_mask_eq_mod]
  by_cases ahead : free ≥ last
  · have deltaEq : delta = free - last := if_pos ahead
    rw [deltaEq, show last + (free - last) = free by omega, Nat.mod_eq_of_lt freeInside]
    omega
  · have deltaEq : delta = free + table.size - last := if_neg ahead
    rw [deltaEq, show last + (free + table.size - last) = free + table.size by omega,
      Nat.add_mod_right, Nat.mod_eq_of_lt freeInside]
    omega

/-- The second stage appends a class whose slot is taken after the end of the
chain from there, when a slot is still free. -/
theorem Built.insertClass {table : TypeLookupTable} {placed : List Nat}
    (built : Built computeModifiedUtf8Hash dex table placed) {i : Nat}
    (offset : dex.descriptorOffset i ≠ 0)
    (homeTaken : (table.entryAt (home computeModifiedUtf8Hash dex table i)).isEmpty = false)
    (room : placed.length < table.size) :
    ∃ other, table.insertClass computeModifiedUtf8Hash dex i = some other ∧
      Built computeModifiedUtf8Hash dex other (placed ++ [i]) ∧ other.mask = table.mask ∧
      ∀ pos, (table.entryAt pos).isEmpty = false → (other.entryAt pos).isEmpty = false := by
  have homeInside := built.shaped.and_mask_lt (computeModifiedUtf8Hash (dex.descriptor i)).toNat
  obtain ⟨cells, chain⟩ := built.chain homeInside
  obtain ⟨last, before, found, path, isLast, lastInside⟩ :=
    findLastEntryInBucket_of_chain chain (chain.length_le_top chainHeap_bounded)
  have lastTaken := built.taken_of_path path homeTaken
  obtain ⟨free, foundFree, freeEmpty, freeInside⟩ :=
    nextEmptyFrom_of_card built.shaped (by rw [← taken, built.count]; exact room)
      (built.shaped.and_mask_lt (last + 1))
  have apart : free ≠ last := by
    rintro rfl
    rw [freeEmpty] at lastTaken
    cases lastTaken
  obtain ⟨positive, small, lands⟩ := delta_spec built.shaped lastInside freeInside apart
  -- the relinked end and the filled slot
  let delta := if free ≥ last then free - last else free + table.size - last
  let linked := table.setEntry last { table.entryAt last with nextPosDelta := UInt16.ofNat delta }
  let other := linked.setEntry free
    { (classEntry computeModifiedUtf8Hash dex table.mask i).1 with nextPosDelta := 0 }
  have inserted : table.insertClass computeModifiedUtf8Hash dex i = some other :=
    insert_eq found foundFree
  have linkedShaped : linked.Shaped := built.shaped.setEntry _ _
  have linkedEntry : ∀ pos, linked.entryAt pos =
      if last = pos then { table.entryAt last with nextPosDelta := UInt16.ofNat delta }
      else table.entryAt pos :=
    entryAt_setEntry built.shaped lastInside _
  have otherEntry : ∀ pos, other.entryAt pos =
      if free = pos then { (classEntry computeModifiedUtf8Hash dex table.mask i).1 with nextPosDelta := 0 }
      else linked.entryAt pos :=
    entryAt_setEntry linkedShaped freeInside _
  have relinked : Relinked table other free last := by
    have atLast : other.entryAt last = { table.entryAt last with nextPosDelta := UInt16.ofNat delta } := by
      rw [otherEntry, if_neg apart, linkedEntry, if_pos rfl]
    have deltaValue : (UInt16.ofNat delta).toNat = delta := UInt16.toNat_ofNat_of_lt' small
    refine ⟨lastTaken, isLast, by rw [atLast], by rw [atLast], ?_⟩
    have notLast : (other.entryAt last).isLast = false := by
      rw [atLast, Entry.isLast, beq_eq_false_iff_ne]
      intro zero
      have := congrArg UInt16.toNat zero
      rw [deltaValue] at this
      simp at this
      omega
    rw [link, if_neg (by rw [notLast]; decide), nextPos, atLast]
    simp only [deltaValue]
    exact congrArg some lands
  refine ⟨other, inserted, ?_, rfl, ?_⟩
  · apply built.fill offset freeInside freeEmpty (linkedShaped.setEntry _ _) rfl rfl
    · rw [otherEntry, if_pos rfl]
    · intro pos apartFree
      by_cases atLast : pos = last
      · rw [atLast]
        exact .inr relinked
      · left
        rw [otherEntry, if_neg (Ne.symm apartFree), linkedEntry, if_neg (Ne.symm atLast)]
    · exact .inr ⟨last, before, path, relinked⟩
  · intro pos full
    by_cases atFree : pos = free
    · rw [atFree, otherEntry, if_pos rfl]
      simpa [Entry.isEmpty, classEntry] using offset
    · rw [otherEntry, if_neg (Ne.symm atFree), linkedEntry]
      split
      · next same => rw [← same] at full; simpa [Entry.isEmpty] using full
      · exact full

/-- The storage before the first stage. -/
def initial (dex : DexFile) : TypeLookupTable :=
  ⟨dex.stringData, calculateMask dex.numClassDefs, List.replicate (calculateMask dex.numClassDefs + 1) {}⟩

section Stages

variable (computeModifiedUtf8Hash dex) in
/-- What the first stage keeps after the classes below `count`: each of them is
stored or a conflict whose slot is taken. -/
def Staged (count : Nat) (state : TypeLookupTable × List Nat) : Prop :=
  ∃ placed, Built computeModifiedUtf8Hash dex state.1 placed ∧
    (∀ i, i < count ↔ i ∈ placed ∨ i ∈ state.2) ∧ placed.length + state.2.length = count ∧
    (∀ c ∈ state.2, (state.1.entryAt (home computeModifiedUtf8Hash dex state.1 c)).isEmpty = false) ∧
    state.1.mask = (initial dex).mask

theorem staged_initial (sized : 1 ≤ dex.numClassDefs ∧ dex.numClassDefs ≤ 65535) :
    Staged computeModifiedUtf8Hash dex 0 (initial dex, []) :=
  ⟨[], built_initial sized.1 sized.2, by simp, rfl, by simp, rfl⟩

theorem Staged.step {count : Nat} {state : TypeLookupTable × List Nat}
    (staged : Staged computeModifiedUtf8Hash dex count state) (offset : dex.descriptorOffset count ≠ 0) :
    Staged computeModifiedUtf8Hash dex (count + 1) (firstStageStep computeModifiedUtf8Hash dex state count) := by
  obtain ⟨table, conflicts⟩ := state
  obtain ⟨placed, built, classes, counted, homes, mask⟩ := staged
  dsimp only at built classes counted homes mask
  by_cases free : (table.entryAt (home computeModifiedUtf8Hash dex table count)).isEmpty = true
  · rw [firstStageStep_of_free free]
    have inside : home computeModifiedUtf8Hash dex table count < table.size :=
      built.shaped.and_mask_lt _
    refine ⟨placed ++ [count], built.place offset free, ?_, ?_, ?_, ?_⟩
    · intro i
      rw [Nat.lt_succ_iff_lt_or_eq, classes i, List.mem_append, List.mem_singleton, or_right_comm]
    · simp only [List.length_append, List.length_singleton]
      omega
    · -- a conflict's slot was taken, so it is not the one just filled
      intro c member
      have taken := homes c member
      have apart : home computeModifiedUtf8Hash dex table count ≠ home computeModifiedUtf8Hash dex table c := by
        intro same
        rw [same, taken] at free
        cases free
      rw [home_setEntry, entryAt_setEntry built.shaped inside, if_neg apart]
      exact taken
    · rw [mask_setEntry, mask]
  · have taken : (table.entryAt (home computeModifiedUtf8Hash dex table count)).isEmpty = false := by
      simpa using free
    rw [firstStageStep_of_taken taken]
    refine ⟨placed, built, ?_, ?_, ?_, mask⟩
    · intro i
      rw [Nat.lt_succ_iff_lt_or_eq, classes i, List.mem_append, List.mem_singleton, or_assoc]
    · simp only [List.length_append, List.length_singleton]
      omega
    · intro c member
      rcases List.mem_append.mp member with old | new
      · exact homes c old
      · rw [List.mem_singleton.mp new]
        exact taken

theorem staged_firstStage (sized : 1 ≤ dex.numClassDefs ∧ dex.numClassDefs ≤ 65535)
    (offsets : ∀ i < dex.numClassDefs, dex.descriptorOffset i ≠ 0) :
    ∀ count ≤ dex.numClassDefs, Staged computeModifiedUtf8Hash dex count
      ((List.range count).foldl (firstStageStep computeModifiedUtf8Hash dex) (initial dex, [])) := by
  intro count
  induction count with
  | zero => exact fun _ => staged_initial sized
  | succ count ih =>
    intro within
    rw [List.range_succ, List.foldl_append, List.foldl_cons, List.foldl_nil]
    exact (ih (by omega)).step (offsets count (by omega))

theorem secondStage_spec : ∀ (conflicts : List Nat) (table : TypeLookupTable) (placed : List Nat),
    Built computeModifiedUtf8Hash dex table placed →
    (∀ c ∈ conflicts, dex.descriptorOffset c ≠ 0 ∧
      (table.entryAt (home computeModifiedUtf8Hash dex table c)).isEmpty = false) →
    placed.length + conflicts.length ≤ table.size →
    ∃ final, table.secondStage computeModifiedUtf8Hash dex conflicts = some final ∧
      Built computeModifiedUtf8Hash dex final (placed ++ conflicts) ∧ final.mask = table.mask := by
  intro conflicts
  induction conflicts with
  | nil => exact fun table placed built _ _ => ⟨table, rfl, by simpa using built, rfl⟩
  | cons c rest ih =>
    intro table placed built homes room
    obtain ⟨offset, taken⟩ := homes c List.mem_cons_self
    obtain ⟨other, inserted, builtOther, mask, keeps⟩ :=
      built.insertClass offset taken (by simp only [List.length_cons] at room; omega)
    have homeEq : ∀ j, home computeModifiedUtf8Hash dex other j = home computeModifiedUtf8Hash dex table j := by
      intro j
      rw [home, home, mask]
    have homesOther : ∀ j ∈ rest, dex.descriptorOffset j ≠ 0 ∧
        (other.entryAt (home computeModifiedUtf8Hash dex other j)).isEmpty = false := by
      intro j member
      obtain ⟨offsetJ, takenJ⟩ := homes j (List.mem_cons_of_mem _ member)
      exact ⟨offsetJ, by rw [homeEq]; exact keeps _ takenJ⟩
    have roomOther : (placed ++ [c]).length + rest.length ≤ other.size := by
      have sizeEq : other.size = table.size := by rw [size, size, mask]
      rw [sizeEq]
      simp only [List.length_append, List.length_cons, List.length_nil] at room ⊢
      omega
    obtain ⟨final, stored, builtFinal, maskFinal⟩ := ih other (placed ++ [c]) builtOther homesOther roomOther
    refine ⟨final, ?_, by simpa using builtFinal, maskFinal.trans mask⟩
    rw [secondStage, List.foldlM_cons, inserted]
    exact stored

theorem create_spec (sized : 1 ≤ dex.numClassDefs ∧ dex.numClassDefs ≤ 65535)
    (offsets : ∀ i < dex.numClassDefs, dex.descriptorOffset i ≠ 0) :
    ∃ table placed, create computeModifiedUtf8Hash dex = some table ∧
      Built computeModifiedUtf8Hash dex table placed ∧ (∀ i, i < dex.numClassDefs ↔ i ∈ placed) ∧
      table.mask = calculateMask dex.numClassDefs := by
  obtain ⟨placed, built, classes, counted, homes, mask⟩ :=
    staged_firstStage sized offsets dex.numClassDefs (le_refl _)
  have createEq : create computeModifiedUtf8Hash dex =
      ((List.range dex.numClassDefs).foldl (firstStageStep computeModifiedUtf8Hash dex) (initial dex, [])).1.secondStage
        computeModifiedUtf8Hash dex
        ((List.range dex.numClassDefs).foldl (firstStageStep computeModifiedUtf8Hash dex) (initial dex, [])).2 := rfl
  generalize (List.range dex.numClassDefs).foldl (firstStageStep computeModifiedUtf8Hash dex)
    (initial dex, []) = state at built classes counted homes mask createEq
  obtain ⟨table, conflicts⟩ := state
  dsimp only at built classes counted homes mask createEq
  have room : placed.length + conflicts.length ≤ table.size := by
    rw [counted, size, mask]
    exact (shaped_of_calculateMask sized.1 sized.2 dex.stringData).2
  have homesOffsets : ∀ c ∈ conflicts, dex.descriptorOffset c ≠ 0 ∧
      (table.entryAt (home computeModifiedUtf8Hash dex table c)).isEmpty = false :=
    fun c member => ⟨offsets c ((classes c).mpr (Or.inr member)), homes c member⟩
  obtain ⟨final, stored, builtFinal, maskFinal⟩ :=
    secondStage_spec conflicts table placed built homesOffsets room
  refine ⟨final, placed ++ conflicts, createEq.trans stored, builtFinal, ?_, maskFinal.trans mask⟩
  intro i
  rw [classes i, List.mem_append]

end Stages

end ArtRuntime.Runtime.TypeLookupTable
