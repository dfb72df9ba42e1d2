import ArtRuntime.Foundation.CellHeap
import ArtRuntime.Foundation.NatBits
import ArtRuntime.Base.BitUtils
import ArtRuntime.Dex.UtfCompare

/-! # The type lookup table

`runtime/type_lookup_table.{h,cc}`: a hash table from class descriptors to
class definition indices, of `RoundUpToPowerOfTwo(NumClassDefs())` entries. An
entry holds the string data offset of a descriptor, its class definition index
packed with the hash bits above the mask, and the distance to the next entry of
its chain, zero for the last one.

The constructor places each class on the slot of its hash in a first stage and
keeps the classes whose slot is taken for a second stage, which appends each of
them at the end of the chain from its slot, in the first free slot after that
end. The hash, `ComputeModifiedUtf8Hash` of the descriptor, is a parameter: its
value depends on the signedness of `char`, and the table is correct for every
hash function. The dex file is the list of the string data offsets of the class
descriptors and the string data each offset holds. The storage starts as
default entries, and the loops of the source, which run until they find what
they look for, run on fuel, `none` being a loop that never ends. -/

namespace ArtRuntime.Runtime

open ArtRuntime.Foundation ArtRuntime.Foundation.NatBits ArtRuntime.Dex.Utf

/-- `dex::kDexNoIndex`. -/
def kDexNoIndex : Nat := 0xFFFFFFFF

/-- What the table reads of a dex file: the `string_data_off_` of the
descriptor of each class definition, and the bytes of the string data at an
offset after its length, NUL included. -/
structure DexFile where
  classDescriptorOffsets : List UInt32
  stringData : UInt32 → List UInt8

namespace DexFile

def numClassDefs (dex : DexFile) : Nat := dex.classDescriptorOffsets.length

/-- `GetStringId(GetTypeId(GetClassDef(i).class_idx_).descriptor_idx_).string_data_off_`. -/
def descriptorOffset (dex : DexFile) (i : Nat) : UInt32 := dex.classDescriptorOffsets.getD i 0

/-- The descriptor of class definition `i`, `GetStringData` of its string id. -/
def descriptor (dex : DexFile) (i : Nat) : List UInt8 := dex.stringData (dex.descriptorOffset i)

end DexFile

namespace TypeLookupTable

/-- `TypeLookupTable::Entry`. -/
structure Entry where
  strOffset : UInt32 := 0
  data : UInt16 := 0
  nextPosDelta : UInt16 := 0
  deriving DecidableEq, Repr

def Entry.isEmpty (entry : Entry) : Bool := entry.strOffset == 0

def Entry.isLast (entry : Entry) : Bool := entry.nextPosDelta == 0

end TypeLookupTable

/-- `dex_data_begin_`, as the string data it reads, `mask_` and `entries_`. -/
structure TypeLookupTable where
  stringData : UInt32 → List UInt8
  mask : Nat
  entries : List TypeLookupTable.Entry

namespace TypeLookupTable

/-- `RoundUpToPowerOfTwo` on `uint32_t`. -/
def roundUpToPowerOfTwo (x : Nat) : Nat :=
  if x < 2 then x else 1 <<< (32 - Base.clz 32 (x - 1))

def supportedSize (numClassDefs : Nat) : Bool :=
  numClassDefs != 0 && numClassDefs ≤ 65535

def calculateMask (numClassDefs : Nat) : Nat :=
  if supportedSize numClassDefs then roundUpToPowerOfTwo numClassDefs - 1 else 0

/-- `MakeData(class_def_idx, hash, mask)`: the hash bits above the mask, and the
index below it. -/
def makeData (classDefIdx : UInt16) (hash : UInt32) (mask : Nat) : UInt16 :=
  (hash.toUInt16 &&& ~~~(UInt16.ofNat mask)) ||| classDefIdx

variable (table : TypeLookupTable)

/-- `Size()`. -/
def size : Nat := table.mask + 1

def entryAt (pos : Nat) : Entry := table.entries.getD pos {}

def setEntry (pos : Nat) (entry : Entry) : TypeLookupTable :=
  { table with entries := table.entries.set pos entry }

/-- `(pos + entry->next_pos_delta) & GetSizeMask()`. -/
def nextPos (pos : Nat) : Nat := (pos + (table.entryAt pos).nextPosDelta.toNat) &&& table.mask

/-- The slot a probe goes to from `pos`, none from the last entry of a chain. -/
def link (pos : Nat) : Option Nat :=
  if (table.entryAt pos).isLast then none else some (table.nextPos pos)

/-- The entries as linked cells, each slot below the size linking to the next
one of its chain. -/
def chainHeap : CellHeap Entry :=
  ⟨fun pos => if pos < table.size then some ⟨table.entryAt pos, table.link pos⟩ else none, table.size⟩

/-- `CmpHashBits(data, hash)`: the bits of the `uint16_t` above the mask. -/
def cmpHashBits (data : UInt16) (hash : UInt32) : Bool :=
  let mask := (~~~(UInt16.ofNat table.mask)).toNat
  hash.toNat &&& mask == data.toNat &&& mask

def getClassDefIdx (data : UInt16) : Nat := data.toNat &&& table.mask

/-- `IsStringsEquals(str, str_offset)`. -/
def isStringsEquals (str : List UInt8) (strOffset : UInt32) : Bool :=
  compareModifiedUtf8ToModifiedUtf8AsUtf16CodePointValues str (table.stringData strOffset) == some 0

/-- The loop of `Lookup` from `pos`, on at most `fuel` entries. -/
def lookupFrom (str : List UInt8) (hash : UInt32) : (fuel pos : Nat) → Option Nat
  | 0, _ => none
  | fuel + 1, pos =>
    let entry := table.entryAt pos
    if entry.isEmpty then some kDexNoIndex
    else if table.cmpHashBits entry.data hash && table.isStringsEquals str entry.strOffset then
      some (table.getClassDefIdx entry.data)
    else if entry.isLast then some kDexNoIndex
    else lookupFrom str hash fuel (table.nextPos pos)

/-- `Lookup(str, hash)`. -/
def lookup (str : List UInt8) (hash : UInt32) : Option Nat :=
  table.lookupFrom str hash table.size (hash.toNat &&& table.mask)

/-- `SetOnInitialPos(entry, hash)`: whether the slot of the hash was free, and
the table with the entry there. -/
def setOnInitialPos (entry : Entry) (hash : UInt32) : Bool × TypeLookupTable :=
  let pos := hash.toNat &&& table.mask
  if !(table.entryAt pos).isEmpty then (false, table)
  else (true, table.setEntry pos { entry with nextPosDelta := 0 })

/-- `FindLastEntryInBucket(pos)`, on at most `fuel` entries. -/
def findLastEntryInBucket : (fuel pos : Nat) → Option Nat
  | 0, _ => none
  | fuel + 1, pos =>
    if (table.entryAt pos).isLast then some pos
    else findLastEntryInBucket fuel (table.nextPos pos)

/-- The loop of `Insert` that looks for a free slot from `nextPos` on. -/
def nextEmptyFrom : (fuel nextPos : Nat) → Option Nat
  | 0, _ => none
  | fuel + 1, nextPos =>
    if (table.entryAt nextPos).isEmpty then some nextPos
    else nextEmptyFrom fuel ((nextPos + 1) &&& table.mask)

/-- `Insert(entry, hash)`: the entry in the first free slot after the end of
the chain from the slot of the hash, linked from that end. -/
def insert (entry : Entry) (hash : UInt32) : Option TypeLookupTable := do
  let pos ← table.findLastEntryInBucket table.size (hash.toNat &&& table.mask)
  let nextPos ← table.nextEmptyFrom table.size ((pos + 1) &&& table.mask)
  let delta := if nextPos ≥ pos then nextPos - pos else nextPos + table.size - pos
  let linked := table.setEntry pos { table.entryAt pos with nextPosDelta := UInt16.ofNat delta }
  pure (linked.setEntry nextPos { entry with nextPosDelta := 0 })

/-- The entry of class definition `i` and the hash of its descriptor. -/
def classEntry (computeModifiedUtf8Hash : List UInt8 → UInt32) (dex : DexFile) (mask i : Nat) :
    Entry × UInt32 :=
  let strOffset := dex.descriptorOffset i
  let hash := computeModifiedUtf8Hash (dex.stringData strOffset)
  ({ strOffset := strOffset, data := makeData (UInt16.ofNat i) hash mask }, hash)

/-- One class of the first stage: on the slot of its hash when it is free,
else kept for the second stage. -/
def firstStageStep (computeModifiedUtf8Hash : List UInt8 → UInt32) (dex : DexFile)
    (state : TypeLookupTable × List Nat) (i : Nat) : TypeLookupTable × List Nat :=
  let (table, conflicts) := state
  let (entry, hash) := classEntry computeModifiedUtf8Hash dex table.mask i
  let (placed, table) := table.setOnInitialPos entry hash
  (table, if placed then conflicts else conflicts ++ [i])

/-- The first stage of the constructor, over the classes in order. -/
def firstStage (computeModifiedUtf8Hash : List UInt8 → UInt32) (dex : DexFile) :
    TypeLookupTable × List Nat :=
  (List.range dex.numClassDefs).foldl (firstStageStep computeModifiedUtf8Hash dex) (table, [])

/-- One class of the second stage: `Insert` of its entry. -/
def insertClass (computeModifiedUtf8Hash : List UInt8 → UInt32) (dex : DexFile) (i : Nat) :
    Option TypeLookupTable :=
  let (entry, hash) := classEntry computeModifiedUtf8Hash dex table.mask i
  table.insert entry hash

/-- The second stage, over the conflicts of the first in order. -/
def secondStage (computeModifiedUtf8Hash : List UInt8 → UInt32) (dex : DexFile) :
    List Nat → Option TypeLookupTable :=
  List.foldlM (fun table i => table.insertClass computeModifiedUtf8Hash dex i) table

/-- `TypeLookupTable(dex_file, storage)`, as `Create` calls it for a supported
size, on storage of default entries. -/
def create (computeModifiedUtf8Hash : List UInt8 → UInt32) (dex : DexFile) :
    Option TypeLookupTable :=
  let mask := calculateMask dex.numClassDefs
  let empty : TypeLookupTable := ⟨dex.stringData, mask, List.replicate (mask + 1) {}⟩
  let (table, conflicts) := empty.firstStage computeModifiedUtf8Hash dex
  table.secondStage computeModifiedUtf8Hash dex conflicts

/-- `Open(dex_file_pointer, raw_data, num_class_defs)`: the table over entries
written before. -/
def openTable (stringData : UInt32 → List UInt8) (rawData : List Entry) (numClassDefs : Nat) :
    TypeLookupTable :=
  ⟨stringData, calculateMask numClassDefs, rawData⟩

/-! ## The size -/

theorem roundUpToPowerOfTwo_eq {n : Nat} (pos : 1 ≤ n) (small : n ≤ 65535) :
    ∃ width, roundUpToPowerOfTwo n = 2 ^ width ∧ n ≤ 2 ^ width ∧ width ≤ 16 := by
  by_cases one : n < 2
  · exact ⟨0, by rw [roundUpToPowerOfTwo, if_pos one]; omega, by omega, by omega⟩
  · have fits : n - 1 < 2 ^ 32 := by omega
    refine ⟨Nat.size (n - 1), ?_, ?_, Nat.size_le.mpr (by omega)⟩
    · rw [roundUpToPowerOfTwo, if_neg one, Base.sub_clz fits, Nat.one_shiftLeft]
    · have := Nat.lt_size_self (n - 1)
      omega

/-- A table of `2 ^ width` entries, `width ≤ 16`, its mask below them. -/
def Shaped (table : TypeLookupTable) : Prop :=
  ∃ width, table.mask + 1 = 2 ^ width ∧ width ≤ 16 ∧ table.entries.length = table.size

theorem shaped_of_calculateMask {n : Nat} (pos : 1 ≤ n) (small : n ≤ 65535)
    (stringData : UInt32 → List UInt8) :
    Shaped ⟨stringData, calculateMask n, List.replicate (calculateMask n + 1) {}⟩ ∧
      n ≤ calculateMask n + 1 := by
  obtain ⟨width, rounded, above, narrow⟩ := roundUpToPowerOfTwo_eq pos small
  have supported : supportedSize n = true := by simp [supportedSize]; omega
  have positive : 0 < 2 ^ width := Nat.two_pow_pos width
  have maskEq : calculateMask n + 1 = 2 ^ width := by
    rw [calculateMask, if_pos supported, rounded]
    omega
  exact ⟨⟨width, maskEq, narrow, by simp [size]⟩, by omega⟩

variable {table : TypeLookupTable}

theorem Shaped.and_mask_eq_mod (shaped : table.Shaped) (x : Nat) : x &&& table.mask = x % table.size := by
  obtain ⟨width, isMask, -, -⟩ := shaped
  rw [NatBits.and_mask_eq_mod width isMask, size, isMask]

theorem Shaped.and_mask_lt (shaped : table.Shaped) (x : Nat) : x &&& table.mask < table.size := by
  rw [shaped.and_mask_eq_mod]
  exact Nat.mod_lt x (by simp [size])

theorem Shaped.size_le (shaped : table.Shaped) : table.size ≤ 2 ^ 16 := by
  obtain ⟨width, isMask, narrow, -⟩ := shaped
  rw [size, isMask]
  exact Nat.pow_le_pow_right (by decide) narrow

@[simp] theorem mask_setEntry (pos : Nat) (entry : Entry) : (table.setEntry pos entry).mask = table.mask := rfl

theorem Shaped.setEntry (shaped : table.Shaped) (pos : Nat) (entry : Entry) :
    (table.setEntry pos entry).Shaped := by
  obtain ⟨width, isMask, narrow, length⟩ := shaped
  exact ⟨width, isMask, narrow, by simp [TypeLookupTable.setEntry, length, size]⟩

theorem entryAt_setEntry (shaped : table.Shaped) {pos : Nat} (inside : pos < table.size)
    (entry : Entry) (other : Nat) :
    (table.setEntry pos entry).entryAt other = if pos = other then entry else table.entryAt other := by
  obtain ⟨-, -, -, length⟩ := shaped
  simp only [entryAt, TypeLookupTable.setEntry, List.getD_eq_getElem?_getD, List.getElem?_set]
  split
  · rw [if_pos (by omega)]
    rfl
  · rfl

theorem Shaped.lt_size_of_not_empty (shaped : table.Shaped) {pos : Nat}
    (full : (table.entryAt pos).isEmpty = false) : pos < table.size := by
  obtain ⟨-, -, -, length⟩ := shaped
  by_contra outside
  rw [entryAt, List.getD_eq_getElem?_getD, List.getElem?_eq_none (by omega)] at full
  cases full

/-! ## The entry of a class

Below the mask the data of an entry holds the class definition index, above it
the bits of the hash that the mask does not take. -/

theorem testBit_toNat_uint16 (x : UInt16) (j : Nat) : x.toNat.testBit j = x.toBitVec.getLsbD j :=
  BitVec.testBit_toNat x.toBitVec

theorem getLsbD_toBitVec_uint32 (x : UInt32) (j : Nat) : x.toBitVec.getLsbD j = x.toNat.testBit j :=
  (BitVec.testBit_toNat x.toBitVec).symm

theorem testBit_makeData (hash : UInt32) {mask i width : Nat} (isMask : mask + 1 = 2 ^ width)
    (narrow : width ≤ 16) (fits : i < 2 ^ width) (j : Nat) :
    (makeData (UInt16.ofNat i) hash mask).toNat.testBit j =
      if j < width then i.testBit j else decide (j < 16) && hash.toNat.testBit j := by
  have maskEq : mask = 2 ^ width - 1 := by omega
  rw [testBit_toNat_uint16]
  simp only [makeData, maskEq, UInt16.toBitVec_or, UInt16.toBitVec_and, UInt16.toBitVec_not,
    UInt16.toBitVec_ofNat', UInt32.toBitVec_toUInt16, BitVec.getLsbD_or, BitVec.getLsbD_and,
    BitVec.getLsbD_not, BitVec.getLsbD_ofNat, BitVec.getLsbD_setWidth, getLsbD_toBitVec_uint32,
    Nat.testBit_two_pow_sub_one]
  by_cases low : j < width
  · simp [low, show j < 16 by omega]
  · have clear : i.testBit j = false := Nat.testBit_eq_false_of_lt
      (Nat.lt_of_lt_of_le fits (Nat.pow_le_pow_right (by decide) (by omega)))
    by_cases word : j < 16
    · simp [low, word, clear]
    · simp [low, word]

theorem testBit_highMask {mask width : Nat} (isMask : mask + 1 = 2 ^ width) (j : Nat) : (~~~(UInt16.ofNat mask)).toNat.testBit j = (decide (j < 16) && !decide (j < width)) := by
  have maskEq : mask = 2 ^ width - 1 := by omega
  rw [testBit_toNat_uint16]
  simp only [maskEq, UInt16.toBitVec_not, UInt16.toBitVec_ofNat', BitVec.getLsbD_not,
    BitVec.getLsbD_ofNat, Nat.testBit_two_pow_sub_one]
  by_cases word : j < 16 <;> simp [word]

theorem getClassDefIdx_makeData (shaped : table.Shaped) (hash : UInt32) {i : Nat} (fits : i < table.size) :
    table.getClassDefIdx (makeData (UInt16.ofNat i) hash table.mask) = i := by
  obtain ⟨width, isMask, narrow, -⟩ := shaped
  rw [size, isMask] at fits
  apply Nat.eq_of_testBit_eq
  intro j
  have maskEq : table.mask = 2 ^ width - 1 := by omega
  rw [getClassDefIdx, Nat.testBit_and, testBit_makeData hash isMask narrow fits, maskEq,
    Nat.testBit_two_pow_sub_one]
  by_cases low : j < width
  · simp [low]
  · have clear : i.testBit j = false :=
      Nat.testBit_eq_false_of_lt (Nat.lt_of_lt_of_le fits (Nat.pow_le_pow_right (by decide) (by omega)))
    simp [low, clear]

theorem cmpHashBits_makeData (shaped : table.Shaped) (hash : UInt32) {i : Nat} (fits : i < table.size) :
    table.cmpHashBits (makeData (UInt16.ofNat i) hash table.mask) hash = true := by
  obtain ⟨width, isMask, narrow, -⟩ := shaped
  rw [size, isMask] at fits
  rw [cmpHashBits, beq_iff_eq]
  apply Nat.eq_of_testBit_eq
  intro j
  rw [Nat.testBit_and, Nat.testBit_and, testBit_makeData hash isMask narrow fits,
    testBit_highMask isMask]
  by_cases low : j < width
  · simp [low]
  · by_cases word : j < 16
    · simp [low, word]
    · simp [low, word]

/-! ## Chains

`Lookup`, `FindLastEntryInBucket` and `Insert` follow the links of
`chainHeap`, so a path or a chain of it says how far they go. -/

theorem chainHeap_bounded : table.chainHeap.Bounded := by
  intro pos above
  simp [chainHeap, show ¬pos < table.size by simpa [chainHeap] using above]

theorem cells_chainHeap {pos : Nat} (inside : pos < table.size) :
    table.chainHeap.cells pos = some ⟨table.entryAt pos, table.link pos⟩ :=
  if_pos inside

theorem cells_chainHeap_eq_some {pos : Nat} {cell : Cell Entry}
    (read : table.chainHeap.cells pos = some cell) :
    pos < table.size ∧ cell = ⟨table.entryAt pos, table.link pos⟩ := by
  by_cases inside : pos < table.size
  · rw [cells_chainHeap inside] at read
    exact ⟨inside, (Option.some.inj read).symm⟩
  · rw [chainHeap] at read
    simp [inside] at read

theorem entryAt_of_path {start finish : Option Nat} {cells : List (Nat × Entry)}
    (path : CellHeap.Path table.chainHeap start cells finish) :
    ∀ entry ∈ cells, entry.1 < table.size ∧ entry.2 = table.entryAt entry.1 := by
  intro entry member
  obtain ⟨cell, read, value⟩ := path.read_of_mem entry member
  obtain ⟨inside, rfl⟩ := cells_chainHeap_eq_some read
  exact ⟨inside, value.symm⟩

/-- A path to a slot leaves each of its cells by a link, so none is the last of
its chain. -/
theorem not_last_of_path {start finish : Nat} {cells : List (Nat × Entry)}
    (path : CellHeap.Path table.chainHeap (some start) cells (some finish)) :
    ∀ entry ∈ cells, entry.1 < table.size ∧ entry.2 = table.entryAt entry.1 ∧
      (table.entryAt entry.1).isLast = false := by
  induction cells generalizing start with
  | nil => simp
  | cons first rest ih =>
    obtain ⟨cell, read, rfl, tail⟩ := path.cons_inv
    obtain ⟨inside, rfl⟩ := cells_chainHeap_eq_some read
    intro entry member
    rcases List.mem_cons.mp member with rfl | later
    · refine ⟨inside, rfl, ?_⟩
      cases last : (table.entryAt start).isLast
      · rfl
      · simp only [link, last, if_true] at tail
        cases tail
    · cases linked : table.link start with
      | none => rw [linked] at tail; cases tail
      | some next => rw [linked] at tail; exact ih tail entry later

/-- `Lookup` follows a path one entry a step; where an entry of it matches, it
gives the class of that entry. So when every entry of the path that matches
names `result`, and `Lookup` from the end of the path gives `result`, so does
`Lookup` from its start. -/
theorem lookupFrom_of_path {str : List UInt8} {hash : UInt32}
    (emptyLast : ∀ pos, (table.entryAt pos).isEmpty = true → (table.entryAt pos).isLast = true)
    {start finish : Nat} {cells : List (Nat × Entry)}
    (path : CellHeap.Path table.chainHeap (some start) cells (some finish)) {result : Nat}
    (agree : ∀ entry ∈ cells,
      (table.cmpHashBits entry.2.data hash && table.isStringsEquals str entry.2.strOffset) = true →
        table.getClassDefIdx entry.2.data = result)
    {fuel : Nat} (atEnd : table.lookupFrom str hash fuel finish = some result) :
    table.lookupFrom str hash (cells.length + fuel) start = some result := by
  induction cells generalizing start with
  | nil => rw [Option.some.inj path.nil_inv, List.length_nil, Nat.zero_add, atEnd]
  | cons first rest ih =>
    obtain ⟨-, -, notLast⟩ := not_last_of_path path first List.mem_cons_self
    obtain ⟨cell, read, rfl, tail⟩ := path.cons_inv
    obtain ⟨-, rfl⟩ := cells_chainHeap_eq_some read
    have notEmpty : (table.entryAt start).isEmpty = false := by
      cases empty : (table.entryAt start).isEmpty
      · rfl
      · rw [emptyLast start empty] at notLast
        cases notLast
    simp only [link, notLast, Bool.false_eq_true, if_false] at tail
    rw [List.length_cons, Nat.add_right_comm, lookupFrom]
    simp only [notEmpty, Bool.false_eq_true, if_false]
    split
    · next matched => exact congrArg some (agree _ List.mem_cons_self matched)
    · simp only [notLast, Bool.false_eq_true, if_false]
      exact ih tail fun entry member => agree entry (List.mem_cons_of_mem _ member)

theorem lookupFrom_of_chain {str : List UInt8} {hash : UInt32} {start : Nat}
    {cells : List (Nat × Entry)} (chain : CellHeap.Chain table.chainHeap (some start) cells)
    (unmatched : ∀ entry ∈ cells, entry.2.isEmpty = false →
      (table.cmpHashBits entry.2.data hash && table.isStringsEquals str entry.2.strOffset) = false)
    {fuel : Nat} (enough : cells.length ≤ fuel) :
    table.lookupFrom str hash fuel start = some kDexNoIndex := by
  induction cells generalizing start fuel with
  | nil => cases chain
  | cons first rest ih =>
    obtain ⟨cell, read, rfl, tail⟩ := chain.cons_inv
    obtain ⟨-, rfl⟩ := cells_chainHeap_eq_some read
    obtain ⟨fuel, rfl⟩ : ∃ smaller, fuel = smaller + 1 := ⟨fuel - 1, by simp at enough; omega⟩
    rw [lookupFrom]
    split
    · rfl
    · next notEmpty =>
      simp only [unmatched _ List.mem_cons_self (by simpa using notEmpty), Bool.false_eq_true,
        if_false]
      split
      · rfl
      · next notLast =>
        simp only [link, notLast] at tail
        exact ih tail (fun entry member => unmatched entry (List.mem_cons_of_mem _ member))
          (by simp at enough; omega)

theorem findLastEntryInBucket_of_chain {start : Nat} {cells : List (Nat × Entry)}
    (chain : CellHeap.Chain table.chainHeap (some start) cells) {fuel : Nat}
    (enough : cells.length ≤ fuel) :
    ∃ last before, table.findLastEntryInBucket fuel start = some last ∧
      CellHeap.Path table.chainHeap (some start) before (some last) ∧
      (table.entryAt last).isLast = true ∧ last < table.size := by
  induction cells generalizing start fuel with
  | nil => cases chain
  | cons first rest ih =>
    obtain ⟨cell, read, rfl, tail⟩ := chain.cons_inv
    obtain ⟨inside, rfl⟩ := cells_chainHeap_eq_some read
    obtain ⟨fuel, rfl⟩ : ∃ smaller, fuel = smaller + 1 := ⟨fuel - 1, by simp at enough; omega⟩
    rw [findLastEntryInBucket]
    by_cases last : (table.entryAt start).isLast = true
    · exact ⟨start, [], by rw [if_pos last], .nil _, last, inside⟩
    · simp only [link, last] at tail
      obtain ⟨found, before, walked, path, isLast, foundInside⟩ := ih tail (by simp at enough; omega)
      refine ⟨found, (start, table.entryAt start) :: before, by rw [if_neg last]; exact walked,
        .cons (cells_chainHeap inside) ?_, isLast, foundInside⟩
      simp only [link, last]
      exact path

theorem nextEmptyFrom_of_empty (shaped : table.Shaped) :
    ∀ distance fuel start, distance < fuel → start < table.size →
      (table.entryAt ((start + distance) % table.size)).isEmpty = true →
      ∃ free, table.nextEmptyFrom fuel start = some free ∧ (table.entryAt free).isEmpty = true ∧
        free < table.size := by
  intro distance
  induction distance with
  | zero =>
    intro fuel start enough inside empty
    obtain ⟨fuel, rfl⟩ : ∃ smaller, fuel = smaller + 1 := ⟨fuel - 1, by omega⟩
    rw [Nat.add_zero, Nat.mod_eq_of_lt inside] at empty
    exact ⟨start, by rw [nextEmptyFrom, if_pos empty], empty, inside⟩
  | succ distance ih =>
    intro fuel start enough inside empty
    obtain ⟨fuel, rfl⟩ : ∃ smaller, fuel = smaller + 1 := ⟨fuel - 1, by omega⟩
    rw [nextEmptyFrom]
    split
    · next free => exact ⟨start, rfl, free, inside⟩
    · -- one slot on, the free slot is one closer
      apply ih fuel _ (by omega) (shaped.and_mask_lt _)
      rw [shaped.and_mask_eq_mod, Nat.mod_add_mod, Nat.add_right_comm]
      exact empty

/-- When fewer slots are taken than there are, `Insert` finds a free one from
any slot. -/
theorem nextEmptyFrom_of_card (shaped : table.Shaped)
    (room : ((Finset.range table.size).filter fun pos => (table.entryAt pos).isEmpty = false).card <
      table.size) {start : Nat} (inside : start < table.size) :
    ∃ free, table.nextEmptyFrom table.size start = some free ∧ (table.entryAt free).isEmpty = true ∧
      free < table.size := by
  obtain ⟨free, freeInside, empty⟩ : ∃ free < table.size, (table.entryAt free).isEmpty = true := by
    by_contra full
    simp only [not_exists, not_and] at full
    have all : (Finset.range table.size).filter (fun pos => (table.entryAt pos).isEmpty = false) =
        Finset.range table.size := by
      apply Finset.filter_true_of_mem
      intro pos member
      simpa using full pos (Finset.mem_range.mp member)
    rw [all, Finset.card_range] at room
    exact Nat.lt_irrefl _ room
  -- the free slot lies `(free + size - start) % size` slots ahead
  apply nextEmptyFrom_of_empty shaped ((free + table.size - start) % table.size) table.size start
    (Nat.mod_lt _ (by omega)) inside
  have ahead : (start + (free + table.size - start) % table.size) % table.size = free := by
    rw [Nat.add_mod_mod, show start + (free + table.size - start) = free + table.size by omega,
      Nat.add_mod_right, Nat.mod_eq_of_lt freeInside]
  rw [ahead]
  exact empty

end TypeLookupTable

end ArtRuntime.Runtime
