import ArtRuntime.Base.Leb128RoundTrip

/-! # Compact offset tables

`CompactOffsetTable` of `libdexfile/dex/compact_offset_table.cc`. `Build`
cuts the offsets into blocks of `kElementsPerIndex`; a block is a big-endian
16-bit mask of its non-zero offsets followed by the unsigned LEB128 of each
non-zero offset minus the one before it, the first taken against the minimum
offset, all in `uint32_t`. After the blocks, padded to four bytes, comes the
table of the blocks' positions. `GetOffset` finds the block through the table,
counts the mask bits up to the index with a shifted `POPCOUNT`, and adds that
many deltas to the minimum offset. The two-argument forms carry the minimum
and the table offset in a header of two words in front.

The table offset and the block positions are sizes of the data, stored as
`uint32_t`. Once the blocks pass `2^32` bytes they wrap, and the accessor reads
its table from the middle of the blocks. Loads of a `uint32_t` are
little-endian. -/

namespace ArtRuntime.Dex.CompactOffsetTable

open ArtRuntime.Foundation ArtRuntime.Base ArtRuntime.Base.Leb128

def kElementsPerIndex : Nat := 16

def kBitsPerIntPtrT : Nat := 64

/-- The bytes of a `uint32_t` in memory, least significant first. -/
def uint32Bytes (value : UInt32) : List UInt8 :=
  [UInt8.ofNat value.toNat, UInt8.ofNat (value.toNat / 2 ^ 8), UInt8.ofNat (value.toNat / 2 ^ 16),
    UInt8.ofNat (value.toNat / 2 ^ 24)]

/-- A `uint32_t` load. -/
def loadUint32 (cells : Nat → UInt8) (address : Nat) : UInt32 :=
  UInt32.ofNat ((cells address).toNat + 2 ^ 8 * (cells (address + 1)).toNat +
    2 ^ 16 * (cells (address + 2)).toNat + 2 ^ 24 * (cells (address + 3)).toNat)

/-! ## Build -/

/-- The minimum of the non-zero offsets, `0xFFFFFFFF` when there is none. -/
def minimumOffset (offsets : List UInt32) : UInt32 :=
  offsets.foldl (fun minOffset offset => if offset ≠ 0 then min minOffset offset else minOffset)
    0xFFFFFFFF

/-- The bit mask of a block: bit `i` for a non-zero `i`-th offset. -/
def blockBitMask (block : List UInt32) : Nat :=
  (List.range block.length).foldl
    (fun bitMask i => if block.getD i 0 ≠ 0 then bitMask ||| 1 <<< i else bitMask) 0

/-- The loop that writes each non-zero offset of a block relative to the
previous one. -/
def writeDeltas (out : List UInt8) (prevOffset : UInt32) : List UInt32 → List UInt8
  | [] => out
  | offset :: rest =>
    if offset ≠ 0 then writeDeltas (encodeUnsignedLeb128 out (offset - prevOffset)) offset rest
    else writeDeltas out prevOffset rest

/-- One block: its bit mask, high byte first, and its deltas. -/
def writeBlock (out : List UInt8) (minOffset : UInt32) (block : List UInt32) : List UInt8 :=
  let bitMask := blockBitMask block
  writeDeltas (out ++ [UInt8.ofNat (bitMask >>> 8), UInt8.ofNat bitMask]) minOffset block

/-- The loop of `Build` over the blocks from `blockStart`: the data and the
offset table, each block's entry being the size of the data before it. -/
def writeBlocks (offsets : List UInt32) (minOffset : UInt32) (blockStart : Nat) (out : List UInt8)
    (offsetTable : List UInt32) : List UInt8 × List UInt32 :=
  if blockStart < offsets.length then
    let blockSize := min (offsets.length - blockStart) kElementsPerIndex
    writeBlocks offsets minOffset (blockStart + blockSize)
      (writeBlock out minOffset ((offsets.drop blockStart).take blockSize))
      (offsetTable ++ [UInt32.ofNat out.length])
  else (out, offsetTable)
termination_by offsets.length - blockStart
decreasing_by simp only [kElementsPerIndex]; omega

/-- `AlignmentPadVector`: the zeros its loop pushes until the size is a
multiple of `alignment`. -/
def alignmentPadVector (dest : List UInt8) (alignment : Nat) : List UInt8 :=
  dest ++ List.replicate ((alignment - dest.length % alignment) % alignment) 0

/-- What `Build` writes through its three out-parameters. -/
structure BuiltTable where
  data : List UInt8
  minOffset : UInt32
  tableOffset : UInt32

/-- `Build(offsets, &out_data, &out_min_offset, &out_table_offset)`. -/
def build (offsets : List UInt32) : BuiltTable :=
  let minOffset := minimumOffset offsets
  let (out, offsetTable) := writeBlocks offsets minOffset 0 [] []
  let out := alignmentPadVector out 4
  ⟨out ++ offsetTable.flatMap uint32Bytes, minOffset, UInt32.ofNat out.length⟩

/-- `Build(offsets, &out_data)`: the minimum and the table offset in front. -/
def buildWithHeader (offsets : List UInt32) : List UInt8 :=
  let built := build offsets
  uint32Bytes built.minOffset ++ uint32Bytes built.tableOffset ++ built.data

/-! ## The accessor -/

/-- `Accessor`: the addresses of its table and of the data, and the minimum
offset. -/
structure Accessor where
  table : Nat
  minimumOffset : UInt32
  dataBegin : Nat

namespace Accessor

/-- `Accessor(data_begin, minimum_offset, table_offset)`. -/
def create (dataBegin : Nat) (minimumOffset tableOffset : UInt32) : Accessor :=
  ⟨dataBegin + tableOffset.toNat, minimumOffset, dataBegin⟩

/-- `Accessor(data_begin)`: the two header words read first. -/
def ofHeader (memory : TracedMemory UInt8) (dataBegin : Nat) : Accessor :=
  create (dataBegin + 8) (loadUint32 memory.cells dataBegin) (loadUint32 memory.cells (dataBegin + 4))

/-- The `do`-`while` loop of `GetOffset` for `count` rounds: one delta decoded
and added per round. The accessor calls it with at least one. -/
def accumulateDeltas (memory : TracedMemory UInt8) (block : Nat) (currentOffset : UInt32) :
    Nat → UInt32
  | 0 => currentOffset
  | count + 1 =>
    let (delta, next, _) := decodeUnsignedLeb128 memory block
    accumulateDeltas memory next (currentOffset + delta) count

/-- `GetOffset(index)`; the mask is read as a `uint16_t` and shifted as a
`uintptr_t`. -/
def getOffset (accessor : Accessor) (memory : TracedMemory UInt8) (index : UInt32) : UInt32 :=
  let offset := loadUint32 memory.cells (accessor.table + 4 * (index.toNat / kElementsPerIndex))
  let bitIndex := index.toNat % kElementsPerIndex
  let block := accessor.dataBegin + offset.toNat
  let bitMask := ((memory.cells block).toNat <<< 8 ||| (memory.cells (block + 1)).toNat) % 2 ^ 16
  if bitMask &&& 1 <<< bitIndex = 0 then 0
  else
    let count := popCount kBitsPerIntPtrT
      ((bitMask <<< (kBitsPerIntPtrT - 1 - bitIndex)) % 2 ^ kBitsPerIntPtrT)
    accumulateDeltas memory (block + 2) accessor.minimumOffset count

end Accessor

/-! ## The layout of a block -/

/-- The deltas of `values`, from `prevOffset` on, each as its LEB128. -/
def deltaBytes (prevOffset : UInt32) : List UInt32 → List UInt8
  | [] => []
  | offset :: rest => unsignedLeb128Bytes (offset - prevOffset) ++ deltaBytes offset rest

theorem loadUint32_of_stores {cells : Nat → UInt8} {address : Nat} {value : UInt32}
    (stored : Stores cells address (uint32Bytes value)) : loadUint32 cells address = value := by
  have byte0 := stored 0 (by simp [uint32Bytes])
  have byte1 := stored 1 (by simp [uint32Bytes])
  have byte2 := stored 2 (by simp [uint32Bytes])
  have byte3 := stored 3 (by simp [uint32Bytes])
  simp only [uint32Bytes, Nat.add_zero] at byte0 byte1 byte2 byte3
  have bounded := value.toNat_lt
  rw [loadUint32, byte0, byte1, byte2, byte3]
  simp only [List.getElem_cons_zero, List.getElem_cons_succ, UInt8.toNat_ofNat']
  rw [show value.toNat % 2 ^ 8 + 2 ^ 8 * (value.toNat / 2 ^ 8 % 2 ^ 8) +
      2 ^ 16 * (value.toNat / 2 ^ 16 % 2 ^ 8) + 2 ^ 24 * (value.toNat / 2 ^ 24 % 2 ^ 8) = value.toNat
    by omega]
  exact UInt32.ofNat_toNat

theorem writeDeltas_eq (out : List UInt8) (prevOffset : UInt32) (block : List UInt32) :
    writeDeltas out prevOffset block = out ++ deltaBytes prevOffset (block.filter (· ≠ 0)) := by
  induction block generalizing out prevOffset with
  | nil => simp [writeDeltas, deltaBytes]
  | cons offset rest ih =>
    by_cases zero : offset = 0
    · simp [writeDeltas, zero, ih]
    · simp [writeDeltas, zero, ih, deltaBytes, encodeUnsignedLeb128]

theorem writeBlock_eq (out : List UInt8) (minOffset : UInt32) (block : List UInt32) :
    writeBlock out minOffset block =
      out ++ ([UInt8.ofNat (blockBitMask block >>> 8), UInt8.ofNat (blockBitMask block)] ++
        deltaBytes minOffset (block.filter (· ≠ 0))) := by
  rw [writeBlock, writeDeltas_eq, List.append_assoc]

/-! ## The bit mask -/

theorem testBit_blockBitMask (block : List UInt32) (j : Nat) :
    (blockBitMask block).testBit j = (decide (j < block.length) && decide (block.getD j 0 ≠ 0)) := by
  unfold blockBitMask
  -- the first `count` rounds of the loop set the bits below `count`
  suffices rounds : ∀ count, ((List.range count).foldl
      (fun bitMask i => if block.getD i 0 ≠ 0 then bitMask ||| 1 <<< i else bitMask) 0).testBit j =
      (decide (j < count) && decide (block.getD j 0 ≠ 0)) from rounds block.length
  intro count
  induction count with
  | zero => simp
  | succ count ih =>
    rw [List.range_succ, List.foldl_append, List.foldl_cons, List.foldl_nil]
    by_cases same : j = count
    · subst same
      split <;> simp_all [Nat.testBit_or, Nat.one_shiftLeft]
    · have below : (j < count + 1) = (j < count) := by
        apply propext; omega
      split <;> simp_all [Nat.testBit_or, Nat.one_shiftLeft, Ne.symm same]

theorem blockBitMask_lt {block : List UInt32} (short : block.length ≤ kElementsPerIndex) :
    blockBitMask block < 2 ^ 16 := by
  apply Nat.lt_pow_two_of_testBit
  intro j above
  rw [testBit_blockBitMask]
  unfold kElementsPerIndex at short
  simp [show ¬ j < block.length by omega]

theorem bitMask_of_bytes {bitMask : Nat} (small : bitMask < 2 ^ 16) :
    ((UInt8.ofNat (bitMask >>> 8)).toNat <<< 8 ||| (UInt8.ofNat bitMask).toNat) % 2 ^ 16 = bitMask := by
  rw [UInt8.toNat_ofNat', UInt8.toNat_ofNat', Nat.shiftRight_eq_div_pow, Nat.lor_comm,
    or_shiftLeft_eq_add (Nat.mod_lt _ (by decide))]
  omega

theorem and_one_shiftLeft_eq_zero (bitMask bitIndex : Nat) :
    bitMask &&& 1 <<< bitIndex = 0 ↔ bitMask.testBit bitIndex = false := by
  rw [Nat.one_shiftLeft, Nat.and_two_pow]
  cases bitMask.testBit bitIndex <;> simp

/-- Shifting the mask up by `kBitsPerIntPtrT - 1 - bitIndex` in a word keeps
exactly its bits up to `bitIndex`. -/
theorem popCount_shifted (bitMask : Nat) {bitIndex : Nat} (small : bitIndex < kBitsPerIntPtrT) :
    popCount kBitsPerIntPtrT ((bitMask <<< (kBitsPerIntPtrT - 1 - bitIndex)) % 2 ^ kBitsPerIntPtrT) =
      popCount (bitIndex + 1) bitMask := by
  obtain ⟨shift, split⟩ : ∃ shift, kBitsPerIntPtrT = shift + (bitIndex + 1) :=
    ⟨kBitsPerIntPtrT - (bitIndex + 1), by omega⟩
  have shiftEq : kBitsPerIntPtrT - 1 - bitIndex = shift := by omega
  unfold popCount
  rw [shiftEq, split, List.range_add, List.filter_append, List.length_append, List.filter_map,
    List.length_map]
  -- the positions below the shift hold zeros
  have low : ((List.range shift).filter
      fun j => ((bitMask <<< shift) % 2 ^ (shift + (bitIndex + 1))).testBit j).length = 0 := by
    rw [List.length_eq_zero_iff, List.filter_eq_nil_iff]
    intro j member
    have below : ¬ shift ≤ j := Nat.not_le.mpr (List.mem_range.mp member)
    simp [Nat.testBit_mod_two_pow, Nat.testBit_shiftLeft, below]
  rw [low, Nat.zero_add]
  congr 1
  apply List.filter_congr
  intro j member
  have inRange := List.mem_range.mp member
  simp [Nat.testBit_mod_two_pow, Nat.testBit_shiftLeft, inRange]

/-- The mask bits below `count` are the non-zero offsets among the first
`count`. -/
theorem popCount_blockBitMask (block : List UInt32) (count : Nat) :
    popCount count (blockBitMask block) = ((block.take count).filter (· ≠ 0)).length := by
  unfold popCount
  induction count with
  | zero => simp
  | succ count ih =>
    rw [List.range_succ, List.filter_append, List.length_append, ih, List.take_add_one,
      List.filter_append, List.length_append]
    congr 1
    -- the one new position: a mask bit exactly for a non-zero offset
    by_cases inside : count < block.length
    · have bit : (blockBitMask block).testBit count = decide (block[count] ≠ 0) := by
        simp [testBit_blockBitMask, inside, List.getD_eq_getElem?_getD]
      by_cases zero : block[count] = 0 <;> simp [bit, zero, List.getElem?_eq_getElem inside]
    · simp [testBit_blockBitMask, inside]

/-- The non-zero offsets up to a non-zero one end with it: behind `front`, it
is the one at their count. -/
theorem getElem?_filter_take {block : List UInt32} {index : Nat} (inside : index < block.length)
    (nonzero : block[index] ≠ 0) (front : UInt32) :
    ((block.take (index + 1)).filter (· ≠ 0)).length ≤ (block.filter (· ≠ 0)).length ∧
      (front :: block.filter (· ≠ 0))[((block.take (index + 1)).filter (· ≠ 0)).length]? =
        some block[index] := by
  have upTo : (block.take (index + 1)).filter (· ≠ 0) =
      (block.take index).filter (· ≠ 0) ++ [block[index]] := by
    rw [List.take_add_one, List.getElem?_eq_getElem inside, Option.toList_some, List.filter_append]
    simp [nonzero]
  have whole : block.filter (· ≠ 0) =
      (block.take index).filter (· ≠ 0) ++ block[index] :: (block.drop (index + 1)).filter (· ≠ 0) := by
    have split := List.take_append_drop index block
    rw [List.drop_eq_getElem_cons inside] at split
    conv_lhs => rw [← split]
    rw [List.filter_append, List.filter_cons, if_pos (decide_eq_true nonzero)]
  rw [upTo, whole]
  constructor
  · simp
  · simp

/-- Decoding `count` of the deltas of `values` from `prevOffset` lands on the
`count`-th of `prevOffset :: values`. -/
theorem accumulateDeltas_of_stores {memory : TracedMemory UInt8} (values : List UInt32) :
    ∀ {block : Nat} {prevOffset : UInt32}, Stores memory.cells block (deltaBytes prevOffset values) →
      ∀ count ≤ values.length,
        some (Accessor.accumulateDeltas memory block prevOffset count) = (prevOffset :: values)[count]? := by
  induction values with
  | nil =>
    intro block prevOffset _ count atMost
    rw [Nat.le_zero.mp atMost]
    rfl
  | cons offset rest ih =>
    intro block prevOffset stored count atMost
    cases count with
    | zero => rfl
    | succ count =>
      rw [deltaBytes, Stores.append_iff, length_unsignedLeb128Bytes] at stored
      obtain ⟨delta, rest⟩ := stored
      obtain ⟨decoded, next, -⟩ := unsignedLeb128_round_trip (offset - prevOffset) delta
      have decodeEq : decodeUnsignedLeb128 memory block =
          (offset - prevOffset, block + unsignedLeb128Size (offset - prevOffset),
            (decodeUnsignedLeb128 memory block).2.2) := by
        rw [← next, ← decoded]
      have telescope : prevOffset + (offset - prevOffset) = offset := by
        rw [UInt32.add_comm, UInt32.sub_add_cancel]
      rw [Accessor.accumulateDeltas, decodeEq]
      simp only [telescope]
      exact ih rest count (Nat.le_of_succ_le_succ atMost)

/-! ## Reading one block -/

/-- `GetOffset` of an index whose table entry leads to the bytes of its block
reads the offset back. -/
theorem getOffset_of_stores {accessor : Accessor} {memory : TracedMemory UInt8} {index : UInt32}
    {block : List UInt32} (short : block.length ≤ kElementsPerIndex)
    (inside : index.toNat % kElementsPerIndex < block.length)
    (stored : Stores memory.cells (accessor.dataBegin +
      (loadUint32 memory.cells (accessor.table + 4 * (index.toNat / kElementsPerIndex))).toNat)
      (writeBlock [] accessor.minimumOffset block)) :
    accessor.getOffset memory index = block[index.toNat % kElementsPerIndex] := by
  set position := accessor.dataBegin +
    (loadUint32 memory.cells (accessor.table + 4 * (index.toNat / kElementsPerIndex))).toNat
  set bitIndex := index.toNat % kElementsPerIndex
  rw [writeBlock_eq, List.nil_append, Stores.append_iff] at stored
  obtain ⟨maskBytes, deltas⟩ := stored
  rw [Stores.cons_iff, Stores.cons_iff] at maskBytes
  obtain ⟨high, low, -⟩ := maskBytes
  have bitMask : ((memory.cells position).toNat <<< 8 ||| (memory.cells (position + 1)).toNat) % 2 ^ 16 =
      blockBitMask block := by
    rw [high, low]
    exact bitMask_of_bytes (blockBitMask_lt short)
  have bit : (blockBitMask block).testBit bitIndex = decide (block[bitIndex] ≠ 0) := by
    simp [testBit_blockBitMask, inside, List.getD_eq_getElem?_getD]
  have small : bitIndex < kBitsPerIntPtrT :=
    Nat.lt_of_lt_of_le (Nat.mod_lt _ (by decide)) (by decide)
  unfold Accessor.getOffset
  simp only
  rw [bitMask]
  by_cases zero : block[bitIndex] = 0
  · have clear : (blockBitMask block).testBit bitIndex = false := by
      rw [bit]
      exact decide_eq_false (fun nonzero => nonzero zero)
    rw [if_pos ((and_one_shiftLeft_eq_zero _ _).mpr clear), zero]
  · have present : (blockBitMask block).testBit bitIndex = true := by
      rw [bit]
      exact decide_eq_true zero
    have notCleared : ¬ blockBitMask block &&& 1 <<< bitIndex = 0 := fun cleared => by
      have clear := (and_one_shiftLeft_eq_zero _ _).mp cleared
      rw [present] at clear
      exact Bool.noConfusion clear
    rw [if_neg notCleared, popCount_shifted _ small, popCount_blockBitMask]
    obtain ⟨counted, landed⟩ := getElem?_filter_take inside zero accessor.minimumOffset
    have decoded := accumulateDeltas_of_stores (block.filter (· ≠ 0)) deltas _ counted
    rw [landed] at decoded
    exact Option.some.inj decoded

/-! ## The blocks of `Build` -/

theorem writeBlock_append (out : List UInt8) (minOffset : UInt32) (block : List UInt32) :
    writeBlock out minOffset block = out ++ writeBlock [] minOffset block := by
  rw [writeBlock_eq, writeBlock_eq, List.nil_append]

theorem writeBlocks_extends (offsets : List UInt32) (minOffset : UInt32) (blockStart : Nat)
    (out : List UInt8) (offsetTable : List UInt32) :
    ∃ moreData moreTable, writeBlocks offsets minOffset blockStart out offsetTable =
      (out ++ moreData, offsetTable ++ moreTable) := by
  fun_induction writeBlocks offsets minOffset blockStart out offsetTable with
  | case1 blockStart out offsetTable within blockSize ih =>
    obtain ⟨moreData, moreTable, result⟩ := ih
    rw [result, writeBlock_append]
    exact ⟨writeBlock [] minOffset ((offsets.drop blockStart).take blockSize) ++ moreData,
      [UInt32.ofNat out.length] ++ moreTable, by simp⟩
  | case2 blockStart out offsetTable past => exact ⟨[], [], by simp⟩

/-- Block `b` of the offsets, as the loop cuts them. -/
def blockAt (offsets : List UInt32) (b : Nat) : List UInt32 :=
  (offsets.drop (kElementsPerIndex * b)).take kElementsPerIndex

/-- Each block's bytes sit in the data at the position its table entry
records. The loop starts block `b` at `kElementsPerIndex * b`. -/
theorem writeBlocks_blockAt (offsets : List UInt32) (minOffset : UInt32) (blockStart : Nat)
    (out : List UInt8) (offsetTable : List UInt32)
    (aligned : blockStart = min offsets.length (kElementsPerIndex * offsetTable.length))
    (b : Nat) (later : offsetTable.length ≤ b) (present : kElementsPerIndex * b < offsets.length) :
    ∃ before after,
      (writeBlocks offsets minOffset blockStart out offsetTable).1 =
        before ++ writeBlock [] minOffset (blockAt offsets b) ++ after ∧
      (writeBlocks offsets minOffset blockStart out offsetTable).2[b]? =
        some (UInt32.ofNat before.length) := by
  fun_induction writeBlocks offsets minOffset blockStart out offsetTable with
  | case1 blockStart out offsetTable within blockSize ih =>
    have started : blockStart = kElementsPerIndex * offsetTable.length := by omega
    by_cases current : b = offsetTable.length
    · -- this round writes block `b`
      subst current
      obtain ⟨moreData, moreTable, result⟩ := writeBlocks_extends offsets minOffset
        (blockStart + blockSize) (writeBlock out minOffset ((offsets.drop blockStart).take blockSize))
        (offsetTable ++ [UInt32.ofNat out.length])
      have sameBlock : (offsets.drop blockStart).take blockSize = blockAt offsets offsetTable.length := by
        rw [blockAt, ← started, List.take_eq_take_iff, List.length_drop]
        simp only [blockSize]
        omega
      refine ⟨out, moreData, ?_, ?_⟩
      · rw [result, writeBlock_append, sameBlock]
      · rw [result]
        simp
    · have next : blockStart + blockSize =
          min offsets.length (kElementsPerIndex * (offsetTable ++ [UInt32.ofNat out.length]).length) := by
        simp only [blockSize, List.length_append, List.length_singleton, Nat.mul_succ]
        omega
      exact ih next (by simp only [List.length_append, List.length_singleton]; omega)
  | case2 blockStart out offsetTable past =>
    have blocksBefore : offsets.length ≤ kElementsPerIndex * offsetTable.length := by omega
    have : kElementsPerIndex * offsetTable.length ≤ kElementsPerIndex * b :=
      Nat.mul_le_mul_left _ later
    omega

theorem length_blockAt_le (offsets : List UInt32) (b : Nat) :
    (blockAt offsets b).length ≤ kElementsPerIndex := by
  simp [blockAt]

theorem getElem_blockAt {offsets : List UInt32} {index : Nat} (inside : index < offsets.length) :
    ∃ present : index % kElementsPerIndex < (blockAt offsets (index / kElementsPerIndex)).length,
      (blockAt offsets (index / kElementsPerIndex))[index % kElementsPerIndex] = offsets[index] := by
  have split := Nat.div_add_mod index kElementsPerIndex
  have below := Nat.mod_lt index (show 0 < kElementsPerIndex by decide)
  refine ⟨by simp [blockAt]; omega, ?_⟩
  simp only [blockAt, List.getElem_take, List.getElem_drop]
  congr 1

theorem stores_getElem_flatMap {cells : Nat → UInt8} (table : List UInt32) :
    ∀ {address b : Nat} {entry : UInt32}, Stores cells address (table.flatMap uint32Bytes) →
      table[b]? = some entry → Stores cells (address + 4 * b) (uint32Bytes entry) := by
  induction table with
  | nil => intro address b entry _ found; simp at found
  | cons head rest ih =>
    intro address b entry stored found
    rw [List.flatMap_cons, Stores.append_iff] at stored
    cases b with
    | zero =>
      simp only [List.getElem?_cons_zero, Option.some.injEq] at found
      rw [← found]
      exact stored.1
    | succ b =>
      have inRest := ih stored.2 (by simpa using found)
      rw [show address + 4 * (b + 1) = address + (uint32Bytes head).length + 4 * b by
        simp [uint32Bytes]; omega]
      exact inRest

/-! ## The size of the data -/

theorem length_deltaBytes_le (prevOffset : UInt32) (values : List UInt32) :
    (deltaBytes prevOffset values).length ≤ 5 * values.length := by
  induction values generalizing prevOffset with
  | nil => simp [deltaBytes]
  | cons offset rest ih =>
    have encoded := (unsignedLeb128Size_bounds (offset - prevOffset)).2
    have restBound := ih offset
    rw [deltaBytes, List.length_append, length_unsignedLeb128Bytes, List.length_cons]
    omega

theorem length_writeBlock_le (minOffset : UInt32) (block : List UInt32) :
    (writeBlock [] minOffset block).length ≤ 2 + 5 * block.length := by
  have deltas := length_deltaBytes_le minOffset (block.filter (· ≠ 0))
  have kept := List.length_filter_le (fun offset => decide (offset ≠ 0)) block
  rw [writeBlock_eq, List.nil_append, List.length_append]
  simp only [List.length_cons, List.length_nil]
  omega

/-- Each offset costs at most seven bytes: two of its block's mask, shared by
at least one offset, and five of its LEB128. -/
theorem length_writeBlocks_le (offsets : List UInt32) (minOffset : UInt32) (blockStart : Nat)
    (out : List UInt8) (offsetTable : List UInt32) :
    (writeBlocks offsets minOffset blockStart out offsetTable).1.length ≤
      out.length + 7 * (offsets.length - blockStart) := by
  fun_induction writeBlocks offsets minOffset blockStart out offsetTable with
  | case1 blockStart out offsetTable within blockSize ih =>
    have block := length_writeBlock_le minOffset ((offsets.drop blockStart).take blockSize)
    have sized : ((offsets.drop blockStart).take blockSize).length = blockSize := by
      simp only [List.length_take, List.length_drop, blockSize]
      omega
    have positive : 0 < blockSize := by
      simp only [blockSize, kElementsPerIndex]
      omega
    have atMost : blockSize ≤ offsets.length - blockStart := Nat.min_le_left _ _
    rw [writeBlock_append, List.length_append] at ih
    rw [writeBlock_append]
    rw [sized] at block
    omega
  | case2 blockStart out offsetTable past => simp

/-! ## The round trip -/

section RoundTrip

variable {offsets : List UInt32} {out : List UInt8} {offsetTable : List UInt32}

theorem build_eq (written : writeBlocks offsets (minimumOffset offsets) 0 [] [] = (out, offsetTable)) :
    build offsets = ⟨alignmentPadVector out 4 ++ offsetTable.flatMap uint32Bytes, minimumOffset offsets,
      UInt32.ofNat (alignmentPadVector out 4).length⟩ := by
  simp only [build, written]

theorem length_alignmentPadVector (dest : List UInt8) :
    (alignmentPadVector dest 4).length ≤ dest.length + 3 := by
  simp only [alignmentPadVector, List.length_append, List.length_replicate]
  omega

/-- `GetOffset` through the accessor of the three-argument `Build` reads every
offset back, as long as the sizes of the data fit in a `uint32_t`. -/
theorem getOffset_create_build (indexable : offsets.length ≤ 2 ^ 32)
    (written : writeBlocks offsets (minimumOffset offsets) 0 [] [] = (out, offsetTable))
    (fits : out.length + 4 ≤ 2 ^ 32) {memory : TracedMemory UInt8} {dataBegin : Nat}
    (stored : Stores memory.cells dataBegin (build offsets).data) {index : Nat}
    (inside : index < offsets.length) :
    (Accessor.create dataBegin (build offsets).minOffset (build offsets).tableOffset).getOffset memory
      (UInt32.ofNat index) = offsets[index] := by
  have padded : (alignmentPadVector out 4).length < 2 ^ 32 := by
    have := length_alignmentPadVector out
    omega
  have indexNat : (UInt32.ofNat index).toNat = index := UInt32.toNat_ofNat_of_lt' (by
    simp only [UInt32.size]; omega)
  rw [build_eq written] at stored ⊢
  simp only
  rw [Stores.append_iff] at stored
  obtain ⟨blocks, table⟩ := stored
  -- the table entry of the index's block, and that block's bytes
  obtain ⟨present, found⟩ := getElem_blockAt inside
  have firstOfBlock : kElementsPerIndex * (index / kElementsPerIndex) < offsets.length :=
    Nat.lt_of_le_of_lt (Nat.mul_div_le index kElementsPerIndex) inside
  obtain ⟨before, after, layout, entry⟩ := writeBlocks_blockAt offsets (minimumOffset offsets) 0 [] []
    (by simp) (index / kElementsPerIndex) (Nat.zero_le _) firstOfBlock
  rw [written] at layout entry
  dsimp only at layout entry
  have beforeFits : before.length < 2 ^ 32 := by
    have := congrArg List.length layout
    simp only [List.length_append] at this
    omega
  have loaded := loadUint32_of_stores (stores_getElem_flatMap offsetTable table entry)
  rw [alignmentPadVector, layout, List.append_assoc, List.append_assoc, Stores.append_iff,
    Stores.append_iff] at blocks
  have blockStored := blocks.2.1
  have address : dataBegin + (loadUint32 memory.cells (dataBegin +
      (UInt32.ofNat (alignmentPadVector out 4).length).toNat +
        4 * ((UInt32.ofNat index).toNat / kElementsPerIndex))).toNat = dataBegin + before.length := by
    rw [UInt32.toNat_ofNat_of_lt' padded, indexNat, loaded, UInt32.toNat_ofNat_of_lt' beforeFits]
  rw [← address] at blockStored
  have result := @getOffset_of_stores
    (Accessor.create dataBegin (minimumOffset offsets) (UInt32.ofNat (alignmentPadVector out 4).length))
    memory (UInt32.ofNat index) (blockAt offsets (index / kElementsPerIndex)) (length_blockAt_le _ _)
    (by rw [indexNat]; exact present) blockStored
  rw [result, ← found]
  simp only [indexNat]

/-- `Build` and `GetOffset` round trip in both forms: every offset is read
back, as long as there are at most `2^32` of them, so that each index is a
`uint32_t`, and the blocks leave room for their padding below `2^32` bytes, so
that every position of the data is one. -/
theorem build_getOffset_round_trip (indexable : offsets.length ≤ 2 ^ 32)
    (fits : (writeBlocks offsets (minimumOffset offsets) 0 [] []).1.length + 4 ≤ 2 ^ 32) :
    (∀ (memory : TracedMemory UInt8) (dataBegin : Nat), Stores memory.cells dataBegin (build offsets).data →
      ∀ index (inside : index < offsets.length),
        (Accessor.create dataBegin (build offsets).minOffset (build offsets).tableOffset).getOffset memory
          (UInt32.ofNat index) = offsets[index]) ∧
    (∀ (memory : TracedMemory UInt8) (dataBegin : Nat),
      Stores memory.cells dataBegin (buildWithHeader offsets) →
      ∀ index (inside : index < offsets.length),
        (Accessor.ofHeader memory dataBegin).getOffset memory (UInt32.ofNat index) = offsets[index]) := by
  obtain ⟨out, offsetTable, written⟩ : ∃ out offsetTable,
      writeBlocks offsets (minimumOffset offsets) 0 [] [] = (out, offsetTable) := ⟨_, _, rfl⟩
  rw [written] at fits
  refine ⟨fun memory dataBegin stored index inside =>
    getOffset_create_build indexable written fits stored inside, ?_⟩
  intro memory dataBegin stored index inside
  rw [buildWithHeader, List.append_assoc, Stores.append_iff, Stores.append_iff] at stored
  obtain ⟨minimum, tableOffset, data⟩ := stored
  have wordLength (value : UInt32) : (uint32Bytes value).length = 4 := rfl
  rw [wordLength] at tableOffset
  rw [wordLength, wordLength, Nat.add_assoc] at data
  -- the header holds the minimum and the table offset of the three-argument form
  have header : Accessor.ofHeader memory dataBegin =
      Accessor.create (dataBegin + 8) (build offsets).minOffset (build offsets).tableOffset := by
    rw [Accessor.ofHeader, loadUint32_of_stores minimum, loadUint32_of_stores tableOffset]
  rw [header]
  exact getOffset_create_build indexable written fits data inside

theorem build_getOffset_round_trip_of_three :
    [0, 5, 3].length ≤ 2 ^ 32 ∧
      (writeBlocks [0, 5, 3] (minimumOffset [0, 5, 3]) 0 [] []).1.length + 4 ≤ 2 ^ 32 ∧
      (∀ (memory : TracedMemory UInt8) (dataBegin : Nat),
        Stores memory.cells dataBegin (build [0, 5, 3]).data →
        ∀ index (inside : index < [0, 5, 3].length),
          (Accessor.create dataBegin (build [0, 5, 3]).minOffset (build [0, 5, 3]).tableOffset).getOffset
            memory (UInt32.ofNat index) = [0, 5, 3][index]) ∧
      (∀ (memory : TracedMemory UInt8) (dataBegin : Nat),
        Stores memory.cells dataBegin (buildWithHeader [0, 5, 3]) →
        ∀ index (inside : index < [0, 5, 3].length),
          (Accessor.ofHeader memory dataBegin).getOffset memory (UInt32.ofNat index) = [0, 5, 3][index]) :=
  have fits : (writeBlocks [0, 5, 3] (minimumOffset [0, 5, 3]) 0 [] []).1.length + 4 ≤ 2 ^ 32 := by
    have bound := length_writeBlocks_le [0, 5, 3] (minimumOffset [0, 5, 3]) 0 [] []
    simp only [List.length_nil, List.length_cons] at bound
    omega
  ⟨by decide, fits, build_getOffset_round_trip (by decide) fits⟩

end RoundTrip

/-! ## Blocks past `2^32` bytes

Sixteen times 238609295 offsets, all 1, so that every block is a full mask and
sixteen zero deltas, 18 bytes. The blocks fill `2^32 + 14` bytes, two bytes of
padding make `2^32 + 16`, and the table offset is stored as 16. -/

section Wrapping

def wrappingBlocks : Nat := 238609295

def wrappingOffsets : List UInt32 := List.replicate (kElementsPerIndex * wrappingBlocks) 1

theorem length_wrappingOffsets : wrappingOffsets.length = 3817748720 := by
  rw [wrappingOffsets, List.length_replicate]
  decide

theorem getElem?_wrappingOffsets_zero : wrappingOffsets[0]? = some 1 := by
  rw [wrappingOffsets, List.getElem?_replicate, if_pos (by decide)]

/-- The bytes of a block of sixteen offsets equal to the minimum. -/
def fullBlockBytes : List UInt8 := [255, 255] ++ List.replicate 16 0

theorem deltaBytes_replicate_one (count : Nat) :
    deltaBytes 1 (List.replicate count 1) = List.replicate count 0 := by
  have zero : unsignedLeb128Bytes 0 = [0] := by
    simp [unsignedLeb128Bytes_eq, unsignedGroups, continuationBytes]
  induction count with
  | zero => rfl
  | succ count ih =>
    rw [List.replicate_succ, deltaBytes, UInt32.sub_self, zero, ih]
    rfl

theorem writeBlock_replicate_one :
    writeBlock [] 1 (List.replicate kElementsPerIndex 1) = fullBlockBytes := by
  have mask : blockBitMask (List.replicate kElementsPerIndex 1) = 65535 := by decide
  have kept : (List.replicate kElementsPerIndex (1 : UInt32)).filter (· ≠ 0) =
      List.replicate 16 1 := by decide
  rw [writeBlock_eq, mask, kept, deltaBytes_replicate_one]
  rfl

theorem minimumOffset_replicate_one {count : Nat} (nonempty : 0 < count) :
    minimumOffset (List.replicate count 1) = 1 := by
  -- after the first offset the minimum stays at one
  have stays : ∀ rest, (List.replicate rest (1 : UInt32)).foldl
      (fun minOffset offset => if offset ≠ 0 then min minOffset offset else minOffset) 1 = 1 := by
    intro rest
    induction rest with
    | zero => rfl
    | succ rest ih => rw [List.replicate_succ, List.foldl_cons]; exact ih
  obtain ⟨rest, rfl⟩ : ∃ rest, count = rest + 1 := ⟨count - 1, by omega⟩
  rw [minimumOffset, List.replicate_succ, List.foldl_cons]
  exact stays rest

theorem writeBlocks_wrappingOffsets (remaining : Nat) :
    ∀ (written : Nat) (out : List UInt8) (offsetTable : List UInt32),
      written + remaining = wrappingBlocks →
      (writeBlocks wrappingOffsets 1 (kElementsPerIndex * written) out offsetTable).1 =
        out ++ (List.replicate remaining fullBlockBytes).flatten := by
  induction remaining with
  | zero =>
    intro written out offsetTable total
    have past : ¬ kElementsPerIndex * written < wrappingOffsets.length := by
      simp only [wrappingOffsets, List.length_replicate, kElementsPerIndex]
      omega
    rw [writeBlocks, if_neg past]
    simp
  | succ remaining ih =>
    intro written out offsetTable total
    have within : kElementsPerIndex * written < wrappingOffsets.length := by
      simp only [wrappingOffsets, List.length_replicate, kElementsPerIndex]
      omega
    have blockSize : min (wrappingOffsets.length - kElementsPerIndex * written) kElementsPerIndex =
        kElementsPerIndex := by
      simp only [wrappingOffsets, List.length_replicate, kElementsPerIndex]
      omega
    have block : (wrappingOffsets.drop (kElementsPerIndex * written)).take kElementsPerIndex =
        List.replicate kElementsPerIndex 1 := by
      have sized : min kElementsPerIndex
          (kElementsPerIndex * wrappingBlocks - kElementsPerIndex * written) = kElementsPerIndex := by
        simp only [kElementsPerIndex]
        omega
      rw [wrappingOffsets, List.drop_replicate, List.take_replicate, sized]
    rw [writeBlocks, if_pos within]
    simp only [blockSize, block]
    rw [show kElementsPerIndex * written + kElementsPerIndex = kElementsPerIndex * (written + 1) by
        rw [Nat.mul_succ],
      ih (written + 1) _ _ (by omega), writeBlock_append, writeBlock_replicate_one,
      List.replicate_succ, List.flatten_cons, List.append_assoc]

theorem length_flatten_fullBlockBytes (count : Nat) :
    (List.replicate count fullBlockBytes).flatten.length = 18 * count := by
  rw [List.length_flatten]
  simp [fullBlockBytes, List.sum_replicate, Nat.mul_comm]

theorem getElem?_flatten_replicate {α : Type} (pattern : List α) (count : Nat) :
    ∀ index < count * pattern.length,
      (List.replicate count pattern).flatten[index]? = pattern[index % pattern.length]? := by
  induction count with
  | zero => intro index inside; simp at inside
  | succ count ih =>
    intro index inside
    rw [List.replicate_succ, List.flatten_cons]
    by_cases first : index < pattern.length
    · rw [List.getElem?_append_left first, Nat.mod_eq_of_lt first]
    · rw [List.getElem?_append_right (Nat.le_of_not_lt first),
        ih (index - pattern.length) (by rw [Nat.succ_mul] at inside; omega),
        ← Nat.mod_eq_sub_mod (Nat.le_of_not_lt first)]

/-- What `Build` writes for `wrappingOffsets`: the blocks, two bytes of
padding, the table, and the wrapped table offset. -/
theorem build_wrappingOffsets : ∃ offsetTable : List UInt32,
    (build wrappingOffsets).data =
      (List.replicate wrappingBlocks fullBlockBytes).flatten ++ [0, 0] ++
        offsetTable.flatMap uint32Bytes ∧
    (build wrappingOffsets).minOffset = 1 ∧ (build wrappingOffsets).tableOffset = 16 := by
  have minimum : minimumOffset wrappingOffsets = 1 :=
    minimumOffset_replicate_one (by simp [kElementsPerIndex, wrappingBlocks])
  -- named without unfolding: the kernel would otherwise run the loop on every offset
  rcases written : writeBlocks wrappingOffsets (minimumOffset wrappingOffsets) 0 [] [] with
    ⟨out, offsetTable⟩
  have blocks := writeBlocks_wrappingOffsets wrappingBlocks 0 [] [] (Nat.zero_add _)
  rw [Nat.mul_zero, ← minimum, written] at blocks
  dsimp only at blocks
  have size : out.length = 18 * wrappingBlocks := by
    rw [blocks, List.nil_append, length_flatten_fullBlockBytes]
  have padSize : (4 - 18 * wrappingBlocks % 4) % 4 = 2 := by
    simp only [wrappingBlocks]
  have padding : alignmentPadVector out 4 = out ++ [0, 0] := by
    rw [alignmentPadVector, size, padSize]
    rfl
  have padded : (out ++ [0, 0]).length = 2 ^ 32 + 16 := by
    rw [List.length_append, size]
    simp [wrappingBlocks]
  refine ⟨offsetTable, ?_, ?_, ?_⟩
  · rw [build_eq written, padding, blocks, List.nil_append]
  · rw [build_eq written, minimum]
  · rw [build_eq written, padding, padded]
    dsimp only
    decide

/-- Sixteen times 238609295 offsets, every one 1, so fewer than `2^32`:
`Build` stores the table offset `2^32 + 16` as 16, `GetOffset(0)` takes the
bytes 16 to 19 of the blocks, `0xFFFF0000`, for the position of block 0,
finds no mask bit there, and returns 0 for an offset of 1. -/
theorem getOffset_wrapped_table_offset {memory : TracedMemory UInt8} {dataBegin : Nat}
    (stored : Stores memory.cells dataBegin (build wrappingOffsets).data) :
    wrappingOffsets.length < 2 ^ 32 ∧ wrappingOffsets[0]? = some 1 ∧
      (build wrappingOffsets).tableOffset = 16 ∧
      (Accessor.create dataBegin (build wrappingOffsets).minOffset
        (build wrappingOffsets).tableOffset).getOffset memory 0 = 0 := by
  obtain ⟨offsetTable, data, minimum, tableOffset⟩ := build_wrappingOffsets
  rw [data, List.append_assoc] at stored
  have blockLength : fullBlockBytes.length = 18 := rfl
  -- a byte of the blocks is the byte of its place in a block
  have byteAt : ∀ index < wrappingBlocks * 18,
      memory.cells (dataBegin + index) = fullBlockBytes.getD (index % 18) 0 := by
    intro index inside
    have inBlocks : index < (List.replicate wrappingBlocks fullBlockBytes).flatten.length := by
      rw [length_flatten_fullBlockBytes]
      omega
    have inBlock : index % 18 < fullBlockBytes.length := by
      rw [blockLength]
      exact Nat.mod_lt _ (by decide)
    apply Stores.eq_of_getElem? stored
    rw [List.getElem?_append_left inBlocks,
      getElem?_flatten_replicate fullBlockBytes wrappingBlocks index (by rw [blockLength]; exact inside),
      blockLength, List.getD_eq_getElem?_getD, List.getElem?_eq_getElem inBlock]
    rfl
  have entry : loadUint32 memory.cells (dataBegin + 16) = 0xFFFF0000 := by
    simp only [loadUint32, Nat.add_assoc, Nat.reduceAdd, byteAt 16 (by decide), byteAt 17 (by decide),
      byteAt 18 (by decide), byteAt 19 (by decide)]
    decide
  have maskHigh := byteAt 4294901760 (by decide)
  have maskLow := byteAt 4294901761 (by decide)
  refine ⟨by rw [length_wrappingOffsets]; decide, getElem?_wrappingOffsets_zero, tableOffset, ?_⟩
  -- the kernel would evaluate `build` on every offset to reduce its projections
  rw [tableOffset, minimum]
  unfold Accessor.getOffset Accessor.create
  have table : (16 : UInt32).toNat = 16 := rfl
  have first : (0 : UInt32).toNat = 0 := rfl
  have block : (0xFFFF0000 : UInt32).toNat = 4294901760 := by decide
  simp only [table, first, Nat.zero_div, Nat.mul_zero, Nat.add_zero, Nat.zero_mod, entry, block,
    maskHigh, Nat.add_assoc, Nat.reduceAdd, maskLow]
  apply if_pos
  decide

/-- The memory that holds exactly what `Build` wrote, from address zero. -/
theorem getOffset_wrapped_table_offset_from_zero :
    Stores (fun address => (build wrappingOffsets).data.getD address 0) 0 (build wrappingOffsets).data ∧
      wrappingOffsets.length < 2 ^ 32 ∧ wrappingOffsets[0]? = some 1 ∧
      (build wrappingOffsets).tableOffset = 16 ∧
      (Accessor.create 0 (build wrappingOffsets).minOffset (build wrappingOffsets).tableOffset).getOffset
        ⟨fun address => (build wrappingOffsets).data.getD address 0, []⟩ 0 = 0 :=
  ⟨Stores.getD_self _ 0, getOffset_wrapped_table_offset (Stores.getD_self _ 0)⟩

end Wrapping

end ArtRuntime.Dex.CompactOffsetTable
