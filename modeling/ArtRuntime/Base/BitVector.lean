import Mathlib.Data.List.Basic

/-! # Bit vectors

`BitVector` of `libartbase/base/bit_vector.h`: `storage_size_` words of 32
bits. `IsBitSet` reads a bit of the storage and answers false past it;
`SetBit` first grows the storage of an expandable vector with `EnsureSize`.
The sizes are `uint32_t`: the number of bits of the storage, its number of
words `BitsToWords(idx + 1)`, and the rounding in it all wrap around.

At `idx = 0xFFFFFFFF` the count `idx + 1` wraps to zero and `EnsureSize`
asks for a storage of no words. Its `memcpy`, its `memset` and the write of
`SetBit` then run past the storage: undefined behaviour of the source, which
the model answers with `none`. -/

namespace ArtRuntime.Base

def kWordBits : BitVec 32 := 32

/-- `RoundUp` on `uint32_t`. -/
def roundUp (x n : BitVec 32) : BitVec 32 := (x + n - 1) &&& -n

/-- `BitsToWords`: the words that hold `bits` bits. -/
def bitsToWords (bits : BitVec 32) : BitVec 32 := roundUp bits kWordBits / kWordBits

/-- `WordIndex`. -/
def wordIndex (idx : BitVec 32) : BitVec 32 := idx >>> 5

/-- `BitMask`. -/
def bitMask (idx : BitVec 32) : BitVec 32 := (1 : BitVec 32) <<< (idx &&& 0x1f)

/-- The storage of a bit vector, of `storageSize` words. -/
structure BitVector where
  storage : List (BitVec 32)
  storageSize : BitVec 32
  expandable : Bool
  sized : storage.length = storageSize.toNat

namespace BitVector

/-- The word at an index of the storage. -/
def word (vector : BitVector) (index : BitVec 32) : BitVec 32 := vector.storage.getD index.toNat 0

/-- `IsBitSet`: a bit of the storage that is set. -/
def isBitSet (vector : BitVector) (idx : BitVec 32) : Bool :=
  decide (idx < vector.storageSize * kWordBits) && vector.word (wordIndex idx) &&& bitMask idx != 0

/-- `EnsureSize`: the storage grown to `BitsToWords(idx + 1)` words, the old
words copied and the new ones zero. A new size below the old one makes the
`memcpy` write past the new block, which is undefined. -/
def ensureSize (vector : BitVector) (idx : BitVec 32) : Option BitVector :=
  if vector.storageSize * kWordBits ≤ idx then
    let newSize := bitsToWords (idx + 1)
    if shrinks : newSize < vector.storageSize then none
    else some ⟨vector.storage ++ List.replicate (newSize.toNat - vector.storageSize.toNat) 0,
      newSize, vector.expandable, by
        rw [BitVec.not_lt, BitVec.le_def] at shrinks
        simp [vector.sized]
        omega⟩
  else some vector

/-- One word of the storage changed; a word past the storage is not. -/
def modifyWord (vector : BitVector) (index : BitVec 32) (change : BitVec 32 → BitVec 32) :
    BitVector :=
  ⟨vector.storage.modify index.toNat change, vector.storageSize, vector.expandable,
    by simp [vector.sized]⟩

/-- `SetBit`: the storage grown, then the mask or-ed into the bit's word; a
word past the storage is written out of bounds, which is undefined. -/
def setBit (vector : BitVector) (idx : BitVec 32) : Option BitVector := do
  let grown ← if vector.storageSize * kWordBits ≤ idx then vector.ensureSize idx else some vector
  if wordIndex idx < grown.storageSize then some (grown.modifyWord (wordIndex idx) (· ||| bitMask idx))
  else none

/-- `ClearBit`. -/
def clearBit (vector : BitVector) (idx : BitVec 32) : BitVector :=
  if idx < vector.storageSize * kWordBits then vector.modifyWord (wordIndex idx) (· &&& ~~~bitMask idx)
  else vector

/-- `SetBit(0xFFFFFFFF)` asks `EnsureSize` for `BitsToWords(0)` words: on a
vector with storage the copy into them overflows, and on one without the write
of the bit does. Either way the source's behaviour is undefined. -/
theorem setBit_max_is_undefined (vector : BitVector) : vector.setBit 0xFFFFFFFF = none := by
  have grows : vector.storageSize * kWordBits ≤ 0xFFFFFFFF := by bv_omega
  have noWords : bitsToWords (0xFFFFFFFF + 1) = 0 := by decide
  rw [setBit, if_pos grows, ensureSize, if_pos grows]
  simp only [noWords]
  by_cases empty : vector.storageSize = 0
  · -- no old words to copy: the write of word `0x7FFFFFF` overflows
    have past : ¬wordIndex 0xFFFFFFFF < 0 := by decide
    rw [dif_neg (by simp [empty])]
    simp only [Option.bind_eq_bind, Option.bind_some, if_neg past]
  · have shrinks : (0 : BitVec 32) < vector.storageSize := by bv_omega
    rw [dif_pos shrinks]
    rfl

end BitVector

end ArtRuntime.Base
