import Mathlib.Data.BitVec
import ArtRuntime.Foundation.ByteBuffer

/-! # Words as little-endian bytes

A 32-bit word in the memory of a little-endian machine: `bytesOf32` is what a
`memcpy` of the word writes, least significant byte first, and `ofBytes32` is
what a load of the four bytes reads back, from a list (`readBytes32`) or from
the cells of a memory (`readWord32`). -/

namespace ArtRuntime.Foundation

/-- The bytes of a 32-bit word, least significant first. -/
def bytesOf32 (value : BitVec 32) : List UInt8 :=
  [⟨value.extractLsb' 0 8⟩, ⟨value.extractLsb' 8 8⟩, ⟨value.extractLsb' 16 8⟩,
    ⟨value.extractLsb' 24 8⟩]

/-- The word of four bytes, the first of them the least significant. -/
def ofBytes32 (b0 b1 b2 b3 : UInt8) : BitVec 32 :=
  b3.toBitVec ++ b2.toBitVec ++ b1.toBitVec ++ b0.toBitVec

/-- The word of the first four bytes of a list, and the bytes after it. -/
def readBytes32 : List UInt8 → Option (BitVec 32 × List UInt8)
  | b0 :: b1 :: b2 :: b3 :: rest => some (ofBytes32 b0 b1 b2 b3, rest)
  | _ => none

@[simp] theorem length_bytesOf32 (value : BitVec 32) : (bytesOf32 value).length = 4 := rfl

theorem ofBytes32_bytesOf32 (value : BitVec 32) :
    ofBytes32 ⟨value.extractLsb' 0 8⟩ ⟨value.extractLsb' 8 8⟩ ⟨value.extractLsb' 16 8⟩
      ⟨value.extractLsb' 24 8⟩ = value := by
  apply BitVec.eq_of_getLsbD_eq
  intro i below
  simp only [ofBytes32, BitVec.getLsbD_append, BitVec.getLsbD_extractLsb']
  split_ifs with first second third
  · rw [decide_eq_true first, Bool.true_and, Nat.zero_add]
  · rw [decide_eq_true second, Bool.true_and, show 8 + (i - 8) = i by omega]
  · rw [decide_eq_true third, Bool.true_and, show 16 + (i - 8 - 8) = i by omega]
  · rw [decide_eq_true (by omega), Bool.true_and, show 24 + (i - 8 - 8 - 8) = i by omega]

@[simp] theorem readBytes32_bytesOf32 (value : BitVec 32) (rest : List UInt8) :
    readBytes32 (bytesOf32 value ++ rest) = some (value, rest) := by
  rw [bytesOf32, List.cons_append, List.cons_append, List.cons_append, List.cons_append,
    List.nil_append, readBytes32, ofBytes32_bytesOf32]

/-- The word of the four cells from `address`, as a load of a 32-bit word reads it. -/
def readWord32 (cells : Nat → UInt8) (address : Nat) : BitVec 32 :=
  ofBytes32 (cells address) (cells (address + 1)) (cells (address + 2)) (cells (address + 3))

theorem readWord32_of_stores {cells : Nat → UInt8} {address : Nat} {value : BitVec 32}
    (stored : Stores cells address (bytesOf32 value)) : readWord32 cells address = value := by
  have read : ∀ index (inside : index < 4), cells (address + index) = (bytesOf32 value)[index] := stored
  rw [readWord32, show cells address = _ from read 0 (by decide), read 1 (by decide),
    read 2 (by decide), read 3 (by decide)]
  exact ofBytes32_bytesOf32 value

end ArtRuntime.Foundation
