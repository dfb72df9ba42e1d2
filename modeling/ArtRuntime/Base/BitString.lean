import ArtRuntime.Foundation.BitField

/-! # Bit strings

`libartbase/base/bit_string.h`: a string of at most `kCapacity` characters packed
in one 32-bit word, the first character in the least significant bits, the
character at position `i` taking `kBitSizeAtPosition[i]` bits. The bits above the
last position are always zero; here that is a field of the structure.

`charAt` reads the data of a character. The lemmas of the second part say what
each operation does to the characters, and that the characters determine the
string; later proofs reason about characters only.
-/

namespace ArtRuntime.Base

open ArtRuntime.Foundation

/-- `BitStringChar`: the data of a character and the bit length of its position. -/
structure BitStringChar where
  data : Nat := 0
  bitlength : Nat := 0
  deriving DecidableEq, Repr

namespace BitStringChar

/-- `MaximumValue()`: all the bits of the position set. -/
def maximumValue (bitchar : BitStringChar) : BitStringChar :=
  { data := 2 ^ bitchar.bitlength - 1, bitlength := bitchar.bitlength }

/-- `operator+(storage)`. -/
def add (bitchar : BitStringChar) (storage : Nat) : BitStringChar :=
  { bitchar with data := bitchar.data + storage }

end BitStringChar

def kBitSizeAtPosition : List Nat := [12, 4, 11]

def kCapacity : Nat := kBitSizeAtPosition.length

/-- `GetBitLengthTotalAtPosition(position)`: the bits of the characters before `position`. -/
def getBitLengthTotalAtPosition (position : Nat) : Nat :=
  (kBitSizeAtPosition.take position).sum

def getLsbForPosition (position : Nat) : Nat :=
  getBitLengthTotalAtPosition position

/-- `kBitSizeAtPosition[position]`; the code only reads positions below `kCapacity`. -/
def bitSizeAt (position : Nat) : Nat :=
  kBitSizeAtPosition.getD position 0

/-- `BitStructSizeOf()`: the bits a bit string occupies. -/
def bitStructSizeOf : Nat :=
  getBitLengthTotalAtPosition kCapacity

@[simp] theorem kCapacity_eq : kCapacity = 3 := rfl

@[simp] theorem bitStructSizeOf_eq : bitStructSizeOf = 27 := rfl

@[simp] theorem getLsbForPosition_zero : getLsbForPosition 0 = 0 := rfl

@[simp] theorem getLsbForPosition_one : getLsbForPosition 1 = 12 := rfl

@[simp] theorem getLsbForPosition_two : getLsbForPosition 2 = 16 := rfl

@[simp] theorem getLsbForPosition_of_ge {position : Nat} (past : 3 ≤ position) :
    getLsbForPosition position = 27 := by
  rw [getLsbForPosition, getBitLengthTotalAtPosition,
    List.take_of_length_le (by simpa [kBitSizeAtPosition] using past)]
  rfl

@[simp] theorem getBitLengthTotalAtPosition_eq (position : Nat) :
    getBitLengthTotalAtPosition position = getLsbForPosition position := rfl

@[simp] theorem bitSizeAt_zero : bitSizeAt 0 = 12 := rfl

@[simp] theorem bitSizeAt_one : bitSizeAt 1 = 4 := rfl

@[simp] theorem bitSizeAt_two : bitSizeAt 2 = 11 := rfl

@[simp] theorem bitSizeAt_of_ge {position : Nat} (past : 3 ≤ position) : bitSizeAt position = 0 := by
  rw [bitSizeAt, List.getD_eq_getElem?_getD,
    List.getElem?_eq_none (by simpa [kBitSizeAtPosition] using past)]
  rfl

theorem field_fits (position : Nat) : getLsbForPosition position + bitSizeAt position ≤ 27 := by
  rcases position with _ | _ | _ | position <;> simp

structure BitString where
  storage : BitVec 32
  unusedZero : storage.toNat < 2 ^ bitStructSizeOf

namespace BitString

instance : DecidableEq BitString := fun a b =>
  decidable_of_iff (a.storage = b.storage) (by cases a; cases b; simp)

/-- `BitString{}`: all characters zero. -/
def empty : BitString :=
  ⟨0#32, by rw [BitVec.toNat_ofNat]; exact Nat.lt_of_le_of_lt (Nat.zero_le _) (Nat.two_pow_pos _)⟩

/-- `operator[](idx)`. -/
def get (bs : BitString) (idx : Nat) : BitStringChar :=
  { data := (bitFieldExtract bs.storage (getLsbForPosition idx) (bitSizeAt idx)).toNat
    bitlength := bitSizeAt idx }

/-- `SetAt(idx, bitchar)`. -/
def setAt (bs : BitString) (idx : Nat) (bitchar : BitStringChar) : BitString :=
  ⟨bitFieldInsert bs.storage (BitVec.ofNat 32 bitchar.data) (getLsbForPosition idx) (bitSizeAt idx),
    toNat_bitFieldInsert_lt bs.unusedZero _ (by rw [bitStructSizeOf_eq]; exact field_fits idx)⟩

/-- The loop of `Length()` from position `i` down: how many characters at the end are zero. -/
def trailingZeros (bs : BitString) : Nat → Nat
  | 0 => if (bs.get 0).data ≠ 0 then 0 else 1
  | i + 1 => if (bs.get (i + 1)).data ≠ 0 then 0 else bs.trailingZeros i + 1

/-- `Length()`: trailing zero characters do not count, zeros in between do. -/
def length (bs : BitString) : Nat :=
  kCapacity - bs.trailingZeros (kCapacity - 1)

/-- `IsEmpty()`. -/
def isEmpty (bs : BitString) : Bool :=
  decide (bs = empty)

/-- `Truncate(end)`: the characters from `endPos` on become zero. -/
def truncate (bs : BitString) (endPos : Nat) : BitString :=
  if endPos < kCapacity then
    let lsb := getLsbForPosition endPos
    let bitSize := getLsbForPosition kCapacity - lsb
    ⟨bitFieldClear bs.storage lsb bitSize, toNat_bitFieldClear_lt bs.unusedZero _ _⟩
  else bs

/-! ## Characters -/

/-- The data of the character at a position. -/
def charAt (bs : BitString) (idx : Nat) : Nat :=
  (bs.get idx).data

@[simp] theorem get_data (bs : BitString) (idx : Nat) : (bs.get idx).data = bs.charAt idx := rfl

@[simp] theorem get_bitlength (bs : BitString) (idx : Nat) : (bs.get idx).bitlength = bitSizeAt idx :=
  rfl

theorem ext_storage {a b : BitString} (same : a.storage = b.storage) : a = b := by
  cases a
  cases b
  cases same
  rfl

theorem testBit_charAt (bs : BitString) (idx j : Nat) :
    (bs.charAt idx).testBit j =
      (decide (j < bitSizeAt idx) && bs.storage.getLsbD (getLsbForPosition idx + j)) := by
  rw [charAt, get, BitVec.testBit_toNat, getLsbD_bitFieldExtract]
  by_cases inside : j < bitSizeAt idx
  · have narrow : j < 32 := by
      have := field_fits idx
      omega
    simp [inside, narrow]
  · simp [inside]

theorem charAt_lt (bs : BitString) (idx : Nat) : bs.charAt idx < 2 ^ bitSizeAt idx :=
  Nat.lt_pow_two_of_testBit _ fun j above => by
    rw [testBit_charAt, decide_eq_false (by omega), Bool.false_and]

theorem charAt_of_ge (bs : BitString) {idx : Nat} (past : kCapacity ≤ idx) : bs.charAt idx = 0 := by
  have below := bs.charAt_lt idx
  rw [bitSizeAt_of_ge (by simpa using past)] at below
  omega

theorem exists_field {i : Nat} (inside : i < 27) :
    ∃ idx < kCapacity, ∃ j < bitSizeAt idx, getLsbForPosition idx + j = i := by
  by_cases first : i < 12
  · exact ⟨0, by decide, i, by simpa using first, by simp⟩
  by_cases second : i < 16
  · exact ⟨1, by decide, i - 12, by simp; omega, by simp; omega⟩
  · exact ⟨2, by decide, i - 16, by simp; omega, by simp; omega⟩

theorem ext_charAt {a b : BitString} (same : ∀ idx < kCapacity, a.charAt idx = b.charAt idx) :
    a = b := by
  apply ext_storage
  apply BitVec.eq_of_getLsbD_eq_iff.mpr
  intro i _
  by_cases inside : i < 27
  · obtain ⟨idx, idxLt, j, jLt, located⟩ := exists_field inside
    have bits := congrArg (fun value => Nat.testBit value j) (same idx idxLt)
    simp only [testBit_charAt, decide_eq_true jLt, Bool.true_and, located] at bits
    exact bits
  · have aHigh := a.unusedZero
    have bHigh := b.unusedZero
    rw [bitStructSizeOf_eq] at aHigh bHigh
    rw [getLsbD_eq_false_of_toNat_lt aHigh (by omega), getLsbD_eq_false_of_toNat_lt bHigh (by omega)]

@[simp] theorem charAt_empty (idx : Nat) : empty.charAt idx = 0 := by
  apply Nat.eq_of_testBit_eq
  intro j
  simp [testBit_charAt, empty]

theorem isEmpty_iff (bs : BitString) :
    bs.isEmpty = true ↔ ∀ idx < kCapacity, bs.charAt idx = 0 := by
  rw [isEmpty, decide_eq_true_iff]
  constructor
  · rintro rfl idx _
    exact charAt_empty idx
  · intro zero
    exact ext_charAt fun idx inside => by rw [zero idx inside, charAt_empty]

theorem fields_disjoint {idx other j : Nat} (different : idx ≠ other) (jLt : j < bitSizeAt other) :
    ¬(getLsbForPosition idx ≤ getLsbForPosition other + j ∧
      getLsbForPosition other + j < getLsbForPosition idx + bitSizeAt idx) := by
  rcases idx with _ | _ | _ | idx <;> rcases other with _ | _ | _ | other <;>
    simp at jLt different ⊢ <;> omega

theorem charAt_setAt_self (bs : BitString) (idx : Nat) (bitchar : BitStringChar)
    (fits : bitchar.data < 2 ^ bitSizeAt idx) : (bs.setAt idx bitchar).charAt idx = bitchar.data := by
  apply Nat.eq_of_testBit_eq
  intro j
  rw [testBit_charAt]
  by_cases inside : j < bitSizeAt idx
  · have narrow : getLsbForPosition idx + j < 32 := by
      have := field_fits idx
      omega
    rw [decide_eq_true inside, Bool.true_and, setAt, getLsbD_bitFieldInsert, if_pos ⟨by omega, by omega⟩,
      decide_eq_true narrow, Bool.true_and, Nat.add_sub_cancel_left, BitVec.getLsbD_ofNat,
      decide_eq_true (by omega : j < 32), Bool.true_and]
  · rw [decide_eq_false inside, Bool.false_and,
      Nat.testBit_lt_two_pow (Nat.lt_of_lt_of_le fits (Nat.pow_le_pow_right (by decide) (by omega)))]

theorem charAt_setAt_of_ne (bs : BitString) {idx other : Nat} (bitchar : BitStringChar)
    (different : idx ≠ other) : (bs.setAt idx bitchar).charAt other = bs.charAt other := by
  apply Nat.eq_of_testBit_eq
  intro j
  rw [testBit_charAt, testBit_charAt]
  by_cases inside : j < bitSizeAt other
  · simp only [setAt, getLsbD_bitFieldInsert, if_neg (fields_disjoint different inside)]
  · simp [inside]

theorem truncate_storage {bs : BitString} {endPos : Nat} (short : endPos < kCapacity) :
    (bs.truncate endPos).storage =
      bitFieldClear bs.storage (getLsbForPosition endPos) (27 - getLsbForPosition endPos) := by
  rw [truncate, if_pos short]
  rfl

theorem truncate_of_ge (bs : BitString) {endPos : Nat} (long : kCapacity ≤ endPos) :
    bs.truncate endPos = bs := by
  rw [truncate, if_neg (by omega)]

theorem getLsbForPosition_mono {low high : Nat} (le : low ≤ high) :
    getLsbForPosition low ≤ getLsbForPosition high := by
  rcases low with _ | _ | _ | low <;> rcases high with _ | _ | _ | high <;> simp at le ⊢

theorem getLsbForPosition_succ (position : Nat) :
    getLsbForPosition (position + 1) = getLsbForPosition position + bitSizeAt position := by
  rcases position with _ | _ | _ | position <;> simp [bitSizeAt, kBitSizeAtPosition]

theorem field_le_of_lt {idx endPos : Nat} (before : idx < endPos) :
    getLsbForPosition idx + bitSizeAt idx ≤ getLsbForPosition endPos := by
  rw [← getLsbForPosition_succ]
  exact getLsbForPosition_mono before

theorem charAt_truncate (bs : BitString) (endPos : Nat) {idx : Nat} (inside : idx < kCapacity) :
    (bs.truncate endPos).charAt idx = if idx < endPos then bs.charAt idx else 0 := by
  by_cases short : endPos < kCapacity
  · apply Nat.eq_of_testBit_eq
    intro j
    rw [testBit_charAt, truncate_storage short, getLsbD_bitFieldClear]
    by_cases jLt : j < bitSizeAt idx
    · -- the field of `idx` lies wholly before or wholly after bit `getLsbForPosition endPos`
      have fits := field_fits idx
      split
      · rename_i kept
        have notCleared : ¬getLsbForPosition endPos ≤ getLsbForPosition idx + j := by
          have := field_le_of_lt kept
          omega
        rw [testBit_charAt]
        simp [notCleared]
      · rename_i cleared
        have clearedFrom : getLsbForPosition endPos ≤ getLsbForPosition idx + j := by
          have := getLsbForPosition_mono (Nat.le_of_not_lt cleared)
          omega
        have clearedUntil : getLsbForPosition idx + j < getLsbForPosition endPos + (27 - getLsbForPosition endPos) := by
          have := getLsbForPosition_mono (show endPos ≤ 3 by simp at short; omega)
          simp at this
          omega
        simp [clearedFrom, clearedUntil]
    · split <;> simp [jLt, testBit_charAt]
  · rw [truncate_of_ge bs (by omega), if_pos (by simp at short inside ⊢; omega)]

theorem length_eq (bs : BitString) :
    bs.length = if bs.charAt 2 ≠ 0 then 3 else if bs.charAt 1 ≠ 0 then 2
      else if bs.charAt 0 ≠ 0 then 1 else 0 := by
  have two : bs.trailingZeros 2 = if bs.charAt 2 ≠ 0 then 0 else bs.trailingZeros 1 + 1 := rfl
  have one : bs.trailingZeros 1 = if bs.charAt 1 ≠ 0 then 0 else bs.trailingZeros 0 + 1 := rfl
  have zero : bs.trailingZeros 0 = if bs.charAt 0 ≠ 0 then 0 else 1 := rfl
  rw [length, kCapacity_eq, show 3 - 1 = 2 from rfl, two, one, zero]
  split_ifs <;> rfl

theorem storage_and_mask_eq (bs : BitString) {k : Nat} (small : k ≤ kCapacity) :
    (bs.storage &&& maskLeastSignificant 32 (getBitLengthTotalAtPosition k)) =
      (bs.truncate k).storage := by
  have high := bs.unusedZero
  rw [bitStructSizeOf_eq] at high
  apply BitVec.eq_of_getLsbD_eq_iff.mpr
  intro i iLt
  rw [BitVec.getLsbD_and, getLsbD_maskLeastSignificant, getBitLengthTotalAtPosition_eq,
    decide_eq_true iLt, Bool.true_and]
  by_cases low : i < 27
  · by_cases short : k < kCapacity
    · have lsbLe : getLsbForPosition k ≤ 27 := by
        have := field_fits k
        omega
      rw [truncate_storage short, getLsbD_bitFieldClear]
      by_cases below : i < getLsbForPosition k
      · simp [below, show ¬getLsbForPosition k ≤ i by omega]
      · simp [below, show getLsbForPosition k ≤ i by omega,
          show i < getLsbForPosition k + (27 - getLsbForPosition k) by omega]
    · have whole : k = 3 := by simp at small short; omega
      subst whole
      rw [truncate_of_ge bs (by simp), getLsbForPosition_of_ge (le_refl 3), decide_eq_true low,
        Bool.and_true]
  · rw [getLsbD_eq_false_of_toNat_lt high (by omega), Bool.false_and,
      getLsbD_eq_false_of_toNat_lt (bs.truncate k).unusedZero (by simp; omega)]

/-- A truncated string is as long as where it was cut exactly when its last kept
character is not zero. -/
theorem length_truncate_eq_iff (bs : BitString) {k : Nat} (small : k ≤ kCapacity) :
    (bs.truncate k).length = k ↔ k = 0 ∨ bs.charAt (k - 1) ≠ 0 := by
  have at0 := bs.charAt_truncate k (show 0 < kCapacity by decide)
  have at1 := bs.charAt_truncate k (show 1 < kCapacity by decide)
  have at2 := bs.charAt_truncate k (show 2 < kCapacity by decide)
  rw [length_eq, at0, at1, at2]
  rcases k with _ | _ | _ | _ | k
  · simp
  · by_cases zero : bs.charAt 0 = 0 <;> simp [zero]
  · by_cases one : bs.charAt 1 = 0 <;> by_cases zero : bs.charAt 0 = 0 <;> simp [zero, one]
  · by_cases two : bs.charAt 2 = 0 <;> by_cases one : bs.charAt 1 = 0 <;>
      by_cases zero : bs.charAt 0 = 0 <;> simp [zero, one, two]
  · have capacity := kCapacity_eq
    omega

theorem length_le (bs : BitString) : bs.length ≤ kCapacity := by
  rw [length_eq]
  split_ifs <;> simp

end BitString

end ArtRuntime.Base
