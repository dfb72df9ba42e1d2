import ArtRuntime.Foundation.TracedMemory
import ArtRuntime.Foundation.ByteBuffer
import ArtRuntime.Base.BitUtils
import Mathlib.Data.Int.Bitwise

/-! # LEB128 decoding

The decoders of `libartbase/base/leb128.h`. All four walk the same bytes: at
most five, a byte with its high bit clear ends the value early, and the fifth
byte is or-ed in whole (its four high bits are tolerated as garbage). The
checked ones test `ptr < end` before every byte and leave the cursor alone
when a test fails. The value is built in an `int`, so a fifth byte can carry
past bit 31; `static_cast<uint32_t>` keeps the low 32 bits. -/

namespace ArtRuntime.Base.Leb128

open ArtRuntime.Foundation ArtRuntime.Base

/-- The byte walk shared by the decoders, from the byte at `address` on, with
`shift` the position of its payload and `payload` the bits read so far.
`inBounds` is tested before each byte. Returns the payload and the address
after the last byte read, or `none` when a test fails. -/
def readLeb128Bytes (inBounds : Nat → Bool) (memory : TracedMemory UInt8)
    (address shift payload : Nat) : Nat → Option (Nat × Nat) × TracedMemory UInt8
  | 0 =>
      if inBounds address then
        let (cur, memory) := memory.read address
        (some (payload ||| (cur.toNat <<< shift), address + 1), memory)
      else (none, memory)
  | remaining + 1 =>
      if inBounds address then
        let (cur, memory) := memory.read address
        let payload := payload ||| ((cur.toNat &&& 0x7f) <<< shift)
        if cur.toNat ≤ 0x7f then (some (payload, address + 1), memory)
        else readLeb128Bytes inBounds memory (address + 1) (shift + 7) payload remaining
      else (none, memory)

/-- The signed value of `count` payload bytes: `(result << k) >> k` sign-extends
the low `7 * count` bits; five bytes are taken as a whole `int32_t`. -/
def signedValue (payload count : Nat) : Int :=
  if count < 5 then (BitVec.ofNat (7 * count) payload).toInt
  else (BitVec.ofNat 32 payload).toInt

/-- `DecodeUnsignedLeb128Checked(&ptr, end, &out)`. -/
def decodeUnsignedLeb128Checked (memory : TracedMemory UInt8) (ptr limit : Nat) :
    Option (UInt32 × Nat) × TracedMemory UInt8 :=
  match readLeb128Bytes (fun address => decide (address < limit)) memory ptr 0 0 4 with
  | (some (payload, next), memory) => (some (UInt32.ofNat payload, next), memory)
  | (none, memory) => (none, memory)

/-- `DecodeSignedLeb128Checked(&ptr, end, &out)`. -/
def decodeSignedLeb128Checked (memory : TracedMemory UInt8) (ptr limit : Nat) :
    Option (Int × Nat) × TracedMemory UInt8 :=
  match readLeb128Bytes (fun address => decide (address < limit)) memory ptr 0 0 4 with
  | (some (payload, next), memory) => (some (signedValue payload (next - ptr), next), memory)
  | (none, memory) => (none, memory)

/-- `DecodeUnsignedLeb128(&ptr)`: nothing is tested, so the walk always ends
with a value and the `none` case cannot occur. -/
def decodeUnsignedLeb128 (memory : TracedMemory UInt8) (ptr : Nat) :
    UInt32 × Nat × TracedMemory UInt8 :=
  match readLeb128Bytes (fun _ => true) memory ptr 0 0 4 with
  | (some (payload, next), memory) => (UInt32.ofNat payload, next, memory)
  | (none, memory) => (0, ptr, memory)

/-- `DecodeSignedLeb128(&ptr)`. -/
def decodeSignedLeb128 (memory : TracedMemory UInt8) (ptr : Nat) : Int × Nat × TracedMemory UInt8 :=
  match readLeb128Bytes (fun _ => true) memory ptr 0 0 4 with
  | (some (payload, next), memory) => (signedValue payload (next - ptr), next, memory)
  | (none, memory) => (0, ptr, memory)

/-! ## Encoding -/

/-- `UnsignedLeb128Size`: `6 + 32 - CLZ(data | 1)` is the number of bits to
encode plus six, and multiplying by 37 then shifting by 8 divides it by 7. -/
def unsignedLeb128Size (data : UInt32) : Nat :=
  let x := 6 + 32 - clz 32 (data.toNat ||| 1)
  (x * 37) >>> 8

/-- `SignedLeb128Size`: `data ^ (data >> 31)` clears the sign bits, and one more
bit is needed for the sign. -/
def signedLeb128Size (data : Int32) : Nat :=
  let data := (Int.xor data.toInt (data.toInt >>> (31 : Nat))).toNat
  let x := 1 + 6 + 32 - clz 32 (data ||| 1)
  (x * 37) >>> 8

/-- The loop of `EncodeUnsignedLeb128`: `out` is the byte held back, `value` the
bits not yet taken. -/
def encodeUnsignedLeb128Loop (out value : Nat) : List UInt8 :=
  if value ≠ 0 then
    UInt8.ofNat (out ||| 0x80) :: encodeUnsignedLeb128Loop (value &&& 0x7f) (value >>> 7)
  else [UInt8.ofNat out]
termination_by value
decreasing_by
  rw [Nat.shiftRight_eq_div_pow]
  omega

/-- The bytes `EncodeUnsignedLeb128` emits for `value`. -/
def unsignedLeb128Bytes (value : UInt32) : List UInt8 :=
  encodeUnsignedLeb128Loop (value.toNat &&& 0x7f) (value.toNat >>> 7)

/-- `EncodeUnsignedLeb128(uint8_t* dest, value)`: the memory after the writes
and the pointer past the last byte. -/
def encodeUnsignedLeb128At (memory : Nat → UInt8) (dest : Nat) (value : UInt32) :
    (Nat → UInt8) × Nat :=
  (writeList memory dest (unsignedLeb128Bytes value), dest + (unsignedLeb128Bytes value).length)

/-- `EncodeUnsignedLeb128(Vector* dest, value)`. -/
def encodeUnsignedLeb128 (dest : List UInt8) (value : UInt32) : List UInt8 :=
  dest ++ unsignedLeb128Bytes value

/-- The loop of `EncodeSignedLeb128`: `value` is shifted arithmetically, and the
loop ends when `extraBits`, the magnitude bits beyond the current byte's six
payload bits, run out. -/
def encodeSignedLeb128Loop (out : Nat) (value : Int) (extraBits : Nat) : List UInt8 :=
  if extraBits ≠ 0 then
    UInt8.ofNat (out ||| 0x80) ::
      encodeSignedLeb128Loop ((value >>> (7 : Nat)) % 0x80).toNat (value >>> (7 : Nat)) (extraBits >>> 7)
  else [UInt8.ofNat out]
termination_by extraBits
decreasing_by
  rw [Nat.shiftRight_eq_div_pow]
  omega

/-- The bytes `EncodeSignedLeb128` emits for `value`; `value & 0x7f` of an
`int32_t` is its residue modulo 128. -/
def signedLeb128Bytes (value : Int32) : List UInt8 :=
  let extraBits := (Int.xor value.toInt (value.toInt >>> (31 : Nat))).toNat >>> 6
  encodeSignedLeb128Loop (value.toInt % 0x80).toNat value.toInt extraBits

/-- `EncodeSignedLeb128(uint8_t* dest, value)`. -/
def encodeSignedLeb128At (memory : Nat → UInt8) (dest : Nat) (value : Int32) :
    (Nat → UInt8) × Nat :=
  (writeList memory dest (signedLeb128Bytes value), dest + (signedLeb128Bytes value).length)

/-- `EncodeSignedLeb128(Vector* dest, value)`. -/
def encodeSignedLeb128 (dest : List UInt8) (value : Int32) : List UInt8 :=
  dest ++ signedLeb128Bytes value

/-! ## Where the walk reads -/

end ArtRuntime.Base.Leb128
