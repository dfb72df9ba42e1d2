import ArtRuntime.Dex.Verifier.Basic

/-! # `CheckIntraStringDataItem`

A `string_data_item` is a ULEB128 count of UTF-16 units followed by that many
modified UTF-8 characters of one to three bytes and a NUL. The verifier tests
`ptr_ < begin_ + size_` before each lead byte only; the continuation bytes and
the NUL are read without a test. -/

namespace ArtRuntime.Dex.Verifier

open ArtRuntime.Foundation

namespace DexFileVerifier

/-- The body of the loop over the `utf16Size` characters, `remaining` of them
still to check. -/
def checkStringDataChars (utf16Size : UInt32) :
    Nat → DexFileVerifier → Bool × DexFileVerifier
  | 0, verifier => (true, verifier)
  | remaining + 1, verifier =>
      if verifier.ptr ≥ verifier.fileEnd then
        (false, verifier.errorStringPrintf "String data would go beyond end-of-file" [])
      else
        let (byte, verifier) := verifier.readByte verifier.ptr
        let verifier := { verifier with ptr := verifier.ptr + 1 }
        -- the switch on the high four bits of the lead byte
        match byte.toNat >>> 4 with
        | 0x00 =>
            if byte = 0 then
              (false, verifier.errorStringPrintf "String data shorter than indicated utf16_size %x"
                [.number utf16Size.toNat])
            else checkStringDataChars utf16Size remaining verifier
        | 0x08 | 0x09 | 0x0a | 0x0b | 0x0f =>
            (false, verifier.errorStringPrintf "Illegal start byte %x in string data"
              [.number byte.toNat])
        | 0x0c | 0x0d =>
            let (byte2, verifier) := verifier.readByte verifier.ptr
            let verifier := { verifier with ptr := verifier.ptr + 1 }
            if byte2.toNat &&& 0xc0 ≠ 0x80 then
              (false, verifier.errorStringPrintf "Illegal continuation byte %x in string data"
                [.number byte2.toNat])
            else
              let value := ((byte.toNat &&& 0x1f) <<< 6) ||| (byte2.toNat &&& 0x3f)
              if value ≠ 0 ∧ value < 0x80 then
                (false, verifier.errorStringPrintf
                  "Illegal representation for value %x in string data" [.number value])
              else checkStringDataChars utf16Size remaining verifier
        | 0x0e =>
            let (byte2, verifier) := verifier.readByte verifier.ptr
            let verifier := { verifier with ptr := verifier.ptr + 1 }
            if byte2.toNat &&& 0xc0 ≠ 0x80 then
              (false, verifier.errorStringPrintf "Illegal continuation byte %x in string data"
                [.number byte2.toNat])
            else
              let (byte3, verifier) := verifier.readByte verifier.ptr
              let verifier := { verifier with ptr := verifier.ptr + 1 }
              if byte3.toNat &&& 0xc0 ≠ 0x80 then
                (false, verifier.errorStringPrintf "Illegal continuation byte %x in string data"
                  [.number byte3.toNat])
              else
                let value := ((byte.toNat &&& 0x0f) <<< 12) ||| ((byte2.toNat &&& 0x3f) <<< 6) |||
                  (byte3.toNat &&& 0x3f)
                if value < 0x800 then
                  (false, verifier.errorStringPrintf
                    "Illegal representation for value %x in string data" [.number value])
                else checkStringDataChars utf16Size remaining verifier
        -- the cases 0x01 to 0x07: no further check
        | _ => checkStringDataChars utf16Size remaining verifier

/-- `DexFileVerifier::CheckIntraStringDataItem()`, run with `ptr_` at the item. -/
def checkIntraStringDataItem (verifier : DexFileVerifier) : Bool × DexFileVerifier :=
  match verifier.decodeUnsignedCheckedFrom verifier.ptr with
  | (none, verifier) => (false, verifier)
  | (some (size, ptr), verifier) =>
      match checkStringDataChars size size.toNat { verifier with ptr } with
      | (false, verifier) => (false, verifier)
      | (true, verifier) =>
          let (terminator, verifier) := verifier.readByte verifier.ptr
          let verifier := { verifier with ptr := verifier.ptr + 1 }
          if terminator ≠ 0 then
            (false, verifier.errorStringPrintf "String longer than indicated size %x"
              [.number size.toNat])
          else (true, verifier)

end DexFileVerifier

/-! ## A string that ends at the end of the image

The image is the two bytes `01 41`: one UTF-16 unit, the character `A`, and no
room left for the NUL. The byte after the image is zero, as it is when the
image ends inside a zero-filled page. -/

/-- Two bytes of image at address 0, zeros after it. -/
def truncatedStringImage (lastByte : UInt8) : DexFileVerifier where
  begin := 0
  size := 2
  memory := ⟨fun address => if address = 0 then 0x01 else if address = 1 then lastByte else 0, []⟩
  ptr := 0
  failureReason := none

/-- The check accepts the item after reading the NUL at address 2, one past
the image. -/
theorem checkIntraStringDataItem_reads_past_image :
    (DexFileVerifier.checkIntraStringDataItem (truncatedStringImage 0x41)).1 = true ∧
      (DexFileVerifier.checkIntraStringDataItem (truncatedStringImage 0x41)).2.memory.reads =
        [2, 1, 0] ∧
      (truncatedStringImage 0x41).fileEnd = 2 := by
  decide

end ArtRuntime.Dex.Verifier
