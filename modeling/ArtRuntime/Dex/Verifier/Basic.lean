import ArtRuntime.Base.Leb128

/-! # The dex file verifier

The part of `DexFileVerifier` (`libdexfile/dex/dex_file_verifier.cc`) that the
modelled checks share: the image `[begin_, begin_ + size_)`, the cursor `ptr_`,
`failure_reason_`, and the decoding macros. Addresses are absolute. The memory
around the image is part of the model, so that a read outside the image is a
read of some byte, logged like any other. -/

namespace ArtRuntime.Dex.Verifier

open ArtRuntime.Foundation ArtRuntime.Base.Leb128

/-- An argument of an `ErrorStringPrintf` format. -/
inductive FormatArgument where
  | number (value : Nat)
  | text (value : String)
  deriving DecidableEq, Repr

/-- The message `ErrorStringPrintf(fmt, ...)` appends to `failure_reason_`,
kept as its format and arguments. -/
structure FailureReason where
  format : String
  arguments : List FormatArgument
  deriving DecidableEq, Repr

/-- The fields of `DexFileVerifier` the modelled checks read and write. -/
structure DexFileVerifier where
  begin : Nat
  size : Nat
  memory : TracedMemory UInt8
  ptr : Nat
  failureReason : Option FailureReason

namespace DexFileVerifier

/-- `begin_ + size_`. -/
def fileEnd (verifier : DexFileVerifier) : Nat :=
  verifier.begin + verifier.size

/-- `ErrorStringPrintf`: record why verification failed. -/
def errorStringPrintf (verifier : DexFileVerifier) (format : String)
    (arguments : List FormatArgument) : DexFileVerifier :=
  { verifier with failureReason := some ⟨format, arguments⟩ }

/-- A read of one byte of memory, anywhere. -/
def readByte (verifier : DexFileVerifier) (address : Nat) : UInt8 × DexFileVerifier :=
  let (byte, memory) := verifier.memory.read address
  (byte, { verifier with memory })

/-- `DECODE_UNSIGNED_CHECKED_FROM(ptr, var)`: decode up to `begin_ + size_`, or
fail with "Read out of bounds". -/
def decodeUnsignedCheckedFrom (verifier : DexFileVerifier) (ptr : Nat) :
    Option (UInt32 × Nat) × DexFileVerifier :=
  match decodeUnsignedLeb128Checked verifier.memory ptr verifier.fileEnd with
  | (some decoded, memory) => (some decoded, { verifier with memory })
  | (none, memory) => (none, { verifier with memory }.errorStringPrintf "Read out of bounds" [])

/-- `DECODE_SIGNED_CHECKED_FROM(ptr, var)`. -/
def decodeSignedCheckedFrom (verifier : DexFileVerifier) (ptr : Nat) :
    Option (Int × Nat) × DexFileVerifier :=
  match decodeSignedLeb128Checked verifier.memory ptr verifier.fileEnd with
  | (some decoded, memory) => (some decoded, { verifier with memory })
  | (none, memory) => (none, { verifier with memory }.errorStringPrintf "Read out of bounds" [])

end DexFileVerifier

end ArtRuntime.Dex.Verifier
