import ArtRuntime.Foundation.LittleEndian

/-! # Decoding the operands of an x86-64 instruction

The rules by which an x86-64 processor reads the register operand and the
memory operand of an instruction: an optional REX prefix `0100WRXB`, the
opcode, the ModRM byte (`mod`, `reg`, `rm`), a SIB byte (`scale`, `index`,
`base`) where `rm` is `100`, and an 8-bit or a 32-bit displacement where `mod`
is `01` or `10`. REX.R extends `reg`, REX.X extends the index and REX.B extends
`rm` or the base. With `mod = 00`, `rm = 101` is the address of the next
instruction plus a 32-bit displacement, and a SIB base of `101` is no base and
a 32-bit displacement; a SIB index of `100` without REX.X is no index. -/

namespace ArtRuntime.Foundation.X86

/-- The address a memory operand names. -/
inductive EffectiveAddress
  /-- `base + (index << scale) + disp`, each register by its number. -/
  | memory (base : Option Nat) (index : Option (Nat × Nat)) (disp : BitVec 32)
  /-- The address of the next instruction plus `disp`. -/
  | ripRelative (disp : BitVec 32)
  deriving DecidableEq, Repr

/-- The register operand and the memory operand of an instruction. -/
structure Operands where
  /-- REX.W: the operation is on 64 bits. -/
  wide : Bool
  reg : Nat
  address : EffectiveAddress
  deriving DecidableEq, Repr

def isRex (byte : UInt8) : Bool := byte.toNat / 16 == 4

/-- The fourth bit of a register number, from bit `bit` of the REX prefix. -/
def rexExtension (rex : UInt8) (bit : Nat) : Nat := if rex.toNat.testBit bit then 8 else 0

/-- The displacement that `mod` says follows, and the bytes after it. -/
def readDisplacement (mod : Nat) (bytes : List UInt8) : Option (BitVec 32 × List UInt8) :=
  if mod = 1 then
    match bytes with
    | byte :: rest => some (byte.toBitVec.signExtend 32, rest)
    | [] => none
  else if mod = 2 then readBytes32 bytes
  else some (0, bytes)

/-- The memory operand from the SIB byte on, under `mod` and the REX prefix
`rex`: the address and the bytes after it. -/
def decodeSib (rex : UInt8) (mod : Nat) : List UInt8 → Option (EffectiveAddress × List UInt8)
  | [] => none
  | sib :: rest =>
    let indexNumber := sib.toNat / 8 % 8 + rexExtension rex 1
    let index := if indexNumber = 4 then none else some (indexNumber, sib.toNat / 64)
    if mod = 0 ∧ sib.toNat % 8 = 5 then
      (readBytes32 rest).map fun (disp, rest) => (.memory none index disp, rest)
    else
      (readDisplacement mod rest).map fun (disp, rest) =>
        (.memory (some (sib.toNat % 8 + rexExtension rex 0)) index disp, rest)

/-- The operands from the ModRM byte on, under the REX prefix `rex` (zero where
there is none): the register, the address, and the bytes after them. -/
def decodeModRm (rex : UInt8) : List UInt8 → Option (Nat × EffectiveAddress × List UInt8)
  | [] => none
  | modRm :: rest =>
    let mod := modRm.toNat / 64
    let reg := modRm.toNat / 8 % 8 + rexExtension rex 2
    let rm := modRm.toNat % 8
    if mod = 3 then none
    else if rm = 4 then (decodeSib rex mod rest).map fun (address, rest) => (reg, address, rest)
    else if mod = 0 ∧ rm = 5 then
      (readBytes32 rest).map fun (disp, rest) => (reg, .ripRelative disp, rest)
    else
      (readDisplacement mod rest).map fun (disp, rest) =>
        (reg, .memory (some (rm + rexExtension rex 0)) none disp, rest)

/-- The operands of an instruction of `opcodeLength` opcode bytes, and the
bytes after it. -/
def decode (opcodeLength : Nat) (bytes : List UInt8) : Option (Operands × List UInt8) :=
  let (rex, rest) : UInt8 × List UInt8 := match bytes with
    | byte :: rest => if isRex byte then (byte, rest) else (0, bytes)
    | [] => (0, [])
  (decodeModRm rex (rest.drop opcodeLength)).map fun (reg, address, rest) =>
    (⟨rex.toNat.testBit 3, reg, address⟩, rest)

/-! ## The forms of an operand -/

theorem readDisplacement_zero (bytes : List UInt8) : readDisplacement 0 bytes = some (0, bytes) := rfl

theorem readDisplacement_one (byte : UInt8) (rest : List UInt8) :
    readDisplacement 1 (byte :: rest) = some (byte.toBitVec.signExtend 32, rest) := rfl

theorem readDisplacement_two (disp : BitVec 32) (rest : List UInt8) :
    readDisplacement 2 (bytesOf32 disp ++ rest) = some (disp, rest) := by
  unfold readDisplacement
  rw [if_neg (by decide), if_pos rfl, readBytes32_bytesOf32]

section Forms

variable {rex modRm sib : UInt8} {mod reg rm : Nat}

theorem decodeModRm_base (fields : modRm.toNat = mod * 64 + reg * 8 + rm) (regLt : reg < 8)
    (rmLt : rm < 8) (modLt : mod < 3) (noSib : rm ≠ 4) (noRip : ¬(mod = 0 ∧ rm = 5))
    (rest : List UInt8) :
    decodeModRm rex (modRm :: rest) = (readDisplacement mod rest).map fun (disp, rest) =>
      (reg + rexExtension rex 2, .memory (some (rm + rexExtension rex 0)) none disp, rest) := by
  have modEq : modRm.toNat / 64 = mod := by omega
  have regEq : modRm.toNat / 8 % 8 = reg := by omega
  have rmEq : modRm.toNat % 8 = rm := by omega
  simp only [decodeModRm, modEq, regEq, rmEq, if_neg (show mod ≠ 3 by omega), if_neg noSib,
    if_neg noRip]

theorem decodeModRm_rip (fields : modRm.toNat = reg * 8 + 5) (regLt : reg < 8) (disp : BitVec 32)
    (rest : List UInt8) :
    decodeModRm rex (modRm :: (bytesOf32 disp ++ rest)) =
      some (reg + rexExtension rex 2, .ripRelative disp, rest) := by
  have modEq : modRm.toNat / 64 = 0 := by omega
  have regEq : modRm.toNat / 8 % 8 = reg := by omega
  have rmEq : modRm.toNat % 8 = 5 := by omega
  simp only [decodeModRm, modEq, regEq, rmEq, readBytes32_bytesOf32]
  rfl

/-- The index a SIB byte names: none for `100` without REX.X. -/
def sibIndex (rex : UInt8) (index scale : Nat) : Option (Nat × Nat) :=
  if index + rexExtension rex 1 = 4 then none else some (index + rexExtension rex 1, scale)

variable {scale index base : Nat}

theorem decodeModRm_sib (fields : modRm.toNat = mod * 64 + reg * 8 + 4)
    (sibFields : sib.toNat = scale * 64 + index * 8 + base) (regLt : reg < 8) (modLt : mod < 3)
    (indexLt : index < 8) (baseLt : base < 8) (withBase : ¬(mod = 0 ∧ base = 5))
    (rest : List UInt8) :
    decodeModRm rex (modRm :: sib :: rest) = (readDisplacement mod rest).map fun (disp, rest) =>
      (reg + rexExtension rex 2, .memory (some (base + rexExtension rex 0)) (sibIndex rex index scale)
        disp, rest) := by
  have modEq : modRm.toNat / 64 = mod := by omega
  have regEq : modRm.toNat / 8 % 8 = reg := by omega
  have rmEq : modRm.toNat % 8 = 4 := by omega
  have scaleEq : sib.toNat / 64 = scale := by have := sib.toNat_lt; omega
  have indexEq : sib.toNat / 8 % 8 = index := by omega
  have baseEq : sib.toNat % 8 = base := by omega
  simp only [decodeModRm, decodeSib, modEq, regEq, rmEq, scaleEq, indexEq, baseEq, sibIndex,
    if_neg (show mod ≠ 3 by omega), if_neg withBase, if_true, Option.map_map]
  rfl

theorem decodeModRm_sib_noBase (fields : modRm.toNat = reg * 8 + 4)
    (sibFields : sib.toNat = scale * 64 + index * 8 + 5) (regLt : reg < 8) (indexLt : index < 8)
    (disp : BitVec 32) (rest : List UInt8) :
    decodeModRm rex (modRm :: sib :: (bytesOf32 disp ++ rest)) =
      some (reg + rexExtension rex 2, .memory none (sibIndex rex index scale) disp, rest) := by
  have modEq : modRm.toNat / 64 = 0 := by omega
  have regEq : modRm.toNat / 8 % 8 = reg := by omega
  have rmEq : modRm.toNat % 8 = 4 := by omega
  have scaleEq : sib.toNat / 64 = scale := by have := sib.toNat_lt; omega
  have indexEq : sib.toNat / 8 % 8 = index := by omega
  have baseEq : sib.toNat % 8 = 5 := by omega
  simp only [decodeModRm, decodeSib, modEq, regEq, rmEq, scaleEq, indexEq, baseEq, sibIndex,
    readBytes32_bytesOf32]
  rfl

end Forms

/-! ## The prefix -/

theorem decode_of_rex {rex : UInt8} (prefixed : isRex rex = true) (opcode : UInt8)
    (opcodeRest operand : List UInt8) :
    decode (opcodeRest.length + 1) (rex :: opcode :: (opcodeRest ++ operand)) =
      (decodeModRm rex operand).map fun (reg, address, rest) =>
        (⟨rex.toNat.testBit 3, reg, address⟩, rest) := by
  simp only [decode, prefixed, if_true]
  rw [← List.cons_append, ← List.length_cons, List.drop_left]

theorem decode_of_not_rex {opcode : UInt8} (unprefixed : isRex opcode = false)
    (opcodeRest operand : List UInt8) :
    decode (opcodeRest.length + 1) (opcode :: (opcodeRest ++ operand)) =
      (decodeModRm 0 operand).map fun (reg, address, rest) => (⟨false, reg, address⟩, rest) := by
  simp only [decode, unprefixed, Bool.false_eq_true, if_false]
  rw [← List.cons_append, ← List.length_cons, List.drop_left]
  rfl

end ArtRuntime.Foundation.X86
