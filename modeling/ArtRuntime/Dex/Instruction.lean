import Mathlib.Data.Vector.Basic
import Mathlib.Data.FinEnum

/-! # Dex instructions and their sizes

The size table of `libdexfile/dex/dex_instruction.cc`: every opcode has a format,
the format fixes the size in code units, and NOP alone is sized by looking at
its first unit, since the packed-switch, sparse-switch and array-data payloads
are NOP-encoded. `SafeDexInstructionIterator` steps over a code item with these
sizes and refuses a step that would read or jump past the end.

The instructions of a code item are a map from code-unit index to unit: a read
at or past `insns_size` yields whatever follows the array in the dex file. -/

namespace ArtRuntime.Dex.Instruction

/-- `Instruction::Format`, in the order of the enumeration: the size of a format
is read off its position in it. -/
inductive Format
  | k10x | k12x | k11n | k11x | k10t
  | k20t | k22x | k21t | k21s | k21h | k21c | k23x | k22b | k22t | k22s | k22c
  | k32x | k30t | k31t | k31i | k31c | k35c | k3rc
  | k45cc | k4rcc
  | k51l
  deriving DecidableEq, Repr

set_option maxRecDepth 4000 in
/-- The format column of `DEX_INSTRUCTION_LIST`, one entry per opcode. -/
def kInstructionFormats : Vector Format 256 :=
  #v[
    -- 0x00 NOP .. 0x07 MOVE_OBJECT
    .k10x, .k12x, .k22x, .k32x, .k12x, .k22x, .k32x, .k12x,
    -- 0x08 MOVE_OBJECT_FROM16 .. 0x0F RETURN
    .k22x, .k32x, .k11x, .k11x, .k11x, .k11x, .k10x, .k11x,
    -- 0x10 RETURN_WIDE .. 0x17 CONST_WIDE_32
    .k11x, .k11x, .k11n, .k21s, .k31i, .k21h, .k21s, .k31i,
    -- 0x18 CONST_WIDE .. 0x1F CHECK_CAST
    .k51l, .k21h, .k21c, .k31c, .k21c, .k11x, .k11x, .k21c,
    -- 0x20 INSTANCE_OF .. 0x27 THROW
    .k22c, .k12x, .k21c, .k22c, .k35c, .k3rc, .k31t, .k11x,
    -- 0x28 GOTO .. 0x2F CMPL_DOUBLE
    .k10t, .k20t, .k30t, .k31t, .k31t, .k23x, .k23x, .k23x,
    -- 0x30 CMPG_DOUBLE .. 0x37 IF_LE
    .k23x, .k23x, .k22t, .k22t, .k22t, .k22t, .k22t, .k22t,
    -- 0x38 IF_EQZ .. 0x3F UNUSED_3F
    .k21t, .k21t, .k21t, .k21t, .k21t, .k21t, .k10x, .k10x,
    -- 0x40 UNUSED_40 .. 0x47 AGET_BOOLEAN
    .k10x, .k10x, .k10x, .k10x, .k23x, .k23x, .k23x, .k23x,
    -- 0x48 AGET_BYTE .. 0x4F APUT_BYTE
    .k23x, .k23x, .k23x, .k23x, .k23x, .k23x, .k23x, .k23x,
    -- 0x50 APUT_CHAR .. 0x57 IGET_CHAR
    .k23x, .k23x, .k22c, .k22c, .k22c, .k22c, .k22c, .k22c,
    -- 0x58 IGET_SHORT .. 0x5F IPUT_SHORT
    .k22c, .k22c, .k22c, .k22c, .k22c, .k22c, .k22c, .k22c,
    -- 0x60 SGET .. 0x67 SPUT
    .k21c, .k21c, .k21c, .k21c, .k21c, .k21c, .k21c, .k21c,
    -- 0x68 SPUT_WIDE .. 0x6F INVOKE_SUPER
    .k21c, .k21c, .k21c, .k21c, .k21c, .k21c, .k35c, .k35c,
    -- 0x70 INVOKE_DIRECT .. 0x77 INVOKE_STATIC_RANGE
    .k35c, .k35c, .k35c, .k10x, .k3rc, .k3rc, .k3rc, .k3rc,
    -- 0x78 INVOKE_INTERFACE_RANGE .. 0x7F NEG_FLOAT
    .k3rc, .k10x, .k10x, .k12x, .k12x, .k12x, .k12x, .k12x,
    -- 0x80 NEG_DOUBLE .. 0x87 FLOAT_TO_INT
    .k12x, .k12x, .k12x, .k12x, .k12x, .k12x, .k12x, .k12x,
    -- 0x88 FLOAT_TO_LONG .. 0x8F INT_TO_SHORT
    .k12x, .k12x, .k12x, .k12x, .k12x, .k12x, .k12x, .k12x,
    -- 0x90 ADD_INT .. 0x97 XOR_INT
    .k23x, .k23x, .k23x, .k23x, .k23x, .k23x, .k23x, .k23x,
    -- 0x98 SHL_INT .. 0x9F REM_LONG
    .k23x, .k23x, .k23x, .k23x, .k23x, .k23x, .k23x, .k23x,
    -- 0xA0 AND_LONG .. 0xA7 SUB_FLOAT
    .k23x, .k23x, .k23x, .k23x, .k23x, .k23x, .k23x, .k23x,
    -- 0xA8 MUL_FLOAT .. 0xAF REM_DOUBLE
    .k23x, .k23x, .k23x, .k23x, .k23x, .k23x, .k23x, .k23x,
    -- 0xB0 ADD_INT_2ADDR .. 0xB7 XOR_INT_2ADDR
    .k12x, .k12x, .k12x, .k12x, .k12x, .k12x, .k12x, .k12x,
    -- 0xB8 SHL_INT_2ADDR .. 0xBF REM_LONG_2ADDR
    .k12x, .k12x, .k12x, .k12x, .k12x, .k12x, .k12x, .k12x,
    -- 0xC0 AND_LONG_2ADDR .. 0xC7 SUB_FLOAT_2ADDR
    .k12x, .k12x, .k12x, .k12x, .k12x, .k12x, .k12x, .k12x,
    -- 0xC8 MUL_FLOAT_2ADDR .. 0xCF REM_DOUBLE_2ADDR
    .k12x, .k12x, .k12x, .k12x, .k12x, .k12x, .k12x, .k12x,
    -- 0xD0 ADD_INT_LIT16 .. 0xD7 XOR_INT_LIT16
    .k22s, .k22s, .k22s, .k22s, .k22s, .k22s, .k22s, .k22s,
    -- 0xD8 ADD_INT_LIT8 .. 0xDF XOR_INT_LIT8
    .k22b, .k22b, .k22b, .k22b, .k22b, .k22b, .k22b, .k22b,
    -- 0xE0 SHL_INT_LIT8 .. 0xE7 IPUT_WIDE_QUICK
    .k22b, .k22b, .k22b, .k22c, .k22c, .k22c, .k22c, .k22c,
    -- 0xE8 IPUT_OBJECT_QUICK .. 0xEF IGET_BOOLEAN_QUICK
    .k22c, .k35c, .k3rc, .k22c, .k22c, .k22c, .k22c, .k22c,
    -- 0xF0 IGET_BYTE_QUICK .. 0xF7 UNUSED_F7
    .k22c, .k22c, .k22c, .k10x, .k10x, .k10x, .k10x, .k10x,
    -- 0xF8 UNUSED_F8 .. 0xFF CONST_METHOD_TYPE
    .k10x, .k10x, .k45cc, .k4rcc, .k35c, .k3rc, .k21c, .k21c]

/-- `Instruction::FormatOf`. -/
def formatOf (opcode : UInt8) : Format :=
  kInstructionFormats.get opcode.toFin

/-- `InstructionSizeInCodeUnitsByOpcode`; `-1` leaves the size to the operands.
The source tests ranges of the enumeration; the groups below are those ranges,
and since they cover every format its final `return -1` is never taken. -/
def instructionSizeInCodeUnitsByOpcode (opcode : UInt8) (format : Format) : Int :=
  if opcode = 0 then -1
  else
    match format with
    | .k10x | .k12x | .k11n | .k11x | .k10t => 1
    | .k20t | .k22x | .k21t | .k21s | .k21h | .k21c | .k23x | .k22b | .k22t | .k22s
    | .k22c => 2
    | .k32x | .k30t | .k31t | .k31i | .k31c | .k35c | .k3rc => 3
    | .k45cc | .k4rcc => 4
    | .k51l => 5

/-- `kInstructionDescriptors[opcode].size_in_code_units`. -/
def descriptorSizeInCodeUnits (opcode : UInt8) : Int :=
  instructionSizeInCodeUnitsByOpcode opcode (formatOf opcode)

/-- `Instruction::Opcode()`: the low byte of the first unit. -/
def opcodeAt (insns : Nat → UInt16) (dexPc : Nat) : UInt8 :=
  (insns dexPc).toUInt8

/-- `Fetch32(offset)` of the instruction at `dexPc`: two units, low one first. -/
def fetch32 (insns : Nat → UInt16) (dexPc offset : Nat) : UInt32 :=
  (insns (dexPc + offset)).toUInt32 ||| ((insns (dexPc + offset + 1)).toUInt32 <<< 16)

def kPackedSwitchSignature : UInt16 := 0x0100
def kSparseSwitchSignature : UInt16 := 0x0200
def kArrayDataSignature : UInt16 := 0x0300

/-- `Instruction::SizeInCodeUnitsComplexOpcode`. The array-data size is computed
in `uint32_t`, so `element_size * length + 1` wraps. It is called for NOP only,
whose low byte is zero, so the `LOG(FATAL)` alternative of the default case is
never reached. -/
def sizeInCodeUnitsComplexOpcode (insns : Nat → UInt16) (dexPc : Nat) : Nat :=
  let first := insns dexPc
  if first = kPackedSwitchSignature then 4 + (insns (dexPc + 1)).toNat * 2
  else if first = kSparseSwitchSignature then 2 + (insns (dexPc + 1)).toNat * 4
  else if first = kArrayDataSignature then
    let elementSize := insns (dexPc + 1)
    let length := fetch32 insns dexPc 2
    (4 + (elementSize.toUInt32 * length + 1) / 2).toNat
  else 1

/-- `Instruction::CodeUnitsRequiredForSizeOfComplexOpcode`. -/
def codeUnitsRequiredForSizeOfComplexOpcode (insns : Nat → UInt16) (dexPc : Nat) : Nat :=
  let first := insns dexPc
  if first = kPackedSwitchSignature ∨ first = kSparseSwitchSignature then 2
  else if first = kArrayDataSignature then 4
  else 1

/-- `Instruction::SizeInCodeUnits`. -/
def sizeInCodeUnits (insns : Nat → UInt16) (dexPc : Nat) : Nat :=
  let result := descriptorSizeInCodeUnits (opcodeAt insns dexPc)
  if result < 0 then sizeInCodeUnitsComplexOpcode insns dexPc else result.toNat

/-- `Instruction::CodeUnitsRequiredForSizeComputation`. -/
def codeUnitsRequiredForSizeComputation (insns : Nat → UInt16) (dexPc : Nat) : Nat :=
  if descriptorSizeInCodeUnits (opcodeAt insns dexPc) < 0 then
    codeUnitsRequiredForSizeOfComplexOpcode insns dexPc
  else 1

/-! ## The size table -/

theorem descriptorSizeInCodeUnits_neg_iff (opcode : UInt8) :
    descriptorSizeInCodeUnits opcode < 0 ↔ opcode = 0 := by
  revert opcode
  decide +kernel

theorem descriptorSizeInCodeUnits_bounds (opcode : UInt8) (notNop : opcode ≠ 0) :
    1 ≤ descriptorSizeInCodeUnits opcode ∧ descriptorSizeInCodeUnits opcode ≤ 5 := by
  revert opcode
  decide +kernel

/-- The array-data size read as arithmetic: the product and the rounding unit
are taken modulo `2 ^ 32`, the halving and the header are not. -/
theorem toNat_arrayDataSize (elementSize : UInt16) (length : UInt32) :
    (4 + (elementSize.toUInt32 * length + 1) / 2).toNat =
      4 + (elementSize.toNat * length.toNat + 1) % 2 ^ 32 / 2 := by
  have product : (elementSize.toUInt32 * length + 1).toNat =
      (elementSize.toNat * length.toNat + 1) % 2 ^ 32 := by
    rw [UInt32.toNat_add, UInt32.toNat_mul, UInt16.toNat_toUInt32]
    simp only [UInt32.toNat_one]
    omega
  have half : ((elementSize.toUInt32 * length + 1) / 2).toNat =
      (elementSize.toNat * length.toNat + 1) % 2 ^ 32 / 2 := by
    rw [UInt32.toNat_div, product]
    rfl
  rw [UInt32.toNat_add, half]
  have small : (elementSize.toNat * length.toNat + 1) % 2 ^ 32 / 2 < 2 ^ 31 := by omega
  have four : (4 : UInt32).toNat = 4 := rfl
  rw [four]
  omega

theorem sizeInCodeUnits_pos (insns : Nat → UInt16) (dexPc : Nat) :
    0 < sizeInCodeUnits insns dexPc := by
  unfold sizeInCodeUnits
  dsimp only
  split
  · rename_i negative
    unfold sizeInCodeUnitsComplexOpcode
    dsimp only
    split
    · omega
    split
    · omega
    split
    · rw [toNat_arrayDataSize]
      omega
    · omega
  · rename_i notNegative
    have notNop : opcodeAt insns dexPc ≠ 0 :=
      fun nop => notNegative ((descriptorSizeInCodeUnits_neg_iff _).mpr nop)
    have bounds := descriptorSizeInCodeUnits_bounds _ notNop
    omega

/-! ## The safe iterator -/

/-- `SafeDexInstructionIterator::operator++` at `dexPc`, with the end at
`numCodeUnits`: `none` is the error state, entered when the size cannot be
computed, or the instruction does not fit, in what is left. -/
def SafeDexInstructionIterator.increment (insns : Nat → UInt16) (numCodeUnits dexPc : Nat) :
    Option Nat :=
  let available := numCodeUnits - dexPc
  if codeUnitsRequiredForSizeComputation insns dexPc > available then none
  else if sizeInCodeUnits insns dexPc > available then none
  else some (dexPc + sizeInCodeUnits insns dexPc)

namespace SafeDexInstructionIterator

/-- What a successful step does: it moves by the size of the instruction, and
both the units its size needs and the instruction itself fit before the end. -/
theorem increment_eq_some {insns : Nat → UInt16} {numCodeUnits dexPc next : Nat} :
    increment insns numCodeUnits dexPc = some next ↔
      codeUnitsRequiredForSizeComputation insns dexPc ≤ numCodeUnits - dexPc ∧
        sizeInCodeUnits insns dexPc ≤ numCodeUnits - dexPc ∧
        next = dexPc + sizeInCodeUnits insns dexPc := by
  unfold increment
  dsimp only
  split
  · simp only [reduceCtorEq, false_iff]
    omega
  split
  · simp only [reduceCtorEq, false_iff]
    omega
  · simp only [Option.some.injEq]
    omega

theorem lt_of_increment {insns : Nat → UInt16} {numCodeUnits dexPc next : Nat}
    (stepped : increment insns numCodeUnits dexPc = some next) :
    dexPc < next ∧ next ≤ numCodeUnits := by
  obtain ⟨-, fits, rfl⟩ := increment_eq_some.mp stepped
  have positive := sizeInCodeUnits_pos insns dexPc
  omega

end SafeDexInstructionIterator

end ArtRuntime.Dex.Instruction
