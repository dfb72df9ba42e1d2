import ArtRuntime.Dex.Instruction

/-! # The method verifier on array data

Three parts of `runtime/verifier/method_verifier.cc` decide whether a
`fill-array-data` instruction may run. `ComputeWidthsAndCountOps` walks the code
item linearly and marks every instruction start as an opcode;
`CheckArrayData` places the payload at an aligned, marked unit and checks that
the table it describes ends inside the code item; the `FILL_ARRAY_DATA` case of
the code-flow pass checks the payload's signature and that its element width is
the width of the array's component type.

Each check fails with `VERIFY_ERROR_BAD_CLASS_HARD`; the model keeps the
message. A payload is addressed with the 32-bit sum of the instruction's pc and
its offset; for a code item of fewer than `2 ^ 31` units, which any code item of
a dex file is, this is the pointer `insns + array_data_offset` of the source. -/

namespace ArtRuntime.Verifier

open ArtRuntime.Dex.Instruction

/-- What the verifier reads of a code item: the units of its instructions,
`InsnsSizeInCodeUnits()`, and the byte address at which the instructions start,
which decides the alignment of a payload. -/
structure CodeItem where
  insns : Nat → UInt16
  insnsSize : UInt32
  insnsAddress : Nat

/-! ## The linear walk -/

/-- The loop of `ComputeWidthsAndCountOps` from `dexPc`: an instruction whose
successor can be computed is marked, latest first in `opcodes`; the loop stops
at the end or at the first instruction that does not fit. -/
def computeWidthsLoop (insns : Nat → UInt16) (insnsSize dexPc : Nat) (opcodes : List Nat) :
    Nat × List Nat :=
  if dexPc < insnsSize then
    match stepped : SafeDexInstructionIterator.increment insns insnsSize dexPc with
    | none => (dexPc, opcodes)
    | some next =>
      have _ : dexPc < next := (SafeDexInstructionIterator.lt_of_increment stepped).1
      computeWidthsLoop insns insnsSize next (dexPc :: opcodes)
  else (dexPc, opcodes)
termination_by insnsSize - dexPc

/-- `ComputeWidthsAndCountOps`: the dex pcs marked `IsOpcode`, or the failure
when the walk does not end at the end of the code item. -/
def computeWidthsAndCountOps (code : CodeItem) : Except String (List Nat) :=
  let insnsSize := code.insnsSize.toNat
  let (dexPc, opcodes) := computeWidthsLoop code.insns insnsSize 0 []
  if dexPc = insnsSize then .ok opcodes
  else .error s!"code did not end where expected ({dexPc} vs. {insnsSize})"

section Walk

variable {insns : Nat → UInt16} {insnsSize dexPc next : Nat} {opcodes : List Nat}

theorem computeWidthsLoop_step (inside : dexPc < insnsSize)
    (stepped : SafeDexInstructionIterator.increment insns insnsSize dexPc = some next) :
    computeWidthsLoop insns insnsSize dexPc opcodes =
      computeWidthsLoop insns insnsSize next (dexPc :: opcodes) := by
  rw [computeWidthsLoop, if_pos inside]
  split
  · rename_i failed
    rw [failed] at stepped
    cases stepped
  · rename_i following stepped'
    rw [stepped] at stepped'
    cases stepped'
    rfl

theorem computeWidthsLoop_at_end (atEnd : insnsSize ≤ dexPc) :
    computeWidthsLoop insns insnsSize dexPc opcodes = (dexPc, opcodes) := by
  rw [computeWidthsLoop, if_neg (by omega)]

end Walk

/-! ## The payload checks -/

/-- `Primitive::Type`. -/
inductive Primitive
  | primNot | primBoolean | primByte | primChar | primShort | primInt | primLong | primFloat
  | primDouble | primVoid
  deriving DecidableEq, Repr

/-- `Primitive::ComponentSize`; a reference is a four-byte `HeapReference`. -/
def Primitive.componentSize : Primitive → Nat
  | .primVoid => 0
  | .primBoolean | .primByte => 1
  | .primChar | .primShort => 2
  | .primInt | .primFloat => 4
  | .primLong | .primDouble => 8
  | .primNot => 4

/-- The unit at which the payload of the 31t instruction at `curOffset` starts:
`insns[1] | (static_cast<int32_t>(insns[2]) << 16)` units further. -/
def arrayDataStart (insns : Nat → UInt16) (curOffset : UInt32) : Nat :=
  (curOffset + fetch32 insns curOffset.toNat 1).toNat

/-- `MethodVerifier::CheckArrayData(cur_offset)`, given the marks of the linear
walk. The table size is computed in `uint32_t`, as in `SizeInCodeUnitsComplexOpcode`. -/
def checkArrayData (code : CodeItem) (opcodes : List Nat) (curOffset : UInt32) :
    Except String Unit :=
  let insnCount := code.insnsSize
  let arrayDataOffset : Int32 := (fetch32 code.insns curOffset.toNat 1).toInt32
  if curOffset.toInt32 + arrayDataOffset < 0 ∨
      curOffset + arrayDataOffset.toUInt32 + 2 ≥ insnCount then
    .error s!"invalid array data start: at {curOffset}, data offset {arrayDataOffset}, count {insnCount}"
  else
    let arrayData := arrayDataStart code.insns curOffset
    if (code.insnsAddress + 2 * arrayData) % 4 ≠ 0 then
      .error s!"unaligned array data table: at {curOffset}, data offset {arrayDataOffset}"
    else if arrayData ∉ opcodes then
      .error (s!"array data table at {curOffset}, data offset {arrayDataOffset}" ++
        " not correctly visited, probably bad padding.")
    else
      let valueWidth : UInt32 := (code.insns (arrayData + 1)).toUInt32
      let valueCount : UInt32 := fetch32 code.insns arrayData 2
      let tableSize : UInt32 := 4 + (valueWidth * valueCount + 1) / 2
      let tableEnd := curOffset + arrayDataOffset.toUInt32 + tableSize
      if tableEnd > insnCount then
        .error (s!"invalid array data end: at {curOffset}, data offset {arrayDataOffset}" ++
          s!", end {tableEnd}, count {insnCount}")
      else .ok ()

/-- The type of the array register, as far as the `FILL_ARRAY_DATA` case asks:
null, not an array, an unresolved array, an array of references, or an array
of a primitive type. The names are the types as the failures print them. -/
inductive ArrayRegisterType
  | zeroOrNull
  | nonArray (name : String)
  | unresolvedArray (name : String)
  | referenceComponent (componentName : String)
  | primitiveComponent (component : Primitive)

/-- The `FILL_ARRAY_DATA` case of `MethodVerifier::CodeFlowVerifyInstruction`
for the instruction at `curOffset`. -/
def verifyFillArrayData (code : CodeItem) (curOffset : UInt32)
    (arrayType : ArrayRegisterType) : Except String Unit :=
  match arrayType with
  | .zeroOrNull => .ok ()
  | .nonArray name => .error s!"invalid fill-array-data with array type {name}"
  | .unresolvedArray name => .error s!"invalid fill-array-data for array of type {name}"
  | .referenceComponent componentName =>
      .error s!"invalid fill-array-data with component type {componentName}"
  | .primitiveComponent component =>
      let arrayData := arrayDataStart code.insns curOffset
      let elemWidth := component.componentSize
      let tableWidth := (code.insns (arrayData + 1)).toNat
      if code.insns arrayData ≠ kArrayDataSignature then .error "invalid magic for array-data"
      else if tableWidth ≠ elemWidth then
        .error s!"array-data size mismatch ({tableWidth} vs {elemWidth})"
      else .ok ()

end ArtRuntime.Verifier
