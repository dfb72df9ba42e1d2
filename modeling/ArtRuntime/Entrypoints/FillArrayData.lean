import ArtRuntime.Verifier.MethodVerifier

/-! # Filling an array from an array-data payload

`FillArrayData` of `runtime/entrypoints/entrypoint_utils.cc`, as the
interpreter's `FILL_ARRAY_DATA` case calls it: the payload is read at the
instruction's branch offset, the count is compared with the array's length
after a cast to `int32_t`, and the data is copied with a byte count computed in
`uint32_t`. The copy is kept as what `memcpy` is asked to do. -/

namespace ArtRuntime.Entrypoints

open ArtRuntime.Dex.Instruction ArtRuntime.Verifier

/-- A primitive array: its component type and its `int32_t` length, which is
never negative. -/
structure PrimitiveArray where
  componentType : Primitive
  length : Int32
  lengthNonNegative : 0 ≤ length

/-- `Instruction::ArrayDataPayload`; `data` is the byte address of its data. -/
structure ArrayDataPayload where
  ident : UInt16
  elementWidth : UInt16
  elementCount : UInt32
  data : Nat

/-- The payload laid over the code item from unit `index` on. -/
def ArrayDataPayload.at (code : CodeItem) (index : Nat) : ArrayDataPayload where
  ident := code.insns index
  elementWidth := code.insns (index + 1)
  elementCount := fetch32 code.insns index 2
  data := code.insnsAddress + 2 * (index + 4)

/-- The exceptions `FillArrayData` throws, with their messages. -/
inductive ThrownException
  | nullPointer (message : String)
  | arrayIndexOutOfBounds (message : String)
  deriving DecidableEq, Repr

/-- The call `memcpy(array->GetRawData(element_width, 0), payload->data, size)`:
`size` bytes from byte address `source` to the start of the array's elements. -/
structure Memcpy where
  source : Nat
  size : Nat
  deriving DecidableEq, Repr

/-- `FillArrayData(obj, payload)`. Its `DCHECK`s on the payload signature and
on the array holding primitives are debug-build checks and not modelled. -/
def fillArrayData (obj : Option PrimitiveArray) (payload : ArrayDataPayload) :
    Except ThrownException Memcpy :=
  match obj with
  | none => .error (.nullPointer "null array in FILL_ARRAY_DATA")
  | some array =>
      if payload.elementCount.toInt32 > array.length then
        .error (.arrayIndexOutOfBounds
          s!"failed FILL_ARRAY_DATA; length={array.length}, index={payload.elementCount.toInt32}")
      else
        let sizeInBytes : UInt32 := payload.elementCount * payload.elementWidth.toUInt32
        .ok { source := payload.data, size := sizeInBytes.toNat }

/-- The interpreter's `FILL_ARRAY_DATA` at `dexPc`: the payload is `VRegB_31t()`
units after the instruction. -/
def executeFillArrayData (code : CodeItem) (dexPc : UInt32) (obj : Option PrimitiveArray) :
    Except ThrownException Memcpy :=
  fillArrayData obj (ArrayDataPayload.at code (arrayDataStart code.insns dexPc))

/-! ## A payload whose size wraps

`fill-array-data v0, +4; return-void`, then a payload of width 1 and count
`0xffffffff`. In 32 bits `1 * 0xffffffff + 1` is 0, so both the linear walk and
`CheckArrayData` take the payload for its four header units, and it ends
exactly at the end of the code item. At run time the count, cast to `int32_t`,
is `-1`, which no length is below, and `memcpy` is asked for `0xffffffff`
bytes: read from the end of the code item on and written over an array that
has fewer than `2 ^ 31` elements. -/

/-- The code item, at a four-byte aligned address. -/
def wrappedArrayDataCode : CodeItem where
  insns := fun index =>
    match index with
    | 0 => 0x0026
    | 1 => 4
    | 2 => 0
    | 3 => 0x000e
    | 4 => 0x0300
    | 5 => 1
    | 6 => 0xffff
    | 7 => 0xffff
    | _ => 0
  insnsSize := 8
  insnsAddress := 16

private theorem wrappedArrayDataCode_walk :
    computeWidthsLoop wrappedArrayDataCode.insns 8 0 [] = (8, [4, 3, 0]) := by
  -- the fill-array-data, the return-void, then the payload, sized four units
  have first : SafeDexInstructionIterator.increment wrappedArrayDataCode.insns 8 0 = some 3 := by
    decide +kernel
  have second : SafeDexInstructionIterator.increment wrappedArrayDataCode.insns 8 3 = some 4 := by
    decide +kernel
  have payload : SafeDexInstructionIterator.increment wrappedArrayDataCode.insns 8 4 = some 8 := by
    decide +kernel
  rw [computeWidthsLoop_step (by decide) first, computeWidthsLoop_step (by decide) second,
    computeWidthsLoop_step (by decide) payload, computeWidthsLoop_at_end (Nat.le_refl 8)]

private theorem elementCount_toInt32_lt_length (array : PrimitiveArray) :
    ¬((0xffffffff : UInt32).toInt32 > array.length) := by
  have minusOne : ((0xffffffff : UInt32).toInt32).toInt = -1 := by decide
  have nonNegative := Int32.le_iff_toInt_le.mp array.lengthNonNegative
  rw [gt_iff_lt, Int32.lt_iff_toInt_lt, minusOne]
  have zero : (0 : Int32).toInt = 0 := by decide
  omega

theorem fillArrayData_wrapped_count_copies_out_of_bounds (array : PrimitiveArray) :
    computeWidthsAndCountOps wrappedArrayDataCode = .ok [4, 3, 0] ∧
      checkArrayData wrappedArrayDataCode [4, 3, 0] 0 = .ok () ∧
      verifyFillArrayData wrappedArrayDataCode 0 (.primitiveComponent .primByte) = .ok () ∧
      executeFillArrayData wrappedArrayDataCode 0 (some array) =
        .ok { source := wrappedArrayDataCode.insnsAddress +
                2 * wrappedArrayDataCode.insnsSize.toNat,
              size := 0xffffffff } ∧
      array.length.toInt < 0xffffffff := by
  refine ⟨?_, by decide, by decide, ?_, ?_⟩
  · have size : wrappedArrayDataCode.insnsSize.toNat = 8 := rfl
    simp only [computeWidthsAndCountOps, size, wrappedArrayDataCode_walk]
    rfl
  · have count : (ArrayDataPayload.at wrappedArrayDataCode
        (arrayDataStart wrappedArrayDataCode.insns 0)).elementCount = 0xffffffff := by decide
    simp only [executeFillArrayData, fillArrayData, count,
      if_neg (elementCount_toInt32_lt_length array)]
    rfl
  · have bounded := Int32.toInt_lt array.length
    omega

end ArtRuntime.Entrypoints
