import ArtRuntime.Compiler.Location
import ArtRuntime.Base.BitUtils
import Mathlib.Algebra.Divisibility.Basic
import Mathlib.Algebra.Ring.Int.Defs
import Mathlib.Tactic.NormNum

/-! # Integral type conversions

The integral part of `DataType` in `compiler/optimizing/data_type.h`
(`IsIntegralType`, `MinValueOfIntegralType`, `MaxValueOfIntegralType` and the two
`IsTypeConversionImplicit`), the truncations of `HTypeConversion::TryStaticEvaluation`
in `nodes.cc`, and the decision `InstructionSimplifierVisitor::VisitTypeConversion`
of `instruction_simplifier.cc` takes for a conversion to an integral type.

`MinValueOfIntegralType` and `MaxValueOfIntegralType` return `int64_t`; for
`kUint64` the maximum `std::numeric_limits<uint64_t>::max()` is converted to
it and reads `-1`. Values are integers; a conversion truncates to the width of
its result type and then sign-extends (`kInt8` to `kInt64`) or zero-extends
(`kUint8`, `kUint16`), as `bmod` and `%` of a power of two. Floating-point
conversions are left out. -/

namespace ArtRuntime.Compiler

namespace DataType

/-- `DataType::IsIntegralType`. -/
def isIntegralType : DataType → Bool
  | kBool | kUint8 | kInt8 | kUint16 | kInt16 | kUint32 | kInt32 | kUint64 | kInt64 => true
  | _ => false

/-- `DataType::MinValueOfIntegralType`; a non-integral type has no minimum and
reads `0` after the fatal log. -/
def minValueOfIntegralType : DataType → Int
  | kBool | kUint8 | kUint16 | kUint32 | kUint64 => 0
  | kInt8 => -2 ^ 7
  | kInt16 => -2 ^ 15
  | kInt32 => -2 ^ 31
  | kInt64 => -2 ^ 63
  | _ => 0

/-- `DataType::MaxValueOfIntegralType`, as the `int64_t` it returns. -/
def maxValueOfIntegralType : DataType → Int
  | kBool => 1
  | kUint8 => 2 ^ 8 - 1
  | kInt8 => 2 ^ 7 - 1
  | kUint16 => 2 ^ 16 - 1
  | kInt16 => 2 ^ 15 - 1
  | kUint32 => 2 ^ 32 - 1
  | kInt32 => 2 ^ 31 - 1
  -- `std::numeric_limits<uint64_t>::max()` converted to `int64_t`
  | kUint64 => (2 ^ 64 - 1 : Int).bmod (2 ^ 64)
  | kInt64 => 2 ^ 63 - 1
  | _ => 0

/-- `DataType::IsTypeConversionImplicit(input_type, result_type)`. -/
def isTypeConversionImplicit (inputType resultType : DataType) : Bool :=
  resultType == inputType ||
    (resultType != kInt64 && inputType.isIntegralType && resultType.isIntegralType &&
      decide (minValueOfIntegralType inputType ≥ minValueOfIntegralType resultType) &&
      decide (maxValueOfIntegralType inputType ≤ maxValueOfIntegralType resultType))

/-- `DataType::IsTypeConversionImplicit(value, result_type)` of an `int64_t` value. -/
def isValueConversionImplicit (value : Int) (resultType : DataType) : Bool :=
  if resultType.isIntegralType && resultType != kInt64 then
    decide (value ≥ minValueOfIntegralType resultType) && decide (value ≤ maxValueOfIntegralType resultType)
  else false

/-- The values of an integral type, as its C++ type has them. -/
def valueRange : DataType → Option (Int × Int)
  | kBool => some (0, 1)
  | kUint8 => some (0, 2 ^ 8 - 1)
  | kInt8 => some (-2 ^ 7, 2 ^ 7 - 1)
  | kUint16 => some (0, 2 ^ 16 - 1)
  | kInt16 => some (-2 ^ 15, 2 ^ 15 - 1)
  | kUint32 => some (0, 2 ^ 32 - 1)
  | kInt32 => some (-2 ^ 31, 2 ^ 31 - 1)
  | kUint64 => some (0, 2 ^ 64 - 1)
  | kInt64 => some (-2 ^ 63, 2 ^ 63 - 1)
  | _ => none

/-- `value` is a value of the integral type. -/
def Represents (type : DataType) (value : Int) : Prop :=
  ∃ low high, type.valueRange = some (low, high) ∧ low ≤ value ∧ value ≤ high

end DataType

open DataType

/-- `IsTypeConversionLossless(input_type, result_type)` of `instruction_simplifier.cc`. -/
def isTypeConversionLossless (inputType resultType : DataType) : Bool :=
  resultType.size > inputType.size && resultType != .kUint16 &&
    !(resultType == .kInt64 && inputType == .kFloat32)

/-- The truncation of a conversion to an integral type: its width, and whether
the result is sign-extended. -/
def conversionWidth : DataType → Option (Nat × Bool)
  | .kInt8 => some (8, true)
  | .kUint8 => some (8, false)
  | .kInt16 => some (16, true)
  | .kUint16 => some (16, false)
  | .kInt32 => some (32, true)
  | .kInt64 => some (64, true)
  | _ => none

/-- Truncate to `width` bits and extend with the sign or with zeros. -/
def truncate (width : Nat) (signed : Bool) (value : Int) : Int :=
  if signed then value.bmod (2 ^ width) else value % 2 ^ width

/-- The value of a conversion of `value` to an integral result type, the
`static_cast` that `HTypeConversion::TryStaticEvaluation` applies. -/
def integralConversion (resultType : DataType) (value : Int) : Option Int :=
  (conversionWidth resultType).map fun (width, signed) => truncate width signed value

/-- `HTypeConversion::TryStaticEvaluation` of an int constant (`isLong` false) or
a long constant to an integral type: `static_cast<int8_t>` and the others. -/
def tryStaticEvaluation : Bool → DataType → Int → Option Int
  -- `GetInput()->IsIntConstant()`
  | false, .kInt8, value => some (value.bmod (2 ^ 8))
  | false, .kUint8, value => some (value % 2 ^ 8)
  | false, .kInt16, value => some (value.bmod (2 ^ 16))
  | false, .kUint16, value => some (value % 2 ^ 16)
  | false, .kInt64, value => some value
  -- `GetInput()->IsLongConstant()`
  | true, .kInt8, value => some (value.bmod (2 ^ 8))
  | true, .kUint8, value => some (value % 2 ^ 8)
  | true, .kInt16, value => some (value.bmod (2 ^ 16))
  | true, .kUint16, value => some (value % 2 ^ 16)
  | true, .kInt32, value => some (value.bmod (2 ^ 32))
  | _, _, _ => none

/-! ## What `VisitTypeConversion` does -/

/-- The kinds of instruction `TryReplaceFieldOrArrayGetType` tells apart. -/
inductive InputKind
  | instanceFieldGet
  | staticFieldGet
  | arrayGet (isStringCharAt : Bool)
  | otherInstruction
  deriving DecidableEq, Repr

/-- `TryReplaceFieldOrArrayGetType`: whether the input is a load whose type can
be set, a field get or an array get other than `String.charAt`. -/
def tryReplaceFieldOrArrayGetType : InputKind → Bool
  | .instanceFieldGet => true
  | .staticFieldGet => true
  | .arrayGet isStringCharAt => !isStringCharAt
  | .otherInstruction => false

/-- The input of a conversion, as `VisitTypeConversion` looks at it. -/
inductive ConversionInput
  /-- Another `HTypeConversion`, of an original input of `originalType`. -/
  | typeConversion (originalType : DataType) (hasOnlyOneNonEnvironmentUse : Bool)
  /-- An `HAnd` of an original input of `originalType` with the constant
  `mask`, or with no constant input. -/
  | and (originalType : DataType) (mask : Option Int) (hasOnlyOneNonEnvironmentUse : Bool)
  | other (kind : InputKind) (hasOnlyOneNonEnvironmentUse : Bool)
  deriving DecidableEq, Repr

/-- How `VisitTypeConversion` rewrites the graph. -/
inductive ConversionRewrite
  /-- The implicit conversion is replaced by its input. -/
  | replaceWithInput
  /-- The input load takes the result type and replaces the conversion. -/
  | replaceWithRetypedInput
  /-- The conversion, which only stores use, is replaced by its input. -/
  | replaceWithInputForStores
  /-- The conversion is replaced by its input's own input. -/
  | replaceWithOriginalInput
  /-- The input conversion or `HAnd` is replaced by its own input, under the conversion. -/
  | bypassInput
  | unchanged
  deriving DecidableEq, Repr

/-- `CTZ(~static_cast<uint64_t>(value))` of an `int64_t` mask: the trailing ones. -/
def trailingOnes (mask : Int) : Nat :=
  Base.ctz 64 (2 ^ 64 - 1 - (mask % 2 ^ 64).toNat)

/-- `InstructionSimplifierVisitor::VisitTypeConversion` for a conversion from
`inputType` to `resultType`. `storingIntoNoWiderFieldOnly` is the answer of
`IsTypeConversionForStoringIntoNoWiderFieldOnly` for the conversion's uses. -/
def visitTypeConversion (inputType resultType : DataType) (input : ConversionInput)
    (storingIntoNoWiderFieldOnly : Bool) : ConversionRewrite :=
  let lastResort := if storingIntoNoWiderFieldOnly then .replaceWithInputForStores else .unchanged
  if isTypeConversionImplicit inputType resultType then .replaceWithInput
  else
    match input with
    | .typeConversion originalType hasOneUse =>
      let isFirstConversionLossless := isTypeConversionLossless originalType inputType
      let integralConversionsWithNonWideningSecond :=
        inputType.isIntegralType && originalType.isIntegralType && resultType.isIntegralType &&
          decide (resultType.size ≤ inputType.size)
      if isFirstConversionLossless || integralConversionsWithNonWideningSecond then
        if isTypeConversionImplicit originalType resultType then .replaceWithOriginalInput
        else if hasOneUse then .bypassInput
        else lastResort
      else lastResort
    | .and originalType mask hasOneUse =>
      if resultType.isIntegralType then
        match mask with
        | some value =>
          if trailingOnes value ≥ 8 * resultType.size then
            if isTypeConversionImplicit originalType resultType then .replaceWithOriginalInput
            else if hasOneUse then .bypassInput
            else lastResort
          else lastResort
        | none => lastResort
      else lastResort
    | .other kind hasOneUse =>
      if hasOneUse && ((inputType == .kInt8 && resultType == .kUint8) ||
          (inputType == .kUint8 && resultType == .kInt8) ||
          (inputType == .kInt16 && resultType == .kUint16) ||
          (inputType == .kUint16 && resultType == .kInt16)) then
        if tryReplaceFieldOrArrayGetType kind then .replaceWithRetypedInput else lastResort
      else lastResort

/-- The low bytes of `value` read at an integral type: what a store into a field
of the type keeps of it, and what a load of the type reads from the bytes of a
value of the same size. -/
def readBack (type : DataType) (value : Int) : Option Int :=
  (conversionWidth type).map fun (width, signed) =>
    if signed then (BitVec.ofInt width value).toInt else (BitVec.ofInt width value).toNat

/-- A use of a conversion, as `IsTypeConversionForStoringIntoNoWiderFieldOnly`
looks at it. -/
inductive ConversionUse
  | instanceFieldSet (fieldType : DataType)
  | staticFieldSet (fieldType : DataType)
  /-- An `HArraySet` of `componentType`; `isIndex` when the conversion is its index. -/
  | arraySet (componentType : DataType) (isIndex : Bool)
  | otherUse
  deriving DecidableEq, Repr

/-- The use stores the conversion into a field or an element of `resultType`. -/
def ConversionUse.isStoreOf (resultType : DataType) : ConversionUse → Bool
  | .instanceFieldSet fieldType => fieldType == resultType
  | .staticFieldSet fieldType => fieldType == resultType
  | .arraySet componentType isIndex => componentType == resultType && !isIndex
  | .otherUse => false

/-- `IsTypeConversionForStoringIntoNoWiderFieldOnly`. -/
def isTypeConversionForStoringIntoNoWiderFieldOnly (hasEnvironmentUses : Bool)
    (inputType resultType : DataType) (uses : List ConversionUse) : Bool :=
  if hasEnvironmentUses then false
  -- non-integral and 64-bit values may take other registers
  else if !inputType.isIntegralType || !resultType.isIntegralType || inputType == .kInt64 ||
      resultType == .kInt64 then false
  else if inputType.size ≥ resultType.size then uses.all (ConversionUse.isStoreOf resultType)
  else false

/-- What a use keeps of the value it takes: a store the low bytes of its field's
type, any other use the value itself. -/
def ConversionUse.observe (use : ConversionUse) (value : Int) : Option Int :=
  match use with
  | .instanceFieldSet fieldType => readBack fieldType value
  | .staticFieldSet fieldType => readBack fieldType value
  | .arraySet componentType false => readBack componentType value
  | _ => some value

/-- The value a conversion has after `VisitTypeConversion`, from the value `x` of
the original input and the value `v` of the conversion's input; after
`replaceWithInputForStores` it is the value the stores leave in the heap. -/
def rewrittenValue (resultType : DataType) (x v : Int) : ConversionRewrite → Option Int
  | .replaceWithInput => some v
  -- a retyped load reads the same bytes at the result type, of the input's size
  | .replaceWithRetypedInput => readBack resultType v
  | .replaceWithInputForStores => readBack resultType v
  | .replaceWithOriginalInput => some x
  | .bypassInput => integralConversion resultType x
  | .unchanged => integralConversion resultType v

/-! ## Truncations -/

section Truncate

variable {width : Nat} {signed : Bool}

theorem truncate_congr {x y : Int} (residue : x % 2 ^ width = y % 2 ^ width) :
    truncate width signed x = truncate width signed y := by
  have cast : ((2 ^ width : Nat) : Int) = 2 ^ width := by push_cast; rfl
  unfold truncate
  split
  · simp only [Int.bmod, cast, residue]
  · exact residue

theorem truncate_emod (x : Int) : truncate width signed x % 2 ^ width = x % 2 ^ width := by
  have cast : ((2 ^ width : Nat) : Int) = 2 ^ width := by push_cast; rfl
  unfold truncate
  split
  · rw [← cast, Int.bmod_emod]
  · exact Int.emod_emod _ _

theorem truncate_truncate {narrow : Nat} {narrowSigned : Bool} (narrower : narrow ≤ width) (x : Int) :
    truncate narrow narrowSigned (truncate width signed x) = truncate narrow narrowSigned x := by
  have divides : (2 : Int) ^ narrow ∣ 2 ^ width := pow_dvd_pow (2 : Int) narrower
  apply truncate_congr
  rw [← Int.emod_emod_of_dvd _ divides, truncate_emod, Int.emod_emod_of_dvd _ divides]

theorem truncate_of_mem {x : Int} (positive : 0 < width)
    (inRange : if signed then -2 ^ (width - 1) ≤ x ∧ x < 2 ^ (width - 1) else 0 ≤ x ∧ x < 2 ^ width) :
    truncate width signed x = x := by
  have half : (2 : Int) ^ width = 2 * 2 ^ (width - 1) := by
    rw [← Int.pow_succ', Nat.sub_add_cancel positive]
  have cast : ((2 ^ width : Nat) : Int) = 2 ^ width := by push_cast; rfl
  unfold truncate
  split
  · rename_i isSigned
    rw [if_pos isSigned] at inRange
    apply Int.bmod_eq_of_le_mul_two <;> rw [cast, half] <;> omega
  · rename_i isUnsigned
    rw [if_neg isUnsigned] at inRange
    exact Int.emod_eq_of_lt inRange.1 inRange.2

end Truncate

/-! ## Dropping an `HAnd` under a conversion -/

theorem testBit_of_lt_trailingOnes {mask : Int} {i : Nat} (below : i < trailingOnes mask) :
    (mask % 2 ^ 64).toNat.testBit i = true := by
  have inWord : i < 64 := Nat.lt_of_lt_of_le below (Base.ctz_le _ _)
  have complementClear := Base.testBit_of_lt_ctz below
  have pattern : (mask % 2 ^ 64).toNat < 2 ^ 64 := by omega
  have complement : 2 ^ 64 - 1 - (mask % 2 ^ 64).toNat = (~~~(BitVec.ofNat 64 (mask % 2 ^ 64).toNat)).toNat := by
    rw [BitVec.toNat_not, BitVec.toNat_ofNat, Nat.mod_eq_of_lt pattern]
  rw [complement, BitVec.testBit_toNat, BitVec.getLsbD_not, ← BitVec.testBit_toNat, BitVec.toNat_ofNat,
    Nat.mod_eq_of_lt pattern] at complementClear
  simpa [inWord] using complementClear

theorem getLsbD_ofInt_of_lt_trailingOnes {width i : Nat} {mask : Int} (wide : width ≤ 64)
    (below : i < trailingOnes mask) (inWidth : i < width) : (BitVec.ofInt width mask).getLsbD i = true := by
  have divides : ((2 ^ width : Nat) : Int) ∣ ((2 ^ 64 : Nat) : Int) :=
    Int.natCast_dvd_natCast.mpr (Nat.pow_dvd_pow 2 wide)
  have cast : ((2 ^ 64 : Nat) : Int) = 2 ^ 64 := by norm_cast
  have narrowed : (mask % ((2 ^ width : Nat) : Int)).toNat = (mask % 2 ^ 64).toNat % 2 ^ width := by
    rw [← Int.emod_emod_of_dvd mask divides, Int.toNat_emod (Int.emod_nonneg _ (by omega)) (by omega),
      Int.toNat_natCast, cast]
  rw [← BitVec.testBit_toNat, BitVec.toNat_ofInt, narrowed, Nat.testBit_mod_two_pow,
    testBit_of_lt_trailingOnes below]
  simp [inWidth]

theorem toInt_emod_two_pow {width k : Nat} (narrower : k ≤ width) (x : BitVec width) :
    x.toInt % 2 ^ k = (x.toNat : Int) % 2 ^ k := by
  have divides : (2 : Int) ^ k ∣ ((2 ^ width : Nat) : Int) := by
    rw [Int.natCast_pow]
    exact pow_dvd_pow (2 : Int) narrower
  rw [BitVec.toInt_eq_toNat_bmod, ← Int.emod_emod_of_dvd _ divides, Int.bmod_emod,
    Int.emod_emod_of_dvd _ divides]

theorem toNat_and_emod {width k : Nat} (x mask : BitVec width)
    (ones : ∀ i < k, i < width → mask.getLsbD i = true) :
    (x &&& mask).toNat % 2 ^ k = x.toNat % 2 ^ k := by
  apply Nat.eq_of_testBit_eq
  intro i
  rw [Nat.testBit_mod_two_pow, Nat.testBit_mod_two_pow, BitVec.toNat_and, Nat.testBit_and]
  by_cases low : i < k
  · by_cases inWidth : i < width
    · rw [BitVec.testBit_toNat mask, ones i low inWidth, Bool.and_true]
    · rw [Nat.testBit_lt_two_pow (Nat.lt_of_lt_of_le x.isLt (Nat.pow_le_pow_right (by decide) (by omega)))]
      simp
  · simp [low]

/-- `InstructionSimplifierVisitor::VisitTypeConversion` drops an `HAnd` under a
conversion when its mask has at least as many trailing ones as the conversion
keeps bits: the conversion of `x & mask` is the conversion of `x`. -/
theorem integralConversion_and_of_trailingOnes {resultType : DataType} {width : Nat} (wide : width ≤ 64)
    (x : BitVec width) {mask : Int} (ones : 8 * resultType.size ≤ trailingOnes mask) :
    integralConversion resultType (x &&& BitVec.ofInt width mask).toInt =
      integralConversion resultType x.toInt := by
  cases widthOf : conversionWidth resultType with
  | none => simp [integralConversion, widthOf]
  | some truncation =>
    obtain ⟨kept, signed⟩ := truncation
    have keptEq : kept = 8 * resultType.size := by
      cases resultType <;> simp_all [conversionWidth, DataType.size]
    have maskOnes : ∀ i < kept, i < width → (BitVec.ofInt width mask).getLsbD i = true :=
      fun i low inWidth => getLsbD_ofInt_of_lt_trailingOnes wide (by omega) inWidth
    simp only [integralConversion, widthOf, Option.map_some]
    congr 1
    by_cases narrower : kept ≤ width
    · -- the conversion reads the low bits, which the mask keeps
      have cast : (2 : Int) ^ kept = ((2 ^ kept : Nat) : Int) := by norm_cast
      apply truncate_congr
      rw [toInt_emod_two_pow narrower, toInt_emod_two_pow narrower, cast, ← Int.natCast_emod,
        ← Int.natCast_emod, toNat_and_emod _ _ maskOnes]
    · -- the mask is all ones at the width of the `HAnd`
      have whole : x &&& BitVec.ofInt width mask = x := by
        apply BitVec.eq_of_getLsbD_eq
        intro i inWidth
        rw [BitVec.getLsbD_and, maskOnes i (by omega) inWidth, Bool.and_true]
      rw [whole]

/-! ## Value ranges -/

theorem valueRange_of_ne_uint64 {type : DataType} (integral : type.isIntegralType = true)
    (notUint64 : type ≠ .kUint64) :
    type.valueRange = some (minValueOfIntegralType type, maxValueOfIntegralType type) := by
  cases type <;> simp_all [isIntegralType, valueRange, minValueOfIntegralType, maxValueOfIntegralType]

theorem conversionWidth_ne_none {type : DataType} (convertible : conversionWidth type ≠ none) :
    type.isIntegralType = true ∧ type ≠ .kUint64 := by
  cases type <;> simp_all [conversionWidth, isIntegralType]

theorem conversionWidth_ne_none_of_integralConversion {type : DataType} {x y : Int}
    (converted : integralConversion type x = some y) : conversionWidth type ≠ none := by
  intro none_
  simp [integralConversion, none_] at converted

theorem valueRange_of_conversionWidth {type : DataType} {width : Nat} {signed : Bool}
    (widthOf : conversionWidth type = some (width, signed)) :
    0 < width ∧ type.valueRange =
      some (if signed then -2 ^ (width - 1) else 0, if signed then 2 ^ (width - 1) - 1 else 2 ^ width - 1) := by
  cases type <;> simp only [conversionWidth, reduceCtorEq, Option.some.injEq, Prod.mk.injEq] at widthOf
  all_goals obtain ⟨rfl, rfl⟩ := widthOf; decide

theorem integralConversion_of_represents {resultType : DataType} {x y : Int}
    (represented : resultType.Represents x) (converted : integralConversion resultType x = some y) :
    y = x := by
  cases widthOf : conversionWidth resultType with
  | none => simp [integralConversion, widthOf] at converted
  | some truncation =>
    obtain ⟨width, signed⟩ := truncation
    simp only [integralConversion, widthOf, Option.map_some, Option.some.injEq] at converted
    obtain ⟨positive, range⟩ := valueRange_of_conversionWidth widthOf
    obtain ⟨low, high, range', above, below⟩ := represented
    rw [range, Option.some.injEq, Prod.mk.injEq] at range'
    rw [← converted]
    apply truncate_of_mem positive
    cases signed <;> simp only [if_true, Bool.false_eq_true, if_false] at range' ⊢ <;> omega

/-- An implicit conversion from any integral type but `kUint64` leaves every
value of its input type as it is. -/
theorem integralConversion_of_isTypeConversionImplicit {inputType resultType : DataType} {x y : Int}
    (notUint64 : inputType ≠ .kUint64) (implicit : isTypeConversionImplicit inputType resultType = true)
    (represented : inputType.Represents x) (converted : integralConversion resultType x = some y) :
    y = x := by
  have convertible := conversionWidth_ne_none_of_integralConversion converted
  obtain ⟨resultIntegral, resultNotUint64⟩ := conversionWidth_ne_none convertible
  apply integralConversion_of_represents _ converted
  unfold isTypeConversionImplicit at implicit
  simp only [Bool.or_eq_true, beq_iff_eq, Bool.and_eq_true, bne_iff_ne, ne_eq, decide_eq_true_eq] at implicit
  rcases implicit with same | ⟨⟨⟨⟨-, inputIntegral⟩, -⟩, lowerBound⟩, upperBound⟩
  · rwa [same]
  · -- the code's bounds of both types are their values' bounds
    obtain ⟨low, high, range, above, below⟩ := represented
    rw [valueRange_of_ne_uint64 inputIntegral notUint64, Option.some.injEq, Prod.mk.injEq] at range
    exact ⟨_, _, valueRange_of_ne_uint64 resultIntegral resultNotUint64, by omega, by omega⟩

theorem width_of_conversionWidth {type : DataType} {width : Nat} {signed : Bool}
    (widthOf : conversionWidth type = some (width, signed)) : width = 8 * type.size := by
  cases type <;> simp only [conversionWidth, reduceCtorEq, Option.some.injEq, Prod.mk.injEq] at widthOf
  all_goals obtain ⟨rfl, rfl⟩ := widthOf; rfl

theorem represents_of_integralConversion {resultType : DataType} {x y : Int}
    (converted : integralConversion resultType x = some y) : resultType.Represents y := by
  cases widthOf : conversionWidth resultType with
  | none => simp [integralConversion, widthOf] at converted
  | some truncation =>
    obtain ⟨width, signed⟩ := truncation
    simp only [integralConversion, widthOf, Option.map_some, Option.some.injEq] at converted
    obtain ⟨positive, range⟩ := valueRange_of_conversionWidth widthOf
    have half : (2 : Int) ^ width = 2 * 2 ^ (width - 1) := by
      rw [← Int.pow_succ', Nat.sub_add_cancel positive]
    have cast : ((2 ^ width : Nat) : Int) = 2 ^ width := by norm_cast
    have powPositive : (0 : Int) < 2 ^ width := pow_pos (by decide) width
    refine ⟨_, _, range, ?_, ?_⟩ <;> rw [← converted] <;> unfold truncate <;> cases signed <;>
      simp only [if_true, Bool.false_eq_true, if_false]
    · exact Int.emod_nonneg _ (by omega)
    · have := Int.le_bmod (x := x) (m := 2 ^ width) (Nat.two_pow_pos width)
      rw [cast, half] at this
      omega
    · have := Int.emod_lt_of_pos x powPositive
      omega
    · have := Int.bmod_lt (x := x) (m := 2 ^ width) (Nat.two_pow_pos width)
      rw [cast, half] at this
      omega

/-! ## Merging two conversions -/

/-- A lossless first conversion, to a type with a conversion, keeps every value
of its input type. -/
theorem represents_of_isTypeConversionLossless {inputType resultType : DataType} {x : Int}
    (lossless : isTypeConversionLossless inputType resultType = true)
    (convertible : conversionWidth resultType ≠ none) (represented : inputType.Represents x) :
    resultType.Represents x := by
  obtain ⟨low, high, range, above, below⟩ := represented
  cases inputType <;> cases resultType <;>
    simp_all [isTypeConversionLossless, conversionWidth, DataType.size, valueRange, Represents] <;> omega

/-- Two conversions that `VisitTypeConversion` merges, the first lossless or the
second no wider than the first, have the value of the second alone. -/
theorem integralConversion_integralConversion {originalType inputType resultType : DataType} {x v : Int}
    (merged : (isTypeConversionLossless originalType inputType ||
      (inputType.isIntegralType && originalType.isIntegralType && resultType.isIntegralType &&
        decide (resultType.size ≤ inputType.size))) = true)
    (represented : originalType.Represents x) (first : integralConversion inputType x = some v) :
    integralConversion resultType v = integralConversion resultType x := by
  have convertible := conversionWidth_ne_none_of_integralConversion first
  simp only [Bool.or_eq_true, Bool.and_eq_true, decide_eq_true_eq] at merged
  rcases merged with lossless | ⟨-, narrower⟩
  · -- the first conversion keeps the value
    rw [integralConversion_of_represents (represents_of_isTypeConversionLossless lossless convertible
      represented) first]
  · -- the second conversion reads no more bits than the first keeps
    obtain ⟨⟨firstWidth, firstSigned⟩, firstWidthOf⟩ := Option.ne_none_iff_exists'.mp convertible
    simp only [integralConversion, firstWidthOf, Option.map_some, Option.some.injEq] at first
    cases secondWidthOf : conversionWidth resultType with
    | none => simp [integralConversion, secondWidthOf]
    | some truncation =>
      obtain ⟨secondWidth, secondSigned⟩ := truncation
      have secondNarrower : secondWidth ≤ firstWidth := by
        rw [width_of_conversionWidth firstWidthOf, width_of_conversionWidth secondWidthOf]
        omega
      simp only [integralConversion, secondWidthOf, Option.map_some, ← first,
        truncate_truncate secondNarrower]

/-! ## What `VisitTypeConversion` keeps -/

theorem integralConversion_eq_some {resultType : DataType} (convertible : conversionWidth resultType ≠ none)
    (x : Int) : ∃ y, integralConversion resultType x = some y := by
  obtain ⟨⟨width, signed⟩, widthOf⟩ := Option.ne_none_iff_exists'.mp convertible
  exact ⟨truncate width signed x, by simp [integralConversion, widthOf]⟩

/-- An implicit conversion from any type but `kUint64`, of a value of its input
type, is that value. -/
theorem integralConversion_eq_of_isTypeConversionImplicit {inputType resultType : DataType} {x : Int}
    (notUint64 : inputType ≠ .kUint64) (implicit : isTypeConversionImplicit inputType resultType = true)
    (convertible : conversionWidth resultType ≠ none) (represented : inputType.Represents x) :
    integralConversion resultType x = some x := by
  obtain ⟨y, converted⟩ := integralConversion_eq_some convertible x
  rw [converted, integralConversion_of_isTypeConversionImplicit notUint64 implicit represented converted]

theorem readBack_eq_integralConversion (type : DataType) (value : Int) :
    readBack type value = integralConversion type value := by
  cases widthOf : conversionWidth type with
  | none => simp [readBack, integralConversion, widthOf]
  | some truncation =>
    obtain ⟨width, signed⟩ := truncation
    simp only [readBack, integralConversion, widthOf, Option.map_some, truncate]
    cases signed
    · simpa [BitVec.toNat_ofInt] using Int.emod_nonneg value (pow_ne_zero width two_ne_zero)
    · simp [BitVec.toInt_ofInt]

theorem rewrittenValue_lastResort (resultType : DataType) (x v : Int) (storing : Bool) :
    rewrittenValue resultType x v (if storing then .replaceWithInputForStores else .unchanged) =
      integralConversion resultType v := by
  cases storing
  · rfl
  · exact readBack_eq_integralConversion resultType v

/-- `VisitTypeConversion` keeps the value of a conversion of a conversion, when
neither the original input nor the first conversion is of type `kUint64`. -/
theorem visitTypeConversion_conversion_keeps_value {originalType inputType resultType : DataType}
    {hasOneUse storing : Bool} {x v : Int} (originalNotUint64 : originalType ≠ .kUint64)
    (inputNotUint64 : inputType ≠ .kUint64) (convertible : conversionWidth resultType ≠ none)
    (represented : originalType.Represents x) (first : integralConversion inputType x = some v) :
    rewrittenValue resultType x v
        (visitTypeConversion inputType resultType (.typeConversion originalType hasOneUse) storing) =
      integralConversion resultType v := by
  by_cases implicit : isTypeConversionImplicit inputType resultType = true
  · -- an implicit conversion of the first conversion's value is that value
    simp only [visitTypeConversion, implicit, if_true, rewrittenValue]
    rw [integralConversion_eq_of_isTypeConversionImplicit inputNotUint64 implicit convertible
      (represents_of_integralConversion first)]
  · by_cases merged : (isTypeConversionLossless originalType inputType ||
        (inputType.isIntegralType && originalType.isIntegralType && resultType.isIntegralType &&
          decide (resultType.size ≤ inputType.size))) = true
    · have mergedValue := integralConversion_integralConversion merged represented first
      by_cases originalImplicit : isTypeConversionImplicit originalType resultType = true
      · simp only [visitTypeConversion, implicit, merged, originalImplicit, if_true, if_false, rewrittenValue,
          Bool.false_eq_true]
        rw [mergedValue,
          integralConversion_eq_of_isTypeConversionImplicit originalNotUint64 originalImplicit convertible represented]
      · cases hasOneUse
        · simp [visitTypeConversion, implicit, merged, originalImplicit, rewrittenValue_lastResort, mergedValue]
        · simp [visitTypeConversion, implicit, merged, originalImplicit, rewrittenValue, mergedValue]
    · simp [visitTypeConversion, implicit, merged, rewrittenValue_lastResort]

theorem visitTypeConversion_conversion_keeps_value_of_long_int_short :
    DataType.kInt64 ≠ .kUint64 ∧ DataType.kInt32 ≠ .kUint64 ∧ conversionWidth .kInt16 ≠ none ∧
      DataType.kInt64.Represents 70000 ∧ integralConversion .kInt32 70000 = some 70000 ∧
      rewrittenValue .kInt16 70000 70000
          (visitTypeConversion .kInt32 .kInt16 (.typeConversion .kInt64 true) false) =
        integralConversion .kInt16 70000 :=
  ⟨by decide, by decide, by decide, ⟨_, _, rfl, by decide, by decide⟩, by decide,
    visitTypeConversion_conversion_keeps_value (by decide) (by decide) (by decide)
      ⟨_, _, rfl, by decide, by decide⟩ (by decide)⟩

/-- `VisitTypeConversion` keeps the value of a conversion of an `HAnd` with a
constant, for an `HAnd` of type `kInt32` or `kInt64` whose input, not of type
`kUint64`, is a value of the `HAnd`'s type. -/
theorem visitTypeConversion_and_keeps_value {originalType inputType resultType : DataType}
    {mask : Int} {hasOneUse storing : Bool} {x : Int} (andType : inputType = .kInt32 ∨ inputType = .kInt64)
    (originalNotUint64 : originalType ≠ .kUint64) (convertible : conversionWidth resultType ≠ none)
    (represented : originalType.Represents x) (fits : inputType.Represents x) :
    rewrittenValue resultType x
        (BitVec.ofInt (8 * inputType.size) x &&& BitVec.ofInt (8 * inputType.size) mask).toInt
        (visitTypeConversion inputType resultType (.and originalType (some mask) hasOneUse) storing) =
      integralConversion resultType
        (BitVec.ofInt (8 * inputType.size) x &&& BitVec.ofInt (8 * inputType.size) mask).toInt := by
  have wide : 8 * inputType.size ≤ 64 := by rcases andType with rfl | rfl <;> decide
  have inputNotUint64 : inputType ≠ .kUint64 := by rcases andType with rfl | rfl <;> decide
  -- the `HAnd`'s input read at the `HAnd`'s width is `x`
  have readBack : (BitVec.ofInt (8 * inputType.size) x).toInt = x := by
    obtain ⟨low, high, range, above, below⟩ := fits
    rw [BitVec.toInt_ofInt]
    rcases andType with rfl | rfl <;> simp only [valueRange, Option.some.injEq, Prod.mk.injEq] at range <;>
      obtain ⟨rfl, rfl⟩ := range <;> apply Int.bmod_eq_of_le_mul_two <;> simp [DataType.size] <;> omega
  -- the `HAnd`'s value is a value of its type
  have andRepresents : inputType.Represents
      (BitVec.ofInt (8 * inputType.size) x &&& BitVec.ofInt (8 * inputType.size) mask).toInt := by
    have := BitVec.le_toInt (BitVec.ofInt (8 * inputType.size) x &&& BitVec.ofInt (8 * inputType.size) mask)
    have := BitVec.toInt_lt (x := BitVec.ofInt (8 * inputType.size) x &&& BitVec.ofInt (8 * inputType.size) mask)
    rcases andType with rfl | rfl <;> exact ⟨_, _, rfl, by simp_all [DataType.size], by simp_all [DataType.size]; omega⟩
  have resultIntegral := (conversionWidth_ne_none convertible).1
  by_cases implicit : isTypeConversionImplicit inputType resultType = true
  · simp only [visitTypeConversion, implicit, if_true, rewrittenValue]
    rw [integralConversion_eq_of_isTypeConversionImplicit inputNotUint64 implicit convertible andRepresents]
  · by_cases ones : 8 * resultType.size ≤ trailingOnes mask
    · have dropped := integralConversion_and_of_trailingOnes wide
        (BitVec.ofInt (8 * inputType.size) x) ones
      rw [readBack] at dropped
      by_cases originalImplicit : isTypeConversionImplicit originalType resultType = true
      · simp only [visitTypeConversion, implicit, originalImplicit, resultIntegral, ones, if_true, if_false,
          rewrittenValue, Bool.false_eq_true]
        rw [dropped,
          integralConversion_eq_of_isTypeConversionImplicit originalNotUint64 originalImplicit convertible represented]
      · cases hasOneUse
        · simp [visitTypeConversion, implicit, originalImplicit, resultIntegral, ones, rewrittenValue_lastResort]
        · simp only [visitTypeConversion, implicit, originalImplicit, resultIntegral, ones, if_true, if_false,
            rewrittenValue, Bool.false_eq_true]
          rw [dropped]
    · simp [visitTypeConversion, implicit, resultIntegral, ones, rewrittenValue_lastResort]

theorem visitTypeConversion_and_keeps_value_of_byte_mask :
    (DataType.kInt32 = .kInt32 ∨ DataType.kInt32 = .kInt64) ∧ DataType.kInt32 ≠ .kUint64 ∧
      conversionWidth .kInt8 ≠ none ∧ DataType.kInt32.Represents (-300) ∧
      DataType.kInt32.Represents (-300) ∧
      rewrittenValue .kInt8 (-300)
          (BitVec.ofInt (8 * DataType.kInt32.size) (-300) &&& BitVec.ofInt (8 * DataType.kInt32.size) 0xff).toInt
          (visitTypeConversion .kInt32 .kInt8 (.and .kInt32 (some 0xff) true) false) =
        integralConversion .kInt8
          (BitVec.ofInt (8 * DataType.kInt32.size) (-300) &&& BitVec.ofInt (8 * DataType.kInt32.size) 0xff).toInt :=
  ⟨Or.inl rfl, by decide, by decide, ⟨_, _, rfl, by decide, by decide⟩, ⟨_, _, rfl, by decide, by decide⟩,
    @visitTypeConversion_and_keeps_value .kInt32 .kInt32 .kInt8 0xff true false (-300) (Or.inl rfl) (by decide)
      (by decide) ⟨_, _, rfl, by decide, by decide⟩ ⟨_, _, rfl, by decide, by decide⟩⟩

theorem integralConversion_of_integralConversion {type : DataType} {x y : Int}
    (converted : integralConversion type x = some y) : integralConversion type y = some y := by
  obtain ⟨z, again⟩ := integralConversion_eq_some (conversionWidth_ne_none_of_integralConversion converted) y
  rw [again, integralConversion_of_represents (represents_of_integralConversion converted) again]

/-- `VisitTypeConversion` keeps the value of a conversion of any other
instruction, of an integral type but `kUint64`: an implicit conversion is
removed, a load of the opposite signedness is retyped, and a conversion only
stores use is left to them. -/
theorem visitTypeConversion_other_keeps_value {inputType resultType : DataType} {kind : InputKind}
    {hasOneUse storing : Bool} {x v : Int} (inputNotUint64 : inputType ≠ .kUint64)
    (convertible : conversionWidth resultType ≠ none) (represented : inputType.Represents v) :
    rewrittenValue resultType x v (visitTypeConversion inputType resultType (.other kind hasOneUse) storing) =
      integralConversion resultType v := by
  by_cases implicit : isTypeConversionImplicit inputType resultType = true
  · simp only [visitTypeConversion, implicit, if_true, rewrittenValue]
    rw [integralConversion_eq_of_isTypeConversionImplicit inputNotUint64 implicit convertible represented]
  · -- the retyped load has the input's size, so it reads the input's low bytes
    have retyped : rewrittenValue resultType x v .replaceWithRetypedInput = integralConversion resultType v :=
      readBack_eq_integralConversion resultType v
    simp only [visitTypeConversion, implicit, Bool.false_eq_true, if_false]
    split
    · split
      · exact retyped
      · exact rewrittenValue_lastResort resultType x v storing
    · exact rewrittenValue_lastResort resultType x v storing

theorem visitTypeConversion_other_keeps_value_of_byte_load :
    DataType.kInt8 ≠ .kUint64 ∧ conversionWidth .kUint8 ≠ none ∧ DataType.kInt8.Represents (-3) ∧
      visitTypeConversion .kInt8 .kUint8 (.other (.arrayGet false) true) false = .replaceWithRetypedInput ∧
      rewrittenValue .kUint8 (-3) (-3) (visitTypeConversion .kInt8 .kUint8 (.other (.arrayGet false) true) false) =
        integralConversion .kUint8 (-3) :=
  ⟨by decide, by decide, ⟨_, _, rfl, by decide, by decide⟩, by decide,
    visitTypeConversion_other_keeps_value (by decide) (by decide) ⟨_, _, rfl, by decide, by decide⟩⟩

end ArtRuntime.Compiler
