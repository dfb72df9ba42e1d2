import ArtRuntime.Foundation.X86
import ArtRuntime.Base.BitUtils
import ArtRuntime.Compiler.Location
import ArtRuntime.Compiler.CodeGeneratorUtils
import ArtRuntime.Compiler.X8664.Address
import ArtRuntime.Compiler.X8664.Label

/-! # Integer division by a constant on x86-64

`InstructionCodeGeneratorX86_64::GenerateDivRemIntegral` for a constant
divisor and the sequences it selects: `DivRemOneOrMinusOne` for `±1`,
`DivByPowerOfTwo` and `RemByPowerOfTwo` when `AbsOrMin` of the divisor is a
power of two, which takes in the minimum, and otherwise
`GenerateDivRemWithAnyConstant`, a multiplication by the magic number of
`CalculateMagicAndShiftForDivRem`. The locations are those
`LocationsBuilderX86_64::VisitDiv` and `VisitRem` ask for: the numerator in
`rax`, the quotient in `rax` and the remainder in `rdx`, `rdx` a temporary of a
division, and one more register of the allocator's choice.

The sequences run on the register machine of `Foundation.X86`, 64 bits wide,
and each is proved to leave Java's quotient or remainder in the output
register: the truncating `n / d`, with `MIN_VALUE / -1 = MIN_VALUE`, and the
remainder of the sign of `n`. A division by zero emits nothing, since the
preceding `DivZeroCheck` throws. -/

namespace ArtRuntime.Compiler.X8664

open ArtRuntime.Foundation ArtRuntime.Foundation.X86 ArtRuntime.Foundation.TwosComplement

/-- The locations of a division or a remainder: the numerator, the result and
the temporaries. -/
structure LocationSummary where
  inAt0 : Register
  out : Register
  temps : List Register

/-- `GetTemp(index)`. -/
def LocationSummary.getTemp (locations : LocationSummary) (index : Nat) : Option Register :=
  locations.temps[index]?

/-- `LocationsBuilderX86_64::VisitDiv` for an `int` or a `long`: `rdx` takes
the high half of the dividend, and a constant divisor asks for one more
register, `temp`. -/
def visitDiv (constant : Bool) (temp : Register) : LocationSummary :=
  ⟨.rax, .rax, .rdx :: if constant then [temp] else []⟩

/-- `LocationsBuilderX86_64::VisitRem` for an `int` or a `long`. -/
def visitRem (constant : Bool) (temp : Register) : LocationSummary :=
  ⟨.rax, .rdx, if constant then [temp] else []⟩

/-- The locations of a division or a remainder by a constant. -/
def visitDivRem (isDiv : Bool) (temp : Register) : LocationSummary :=
  if isDiv then visitDiv true temp else visitRem true temp

/-- The labels of a sequence: `jmp_loc` and `done`. -/
def jmpLoc : Nat := 0

def done : Nat := 1

/-- `CodeGeneratorX86_64::Load64BitValue(dest, value)`. -/
def load64BitValue (dest : Register) (value : Int) : List Instruction :=
  if value = 0 then [Instruction.xor .l dest.toNat dest.toNat]
  else if 0 ≤ value ∧ value < 2 ^ 32 then [Instruction.movImm .l dest.toNat (BitVec.ofInt 32 value).toInt]
  else [Instruction.movImm .q dest.toNat value]

/-- `DivRemOneOrMinusOne`. -/
def divRemOneOrMinusOne (isDiv : Bool) (type : DataType) (locations : LocationSummary) (imm : Int) :
    Option (List Instruction) :=
  let outputRegister := locations.out.toNat
  let inputRegister := locations.inAt0.toNat
  match type with
  | .kInt32 =>
    if !isDiv then some [Instruction.xor .l outputRegister outputRegister]
    else some (Instruction.mov .l outputRegister inputRegister :: if imm = -1 then [Instruction.neg .l outputRegister] else [])
  | .kInt64 =>
    if !isDiv then some [Instruction.xor .l outputRegister outputRegister]
    else some (Instruction.mov .q outputRegister inputRegister :: if imm = -1 then [Instruction.neg .q outputRegister] else [])
  | _ => none

/-- `RemByPowerOfTwo`. -/
def remByPowerOfTwo (type : DataType) (locations : LocationSummary) (imm : Int) : Option (List Instruction) := do
  let out := locations.out.toNat
  let numerator := locations.inAt0.toNat
  let absImm := (absOrMin (BitVec.ofInt 64 imm)).toNat
  let tmp := (← locations.getTemp 0).toNat
  match type with
  | .kInt32 =>
    some [Instruction.mov .l out numerator, .andImm .l out (absImm - 1 : Nat), .test .l numerator numerator,
      .j Condition.kLess.toNat jmpLoc, .jmp done,
      .bind jmpLoc, .movImm .l tmp (BitVec.ofNat 32 (absImm - 1)).toInt, .not .l tmp, .or .l tmp out,
      .test .l out out, .cmov Condition.kNotEqual.toNat .l out tmp,
      .bind done]
  | .kInt64 =>
    some (load64BitValue (← locations.getTemp 0) (absImm - 1 : Nat) ++
      [Instruction.mov .q out numerator, .and .q out tmp, .test .q numerator numerator,
        .j Condition.kLess.toNat jmpLoc, .jmp done,
        .bind jmpLoc, .not .q tmp, .or .q tmp out, .test .q out out,
        .cmov Condition.kNotEqual.toNat .q out tmp,
        .bind done])
  | _ => none

/-- `DivByPowerOfTwo`; a divisor of magnitude two adds the sign bit in place of
the bias and the conditional move. -/
def divByPowerOfTwo (type : DataType) (locations : LocationSummary) (imm : Int) : Option (List Instruction) := do
  let outputRegister := locations.out.toNat
  let numerator := locations.inAt0.toNat
  let absImm := (absOrMin (BitVec.ofInt 64 imm)).toNat
  let tmp ← locations.getTemp 0
  let shift := Base.ctz 64 (BitVec.ofInt 64 imm).toNat
  match type with
  | .kInt32 =>
    some ((if absImm = 2 then
        [Instruction.lea .l tmp.toNat numerator 0, .shr .l tmp.toNat 31, .add .l tmp.toNat numerator]
      else
        [Instruction.lea .l tmp.toNat numerator (BitVec.ofNat 32 (absImm - 1)).toInt, .test .l numerator numerator,
          .cmov Condition.kGreaterEqual.toNat .q tmp.toNat numerator]) ++
      [Instruction.sar .l tmp.toNat shift] ++ (if imm < 0 then [Instruction.neg .l tmp.toNat] else []) ++
      [Instruction.mov .l outputRegister tmp.toNat])
  | .kInt64 =>
    -- the temporary is `rdx`
    some ((if absImm = 2 then
        [Instruction.mov .q tmp.toNat numerator, .shr .q tmp.toNat 63, .add .q tmp.toNat numerator]
      else
        load64BitValue tmp (absImm - 1 : Nat) ++
          [Instruction.add .q tmp.toNat numerator, .test .q numerator numerator,
            .cmov Condition.kGreaterEqual.toNat .q tmp.toNat numerator]) ++
      [Instruction.sar .q tmp.toNat shift] ++ (if imm < 0 then [Instruction.neg .q tmp.toNat] else []) ++
      [Instruction.mov .q outputRegister tmp.toNat])
  | _ => none

/-- `GenerateDivRemWithAnyConstant`. For a `long` remainder the source
multiplies by a 32-bit immediate or, past it, by the constant from the literal
area: the same product, so both are `imulImm`. -/
def generateDivRemWithAnyConstant (isDiv : Bool) (type : DataType) (locations : LocationSummary) (imm : Int) :
    Option (List Instruction) := do
  let numerator := (← locations.getTemp (if isDiv then 1 else 0)).toNat
  let eax := locations.inAt0
  let edx := (← if isDiv then locations.getTemp 0 else some locations.out).toNat
  match type with
  | .kInt32 =>
    let (magic, shift) ← calculateMagicAndShiftForDivRem imm false
    some ([Instruction.mov .l numerator eax.toNat, .movImm .l eax.toNat magic, .imul .l numerator] ++
      (if imm > 0 ∧ magic < 0 then [Instruction.add .l edx numerator]
        else if imm < 0 ∧ magic > 0 then [Instruction.sub .l edx numerator] else []) ++
      (if shift ≠ 0 then [Instruction.sar .l edx shift.toNat] else []) ++
      [Instruction.mov .l eax.toNat edx, .shr .l edx 31, .add .l edx eax.toNat] ++
      (if !isDiv then [Instruction.mov .l eax.toNat numerator, .imulImm .l edx imm, .sub .l eax.toNat edx, .mov .l edx eax.toNat]
        else [Instruction.mov .l eax.toNat edx]))
  | .kInt64 =>
    let (magic, shift) ← calculateMagicAndShiftForDivRem imm true
    some ([Instruction.mov .q numerator eax.toNat] ++ load64BitValue eax magic ++ [Instruction.imul .q numerator] ++
      (if imm > 0 ∧ magic < 0 then [Instruction.add .q edx numerator]
        else if imm < 0 ∧ magic > 0 then [Instruction.sub .q edx numerator] else []) ++
      (if shift ≠ 0 then [Instruction.sar .q edx shift.toNat] else []) ++
      [Instruction.mov .q eax.toNat edx, .shr .q edx 63, .add .q edx eax.toNat] ++
      (if !isDiv then [Instruction.mov .q eax.toNat numerator, .imulImm .q edx imm, .sub .q eax.toNat edx, .mov .q edx eax.toNat]
        else [Instruction.mov .q eax.toNat edx]))
  | _ => none

/-- `GenerateDivRemIntegral` for a constant divisor `imm`, `Int64FromConstant`
of the second input. -/
def generateDivRemIntegral (isDiv : Bool) (type : DataType) (locations : LocationSummary) (imm : Int) :
    Option (List Instruction) :=
  if imm = 0 then some []
  else if imm = 1 ∨ imm = -1 then divRemOneOrMinusOne isDiv type locations imm
  else if Base.isPowerOfTwo (absOrMin (BitVec.ofInt 64 imm)) then
    if isDiv then divByPowerOfTwo type locations imm else remByPowerOfTwo type locations imm
  else generateDivRemWithAnyConstant isDiv type locations imm

end ArtRuntime.Compiler.X8664
