import ArtRuntime.Compiler.X8664.DivRemCorrectness

/-! # Integer division by a constant on x86

`InstructionCodeGeneratorX86::GenerateDivRemIntegral` for an `int` divided by
a constant, and the sequences it selects. They are the `int` sequences of
x86-64 with two differences: `AbsOrMin`, `IsPowerOfTwo` and `CTZ` read the
32-bit `imm`, and `DivByPowerOfTwo` has no special form for a magnitude of two
and moves with a 32-bit `cmovl`. A `long` goes to the runtime and is not
modelled. The registers are 32 bits wide.

The last theorem gathers what the three back-end cases do: an `int` and a
`long` on x86-64 and an `int` on x86. -/

namespace ArtRuntime.Compiler.X86

open ArtRuntime.Foundation ArtRuntime.Foundation.X86 ArtRuntime.Foundation.TwosComplement

/-- The general-purpose registers of x86, numbered as the encoding numbers them. -/
inductive Register
  | eax | ecx | edx | ebx | esp | ebp | esi | edi
  deriving DecidableEq, Repr

def Register.toNat : Register → Nat
  | eax => 0 | ecx => 1 | edx => 2 | ebx => 3 | esp => 4 | ebp => 5 | esi => 6 | edi => 7

/-- The locations of a division or a remainder: the numerator, the result and
the temporaries. -/
structure LocationSummary where
  inAt0 : Register
  out : Register
  temps : List Register

/-- `GetTemp(index)`. -/
def LocationSummary.getTemp (locations : LocationSummary) (index : Nat) : Option Register :=
  locations.temps[index]?

/-- `LocationsBuilderX86::VisitDiv` for an `int`. -/
def visitDiv (constant : Bool) (temp : Register) : LocationSummary :=
  ⟨.eax, .eax, .edx :: if constant then [temp] else []⟩

/-- `LocationsBuilderX86::VisitRem` for an `int`. -/
def visitRem (constant : Bool) (temp : Register) : LocationSummary :=
  ⟨.eax, .edx, if constant then [temp] else []⟩

/-- The locations of a division or a remainder by a constant. -/
def visitDivRem (isDiv : Bool) (temp : Register) : LocationSummary :=
  if isDiv then visitDiv true temp else visitRem true temp

/-- `DivRemOneOrMinusOne`. -/
def divRemOneOrMinusOne (isDiv : Bool) (locations : LocationSummary) (imm : Int) : List Instruction :=
  let outRegister := locations.out.toNat
  let inputRegister := locations.inAt0.toNat
  if !isDiv then [Instruction.xor .l outRegister outRegister]
  else .mov .l outRegister inputRegister :: if imm = -1 then [Instruction.neg .l outRegister] else []

/-- `RemByPowerOfTwo`. -/
def remByPowerOfTwo (locations : LocationSummary) (imm : Int) : Option (List Instruction) := do
  let out := locations.out.toNat
  let numerator := locations.inAt0.toNat
  let absImm := (absOrMin (BitVec.ofInt 32 imm)).toNat
  let tmp := (← locations.getTemp 0).toNat
  some [Instruction.mov .l out numerator, .andImm .l out (absImm - 1 : Nat), .test .l numerator numerator,
    .j X8664.Condition.kLess.toNat X8664.jmpLoc, .jmp X8664.done,
    .bind X8664.jmpLoc, .movImm .l tmp (BitVec.ofNat 32 (absImm - 1)).toInt, .not .l tmp, .or .l tmp out,
    .test .l out out, .cmov X8664.Condition.kNotEqual.toNat .l out tmp,
    .bind X8664.done]

/-- `DivByPowerOfTwo`. -/
def divByPowerOfTwo (locations : LocationSummary) (imm : Int) : Option (List Instruction) := do
  let outRegister := locations.out.toNat
  let inputRegister := locations.inAt0.toNat
  let absImm := (absOrMin (BitVec.ofInt 32 imm)).toNat
  let num := (← locations.getTemp 0).toNat
  let shift := Base.ctz 32 (BitVec.ofInt 32 imm).toNat
  some ([Instruction.lea .l num inputRegister (BitVec.ofNat 32 (absImm - 1)).toInt, .test .l inputRegister inputRegister,
      .cmov X8664.Condition.kGreaterEqual.toNat .l num inputRegister] ++
    [Instruction.sar .l num shift] ++ (if imm < 0 then [Instruction.neg .l num] else []) ++ [Instruction.mov .l outRegister num])

/-- `GenerateDivRemWithAnyConstant`. -/
def generateDivRemWithAnyConstant (isDiv : Bool) (locations : LocationSummary) (imm : Int) :
    Option (List Instruction) := do
  let eax := locations.inAt0.toNat
  let edx := (← if isDiv then locations.getTemp 0 else some locations.out).toNat
  let num := (← locations.getTemp (if isDiv then 1 else 0)).toNat
  let (magic, shift) ← calculateMagicAndShiftForDivRem imm false
  some ([Instruction.mov .l num eax, .movImm .l eax magic, .imul .l num] ++
    (if imm > 0 ∧ magic < 0 then [Instruction.add .l edx num]
      else if imm < 0 ∧ magic > 0 then [Instruction.sub .l edx num] else []) ++
    (if shift ≠ 0 then [Instruction.sar .l edx shift.toNat] else []) ++
    [Instruction.mov .l eax edx, .shr .l edx 31, .add .l edx eax] ++
    (if !isDiv then [Instruction.mov .l eax num, .imulImm .l edx imm, .sub .l eax edx, .mov .l edx eax]
      else [Instruction.mov .l eax edx]))

/-- `GenerateDivRemIntegral` for a constant divisor `imm`. -/
def generateDivRemIntegral (isDiv : Bool) (type : DataType) (locations : LocationSummary) (imm : Int) :
    Option (List Instruction) :=
  match type with
  | .kInt32 =>
    if imm = 0 then some []
    else if imm = 1 ∨ imm = -1 then some (divRemOneOrMinusOne isDiv locations imm)
    else if Base.isPowerOfTwo (absOrMin (BitVec.ofInt 32 imm)) then
      if isDiv then divByPowerOfTwo locations imm else remByPowerOfTwo locations imm
    else generateDivRemWithAnyConstant isDiv locations imm
  | _ => none

section Correctness

variable (temp : Register)

/-- The magnitude of an `int` divisor as `RemByPowerOfTwo` and
`DivByPowerOfTwo` read it. -/
theorem toNat_absOrMin_toInt (divisor : BitVec 32) :
    (absOrMin (BitVec.ofInt 32 divisor.toInt)).toNat = divisor.toInt.natAbs :=
  toNat_absOrMin (by decide) (fits_toInt divisor).1 (fits_toInt divisor).2

theorem remByPowerOfTwo_computes (tempApart : temp ≠ .eax ∧ temp ≠ .edx) {divisor : BitVec 32} {k : Nat}
    (magnitude : divisor.toInt.natAbs = 2 ^ k) (kPositive : 1 ≤ k) :
    ∃ code, remByPowerOfTwo (visitRem true temp) divisor.toInt = some code ∧
      X8664.ComputesDivRem 32 false .l 0 2 divisor code := by
  have tempOut : temp.toNat ≠ 2 := by cases temp <;> simp_all [Register.toNat]
  have absImm := toNat_absOrMin_toInt divisor
  rw [magnitude] at absImm
  exact ⟨_, rfl, X8664.computesDivRem_remByPowerOfTwoInt le_rfl (by decide) tempOut absImm
    ⟨kPositive, X8664.lt_of_natAbs_eq divisor magnitude⟩ magnitude⟩

theorem divByPowerOfTwo_computes {divisor : BitVec 32} {k : Nat} (magnitude : divisor.toInt.natAbs = 2 ^ k) :
    ∃ code, divByPowerOfTwo (visitDiv true temp) divisor.toInt = some code ∧
      X8664.ComputesDivRem 32 true .l 0 0 divisor code := by
  have absImm := toNat_absOrMin_toInt divisor
  rw [magnitude] at absImm
  have kBelow := X8664.lt_of_natAbs_eq divisor magnitude
  have shift : Base.ctz 32 (BitVec.ofInt 32 divisor.toInt).toNat = k := Base.ctz_toNat_ofInt magnitude kBelow
  refine ⟨_, rfl, ?_⟩
  simp only [absImm, shift, Register.toNat, visitDiv]
  exact X8664.computesDivRem_byPowerOfTwo .l le_rfl
    (X8664.biasesBy_int .l le_rfl le_rfl (by decide) kBelow) kBelow magnitude rfl

theorem generateDivRemWithAnyConstant_computes (isDiv : Bool) (tempApart : temp ≠ .eax ∧ temp ≠ .edx)
    {divisor : BitVec 32} (large : 3 ≤ divisor.toInt.natAbs) (notPower : ∀ j, divisor.toInt.natAbs ≠ 2 ^ j) :
    ∃ code, generateDivRemWithAnyConstant isDiv (visitDivRem isDiv temp) divisor.toInt = some code ∧
      X8664.ComputesDivRem 32 isDiv .l 0 (if isDiv then 0 else 2) divisor code := by
  have tempNum : temp.toNat ≠ 0 ∧ temp.toNat ≠ 2 := by cases temp <;> simp_all [Register.toNat]
  have range := fits_toInt divisor
  obtain ⟨j, -, calculated⟩ := calculateMagicAndShiftForDivRem_eq
    (show -2 ^ signBits false ≤ divisor.toInt from range.1) range.2 large notPower
  refine ⟨_, ?_, X8664.computesDivRem_withAnyConstantInt le_rfl isDiv tempNum large notPower calculated⟩
  cases isDiv <;> simp [generateDivRemWithAnyConstant, visitDivRem, visitDiv, visitRem, LocationSummary.getTemp,
    calculated, Register.toNat]

/-- `GenerateDivRemIntegral` for an `int` divided by a constant that is not
zero: the sequence it selects computes Java's quotient or remainder. -/
theorem generateDivRemIntegral_computes (isDiv : Bool) (tempApart : temp ≠ .eax ∧ temp ≠ .edx)
    (divisor : BitVec 32) (nonzero : divisor ≠ 0) :
    ∃ code, generateDivRemIntegral isDiv .kInt32 (visitDivRem isDiv temp) divisor.toInt = some code ∧
      X8664.ComputesDivRem 32 isDiv .l (visitDivRem isDiv temp).inAt0.toNat (visitDivRem isDiv temp).out.toNat
        divisor code := by
  have toIntNonzero := X8664.toInt_ne_zero nonzero
  have selected := X8664.isPowerOfTwo_absOrMin_iff (by decide) (fits_toInt divisor) toIntNonzero
  have inAt0 : (visitDivRem isDiv temp).inAt0.toNat = 0 := by cases isDiv <;> rfl
  have out : (visitDivRem isDiv temp).out.toNat = if isDiv then 0 else 2 := by cases isDiv <;> rfl
  rw [inAt0, generateDivRemIntegral, if_neg toIntNonzero]
  by_cases unit : divisor.toInt = 1 ∨ divisor.toInt = -1
  · rw [if_pos unit]
    refine ⟨_, rfl, ?_⟩
    cases isDiv
    · exact X8664.computesDivRem_xorSelf .l le_rfl 0 2 (by omega)
    · exact X8664.computesDivRem_movNegate .l le_rfl 0 0 unit rfl
  rw [if_neg unit]
  by_cases power : Base.isPowerOfTwo (absOrMin (BitVec.ofInt 32 divisor.toInt)) = true
  · -- a power of two, the minimum included
    obtain ⟨k, magnitude⟩ := selected.mp power
    rw [if_pos power]
    cases isDiv
    · exact remByPowerOfTwo_computes temp tempApart magnitude (X8664.one_le_of_natAbs_eq unit magnitude)
    · exact divByPowerOfTwo_computes temp magnitude
  · have notPower : ∀ j, divisor.toInt.natAbs ≠ 2 ^ j := fun j equal => power (selected.mpr ⟨j, equal⟩)
    rw [if_neg power, out]
    exact generateDivRemWithAnyConstant_computes temp isDiv tempApart
      (X8664.three_le_natAbs toIntNonzero unit notPower) notPower

end Correctness

/-- Division and remainder by a constant compute Java's `/` and `%` on both
back ends: on x86-64 for an `int` and a `long`, and on x86 for an `int`. For
every divisor that is not zero, `GenerateDivRemIntegral` emits a sequence, and
from any machine state it leaves the truncated quotient, or the remainder of
the numerator's sign, of the numerator register in the output register;
`MIN_VALUE / -1` is `MIN_VALUE`. -/
theorem divRemByConstant_computes_java (isDiv : Bool) :
    (∀ temp : X8664.Register, temp ≠ .rax ∧ temp ≠ .rdx → ∀ divisor : BitVec 32, divisor ≠ 0 →
      ∃ code, X8664.generateDivRemIntegral isDiv .kInt32 (X8664.visitDivRem isDiv temp) divisor.toInt = some code ∧
        X8664.ComputesDivRem 64 isDiv .l (X8664.visitDivRem isDiv temp).inAt0.toNat
          (X8664.visitDivRem isDiv temp).out.toNat divisor code) ∧
    (∀ temp : X8664.Register, temp ≠ .rax ∧ temp ≠ .rdx → ∀ divisor : BitVec 64, divisor ≠ 0 →
      ∃ code, X8664.generateDivRemIntegral isDiv .kInt64 (X8664.visitDivRem isDiv temp) divisor.toInt = some code ∧
        X8664.ComputesDivRem 64 isDiv .q (X8664.visitDivRem isDiv temp).inAt0.toNat
          (X8664.visitDivRem isDiv temp).out.toNat divisor code) ∧
    (∀ temp : Register, temp ≠ .eax ∧ temp ≠ .edx → ∀ divisor : BitVec 32, divisor ≠ 0 →
      ∃ code, generateDivRemIntegral isDiv .kInt32 (visitDivRem isDiv temp) divisor.toInt = some code ∧
        X8664.ComputesDivRem 32 isDiv .l (visitDivRem isDiv temp).inAt0.toNat (visitDivRem isDiv temp).out.toNat
          divisor code) :=
  ⟨fun temp tempApart divisor nonzero =>
      X8664.generateDivRemIntegral_computes (.inl ⟨rfl, rfl⟩) isDiv temp tempApart divisor nonzero,
    fun temp tempApart divisor nonzero =>
      X8664.generateDivRemIntegral_computes (.inr ⟨rfl, rfl⟩) isDiv temp tempApart divisor nonzero,
    fun temp tempApart divisor nonzero => generateDivRemIntegral_computes temp isDiv tempApart divisor nonzero⟩

/-- Dividing an `int` by seven on x86-64, with `rcx` the temporary. -/
theorem divRemByConstant_divideBySeven :
    ∃ code, X8664.generateDivRemIntegral true .kInt32 (X8664.visitDivRem true .rcx) (7 : BitVec 32).toInt =
        some code ∧
      X8664.ComputesDivRem 64 true .l (X8664.visitDivRem true .rcx).inAt0.toNat
        (X8664.visitDivRem true .rcx).out.toNat 7 code :=
  (divRemByConstant_computes_java true).1 .rcx ⟨by decide, by decide⟩ 7 (by decide)

end ArtRuntime.Compiler.X86
