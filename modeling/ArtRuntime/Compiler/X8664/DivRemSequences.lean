import ArtRuntime.Compiler.X8664.DivRem

/-! # What the pieces of a division by a constant compute

The sequences `GenerateDivRemIntegral` emits, piece by piece, run on the
register machine of `Foundation.X86` at either operand size: the multiply by
the magic number with its correction, shift and rounding toward zero; the mask
and sign fix of a remainder by a power of two; the bias, shift and negation of
a quotient by a power of two. The `int` sequences of the 32-bit back end are the
same instructions, so these lemmas serve both. -/

namespace ArtRuntime.Compiler.X8664

open ArtRuntime.Foundation ArtRuntime.Foundation.X86 ArtRuntime.Foundation.TwosComplement
open ArtRuntime.Foundation.InvariantDivision

/-- What a division or a remainder by a constant must do, from any running
machine: leave Java's `n / d` or `n % d` of the numerator register in the
output register. `BitVec.sdiv` truncates, with `MIN_VALUE / -1 = MIN_VALUE`,
and `BitVec.srem` takes the sign of `n`. -/
def ComputesDivRem (w : Nat) (isDiv : Bool) (size : OperandSize) (numerator out : Nat)
    (divisor : BitVec size.bits) (code : List Instruction) : Prop :=
  ∀ m : Machine w, m.skipping = none →
    (run code m).skipping = none ∧
    (run code m).read size out =
      if isDiv then (m.read size numerator).sdiv divisor else (m.read size numerator).srem divisor

/-- What the bias before the shift of a division by `2 ^ k` must do: add
`2 ^ k - 1` to a negative numerator, in `tmp`. -/
def BiasesBy (w : Nat) (size : OperandSize) (numerator tmp k : Nat) (bias : List Instruction) : Prop :=
  ∀ m : Machine w, m.skipping = none →
    (run bias m).skipping = none ∧
    ((run bias m).read size tmp).toInt =
      (m.read size numerator).toInt + if (m.read size numerator).toInt < 0 then 2 ^ k - 1 else 0

section Magic

variable {w : Nat} {m : Machine w}

/-- The magic number of `CalculateMagicAndShiftForDivRem` is a word of the
operand size. -/
theorem fits_of_calculateMagicAndShiftForDivRem {divisor : Int} {isLong : Bool}
    (above : -2 ^ signBits isLong ≤ divisor) (below : divisor < 2 ^ signBits isLong)
    (large : 3 ≤ divisor.natAbs) (notPower : ∀ j, divisor.natAbs ≠ 2 ^ j) {magicWord shift : Int}
    (calculated : calculateMagicAndShiftForDivRem divisor isLong = some (magicWord, shift)) :
    Fits (signBits isLong + 1) magicWord := by
  obtain ⟨j, -, result⟩ := calculateMagicAndShiftForDivRem_eq above below large notPower
  rw [calculated, Option.some.injEq, Prod.mk.injEq] at result
  have reading : (BitVec.ofInt (signBits isLong + 1)
      (divisor.sign * magic divisor.natAbs (signBits isLong + j))).toInt =
      (divisor.sign * magic divisor.natAbs (signBits isLong + j)).bmod (2 ^ (signBits isLong + 1)) := by
    rw [BitVec.toInt_ofInt]
  rw [result.1, ← reading]
  exact fits_toInt _

/-- The magic number read back as a word of `s` bits and corrected by `2 ^ s`
as `GenerateDivRemWithAnyConstant` corrects it: the multiplier with the
divisor's sign. -/
theorem magic_add_correction {s : Nat} (positive : 0 < s) {divisor : Int} (nonzero : divisor ≠ 0)
    {magicNat : Nat} (magicPositive : 0 < magicNat) (below : magicNat < 2 ^ s) :
    (divisor.sign * magicNat).bmod (2 ^ s) +
      (if divisor > 0 ∧ (divisor.sign * magicNat).bmod (2 ^ s) < 0 then 2 ^ s
        else if divisor < 0 ∧ (divisor.sign * magicNat).bmod (2 ^ s) > 0 then -2 ^ s else 0) =
      divisor.sign * magicNat := by
  have double : (2 : Int) ^ s = 2 ^ (s - 1) * 2 := by rw [← pow_succ]; congr 1; omega
  have belowInt : (magicNat : Int) < 2 ^ s := by exact_mod_cast below
  rcases Int.lt_or_gt_of_ne nonzero with negative | positiveDivisor
  · rw [Int.sign_eq_neg_one_of_neg negative]
    by_cases small : (magicNat : Int) ≤ 2 ^ (s - 1)
    · rw [bmod_eq_add_mul_of_fits positive 0 (by unfold Fits; omega)]
      split_ifs <;> omega
    · rw [bmod_eq_add_mul_of_fits positive 1 (by unfold Fits; omega)]
      split_ifs <;> omega
  · rw [Int.sign_eq_one_of_pos positiveDivisor]
    by_cases small : (magicNat : Int) < 2 ^ (s - 1)
    · rw [bmod_eq_add_mul_of_fits positive 0 (by unfold Fits; omega)]
      split_ifs <;> omega
    · rw [bmod_eq_add_mul_of_fits positive (-1) (by unfold Fits; omega)]
      split_ifs <;> omega

theorem run_correction (size : OperandSize) (narrow : size.bits ≤ w) (running : m.skipping = none) {num : Nat}
    {imm magic multiplier : Int}
    (corrected : magic + (if imm > 0 ∧ magic < 0 then 2 ^ size.bits
      else if imm < 0 ∧ magic > 0 then -2 ^ size.bits else 0) = multiplier)
    (bound : |multiplier| < 2 ^ size.bits)
    (high : (m.read size 2).toInt = magic * (m.read size num).toInt / 2 ^ size.bits) :
    (run (if imm > 0 ∧ magic < 0 then [Instruction.add size 2 num]
      else if imm < 0 ∧ magic > 0 then [Instruction.sub size 2 num] else []) m).skipping = none ∧
    ((run (if imm > 0 ∧ magic < 0 then [Instruction.add size 2 num]
      else if imm < 0 ∧ magic > 0 then [Instruction.sub size 2 num] else []) m).read size 2).toInt =
      multiplier * (m.read size num).toInt / 2 ^ size.bits := by
  have powerNonzero : (2 : Int) ^ size.bits ≠ 0 := by positivity
  have fits := fits_mul_ediv size.bits_pos bound (fits_toInt (m.read size num))
  split_ifs at corrected ⊢ with adds subtracts
  · -- `addl edx, num`: the multiplier was `2 ^ s` short
    have sum : (m.read size 2).toInt + (m.read size num).toInt =
        multiplier * (m.read size num).toInt / 2 ^ size.bits := by
      rw [high, ← corrected, Int.add_mul, Int.mul_comm (2 ^ size.bits), Int.add_mul_ediv_right _ _ powerNonzero]
    rw [run_cons_of_running running]
    simp only [run_nil, Machine.execute, Machine.skipping_setFlags, Machine.skipping_write, running,
      Machine.read_setFlags, Machine.read_write_self _ _ _ narrow, true_and]
    rw [toInt_add_of_fits size.bits_pos (by rw [sum]; exact fits), sum]
  · -- `subl edx, num`: the multiplier was `2 ^ s` over
    have difference : (m.read size 2).toInt - (m.read size num).toInt =
        multiplier * (m.read size num).toInt / 2 ^ size.bits := by
      rw [high, ← corrected, Int.add_mul, neg_mul, ← Int.mul_neg, Int.mul_comm (2 ^ size.bits),
        Int.add_mul_ediv_right _ _ powerNonzero]
      ring
    rw [run_cons_of_running running]
    simp only [run_nil, Machine.execute, Machine.skipping_setFlags, Machine.skipping_write, running,
      Machine.read_setFlags, Machine.read_write_self _ _ _ narrow, true_and]
    rw [toInt_sub_of_fits size.bits_pos (by rw [difference]; exact fits), difference]
  · rw [Int.add_zero] at corrected
    exact ⟨running, by rw [run_nil, high, corrected]⟩

theorem run_shift (size : OperandSize) (narrow : size.bits ≤ w) (running : m.skipping = none) {shift : Int}
    (range : 0 ≤ shift ∧ shift < size.bits) {x : Int} (value : (m.read size 2).toInt = x / 2 ^ size.bits) :
    (run (if shift ≠ 0 then [Instruction.sar size 2 shift.toNat] else []) m).skipping = none ∧
    ((run (if shift ≠ 0 then [Instruction.sar size 2 shift.toNat] else []) m).read size 2).toInt =
      x / 2 ^ (size.bits + shift.toNat) := by
  split_ifs with shifted
  · rw [run_cons_of_running running, run_nil]
    refine ⟨by simp only [Machine.execute, Machine.skipping_setFlags, Machine.skipping_write, running], ?_⟩
    rw [Machine.toInt_read_sar size narrow 2 (by omega), value, Int.ediv_ediv_of_nonneg (by positivity),
      ← pow_add]
  · have zero : shift.toNat = 0 := by omega
    exact ⟨running, by rw [run_nil, value, zero, Nat.add_zero]⟩

theorem run_roundTowardZero (size : OperandSize) (narrow : size.bits ≤ w) (running : m.skipping = none)
    {eax edx : Nat} (apart : eax ≠ edx) {count : Nat} (signBit : count + 1 = size.bits) :
    (run [Instruction.mov size eax edx, .shr size edx count, .add size edx eax] m).skipping = none ∧
    ((run [Instruction.mov size eax edx, .shr size edx count, .add size edx eax] m).read size edx).toInt =
      towardZero (m.read size edx).toInt := by
  rw [run_of_straight (by simp [Instruction.isJump]) running]
  simp only [List.foldl_cons, List.foldl_nil, Machine.execute, Machine.read_write_of_ne apart.symm,
    Machine.read_write_of_ne apart, Machine.read_setFlags, Machine.read_write_self _ _ _ narrow,
    Machine.skipping_setFlags, Machine.skipping_write, running, true_and]
  rw [Machine.shiftCount_of_lt (show count < size.bits by omega), show count = size.bits - 1 by omega,
    toInt_ushiftRight_add size.two_le_bits, towardZero]
  split <;> omega

theorem run_remainderTail (size : OperandSize) (narrow : size.bits ≤ w) (running : m.skipping = none) (num : Nat)
    (imm : Int) :
    (run [Instruction.mov size 0 num, .imulImm size 2 imm, .sub size 0 2, .mov size 2 0] m).skipping = none ∧
    (run [Instruction.mov size 0 num, .imulImm size 2 imm, .sub size 0 2, .mov size 2 0] m).read size 2 =
      m.read size num - m.read size 2 * BitVec.ofInt size.bits imm := by
  rw [run_of_straight (by simp [Instruction.isJump]) running]
  simp [Machine.execute, narrow, running]

/-- After the multiply, the sequence of `GenerateDivRemWithAnyConstant` leaves
the quotient of `num` by the divisor in `eax`, or the remainder in `edx`: the
correction makes the multiplier exact, the shift takes the floor at
`2 ^ (N + j)`, and rounding toward zero turns the floor into the truncated
quotient. -/
theorem run_divRemWithMagic (size : OperandSize) {isLong : Bool} (sizeEq : size.bits = signBits isLong + 1)
    (narrow : size.bits ≤ w) (running : m.skipping = none) {num : Nat} (numApart : num ≠ 0 ∧ num ≠ 2)
    {divisor : Int} (above : -2 ^ signBits isLong ≤ divisor) (below : divisor < 2 ^ signBits isLong)
    (large : 3 ≤ divisor.natAbs) (notPower : ∀ j, divisor.natAbs ≠ 2 ^ j) {magicWord shift : Int}
    (calculated : calculateMagicAndShiftForDivRem divisor isLong = some (magicWord, shift))
    (high : (m.read size 2).toInt = magicWord * (m.read size num).toInt / 2 ^ size.bits)
    {count : Nat} (signBit : count + 1 = size.bits) (isDiv : Bool) :
    (run ((if divisor > 0 ∧ magicWord < 0 then [Instruction.add size 2 num]
        else if divisor < 0 ∧ magicWord > 0 then [Instruction.sub size 2 num] else []) ++
      ((if shift ≠ 0 then [Instruction.sar size 2 shift.toNat] else []) ++
      ([Instruction.mov size 0 2, .shr size 2 count, .add size 2 0] ++
      (if !isDiv then [Instruction.mov size 0 num, .imulImm size 2 divisor, .sub size 0 2, .mov size 2 0]
        else [Instruction.mov size 0 2])))) m).skipping = none ∧
    (run ((if divisor > 0 ∧ magicWord < 0 then [Instruction.add size 2 num]
        else if divisor < 0 ∧ magicWord > 0 then [Instruction.sub size 2 num] else []) ++
      ((if shift ≠ 0 then [Instruction.sar size 2 shift.toNat] else []) ++
      ([Instruction.mov size 0 2, .shr size 2 count, .add size 2 0] ++
      (if !isDiv then [Instruction.mov size 0 num, .imulImm size 2 divisor, .sub size 0 2, .mov size 2 0]
        else [Instruction.mov size 0 2])))) m).read size (if isDiv then 0 else 2) =
      if isDiv then (m.read size num).sdiv (BitVec.ofInt size.bits divisor)
      else (m.read size num).srem (BitVec.ofInt size.bits divisor) := by
  have operands := searchOperands above below large notPower
  obtain ⟨j, found, result⟩ := calculateMagicAndShiftForDivRem_eq above below large notPower
  rw [calculated, Option.some.injEq, Prod.mk.injEq] at result
  obtain ⟨magicEq, shiftEq⟩ := result
  have magicBelow : magic divisor.natAbs (signBits isLong + j) < 2 ^ size.bits := by
    rw [sizeEq]
    exact found.magic_lt operands
  have magicPositive : 0 < magic divisor.natAbs (signBits isLong + j) := Nat.succ_pos _
  have jBounds := found.le_width operands
  have jPositive := found.moved
  have nonzero : divisor ≠ 0 := by omega
  -- the correction by the numerator makes the multiplier exact
  have corrected := magic_add_correction size.bits_pos nonzero magicPositive magicBelow
  rw [← sizeEq] at magicEq
  rw [← magicEq] at corrected
  have bound : |divisor.sign * (magic divisor.natAbs (signBits isLong + j) : Int)| < 2 ^ size.bits := by
    have signAbs : |divisor.sign| = 1 := by
      rcases Int.lt_or_gt_of_ne nonzero with negative | positive
      · rw [Int.sign_eq_neg_one_of_neg negative, abs_neg, abs_one]
      · rw [Int.sign_eq_one_of_pos positive, abs_one]
    rw [abs_mul, signAbs, Int.one_mul, abs_of_nonneg (by positivity)]
    exact_mod_cast magicBelow
  rw [run_append, run_append, run_append]
  obtain ⟨correctedRunning, correctedValue⟩ := run_correction size narrow running corrected bound high
  set correction : List Instruction := if divisor > 0 ∧ magicWord < 0 then [Instruction.add size 2 num]
    else if divisor < 0 ∧ magicWord > 0 then [Instruction.sub size 2 num] else [] with correctionEq
  have correctedNum : (run correction m).read size num = m.read size num :=
    read_run_of_not_mem (by rw [correctionEq]; split_ifs <;> simp [Instruction.writes, numApart.2]) m size
  -- the shift: the floor at `2 ^ (N + j)`
  obtain ⟨shiftedRunning, shiftedValue⟩ := run_shift size narrow correctedRunning
    (show 0 ≤ shift ∧ shift < size.bits by omega) correctedValue
  set shifting : List Instruction := if shift ≠ 0 then [Instruction.sar size 2 shift.toNat] else [] with shiftingEq
  have shiftedNum : (run shifting (run correction m)).read size num = m.read size num := by
    rw [read_run_of_not_mem (by rw [shiftingEq]; split_ifs <;> simp [Instruction.writes, numApart.2]),
      correctedNum]
  -- rounding the floor toward zero gives the truncated quotient
  obtain ⟨roundedRunning, roundedValue⟩ :=
    run_roundTowardZero size narrow shiftedRunning (show (0 : Nat) ≠ 2 by decide) signBit
  have roundedNum : (run [Instruction.mov size 0 2, .shr size 2 count, .add size 2 0]
      (run shifting (run correction m))).read size num = m.read size num := by
    rw [read_run_of_not_mem (by simp [Instruction.writes, numApart.1, numApart.2]), shiftedNum]
  have exponent : size.bits + shift.toNat = signBits isLong + j := by omega
  have numRange := fits_toInt (m.read size num)
  unfold Fits at numRange
  rw [show size.bits - 1 = signBits isLong by omega] at numRange
  have quotient := roundedValue
  rw [shiftedValue, exponent, towardZero_sign_mul_magic_ediv above below large notPower found numRange.1
    numRange.2] at quotient
  have divisorReading : (BitVec.ofInt size.bits divisor).toInt = divisor :=
    toInt_ofInt_of_fits size.bits_pos ⟨by rw [show size.bits - 1 = signBits isLong by omega]; exact above,
      by rw [show size.bits - 1 = signBits isLong by omega]; exact below⟩
  rw [← divisorReading] at quotient
  cases isDiv
  · -- the remainder: `num - edx * imm` in `edx`
    obtain ⟨tailRunning, tailValue⟩ := run_remainderTail size narrow roundedRunning num divisor
    simp only [Bool.not_false, if_true, Bool.false_eq_true, if_false]
    rw [tailValue, roundedNum]
    exact ⟨tailRunning, sub_mul_eq_srem quotient⟩
  · -- the quotient: `edx` moved to `eax`
    simp only [Bool.not_true, Bool.false_eq_true, if_false, if_true]
    rw [run_cons_of_running roundedRunning, run_nil]
    refine ⟨by rw [Machine.skipping_execute rfl, roundedRunning], ?_⟩
    rw [Machine.execute, Machine.read_write_self _ _ _ narrow]
    apply eq_sdiv_of_toInt
    rw [← quotient, BitVec.toInt_bmod_cancel]

/-- `GenerateDivRemWithAnyConstant` for an `int`, the same on x86 and x86-64:
the numerator saved in `num`, the magic number in `eax`, the multiply, and the
rest from `run_divRemWithMagic`. -/
theorem computesDivRem_withAnyConstantInt (narrow : 32 ≤ w) (isDiv : Bool) {num : Nat}
    (numApart : num ≠ 0 ∧ num ≠ 2) {divisor : BitVec 32} (large : 3 ≤ divisor.toInt.natAbs)
    (notPower : ∀ j, divisor.toInt.natAbs ≠ 2 ^ j) {magicWord shift : Int}
    (calculated : calculateMagicAndShiftForDivRem divisor.toInt false = some (magicWord, shift)) :
    ComputesDivRem w isDiv .l 0 (if isDiv then 0 else 2) divisor
      ([Instruction.mov .l num 0, .movImm .l 0 magicWord, .imul .l num] ++
        (if divisor.toInt > 0 ∧ magicWord < 0 then [Instruction.add .l 2 num]
          else if divisor.toInt < 0 ∧ magicWord > 0 then [Instruction.sub .l 2 num] else []) ++
        (if shift ≠ 0 then [Instruction.sar .l 2 shift.toNat] else []) ++
        [Instruction.mov .l 0 2, .shr .l 2 31, .add .l 2 0] ++
        (if !isDiv then [Instruction.mov .l 0 num, .imulImm .l 2 divisor.toInt, .sub .l 0 2, .mov .l 2 0]
          else [Instruction.mov .l 0 2])) := by
  intro m running
  have range := fits_toInt divisor
  have magicReading : (BitVec.ofInt 32 magicWord).toInt = magicWord :=
    toInt_ofInt_of_fits (by decide)
      (fits_of_calculateMagicAndShiftForDivRem range.1 range.2 large notPower calculated)
  -- `num = eax; eax = magic; edx:eax = eax * num`
  set loaded := (m.execute (Instruction.mov .l num 0)).execute (Instruction.movImm .l 0 magicWord) with loadedEq
  have loadedNum : loaded.read .l num = m.read .l 0 := by
    simp only [loadedEq, Machine.execute, Machine.read_write_of_ne numApart.1, Machine.read_write_self .l _ _ narrow]
  have loadedEax : loaded.read .l 0 = BitVec.ofInt 32 magicWord := by
    simp only [loadedEq, Machine.execute, Machine.read_write_self .l _ _ narrow]
  have multipliedRunning : (run [Instruction.mov .l num 0, .movImm .l 0 magicWord, .imul .l num] m).skipping = none :=
    skipping_run_of_straight (by simp [Instruction.isJump]) running
  have multipliedNum :
      (run [Instruction.mov .l num 0, .movImm .l 0 magicWord, .imul .l num] m).read .l num = m.read .l 0 := by
    rw [run_of_straight (by simp [Instruction.isJump]) running]
    simp only [List.foldl_cons, List.foldl_nil]
    rw [← loadedEq]
    simp only [Machine.execute, Machine.read_setFlags, Machine.read_write_of_ne numApart.1,
      Machine.read_write_of_ne numApart.2, loadedNum]
  have high : ((run [Instruction.mov .l num 0, .movImm .l 0 magicWord, .imul .l num] m).read .l 2).toInt =
      magicWord * ((run [Instruction.mov .l num 0, .movImm .l 0 magicWord, .imul .l num] m).read .l num).toInt /
        2 ^ OperandSize.l.bits := by
    rw [multipliedNum, run_of_straight (by simp [Instruction.isJump]) running]
    simp only [List.foldl_cons, List.foldl_nil, ← loadedEq]
    rw [Machine.toInt_read_imul .l narrow num, loadedEax, loadedNum, magicReading]
  simp only [List.append_assoc]
  rw [run_append]
  have computed := run_divRemWithMagic .l rfl narrow multipliedRunning numApart range.1 range.2 large notPower
    calculated high rfl isDiv
  rw [multipliedNum, BitVec.ofInt_toInt] at computed
  exact computed

end Magic

theorem run_load64BitValue {m : Machine 64} (running : m.skipping = none) (dest : Register) {value : Int}
    (range : Fits 64 value) :
    (run (load64BitValue dest value) m).skipping = none ∧
    (run (load64BitValue dest value) m).read .q dest.toNat = BitVec.ofInt 64 value := by
  unfold load64BitValue
  split_ifs with zero small
  · -- `xorl dest, dest` clears the upper half as well
    subst zero
    rw [run_cons_of_running running, run_nil]
    simp [Machine.execute, running, Machine.read_write_same .l .q _ _ le_rfl]
  · -- `movl dest, imm32` zero-extends
    rw [run_cons_of_running running, run_nil]
    simp only [Machine.execute, Machine.skipping_write, running, true_and, Machine.read_write_same .l .q _ _ le_rfl,
      BitVec.ofInt_toInt]
    have narrowValue : (BitVec.ofInt OperandSize.l.bits value).toNat = value.toNat := by
      rw [BitVec.toNat_ofInt, Int.emod_eq_of_lt small.1 (by push_cast; exact small.2)]
    have wideValue : (BitVec.ofInt 64 value).toNat = value.toNat := by
      rw [BitVec.toNat_ofInt, Int.emod_eq_of_lt small.1 (by push_cast; omega)]
    apply BitVec.eq_of_toNat_eq
    rw [BitVec.toNat_setWidth, narrowValue, wideValue, OperandSize.bits_q]
    exact Nat.mod_eq_of_lt (by omega)
  · rw [run_cons_of_running running, run_nil]
    simp [Machine.execute, running]

theorem read_run_load64BitValue_of_ne {w : Nat} (m : Machine w) {dest : Register} (value : Int) {reg : Nat}
    (apart : reg ≠ dest.toNat) (size : OperandSize) :
    (run (load64BitValue dest value) m).read size reg = m.read size reg :=
  read_run_of_not_mem (by unfold load64BitValue; split_ifs <;> simp [Instruction.writes, apart]) m size

section PowerOfTwo

variable {w : Nat} {m : Machine w}

/-- The sign fix of `RemByPowerOfTwo`: the complement of the mask or-ed into a
remainder that is not zero. -/
theorem run_orComplement (size : OperandSize) (narrow : size.bits ≤ w) (running : m.skipping = none)
    {out tmp : Nat} (tmpApart : tmp ≠ out) :
    (run [Instruction.not size tmp, .or size tmp out, .test size out out, .cmov Condition.kNotEqual.toNat size out tmp]
      m).skipping = none ∧
    (run [Instruction.not size tmp, .or size tmp out, .test size out out, .cmov Condition.kNotEqual.toNat size out tmp]
      m).read size out =
      if m.read size out ≠ 0 then ~~~(m.read size tmp) ||| m.read size out else m.read size out := by
  rw [run_of_straight (by simp [Instruction.isJump]) running]
  simp only [List.foldl_cons, List.foldl_nil, Machine.execute, Machine.read_setFlags, Machine.flags_setFlags,
    Machine.read_write_self _ _ _ narrow, Machine.read_write_of_ne tmpApart.symm, BitVec.and_self,
    show Condition.kNotEqual.toNat = 5 from rfl, holds_notEqual_logicFlags, decide_eq_true_eq,
    Machine.skipping_write, Machine.skipping_setFlags, running, true_and]

/-- The `int` sequence of `RemByPowerOfTwo`: the masked numerator, with the
complement of the mask or-ed in for a negative numerator that leaves bits. -/
theorem computesDivRem_remByPowerOfTwoInt (narrow : 32 ≤ w) {out numerator tmp : Nat}
    (outApart : out ≠ numerator) (tmpApart : tmp ≠ out) {absImm k : Nat} (power : absImm = 2 ^ k)
    (kRange : 1 ≤ k ∧ k < 32) {divisor : BitVec 32} (magnitude : divisor.toInt.natAbs = 2 ^ k) :
    ComputesDivRem w false .l numerator out divisor
      (Instruction.mov .l out numerator :: .andImm .l out (absImm - 1 : Nat) :: .test .l numerator numerator ::
        .j Condition.kLess.toNat jmpLoc :: .jmp done :: .bind jmpLoc ::
        ([Instruction.movImm .l tmp (BitVec.ofNat 32 (absImm - 1)).toInt, .not .l tmp, .or .l tmp out,
          .test .l out out, .cmov Condition.kNotEqual.toNat .l out tmp] ++ [Instruction.bind done])) := by
  intro m running
  rw [if_neg Bool.false_ne_true]
  subst power
  rw [run_cons_of_running running, run_cons_of_running (by simp [Machine.execute, running]),
    run_cons_of_running (by simp [Machine.execute, running])]
  set tested := ((m.execute (Instruction.mov .l out numerator)).execute
    (Instruction.andImm .l out (2 ^ k - 1 : Nat))).execute (Instruction.test .l numerator numerator) with testedEq
  have testedRunning : tested.skipping = none := by simp [testedEq, Machine.execute, running]
  have testedOut : tested.read .l out = m.read .l numerator &&& BitVec.ofNat 32 (2 ^ k - 1) := by
    simp only [testedEq, Machine.execute, Machine.read_setFlags, Machine.read_write_self .l _ _ narrow,
      BitVec.ofInt_natCast]
  have testedFlags : tested.flags = logicFlags (m.read .l numerator) := by
    simp only [testedEq, Machine.execute, Machine.read_setFlags, Machine.read_write_of_ne outApart.symm,
      BitVec.and_self, Machine.flags_setFlags]
  have remainder := toInt_maskRemainder kRange (m.read .l numerator)
  rw [← tmod_eq_tmod_two_pow magnitude] at remainder
  rw [run_jumpOver testedRunning (by decide) (by simp [Instruction.isJump]) (by simp), run_nil, testedFlags,
    show Condition.kLess.toNat = 12 from rfl, holds_less_logicFlags]
  by_cases negative : (m.read .l numerator).toInt < 0
  · -- `jl jmp_loc` is taken: the complement of the mask goes in unless the bits are clear
    rw [decide_eq_true negative, if_pos rfl, run_cons_of_running testedRunning]
    have loadedRunning :
        (tested.execute (Instruction.movImm .l tmp (BitVec.ofNat 32 (2 ^ k - 1)).toInt)).skipping = none := by
      simp [Machine.execute, testedRunning]
    obtain ⟨fixedRunning, fixedOut⟩ := run_orComplement .l narrow loadedRunning tmpApart
    refine ⟨fixedRunning, ?_⟩
    rw [fixedOut]
    simp only [Machine.execute, Machine.read_write_self .l _ _ narrow, Machine.read_write_of_ne tmpApart.symm,
      BitVec.ofInt_toInt, testedOut]
    apply eq_srem_of_toInt
    simpa only [negative, true_and] using remainder
  · -- `jmp done` passes over the sign fix
    rw [decide_eq_false negative, if_neg Bool.false_ne_true]
    refine ⟨testedRunning, eq_srem_of_toInt ?_⟩
    rw [testedOut, ← remainder, if_neg (fun both => negative both.1)]

/-- The `long` sequence of `RemByPowerOfTwo`: the mask loaded into `tmp`
first, then the same mask and sign fix at 64 bits. -/
theorem computesDivRem_remByPowerOfTwoLong {out numerator : Nat} (tmp : Register) (outApart : out ≠ numerator)
    (tmpApart : tmp.toNat ≠ out ∧ tmp.toNat ≠ numerator) {absImm k : Nat} (power : absImm = 2 ^ k)
    (kRange : 1 ≤ k ∧ k < 64) {divisor : BitVec 64} (magnitude : divisor.toInt.natAbs = 2 ^ k) :
    ComputesDivRem 64 false .q numerator out divisor
      (load64BitValue tmp (absImm - 1 : Nat) ++
        (Instruction.mov .q out numerator :: .and .q out tmp.toNat :: .test .q numerator numerator ::
          .j Condition.kLess.toNat jmpLoc :: .jmp done :: .bind jmpLoc ::
          ([Instruction.not .q tmp.toNat, .or .q tmp.toNat out, .test .q out out,
            .cmov Condition.kNotEqual.toNat .q out tmp.toNat] ++ [Instruction.bind done]))) := by
  intro m running
  rw [if_neg Bool.false_ne_true]
  subst power
  obtain ⟨loadedRunning, loadedTmp⟩ := run_load64BitValue running tmp (fits_two_pow_sub_one (show k < 64 by omega))
  have loadedNumerator := read_run_load64BitValue_of_ne m (2 ^ k - 1 : Nat) tmpApart.2.symm .q
  rw [run_append]
  set loaded := run (load64BitValue tmp (2 ^ k - 1 : Nat)) m with loadedEq
  rw [run_cons_of_running loadedRunning, run_cons_of_running (by simp [Machine.execute, loadedRunning]),
    run_cons_of_running (by simp [Machine.execute, loadedRunning])]
  set tested := ((loaded.execute (Instruction.mov .q out numerator)).execute (Instruction.and .q out tmp.toNat)).execute
    (Instruction.test .q numerator numerator) with testedEq
  have mask : BitVec.ofInt 64 ((2 ^ k - 1 : Nat) : Int) = BitVec.ofNat 64 (2 ^ k - 1) := BitVec.ofInt_natCast _ _
  have testedRunning : tested.skipping = none := by simp [testedEq, Machine.execute, loadedRunning]
  have testedOut : tested.read .q out = m.read .q numerator &&& BitVec.ofNat 64 (2 ^ k - 1) := by
    simp only [testedEq, Machine.execute, Machine.read_setFlags, Machine.read_write_self .q _ _ le_rfl,
      Machine.read_write_of_ne tmpApart.1, loadedTmp, loadedNumerator, mask]
  have testedTmp : tested.read .q tmp.toNat = BitVec.ofNat 64 (2 ^ k - 1) := by
    simp only [testedEq, Machine.execute, Machine.read_setFlags, Machine.read_write_of_ne tmpApart.1, loadedTmp,
      mask]
  have testedFlags : tested.flags = logicFlags (m.read .q numerator) := by
    simp only [testedEq, Machine.execute, Machine.read_setFlags, Machine.read_write_of_ne outApart.symm,
      BitVec.and_self, Machine.flags_setFlags, loadedNumerator]
  have remainder := toInt_maskRemainder kRange (m.read .q numerator)
  rw [← tmod_eq_tmod_two_pow magnitude] at remainder
  rw [run_jumpOver testedRunning (by decide) (by simp [Instruction.isJump]) (by simp), run_nil, testedFlags,
    show Condition.kLess.toNat = 12 from rfl, holds_less_logicFlags]
  by_cases negative : (m.read .q numerator).toInt < 0
  · -- `jl jmp_loc` is taken: the complement of the mask goes in unless the bits are clear
    rw [decide_eq_true negative, if_pos rfl]
    obtain ⟨fixedRunning, fixedOut⟩ := run_orComplement .q le_rfl testedRunning tmpApart.1
    refine ⟨fixedRunning, eq_srem_of_toInt ?_⟩
    rw [fixedOut, testedOut, testedTmp]
    simpa only [negative, true_and] using remainder
  · -- `jmp done` passes over the sign fix
    rw [decide_eq_false negative, if_neg Bool.false_ne_true]
    refine ⟨testedRunning, eq_srem_of_toInt ?_⟩
    rw [testedOut, ← remainder, if_neg (fun both => negative both.1)]

/-- `shr tmp, s - 1; add tmp, num` from a copy of the numerator: the sign bit
added, the bias of a division by two. -/
theorem run_addSignBit (size : OperandSize) (narrow : size.bits ≤ w) (running : m.skipping = none)
    {tmp num : Nat} (apart : tmp ≠ num) {count : Nat} (signBit : count + 1 = size.bits)
    (copied : m.read size tmp = m.read size num) :
    (run [Instruction.shr size tmp count, .add size tmp num] m).skipping = none ∧
    ((run [Instruction.shr size tmp count, .add size tmp num] m).read size tmp).toInt =
      (m.read size num).toInt + if (m.read size num).toInt < 0 then 1 else 0 := by
  rw [run_of_straight (by simp [Instruction.isJump]) running]
  simp only [List.foldl_cons, List.foldl_nil, Machine.execute, Machine.read_setFlags,
    Machine.read_write_self _ _ _ narrow, Machine.read_write_of_ne apart.symm, Machine.skipping_setFlags,
    Machine.skipping_write, running, true_and, copied]
  rw [Machine.shiftCount_of_lt (by omega), show count = size.bits - 1 by omega,
    toInt_ushiftRight_add size.two_le_bits]

/-- `test num, num; cmovge tmp, num`: the numerator itself when it is not
negative. The move may be wider than the operands. -/
theorem run_selectNonNegative (size moveSize : OperandSize) (narrow : size.bits ≤ moveSize.bits)
    (wide : moveSize.bits ≤ w) (running : m.skipping = none) (tmp num : Nat) :
    (run [Instruction.test size num num, .cmov Condition.kGreaterEqual.toNat moveSize tmp num] m).skipping = none ∧
    (run [Instruction.test size num num, .cmov Condition.kGreaterEqual.toNat moveSize tmp num] m).read size tmp =
      if 0 ≤ (m.read size num).toInt then m.read size num else m.read size tmp := by
  rw [run_of_straight (by simp [Instruction.isJump]) running]
  simp only [List.foldl_cons, List.foldl_nil, Machine.execute, Machine.read_setFlags, Machine.flags_setFlags,
    BitVec.and_self, Machine.skipping_write, Machine.skipping_setFlags, running, true_and,
    Machine.read_write_same moveSize size tmp _ (narrow.trans wide)]
  simp only [show Condition.kGreaterEqual.toNat = 13 from rfl, holds_greaterEqual_logicFlags, decide_eq_true_eq]
  split_ifs <;> exact Machine.setWidth_read narrow _

theorem biasesBy_signBitInt (narrow : 32 ≤ w) {tmp num : Nat} (apart : tmp ≠ num) :
    BiasesBy w .l num tmp 1 [Instruction.lea .l tmp num 0, .shr .l tmp 31, .add .l tmp num] := by
  intro m running
  have copiedRunning : (m.execute (Instruction.lea .l tmp num 0)).skipping = none := by simp [Machine.execute, running]
  have copiedNum : (m.execute (Instruction.lea .l tmp num 0)).read .l num = m.read .l num :=
    Machine.read_write_of_ne apart.symm _ _ _
  have copied : (m.execute (Instruction.lea .l tmp num 0)).read .l tmp =
      (m.execute (Instruction.lea .l tmp num 0)).read .l num := by
    rw [Machine.read_execute_lea narrow, copiedNum, show BitVec.ofInt OperandSize.l.bits 0 = 0#32 from rfl,
      BitVec.add_zero]
  rw [run_cons_of_running running]
  obtain ⟨signedRunning, signedTmp⟩ := run_addSignBit .l narrow copiedRunning apart rfl copied
  exact ⟨signedRunning, by rw [signedTmp, copiedNum]; norm_num⟩

theorem biasesBy_signBitLong (wide : 64 ≤ w) {tmp num : Nat} (apart : tmp ≠ num) :
    BiasesBy w .q num tmp 1 [Instruction.mov .q tmp num, .shr .q tmp 63, .add .q tmp num] := by
  intro m running
  have copiedRunning : (m.execute (Instruction.mov .q tmp num)).skipping = none := by simp [Machine.execute, running]
  have copiedNum : (m.execute (Instruction.mov .q tmp num)).read .q num = m.read .q num :=
    Machine.read_write_of_ne apart.symm _ _ _
  have copied : (m.execute (Instruction.mov .q tmp num)).read .q tmp =
      (m.execute (Instruction.mov .q tmp num)).read .q num := by
    rw [Machine.execute, Machine.read_write_self .q _ _ wide, Machine.read_write_of_ne apart.symm]
  rw [run_cons_of_running running]
  obtain ⟨signedRunning, signedTmp⟩ := run_addSignBit .q wide copiedRunning apart rfl copied
  exact ⟨signedRunning, by rw [signedTmp, copiedNum]; norm_num⟩

/-- The bias of an `int` division by a larger power of two: `lea` adds
`2 ^ k - 1`, and the conditional move takes it back for a numerator that is
not negative. -/
theorem biasesBy_int (moveSize : OperandSize) (narrow : 32 ≤ moveSize.bits) (wide : moveSize.bits ≤ w)
    {tmp num : Nat} (apart : tmp ≠ num) {k : Nat} (kBelow : k < 32) :
    BiasesBy w .l num tmp k [Instruction.lea .l tmp num (BitVec.ofNat 32 (2 ^ k - 1)).toInt, .test .l num num,
      .cmov Condition.kGreaterEqual.toNat moveSize tmp num] := by
  intro m running
  have biasedRunning :
      (m.execute (Instruction.lea .l tmp num (BitVec.ofNat 32 (2 ^ k - 1)).toInt)).skipping = none := by
    simp [Machine.execute, running]
  rw [run_cons_of_running running]
  obtain ⟨selectedRunning, selectedTmp⟩ := run_selectNonNegative .l moveSize narrow wide biasedRunning tmp num
  have biasedNum :
      (m.execute (Instruction.lea .l tmp num (BitVec.ofNat 32 (2 ^ k - 1)).toInt)).read .l num = m.read .l num :=
    Machine.read_write_of_ne apart.symm _ _ _
  refine ⟨selectedRunning, ?_⟩
  rw [selectedTmp, biasedNum, Machine.read_execute_lea (narrow.trans wide), BitVec.ofInt_toInt]
  by_cases negative : (m.read .l num).toInt < 0
  · rw [if_neg (by omega), if_pos negative, toInt_add_mask_of_neg kBelow negative]
  · rw [if_pos (by omega), if_neg negative, Int.add_zero]

/-- The bias of a `long` division by a larger power of two: `2 ^ k - 1`
loaded, the numerator added, and the numerator itself when it is not
negative. -/
theorem biasesBy_long (tmp : Register) {num : Nat} (apart : tmp.toNat ≠ num) {k : Nat} (kBelow : k < 64) :
    BiasesBy 64 .q num tmp.toNat k (load64BitValue tmp (2 ^ k - 1 : Nat) ++
      [Instruction.add .q tmp.toNat num, .test .q num num, .cmov Condition.kGreaterEqual.toNat .q tmp.toNat num]) := by
  intro m running
  obtain ⟨loadedRunning, loadedTmp⟩ := run_load64BitValue running tmp (fits_two_pow_sub_one (show k < 64 by omega))
  have loadedNum := read_run_load64BitValue_of_ne m (2 ^ k - 1 : Nat) apart.symm .q
  rw [run_append, run_cons_of_running loadedRunning]
  set loaded := run (load64BitValue tmp (2 ^ k - 1 : Nat)) m with loadedEq
  have addedRunning : (loaded.execute (Instruction.add .q tmp.toNat num)).skipping = none := by
    simp [Machine.execute, loadedRunning]
  obtain ⟨selectedRunning, selectedTmp⟩ := run_selectNonNegative .q .q le_rfl le_rfl addedRunning tmp.toNat num
  have addedNum : (loaded.execute (Instruction.add .q tmp.toNat num)).read .q num = m.read .q num := by
    simp only [Machine.execute, Machine.read_setFlags, Machine.read_write_of_ne apart.symm, loadedNum]
  have addedTmp : (loaded.execute (Instruction.add .q tmp.toNat num)).read .q tmp.toNat =
      m.read .q num + BitVec.ofNat 64 (2 ^ k - 1) := by
    simp only [Machine.execute, Machine.read_setFlags, Machine.read_write_self .q _ _ le_rfl, loadedTmp,
      loadedNum, BitVec.ofInt_natCast, BitVec.add_comm]
  refine ⟨selectedRunning, ?_⟩
  rw [selectedTmp, addedNum, addedTmp]
  by_cases negative : (m.read .q num).toInt < 0
  · rw [if_neg (by omega), if_pos negative, toInt_add_mask_of_neg kBelow negative]
  · rw [if_pos (by omega), if_neg negative, Int.add_zero]

/-- The end of `DivByPowerOfTwo`: the biased numerator shifted right by `k`,
negated for a negative divisor, in the output register. -/
theorem run_shiftQuotient (size : OperandSize) (narrow : size.bits ≤ w) (running : m.skipping = none)
    {tmp out : Nat} {k : Nat} (kBelow : k < size.bits) {imm : Int} (power : imm.natAbs = 2 ^ k)
    {n divisor : BitVec size.bits} (divisorReading : divisor.toInt = imm)
    (biased : (m.read size tmp).toInt = n.toInt + if n.toInt < 0 then 2 ^ k - 1 else 0) :
    (run ([Instruction.sar size tmp k] ++
        ((if imm < 0 then [Instruction.neg size tmp] else []) ++ [Instruction.mov size out tmp])) m).skipping = none ∧
      (run ([Instruction.sar size tmp k] ++
        ((if imm < 0 then [Instruction.neg size tmp] else []) ++ [Instruction.mov size out tmp])) m).read size out =
          n.sdiv divisor := by
  have shiftedRunning : (m.execute (Instruction.sar size tmp k)).skipping = none := by simp [Machine.execute, running]
  have shifted : ((m.execute (Instruction.sar size tmp k)).read size tmp).toInt = n.toInt.tdiv (2 ^ k) := by
    rw [Machine.toInt_read_sar size narrow tmp kBelow, biased, tdiv_two_pow]
  have powerPositive := Nat.two_pow_pos k
  rw [run_append, run_cons_of_running running, run_nil]
  rcases Int.natAbs_eq imm with positive | negative
  · -- `sar` alone: the quotient by `2 ^ k`
    have divisorEq : divisor.toInt = 2 ^ k := by rw [divisorReading, positive, power]; push_cast; rfl
    rw [if_neg (show ¬ imm < 0 by omega), List.nil_append, run_cons_of_running shiftedRunning, run_nil]
    refine ⟨by simp [Machine.execute, running], ?_⟩
    rw [Machine.execute, Machine.read_write_self _ _ _ narrow]
    apply eq_sdiv_of_toInt
    rw [divisorEq, ← shifted, BitVec.toInt_bmod_cancel]
  · -- `neg` after it: the quotient by `-2 ^ k`
    have divisorEq : divisor.toInt = -2 ^ k := by rw [divisorReading, negative, power]; push_cast; rfl
    have negatedRunning :
        ((m.execute (Instruction.sar size tmp k)).execute (Instruction.neg size tmp)).skipping = none := by
      rw [Machine.skipping_execute rfl, shiftedRunning]
    rw [if_pos (show imm < 0 by omega), List.cons_append, List.nil_append, run_cons_of_running shiftedRunning,
      run_cons_of_running negatedRunning, run_nil]
    refine ⟨by rw [Machine.skipping_execute rfl, negatedRunning], ?_⟩
    rw [Machine.execute, Machine.read_write_self _ _ _ narrow, Machine.read_execute_neg narrow]
    apply eq_sdiv_of_toInt
    rw [BitVec.toInt_neg, shifted, divisorEq, Int.tdiv_neg]

/-- `DivByPowerOfTwo`: any bias, then the shift, the negation for a negative
divisor and the move to the output. -/
theorem computesDivRem_byPowerOfTwo (size : OperandSize) (narrow : size.bits ≤ w) {numerator tmp out k : Nat}
    {bias : List Instruction} (biases : BiasesBy w size numerator tmp k bias) (kBelow : k < size.bits)
    {imm : Int} (power : imm.natAbs = 2 ^ k) {divisor : BitVec size.bits} (divisorReading : divisor.toInt = imm) :
    ComputesDivRem w true size numerator out divisor
      (bias ++ [Instruction.sar size tmp k] ++ (if imm < 0 then [Instruction.neg size tmp] else []) ++
        [Instruction.mov size out tmp]) := by
  intro m running
  obtain ⟨biasedRunning, biasedTmp⟩ := biases m running
  rw [if_pos rfl, List.append_assoc, List.append_assoc, run_append]
  exact run_shiftQuotient size narrow biasedRunning kBelow power divisorReading biasedTmp

end PowerOfTwo

section OneOrMinusOne

variable {w : Nat}

/-- The remainder by `1` or `-1`: `xorl out, out`, which clears a whole
register. -/
theorem computesDivRem_xorSelf (size : OperandSize) (narrow : size.bits ≤ w) (numerator out : Nat)
    {divisor : BitVec size.bits} (unit : divisor.toInt.natAbs = 1) :
    ComputesDivRem w false size numerator out divisor [Instruction.xor .l out out] := by
  intro m running
  rw [run_cons_of_running running, run_nil, if_neg Bool.false_ne_true]
  refine ⟨by simp [Machine.execute, running], ?_⟩
  simp only [Machine.execute, Machine.read_setFlags, BitVec.xor_self, Machine.read_write_same .l size out _ narrow,
    BitVec.setWidth_zero]
  exact (BitVec.srem_zero_of_dvd (Int.natAbs_dvd_natAbs.mp (by rw [unit]; exact Nat.one_dvd _))).symm

theorem computesDivRem_movNegate (size : OperandSize) (narrow : size.bits ≤ w) (numerator out : Nat) {imm : Int}
    (unit : imm = 1 ∨ imm = -1) {divisor : BitVec size.bits} (divisorReading : divisor.toInt = imm) :
    ComputesDivRem w true size numerator out divisor
      (Instruction.mov size out numerator :: if imm = -1 then [Instruction.neg size out] else []) := by
  intro m running
  rw [run_cons_of_running running, if_pos rfl]
  have movedRunning : (m.execute (Instruction.mov size out numerator)).skipping = none := by
    simp [Machine.execute, running]
  have moved : (m.execute (Instruction.mov size out numerator)).read size out = m.read size numerator := by
    rw [Machine.execute, Machine.read_write_self _ _ _ narrow]
  rcases unit with one | minusOne
  · rw [if_neg (by omega), run_nil]
    refine ⟨movedRunning, ?_⟩
    rw [moved]
    apply eq_sdiv_of_toInt
    rw [divisorReading, one, Int.tdiv_one, BitVec.toInt_bmod_cancel]
  · rw [if_pos minusOne, run_cons_of_running movedRunning, run_nil]
    refine ⟨by rw [Machine.skipping_execute rfl, movedRunning], ?_⟩
    rw [Machine.read_execute_neg narrow, moved]
    apply eq_sdiv_of_toInt
    rw [BitVec.toInt_neg, divisorReading, minusOne, Int.tdiv_neg, Int.tdiv_one]

end OneOrMinusOne

/-- `GenerateDivRemWithAnyConstant` for a `long`: the magic number through
`Load64BitValue`, then the same multiply and rounding at 64 bits. -/
theorem computesDivRem_withAnyConstantLong (isDiv : Bool) {num : Nat} (numApart : num ≠ 0 ∧ num ≠ 2)
    {divisor : BitVec 64} (large : 3 ≤ divisor.toInt.natAbs) (notPower : ∀ j, divisor.toInt.natAbs ≠ 2 ^ j)
    {magicWord shift : Int}
    (calculated : calculateMagicAndShiftForDivRem divisor.toInt true = some (magicWord, shift)) :
    ComputesDivRem 64 isDiv .q 0 (if isDiv then 0 else 2) divisor
      ([Instruction.mov .q num 0] ++ load64BitValue .rax magicWord ++ [Instruction.imul .q num] ++
        (if divisor.toInt > 0 ∧ magicWord < 0 then [Instruction.add .q 2 num]
          else if divisor.toInt < 0 ∧ magicWord > 0 then [Instruction.sub .q 2 num] else []) ++
        (if shift ≠ 0 then [Instruction.sar .q 2 shift.toNat] else []) ++
        [Instruction.mov .q 0 2, .shr .q 2 63, .add .q 2 0] ++
        (if !isDiv then [Instruction.mov .q 0 num, .imulImm .q 2 divisor.toInt, .sub .q 0 2, .mov .q 2 0]
          else [Instruction.mov .q 0 2])) := by
  intro m running
  have range := fits_toInt divisor
  have magicFits : Fits 64 magicWord :=
    fits_of_calculateMagicAndShiftForDivRem range.1 range.2 large notPower calculated
  -- `num = rax`, then `rax = magic`
  set saved := run [Instruction.mov .q num 0] m with savedEq
  have savedRunning : saved.skipping = none := skipping_run_of_straight (by simp [Instruction.isJump]) running
  have savedNum : saved.read .q num = m.read .q 0 := by
    rw [savedEq, run_cons_of_running running, run_nil, Machine.execute, Machine.read_write_self .q _ _ le_rfl]
  obtain ⟨loadedRunning, loadedEax⟩ := run_load64BitValue savedRunning .rax magicFits
  set loaded := run (load64BitValue .rax magicWord) saved with loadedEq
  have loadedNum : loaded.read .q num = m.read .q 0 := by
    rw [loadedEq, read_run_load64BitValue_of_ne saved magicWord numApart.1 .q, savedNum]
  -- `rdx:rax = rax * num`
  have multipliedRunning : (run [Instruction.imul .q num] loaded).skipping = none :=
    skipping_run_of_straight (by simp [Instruction.isJump]) loadedRunning
  have multipliedNum : (run [Instruction.imul .q num] loaded).read .q num = m.read .q 0 := by
    rw [run_cons_of_running loadedRunning, run_nil]
    simp only [Machine.execute, Machine.read_setFlags, Machine.read_write_of_ne numApart.1,
      Machine.read_write_of_ne numApart.2, loadedNum]
  have high : ((run [Instruction.imul .q num] loaded).read .q 2).toInt =
      magicWord * ((run [Instruction.imul .q num] loaded).read .q num).toInt / 2 ^ OperandSize.q.bits := by
    have loadedRax : loaded.read .q 0 = BitVec.ofInt 64 magicWord := loadedEax
    rw [multipliedNum, run_cons_of_running loadedRunning, run_nil, Machine.toInt_read_imul .q le_rfl num,
      loadedRax, loadedNum, toInt_ofInt_of_fits (by decide) magicFits]
  simp only [List.append_assoc]
  rw [run_append, run_append, run_append]
  have computed := run_divRemWithMagic .q rfl le_rfl multipliedRunning numApart range.1 range.2 large notPower
    calculated high rfl isDiv
  rw [multipliedNum, BitVec.ofInt_toInt] at computed
  exact computed

end ArtRuntime.Compiler.X8664
