import ArtRuntime.Compiler.X8664.DivRemSequences

/-! # Division by a constant on x86-64 computes Java's `/` and `%`

Whichever sequence `GenerateDivRemIntegral` selects for a constant divisor of
an `int` or a `long`, it leaves Java's quotient or remainder in the output
register. The selection reads the divisor's magnitude through `AbsOrMin` and
`IsPowerOfTwo`; the shift of a power of two is `CTZ` of the divisor. -/

namespace ArtRuntime.Compiler.X8664

open ArtRuntime.Foundation ArtRuntime.Foundation.X86 ArtRuntime.Foundation.TwosComplement

section Selection

theorem toInt_ne_zero {s : Nat} {divisor : BitVec s} (nonzero : divisor ≠ 0) : divisor.toInt ≠ 0 :=
  fun zero => nonzero (BitVec.eq_of_toInt_eq (by simp [zero]))

theorem fits_sixtyFour_toInt {s : Nat} (narrow : s ≤ 64) (divisor : BitVec s) : Fits 64 divisor.toInt := by
  have range := fits_toInt divisor
  have powers : (2 : Int) ^ (s - 1) ≤ 2 ^ (64 - 1) := pow_le_pow_right₀ (by norm_num) (by omega)
  unfold Fits at range ⊢
  omega

/-- The test `IsPowerOfTwo(AbsOrMin(imm))` holds exactly of a divisor whose
magnitude is a power of two, the minimum included. -/
theorem isPowerOfTwo_absOrMin_iff {width : Nat} (positive : 0 < width) {value : Int} (range : Fits width value)
    (nonzero : value ≠ 0) :
    Base.isPowerOfTwo (absOrMin (BitVec.ofInt width value)) = true ↔ ∃ k, value.natAbs = 2 ^ k := by
  have reading := toNat_absOrMin positive range.1 range.2
  have magnitudeNonzero : absOrMin (BitVec.ofInt width value) ≠ 0 := by
    intro zero
    rw [zero] at reading
    exact nonzero (Int.natAbs_eq_zero.mp (by simpa using reading.symm))
  rw [Base.isPowerOfTwo_iff magnitudeNonzero, reading]

/-- A divisor that is neither `±1` nor of a power-of-two magnitude is at least
three in magnitude. -/
theorem three_le_natAbs {value : Int} (nonzero : value ≠ 0) (notUnit : ¬(value = 1 ∨ value = -1))
    (notPower : ∀ j, value.natAbs ≠ 2 ^ j) : 3 ≤ value.natAbs := by
  have notTwo := notPower 1
  omega

theorem one_le_of_natAbs_eq {value : Int} (notUnit : ¬(value = 1 ∨ value = -1)) {k : Nat}
    (magnitude : value.natAbs = 2 ^ k) : 1 ≤ k := by
  rcases Nat.eq_zero_or_pos k with zero | positive
  · rw [zero, pow_zero] at magnitude
    omega
  · exact positive

theorem lt_of_natAbs_eq {s : Nat} (divisor : BitVec s) {k : Nat} (magnitude : divisor.toInt.natAbs = 2 ^ k) :
    k < s := by
  have range := fits_toInt divisor
  have atMost : 2 ^ k ≤ 2 ^ (s - 1) := by
    unfold Fits at range
    have : (divisor.toInt.natAbs : Int) ≤ 2 ^ (s - 1) := by omega
    rw [magnitude] at this
    exact_mod_cast this
  have exponent := (Nat.pow_le_pow_iff_right (by decide)).mp atMost
  have positive : 0 < s := by
    rcases Nat.eq_zero_or_pos s with zero | positive
    · subst zero
      have := Nat.one_le_two_pow (n := k)
      simp only [BitVec.toInt_zero_length] at magnitude
      omega
    · exact positive
  omega

end Selection

section Sequences

variable {type : DataType} {size : OperandSize}
  (sized : type = .kInt32 ∧ size = .l ∨ type = .kInt64 ∧ size = .q)
include sized

theorem bits_le_sixtyFour : size.bits ≤ 64 := by
  rcases sized with ⟨-, rfl⟩ | ⟨-, rfl⟩ <;> decide

/-- The magnitude `AbsOrMin` reads off a divisor of a power-of-two magnitude. -/
theorem toNat_absOrMin_of_magnitude {divisor : BitVec size.bits} {k : Nat} (magnitude : divisor.toInt.natAbs = 2 ^ k) :
    (absOrMin (BitVec.ofInt 64 divisor.toInt)).toNat = 2 ^ k := by
  have range := fits_sixtyFour_toInt (bits_le_sixtyFour sized) divisor
  rw [toNat_absOrMin (by decide) range.1 range.2, magnitude]

theorem divRemOneOrMinusOne_computes (isDiv : Bool) (temp : Register) {divisor : BitVec size.bits}
    (unit : divisor.toInt = 1 ∨ divisor.toInt = -1) :
    ∃ code, divRemOneOrMinusOne isDiv type (visitDivRem isDiv temp) divisor.toInt = some code ∧
      ComputesDivRem 64 isDiv size 0 (visitDivRem isDiv temp).out.toNat divisor code := by
  have magnitude : divisor.toInt.natAbs = 1 := by omega
  rcases sized with ⟨rfl, rfl⟩ | ⟨rfl, rfl⟩ <;> cases isDiv
  case inl.false => exact ⟨_, rfl, computesDivRem_xorSelf .l (by decide) 0 2 magnitude⟩
  case inl.true => exact ⟨_, rfl, computesDivRem_movNegate .l (by decide) 0 0 unit rfl⟩
  case inr.false => exact ⟨_, rfl, computesDivRem_xorSelf .q le_rfl 0 2 magnitude⟩
  case inr.true => exact ⟨_, rfl, computesDivRem_movNegate .q le_rfl 0 0 unit rfl⟩

/-- `RemByPowerOfTwo`, with its temporary apart from the numerator and the
output. -/
theorem remByPowerOfTwo_computes (temp : Register) (tempApart : temp ≠ .rax ∧ temp ≠ .rdx)
    {divisor : BitVec size.bits} {k : Nat} (magnitude : divisor.toInt.natAbs = 2 ^ k) (kPositive : 1 ≤ k) :
    ∃ code, remByPowerOfTwo type (visitRem true temp) divisor.toInt = some code ∧
      ComputesDivRem 64 false size 0 2 divisor code := by
  have tempNum : temp.toNat ≠ 2 ∧ temp.toNat ≠ 0 := by cases temp <;> simp_all [Register.toNat]
  have absImm := toNat_absOrMin_of_magnitude sized magnitude
  have kBelow := lt_of_natAbs_eq divisor magnitude
  rcases sized with ⟨rfl, rfl⟩ | ⟨rfl, rfl⟩
  · exact ⟨_, rfl, computesDivRem_remByPowerOfTwoInt (by decide) (by decide) tempNum.1 absImm ⟨kPositive, kBelow⟩
      magnitude⟩
  · exact ⟨_, rfl, computesDivRem_remByPowerOfTwoLong temp (by decide) tempNum absImm ⟨kPositive, kBelow⟩
      magnitude⟩

/-- `DivByPowerOfTwo`: the shift is `CTZ` of the divisor, and the bias the
sign bit for a magnitude of two. -/
theorem divByPowerOfTwo_computes (temp : Register) {divisor : BitVec size.bits} {k : Nat}
    (magnitude : divisor.toInt.natAbs = 2 ^ k) (kPositive : 1 ≤ k) :
    ∃ code, divByPowerOfTwo type (visitDiv true temp) divisor.toInt = some code ∧
      ComputesDivRem 64 true size 0 0 divisor code := by
  have absImm := toNat_absOrMin_of_magnitude sized magnitude
  have kBelow := lt_of_natAbs_eq divisor magnitude
  have shift : Base.ctz 64 (BitVec.ofInt 64 divisor.toInt).toNat = k :=
    Base.ctz_toNat_ofInt magnitude (by have := bits_le_sixtyFour sized; omega)
  have two : 2 ^ k = 2 ↔ k = 1 := Nat.pow_eq_self_iff (by decide)
  rcases sized with ⟨rfl, rfl⟩ | ⟨rfl, rfl⟩
  · refine ⟨_, rfl, ?_⟩
    simp only [absImm, shift, Register.toNat, visitDiv]
    by_cases byTwo : k = 1
    · subst byTwo
      rw [if_pos (pow_one 2)]
      exact computesDivRem_byPowerOfTwo .l (by decide) (biasesBy_signBitInt (by decide) (by decide)) kBelow
        magnitude rfl
    · rw [if_neg (fun equal => byTwo (two.mp equal))]
      exact computesDivRem_byPowerOfTwo .l (by decide) (biasesBy_int .q (by decide) le_rfl (by decide) kBelow)
        kBelow magnitude rfl
  · refine ⟨_, rfl, ?_⟩
    simp only [absImm, shift, Register.toNat, visitDiv]
    by_cases byTwo : k = 1
    · subst byTwo
      rw [if_pos (pow_one 2)]
      exact computesDivRem_byPowerOfTwo .q le_rfl (biasesBy_signBitLong le_rfl (by decide)) kBelow magnitude rfl
    · rw [if_neg (fun equal => byTwo (two.mp equal))]
      exact computesDivRem_byPowerOfTwo .q le_rfl (biasesBy_long .rdx (by decide) kBelow) kBelow magnitude rfl

/-- `GenerateDivRemWithAnyConstant`, with the numerator saved in the
temporary. -/
theorem generateDivRemWithAnyConstant_computes (isDiv : Bool) (temp : Register)
    (tempApart : temp ≠ .rax ∧ temp ≠ .rdx) {divisor : BitVec size.bits} (large : 3 ≤ divisor.toInt.natAbs)
    (notPower : ∀ j, divisor.toInt.natAbs ≠ 2 ^ j) :
    ∃ code, generateDivRemWithAnyConstant isDiv type (visitDivRem isDiv temp) divisor.toInt = some code ∧
      ComputesDivRem 64 isDiv size 0 (if isDiv then 0 else 2) divisor code := by
  have tempNum : temp.toNat ≠ 0 ∧ temp.toNat ≠ 2 := by cases temp <;> simp_all [Register.toNat]
  have range := fits_toInt divisor
  rcases sized with ⟨rfl, rfl⟩ | ⟨rfl, rfl⟩
  · obtain ⟨j, -, calculated⟩ := calculateMagicAndShiftForDivRem_eq
      (show -2 ^ signBits false ≤ divisor.toInt from range.1) range.2 large notPower
    refine ⟨_, ?_, computesDivRem_withAnyConstantInt (by decide) isDiv tempNum large notPower calculated⟩
    cases isDiv <;> simp [generateDivRemWithAnyConstant, visitDivRem, visitDiv, visitRem, LocationSummary.getTemp,
      calculated, Register.toNat]
  · obtain ⟨j, -, calculated⟩ := calculateMagicAndShiftForDivRem_eq
      (show -2 ^ signBits true ≤ divisor.toInt from range.1) range.2 large notPower
    refine ⟨_, ?_, computesDivRem_withAnyConstantLong isDiv tempNum large notPower calculated⟩
    cases isDiv <;> simp [generateDivRemWithAnyConstant, visitDivRem, visitDiv, visitRem, LocationSummary.getTemp,
      calculated, Register.toNat]

/-- `GenerateDivRemIntegral` for a constant divisor that is not zero: the
sequence it selects computes Java's quotient or remainder. The temporary the
allocator adds is apart from `rax` and `rdx`, which the locations fix. -/
theorem generateDivRemIntegral_computes (isDiv : Bool) (temp : Register) (tempApart : temp ≠ .rax ∧ temp ≠ .rdx)
    (divisor : BitVec size.bits) (nonzero : divisor ≠ 0) :
    ∃ code, generateDivRemIntegral isDiv type (visitDivRem isDiv temp) divisor.toInt = some code ∧
      ComputesDivRem 64 isDiv size (visitDivRem isDiv temp).inAt0.toNat (visitDivRem isDiv temp).out.toNat
        divisor code := by
  have toIntNonzero := toInt_ne_zero nonzero
  have range := fits_sixtyFour_toInt (bits_le_sixtyFour sized) divisor
  have selected := isPowerOfTwo_absOrMin_iff (by decide) range toIntNonzero
  have inAt0 : (visitDivRem isDiv temp).inAt0.toNat = 0 := by cases isDiv <;> rfl
  have out : (visitDivRem isDiv temp).out.toNat = if isDiv then 0 else 2 := by cases isDiv <;> rfl
  rw [inAt0]
  unfold generateDivRemIntegral
  rw [if_neg toIntNonzero]
  by_cases unit : divisor.toInt = 1 ∨ divisor.toInt = -1
  · rw [if_pos unit]
    exact divRemOneOrMinusOne_computes sized isDiv temp unit
  rw [if_neg unit]
  by_cases power : Base.isPowerOfTwo (absOrMin (BitVec.ofInt 64 divisor.toInt)) = true
  · -- a power of two, the minimum included
    obtain ⟨k, magnitude⟩ := selected.mp power
    have kPositive := one_le_of_natAbs_eq unit magnitude
    rw [if_pos power]
    cases isDiv
    · exact remByPowerOfTwo_computes sized temp tempApart magnitude kPositive
    · exact divByPowerOfTwo_computes sized temp magnitude kPositive
  · have notPower : ∀ j, divisor.toInt.natAbs ≠ 2 ^ j := fun j equal => power (selected.mpr ⟨j, equal⟩)
    rw [if_neg power, out]
    exact generateDivRemWithAnyConstant_computes sized isDiv temp tempApart
      (three_le_natAbs toIntNonzero unit notPower) notPower

end Sequences

end ArtRuntime.Compiler.X8664
