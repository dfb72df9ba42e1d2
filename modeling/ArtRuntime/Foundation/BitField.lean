import Mathlib.Data.BitVec

/-! # Bit fields of machine words

The bit-field helpers of a `w`-bit unsigned word, as `base/bit_utils.h` writes
them: a mask of the low bits, and clearing, inserting and extracting the field of
`width` bits that starts at bit `lsb`. Each comes with the value of every bit of
its result, from which the field laws follow bit by bit. The last part adds the
signed extraction and `MinInt`/`MaxInt`.
-/

namespace ArtRuntime.Foundation

variable {w : Nat}

/-- `MaskLeastSignificant<T>(bits)`. -/
def maskLeastSignificant (w bits : Nat) : BitVec w :=
  if bits ≥ w then BitVec.allOnes w else (1#w <<< bits) - 1#w

/-- `BitFieldClear(value, lsb, width)`. -/
def bitFieldClear (value : BitVec w) (lsb width : Nat) : BitVec w :=
  value &&& ~~~(maskLeastSignificant w width <<< lsb)

/-- `BitFieldInsert(value, data, lsb, width)`. -/
def bitFieldInsert (value data : BitVec w) (lsb width : Nat) : BitVec w :=
  bitFieldClear value lsb width ||| ((data &&& maskLeastSignificant w width) <<< lsb)

/-- `BitFieldExtract(value, lsb, width)` of an unsigned word. -/
def bitFieldExtract (value : BitVec w) (lsb width : Nat) : BitVec w :=
  (value >>> lsb) &&& maskLeastSignificant w width

theorem maskLeastSignificant_eq_ofNat {bits : Nat} (small : bits < w) :
    maskLeastSignificant w bits = BitVec.ofNat w (2 ^ bits - 1) := by
  have powLt : 2 ^ bits < 2 ^ w := Nat.pow_lt_pow_right (by decide) small
  have powPos : 0 < 2 ^ bits := Nat.two_pow_pos bits
  have oneLt : 1 < 2 ^ w := Nat.one_lt_two_pow (by omega)
  rw [maskLeastSignificant, if_neg (by omega)]
  apply BitVec.eq_of_toNat_eq
  rw [BitVec.toNat_sub, BitVec.toNat_shiftLeft, BitVec.toNat_ofNat, BitVec.toNat_ofNat,
    Nat.mod_eq_of_lt oneLt, Nat.shiftLeft_eq, Nat.one_mul, Nat.mod_eq_of_lt powLt,
    Nat.mod_eq_of_lt (by omega : 2 ^ bits - 1 < 2 ^ w)]
  -- `2 ^ w - 1 + 2 ^ bits` is one word plus the mask
  have wraps : 2 ^ w - 1 + 2 ^ bits = (2 ^ bits - 1) + 2 ^ w := by omega
  rw [wraps, Nat.add_mod_right, Nat.mod_eq_of_lt (by omega)]

@[simp] theorem getLsbD_maskLeastSignificant (bits i : Nat) :
    (maskLeastSignificant w bits).getLsbD i = (decide (i < w) && decide (i < bits)) := by
  by_cases small : bits < w
  · rw [maskLeastSignificant_eq_ofNat small, BitVec.getLsbD_ofNat, Nat.testBit_two_pow_sub_one]
  · rw [maskLeastSignificant, if_pos (by omega), BitVec.getLsbD_allOnes]
    by_cases inside : i < w
    · simp [inside, show i < bits by omega]
    · simp [inside]

@[simp] theorem getLsbD_bitFieldClear (value : BitVec w) (lsb width i : Nat) :
    (bitFieldClear value lsb width).getLsbD i =
      (value.getLsbD i && !(decide (lsb ≤ i) && decide (i < lsb + width))) := by
  by_cases inside : i < w
  · rw [bitFieldClear, BitVec.getLsbD_and, BitVec.getLsbD_not, BitVec.getLsbD_shiftLeft,
      getLsbD_maskLeastSignificant]
    by_cases above : lsb ≤ i
    · by_cases below : i < lsb + width
      · simp [inside, above, below, show ¬i < lsb by omega, show i - lsb < w by omega,
          show i - lsb < width by omega]
      · simp [inside, above, below, show ¬i - lsb < width by omega]
    · simp [inside, above, show i < lsb by omega]
  · rw [BitVec.getLsbD_of_ge _ i (by omega), BitVec.getLsbD_of_ge value i (by omega),
      Bool.false_and]

@[simp] theorem getLsbD_bitFieldInsert (value data : BitVec w) (lsb width i : Nat) :
    (bitFieldInsert value data lsb width).getLsbD i =
      if lsb ≤ i ∧ i < lsb + width then decide (i < w) && data.getLsbD (i - lsb)
      else value.getLsbD i := by
  rw [bitFieldInsert, BitVec.getLsbD_or, getLsbD_bitFieldClear, BitVec.getLsbD_shiftLeft,
    BitVec.getLsbD_and, getLsbD_maskLeastSignificant]
  by_cases inside : lsb ≤ i ∧ i < lsb + width
  · by_cases fits : i < w
    · simp [inside, fits, show ¬i < lsb by omega, show i - lsb < w by omega,
        show i - lsb < width by omega]
    · simp [inside, fits, BitVec.getLsbD_of_ge value i (by omega)]
  · rw [if_neg inside]
    by_cases above : lsb ≤ i
    · simp [above, show ¬i < lsb + width by omega, show ¬i - lsb < width by omega]
    · simp [above]

@[simp] theorem getLsbD_bitFieldExtract (value : BitVec w) (lsb width i : Nat) :
    (bitFieldExtract value lsb width).getLsbD i =
      (decide (i < w) && decide (i < width) && value.getLsbD (lsb + i)) := by
  rw [bitFieldExtract, BitVec.getLsbD_and, BitVec.getLsbD_ushiftRight,
    getLsbD_maskLeastSignificant]
  cases value.getLsbD (lsb + i) <;> simp

/-! ## Words whose high bits are zero -/

theorem getLsbD_eq_false_of_toNat_lt {x : BitVec w} {n i : Nat} (small : x.toNat < 2 ^ n)
    (above : n ≤ i) : x.getLsbD i = false := by
  rw [← BitVec.testBit_toNat]
  exact Nat.testBit_lt_two_pow (Nat.lt_of_lt_of_le small (Nat.pow_le_pow_right (by decide) above))

theorem toNat_lt_of_getLsbD {x : BitVec w} {n : Nat} (high : ∀ i, n ≤ i → x.getLsbD i = false) :
    x.toNat < 2 ^ n :=
  Nat.lt_pow_two_of_testBit _ fun i above => by rw [BitVec.testBit_toNat]; exact high i above

theorem toNat_bitFieldClear_lt {value : BitVec w} {n : Nat} (small : value.toNat < 2 ^ n)
    (lsb width : Nat) : (bitFieldClear value lsb width).toNat < 2 ^ n := by
  apply toNat_lt_of_getLsbD
  intro i above
  rw [getLsbD_bitFieldClear, getLsbD_eq_false_of_toNat_lt small above, Bool.false_and]

theorem toNat_bitFieldInsert_lt {value : BitVec w} {n : Nat} (small : value.toNat < 2 ^ n)
    (data : BitVec w) {lsb width : Nat} (fits : lsb + width ≤ n) :
    (bitFieldInsert value data lsb width).toNat < 2 ^ n := by
  apply toNat_lt_of_getLsbD
  intro i above
  rw [getLsbD_bitFieldInsert, if_neg (by omega), getLsbD_eq_false_of_toNat_lt small above]

/-! ## Signed words

A signed `T` has the same bits as the unsigned word, read as a two's-complement
`toInt`. Its extraction sign-extends the field, testing the top bit of the field
with the `int` expression `1 << (width - 1)`. C++ leaves that shift undefined from
32 bits on (an `int` has 32), so the signed extraction is partial: `none` marks the
undefined shift.
-/

/-- `MaxInt<T>(bits)` of a `w`-bit type, signed when `signed` is set. -/
def maxInt (signed : Bool) (w bits : Nat) : Int :=
  if bits = w then (if signed then 2 ^ (w - 1) - 1 else 2 ^ w - 1)
  else if signed then (if bits = 1 then 0 else 2 ^ (bits - 1) - 1)
  else 2 ^ bits - 1

/-- `MinInt<T>(bits)`. -/
def minInt (signed : Bool) (w bits : Nat) : Int :=
  if bits = w then (if signed then -2 ^ (w - 1) else 0)
  else if signed then (if bits = 1 then -1 else -1 - maxInt signed w bits)
  else 0

/-- The `int` value `1 << (width - 1)`, defined for shifts below 32 bits only. -/
def intSignBit (width : Nat) : Option (BitVec 32) :=
  if width - 1 < 32 then some (1#32 <<< (width - 1)) else none

/-- `BitFieldExtract(value, lsb, width)` of a signed word. The `&` of the sign test is
taken in `T`: where `T` is narrower than `int` the promotion copies bit `w - 1`
upwards, which the one-bit mask never selects, and where `T` is wider the `int`
converts by sign extension. -/
def bitFieldExtractSigned (value : BitVec w) (lsb width : Nat) : Option (BitVec w) :=
  let bitfieldUnsigned := bitFieldExtract value lsb width
  if width = 0 then some 0
  else (intSignBit width).map fun signBit =>
    if bitfieldUnsigned &&& signBit.signExtend w ≠ 0 then
      bitfieldUnsigned ||| ~~~(maskLeastSignificant w width)
    else bitfieldUnsigned

theorem maxInt_signed (bits : Nat) : maxInt true w bits = 2 ^ (bits - 1) - 1 := by
  by_cases whole : bits = w
  · simp [maxInt, whole]
  · by_cases one : bits = 1
    · rw [maxInt, if_neg whole, if_pos rfl, if_pos one, one]
      rfl
    · rw [maxInt, if_neg whole, if_pos rfl, if_neg one]

theorem minInt_signed (bits : Nat) : minInt true w bits = -2 ^ (bits - 1) := by
  by_cases whole : bits = w
  · simp [minInt, whole]
  · by_cases one : bits = 1
    · rw [minInt, if_neg whole, if_pos rfl, if_pos one, one]
      rfl
    · rw [minInt, if_neg whole, if_pos rfl, if_neg one, maxInt_signed]
      omega

theorem and_signExtend_ne_zero {field : BitVec w} {width : Nat} (pos : 0 < width)
    (small : width - 1 < 32) (fits : width ≤ w) (high : ∀ i, width ≤ i → field.getLsbD i = false) :
    field &&& (1#32 <<< (width - 1)).signExtend w ≠ 0 ↔ field.getLsbD (width - 1) = true := by
  -- the sign-extended `int` also sets bits above 32 when it is `1 << 31`; the field has none
  have same : field &&& (1#32 <<< (width - 1)).signExtend w =
      field &&& BitVec.twoPow w (width - 1) := by
    apply BitVec.eq_of_getLsbD_eq
    intro i inside
    rw [BitVec.getLsbD_and, BitVec.getLsbD_and, BitVec.getLsbD_signExtend, BitVec.getLsbD_twoPow]
    by_cases below : i < width
    · simp only [show i < 32 by omega, BitVec.getLsbD_shiftLeft, BitVec.getLsbD_one]
      congr 1
      by_cases top : i = width - 1
      · simp [top]
      · simp [inside, show width - 1 ≠ i by omega]
        omega
    · simp [high i (by omega)]
  have nonzero : BitVec.twoPow w (width - 1) ≠ 0#w := by
    intro zero
    have value := congrArg BitVec.toNat zero
    rw [BitVec.toNat_twoPow_of_lt (by omega)] at value
    simp at value
  rw [same, BitVec.and_twoPow]
  cases field.getLsbD (width - 1) <;> simp [nonzero]

theorem bitFieldExtractSigned_eq (value : BitVec w) (lsb : Nat) {width : Nat} (pos : 0 < width)
    (small : width ≤ 32) (fits : width ≤ w) :
    bitFieldExtractSigned value lsb width = some (((value >>> lsb).setWidth width).signExtend w) := by
  have high : ∀ i, width ≤ i → (bitFieldExtract value lsb width).getLsbD i = false := by
    intro i above
    simp [show ¬i < width by omega]
  rw [bitFieldExtractSigned, if_neg (by omega), intSignBit, if_pos (by omega), Option.map_some]
  congr 1
  apply BitVec.eq_of_getLsbD_eq
  intro i inside
  rw [BitVec.getLsbD_signExtend, BitVec.msb_setWidth, BitVec.getLsbD_setWidth,
    BitVec.getLsbD_ushiftRight, BitVec.getLsbD_ushiftRight]
  have top : (bitFieldExtract value lsb width).getLsbD (width - 1) =
      value.getLsbD (lsb + (width - 1)) := by
    rw [getLsbD_bitFieldExtract]
    simp [show width - 1 < w by omega, show width - 1 < width by omega]
  split
  · next negative =>
    rw [and_signExtend_ne_zero pos (by omega) fits high, top] at negative
    rw [BitVec.getLsbD_or, BitVec.getLsbD_not, getLsbD_bitFieldExtract,
      getLsbD_maskLeastSignificant]
    by_cases below : i < width
    · simp only [inside, below, decide_true, Bool.true_and, Bool.not_true, Bool.and_false,
        Bool.or_false, if_pos]
    · simp only [inside, below, decide_true, decide_false, Bool.true_and, Bool.and_false,
        Bool.false_and, Bool.not_false, Bool.false_or, if_neg, not_false_eq_true, pos, negative]
  · next positive =>
    rw [and_signExtend_ne_zero pos (by omega) fits high, top] at positive
    rw [getLsbD_bitFieldExtract]
    by_cases below : i < width
    · simp only [inside, below, decide_true, Bool.true_and, if_pos]
    · simp only [inside, below, decide_true, decide_false, Bool.true_and, Bool.and_false,
        Bool.false_and, if_neg, not_false_eq_true, pos]
      simpa using positive

theorem bitFieldExtractSigned_of_lt (value : BitVec w) (lsb : Nat) {width : Nat}
    (wide : 32 < width) : bitFieldExtractSigned value lsb width = none := by
  rw [bitFieldExtractSigned, if_neg (by omega), intSignBit, if_neg (by omega), Option.map_none]

theorem setWidth_bitFieldInsert (value data : BitVec w) {lsb width : Nat}
    (fits : lsb + width ≤ w) :
    ((bitFieldInsert value data lsb width) >>> lsb).setWidth width = data.setWidth width := by
  apply BitVec.eq_of_getLsbD_eq
  intro i inside
  rw [BitVec.getLsbD_setWidth, BitVec.getLsbD_setWidth, BitVec.getLsbD_ushiftRight,
    getLsbD_bitFieldInsert, if_pos (by omega)]
  simp [inside, show lsb + i < w by omega]

/-- A word whose value fits in `width` signed bits is the sign extension of its low
`width` bits. -/
theorem signExtend_setWidth_of_toInt {data : BitVec w} {width : Nat} (pos : 0 < width)
    (fits : width ≤ w) (low : -2 ^ (width - 1) ≤ data.toInt) (high : data.toInt < 2 ^ (width - 1)) :
    (data.setWidth width).signExtend w = data := by
  apply BitVec.eq_of_toInt_eq
  have double : ((2 ^ width : Nat) : Int) = 2 * 2 ^ (width - 1) := by
    rw [Nat.cast_pow, Nat.cast_ofNat, ← pow_succ', Nat.sub_add_cancel pos]
  calc ((data.setWidth width).signExtend w).toInt
      = Int.bmod data.toNat (2 ^ width) := by
        rw [BitVec.toInt_signExtend_of_le fits, BitVec.toInt_setWidth]
    _ = (Int.bmod data.toNat (2 ^ w)).bmod (2 ^ width) :=
        (Int.bmod_bmod_of_dvd (Nat.pow_dvd_pow 2 fits)).symm
    _ = data.toInt.bmod (2 ^ width) := by rw [BitVec.toInt_eq_toNat_bmod]
    _ = data.toInt := Int.bmod_eq_of_le_mul_two (by omega) (by omega)

/-- Signed extraction gives back the inserted data exactly when the field has at most 32
bits; from 33 bits on (possible only in a 64-bit word) its sign test is undefined. -/
theorem bitFieldExtractSigned_bitFieldInsert_iff (value data : BitVec w) {lsb width : Nat}
    (fits : lsb + width ≤ w) (zero : width = 0 → data = 0)
    (inRange : 0 < width → minInt true w width ≤ data.toInt ∧ data.toInt ≤ maxInt true w width) :
    bitFieldExtractSigned (bitFieldInsert value data lsb width) lsb width = some data ↔
      width ≤ 32 := by
  by_cases empty : width = 0
  · rw [bitFieldExtractSigned, if_pos empty, zero empty]
    simp [empty]
  · have pos : 0 < width := Nat.pos_of_ne_zero empty
    by_cases small : width ≤ 32
    · obtain ⟨low, high⟩ := inRange pos
      rw [minInt_signed] at low
      rw [maxInt_signed] at high
      rw [bitFieldExtractSigned_eq _ lsb pos small (by omega), setWidth_bitFieldInsert value data fits,
        signExtend_setWidth_of_toInt pos (by omega) low (by omega)]
      simp [small]
    · rw [bitFieldExtractSigned_of_lt _ lsb (by omega)]
      simp [small]

theorem bitFieldExtractSigned_bitFieldInsert_iff_of_forty :
    minInt true 64 40 ≤ (BitVec.ofInt 64 (-1)).toInt ∧
      (BitVec.ofInt 64 (-1)).toInt ≤ maxInt true 64 40 ∧
      (bitFieldExtractSigned (bitFieldInsert 0 (BitVec.ofInt 64 (-1)) 0 40) 0 40 =
        some (BitVec.ofInt 64 (-1)) ↔ 40 ≤ 32) :=
  ⟨by decide, by decide, bitFieldExtractSigned_bitFieldInsert_iff 0 (BitVec.ofInt 64 (-1))
    (by decide) (by decide) (fun _ => ⟨by decide, by decide⟩)⟩

end ArtRuntime.Foundation
