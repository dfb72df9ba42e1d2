import ArtRuntime.Base.Leb128
import ArtRuntime.Foundation.NatBits
import Mathlib.Data.Nat.Digits.Lemmas

/-! # LEB128 round trip

The encoders of `leb128.h` cut a value into groups of seven bits, least
significant first, and set the high bit of every byte but the last. The byte walk
of the decoders puts the groups back together: on the bytes of any list of
groups it returns the number those groups are the base-128 digits of, and it
stops right after the last byte. From this:

* `EncodeUnsignedLeb128` emits `UnsignedLeb128Size(v)` bytes, from one to five,
  and `DecodeUnsignedLeb128` reads `v` back across exactly those bytes; the same
  for the signed pair, where the groups are the low bits of the two's
  complement, as many as the magnitude needs plus one for the sign;
* the checked decoders agree with the unchecked ones when the end pointer is
  at or past the encoding, and fail when the encoding runs past it;
* values encoded back to back decode in order, ending at the end of the data. -/

namespace ArtRuntime.Base.Leb128

open ArtRuntime.Foundation

/-! ## Groups of seven bits -/

/-- The bytes of a list of 7-bit groups: the high bit marks every byte but the last. -/
def continuationBytes : List Nat → List UInt8
  | [] => []
  | [last] => [UInt8.ofNat last]
  | group :: next :: rest => UInt8.ofNat (group ||| 0x80) :: continuationBytes (next :: rest)

@[simp] theorem length_continuationBytes (groups : List Nat) :
    (continuationBytes groups).length = groups.length := by
  induction groups with
  | nil => rfl
  | cons group rest induction =>
      cases rest with
      | nil => rfl
      | cons next rest => simp [continuationBytes, induction]

theorem toNat_ofNat_group {group : Nat} (small : group < 0x80) : (UInt8.ofNat group).toNat = group := by
  rw [UInt8.toNat_ofNat']
  omega

theorem toNat_ofNat_continued {group : Nat} (small : group < 0x80) :
    (UInt8.ofNat (group ||| 0x80)).toNat = group + 0x80 := by
  have marked : group ||| 0x80 = 0x80 + group :=
    ArtRuntime.Foundation.NatBits.or_eq_add_of_lt_left 7 (by norm_num) (by omega)
  rw [marked, UInt8.toNat_ofNat']
  omega

theorem or_shiftLeft_eq_add {payload shift : Nat} (low : payload < 2 ^ shift) (group : Nat) :
    payload ||| group <<< shift = payload + group * 2 ^ shift := by
  rw [Nat.lor_comm, ArtRuntime.Foundation.NatBits.shiftLeft_or_eq_add group shift low]
  omega

theorem and_low_bits (value : Nat) : value &&& 0x7f = value % 0x80 :=
  ArtRuntime.Foundation.NatBits.and_mask_eq_mod 7 (by norm_num) value

/-- The byte walk over the bytes of `groups`, every address of which passes the
test, returns the number the groups are the digits of, placed above the payload
read so far, and the address after the last byte. -/
theorem readLeb128Bytes_continuationBytes {inBounds : Nat → Bool} (groups : List Nat)
    (nonempty : groups ≠ []) (small : ∀ group ∈ groups, group < 0x80) :
    ∀ (remaining : Nat) (memory : TracedMemory UInt8) (address shift payload : Nat),
      groups.length ≤ remaining + 1 → payload < 2 ^ shift →
      Stores memory.cells address (continuationBytes groups) →
      (∀ index < groups.length, inBounds (address + index) = true) →
      (readLeb128Bytes inBounds memory address shift payload remaining).1 =
        some (payload + Nat.ofDigits 0x80 groups * 2 ^ shift, address + groups.length) := by
  -- induction on the groups; a group followed by another is a continued byte
  induction groups with
  | nil => exact absurd rfl nonempty
  | cons group rest induction =>
      intro remaining memory address shift payload fits low stored passes
      have groupSmall : group < 0x80 := small group List.mem_cons_self
      have first : inBounds address = true := by simpa using passes 0 (by simp)
      cases rest with
      | nil =>
          have byte : memory.cells address = UInt8.ofNat group := by
            simpa [continuationBytes] using stored 0 (by simp [continuationBytes])
          cases remaining with
          | zero =>
              simp [readLeb128Bytes, first, byte, toNat_ofNat_group groupSmall,
                or_shiftLeft_eq_add low]
          | succ remaining =>
              have ends : group ≤ 0x7f := by omega
              simp [readLeb128Bytes, first, byte, ends, and_low_bits, toNat_ofNat_group groupSmall,
                Nat.mod_eq_of_lt groupSmall, or_shiftLeft_eq_add low]
      | cons next rest =>
          have restSmall : ∀ other ∈ next :: rest, other < 0x80 :=
            fun other member => small other (List.mem_cons_of_mem group member)
          obtain ⟨byte, storedRest⟩ := Stores.cons_iff.mp stored
          cases remaining with
          | zero => simp at fits
          | succ remaining =>
              have continued : ¬ (UInt8.ofNat (group ||| 0x80)).toNat ≤ 0x7f := by
                rw [toNat_ofNat_continued groupSmall]
                omega
              have lowBits : (UInt8.ofNat (group ||| 0x80)).toNat &&& 0x7f = group := by
                rw [and_low_bits, toNat_ofNat_continued groupSmall]
                omega
              have nextLow : payload + group * 2 ^ shift < 2 ^ (shift + 7) := by
                rw [Nat.pow_add]
                nlinarith
              have walked := induction (by simp) restSmall remaining (memory.read address).2
                (address + 1) (shift + 7) (payload + group * 2 ^ shift) (by simpa using fits) nextLow
                storedRest (fun index inside => by
                  simpa [Nat.add_assoc, Nat.add_comm 1 index] using passes (index + 1) (by simpa using inside))
              simp only [readLeb128Bytes, first, if_true, TracedMemory.read_fst, byte, continued,
                if_false, lowBits, or_shiftLeft_eq_add low]
              rw [walked]
              simp only [Nat.ofDigits_cons, List.length_cons, Nat.pow_add]
              congr 2
              · ring
              · omega

theorem readLeb128Bytes_eq_none {inBounds : Nat → Bool} (groups : List Nat)
    (small : ∀ group ∈ groups, group < 0x80) :
    ∀ (remaining : Nat) (memory : TracedMemory UInt8) (address shift payload : Nat),
      groups.length ≤ remaining + 1 → Stores memory.cells address (continuationBytes groups) →
      (∃ index < groups.length, inBounds (address + index) = false) →
      (readLeb128Bytes inBounds memory address shift payload remaining).1 = none := by
  induction groups with
  | nil => simp
  | cons group rest induction =>
      rintro remaining memory address shift payload fits stored ⟨index, inside, blocked⟩
      have groupSmall : group < 0x80 := small group List.mem_cons_self
      by_cases first : inBounds address = true
      · -- the first byte passes, so the failing one comes later
        have later : index ≠ 0 := by
          rintro rfl
          simp [first] at blocked
        cases rest with
        | nil => simp at inside; omega
        | cons next rest =>
            obtain ⟨byte, storedRest⟩ := Stores.cons_iff.mp stored
            cases remaining with
            | zero => simp at fits
            | succ remaining =>
                have continued : ¬ (UInt8.ofNat (group ||| 0x80)).toNat ≤ 0x7f := by
                  rw [toNat_ofNat_continued groupSmall]
                  omega
                simp only [readLeb128Bytes, first, if_true, TracedMemory.read_fst, byte, continued,
                  if_false]
                refine induction (fun other member => small other (List.mem_cons_of_mem group member))
                  remaining _ (address + 1) _ _ (by simpa using fits) storedRest
                  ⟨index - 1, by simp at inside ⊢; omega, ?_⟩
                rw [show address + 1 + (index - 1) = address + index by omega]
                exact blocked
      · cases remaining <;> simp [readLeb128Bytes, first]

/-! ## The unsigned encoding -/

/-- The groups of an unsigned value: its low seven bits, then the base-128 digits
of the rest. -/
def unsignedGroups (value : Nat) : List Nat := value % 0x80 :: Nat.digits 0x80 (value / 0x80)

theorem encodeUnsignedLeb128Loop_eq (value : Nat) :
    ∀ out, out < 0x80 →
      encodeUnsignedLeb128Loop out value = continuationBytes (out :: Nat.digits 0x80 value) := by
  induction value using Nat.strongRecOn with
  | ind value induction =>
      intro out small
      rw [encodeUnsignedLeb128Loop]
      by_cases zero : value = 0
      · simp [zero, continuationBytes]
      · have shifted : value >>> 7 = value / 0x80 := by
          rw [Nat.shiftRight_eq_div_pow]
        rw [if_pos zero, shifted, and_low_bits,
          induction (value / 0x80) (by omega) (value % 0x80) (Nat.mod_lt _ (by norm_num)),
          Nat.digits_def' (by norm_num) (Nat.pos_of_ne_zero zero)]
        rfl

theorem unsignedLeb128Bytes_eq (value : UInt32) :
    unsignedLeb128Bytes value = continuationBytes (unsignedGroups value.toNat) := by
  have shifted : value.toNat >>> 7 = value.toNat / 0x80 := by
    rw [Nat.shiftRight_eq_div_pow]
  rw [unsignedLeb128Bytes, and_low_bits, shifted,
    encodeUnsignedLeb128Loop_eq _ _ (Nat.mod_lt _ (by norm_num))]
  rfl

theorem unsignedGroups_small (value : Nat) : ∀ group ∈ unsignedGroups value, group < 0x80 := by
  intro group member
  rcases List.mem_cons.mp member with low | digit
  · rw [low]
    exact Nat.mod_lt _ (by norm_num)
  · exact Nat.digits_lt_base (by norm_num) digit

theorem ofDigits_unsignedGroups (value : Nat) : Nat.ofDigits 0x80 (unsignedGroups value) = value := by
  rw [unsignedGroups, Nat.ofDigits_cons, Nat.ofDigits_digits]
  omega

/-- Multiplying by 37 and shifting by 8 divides by 7 on the range the size
functions use. -/
theorem mul_37_shiftRight_8 {x : Nat} (small : x ≤ 85) : (x * 37) >>> 8 = x / 7 := by
  rw [Nat.shiftRight_eq_div_pow]
  have table : ∀ y : Fin 86, y.val * 37 / 2 ^ 8 = y.val / 7 := by decide
  exact table ⟨x, by omega⟩

theorem one_le_size_or_one (value : Nat) : 1 ≤ Nat.size (value ||| 1) :=
  Nat.size_pos.mpr (Nat.lt_of_lt_of_le Nat.one_pos Nat.right_le_or)

theorem size_or_one_le_iff {value bits : Nat} (positive : 0 < bits) :
    Nat.size (value ||| 1) ≤ bits ↔ value < 2 ^ bits := by
  rw [Nat.size_le]
  constructor
  · intro below
    exact lt_of_le_of_lt Nat.left_le_or below
  · intro below
    exact Nat.or_lt_two_pow below (Nat.one_lt_two_pow (by omega))

theorem unsignedLeb128Size_eq (value : UInt32) :
    unsignedLeb128Size value = (Nat.size (value.toNat ||| 1) + 6) / 7 := by
  have fits : value.toNat ||| 1 < 2 ^ 32 :=
    Nat.or_lt_two_pow value.toNat_lt (by norm_num)
  have sizeLe : Nat.size (value.toNat ||| 1) ≤ 32 := Nat.size_le.mpr fits
  have bits := sub_clz fits
  have clzLe : clz 32 (value.toNat ||| 1) ≤ 32 := Nat.sub_le 32 _
  unfold unsignedLeb128Size
  dsimp only
  rw [show 6 + 32 - clz 32 (value.toNat ||| 1) = Nat.size (value.toNat ||| 1) + 6 by omega,
    mul_37_shiftRight_8 (by omega)]

theorem length_unsignedGroups (value : Nat) :
    (unsignedGroups value).length = (Nat.size (value ||| 1) + 6) / 7 := by
  set count := (unsignedGroups value).length with countEq
  have countPos : 1 ≤ count := by simp [count, unsignedGroups]
  -- the count is the least number of groups whose bits hold the value
  have below : value < 2 ^ (7 * count) := by
    have digits := Nat.lt_base_pow_length_digits (b := 0x80) (m := value / 0x80) (by norm_num)
    have expand : 2 ^ (7 * count) = 0x80 * 0x80 ^ (Nat.digits 0x80 (value / 0x80)).length := by
      rw [countEq, unsignedGroups, List.length_cons, Nat.mul_succ, Nat.pow_add, pow_mul]
      ring
    rw [expand]
    omega
  have above : count = 1 ∨ 2 ^ (7 * (count - 1)) ≤ value := by
    by_cases small : value / 0x80 = 0
    · left
      simp [count, unsignedGroups, small]
    · right
      have digits := Nat.base_pow_length_digits_le 0x80 (value / 0x80) (by norm_num) small
      have expand : 2 ^ (7 * (count - 1)) = 0x80 ^ (Nat.digits 0x80 (value / 0x80)).length := by
        rw [countEq, unsignedGroups, List.length_cons, Nat.add_sub_cancel, pow_mul]
        rfl
      have whole : 0x80 * (value / 0x80) ≤ value := Nat.mul_div_le value 0x80
      omega
  have sizeBelow : Nat.size (value ||| 1) ≤ 7 * count := (size_or_one_le_iff (by omega)).mpr below
  have sizePos := one_le_size_or_one value
  rcases above with one | bound
  · omega
  · have sizeAbove : 7 * (count - 1) < Nat.size (value ||| 1) :=
      Nat.lt_size.mpr (le_trans bound Nat.left_le_or)
    omega

theorem length_unsignedLeb128Bytes (value : UInt32) :
    (unsignedLeb128Bytes value).length = unsignedLeb128Size value := by
  rw [unsignedLeb128Bytes_eq, length_continuationBytes, length_unsignedGroups, unsignedLeb128Size_eq]

theorem unsignedLeb128Size_bounds (value : UInt32) :
    1 ≤ unsignedLeb128Size value ∧ unsignedLeb128Size value ≤ 5 := by
  have fits : value.toNat ||| 1 < 2 ^ 32 := Nat.or_lt_two_pow value.toNat_lt (by norm_num)
  have sizeLe : Nat.size (value.toNat ||| 1) ≤ 32 := Nat.size_le.mpr fits
  have sizePos := one_le_size_or_one value.toNat
  rw [unsignedLeb128Size_eq]
  omega


/-! ## Reading back -/

theorem decodeUnsignedLeb128_of_walk {memory : TracedMemory UInt8} {ptr payload next : Nat}
    (walked : (readLeb128Bytes (fun _ => true) memory ptr 0 0 4).1 = some (payload, next)) :
    (decodeUnsignedLeb128 memory ptr).1 = UInt32.ofNat payload ∧
      (decodeUnsignedLeb128 memory ptr).2.1 = next := by
  unfold decodeUnsignedLeb128
  rcases walk : readLeb128Bytes (fun _ => true) memory ptr 0 0 4 with ⟨_ | ⟨payload', next'⟩, after⟩ <;>
    simp_all

theorem decodeSignedLeb128_of_walk {memory : TracedMemory UInt8} {ptr payload next : Nat}
    (walked : (readLeb128Bytes (fun _ => true) memory ptr 0 0 4).1 = some (payload, next)) :
    (decodeSignedLeb128 memory ptr).1 = signedValue payload (next - ptr) ∧
      (decodeSignedLeb128 memory ptr).2.1 = next := by
  unfold decodeSignedLeb128
  rcases walk : readLeb128Bytes (fun _ => true) memory ptr 0 0 4 with ⟨_ | ⟨payload', next'⟩, after⟩ <;>
    simp_all

theorem decodeUnsignedLeb128Checked_of_walk {memory : TracedMemory UInt8} {ptr limit : Nat}
    {result : Option (Nat × Nat)}
    (walked : (readLeb128Bytes (fun address => decide (address < limit)) memory ptr 0 0 4).1 = result) :
    (decodeUnsignedLeb128Checked memory ptr limit).1 =
      result.map fun decoded => (UInt32.ofNat decoded.1, decoded.2) := by
  unfold decodeUnsignedLeb128Checked
  subst walked
  rcases walk : readLeb128Bytes (fun address => decide (address < limit)) memory ptr 0 0 4 with
    ⟨_ | ⟨payload, next⟩, after⟩ <;> simp_all

theorem decodeSignedLeb128Checked_of_walk {memory : TracedMemory UInt8} {ptr limit : Nat}
    {result : Option (Nat × Nat)}
    (walked : (readLeb128Bytes (fun address => decide (address < limit)) memory ptr 0 0 4).1 = result) :
    (decodeSignedLeb128Checked memory ptr limit).1 =
      result.map fun decoded => (signedValue decoded.1 (decoded.2 - ptr), decoded.2) := by
  unfold decodeSignedLeb128Checked
  subst walked
  rcases walk : readLeb128Bytes (fun address => decide (address < limit)) memory ptr 0 0 4 with
    ⟨_ | ⟨payload, next⟩, after⟩ <;> simp_all

section Groups

variable {groups : List Nat} {memory : TracedMemory UInt8} {ptr : Nat}

/-- The walk of every decoder over the bytes of at most five groups: the
unchecked one, and a checked one whose end is at or past the last byte, read the
whole number; a checked one whose end comes earlier fails. -/
theorem readLeb128Bytes_unchecked (nonempty : groups ≠ []) (small : ∀ group ∈ groups, group < 0x80)
    (fits : groups.length ≤ 5) (stored : Stores memory.cells ptr (continuationBytes groups)) :
    (readLeb128Bytes (fun _ => true) memory ptr 0 0 4).1 =
      some (Nat.ofDigits 0x80 groups, ptr + groups.length) := by
  simpa using readLeb128Bytes_continuationBytes groups nonempty small 4 memory ptr 0 0 fits
    (by norm_num) stored (fun _ _ => rfl)

theorem readLeb128Bytes_checked (nonempty : groups ≠ []) (small : ∀ group ∈ groups, group < 0x80)
    (fits : groups.length ≤ 5) (stored : Stores memory.cells ptr (continuationBytes groups))
    (limit : Nat) :
    (readLeb128Bytes (fun address => decide (address < limit)) memory ptr 0 0 4).1 =
      if ptr + groups.length ≤ limit then some (Nat.ofDigits 0x80 groups, ptr + groups.length)
      else none := by
  split
  · rename_i within
    simpa using readLeb128Bytes_continuationBytes groups nonempty small 4 memory ptr 0 0 fits
      (by norm_num) stored (fun index inside => by simp; omega)
  · rename_i past
    have lengthPos : 0 < groups.length := List.length_pos_iff.mpr nonempty
    exact readLeb128Bytes_eq_none groups small 4 memory ptr 0 0 fits stored
      ⟨groups.length - 1, by omega, by simp; omega⟩

end Groups

/-- The unsigned encoder and decoders at one value: the encoding is
`UnsignedLeb128Size` bytes long, between one and five, and the decoders read the
value back from any memory holding it. -/
theorem unsignedLeb128_round_trip (value : UInt32) {memory : TracedMemory UInt8} {ptr : Nat}
    (stored : Stores memory.cells ptr (unsignedLeb128Bytes value)) :
    (decodeUnsignedLeb128 memory ptr).1 = value ∧
      (decodeUnsignedLeb128 memory ptr).2.1 = ptr + unsignedLeb128Size value ∧
      ∀ limit, (decodeUnsignedLeb128Checked memory ptr limit).1 =
        if ptr + unsignedLeb128Size value ≤ limit then some (value, ptr + unsignedLeb128Size value)
        else none := by
  rw [unsignedLeb128Bytes_eq] at stored
  have nonempty : unsignedGroups value.toNat ≠ [] := by simp [unsignedGroups]
  have fits : (unsignedGroups value.toNat).length ≤ 5 := by
    rw [← length_continuationBytes, ← unsignedLeb128Bytes_eq, length_unsignedLeb128Bytes]
    exact (unsignedLeb128Size_bounds value).2
  have length : (unsignedGroups value.toNat).length = unsignedLeb128Size value := by
    rw [← length_continuationBytes, ← unsignedLeb128Bytes_eq, length_unsignedLeb128Bytes]
  have small := unsignedGroups_small value.toNat
  obtain ⟨decoded, next⟩ := decodeUnsignedLeb128_of_walk (readLeb128Bytes_unchecked nonempty small fits stored)
  refine ⟨?_, ?_, fun limit => ?_⟩
  · rw [decoded, ofDigits_unsignedGroups, UInt32.ofNat_toNat]
  · rw [next, length]
  · rw [decodeUnsignedLeb128Checked_of_walk (readLeb128Bytes_checked nonempty small fits stored limit),
      ofDigits_unsignedGroups, length]
    split <;> simp

/-! ## The signed encoding -/

/-- The magnitude bits of a signed value: the value itself when it is not
negative, its complement `-value - 1` when it is. -/
def magnitude (value : Int) : Nat := if value < 0 then (-value - 1).toNat else value.toNat

theorem xor_neg_one {value : Int} (negative : value < 0) : Int.xor value (-1) = -value - 1 := by
  cases value with
  | ofNat m => exact absurd negative (by simp)
  | negSucc m =>
      rw [show (-1 : Int) = Int.negSucc 0 from rfl]
      simp [Int.xor, Int.negSucc_eq]

theorem xor_zero {value : Int} (nonneg : 0 ≤ value) : Int.xor value 0 = value := by
  cases value <;> simp_all [Int.xor]

theorem xor_shiftRight_31 (value : Int32) :
    (Int.xor value.toInt (value.toInt >>> (31 : Nat))).toNat = magnitude value.toInt := by
  have lower := value.le_toInt
  have upper := value.toInt_lt
  rw [Int.shiftRight_eq_div_pow]
  unfold magnitude
  split
  · rename_i negative
    rw [show value.toInt / ((2 ^ 31 : Nat) : Int) = -1 by omega, xor_neg_one negative]
  · rename_i nonneg
    rw [show value.toInt / ((2 ^ 31 : Nat) : Int) = 0 by omega, xor_zero (by omega)]

theorem magnitude_lt (value : Int32) : magnitude value.toInt < 2 ^ 31 := by
  have lower := value.le_toInt
  have upper := value.toInt_lt
  unfold magnitude
  split <;> omega

/-- `count` groups of a signed value: the residues modulo 128 of its arithmetic
shifts by seven. -/
def signedGroups (value : Int) : Nat → List Nat
  | 0 => []
  | count + 1 => (value % 0x80).toNat :: signedGroups (value >>> (7 : Nat)) count

@[simp] theorem length_signedGroups (value : Int) (count : Nat) :
    (signedGroups value count).length = count := by
  induction count generalizing value with
  | zero => rfl
  | succ count induction => simp [signedGroups, induction]

theorem signedGroups_small (value : Int) (count : Nat) :
    ∀ group ∈ signedGroups value count, group < 0x80 := by
  induction count generalizing value with
  | zero => simp [signedGroups]
  | succ count induction =>
      intro group member
      rcases List.mem_cons.mp member with low | rest
      · rw [low]
        omega
      · exact induction _ group rest

/-- The groups are the base-128 digits of the low `7 * count` bits of the two's
complement. -/
theorem ofDigits_signedGroups (value : Int) (count : Nat) :
    ((Nat.ofDigits 0x80 (signedGroups value count) : Nat) : Int) = value % 2 ^ (7 * count) := by
  induction count generalizing value with
  | zero => simp [signedGroups]
  | succ count induction =>
      have split : value % 2 ^ (7 * (count + 1)) =
          value % 0x80 + 0x80 * (value / 0x80 % 2 ^ (7 * count)) := by
        rw [show (2 : Int) ^ (7 * (count + 1)) = 0x80 * 2 ^ (7 * count) by ring, Int.emod_def,
          Int.emod_def value 0x80, Int.emod_def (value / 0x80), Int.ediv_ediv_of_nonneg (by norm_num)]
        ring
      have shifted : value >>> (7 : Nat) = value / 0x80 := by
        rw [Int.shiftRight_eq_div_pow]
        rfl
      rw [signedGroups, Nat.ofDigits_cons, Nat.cast_add, Nat.cast_mul, induction, shifted, split,
        Int.toNat_of_nonneg (Int.emod_nonneg _ (by norm_num))]
      rfl

/-- The loop of `EncodeSignedLeb128` emits the groups of the value, one more than
the turns it takes to shift `extraBits` down to zero. -/
theorem encodeSignedLeb128Loop_eq (extraBits : Nat) :
    ∀ value : Int, ∃ count, encodeSignedLeb128Loop (value % 0x80).toNat value extraBits =
        continuationBytes (signedGroups value count) ∧ 1 ≤ count ∧
      extraBits < 2 ^ (7 * (count - 1)) ∧ (count = 1 ∨ 2 ^ (7 * (count - 2)) ≤ extraBits) := by
  induction extraBits using Nat.strongRecOn with
  | ind extraBits induction =>
      intro value
      rw [encodeSignedLeb128Loop]
      by_cases zero : extraBits = 0
      · refine ⟨1, ?_, le_refl 1, by simp [zero], Or.inl rfl⟩
        simp [zero, signedGroups, continuationBytes]
      · have shifted : extraBits >>> 7 = extraBits / 0x80 := by
          rw [Nat.shiftRight_eq_div_pow]
        obtain ⟨count, emitted, countPos, below, above⟩ :=
          induction (extraBits / 0x80) (by omega) (value >>> (7 : Nat))
        obtain ⟨previous, rfl⟩ : ∃ previous, count = previous + 1 := ⟨count - 1, by omega⟩
        have outSmall : (value % 0x80).toNat < 0x80 := by omega
        refine ⟨previous + 2, ?_, by omega, ?_, Or.inr ?_⟩
        · rw [if_pos zero, shifted, emitted]
          rfl
        · have grows : 2 ^ (7 * (previous + 2 - 1)) = 2 ^ (7 * (previous + 1 - 1)) * 0x80 := by
            rw [show 7 * (previous + 2 - 1) = 7 * (previous + 1 - 1) + 7 by omega, Nat.pow_add]
          omega
        · -- a second turn means the bits shifted out were not all zero
          rcases Nat.eq_zero_or_pos previous with first | atLeast
          · subst first
            have one : 2 ^ (7 * (0 + 2 - 2)) = 1 := by norm_num
            omega
          · rcases above with one | bound
            · omega
            · have grows : 2 ^ (7 * (previous + 2 - 2)) = 2 ^ (7 * (previous + 1 - 2)) * 0x80 := by
                rw [show 7 * (previous + 2 - 2) = 7 * (previous + 1 - 2) + 7 by omega, Nat.pow_add]
              omega

/-- The bytes `EncodeSignedLeb128` emits, with what the loop's bounds say about
their number: the magnitude fits in one bit fewer than they carry, and not in
seven bits fewer. -/
theorem signedLeb128Bytes_eq (value : Int32) : ∃ count,
    signedLeb128Bytes value = continuationBytes (signedGroups value.toInt count) ∧ 1 ≤ count ∧
      magnitude value.toInt < 2 ^ (7 * count - 1) ∧
      (count = 1 ∨ 2 ^ (7 * count - 8) ≤ magnitude value.toInt) := by
  obtain ⟨count, emitted, countPos, below, above⟩ :=
    encodeSignedLeb128Loop_eq (magnitude value.toInt >>> 6) value.toInt
  refine ⟨count, ?_, countPos, ?_, ?_⟩
  · rw [signedLeb128Bytes, xor_shiftRight_31]
    exact emitted
  · have shifted : magnitude value.toInt >>> 6 = magnitude value.toInt / 64 := by
      rw [Nat.shiftRight_eq_div_pow]
    have widens : 2 ^ (7 * count - 1) = 2 ^ (7 * (count - 1)) * 64 := by
      rw [show 7 * count - 1 = 7 * (count - 1) + 6 by omega, Nat.pow_add]
    omega
  · by_cases one : count = 1
    · exact Or.inl one
    · right
      have bound := above.resolve_left one
      have shifted : magnitude value.toInt >>> 6 = magnitude value.toInt / 64 := by
        rw [Nat.shiftRight_eq_div_pow]
      have widens : 2 ^ (7 * count - 8) = 2 ^ (7 * (count - 2)) * 64 := by
        rw [show 7 * count - 8 = 7 * (count - 2) + 6 by omega, Nat.pow_add]
      omega

theorem signedLeb128Size_eq (value : Int32) :
    signedLeb128Size value = (Nat.size (magnitude value.toInt ||| 1) + 7) / 7 := by
  have fits : magnitude value.toInt ||| 1 < 2 ^ 32 :=
    Nat.or_lt_two_pow (lt_trans (magnitude_lt value) (by norm_num)) (by norm_num)
  have sizeLe : Nat.size (magnitude value.toInt ||| 1) ≤ 32 := Nat.size_le.mpr fits
  have bits := sub_clz fits
  have clzLe : clz 32 (magnitude value.toInt ||| 1) ≤ 32 := Nat.sub_le 32 _
  unfold signedLeb128Size
  dsimp only
  rw [xor_shiftRight_31,
    show 1 + 6 + 32 - clz 32 (magnitude value.toInt ||| 1) = Nat.size (magnitude value.toInt ||| 1) + 7
      by omega,
    mul_37_shiftRight_8 (by omega)]

theorem length_signedLeb128Bytes (value : Int32) :
    (signedLeb128Bytes value).length = signedLeb128Size value := by
  obtain ⟨count, emitted, countPos, below, above⟩ := signedLeb128Bytes_eq value
  rw [emitted, length_continuationBytes, length_signedGroups, signedLeb128Size_eq]
  have sizeBelow : Nat.size (magnitude value.toInt ||| 1) ≤ 7 * count - 1 :=
    (size_or_one_le_iff (by omega)).mpr below
  have sizePos := one_le_size_or_one (magnitude value.toInt)
  rcases above with one | bound
  · omega
  · have sizeAbove : 7 * count - 8 < Nat.size (magnitude value.toInt ||| 1) :=
      Nat.lt_size.mpr (le_trans bound Nat.left_le_or)
    omega

theorem signedLeb128Size_bounds (value : Int32) :
    1 ≤ signedLeb128Size value ∧ signedLeb128Size value ≤ 5 := by
  have fits : magnitude value.toInt ||| 1 < 2 ^ 31 :=
    Nat.or_lt_two_pow (magnitude_lt value) (by norm_num)
  have sizeLe : Nat.size (magnitude value.toInt ||| 1) ≤ 31 := Nat.size_le.mpr fits
  have sizePos := one_le_size_or_one (magnitude value.toInt)
  rw [signedLeb128Size_eq]
  omega

/-- Sign-extending the low `width` bits of a residue modulo a larger power of two
is the balanced residue modulo `2 ^ width`. -/
theorem toInt_ofNat_emod {width wider : Nat} (le : width ≤ wider) (value : Int) :
    (BitVec.ofNat width (value % 2 ^ wider).toNat).toInt = value.bmod (2 ^ width) := by
  rw [← BitVec.toInt_ofInt]
  congr 1
  apply BitVec.eq_of_toNat_eq
  have nested : value % 2 ^ wider % 2 ^ width = value % 2 ^ width :=
    Int.emod_emod_of_dvd value (pow_dvd_pow 2 le)
  have nonneg : 0 ≤ value % 2 ^ wider := Int.emod_nonneg _ (by positivity)
  simp only [BitVec.toNat_ofNat, BitVec.toNat_ofInt, Nat.cast_pow, Nat.cast_ofNat]
  rw [← nested, Int.toNat_emod nonneg (by positivity)]
  simp [Int.toNat_pow_of_nonneg]

theorem bmod_two_pow_of_bounds {value : Int} {width : Nat} (positive : 0 < width)
    (lower : -(2 ^ (width - 1) : Int) ≤ value) (upper : value < 2 ^ (width - 1)) :
    value.bmod (2 ^ width) = value := by
  have halves : ((2 ^ width : Nat) : Int) = 2 * 2 ^ (width - 1) := by
    obtain ⟨smaller, rfl⟩ : ∃ smaller, width = smaller + 1 := ⟨width - 1, by omega⟩
    push_cast
    ring
  apply Int.bmod_eq_of_le <;> rw [halves] <;> omega

theorem signedValue_signedGroups (value : Int32) {count : Nat} (countPos : 1 ≤ count)
    (fits : count ≤ 5) (below : magnitude value.toInt < 2 ^ (7 * count - 1)) :
    signedValue (Nat.ofDigits 0x80 (signedGroups value.toInt count)) count = value.toInt := by
  have payload : (Nat.ofDigits 0x80 (signedGroups value.toInt count)) =
      (value.toInt % 2 ^ (7 * count)).toNat := by
    rw [← ofDigits_signedGroups, Int.toNat_natCast]
  have lower := value.le_toInt
  have upper := value.toInt_lt
  have bounds : -(2 ^ (7 * count - 1) : Int) ≤ value.toInt ∧ value.toInt < 2 ^ (7 * count - 1) := by
    have cast : ((2 ^ (7 * count - 1) : Nat) : Int) = 2 ^ (7 * count - 1) := by push_cast; rfl
    unfold magnitude at below
    split at below <;> omega
  rw [payload, signedValue]
  split
  · rw [toInt_ofNat_emod (le_refl _), bmod_two_pow_of_bounds (by omega) bounds.1 bounds.2]
  · rw [toInt_ofNat_emod (by omega), bmod_two_pow_of_bounds (by omega) (by simpa using lower)
      (by simpa using upper)]

theorem signedLeb128_round_trip (value : Int32) {memory : TracedMemory UInt8} {ptr : Nat}
    (stored : Stores memory.cells ptr (signedLeb128Bytes value)) :
    (decodeSignedLeb128 memory ptr).1 = value.toInt ∧
      (decodeSignedLeb128 memory ptr).2.1 = ptr + signedLeb128Size value ∧
      ∀ limit, (decodeSignedLeb128Checked memory ptr limit).1 =
        if ptr + signedLeb128Size value ≤ limit then some (value.toInt, ptr + signedLeb128Size value)
        else none := by
  obtain ⟨count, emitted, countPos, below, _⟩ := signedLeb128Bytes_eq value
  have length : count = signedLeb128Size value := by
    rw [← length_signedLeb128Bytes, emitted, length_continuationBytes, length_signedGroups]
  have fits : count ≤ 5 := length ▸ (signedLeb128Size_bounds value).2
  rw [emitted] at stored
  have nonempty : signedGroups value.toInt count ≠ [] := by
    rw [← List.length_pos_iff, length_signedGroups]
    omega
  have small := signedGroups_small value.toInt count
  have groupsFit : (signedGroups value.toInt count).length ≤ 5 := by simpa using fits
  obtain ⟨decoded, next⟩ :=
    decodeSignedLeb128_of_walk (readLeb128Bytes_unchecked nonempty small groupsFit stored)
  refine ⟨?_, ?_, fun limit => ?_⟩
  · rw [decoded, length_signedGroups, Nat.add_sub_cancel_left,
      signedValue_signedGroups value countPos fits below]
  · rw [next, length_signedGroups, length]
  · rw [decodeSignedLeb128Checked_of_walk (readLeb128Bytes_checked nonempty small groupsFit stored limit),
      length_signedGroups, ← length]
    split
    · simp [signedValue_signedGroups value countPos fits below]
    · rfl

/-! ## Encoders that write in place, and the round trips -/

/-- `encode memory dest` writes `bytes` from `dest` on, leaves every other cell
alone, and returns the address after them. -/
def WritesAt (encode : (Nat → UInt8) → Nat → (Nat → UInt8) × Nat) (bytes : List UInt8) : Prop :=
  ∀ memory dest, (encode memory dest).2 = dest + bytes.length ∧ Stores (encode memory dest).1 dest bytes ∧
    ∀ address, address < dest ∨ dest + bytes.length ≤ address → (encode memory dest).1 address = memory address

/-- The decoders read `value` back from `bytes` wherever they are stored: the
unchecked one returns it with the address after the bytes; a checked one returns
the same when its end is at or past that address, and fails when it is not. -/
structure ReadsBack {α : Type} (decode : TracedMemory UInt8 → Nat → α × Nat × TracedMemory UInt8)
    (decodeChecked : TracedMemory UInt8 → Nat → Nat → Option (α × Nat) × TracedMemory UInt8)
    (bytes : List UInt8) (value : α) : Prop where
  unchecked : ∀ memory ptr, Stores memory.cells ptr bytes →
    (decode memory ptr).1 = value ∧ (decode memory ptr).2.1 = ptr + bytes.length
  checked : ∀ memory ptr limit, Stores memory.cells ptr bytes →
    (decodeChecked memory ptr limit).1 =
      if ptr + bytes.length ≤ limit then some (value, ptr + bytes.length) else none

theorem writesAt_writeList (bytes : List UInt8) :
    WritesAt (fun memory dest => (writeList memory dest bytes, dest + bytes.length)) bytes :=
  fun memory dest => ⟨rfl, stores_writeList memory dest bytes, fun _ outside =>
    outside.elim (writeList_of_lt bytes) (writeList_of_le bytes)⟩

theorem readsBack_unsignedLeb128Bytes (value : UInt32) :
    ReadsBack decodeUnsignedLeb128 decodeUnsignedLeb128Checked (unsignedLeb128Bytes value) value where
  unchecked memory ptr stored := by
    obtain ⟨decoded, next, _⟩ := unsignedLeb128_round_trip value stored
    exact ⟨decoded, by rw [next, length_unsignedLeb128Bytes]⟩
  checked memory ptr limit stored := by
    rw [length_unsignedLeb128Bytes]
    exact (unsignedLeb128_round_trip value stored).2.2 limit

theorem readsBack_signedLeb128Bytes (value : Int32) :
    ReadsBack decodeSignedLeb128 decodeSignedLeb128Checked (signedLeb128Bytes value) value.toInt where
  unchecked memory ptr stored := by
    obtain ⟨decoded, next, _⟩ := signedLeb128_round_trip value stored
    exact ⟨decoded, by rw [next, length_signedLeb128Bytes]⟩
  checked memory ptr limit stored := by
    rw [length_signedLeb128Bytes]
    exact (signedLeb128_round_trip value stored).2.2 limit

/-! ## Streams -/

/-- A value of a LEB128 stream, with the encoding it is written in. -/
inductive Leb128Value
  | unsigned (value : UInt32)
  | signed (value : Int32)
  deriving DecidableEq, Repr

/-- Which decoder reads a value of the stream back. -/
inductive Leb128Kind
  | unsigned
  | signed
  deriving DecidableEq, Repr

namespace Leb128Value

def kind : Leb128Value → Leb128Kind
  | unsigned _ => .unsigned
  | signed _ => .signed

/-- The vector form of the encoder of the value. -/
def encode (dest : List UInt8) : Leb128Value → List UInt8
  | unsigned value => encodeUnsignedLeb128 dest value
  | signed value => encodeSignedLeb128 dest value

/-- The bytes the encoder appends. -/
def bytes : Leb128Value → List UInt8
  | unsigned value => unsignedLeb128Bytes value
  | signed value => signedLeb128Bytes value

theorem foldl_encode (values : List Leb128Value) (dest : List UInt8) :
    values.foldl encode dest = dest ++ (values.map bytes).flatten := by
  induction values generalizing dest with
  | nil => simp
  | cons value rest induction =>
      rw [List.foldl_cons, induction]
      cases value <;> simp [encode, bytes, encodeUnsignedLeb128, encodeSignedLeb128]

end Leb128Value

/-- One value of a stream, read by the decoder of its kind; the signed decoder's
`int32_t` result is taken back to `Int32`. -/
def decodeLeb128 (memory : TracedMemory UInt8) (ptr : Nat) :
    Leb128Kind → Leb128Value × Nat × TracedMemory UInt8
  | .unsigned =>
      let (value, next, memory) := decodeUnsignedLeb128 memory ptr
      (.unsigned value, next, memory)
  | .signed =>
      let (value, next, memory) := decodeSignedLeb128 memory ptr
      (.signed (Int32.ofInt value), next, memory)

/-- Values of the given kinds read one after the other from `ptr`, and the
address where the reading stops. -/
def decodeLeb128Sequence (memory : TracedMemory UInt8) (ptr : Nat) :
    List Leb128Kind → List Leb128Value × Nat
  | [] => ([], ptr)
  | kind :: kinds =>
      let (value, next, memory) := decodeLeb128 memory ptr kind
      let (values, finish) := decodeLeb128Sequence memory next kinds
      (value :: values, finish)

theorem readLeb128Bytes_cells (inBounds : Nat → Bool) (memory : TracedMemory UInt8)
    (address shift payload remaining : Nat) :
    (readLeb128Bytes inBounds memory address shift payload remaining).2.cells = memory.cells := by
  induction remaining generalizing memory address shift payload with
  | zero =>
      unfold readLeb128Bytes
      split <;> rfl
  | succ remaining induction =>
      unfold readLeb128Bytes
      split
      · simp only
        split
        · rfl
        · rw [induction]
          rfl
      · rfl

theorem decodeLeb128_cells (memory : TracedMemory UInt8) (ptr : Nat) (kind : Leb128Kind) :
    (decodeLeb128 memory ptr kind).2.2.cells = memory.cells := by
  have walked := readLeb128Bytes_cells (fun _ => true) memory ptr 0 0 4
  cases kind <;>
    simp only [decodeLeb128, decodeUnsignedLeb128, decodeSignedLeb128] <;>
    split <;> rename_i walk <;> rw [walk] at walked <;> exact walked

theorem decodeLeb128_bytes (value : Leb128Value) {memory : TracedMemory UInt8} {ptr : Nat}
    (stored : Stores memory.cells ptr value.bytes) :
    (decodeLeb128 memory ptr value.kind).1 = value ∧
      (decodeLeb128 memory ptr value.kind).2.1 = ptr + value.bytes.length := by
  cases value with
  | unsigned value =>
      obtain ⟨decoded, next⟩ := (readsBack_unsignedLeb128Bytes value).unchecked memory ptr stored
      exact ⟨by simp [decodeLeb128, decoded, Leb128Value.kind],
        by simpa [decodeLeb128, Leb128Value.kind, Leb128Value.bytes] using next⟩
  | signed value =>
      obtain ⟨decoded, next⟩ := (readsBack_signedLeb128Bytes value).unchecked memory ptr stored
      exact ⟨by simp [decodeLeb128, decoded, Leb128Value.kind],
        by simpa [decodeLeb128, Leb128Value.kind, Leb128Value.bytes] using next⟩

theorem decodeLeb128Sequence_flatten (values : List Leb128Value) :
    ∀ (memory : TracedMemory UInt8) (ptr : Nat), Stores memory.cells ptr (values.map Leb128Value.bytes).flatten →
      decodeLeb128Sequence memory ptr (values.map Leb128Value.kind) =
        (values, ptr + ((values.map Leb128Value.bytes).flatten).length) := by
  induction values with
  | nil => simp [decodeLeb128Sequence]
  | cons value rest induction =>
      intro memory ptr stored
      rw [List.map_cons, List.flatten_cons, Stores.append_iff] at stored
      obtain ⟨decoded, next⟩ := decodeLeb128_bytes value stored.1
      have restStored : Stores (decodeLeb128 memory ptr value.kind).2.2.cells
          (decodeLeb128 memory ptr value.kind).2.1 (rest.map Leb128Value.bytes).flatten := by
        rw [decodeLeb128_cells, next]
        exact stored.2
      simp only [List.map_cons, decodeLeb128Sequence]
      rw [induction _ _ restStored, decoded, next]
      simp [Nat.add_assoc]

/-- `EncodeUnsignedLeb128` and `EncodeSignedLeb128`, in both forms, write
`UnsignedLeb128Size(v)` and `SignedLeb128Size(v)` bytes, from one to five; the
decoders read every `uint32_t` and every `int32_t` back across exactly those
bytes, the checked ones as long as their end is not before the end of the
encoding and failing when it is; and values encoded back to back decode in
order, ending at the end of the data. -/
theorem leb128_round_trip :
    (∀ value : UInt32,
      (unsignedLeb128Bytes value).length = unsignedLeb128Size value ∧
      1 ≤ unsignedLeb128Size value ∧ unsignedLeb128Size value ≤ 5 ∧
      WritesAt (fun memory dest => encodeUnsignedLeb128At memory dest value) (unsignedLeb128Bytes value) ∧
      (∀ dest, encodeUnsignedLeb128 dest value = dest ++ unsignedLeb128Bytes value) ∧
      ReadsBack decodeUnsignedLeb128 decodeUnsignedLeb128Checked (unsignedLeb128Bytes value) value) ∧
    (∀ value : Int32,
      (signedLeb128Bytes value).length = signedLeb128Size value ∧
      1 ≤ signedLeb128Size value ∧ signedLeb128Size value ≤ 5 ∧
      WritesAt (fun memory dest => encodeSignedLeb128At memory dest value) (signedLeb128Bytes value) ∧
      (∀ dest, encodeSignedLeb128 dest value = dest ++ signedLeb128Bytes value) ∧
      ReadsBack decodeSignedLeb128 decodeSignedLeb128Checked (signedLeb128Bytes value) value.toInt) ∧
    (∀ (values : List Leb128Value) (memory : TracedMemory UInt8) (ptr : Nat),
      Stores memory.cells ptr (values.foldl Leb128Value.encode []) →
      decodeLeb128Sequence memory ptr (values.map Leb128Value.kind) =
        (values, ptr + (values.foldl Leb128Value.encode []).length)) := by
  refine ⟨fun value => ?_, fun value => ?_, fun values memory ptr stored => ?_⟩
  · exact ⟨length_unsignedLeb128Bytes value, (unsignedLeb128Size_bounds value).1,
      (unsignedLeb128Size_bounds value).2, writesAt_writeList _, fun _ => rfl,
      readsBack_unsignedLeb128Bytes value⟩
  · exact ⟨length_signedLeb128Bytes value, (signedLeb128Size_bounds value).1,
      (signedLeb128Size_bounds value).2, writesAt_writeList _, fun _ => rfl,
      readsBack_signedLeb128Bytes value⟩
  · rw [Leb128Value.foldl_encode, List.nil_append] at stored ⊢
    exact decodeLeb128Sequence_flatten values memory ptr stored

end ArtRuntime.Base.Leb128
