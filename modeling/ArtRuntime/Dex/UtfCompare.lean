import Mathlib
import ArtRuntime.Dex.Utf

/-! # Comparing modified UTF-8 as UTF-16

`CompareModifiedUtf8ToModifiedUtf8AsUtf16CodePointValues` of `utf-inl.h` and
`CompareModifiedUtf8ToUtf16AsCodePointValues` of `utf.cc`. A C string is the
list of the bytes from its pointer on, its terminating NUL included; a read
past the end of the list returns `none`. The UTF-16 side of the second
comparison is the list of its `utf16_length` units.

Both walk the strings one decoded character at a time. The second one compares
the units of a decoded surrogate pair one by one against the UTF-16 string,
which is the order of the units. The first one compares two decoded values as
wholes and, when they differ, their leading units and then their trailing
units, where a single unit has the trailing unit zero: a pair and a single unit
with the same leading unit are ordered by the pair's trailing unit against
zero, not against the unit that follows the single one. -/

namespace ArtRuntime.Dex.Utf

/-- The result of `CompareModifiedUtf8ToModifiedUtf8AsUtf16CodePointValues` at
two decoded values that differ: the `int` difference of the leading units,
stored in a `uint32_t` and cast back, and, when it is zero, the difference of
the trailing units. -/
def decodedDifference (c1 c2 : Nat) : Int :=
  let leadingSurrogateDiff : UInt32 :=
    (getLeadingUtf16Char c1).toUInt32 - (getLeadingUtf16Char c2).toUInt32
  if leadingSurrogateDiff ≠ 0 then leadingSurrogateDiff.toBitVec.toInt
  else ((getTrailingUtf16Char c1).toNat : Int) - (getTrailingUtf16Char c2).toNat

/-- `CompareModifiedUtf8ToModifiedUtf8AsUtf16CodePointValues(utf8_1, utf8_2)`. -/
def compareModifiedUtf8ToModifiedUtf8AsUtf16CodePointValues : List UInt8 → List UInt8 → Option Int
  | [], _ => none
  | _ :: _, [] => none
  | c1 :: more1, c2 :: more2 =>
    if c1 = 0 then some (if c2 = 0 then 0 else -1)
    else if c2 = 0 then some 1
    else
      match decoded1 : getUtf16FromUtf8 (c1 :: more1), getUtf16FromUtf8 (c2 :: more2) with
      | some (value1, rest1), some (value2, rest2) =>
        have : rest1.length < more1.length + 1 := getUtf16FromUtf8_length decoded1
        if value1 = value2 then compareModifiedUtf8ToModifiedUtf8AsUtf16CodePointValues rest1 rest2
        else some (decodedDifference value1 value2)
      | _, _ => none
termination_by utf8 => utf8.length

/-- `lhs > rhs ? 1 : -1`. -/
def unitOrder (lhs rhs : UInt16) : Int := if lhs > rhs then 1 else -1

/-- `CompareModifiedUtf8ToUtf16AsCodePointValues(utf8, utf16, utf16_length)`. -/
def compareModifiedUtf8ToUtf16AsCodePointValues : List UInt8 → List UInt16 → Option Int
  | [], _ => none
  | byte :: more, utf16 =>
    if byte = 0 then some (if utf16 = [] then 0 else -1)
    else
      match utf16 with
      | [] => some 1
      | rhs :: after =>
        match decoded : getUtf16FromUtf8 (byte :: more) with
        | none => none
        | some (pair, rest) =>
          have : rest.length < more.length + 1 := getUtf16FromUtf8_length decoded
          let lhs := getLeadingUtf16Char pair
          if lhs ≠ rhs then some (unitOrder lhs rhs)
          else
            let lhs2 := getTrailingUtf16Char pair
            if lhs2 ≠ 0 then
              match after with
              | [] => some 1
              | rhs2 :: after2 =>
                if lhs2 ≠ rhs2 then some (unitOrder lhs2 rhs2)
                else compareModifiedUtf8ToUtf16AsCodePointValues rest after2
            else compareModifiedUtf8ToUtf16AsCodePointValues rest after
termination_by utf8 => utf8.length

/-! ## The order of the comparisons -/

/-- The encoder's first character decodes back to its units, and the decoder
stops at the encoding of the units after them. -/
theorem getUtf16FromUtf8_convertUtf16ToModifiedUtf8Loop (ch : UInt16) (rest : List UInt16)
    (tail : List UInt8) :
    ∃ value after, getUtf16FromUtf8 (convertUtf16ToModifiedUtf8Loop (ch :: rest) ++ tail) =
      some (value, convertUtf16ToModifiedUtf8Loop after ++ tail) ∧ unitsOf value ++ after = ch :: rest := by
  by_cases ascii : 0 < ch.toNat ∧ ch.toNat ≤ 0x7f
  · refine ⟨ch.toNat, rest, ?_, by simp⟩
    rw [convertUtf16ToModifiedUtf8Loop_ascii ascii, List.cons_append, getUtf16FromUtf8_ascii ascii]
  · match rest with
    | ch2 :: after =>
      by_cases pair : (0xd800 ≤ ch.toNat ∧ ch.toNat ≤ 0xdbff) ∧ (0xdc00 ≤ ch2.toNat ∧ ch2.toNat ≤ 0xdfff)
      · have trailingNonzero : ch2 ≠ 0 := by
          intro zero
          rw [zero] at pair
          simp at pair
        refine ⟨ch2.toNat * 2 ^ 16 + ch.toNat, after, ?_, by rw [unitsOf_pair ch ch2 trailingNonzero]; rfl⟩
        simp only [convertUtf16ToModifiedUtf8Loop, if_neg ascii, if_pos pair, List.append_assoc]
        rw [getUtf16FromUtf8_encodeSurrogatePair pair.1 pair.2, surrogatePairOf_pairCodePoint pair.1 pair.2]
      · refine ⟨ch.toNat, ch2 :: after, ?_, by simp⟩
        simp only [convertUtf16ToModifiedUtf8Loop, if_neg ascii, if_neg pair, List.append_assoc]
        rw [getUtf16FromUtf8_encodeOther]
    | [] =>
      refine ⟨ch.toNat, [], ?_, by simp⟩
      simp only [convertUtf16ToModifiedUtf8Loop, if_neg ascii, List.nil_append]
      rw [getUtf16FromUtf8_encodeOther]

theorem convertUtf16ToModifiedUtf8Loop_cons (ch : UInt16) (rest : List UInt16) :
    ∃ byte bytes, convertUtf16ToModifiedUtf8Loop (ch :: rest) = byte :: bytes ∧ byte ≠ 0 := by
  have noZero := zero_not_mem_convertUtf16ToModifiedUtf8Loop (ch :: rest)
  obtain ⟨value, after, decoded, -⟩ := getUtf16FromUtf8_convertUtf16ToModifiedUtf8Loop ch rest []
  cases written : convertUtf16ToModifiedUtf8Loop (ch :: rest) with
  | nil => rw [written] at decoded; simp [getUtf16FromUtf8] at decoded
  | cons byte bytes =>
    rw [written] at noZero
    exact ⟨byte, bytes, rfl, fun zero => noZero (zero ▸ List.mem_cons_self)⟩

theorem compare_unitOrder {lhs rhs : UInt16} (different : lhs ≠ rhs) :
    compare (unitOrder lhs rhs) 0 = compare lhs rhs := by
  unfold unitOrder
  split
  · rename_i greater
    rw [Std.compare_eq_gt.mpr greater]
    decide
  · rename_i notGreater
    have less : lhs < rhs := (UInt16.lt_or_lt_of_ne different).resolve_right notGreater
    rw [Std.compare_eq_lt.mpr less]
    decide

theorem compare_cons_of_ne {lhs rhs : UInt16} (different : lhs ≠ rhs) (left right : List UInt16) :
    compare (lhs :: left) (rhs :: right) = compare lhs rhs := by
  rw [List.compare_cons_cons]
  cases ordered : compare lhs rhs with
  | lt => rfl
  | eq => exact absurd (Std.compare_eq_iff_eq.mp ordered) different
  | gt => rfl

theorem compare_cons_self (unit : UInt16) (left right : List UInt16) :
    compare (unit :: left) (unit :: right) = compare left right := by
  rw [List.compare_cons_cons, Std.compare_self]
  rfl

/-- The comparison with a UTF-16 string, from the encoding of any string on,
has the sign of the UTF-16 order: induction on the units, one decoded character
at a time. -/
theorem compareModifiedUtf8ToUtf16AsCodePointValues_loop (s1 s2 : List UInt16) :
    ∃ r, compareModifiedUtf8ToUtf16AsCodePointValues (convertUtf16ToModifiedUtf8Loop s1 ++ [0]) s2 = some r ∧
      compare r 0 = compare s1 s2 := by
  match s1 with
  | [] =>
    cases s2 with
    | nil => exact ⟨0, by simp [convertUtf16ToModifiedUtf8Loop, compareModifiedUtf8ToUtf16AsCodePointValues], rfl⟩
    | cons rhs after => exact ⟨-1, by simp [convertUtf16ToModifiedUtf8Loop, compareModifiedUtf8ToUtf16AsCodePointValues], rfl⟩
  | ch :: rest =>
    obtain ⟨byte, bytes, written, nonzero⟩ := convertUtf16ToModifiedUtf8Loop_cons ch rest
    obtain ⟨value, after, decoded, units⟩ := getUtf16FromUtf8_convertUtf16ToModifiedUtf8Loop ch rest [0]
    -- the recursion is on the units after the first decoded character
    have shorter : after.length < (ch :: rest).length := by
      rw [← units, List.length_append]
      simp only [unitsOf, List.length_cons]
      omega
    rw [written, List.cons_append] at decoded ⊢
    rw [compareModifiedUtf8ToUtf16AsCodePointValues.eq_def]
    simp only [if_neg nonzero]
    cases s2 with
    | nil => exact ⟨1, rfl, rfl⟩
    | cons rhs after2 =>
      dsimp only
      split
      · rename_i noDecode
        rw [decoded] at noDecode
        cases noDecode
      · rename_i pair restBytes decodedAgain
        rw [decoded] at decodedAgain
        cases decodedAgain
        simp only [unitsOf] at units
        by_cases leading : getLeadingUtf16Char value = rhs
        · rw [if_neg (not_not.mpr leading)]
          by_cases trailing : getTrailingUtf16Char value ≠ 0
          · rw [if_pos trailing]
            rw [if_pos trailing] at units
            cases after2 with
            | nil =>
              refine ⟨1, rfl, ?_⟩
              rw [← units, leading, List.cons_append, compare_cons_self]
              rfl
            | cons rhs2 after3 =>
              dsimp only
              by_cases trailingEq : getTrailingUtf16Char value = rhs2
              · rw [if_neg (not_not.mpr trailingEq)]
                obtain ⟨r, compared, ordered⟩ := compareModifiedUtf8ToUtf16AsCodePointValues_loop after after3
                refine ⟨r, compared, ?_⟩
                rw [ordered, ← units, leading, trailingEq, List.cons_append, List.singleton_append,
                  compare_cons_self, compare_cons_self]
              · rw [if_pos trailingEq]
                refine ⟨_, rfl, ?_⟩
                rw [compare_unitOrder trailingEq, ← units, leading, List.cons_append, List.singleton_append,
                  compare_cons_self, compare_cons_of_ne trailingEq]
          · rw [if_neg trailing]
            rw [if_neg trailing, List.singleton_append] at units
            obtain ⟨r, compared, ordered⟩ := compareModifiedUtf8ToUtf16AsCodePointValues_loop after after2
            refine ⟨r, compared, ?_⟩
            rw [ordered, ← units, leading, compare_cons_self]
        · rw [if_pos leading]
          refine ⟨_, rfl, ?_⟩
          rw [compare_unitOrder leading, ← units, List.cons_append, compare_cons_of_ne leading]
termination_by s1.length
decreasing_by all_goals exact shorter

/-- `CompareModifiedUtf8ToUtf16AsCodePointValues` of an encoded, NUL-terminated
string has the sign of the UTF-16 order. -/
theorem compareModifiedUtf8ToUtf16AsCodePointValues_sign (s1 s2 : List UInt16) :
    ∃ r, compareModifiedUtf8ToUtf16AsCodePointValues
        (convertUtf16ToModifiedUtf8 (countUtf8Bytes s1) s1 ++ [0]) s2 = some r ∧
      compare r 0 = compare s1 s2 := by
  rw [convertUtf16ToModifiedUtf8_countUtf8Bytes]
  exact compareModifiedUtf8ToUtf16AsCodePointValues_loop s1 s2

/-- A surrogate pair against its leading unit alone, followed by a unit above the
trailing surrogates: the UTF-16 order puts the pair first, the comparison of the
two encodings, which weighs the pair's trailing unit against zero, puts it last. -/
theorem compareModifiedUtf8ToModifiedUtf8_misorders_pair :
    compare [(0xd800 : UInt16), 0xdc00] [0xd800, 0xe000] = .lt ∧
      compareModifiedUtf8ToModifiedUtf8AsUtf16CodePointValues
        (convertUtf16ToModifiedUtf8 (countUtf8Bytes [0xd800, 0xdc00]) [0xd800, 0xdc00] ++ [0])
        (convertUtf16ToModifiedUtf8 (countUtf8Bytes [0xd800, 0xe000]) [0xd800, 0xe000] ++ [0]) =
        some 56320 := by
  have pairBytes : convertUtf16ToModifiedUtf8 (countUtf8Bytes [0xd800, 0xdc00]) [0xd800, 0xdc00] =
      [0xf0, 0x90, 0x80, 0x80] := by decide
  have unitBytes : convertUtf16ToModifiedUtf8 (countUtf8Bytes [0xd800, 0xe000]) [0xd800, 0xe000] =
      [0xed, 0xa0, 0x80, 0xee, 0x80, 0x80] := by decide
  refine ⟨by decide, ?_⟩
  rw [pairBytes, unitBytes]
  simp only [List.cons_append, List.nil_append]
  rw [compareModifiedUtf8ToModifiedUtf8AsUtf16CodePointValues]
  simp [getUtf16FromUtf8, decodedDifference, surrogatePairOf, getLeadingUtf16Char, getTrailingUtf16Char]

/-! ## Strings of the dex format

The dex format stores each UTF-16 unit of a string in one, two or three bytes of
modified UTF-8, a supplementary character as its two surrogates. Decoding such a
string gives back its units one at a time, so the comparison of two of them is
zero exactly when they are the same string. -/

/-- The modified UTF-8 of one unit: one byte for `1..0x7f`, two for `0` and
`0x80..0x7ff`, three above. -/
def modifiedUtf8Unit (ch : UInt16) : List UInt8 :=
  if 0 < ch.toNat ∧ ch.toNat ≤ 0x7f then [ch.toUInt8] else encodeOther ch

/-- The modified UTF-8 of a string of units, without its NUL. -/
def modifiedUtf8Of (units : List UInt16) : List UInt8 :=
  units.flatMap modifiedUtf8Unit

@[simp] theorem modifiedUtf8Of_nil : modifiedUtf8Of [] = [] := rfl

theorem modifiedUtf8Of_cons (ch : UInt16) (rest : List UInt16) (tail : List UInt8) :
    modifiedUtf8Of (ch :: rest) ++ tail = modifiedUtf8Unit ch ++ (modifiedUtf8Of rest ++ tail) := by
  rw [modifiedUtf8Of, List.flatMap_cons, List.append_assoc, ← modifiedUtf8Of]

theorem getUtf16FromUtf8_modifiedUtf8Unit (ch : UInt16) (rest : List UInt8) :
    getUtf16FromUtf8 (modifiedUtf8Unit ch ++ rest) = some (ch.toNat, rest) := by
  unfold modifiedUtf8Unit
  split
  · next ascii => exact getUtf16FromUtf8_ascii ascii rest
  · exact getUtf16FromUtf8_encodeOther ch rest

theorem modifiedUtf8Unit_cons (ch : UInt16) :
    ∃ byte bytes, modifiedUtf8Unit ch = byte :: bytes ∧ byte ≠ 0 := by
  unfold modifiedUtf8Unit
  split
  · next ascii =>
    refine ⟨ch.toUInt8, [], rfl, fun zero => ?_⟩
    have byteValue : ch.toUInt8.toNat = ch.toNat := by
      rw [UInt16.toNat_toUInt8]
      exact Nat.mod_eq_of_lt (by omega)
    rw [zero] at byteValue
    simp at byteValue
    omega
  · obtain ⟨byte, bytes, written⟩ : ∃ byte bytes, encodeOther ch = byte :: bytes := by
      unfold encodeOther
      split
      · exact ⟨_, _, rfl⟩
      · exact ⟨_, _, rfl⟩
    have high := high_le_of_mem_encodeOther ch byte (written ▸ List.mem_cons_self)
    refine ⟨byte, bytes, written, fun zero => ?_⟩
    rw [zero] at high
    simp at high

theorem decodedDifference_ne_zero {ch ch' : UInt16} (different : ch ≠ ch') :
    decodedDifference ch.toNat ch'.toNat ≠ 0 := by
  have leading : ∀ unit : UInt16, getLeadingUtf16Char unit.toNat = unit := by
    intro unit
    rw [getLeadingUtf16Char, Nat.and_two_pow_sub_one_eq_mod unit.toNat 16,
      Nat.mod_eq_of_lt unit.toNat_lt, UInt16.ofNat_toNat]
  have apart : ch.toUInt32 - ch'.toUInt32 ≠ 0 := by
    intro same
    apply different
    have equal := congrArg UInt32.toNat same
    have below := ch.toNat_lt
    have below' := ch'.toNat_lt
    simp only [UInt32.toNat_sub, UInt16.toNat_toUInt32, UInt32.toNat_zero] at equal
    exact UInt16.toNat_inj.mp (by omega)
  rw [decodedDifference, leading, leading, if_pos apart]
  intro zero
  apply apart
  apply UInt32.toBitVec_inj.mp
  exact BitVec.eq_of_toInt_eq (by rw [zero]; rfl)

theorem compareModifiedUtf8ToModifiedUtf8_modifiedUtf8Of (s1 s2 : List UInt16) :
    ∃ r, compareModifiedUtf8ToModifiedUtf8AsUtf16CodePointValues
        (modifiedUtf8Of s1 ++ [0]) (modifiedUtf8Of s2 ++ [0]) = some r ∧ (r = 0 ↔ s1 = s2) := by
  induction s1 generalizing s2 with
  | nil =>
    cases s2 with
    | nil => exact ⟨0, by rw [modifiedUtf8Of_nil, List.nil_append,
        compareModifiedUtf8ToModifiedUtf8AsUtf16CodePointValues]; rfl, by simp⟩
    | cons ch rest =>
      obtain ⟨byte, bytes, written, nonzero⟩ := modifiedUtf8Unit_cons ch
      refine ⟨-1, ?_, by simp⟩
      rw [modifiedUtf8Of_cons, written, List.cons_append, modifiedUtf8Of_nil, List.nil_append,
        compareModifiedUtf8ToModifiedUtf8AsUtf16CodePointValues]
      simp [nonzero]
  | cons ch1 rest1 ih =>
    obtain ⟨byte1, bytes1, written1, nonzero1⟩ := modifiedUtf8Unit_cons ch1
    have decoded1 := getUtf16FromUtf8_modifiedUtf8Unit ch1 (modifiedUtf8Of rest1 ++ [0])
    rw [modifiedUtf8Of_cons, written1, List.cons_append]
    rw [written1, List.cons_append] at decoded1
    cases s2 with
    | nil =>
      refine ⟨1, ?_, by simp⟩
      rw [modifiedUtf8Of_nil, List.nil_append, compareModifiedUtf8ToModifiedUtf8AsUtf16CodePointValues]
      simp [nonzero1]
    | cons ch2 rest2 =>
      obtain ⟨byte2, bytes2, written2, nonzero2⟩ := modifiedUtf8Unit_cons ch2
      have decoded2 := getUtf16FromUtf8_modifiedUtf8Unit ch2 (modifiedUtf8Of rest2 ++ [0])
      rw [modifiedUtf8Of_cons, written2, List.cons_append]
      rw [written2, List.cons_append] at decoded2
      rw [compareModifiedUtf8ToModifiedUtf8AsUtf16CodePointValues]
      simp only [if_neg nonzero1, if_neg nonzero2]
      split
      · next value1 after1 value2 after2 first second =>
        rw [decoded1] at first
        rw [decoded2] at second
        cases first
        cases second
        by_cases same : ch1 = ch2
        · -- equal units: the rest decides
          obtain ⟨r, compared, zeroIff⟩ := ih rest2
          rw [if_pos (congrArg UInt16.toNat same)]
          exact ⟨r, compared, by rw [zeroIff, same, List.cons.injEq]; simp⟩
        · have values : ch1.toNat ≠ ch2.toNat := fun equal => same (UInt16.toNat_inj.mp equal)
          rw [if_neg values]
          exact ⟨_, rfl, ⟨fun zero => absurd zero (decodedDifference_ne_zero same),
            fun equal => absurd (List.cons.inj equal).1 same⟩⟩
      · next noDecode =>
        exact absurd (noDecode _ _ _ _ decoded1 decoded2) id

end ArtRuntime.Dex.Utf
