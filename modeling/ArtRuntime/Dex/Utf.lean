import ArtRuntime.Foundation.NatBits

/-! # Modified UTF-8

The conversions of `libdexfile/dex/utf.cc` and `utf-inl.h` between UTF-16 code
units and the modified UTF-8 of dex files: U+0000 takes the overlong two-byte
form, a correctly ordered surrogate pair becomes one four-byte sequence, and
every other unit, unpaired surrogates included, takes one to three bytes.

Buffers are lists. A conversion returns the units or bytes it writes, in order.
A decoder that would read a byte past the end of its input returns `none`.
Arithmetic the C code does in `int` or `uint32_t` is done on `Nat`: none of it
exceeds `2 ^ 32` here, and every store into a `char` or `uint16_t` truncates
through `UInt8.ofNat` or `UInt16.ofNat`. -/

namespace ArtRuntime.Dex.Utf

/-! ## Decoding -/

/-- `GetTrailingUtf16Char`: the high half of a decoded value. -/
def getTrailingUtf16Char (maybePair : Nat) : UInt16 :=
  UInt16.ofNat (maybePair >>> 16)

/-- `GetLeadingUtf16Char`: the low half of a decoded value. -/
def getLeadingUtf16Char (maybePair : Nat) : UInt16 :=
  UInt16.ofNat (maybePair &&& 0x0000FFFF)

/-- The surrogate pair of a four-byte sequence, leading unit in the low half. -/
def surrogatePairOf (codePoint : Nat) : Nat :=
  (((codePoint >>> 10) + 0xd7c0) &&& 0xffff) ||| (((codePoint &&& 0x03ff) + 0xdc00) <<< 16)

/-- `GetUtf16FromUtf8`: decode one character and return the bytes after it.
The lead byte alone decides how many continuation bytes are read. -/
def getUtf16FromUtf8 : List UInt8 → Option (Nat × List UInt8)
  | [] => none
  | one :: rest =>
      if one.toNat &&& 0x80 = 0 then
        some (one.toNat, rest)
      else
        match rest with
        | [] => none
        | two :: rest =>
            if one.toNat &&& 0x20 = 0 then
              some (((one.toNat &&& 0x1f) <<< 6) ||| (two.toNat &&& 0x3f), rest)
            else
              match rest with
              | [] => none
              | three :: rest =>
                  if one.toNat &&& 0x10 = 0 then
                    some (((one.toNat &&& 0x0f) <<< 12) ||| ((two.toNat &&& 0x3f) <<< 6) |||
                      (three.toNat &&& 0x3f), rest)
                  else
                    match rest with
                    | [] => none
                    | four :: rest =>
                        let codePoint := ((one.toNat &&& 0x0f) <<< 18) |||
                          ((two.toNat &&& 0x3f) <<< 12) ||| ((three.toNat &&& 0x3f) <<< 6) |||
                          (four.toNat &&& 0x3f)
                        some (surrogatePairOf codePoint, rest)

/-- The units one decoded value stands for: the leading one, then the
trailing one when it is not zero. -/
def unitsOf (maybePair : Nat) : List UInt16 :=
  let trailing := getTrailingUtf16Char maybePair
  getLeadingUtf16Char maybePair :: (if trailing ≠ 0 then [trailing] else [])

theorem getUtf16FromUtf8_length {bytes rest : List UInt8} {value : Nat}
    (decoded : getUtf16FromUtf8 bytes = some (value, rest)) : rest.length < bytes.length := by
  unfold getUtf16FromUtf8 at decoded
  -- every branch that decodes consumes the lead byte and its continuation bytes
  repeat' (first | (split at decoded) | (cases decoded))
  all_goals simp only [List.length_cons]; omega

/-- The general loop of `ConvertModifiedUtf8ToUtf16(out, out_chars, in, in_bytes)`. -/
def convertModifiedUtf8ToUtf16Loop : List UInt8 → Option (List UInt16)
  | [] => some []
  | byte :: more =>
      match decoded : getUtf16FromUtf8 (byte :: more) with
      | none => none
      | some (value, rest) =>
          have : rest.length < more.length + 1 := getUtf16FromUtf8_length decoded
          (convertModifiedUtf8ToUtf16Loop rest).map (unitsOf value ++ ·)
termination_by bytes => bytes.length

/-- `dchecked_integral_cast<uint16_t>` of a `char`, which is signed on x86. -/
def charToUtf16 (byte : UInt8) : UInt16 :=
  if byte.toNat < 0x80 then UInt16.ofNat byte.toNat else UInt16.ofNat (byte.toNat + 0xff00)

/-- `ConvertModifiedUtf8ToUtf16(out, out_chars, in, in_bytes)`: equal counts
take the ASCII copy. -/
def convertModifiedUtf8ToUtf16 (outChars : Nat) (bytes : List UInt8) : Option (List UInt16) :=
  if outChars = bytes.length then some (bytes.map charToUtf16)
  else convertModifiedUtf8ToUtf16Loop bytes

/-- `CountModifiedUtf8Chars(utf8, byte_count)`: the lead byte decides how many
bytes are skipped; the skipped bytes are never read. -/
def countModifiedUtf8Chars : List UInt8 → Nat
  | [] => 0
  | ic :: rest =>
      if ic.toNat &&& 0x80 = 0 then countModifiedUtf8Chars rest + 1
      else if ic.toNat &&& 0x20 = 0 then countModifiedUtf8Chars (rest.drop 1) + 1
      else if ic.toNat &&& 0x10 = 0 then countModifiedUtf8Chars (rest.drop 2) + 1
      else countModifiedUtf8Chars (rest.drop 3) + 2
termination_by bytes => bytes.length
decreasing_by all_goals (simp only [List.length_cons, List.length_drop]; omega)

/-! ## Encoding -/

/-- The two-byte form, for U+0000 and U+0080 to U+07FF. -/
def encodeTwoBytes (ch : UInt16) : List UInt8 :=
  [UInt8.ofNat ((ch.toNat >>> 6) ||| 0xc0), UInt8.ofNat ((ch.toNat &&& 0x3f) ||| 0x80)]

/-- The three-byte form, for the other units, unpaired surrogates included. -/
def encodeThreeBytes (ch : UInt16) : List UInt8 :=
  [UInt8.ofNat ((ch.toNat >>> 12) ||| 0xe0), UInt8.ofNat (((ch.toNat >>> 6) &&& 0x3f) ||| 0x80),
    UInt8.ofNat ((ch.toNat &&& 0x3f) ||| 0x80)]

/-- The code point `(ch << 10) + ch2 - 0x035fdc00` of a surrogate pair. -/
def pairCodePoint (ch ch2 : UInt16) : Nat :=
  (ch.toNat <<< 10) + ch2.toNat - 0x035fdc00

/-- The four-byte form of a surrogate pair. -/
def encodeSurrogatePair (ch ch2 : UInt16) : List UInt8 :=
  let codePoint := pairCodePoint ch ch2
  [UInt8.ofNat ((codePoint >>> 18) ||| 0xf0), UInt8.ofNat (((codePoint >>> 12) &&& 0x3f) ||| 0x80),
    UInt8.ofNat (((codePoint >>> 6) &&& 0x3f) ||| 0x80), UInt8.ofNat ((codePoint &&& 0x3f) ||| 0x80)]

/-- The encoding of a unit that is neither ASCII nor the first of a pair. -/
def encodeOther (ch : UInt16) : List UInt8 :=
  if ch.toNat > 0x07ff then encodeThreeBytes ch else encodeTwoBytes ch

/-- The general loop of `ConvertUtf16ToModifiedUtf8`. A leading surrogate is
paired only with a trailing surrogate right after it. -/
def convertUtf16ToModifiedUtf8Loop : List UInt16 → List UInt8
  | [] => []
  | ch :: rest =>
      if 0 < ch.toNat ∧ ch.toNat ≤ 0x7f then ch.toUInt8 :: convertUtf16ToModifiedUtf8Loop rest
      else
        match rest with
        | ch2 :: after =>
            if (0xd800 ≤ ch.toNat ∧ ch.toNat ≤ 0xdbff) ∧ (0xdc00 ≤ ch2.toNat ∧ ch2.toNat ≤ 0xdfff) then
              encodeSurrogatePair ch ch2 ++ convertUtf16ToModifiedUtf8Loop after
            else encodeOther ch ++ convertUtf16ToModifiedUtf8Loop (ch2 :: after)
        | [] => encodeOther ch

/-- `ConvertUtf16ToModifiedUtf8(utf8_out, byte_count, utf16_in, char_count)`:
equal counts take the ASCII copy. -/
def convertUtf16ToModifiedUtf8 (byteCount : Nat) (units : List UInt16) : List UInt8 :=
  if byteCount = units.length then units.map UInt16.toUInt8
  else convertUtf16ToModifiedUtf8Loop units

/-- `CountUtf8Bytes(chars, char_count)`, written apart from the encoder with
its own bounds (`< 0xdc00`, `< 0xe000`). -/
def countUtf8Bytes : List UInt16 → Nat
  | [] => 0
  | ch :: rest =>
      if ch.toNat ≠ 0 ∧ ch.toNat < 0x80 then countUtf8Bytes rest + 1
      else if ch.toNat < 0x800 then countUtf8Bytes rest + 2
      else if 0xd800 ≤ ch.toNat ∧ ch.toNat < 0xdc00 then
        match rest with
        | ch2 :: after =>
            if 0xdc00 ≤ ch2.toNat ∧ ch2.toNat < 0xe000 then countUtf8Bytes after + 4
            else countUtf8Bytes (ch2 :: after) + 3
        | [] => 3
      else countUtf8Bytes rest + 3


/-! ## Byte arithmetic

The encoder builds each byte with shifts, masks and a disjunction with the
form's tag bits; the decoder tests tag bits and masks them off again. Both are
read here as additions on the byte's value. -/

open ArtRuntime.Foundation.NatBits

private theorem toNat_ofNat_of_lt {value : Nat} (fits : value < 256) :
    (UInt8.ofNat value).toNat = value := by
  simp [UInt8.toNat_ofNat', Nat.mod_eq_of_lt fits]

theorem twoByteLead_bits : ∀ q < 32,
    (0xc0 + q) &&& 0x80 ≠ 0 ∧ (0xc0 + q) &&& 0x20 = 0 ∧ (0xc0 + q) &&& 0x1f = q := by
  decide

theorem threeByteLead_bits : ∀ q < 16,
    (0xe0 + q) &&& 0x80 ≠ 0 ∧ (0xe0 + q) &&& 0x20 ≠ 0 ∧ (0xe0 + q) &&& 0x10 = 0 ∧
      (0xe0 + q) &&& 0x0f = q := by
  decide

/-- The tag bits of a four-byte lead; a code point below `2 ^ 21` leaves at
most three payload bits in it. -/
theorem fourByteLead_bits : ∀ q < 8,
    (0xf0 + q) &&& 0x80 ≠ 0 ∧ (0xf0 + q) &&& 0x20 ≠ 0 ∧ (0xf0 + q) &&& 0x10 ≠ 0 ∧
      (0xf0 + q) &&& 0x0f = q := by
  decide

theorem continuation_bits : ∀ r < 64, (0x80 + r) &&& 0x3f = r := by
  decide

theorem continuationByte_toNat (x : Nat) :
    (UInt8.ofNat ((x &&& 0x3f) ||| 0x80)).toNat = 0x80 + x % 64 := by
  have payloadFits : x % 2 ^ 6 < 2 ^ 6 := Nat.mod_lt _ (Nat.two_pow_pos 6)
  rw [and_mask_eq_mod 6 rfl, or_eq_add_of_lt_left 6 (by decide) payloadFits]
  exact toNat_ofNat_of_lt (by omega)

/-- The value of a lead byte `(x >> shift) | tag` whose payload fits below
the tag. -/
theorem leadByte_toNat (x tag shift width : Nat) (aligned : tag % 2 ^ width = 0)
    (fits : x / 2 ^ shift < 2 ^ width) (small : tag + x / 2 ^ shift < 256) :
    (UInt8.ofNat ((x >>> shift) ||| tag)).toNat = tag + x / 2 ^ shift := by
  rw [Nat.shiftRight_eq_div_pow, or_eq_add_of_lt_left width aligned fits]
  exact toNat_ofNat_of_lt small


private theorem packTwo (high : Nat) {low : Nat} (lowFits : low < 64) :
    high <<< 6 ||| low = high * 64 + low :=
  shiftLeft_or_eq_add high 6 lowFits

private theorem packThree (high : Nat) {middle low : Nat} (middleFits : middle < 64)
    (lowFits : low < 64) :
    high <<< 12 ||| middle <<< 6 ||| low = high * 4096 + middle * 64 + low := by
  have middleShifted : middle <<< 6 < 2 ^ 12 := by rw [Nat.shiftLeft_eq]; omega
  rw [shiftLeft_or_eq_add high 12 middleShifted, Nat.shiftLeft_eq,
    or_eq_add_of_lt 6 (by omega) (by omega)]
  omega

private theorem packFour (high : Nat) {upper middle low : Nat} (upperFits : upper < 64)
    (middleFits : middle < 64) (lowFits : low < 64) :
    high <<< 18 ||| upper <<< 12 ||| middle <<< 6 ||| low =
      high * 2 ^ 18 + upper * 4096 + middle * 64 + low := by
  have upperShifted : upper <<< 12 < 2 ^ 18 := by rw [Nat.shiftLeft_eq]; omega
  rw [shiftLeft_or_eq_add high 18 upperShifted, Nat.shiftLeft_eq upper 12,
    Nat.shiftLeft_eq middle 6,
    @or_eq_add_of_lt (high * 2 ^ 18 + upper * 2 ^ 12) (middle * 2 ^ 6) 12 (by omega) (by omega),
    or_eq_add_of_lt 6 (by omega) (by omega)]

theorem asciiByte_bits : ∀ x < 128, x &&& 0x80 = 0 := by
  decide

/-! ## Decoding what the encoder writes -/

theorem getUtf16FromUtf8_ascii {ch : UInt16} (ascii : 0 < ch.toNat ∧ ch.toNat ≤ 0x7f)
    (rest : List UInt8) : getUtf16FromUtf8 (ch.toUInt8 :: rest) = some (ch.toNat, rest) := by
  have byteValue : ch.toUInt8.toNat = ch.toNat := by
    rw [UInt16.toNat_toUInt8]
    exact Nat.mod_eq_of_lt (by omega)
  have highClear := asciiByte_bits ch.toNat (by omega)
  simp only [getUtf16FromUtf8, byteValue, highClear, if_true]

theorem getUtf16FromUtf8_encodeTwoBytes {ch : UInt16} (small : ch.toNat ≤ 0x7ff)
    (rest : List UInt8) :
    getUtf16FromUtf8 (encodeTwoBytes ch ++ rest) = some (ch.toNat, rest) := by
  have leadValue := leadByte_toNat ch.toNat 0xc0 6 5 (by decide) (by omega) (by omega)
  have tailValue := continuationByte_toNat ch.toNat
  obtain ⟨highSet, fiveClear, payload⟩ := twoByteLead_bits (ch.toNat / 2 ^ 6) (by omega)
  have tailPayload := continuation_bits (ch.toNat % 64) (by omega)
  simp only [encodeTwoBytes, List.cons_append, List.nil_append, getUtf16FromUtf8, leadValue,
    tailValue, highSet, fiveClear, payload, tailPayload, if_false, if_true]
  rw [packTwo _ (by omega)]
  congr 2
  omega

theorem getUtf16FromUtf8_encodeThreeBytes {ch : UInt16} (large : 0x07ff < ch.toNat)
    (rest : List UInt8) :
    getUtf16FromUtf8 (encodeThreeBytes ch ++ rest) = some (ch.toNat, rest) := by
  have unitFits := ch.toNat_lt
  have leadValue := leadByte_toNat ch.toNat 0xe0 12 4 (by decide) (by omega) (by omega)
  have middleValue : (UInt8.ofNat (((ch.toNat >>> 6) &&& 0x3f) ||| 0x80)).toNat =
      0x80 + ch.toNat / 2 ^ 6 % 64 := by
    rw [continuationByte_toNat, Nat.shiftRight_eq_div_pow]
  have lastValue := continuationByte_toNat ch.toNat
  obtain ⟨highSet, fiveSet, fourClear, payload⟩ :=
    threeByteLead_bits (ch.toNat / 2 ^ 12) (by omega)
  have middlePayload := continuation_bits (ch.toNat / 2 ^ 6 % 64) (by omega)
  have lastPayload := continuation_bits (ch.toNat % 64) (by omega)
  simp only [encodeThreeBytes, List.cons_append, List.nil_append, getUtf16FromUtf8, leadValue,
    middleValue, lastValue, highSet, fiveSet, fourClear, payload, middlePayload, lastPayload,
    if_false, if_true]
  rw [packThree _ (by omega) (by omega)]
  congr 2
  omega

theorem pairCodePoint_eq {ch ch2 : UInt16} (leading : 0xd800 ≤ ch.toNat ∧ ch.toNat ≤ 0xdbff)
    (trailing : 0xdc00 ≤ ch2.toNat ∧ ch2.toNat ≤ 0xdfff) :
    pairCodePoint ch ch2 = 0x10000 + (ch.toNat - 0xd800) * 1024 + (ch2.toNat - 0xdc00) := by
  unfold pairCodePoint
  rw [Nat.shiftLeft_eq]
  omega

theorem getUtf16FromUtf8_encodeSurrogatePair {ch ch2 : UInt16}
    (leading : 0xd800 ≤ ch.toNat ∧ ch.toNat ≤ 0xdbff)
    (trailing : 0xdc00 ≤ ch2.toNat ∧ ch2.toNat ≤ 0xdfff) (rest : List UInt8) :
    getUtf16FromUtf8 (encodeSurrogatePair ch ch2 ++ rest) =
      some (surrogatePairOf (pairCodePoint ch ch2), rest) := by
  have codePoint := pairCodePoint_eq leading trailing
  unfold encodeSurrogatePair
  generalize pairCodePoint ch ch2 = point at codePoint ⊢
  have leadValue := leadByte_toNat point 0xf0 18 4 (by decide) (by omega) (by omega)
  have upperValue : (UInt8.ofNat (((point >>> 12) &&& 0x3f) ||| 0x80)).toNat =
      0x80 + point / 2 ^ 12 % 64 := by
    rw [continuationByte_toNat, Nat.shiftRight_eq_div_pow]
  have middleValue : (UInt8.ofNat (((point >>> 6) &&& 0x3f) ||| 0x80)).toNat =
      0x80 + point / 2 ^ 6 % 64 := by
    rw [continuationByte_toNat, Nat.shiftRight_eq_div_pow]
  have lastValue := continuationByte_toNat point
  obtain ⟨highSet, fiveSet, fourSet, payload⟩ := fourByteLead_bits (point / 2 ^ 18) (by omega)
  have upperPayload := continuation_bits (point / 2 ^ 12 % 64) (by omega)
  have middlePayload := continuation_bits (point / 2 ^ 6 % 64) (by omega)
  have lastPayload := continuation_bits (point % 64) (by omega)
  simp only [List.cons_append, List.nil_append, getUtf16FromUtf8, leadValue, upperValue, middleValue, lastValue, highSet, fiveSet, fourSet, payload, upperPayload,
    middlePayload, lastPayload, if_false]
  rw [packFour _ (by omega) (by omega) (by omega)]
  congr 3
  omega

theorem surrogatePairOf_pairCodePoint {ch ch2 : UInt16}
    (leading : 0xd800 ≤ ch.toNat ∧ ch.toNat ≤ 0xdbff)
    (trailing : 0xdc00 ≤ ch2.toNat ∧ ch2.toNat ≤ 0xdfff) :
    surrogatePairOf (pairCodePoint ch ch2) = ch2.toNat * 2 ^ 16 + ch.toNat := by
  have codePoint := pairCodePoint_eq leading trailing
  have leadingUnit : ((pairCodePoint ch ch2 >>> 10) + 0xd7c0) &&& 0xffff = ch.toNat := by
    rw [and_mask_eq_mod 16 rfl, Nat.shiftRight_eq_div_pow, codePoint]
    omega
  have trailingUnit : (pairCodePoint ch ch2 &&& 0x03ff) + 0xdc00 = ch2.toNat := by
    rw [and_mask_eq_mod 10 rfl, codePoint]
    omega
  rw [surrogatePairOf, leadingUnit, trailingUnit, Nat.shiftLeft_eq,
    or_eq_add_of_lt_left 16 (Nat.mul_mod_left _ _) ch.toNat_lt]

@[simp] theorem unitsOf_unit (ch : UInt16) : unitsOf ch.toNat = [ch] := by
  have highHalf : ch.toNat >>> 16 = 0 := by
    rw [Nat.shiftRight_eq_div_pow]
    exact Nat.div_eq_of_lt ch.toNat_lt
  have lowHalf : ch.toNat &&& 0x0000FFFF = ch.toNat := by
    rw [and_mask_eq_mod 16 rfl]
    exact Nat.mod_eq_of_lt ch.toNat_lt
  simp [unitsOf, getTrailingUtf16Char, getLeadingUtf16Char, highHalf, lowHalf]

theorem unitsOf_pair (ch ch2 : UInt16) (trailingNonzero : ch2 ≠ 0) :
    unitsOf (ch2.toNat * 2 ^ 16 + ch.toNat) = [ch, ch2] := by
  have highHalf : (ch2.toNat * 2 ^ 16 + ch.toNat) >>> 16 = ch2.toNat := by
    rw [Nat.shiftRight_eq_div_pow]
    have := ch.toNat_lt
    omega
  have lowHalf : (ch2.toNat * 2 ^ 16 + ch.toNat) &&& 0x0000FFFF = ch.toNat := by
    rw [and_mask_eq_mod 16 rfl]
    have := ch.toNat_lt
    omega
  simp only [unitsOf, getTrailingUtf16Char, getLeadingUtf16Char, highHalf, lowHalf,
    UInt16.ofNat_toNat, ne_eq, trailingNonzero, not_false_eq_true, if_true]


theorem getUtf16FromUtf8_encodeOther (ch : UInt16) (rest : List UInt8) :
    getUtf16FromUtf8 (encodeOther ch ++ rest) = some (ch.toNat, rest) := by
  unfold encodeOther
  split
  · exact getUtf16FromUtf8_encodeThreeBytes (by omega) rest
  · exact getUtf16FromUtf8_encodeTwoBytes (by omega) rest

theorem convertModifiedUtf8ToUtf16Loop_of_decoded {bytes rest : List UInt8} {value : Nat}
    (nonempty : bytes ≠ []) (decoded : getUtf16FromUtf8 bytes = some (value, rest)) :
    convertModifiedUtf8ToUtf16Loop bytes =
      (convertModifiedUtf8ToUtf16Loop rest).map (unitsOf value ++ ·) := by
  match bytes, nonempty with
  | byte :: more, _ =>
      rw [convertModifiedUtf8ToUtf16Loop]
      split
      · simp_all
      · rename_i decodedAgain
        rw [decoded] at decodedAgain
        cases decodedAgain
        rfl

/-! ## The encoding loop decodes back -/

theorem convertUtf16ToModifiedUtf8Loop_ascii {ch : UInt16} (ascii : 0 < ch.toNat ∧ ch.toNat ≤ 0x7f)
    (rest : List UInt16) :
    convertUtf16ToModifiedUtf8Loop (ch :: rest) = ch.toUInt8 :: convertUtf16ToModifiedUtf8Loop rest := by
  rw [convertUtf16ToModifiedUtf8Loop.eq_def]
  simp only [if_pos ascii]

theorem convertModifiedUtf8ToUtf16Loop_encode (units : List UInt16) :
    convertModifiedUtf8ToUtf16Loop (convertUtf16ToModifiedUtf8Loop units) = some units := by
  induction units using convertUtf16ToModifiedUtf8Loop.induct with
  | case1 => simp [convertUtf16ToModifiedUtf8Loop, convertModifiedUtf8ToUtf16Loop]
  | case2 ch rest ascii induction =>
      rw [convertUtf16ToModifiedUtf8Loop_ascii ascii,
        convertModifiedUtf8ToUtf16Loop_of_decoded (List.cons_ne_nil _ _)
          (getUtf16FromUtf8_ascii ascii _), induction]
      simp
  | case3 ch notAscii ch2 after pair induction =>
      have nonempty : encodeSurrogatePair ch ch2 ++ convertUtf16ToModifiedUtf8Loop after ≠ [] := by
        simp [encodeSurrogatePair]
      have trailingNonzero : ch2 ≠ 0 := by
        intro zero
        rw [zero] at pair
        simp at pair
      simp only [convertUtf16ToModifiedUtf8Loop, if_neg notAscii, if_pos pair]
      rw [convertModifiedUtf8ToUtf16Loop_of_decoded nonempty
          (getUtf16FromUtf8_encodeSurrogatePair pair.1 pair.2 _), induction,
        surrogatePairOf_pairCodePoint pair.1 pair.2, unitsOf_pair ch ch2 trailingNonzero]
      simp
  | case4 ch notAscii ch2 after notPair induction =>
      have nonempty : encodeOther ch ++ convertUtf16ToModifiedUtf8Loop (ch2 :: after) ≠ [] := by
        simp [encodeOther, encodeThreeBytes, encodeTwoBytes]; split <;> simp
      simp only [convertUtf16ToModifiedUtf8Loop, if_neg notAscii, if_neg notPair]
      rw [convertModifiedUtf8ToUtf16Loop_of_decoded nonempty (getUtf16FromUtf8_encodeOther ch _),
        induction, unitsOf_unit]
      simp
  | case5 ch notAscii =>
      have decoded := getUtf16FromUtf8_encodeOther ch []
      rw [List.append_nil] at decoded
      have nonempty : encodeOther ch ≠ [] := by
        unfold encodeOther; split <;> simp [encodeThreeBytes, encodeTwoBytes]
      simp only [convertUtf16ToModifiedUtf8Loop, if_neg notAscii]
      rw [convertModifiedUtf8ToUtf16Loop_of_decoded nonempty decoded, unitsOf_unit]
      simp [convertModifiedUtf8ToUtf16Loop]


/-! ## Byte counts -/

theorem countUtf8Bytes_ascii {ch : UInt16} (counted : ch.toNat ≠ 0 ∧ ch.toNat < 0x80)
    (rest : List UInt16) : countUtf8Bytes (ch :: rest) = countUtf8Bytes rest + 1 := by
  rw [countUtf8Bytes.eq_def]
  simp only [if_pos counted]

theorem countUtf8Bytes_pair {ch ch2 : UInt16} (leading : 0xd800 ≤ ch.toNat ∧ ch.toNat < 0xdc00)
    (trailing : 0xdc00 ≤ ch2.toNat ∧ ch2.toNat < 0xe000) (after : List UInt16) :
    countUtf8Bytes (ch :: ch2 :: after) = countUtf8Bytes after + 4 := by
  rw [countUtf8Bytes.eq_def]
  simp only [if_neg (show ¬(ch.toNat ≠ 0 ∧ ch.toNat < 0x80) by omega),
    if_neg (show ¬ch.toNat < 0x800 by omega), if_pos leading, if_pos trailing]

theorem countUtf8Bytes_unpaired {ch : UInt16} {rest : List UInt16}
    (notCounted : ¬(ch.toNat ≠ 0 ∧ ch.toNat < 0x80))
    (unpaired : ∀ ch2 after, rest = ch2 :: after →
      ¬((0xd800 ≤ ch.toNat ∧ ch.toNat < 0xdc00) ∧ (0xdc00 ≤ ch2.toNat ∧ ch2.toNat < 0xe000))) :
    countUtf8Bytes (ch :: rest) = countUtf8Bytes rest + if ch.toNat < 0x800 then 2 else 3 := by
  rw [countUtf8Bytes.eq_def]
  simp only [if_neg notCounted]
  by_cases small : ch.toNat < 0x800
  · simp only [if_pos small]
  · simp only [if_neg small]
    by_cases leading : 0xd800 ≤ ch.toNat ∧ ch.toNat < 0xdc00
    · simp only [if_pos leading]
      cases rest with
      | nil => rfl
      | cons ch2 after =>
          have notTrailing : ¬(0xdc00 ≤ ch2.toNat ∧ ch2.toNat < 0xe000) := fun trailing =>
            unpaired ch2 after rfl ⟨leading, trailing⟩
          simp only [if_neg notTrailing]
    · simp only [if_neg leading]

theorem length_encodeOther (ch : UInt16) :
    (encodeOther ch).length = if ch.toNat < 0x800 then 2 else 3 := by
  unfold encodeOther
  split <;> split <;> simp [encodeThreeBytes, encodeTwoBytes] <;> omega

theorem length_convertUtf16ToModifiedUtf8Loop (units : List UInt16) :
    (convertUtf16ToModifiedUtf8Loop units).length = countUtf8Bytes units := by
  induction units using convertUtf16ToModifiedUtf8Loop.induct with
  | case1 => simp [convertUtf16ToModifiedUtf8Loop, countUtf8Bytes]
  | case2 ch rest ascii induction =>
      rw [convertUtf16ToModifiedUtf8Loop_ascii ascii, List.length_cons, induction,
        countUtf8Bytes_ascii (by omega)]
  | case3 ch notAscii ch2 after pair induction =>
      have counted := countUtf8Bytes_pair
        (show 0xd800 ≤ ch.toNat ∧ ch.toNat < 0xdc00 by omega)
        (show 0xdc00 ≤ ch2.toNat ∧ ch2.toNat < 0xe000 by omega) after
      simp only [convertUtf16ToModifiedUtf8Loop, if_neg notAscii, if_pos pair, List.length_append,
        induction, counted]
      simp [encodeSurrogatePair]
      omega
  | case4 ch notAscii ch2 after notPair induction =>
      simp only [convertUtf16ToModifiedUtf8Loop, if_neg notAscii, if_neg notPair, List.length_append,
        induction, length_encodeOther]
      have unpaired : ∀ next later, ch2 :: after = next :: later →
          ¬((0xd800 ≤ ch.toNat ∧ ch.toNat < 0xdc00) ∧ (0xdc00 ≤ next.toNat ∧ next.toNat < 0xe000)) := by
        rintro next later equal
        cases equal
        omega
      rw [countUtf8Bytes_unpaired (show ¬(ch.toNat ≠ 0 ∧ ch.toNat < 0x80) by omega) unpaired,
        Nat.add_comm]
  | case5 ch notAscii =>
      simp only [convertUtf16ToModifiedUtf8Loop, if_neg notAscii, length_encodeOther]
      rw [countUtf8Bytes_unpaired (show ¬(ch.toNat ≠ 0 ∧ ch.toNat < 0x80) by omega) (by simp)]
      simp [countUtf8Bytes]

/-! ## Character counts -/

theorem countModifiedUtf8Chars_ascii {ch : UInt16} (ascii : 0 < ch.toNat ∧ ch.toNat ≤ 0x7f)
    (rest : List UInt8) :
    countModifiedUtf8Chars (ch.toUInt8 :: rest) = countModifiedUtf8Chars rest + 1 := by
  have byteValue : ch.toUInt8.toNat = ch.toNat := by
    rw [UInt16.toNat_toUInt8]
    exact Nat.mod_eq_of_lt (by omega)
  rw [countModifiedUtf8Chars, byteValue, if_pos (asciiByte_bits ch.toNat (by omega))]

theorem countModifiedUtf8Chars_encodeOther (ch : UInt16) (rest : List UInt8) :
    countModifiedUtf8Chars (encodeOther ch ++ rest) = countModifiedUtf8Chars rest + 1 := by
  have unitFits := ch.toNat_lt
  unfold encodeOther
  split
  · have leadValue := leadByte_toNat ch.toNat 0xe0 12 4 (by decide) (by omega) (by omega)
    obtain ⟨highSet, fiveSet, fourClear, -⟩ := threeByteLead_bits (ch.toNat / 2 ^ 12) (by omega)
    simp only [encodeThreeBytes, List.cons_append, List.nil_append]
    rw [countModifiedUtf8Chars, leadValue, if_neg highSet, if_neg fiveSet, if_pos fourClear]
    rfl
  · have leadValue := leadByte_toNat ch.toNat 0xc0 6 5 (by decide) (by omega) (by omega)
    obtain ⟨highSet, fiveClear, -⟩ := twoByteLead_bits (ch.toNat / 2 ^ 6) (by omega)
    simp only [encodeTwoBytes, List.cons_append, List.nil_append]
    rw [countModifiedUtf8Chars, leadValue, if_neg highSet, if_pos fiveClear]
    rfl

theorem countModifiedUtf8Chars_encodeSurrogatePair {ch ch2 : UInt16}
    (leading : 0xd800 ≤ ch.toNat ∧ ch.toNat ≤ 0xdbff)
    (trailing : 0xdc00 ≤ ch2.toNat ∧ ch2.toNat ≤ 0xdfff) (rest : List UInt8) :
    countModifiedUtf8Chars (encodeSurrogatePair ch ch2 ++ rest) =
      countModifiedUtf8Chars rest + 2 := by
  have codePoint := pairCodePoint_eq leading trailing
  unfold encodeSurrogatePair
  generalize pairCodePoint ch ch2 = point at codePoint ⊢
  have leadValue := leadByte_toNat point 0xf0 18 4 (by decide) (by omega) (by omega)
  obtain ⟨highSet, fiveSet, fourSet, -⟩ := fourByteLead_bits (point / 2 ^ 18) (by omega)
  simp only [List.cons_append, List.nil_append]
  rw [countModifiedUtf8Chars, leadValue, if_neg highSet, if_neg fiveSet, if_neg fourSet]
  rfl


theorem countModifiedUtf8Chars_convertUtf16ToModifiedUtf8Loop (units : List UInt16) :
    countModifiedUtf8Chars (convertUtf16ToModifiedUtf8Loop units) = units.length := by
  induction units using convertUtf16ToModifiedUtf8Loop.induct with
  | case1 => simp [convertUtf16ToModifiedUtf8Loop, countModifiedUtf8Chars]
  | case2 ch rest ascii induction =>
      rw [convertUtf16ToModifiedUtf8Loop_ascii ascii, countModifiedUtf8Chars_ascii ascii, induction,
        List.length_cons]
  | case3 ch notAscii ch2 after pair induction =>
      simp only [convertUtf16ToModifiedUtf8Loop, if_neg notAscii, if_pos pair]
      rw [countModifiedUtf8Chars_encodeSurrogatePair pair.1 pair.2, induction]
      simp
  | case4 ch notAscii ch2 after notPair induction =>
      simp only [convertUtf16ToModifiedUtf8Loop, if_neg notAscii, if_neg notPair]
      rw [countModifiedUtf8Chars_encodeOther, induction]
      rfl
  | case5 ch notAscii =>
      have counted := countModifiedUtf8Chars_encodeOther ch []
      rw [List.append_nil] at counted
      simp only [convertUtf16ToModifiedUtf8Loop, if_neg notAscii]
      rw [counted]
      simp [countModifiedUtf8Chars]

/-! ## No byte is zero -/

theorem high_le_of_mem_encodeOther (ch : UInt16) :
    ∀ byte ∈ encodeOther ch, 0x80 ≤ byte.toNat := by
  have unitFits := ch.toNat_lt
  unfold encodeOther
  split
  · have leadValue := leadByte_toNat ch.toNat 0xe0 12 4 (by decide) (by omega) (by omega)
    simp only [encodeThreeBytes, List.mem_cons, List.not_mem_nil, or_false]
    rintro byte (rfl | rfl | rfl)
    · omega
    · rw [continuationByte_toNat]; omega
    · rw [continuationByte_toNat]; omega
  · have leadValue := leadByte_toNat ch.toNat 0xc0 6 5 (by decide) (by omega) (by omega)
    simp only [encodeTwoBytes, List.mem_cons, List.not_mem_nil, or_false]
    rintro byte (rfl | rfl)
    · omega
    · rw [continuationByte_toNat]; omega

theorem high_le_of_mem_encodeSurrogatePair {ch ch2 : UInt16}
    (leading : 0xd800 ≤ ch.toNat ∧ ch.toNat ≤ 0xdbff)
    (trailing : 0xdc00 ≤ ch2.toNat ∧ ch2.toNat ≤ 0xdfff) :
    ∀ byte ∈ encodeSurrogatePair ch ch2, 0x80 ≤ byte.toNat := by
  have codePoint := pairCodePoint_eq leading trailing
  unfold encodeSurrogatePair
  generalize pairCodePoint ch ch2 = point at codePoint ⊢
  have leadValue := leadByte_toNat point 0xf0 18 4 (by decide) (by omega) (by omega)
  simp only [List.mem_cons, List.not_mem_nil, or_false]
  rintro byte (rfl | rfl | rfl | rfl)
  · omega
  all_goals rw [continuationByte_toNat]; omega

theorem zero_not_mem_convertUtf16ToModifiedUtf8Loop (units : List UInt16) :
    (0 : UInt8) ∉ convertUtf16ToModifiedUtf8Loop units := by
  have zeroLow : ∀ bytes : List UInt8, (∀ byte ∈ bytes, 0x80 ≤ byte.toNat) → (0 : UInt8) ∉ bytes :=
    fun bytes high zeroMem => by simpa using high 0 zeroMem
  induction units using convertUtf16ToModifiedUtf8Loop.induct with
  | case1 => simp [convertUtf16ToModifiedUtf8Loop]
  | case2 ch rest ascii induction =>
      rw [convertUtf16ToModifiedUtf8Loop_ascii ascii, List.mem_cons, not_or]
      refine ⟨fun zero => ?_, induction⟩
      have byteValue := congrArg UInt8.toNat zero
      rw [UInt16.toNat_toUInt8, Nat.mod_eq_of_lt (by omega)] at byteValue
      simp at byteValue
      omega
  | case3 ch notAscii ch2 after pair induction =>
      simp only [convertUtf16ToModifiedUtf8Loop, if_neg notAscii, if_pos pair, List.mem_append,
        not_or]
      exact ⟨zeroLow _ (high_le_of_mem_encodeSurrogatePair pair.1 pair.2), induction⟩
  | case4 ch notAscii ch2 after notPair induction =>
      simp only [convertUtf16ToModifiedUtf8Loop, if_neg notAscii, if_neg notPair, List.mem_append,
        not_or]
      exact ⟨zeroLow _ (high_le_of_mem_encodeOther ch), induction⟩
  | case5 ch notAscii =>
      simp only [convertUtf16ToModifiedUtf8Loop, if_neg notAscii]
      exact zeroLow _ (high_le_of_mem_encodeOther ch)


/-! ## The ASCII fast paths and the round trip -/

theorem length_le_countUtf8Bytes (units : List UInt16) : units.length ≤ countUtf8Bytes units := by
  induction units using countUtf8Bytes.induct with
  | case1 => simp [countUtf8Bytes]
  | case2 ch rest counted induction =>
      rw [countUtf8Bytes_ascii counted, List.length_cons]; omega
  | case3 ch rest notCounted small induction =>
      rw [countUtf8Bytes_unpaired notCounted (by omega), if_pos small, List.length_cons]; omega
  | case4 ch notCounted large leading ch2 after trailing induction =>
      rw [countUtf8Bytes_pair leading trailing, List.length_cons, List.length_cons]; omega
  | case5 ch notCounted large leading ch2 after notTrailing induction =>
      rw [countUtf8Bytes_unpaired notCounted (by
        rintro next later equal
        cases equal
        exact fun both => notTrailing both.2), if_neg large, List.length_cons]
      omega
  | case6 ch notCounted large leading =>
      rw [countUtf8Bytes_unpaired notCounted (by simp), if_neg large]
      simp [countUtf8Bytes]
  | case7 ch rest notCounted large notLeading induction =>
      rw [countUtf8Bytes_unpaired notCounted (fun _ _ _ both => notLeading both.1), if_neg large,
        List.length_cons]
      omega

/-- `CountUtf8Bytes` gives one byte a unit only to ASCII other than U+0000,
so a count equal to the number of units means every unit is such ASCII. -/
theorem ascii_of_countUtf8Bytes_eq_length {units : List UInt16}
    (equal : countUtf8Bytes units = units.length) :
    ∀ ch ∈ units, 0 < ch.toNat ∧ ch.toNat ≤ 0x7f := by
  induction units using countUtf8Bytes.induct with
  | case1 => simp
  | case2 ch rest counted induction =>
      rw [countUtf8Bytes_ascii counted, List.length_cons] at equal
      intro unit member
      rcases List.mem_cons.mp member with rfl | later
      · omega
      · exact induction (by omega) unit later
  | case3 ch rest notCounted small induction =>
      rw [countUtf8Bytes_unpaired notCounted (by omega), if_pos small, List.length_cons] at equal
      have := length_le_countUtf8Bytes rest
      omega
  | case4 ch notCounted large leading ch2 after trailing induction =>
      rw [countUtf8Bytes_pair leading trailing, List.length_cons, List.length_cons] at equal
      have := length_le_countUtf8Bytes after
      omega
  | case5 ch notCounted large leading ch2 after notTrailing induction =>
      rw [countUtf8Bytes_unpaired notCounted (by
        rintro next later equal
        cases equal
        exact fun both => notTrailing both.2), if_neg large, List.length_cons] at equal
      have := length_le_countUtf8Bytes (ch2 :: after)
      omega
  | case6 ch notCounted large leading =>
      rw [countUtf8Bytes_unpaired notCounted (by simp), if_neg large] at equal
      simp [countUtf8Bytes] at equal
  | case7 ch rest notCounted large notLeading induction =>
      rw [countUtf8Bytes_unpaired notCounted (fun _ _ _ both => notLeading both.1), if_neg large,
        List.length_cons] at equal
      have := length_le_countUtf8Bytes rest
      omega

theorem convertUtf16ToModifiedUtf8Loop_of_ascii {units : List UInt16}
    (ascii : ∀ ch ∈ units, 0 < ch.toNat ∧ ch.toNat ≤ 0x7f) :
    convertUtf16ToModifiedUtf8Loop units = units.map UInt16.toUInt8 := by
  induction units with
  | nil => simp [convertUtf16ToModifiedUtf8Loop]
  | cons ch rest induction =>
      rw [convertUtf16ToModifiedUtf8Loop_ascii (ascii ch (by simp)), List.map_cons,
        induction fun unit member => ascii unit (by simp [member])]

theorem charToUtf16_toUInt8 {ch : UInt16} (ascii : 0 < ch.toNat ∧ ch.toNat ≤ 0x7f) :
    charToUtf16 ch.toUInt8 = ch := by
  have byteValue : ch.toUInt8.toNat = ch.toNat := by
    rw [UInt16.toNat_toUInt8]
    exact Nat.mod_eq_of_lt (by omega)
  rw [charToUtf16, byteValue, if_pos (by omega), UInt16.ofNat_toNat]

/-- The encoder called with the byte count `CountUtf8Bytes` gives runs the
general loop or an ASCII copy that writes the same bytes. -/
theorem convertUtf16ToModifiedUtf8_countUtf8Bytes (units : List UInt16) :
    convertUtf16ToModifiedUtf8 (countUtf8Bytes units) units =
      convertUtf16ToModifiedUtf8Loop units := by
  unfold convertUtf16ToModifiedUtf8
  split
  · rename_i equal
    exact (convertUtf16ToModifiedUtf8Loop_of_ascii (ascii_of_countUtf8Bytes_eq_length equal)).symm
  · rfl

theorem modifiedUtf8_round_trip (units : List UInt16) :
    (convertUtf16ToModifiedUtf8 (countUtf8Bytes units) units).length = countUtf8Bytes units ∧
      countModifiedUtf8Chars (convertUtf16ToModifiedUtf8 (countUtf8Bytes units) units) =
        units.length ∧
      convertModifiedUtf8ToUtf16 units.length
        (convertUtf16ToModifiedUtf8 (countUtf8Bytes units) units) = some units ∧
      (0 : UInt8) ∉ convertUtf16ToModifiedUtf8 (countUtf8Bytes units) units ∧
      (countUtf8Bytes units = units.length →
        units.map UInt16.toUInt8 = convertUtf16ToModifiedUtf8Loop units) ∧
      (units.length = (convertUtf16ToModifiedUtf8 (countUtf8Bytes units) units).length →
        some ((convertUtf16ToModifiedUtf8 (countUtf8Bytes units) units).map charToUtf16) =
          convertModifiedUtf8ToUtf16Loop
            (convertUtf16ToModifiedUtf8 (countUtf8Bytes units) units)) := by
  have written := convertUtf16ToModifiedUtf8_countUtf8Bytes units
  generalize convertUtf16ToModifiedUtf8 (countUtf8Bytes units) units = bytes at written ⊢
  have byteCount := length_convertUtf16ToModifiedUtf8Loop units
  have decoded := convertModifiedUtf8ToUtf16Loop_encode units
  -- the ASCII copy of the decoder is taken only when the counts agree, and
  -- then every unit is ASCII and was written as its own byte
  have asciiCopy : units.length = bytes.length →
      some (bytes.map charToUtf16) = convertModifiedUtf8ToUtf16Loop bytes := by
    intro equal
    have ascii := ascii_of_countUtf8Bytes_eq_length (by rw [← byteCount, ← written, equal])
    rw [written, decoded, convertUtf16ToModifiedUtf8Loop_of_ascii ascii, List.map_map]
    congr 1
    conv => rhs; rw [← List.map_id units]
    exact List.map_congr_left fun ch member => charToUtf16_toUInt8 (ascii ch member)
  have decodedAll : convertModifiedUtf8ToUtf16 units.length bytes = some units := by
    unfold convertModifiedUtf8ToUtf16
    split
    · rename_i equal
      rw [asciiCopy equal, written, decoded]
    · rw [written, decoded]
  have charCount : countModifiedUtf8Chars bytes = units.length := by
    rw [written, countModifiedUtf8Chars_convertUtf16ToModifiedUtf8Loop]
  have noZero : (0 : UInt8) ∉ bytes := by
    rw [written]
    exact zero_not_mem_convertUtf16ToModifiedUtf8Loop units
  exact ⟨by rw [written, byteCount], charCount, decodedAll, noZero,
    fun equal => (convertUtf16ToModifiedUtf8Loop_of_ascii
      (ascii_of_countUtf8Bytes_eq_length equal)).symm, asciiCopy⟩

/-! ## Hashes -/

/-- A step of the `java.lang.String` hash: `hash * 31 + c`, as a `uint32_t`. -/
def hashStep (hash : UInt32) (ch : UInt16) : UInt32 := hash * 31 + ch.toUInt32

/-- `ComputeUtf16Hash(chars, char_count)` over the units read. -/
def computeUtf16Hash (units : List UInt16) : Int32 := (units.foldl hashStep 0).toInt32

/-- The loop of `ComputeUtf16HashFromModifiedUtf8`: each decoded character
hashes its leading unit and then its trailing one when there is one, and
`utf16Length` counts the units down as a `size_t`. -/
def hashFromModifiedUtf8Loop (bytes : List UInt8) (utf16Length : Nat) (hash : UInt32) : Option UInt32 :=
  if utf16Length = 0 then some hash
  else
    match decoded : getUtf16FromUtf8 bytes with
    | none => none
    | some (pair, rest) =>
        let hash := hashStep hash (getLeadingUtf16Char pair)
        let utf16Length := utf16Length - 1
        let second := getTrailingUtf16Char pair
        if second ≠ 0 then
          hashFromModifiedUtf8Loop rest (if utf16Length = 0 then 2 ^ 64 - 1 else utf16Length - 1)
            (hashStep hash second)
        else hashFromModifiedUtf8Loop rest utf16Length hash
termination_by bytes.length
decreasing_by all_goals exact getUtf16FromUtf8_length decoded

/-- `ComputeUtf16HashFromModifiedUtf8(utf8, utf16_length)`; `none` when it
would read past the bytes. -/
def computeUtf16HashFromModifiedUtf8 (bytes : List UInt8) (utf16Length : Nat) : Option Int32 :=
  (hashFromModifiedUtf8Loop bytes utf16Length 0).map UInt32.toInt32

theorem hashFromModifiedUtf8Loop_of_decoded {bytes rest : List UInt8} {value utf16Length : Nat}
    (decoded : getUtf16FromUtf8 bytes = some (value, rest)) (enough : (unitsOf value).length ≤ utf16Length)
    (hash : UInt32) :
    hashFromModifiedUtf8Loop bytes utf16Length hash =
      hashFromModifiedUtf8Loop rest (utf16Length - (unitsOf value).length) ((unitsOf value).foldl hashStep hash) := by
  have started : utf16Length ≠ 0 := by
    have : 1 ≤ (unitsOf value).length := by simp [unitsOf]
    omega
  rw [hashFromModifiedUtf8Loop, if_neg started]
  split
  · rename_i failed
    rw [decoded] at failed
    cases failed
  · rename_i pair rest' decodedAgain
    rw [decoded] at decodedAgain
    cases decodedAgain
    by_cases paired : getTrailingUtf16Char value ≠ 0
    · -- a pair counts two units; the count had room for both
      have two : (unitsOf value).length = 2 := by simp [unitsOf, paired]
      have remaining : utf16Length - 1 ≠ 0 := by omega
      simp only [if_pos paired, if_neg remaining, two]
      rw [show utf16Length - 1 - 1 = utf16Length - 2 by omega]
      simp [unitsOf, paired]
    · have one : (unitsOf value).length = 1 := by simp [unitsOf, paired]
      simp only [if_neg paired, one]
      simp [unitsOf, paired]

theorem hashFromModifiedUtf8Loop_encode (units : List UInt16) (hash : UInt32) :
    hashFromModifiedUtf8Loop (convertUtf16ToModifiedUtf8Loop units) units.length hash =
      some (units.foldl hashStep hash) := by
  induction units using convertUtf16ToModifiedUtf8Loop.induct generalizing hash with
  | case1 => simp [hashFromModifiedUtf8Loop]
  | case2 ch rest ascii induction =>
      rw [convertUtf16ToModifiedUtf8Loop_ascii ascii,
        hashFromModifiedUtf8Loop_of_decoded (getUtf16FromUtf8_ascii ascii _) (by simp)]
      simpa using induction _
  | case3 ch notAscii ch2 after pair induction =>
      have trailingNonzero : ch2 ≠ 0 := by
        intro zero
        rw [zero] at pair
        simp at pair
      have decoded := getUtf16FromUtf8_encodeSurrogatePair pair.1 pair.2 (convertUtf16ToModifiedUtf8Loop after)
      rw [surrogatePairOf_pairCodePoint pair.1 pair.2] at decoded
      simp only [convertUtf16ToModifiedUtf8Loop, if_neg notAscii, if_pos pair]
      rw [hashFromModifiedUtf8Loop_of_decoded decoded (by rw [unitsOf_pair ch ch2 trailingNonzero]; simp),
        unitsOf_pair ch ch2 trailingNonzero]
      simpa using induction _
  | case4 ch notAscii ch2 after notPair induction =>
      simp only [convertUtf16ToModifiedUtf8Loop, if_neg notAscii, if_neg notPair]
      rw [hashFromModifiedUtf8Loop_of_decoded (getUtf16FromUtf8_encodeOther ch _) (by simp), unitsOf_unit]
      simpa using induction _
  | case5 ch notAscii =>
      have decoded := getUtf16FromUtf8_encodeOther ch []
      rw [List.append_nil] at decoded
      simp only [convertUtf16ToModifiedUtf8Loop, if_neg notAscii]
      rw [hashFromModifiedUtf8Loop_of_decoded decoded (by simp), unitsOf_unit]
      simp [hashFromModifiedUtf8Loop]

/-- `ComputeUtf16HashFromModifiedUtf8` on the modified UTF-8 of a string, with
its length in units, is the `String.hashCode` of the string. -/
theorem computeUtf16HashFromModifiedUtf8_of_encoded (units : List UInt16) :
    computeUtf16HashFromModifiedUtf8 (convertUtf16ToModifiedUtf8 (countUtf8Bytes units) units) units.length =
      some (computeUtf16Hash units) := by
  rw [convertUtf16ToModifiedUtf8_countUtf8Bytes, computeUtf16HashFromModifiedUtf8,
    hashFromModifiedUtf8Loop_encode]
  rfl

end ArtRuntime.Dex.Utf
