import ArtRuntime.Base.Leb128RoundTrip

/-! # Updating an unsigned LEB128 value in place

`UpdateUnsignedLeb128` of `libartbase/base/leb128.h` overwrites an encoded value
with one that needs no more bytes. It decodes the old value to find where it
ends, encodes the new value from the same address, and then pads, one byte at
a time up to the old end, by setting the continuation bit of the last byte
written and writing a zero after it. What it leaves are the groups of the new
value followed by zero groups: the new value, over exactly the old bytes. -/

namespace ArtRuntime.Base.Leb128

open ArtRuntime.Foundation

/-- The padding loop `for (end = ...; end < old_end; end++) { end[-1] |= 0x80; end[0] = 0; }`,
`remaining` passes from `position`. -/
def padUnsignedLeb128 (cells : Nat → UInt8) (position : Nat) : Nat → Nat → UInt8
  | 0 => cells
  | remaining + 1 =>
      let cells := Function.update cells (position - 1) (cells (position - 1) ||| 0x80)
      padUnsignedLeb128 (Function.update cells position 0) (position + 1) remaining

/-- `UpdateUnsignedLeb128(dest, value)`. -/
def updateUnsignedLeb128 (memory : TracedMemory UInt8) (dest : Nat) (value : UInt32) : TracedMemory UInt8 :=
  let (_, oldEnd, memory) := decodeUnsignedLeb128 memory dest
  let (cells, encodedEnd) := encodeUnsignedLeb128At memory.cells dest value
  { memory with cells := padUnsignedLeb128 cells encodedEnd (oldEnd - encodedEnd) }

theorem decodeUnsignedLeb128_cells (memory : TracedMemory UInt8) (ptr : Nat) :
    (decodeUnsignedLeb128 memory ptr).2.2.cells = memory.cells := by
  have walked := readLeb128Bytes_cells (fun _ => true) memory ptr 0 0 4
  unfold decodeUnsignedLeb128
  split <;> rename_i walk <;> rw [walk] at walked <;> exact walked

theorem continuationBytes_concat (init : List Nat) (last : Nat) :
    continuationBytes (init ++ [last]) = init.map (fun group => UInt8.ofNat (group ||| 0x80)) ++ [UInt8.ofNat last] := by
  induction init with
  | nil => rfl
  | cons group init induction =>
    obtain ⟨next, rest, split⟩ : ∃ next rest, init ++ [last] = next :: rest :=
      List.exists_cons_of_ne_nil (by simp)
    rw [List.cons_append, split, continuationBytes, ← split, induction, List.map_cons, List.cons_append]

theorem ofNat_or_continued {group : Nat} (small : group < 0x80) :
    UInt8.ofNat group ||| 0x80 = UInt8.ofNat (group ||| 0x80) := by
  have marked : group ||| 0x80 = 0x80 + group := NatBits.or_eq_add_of_lt_left 7 (by norm_num) (by omega)
  apply UInt8.toNat_inj.mp
  rw [UInt8.toNat_or, toNat_ofNat_group small, toNat_ofNat_continued small]
  show group ||| 0x80 = group + 0x80
  omega

/-- One pass of the padding loop after the bytes of `groups` adds a zero
group, and writes nothing else. -/
theorem padStep {groups : List Nat} (nonempty : groups ≠ []) (small : ∀ group ∈ groups, group < 0x80)
    {cells : Nat → UInt8} {address : Nat} (stored : Stores cells address (continuationBytes groups)) :
    let position := address + groups.length
    let padded := Function.update (Function.update cells (position - 1) (cells (position - 1) ||| 0x80)) position 0
    Stores padded address (continuationBytes (groups ++ [0])) ∧
      ∀ other, (other < address ∨ position + 1 ≤ other) → padded other = cells other := by
  obtain ⟨init, last, rfl⟩ := List.eq_nil_or_concat groups |>.resolve_left nonempty
  have lastSmall : last < 0x80 := small last (by simp)
  rw [List.concat_eq_append, continuationBytes_concat, Stores.append_iff] at stored
  obtain ⟨storedInit, storedLast⟩ := stored
  have lastByte : cells (address + init.length) = UInt8.ofNat last := by
    simpa using (Stores.cons_iff.mp storedLast).1
  simp only [List.concat_eq_append, List.length_append, List.length_singleton]
  refine ⟨?_, fun other outside => ?_⟩
  · -- the old last byte is continued, and a zero group follows
    rw [continuationBytes_concat, List.map_append, Stores.append_iff, Stores.append_iff]
    refine ⟨⟨storedInit.congr fun index inside => ?_, ?_⟩, ?_⟩
    · simp at inside
      rw [Function.update_of_ne (by omega), Function.update_of_ne (by omega)]
    · simp only [List.length_map, List.map_cons, List.map_nil, Stores.cons_iff, Stores.nil, and_true]
      rw [Function.update_of_ne (by omega), show address + (init.length + 1) - 1 = address + init.length by omega,
        Function.update_self, lastByte, ofNat_or_continued lastSmall]
    · simp only [List.length_map, List.length_append, List.length_singleton, Stores.cons_iff, Stores.nil, and_true]
      rw [show address + (init.length + 1) = address + (init.length + 1) from rfl, Function.update_self]
      rfl
  · rw [Function.update_of_ne (by omega), Function.update_of_ne (by omega)]

/-- The padding loop turns the bytes of `groups` into those of `groups`
followed by `count` zero groups, and writes nothing outside them. -/
theorem padUnsignedLeb128_spec (count : Nat) :
    ∀ {groups : List Nat} {cells : Nat → UInt8} {address : Nat}, groups ≠ [] → (∀ group ∈ groups, group < 0x80) →
      Stores cells address (continuationBytes groups) →
      Stores (padUnsignedLeb128 cells (address + groups.length) count) address
          (continuationBytes (groups ++ List.replicate count 0)) ∧
        ∀ other, (other < address ∨ address + groups.length + count ≤ other) →
          padUnsignedLeb128 cells (address + groups.length) count other = cells other := by
  induction count with
  | zero =>
    intro groups cells address _ _ stored
    exact ⟨by simpa [padUnsignedLeb128] using stored, fun _ _ => rfl⟩
  | succ count induction =>
    intro groups cells address nonempty small stored
    obtain ⟨storedNext, outsideNext⟩ := padStep nonempty small stored
    have smallNext : ∀ group ∈ groups ++ [0], group < 0x80 := by
      intro group member
      rcases List.mem_append.mp member with inGroups | zero
      · exact small group inGroups
      · simp at zero
        omega
    obtain ⟨storedAll, outsideAll⟩ := induction (by simp) smallNext storedNext
    simp only [List.length_append, List.length_singleton, ← Nat.add_assoc] at storedAll outsideAll
    refine ⟨by rw [padUnsignedLeb128]; simpa [List.replicate_succ] using storedAll, fun other outside => ?_⟩
    rw [padUnsignedLeb128, outsideAll other (by omega), outsideNext other (by omega)]

/-- `UpdateUnsignedLeb128` over a valid encoding, possibly padded, of one to
five bytes, with a value whose encoding needs no more: the bytes then decode to
the new value over exactly the old length, and no other byte is written. -/
theorem updateUnsignedLeb128_keeps_footprint {groups : List Nat} (nonempty : groups ≠ [])
    (small : ∀ group ∈ groups, group < 0x80) (fits : groups.length ≤ 5) {memory : TracedMemory UInt8}
    {dest : Nat} (stored : Stores memory.cells dest (continuationBytes groups)) (value : UInt32)
    (room : unsignedLeb128Size value ≤ groups.length) :
    (decodeUnsignedLeb128 (updateUnsignedLeb128 memory dest value) dest).1 = value ∧
      (decodeUnsignedLeb128 (updateUnsignedLeb128 memory dest value) dest).2.1 = dest + groups.length ∧
      ∀ address, address < dest ∨ dest + groups.length ≤ address →
        (updateUnsignedLeb128 memory dest value).cells address = memory.cells address := by
  -- the old value ends after its bytes, and reading it writes nothing
  obtain ⟨-, oldEnd⟩ := decodeUnsignedLeb128_of_walk (readLeb128Bytes_unchecked nonempty small fits stored)
  have oldCells := decodeUnsignedLeb128_cells memory dest
  -- the new value's own bytes
  have newLength : (unsignedGroups value.toNat).length = unsignedLeb128Size value := by
    rw [← length_continuationBytes, ← unsignedLeb128Bytes_eq, length_unsignedLeb128Bytes]
  have written : Stores (writeList memory.cells dest (unsignedLeb128Bytes value)) dest
      (continuationBytes (unsignedGroups value.toNat)) := by
    rw [← unsignedLeb128Bytes_eq]
    exact stores_writeList memory.cells dest (unsignedLeb128Bytes value)
  obtain ⟨padded, outsidePad⟩ := padUnsignedLeb128_spec (groups.length - unsignedLeb128Size value)
    (by simp [unsignedGroups]) (unsignedGroups_small value.toNat) written
  have update : (updateUnsignedLeb128 memory dest value).cells =
      padUnsignedLeb128 (writeList memory.cells dest (unsignedLeb128Bytes value)) (dest + unsignedLeb128Size value)
        (groups.length - unsignedLeb128Size value) := by
    unfold updateUnsignedLeb128
    rcases decoded : decodeUnsignedLeb128 memory dest with ⟨oldValue, oldNext, after⟩
    rw [decoded] at oldEnd oldCells
    simp only at oldEnd oldCells ⊢
    rw [oldCells, oldEnd, encodeUnsignedLeb128At, length_unsignedLeb128Bytes]
    congr 1
    omega
  rw [newLength] at padded outsidePad
  -- the bytes left are the new groups and zero groups, as many as before
  have groupsLength : (unsignedGroups value.toNat ++ List.replicate (groups.length - unsignedLeb128Size value) 0).length =
      groups.length := by
    simp [newLength]
    omega
  have smallLeft : ∀ group ∈ unsignedGroups value.toNat ++ List.replicate (groups.length - unsignedLeb128Size value) 0,
      group < 0x80 := by
    intro group member
    rcases List.mem_append.mp member with inGroups | zero
    · exact unsignedGroups_small _ group inGroups
    · rw [(List.mem_replicate.mp zero).2]
      norm_num
  have storedLeft : Stores (updateUnsignedLeb128 memory dest value).cells dest
      (continuationBytes (unsignedGroups value.toNat ++ List.replicate (groups.length - unsignedLeb128Size value) 0)) := by
    rw [update]
    exact padded
  obtain ⟨decoded, next⟩ := decodeUnsignedLeb128_of_walk
    (readLeb128Bytes_unchecked (by simp [unsignedGroups]) smallLeft (by omega) storedLeft)
  refine ⟨?_, by rw [next, groupsLength], fun address outside => ?_⟩
  · rw [decoded, Nat.ofDigits_append_replicate_zero, ofDigits_unsignedGroups, UInt32.ofNat_toNat]
  · rw [update, outsidePad address (by omega)]
    exact outside.elim (writeList_of_lt _) fun after => writeList_of_le _ (by rw [length_unsignedLeb128Bytes]; omega)

/-- The two-byte padded encoding `0x85 0x00` of 5, updated to 3. -/
theorem updateUnsignedLeb128_keeps_footprint_of_padded_five :
    Stores (fun address => if address = 0 then (0x85 : UInt8) else 0) 0 (continuationBytes [5, 0]) ∧
      unsignedLeb128Size 3 ≤ [5, 0].length ∧
      ((decodeUnsignedLeb128 (updateUnsignedLeb128 ⟨fun address => if address = 0 then 0x85 else 0, []⟩ 0 3) 0).1 = 3 ∧
        (decodeUnsignedLeb128 (updateUnsignedLeb128 ⟨fun address => if address = 0 then 0x85 else 0, []⟩ 0 3) 0).2.1 =
          0 + [5, 0].length ∧
        ∀ address, address < 0 ∨ 0 + [5, 0].length ≤ address →
          (updateUnsignedLeb128 ⟨fun address => if address = 0 then 0x85 else 0, []⟩ 0 3).cells address =
            (⟨fun address => if address = 0 then 0x85 else 0, []⟩ : TracedMemory UInt8).cells address) := by
  have stored : Stores (fun address => if address = 0 then (0x85 : UInt8) else 0) 0 (continuationBytes [5, 0]) :=
    Stores.cons_iff.mpr ⟨by decide, Stores.cons_iff.mpr ⟨by decide, Stores.nil⟩⟩
  exact ⟨stored, by decide,
    updateUnsignedLeb128_keeps_footprint (by simp) (by decide) (by decide) stored 3 (by decide)⟩

end ArtRuntime.Base.Leb128
