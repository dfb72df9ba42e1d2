import ArtRuntime.Foundation.LittleEndian

/-! # Labels of the x86-64 assembler

`Label`, `NearLabel` and the calls of `X86_64Assembler` that branch to them and
bind them. A branch to a label that is not bound yet writes a link in place of
its displacement: the links of a label thread its references through the code
buffer, newest first, and `Bind` walks them and writes the displacements.

A `Label` keeps its state in `position_`: zero while unused, the position of its
newest link plus `sizeof(void*)` while linked, and minus its position minus
`sizeof(void*)` once bound. The link of a `Label` is the 4-byte `position_` it
had before; the link of a `NearLabel` is one byte, the distance back to its
previous link, zero at the first. -/

namespace ArtRuntime.Compiler.X8664

open ArtRuntime.Foundation

/-- `sizeof(void*)` on a 64-bit host. -/
def kPointerSize : Int := 8

/-- `IsInt<8>(value)`. -/
def isInt8 (value : Int) : Bool := decide (-128 ≤ value ∧ value < 128)

/-- `IsUint<8>(value)`. -/
def isUint8 (value : Int) : Bool := decide (0 ≤ value ∧ value ≤ 255)

/-- The low byte of an `int`: `value & 0xFF`, or the `int8_t` it converts to. -/
def lowByte (value : Int) : UInt8 := ⟨BitVec.ofInt 8 value⟩

namespace Label

/-- `IsBound()` of `position_`. -/
def isBound (value : Int) : Bool := decide (value < 0)

/-- `IsLinked()` of `position_`. -/
def isLinked (value : Int) : Bool := decide (0 < value)

/-- `Position()` of `position_`. -/
def position (value : Int) : Int :=
  if isBound value then -value - kPointerSize else value - kPointerSize

/-- `LinkPosition()` of `position_`. -/
def linkPosition (value : Int) : Int := value - kPointerSize

/-- `position_` after `BindTo(position)`. -/
def bindTo (position : Nat) : Int := -position - kPointerSize

/-- `position_` after `LinkTo(position)`. -/
def linkTo (position : Nat) : Int := position + kPointerSize

end Label

/-- `Condition`. -/
inductive Condition
  | kOverflow | kNoOverflow | kBelow | kAboveEqual | kEqual | kNotEqual | kBelowEqual | kAbove
  | kSign | kNotSign | kParityEven | kParityOdd | kLess | kGreaterEqual | kLessEqual | kGreater
  deriving DecidableEq, Repr

def Condition.toNat : Condition → Nat
  | kOverflow => 0 | kNoOverflow => 1 | kBelow => 2 | kAboveEqual => 3 | kEqual => 4
  | kNotEqual => 5 | kBelowEqual => 6 | kAbove => 7 | kSign => 8 | kNotSign => 9
  | kParityEven => 10 | kParityOdd => 11 | kLess => 12 | kGreaterEqual => 13 | kLessEqual => 14
  | kGreater => 15

/-- The code buffer, `contents_` up to `Size()`, and `position_` of every
`Label` and of every `NearLabel`, each kind by its own numbers. -/
structure Assembler where
  contents : Nat → UInt8
  size : Nat
  labels : Nat → Int
  nearLabels : Nat → Int

namespace Assembler

/-- A new assembler: an empty buffer, every label unused. -/
def empty : Assembler := ⟨fun _ => 0, 0, fun _ => 0, fun _ => 0⟩

/-- `EmitUint8` of each byte: the bytes after the end of the buffer. -/
def emitBytes (asm : Assembler) (bytes : List UInt8) : Assembler :=
  { asm with contents := writeList asm.contents asm.size bytes, size := asm.size + bytes.length }

/-- `EmitInt32(value)`. -/
def emitInt32 (asm : Assembler) (value : Int) : Assembler :=
  asm.emitBytes (bytesOf32 (BitVec.ofInt 32 value))

/-- `EmitLabelLink(Label*)`: the old `position_` as the link. -/
def emitLabelLink (asm : Assembler) (label : Nat) : Option Assembler :=
  if Label.isBound (asm.labels label) then none
  else
    some { asm.emitInt32 (asm.labels label) with
      labels := Function.update asm.labels label (Label.linkTo asm.size) }

/-- `EmitLabelLink(NearLabel*)`: the distance back to the previous link, zero
at the first; its `CHECK` wants the distance in a byte. -/
def emitNearLabelLink (asm : Assembler) (label : Nat) : Option Assembler :=
  let value := asm.nearLabels label
  if Label.isBound value then none
  else
    let link : Option UInt8 :=
      if Label.isLinked value then
        let delta := asm.size - Label.linkPosition value
        if isUint8 delta then some (UInt8.ofNat delta.toNat) else none
      else some 0
    link.map fun byte => { asm.emitBytes [byte] with
      nearLabels := Function.update asm.nearLabels label (Label.linkTo asm.size) }

/-- A branch to a `Label`: to a bound label, the short form `short` with an
8-bit displacement where it fits, else the opcode `long` and a 32-bit
displacement; to a label not bound yet, the long form and a link. -/
def branch (asm : Assembler) (short : UInt8) (long : List UInt8) (label : Nat) :
    Option Assembler :=
  let value := asm.labels label
  if Label.isBound value then
    let offset := Label.position value - asm.size
    if offset ≤ 0 then
      if isInt8 (offset - 2) then some (asm.emitBytes [short, lowByte (offset - 2)])
      else some ((asm.emitBytes long).emitInt32 (offset - (long.length + 4)))
    else none
  else (asm.emitBytes long).emitLabelLink label

/-- `j(condition, Label*)`. -/
def j (asm : Assembler) (condition : Condition) (label : Nat) : Option Assembler :=
  asm.branch (UInt8.ofNat (0x70 + condition.toNat)) [0x0F, UInt8.ofNat (0x80 + condition.toNat)] label

/-- `jmp(Label*)`. -/
def jmp (asm : Assembler) (label : Nat) : Option Assembler := asm.branch 0xEB [0xE9] label

/-- A branch to a `NearLabel`, always the short form `opcode` with an 8-bit
displacement; to a bound label its `CHECK` wants the displacement in a byte. -/
def nearBranch (asm : Assembler) (opcode : UInt8) (label : Nat) : Option Assembler :=
  let value := asm.nearLabels label
  if Label.isBound value then
    let offset := Label.position value - asm.size
    if offset ≤ 0 ∧ isInt8 (offset - 2) then some (asm.emitBytes [opcode, lowByte (offset - 2)])
    else none
  else (asm.emitBytes [opcode]).emitNearLabelLink label

/-- `j(condition, NearLabel*)`. -/
def jNear (asm : Assembler) (condition : Condition) (label : Nat) : Option Assembler :=
  asm.nearBranch (UInt8.ofNat (0x70 + condition.toNat)) label

/-- `jrcxz(NearLabel*)`. -/
def jrcxz (asm : Assembler) (label : Nat) : Option Assembler := asm.nearBranch 0xE3 label

/-- `jmp(NearLabel*)`. -/
def jmpNear (asm : Assembler) (label : Nat) : Option Assembler := asm.nearBranch 0xEB label

/-- `EmitLabel(label, instruction_size)`. -/
def emitLabel (asm : Assembler) (label : Nat) (instructionSize : Int) : Option Assembler :=
  let value := asm.labels label
  if Label.isBound value then
    let offset := Label.position value - asm.size
    if offset ≤ 0 then some (asm.emitInt32 (offset - instructionSize)) else none
  else asm.emitLabelLink label

/-- `call(Label*)`: `kSize` is 5, less the opcode already emitted. -/
def call (asm : Assembler) (label : Nat) : Option Assembler :=
  (asm.emitBytes [0xE8]).emitLabel label (5 - 1)

/-- The loop of `Bind(Label*)` on at most `fuel` links: each link is read and
overwritten by the displacement to `bound`. The `CHECK` of `Load` and `Store`
wants the word inside the buffer. -/
def bindLoop (label : Nat) (bound : Int) : (fuel : Nat) → Assembler → Option Assembler
  | 0, _ => none
  | fuel + 1, asm =>
    if Label.isLinked (asm.labels label) then
      let position := Label.linkPosition (asm.labels label)
      if 0 ≤ position ∧ position + 4 ≤ asm.size then
        let next := (readWord32 asm.contents position.toNat).toInt
        bindLoop label bound fuel { asm with
          contents := writeList asm.contents position.toNat
            (bytesOf32 (BitVec.ofInt 32 (bound - (position + 4))))
          labels := Function.update asm.labels label next }
      else none
    else some asm

/-- `Bind(Label*)`, its loop given a link for each byte of the buffer and one more. -/
def bind (asm : Assembler) (label : Nat) : Option Assembler :=
  if Label.isBound (asm.labels label) then none
  else (bindLoop label asm.size (asm.size + 1) asm).map fun bound =>
    { bound with labels := Function.update bound.labels label (Label.bindTo asm.size) }

/-- The loop of `Bind(NearLabel*)` on at most `fuel` links, its `CHECK` wanting
each displacement in a byte. -/
def bindNearLoop (label : Nat) (bound : Int) : (fuel : Nat) → Assembler → Option Assembler
  | 0, _ => none
  | fuel + 1, asm =>
    let value := asm.nearLabels label
    if Label.isLinked value then
      let position := Label.linkPosition value
      if 0 ≤ position ∧ position + 1 ≤ asm.size then
        let delta := asm.contents position.toNat
        let offset := bound - (position + 1)
        if isInt8 offset then
          bindNearLoop label bound fuel { asm with
            contents := writeList asm.contents position.toNat [lowByte offset]
            nearLabels := Function.update asm.nearLabels label
              (if delta ≠ 0 then value - delta.toNat else 0) }
        else none
      else none
    else some asm

/-- `Bind(NearLabel*)`. -/
def bindNear (asm : Assembler) (label : Nat) : Option Assembler :=
  if Label.isBound (asm.nearLabels label) then none
  else (bindNearLoop label asm.size (asm.size + 1) asm).map fun bound =>
    { bound with nearLabels := Function.update bound.nearLabels label (Label.bindTo asm.size) }

end Assembler

/-- The calls of the assembler that the labels see: other bytes, the branches
and `call` to a label, and `Bind`. -/
inductive Call
  | emit (bytes : List UInt8)
  | j (condition : Condition) (label : Nat)
  | jNear (condition : Condition) (label : Nat)
  | jrcxz (label : Nat)
  | jmp (label : Nat)
  | jmpNear (label : Nat)
  | call (label : Nat)
  | bind (label : Nat)
  | bindNear (label : Nat)
  deriving DecidableEq, Repr

namespace Assembler

def step (asm : Assembler) : Call → Option Assembler
  | .emit bytes => some (asm.emitBytes bytes)
  | .j condition label => asm.j condition label
  | .jNear condition label => asm.jNear condition label
  | .jrcxz label => asm.jrcxz label
  | .jmp label => asm.jmp label
  | .jmpNear label => asm.jmpNear label
  | .call label => asm.call label
  | .bind label => asm.bind label
  | .bindNear label => asm.bindNear label

def run (asm : Assembler) (calls : List Call) : Option Assembler := calls.foldlM step asm

end Assembler

/-! ## The links of a label -/

/-- The width of a link: four bytes for a `Label`, one for a `NearLabel`. -/
def linkWidth (near : Bool) : Nat := if near then 1 else 4

/-- The `position_` a label has with its newest link at `newest`. -/
def linkValue : Option Nat → Int
  | none => 0
  | some newest => Label.linkTo newest

/-- The link written at `field`, the one before it at `older`: the old
`position_` of a `Label`, the distance back of a `NearLabel`. -/
def linkBytes (near : Bool) (field : Nat) (older : Option Nat) : List UInt8 :=
  if near then [match older with | none => 0 | some previous => UInt8.ofNat (field - previous)]
  else bytesOf32 (BitVec.ofInt 32 (linkValue older))

/-- The links of a label whose `position_` is `value`: the fields of its
references not patched yet, newest first, each after the ones before it and
holding the link to the one before it. -/
def Chained (near : Bool) (contents : Nat → UInt8) : List Nat → Int → Prop
  | [], value => value = 0
  | field :: older, value =>
    value = Label.linkTo field ∧ (∀ previous ∈ older, previous + linkWidth near ≤ field) ∧
      (near = true → ∀ previous ∈ older.head?, field ≤ previous + 255) ∧
      Stores contents field (linkBytes near field older.head?) ∧
      Chained near contents older (linkValue older.head?)

@[simp] theorem linkWidth_false : linkWidth false = 4 := rfl

@[simp] theorem linkWidth_true : linkWidth true = 1 := rfl

@[simp] theorem length_linkBytes (near : Bool) (field : Nat) (older : Option Nat) :
    (linkBytes near field older).length = linkWidth near := by
  cases near <;> rfl

theorem Chained.congr {near : Bool} {contents other : Nat → UInt8} :
    ∀ {fields : List Nat} {value : Int}, Chained near contents fields value →
      (∀ field ∈ fields, ∀ k < linkWidth near, other (field + k) = contents (field + k)) →
      Chained near other fields value
  | [], _, chained, _ => chained
  | field :: older, _, ⟨linked, after, close, stored, rest⟩, agree => by
    refine ⟨linked, after, close, stored.congr fun k inside => ?_,
      rest.congr fun previous member => agree previous (List.mem_cons_of_mem _ member)⟩
    exact agree field List.mem_cons_self k (by simpa using inside)

theorem toInt_ofInt32 {value : Int} (low : -2 ^ 31 ≤ value) (high : value < 2 ^ 31) :
    (BitVec.ofInt 32 value).toInt = value := by
  rw [BitVec.toInt_ofInt]
  exact Int.bmod_eq_of_le low high

theorem toInt_lowByte {value : Int} (fits : isInt8 value = true) :
    (lowByte value).toBitVec.toInt = value := by
  simp only [isInt8, decide_eq_true_eq] at fits
  rw [show (lowByte value).toBitVec = BitVec.ofInt 8 value from rfl, BitVec.toInt_ofInt]
  exact Int.bmod_eq_of_le (by omega) (by omega)

theorem writeList_outside {contents : Nat → UInt8} {field : Nat} {values : List UInt8} {i : Nat}
    (outside : i < field ∨ field + values.length ≤ i) : writeList contents field values i = contents i := by
  rcases outside with before | after
  · exact writeList_of_lt values before
  · exact writeList_of_le values after

section Bind

variable {label : Nat} {bound : Int}

/-- `Bind(Label*)` walks the links of the label, newest first, and writes the
displacement to `bound` over each of them, with one step for each link and one
to stop; no cell outside the links changes. -/
theorem bindLoop_of_chained : ∀ {fields : List Nat} {asm : Assembler} {fuel : Nat},
    Chained false asm.contents fields (asm.labels label) →
    (∀ field ∈ fields, field + 4 ≤ asm.size) → (asm.size : Int) + kPointerSize < 2 ^ 31 →
    fields.length < fuel →
    ∃ final, Assembler.bindLoop label bound fuel asm = some final ∧ final.size = asm.size ∧
      final.nearLabels = asm.nearLabels ∧ final.labels = Function.update asm.labels label 0 ∧
      (∀ field ∈ fields,
        Stores final.contents field (bytesOf32 (BitVec.ofInt 32 (bound - (field + 4))))) ∧
      ∀ i, (∀ field ∈ fields, i < field ∨ field + 4 ≤ i) → final.contents i = asm.contents i := by
  intro fields
  induction fields with
  | nil =>
    intro asm fuel chained _ _ enough
    obtain ⟨fuel, rfl⟩ : ∃ smaller, fuel = smaller + 1 := ⟨fuel - 1, by simp at enough; omega⟩
    have unused : asm.labels label = 0 := chained
    refine ⟨asm, ?_, rfl, rfl, by rw [← unused, Function.update_eq_self], by simp, fun _ _ => rfl⟩
    rw [Assembler.bindLoop, if_neg (by simp [Label.isLinked, unused])]
  | cons field older induction =>
    intro asm fuel chained inside small enough
    obtain ⟨fuel, rfl⟩ : ∃ smaller, fuel = smaller + 1 := ⟨fuel - 1, by simp at enough; omega⟩
    obtain ⟨linked, after, -, stored, rest⟩ := chained
    simp only [linkWidth_false] at after
    have fieldInside := inside field List.mem_cons_self
    have smallSize : (asm.size : Int) + 8 < 2 ^ 31 := small
    -- the link holds the `position_` the label had before this reference
    have next : (readWord32 asm.contents field).toInt = linkValue older.head? := by
      have bounded : linkValue older.head? < 2 ^ 31 := by
        cases first : older.head? with
        | none => simp [linkValue]
        | some previous =>
          have := after previous (List.mem_of_mem_head? first)
          simp only [linkValue, Label.linkTo, kPointerSize]
          omega
      have nonneg : 0 ≤ linkValue older.head? := by
        cases older.head? with
        | none => simp [linkValue]
        | some previous =>
          simp only [linkValue, Label.linkTo, kPointerSize]
          omega
      rw [readWord32_of_stores stored, toInt_ofInt32 (by omega) bounded]
    let patched : Assembler := { asm with
      contents := writeList asm.contents field (bytesOf32 (BitVec.ofInt 32 (bound - (field + 4))))
      labels := Function.update asm.labels label (linkValue older.head?) }
    have patchedLabels : patched.labels label = linkValue older.head? := Function.update_self _ _ _
    have restPatched : Chained false patched.contents older (patched.labels label) := by
      rw [patchedLabels]
      refine rest.congr fun previous member k below => writeList_outside (Or.inl ?_)
      have := after previous member
      simp only [linkWidth_false] at below
      omega
    obtain ⟨final, looped, sized, near, labels, patchedFields, frame⟩ :=
      induction restPatched (fun previous member => inside previous (List.mem_cons_of_mem _ member))
        small (by simpa using enough)
    refine ⟨final, ?_, sized, near, ?_, ?_, ?_⟩
    · have position : Label.linkPosition (asm.labels label) = field := by
        rw [linked, Label.linkPosition, Label.linkTo]
        omega
      have isLinked : Label.isLinked (asm.labels label) = true := by
        simp only [Label.isLinked, linked, Label.linkTo, kPointerSize, decide_eq_true_eq]
        omega
      rw [Assembler.bindLoop, if_pos isLinked, position, if_pos ⟨by omega, by omega⟩,
        Int.toNat_natCast, next]
      exact looped
    · rw [labels, Function.update_idem]
    · intro written member
      rcases List.mem_cons.mp member with rfl | later
      · refine (stores_writeList _ _ _).congr fun k below => frame _ fun previous member => Or.inr ?_
        have := after previous member
        simp only [length_bytesOf32] at below
        omega
      · exact patchedFields written later
    · intro i outside
      rw [frame i fun previous member => outside previous (List.mem_cons_of_mem _ member)]
      exact writeList_outside (by simpa using outside field List.mem_cons_self)

theorem nearLink_step {field : Nat} {older : List Nat} {byte : UInt8}
    (after : ∀ previous ∈ older, previous + 1 ≤ field)
    (close : ∀ previous ∈ older.head?, field ≤ previous + 255)
    (read : byte = match older.head? with | none => 0 | some previous => UInt8.ofNat (field - previous)) :
    (if byte ≠ 0 then Label.linkTo field - byte.toNat else 0) = linkValue older.head? := by
  cases first : older.head? with
  | none =>
    rw [first] at read
    have zero : byte = 0 := read
    rw [zero, if_neg (by decide)]
    rfl
  | some previous =>
    rw [first] at read
    have distance : byte = UInt8.ofNat (field - previous) := read
    have below := after previous (List.mem_of_mem_head? first)
    have near := close previous first
    have toNatEq : byte.toNat = field - previous := by
      rw [distance, UInt8.toNat_ofNat_of_lt' (by simp [UInt8.size]; omega)]
    rw [if_pos (fun zero => by rw [zero] at toNatEq; simp at toNatEq; omega), toNatEq]
    simp only [linkValue, Label.linkTo, kPointerSize]
    omega

/-- `Bind(NearLabel*)` walks the links of the label the same way and writes a
byte of displacement over each, where each fits its `CHECK`. -/
theorem bindNearLoop_of_chained : ∀ {fields : List Nat} {asm : Assembler} {fuel : Nat},
    Chained true asm.contents fields (asm.nearLabels label) →
    (∀ field ∈ fields, field + 1 ≤ asm.size) →
    (∀ field ∈ fields, isInt8 (bound - (field + 1)) = true) → fields.length < fuel →
    ∃ final, Assembler.bindNearLoop label bound fuel asm = some final ∧ final.size = asm.size ∧
      final.labels = asm.labels ∧ final.nearLabels = Function.update asm.nearLabels label 0 ∧
      (∀ field ∈ fields, Stores final.contents field [lowByte (bound - (field + 1))]) ∧
      ∀ i, (∀ field ∈ fields, i < field ∨ field + 1 ≤ i) → final.contents i = asm.contents i := by
  intro fields
  induction fields with
  | nil =>
    intro asm fuel chained _ _ enough
    obtain ⟨fuel, rfl⟩ : ∃ smaller, fuel = smaller + 1 := ⟨fuel - 1, by simp at enough; omega⟩
    have unused : asm.nearLabels label = 0 := chained
    refine ⟨asm, ?_, rfl, rfl, by rw [← unused, Function.update_eq_self], by simp, fun _ _ => rfl⟩
    rw [Assembler.bindNearLoop, if_neg (by simp [Label.isLinked, unused])]
  | cons field older induction =>
    intro asm fuel chained inside fits enough
    obtain ⟨fuel, rfl⟩ : ∃ smaller, fuel = smaller + 1 := ⟨fuel - 1, by simp at enough; omega⟩
    obtain ⟨linked, after, close, stored, rest⟩ := chained
    simp only [linkWidth_true] at after
    have fieldInside := inside field List.mem_cons_self
    have read : asm.contents field = match older.head? with
        | none => 0 | some previous => UInt8.ofNat (field - previous) := stored 0 (by simp [linkBytes])
    let patched : Assembler := { asm with
      contents := writeList asm.contents field [lowByte (bound - (field + 1))]
      nearLabels := Function.update asm.nearLabels label (linkValue older.head?) }
    have patchedLabels : patched.nearLabels label = linkValue older.head? := Function.update_self _ _ _
    have restPatched : Chained true patched.contents older (patched.nearLabels label) := by
      rw [patchedLabels]
      refine rest.congr fun previous member k below => writeList_outside (Or.inl ?_)
      have := after previous member
      simp only [linkWidth_true] at below
      omega
    obtain ⟨final, looped, sized, far, labels, patchedFields, frame⟩ :=
      induction restPatched (fun previous member => inside previous (List.mem_cons_of_mem _ member))
        (fun previous member => fits previous (List.mem_cons_of_mem _ member)) (by simpa using enough)
    refine ⟨final, ?_, sized, far, ?_, ?_, ?_⟩
    · have position : Label.linkPosition (asm.nearLabels label) = field := by
        rw [linked, Label.linkPosition, Label.linkTo]
        omega
      have isLinked : Label.isLinked (asm.nearLabels label) = true := by
        simp only [Label.isLinked, linked, Label.linkTo, kPointerSize, decide_eq_true_eq]
        omega
      rw [Assembler.bindNearLoop]
      simp only [isLinked, if_true, position, Int.toNat_natCast]
      rw [if_pos ⟨by omega, by omega⟩, if_pos (fits field List.mem_cons_self), linked,
        nearLink_step after (close rfl) read]
      exact looped
    · rw [labels, Function.update_idem]
    · intro written member
      rcases List.mem_cons.mp member with rfl | later
      · refine (stores_writeList _ _ _).congr fun k below => frame _ fun previous member => Or.inr ?_
        have := after previous member
        simp only [List.length_singleton] at below
        omega
      · exact patchedFields written later
    · intro i outside
      rw [frame i fun previous member => outside previous (List.mem_cons_of_mem _ member)]
      exact writeList_outside (by simpa using outside field List.mem_cons_self)

end Bind

end ArtRuntime.Compiler.X8664
