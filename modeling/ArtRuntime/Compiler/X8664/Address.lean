import ArtRuntime.Foundation.X86Operand
import ArtRuntime.Foundation.BitField
import ArtRuntime.Foundation.NatBits

/-! # Memory operands of the x86-64 assembler

`Operand` and `Address` of `utils/x86_64/assembler_x86_64.h` and the emitters
of `assembler_x86_64.cc` that write an operand: `EmitOperand`, which puts the
register or the opcode extension into the ModRM byte, and the REX emitters
`EmitOptionalRex32` and `EmitRex64`, which add the operand's REX bits to those
of the register. Each constructor of `Address` is read back by the decoding
rules of `Foundation.X86Operand` as the address it is meant to name. -/

namespace ArtRuntime.Compiler.X8664

open ArtRuntime.Foundation ArtRuntime.Foundation.X86

/-- The general-purpose registers, `Register` of `registers_x86_64.h`; a
`CpuRegister` wraps one of them. -/
inductive Register
  | rax | rcx | rdx | rbx | rsp | rbp | rsi | rdi | r8 | r9 | r10 | r11 | r12 | r13 | r14 | r15
  deriving DecidableEq, Repr

namespace Register

def toNat : Register → Nat
  | rax => 0 | rcx => 1 | rdx => 2 | rbx => 3 | rsp => 4 | rbp => 5 | rsi => 6 | rdi => 7
  | r8 => 8 | r9 => 9 | r10 => 10 | r11 => 11 | r12 => 12 | r13 => 13 | r14 => 14 | r15 => 15

/-- `CpuRegister::LowBits()`. -/
def lowBits (reg : Register) : Nat := reg.toNat &&& 7

/-- `CpuRegister::NeedsRex()`. -/
def needsRex (reg : Register) : Bool := decide (reg.toNat > 7)

theorem lowBits_lt (reg : Register) : reg.lowBits < 8 := by cases reg <;> decide

theorem lowBits_add_extension (reg : Register) :
    reg.lowBits + (if reg.needsRex then 8 else 0) = reg.toNat := by
  cases reg <;> rfl

theorem toNat_eq_four_iff (reg : Register) : reg.toNat = 4 ↔ reg = rsp := by
  cases reg <;> decide

end Register

/-- `ScaleFactor`. -/
inductive ScaleFactor
  | times1 | times2 | times4 | times8
  deriving DecidableEq, Repr

def ScaleFactor.toNat : ScaleFactor → Nat
  | times1 => 0 | times2 => 1 | times4 => 2 | times8 => 3

theorem ScaleFactor.toNat_lt (scale : ScaleFactor) : scale.toNat < 4 := by cases scale <;> decide

/-- `Operand`: its REX bits `rex_` and its bytes, `encoding_` up to `length_`. -/
structure Operand where
  rex : UInt8
  encoding : List UInt8
  deriving DecidableEq, Repr

namespace Operand

/-- `Operand()`. -/
def empty : Operand := ⟨0, []⟩

/-- `SetModRM(mod_in, rm_in)`. -/
def setModRM (operand : Operand) (mod : Nat) (rm : Register) : Operand :=
  { rex := if rm.needsRex then operand.rex ||| 0x41 else operand.rex
    encoding := [UInt8.ofNat ((mod <<< 6) ||| rm.lowBits)] }

/-- `SetSIB(scale_in, index_in, base_in)`, which writes the second byte. -/
def setSIB (operand : Operand) (scale : ScaleFactor) (index base : Register) : Operand :=
  let rex := if base.needsRex then operand.rex ||| 0x41 else operand.rex
  { rex := if index.needsRex then rex ||| 0x42 else rex
    encoding := operand.encoding.take 1 ++
      [UInt8.ofNat ((scale.toNat <<< 6) ||| (index.lowBits <<< 3) ||| base.lowBits)] }

/-- `SetDisp8(disp)`. -/
def setDisp8 (operand : Operand) (disp : BitVec 8) : Operand :=
  { operand with encoding := operand.encoding ++ [⟨disp⟩] }

/-- `SetDisp32(disp)`: the `memmove` of the `int32_t`. -/
def setDisp32 (operand : Operand) (disp : BitVec 32) : Operand :=
  { operand with encoding := operand.encoding ++ bytesOf32 disp }

end Operand

namespace Address

open Operand

/-- The displacement of `Address::Init` and of the constructor with a base and
an index: none where it is zero and the base is not RBP or R13, 8 bits where it
fits them, else 32 bits. -/
def withDisplacement (base : Register) (disp : BitVec 32) (build : Nat → Operand) : Operand :=
  if disp = 0 ∧ base.lowBits ≠ Register.rbp.toNat then build 0
  else if -128 ≤ disp.toInt ∧ disp.toInt ≤ 127 then (build 1).setDisp8 (disp.setWidth 8)
  else (build 2).setDisp32 disp

/-- `Address(base_in, disp)`, through `Init`: RSP and R12 as the base need a SIB
byte, with RSP as the index that is none. -/
def init (base : Register) (disp : BitVec 32) : Operand :=
  withDisplacement base disp fun mod =>
    let operand := empty.setModRM mod base
    if base.lowBits = Register.rsp.toNat then operand.setSIB .times1 .rsp base else operand

/-- `Address(index_in, scale_in, disp)`: no base, a 32-bit displacement. Its
`CHECK_NE` refuses RSP as the index. -/
def indexed (index : Register) (scale : ScaleFactor) (disp : BitVec 32) : Option Operand :=
  if index = .rsp then none
  else some (((empty.setModRM 0 .rsp).setSIB scale index .rbp).setDisp32 disp)

/-- `Address(base_in, index_in, scale_in, disp)`, which also refuses RSP as the index. -/
def baseIndexed (base index : Register) (scale : ScaleFactor) (disp : BitVec 32) :
    Option Operand :=
  if index = .rsp then none
  else some (withDisplacement base disp fun mod => (empty.setModRM mod .rsp).setSIB scale index base)

/-- `Address::Absolute(addr, no_rip)`: `SetDisp32` takes the address as an `int32_t`. -/
def absolute (addr : BitVec 64) (noRip : Bool) : Operand :=
  if noRip then ((empty.setModRM 0 .rsp).setSIB .times1 .rsp .rbp).setDisp32 (addr.setWidth 32)
  else (empty.setModRM 0 .rbp).setDisp32 (addr.setWidth 32)

/-- `Address::RIP(fixup)`, a displacement of zero for the fixup to patch. -/
def rip : Operand := (empty.setModRM 0 .rbp).setDisp32 0

end Address

/-- `EmitOperand(reg_or_opcode, operand)`, the fixup apart: the register or the
opcode extension goes into bits 3 to 5 of the ModRM byte. -/
def emitOperand (regOrOpcode : Nat) (operand : Operand) : List UInt8 :=
  match operand.encoding with
  | [] => []
  | first :: rest => UInt8.ofNat (first.toNat + (regOrOpcode <<< 3)) :: rest

/-- `EmitOptionalRex32(dst, operand)`: a prefix only where a bit is set. -/
def emitOptionalRex32 (dst : Register) (operand : Operand) : List UInt8 :=
  let rex := if dst.needsRex then operand.rex ||| 0x44 else operand.rex
  if rex ≠ 0 then [rex] else []

/-- `EmitRex64(dst, operand)`: always a prefix, with REX.W. -/
def emitRex64 (dst : Register) (operand : Operand) : List UInt8 :=
  let rex := 0x48 ||| operand.rex
  [if dst.needsRex then rex ||| 0x44 else rex]

/-! ## The bytes of an operand -/

theorem toNat_fields {high low : Nat} (width : Nat) (fits : low < 2 ^ width)
    (small : high * 2 ^ width + low < 256) :
    (UInt8.ofNat ((high <<< width) ||| low)).toNat = high * 2 ^ width + low := by
  rw [NatBits.shiftLeft_or_eq_add high width fits, UInt8.toNat_ofNat_of_lt' small]

theorem toNat_sibByte (scale : ScaleFactor) (index base : Register) :
    (UInt8.ofNat ((scale.toNat <<< 6) ||| (index.lowBits <<< 3) ||| base.lowBits)).toNat =
      scale.toNat * 64 + index.lowBits * 8 + base.lowBits := by
  have scaleLt := scale.toNat_lt
  have indexLt := index.lowBits_lt
  have baseLt := base.lowBits_lt
  have high : (scale.toNat <<< 6) ||| (index.lowBits <<< 3) = scale.toNat * 64 + index.lowBits * 8 := by
    rw [NatBits.shiftLeft_or_eq_add scale.toNat 6 (by rw [Nat.shiftLeft_eq]; omega),
      Nat.shiftLeft_eq]
    rfl
  rw [high, NatBits.or_eq_add_of_lt 3 (by omega) (by simpa using baseLt),
    UInt8.toNat_ofNat_of_lt' (by simp [UInt8.size]; omega)]

theorem toNat_modRmByte {reg : Nat} (mod : Nat) (rm : Register) (modLt : mod < 4) (regLt : reg < 8) :
    (UInt8.ofNat ((UInt8.ofNat ((mod <<< 6) ||| rm.lowBits)).toNat + (reg <<< 3))).toNat =
      mod * 64 + reg * 8 + rm.lowBits := by
  have rmLt := rm.lowBits_lt
  rw [toNat_fields 6 (by simp; omega) (by simp; omega), Nat.shiftLeft_eq,
    UInt8.toNat_ofNat_of_lt' (by simp [UInt8.size]; omega)]
  simp only [Nat.reducePow]
  omega

theorem rexExtension_of_mod_four {rex other : UInt8} (agree : rex.toNat % 4 = other.toNat % 4)
    {bit : Nat} (low : bit < 2) : rexExtension rex bit = rexExtension other bit := by
  have keep : ∀ byte : UInt8, byte.toNat.testBit bit = (byte.toNat % 2 ^ 2).testBit bit := by
    intro byte
    rw [Nat.testBit_mod_two_pow, decide_eq_true low, Bool.true_and]
  simp only [rexExtension, keep rex, keep other, Nat.reducePow, agree]

/-- Under every REX prefix with the operand's bits X and B, the bytes that
`EmitOperand(reg, operand)` writes for a `reg` below 8 decode to `reg`,
extended by REX.R, and to `address`. -/
def Decodes (operand : Operand) (address : EffectiveAddress) : Prop :=
  ∀ rex : UInt8, rex.toNat % 4 = operand.rex.toNat % 4 → ∀ reg < 8, ∀ rest : List UInt8,
    decodeModRm rex (emitOperand reg operand ++ rest) = some (reg + rexExtension rex 2, address, rest)

/-! ## The REX bits of an operand -/

/-- The REX bits `SetModRM` and `SetSIB` leave: `0x41` for B, `0x42` for X. -/
def rexOf (x b : Bool) : UInt8 := (if b then 0x41 else 0) ||| (if x then 0x42 else 0)

theorem rexExtension_rexOf_zero (x b : Bool) : rexExtension (rexOf x b) 0 = if b then 8 else 0 := by
  cases x <;> cases b <;> decide

theorem rexExtension_rexOf_one (x b : Bool) : rexExtension (rexOf x b) 1 = if x then 8 else 0 := by
  cases x <;> cases b <;> decide

namespace Operand

@[simp] theorem rex_setModRM_empty (mod : Nat) (rm : Register) :
    (empty.setModRM mod rm).rex = rexOf false rm.needsRex := by
  simp only [setModRM, empty]
  cases rm.needsRex <;> decide

@[simp] theorem rex_setSIB {operand : Operand} {x b : Bool} (rex : operand.rex = rexOf x b)
    (scale : ScaleFactor) (index base : Register) :
    (operand.setSIB scale index base).rex = rexOf (x || index.needsRex) (b || base.needsRex) := by
  simp only [setSIB, rex]
  cases x <;> cases b <;> cases index.needsRex <;> cases base.needsRex <;> decide

@[simp] theorem rex_setDisp8 (operand : Operand) (disp : BitVec 8) :
    (operand.setDisp8 disp).rex = operand.rex := rfl

@[simp] theorem rex_setDisp32 (operand : Operand) (disp : BitVec 32) :
    (operand.setDisp32 disp).rex = operand.rex := rfl

end Operand

/-- The operand followed by the displacement bytes that `mod` announces decodes
to the address with that displacement. -/
def DecodesWith (operand : Operand) (mod : Nat) (address : BitVec 32 → EffectiveAddress) : Prop :=
  ∀ tail disp, (∀ rest, readDisplacement mod (tail ++ rest) = some (disp, rest)) →
    Decodes { operand with encoding := operand.encoding ++ tail } (address disp)

open Operand in
theorem decodesWith_setModRM {mod : Nat} {rm : Register} (modLt : mod < 3) (noSib : rm.lowBits ≠ 4)
    (noRip : ¬(mod = 0 ∧ rm.lowBits = 5)) :
    DecodesWith (empty.setModRM mod rm) mod fun disp => .memory (some rm.toNat) none disp := by
  intro tail disp displacement rex agree reg regLt rest
  have extension : rexExtension rex 0 = if rm.needsRex then 8 else 0 := by
    rw [rexExtension_of_mod_four agree (by decide), rex_setModRM_empty, rexExtension_rexOf_zero]
  simp only [emitOperand, setModRM, List.cons_append, List.nil_append]
  rw [decodeModRm_base (toNat_modRmByte mod rm (by omega) regLt) regLt rm.lowBits_lt modLt noSib noRip,
    displacement]
  simp only [Option.map_some, extension, Register.lowBits_add_extension]

theorem sibIndex_register {rex : UInt8} (index : Register) (scale : ScaleFactor)
    (extension : rexExtension rex 1 = if index.needsRex then 8 else 0) :
    sibIndex rex index.lowBits scale.toNat =
      if index = .rsp then none else some (index.toNat, scale.toNat) := by
  simp only [sibIndex, extension, Register.lowBits_add_extension, Register.toNat_eq_four_iff]

open Operand in
theorem decodesWith_setSIB {mod : Nat} (rm : Register) (scale : ScaleFactor) (index base : Register)
    (modLt : mod < 3) (sib : rm.lowBits = 4) (rmRex : rm.needsRex = true → base.needsRex = true)
    (withBase : ¬(mod = 0 ∧ base.lowBits = 5)) :
    DecodesWith ((empty.setModRM mod rm).setSIB scale index base) mod fun disp =>
      .memory (some base.toNat) (if index = .rsp then none else some (index.toNat, scale.toNat)) disp := by
  intro tail disp displacement rex agree reg regLt rest
  have rexEq := rex_setSIB (rex_setModRM_empty mod rm) scale index base
  have baseExtension : rexExtension rex 0 = if base.needsRex then 8 else 0 := by
    rw [rexExtension_of_mod_four agree (by decide), rexEq, rexExtension_rexOf_zero]
    cases rmNeeds : rm.needsRex
    · rfl
    · rw [rmRex rmNeeds]
      rfl
  have indexExtension : rexExtension rex 1 = if index.needsRex then 8 else 0 := by
    rw [rexExtension_of_mod_four agree (by decide), rexEq, rexExtension_rexOf_one, Bool.false_or]
  have modRm : (UInt8.ofNat ((UInt8.ofNat ((mod <<< 6) ||| rm.lowBits)).toNat + (reg <<< 3))).toNat =
      mod * 64 + reg * 8 + 4 := by
    rw [toNat_modRmByte mod rm (by omega) regLt, sib]
  simp only [emitOperand, setSIB, setModRM, List.take_succ_cons, List.take_zero,
    List.cons_append, List.nil_append]
  rw [decodeModRm_sib modRm (toNat_sibByte scale index base) regLt modLt index.lowBits_lt
    base.lowBits_lt withBase, displacement]
  simp only [Option.map_some, baseExtension, Register.lowBits_add_extension,
    sibIndex_register index scale indexExtension]

theorem readDisplacement_disp8 {disp : BitVec 32} (fits : -128 ≤ disp.toInt ∧ disp.toInt ≤ 127)
    (rest : List UInt8) : readDisplacement 1 ([⟨disp.setWidth 8⟩] ++ rest) = some (disp, rest) := by
  rw [List.singleton_append, readDisplacement_one,
    signExtend_setWidth_of_toInt (by decide) (by decide) (by simpa using fits.1) (by simp; omega)]

theorem withTail_nil (operand : Operand) : { operand with encoding := operand.encoding ++ [] } = operand := by
  rw [List.append_nil]

theorem decodes_withDisplacement {base : Register} {disp : BitVec 32} {build : Nat → Operand}
    {address : BitVec 32 → EffectiveAddress}
    (built : ∀ mod < 3, ¬(mod = 0 ∧ base.lowBits = 5) → DecodesWith (build mod) mod address) :
    Decodes (Address.withDisplacement base disp build) (address disp) := by
  unfold Address.withDisplacement
  split_ifs with zero eight
  · have decodes := built 0 (by decide) (fun ⟨_, five⟩ => zero.2 five) [] 0 readDisplacement_zero
    rw [withTail_nil] at decodes
    rw [zero.1]
    exact decodes
  · exact built 1 (by decide) (by simp) [⟨disp.setWidth 8⟩] disp (readDisplacement_disp8 eight)
  · exact built 2 (by decide) (by simp) (bytesOf32 disp) disp (readDisplacement_two disp)

open Operand in
/-- A SIB base of `101` under `mod = 00`: `Address(index_in, scale_in, disp)`
and `Absolute(addr, true)`. -/
theorem decodes_noBase (scale : ScaleFactor) (index : Register) (disp : BitVec 32) :
    Decodes (((empty.setModRM 0 .rsp).setSIB scale index .rbp).setDisp32 disp)
      (.memory none (if index = .rsp then none else some (index.toNat, scale.toNat)) disp) := by
  intro rex agree reg regLt rest
  have rexEq := rex_setSIB (rex_setModRM_empty 0 .rsp) scale index .rbp
  have indexExtension : rexExtension rex 1 = if index.needsRex then 8 else 0 := by
    rw [rexExtension_of_mod_four agree (by decide), rex_setDisp32, rexEq, rexExtension_rexOf_one,
      Bool.false_or]
  have modRm : (UInt8.ofNat ((UInt8.ofNat ((0 <<< 6) ||| Register.rsp.lowBits)).toNat + (reg <<< 3))).toNat =
      reg * 8 + 4 := by
    rw [toNat_modRmByte 0 .rsp (by decide) regLt, show Register.rsp.lowBits = 4 from rfl]
    omega
  simp only [emitOperand, setDisp32, setSIB, setModRM, List.take_succ_cons, List.take_zero,
    List.cons_append, List.nil_append]
  rw [decodeModRm_sib_noBase modRm (toNat_sibByte scale index .rbp) regLt index.lowBits_lt disp rest,
    sibIndex_register index scale indexExtension]

open Operand in
theorem decodes_rip (disp : BitVec 32) :
    Decodes ((empty.setModRM 0 .rbp).setDisp32 disp) (.ripRelative disp) := by
  intro rex _ reg regLt rest
  have modRm : (UInt8.ofNat ((UInt8.ofNat ((0 <<< 6) ||| Register.rbp.lowBits)).toNat + (reg <<< 3))).toNat =
      reg * 8 + 5 := by
    rw [toNat_modRmByte 0 .rbp (by decide) regLt, show Register.rbp.lowBits = 5 from rfl]
    omega
  simp only [emitOperand, setDisp32, setModRM, List.cons_append,
    List.nil_append]
  rw [decodeModRm_rip modRm regLt disp rest]

/-! ## What an address names -/

/-- A call that builds an `Address`. -/
inductive AddressCall
  /-- `Address(base_in, disp)`. -/
  | withBase (base : Register) (disp : BitVec 32)
  /-- `Address(base_in, index_in, scale_in, disp)`. -/
  | withBaseIndex (base index : Register) (scale : ScaleFactor) (disp : BitVec 32)
  /-- `Address(index_in, scale_in, disp)`. -/
  | withIndex (index : Register) (scale : ScaleFactor) (disp : BitVec 32)
  /-- `Address::Absolute(addr, no_rip)` of an address that is an `int32_t`, as
  `Absolute(ThreadOffset64, no_rip)` passes it. -/
  | absolute (disp : BitVec 32) (noRip : Bool)
  /-- `Address::RIP(fixup)`. -/
  | rip

namespace AddressCall

def build : AddressCall → Option Operand
  | withBase base disp => some (Address.init base disp)
  | withBaseIndex base index scale disp => Address.baseIndexed base index scale disp
  | withIndex index scale disp => Address.indexed index scale disp
  | absolute disp noRip => some (Address.absolute (disp.signExtend 64) noRip)
  | rip => some Address.rip

/-- The address a call is meant to name. -/
def intended : AddressCall → EffectiveAddress
  | withBase base disp => .memory (some base.toNat) none disp
  | withBaseIndex base index scale disp => .memory (some base.toNat) (some (index.toNat, scale.toNat)) disp
  | withIndex index scale disp => .memory none (some (index.toNat, scale.toNat)) disp
  | absolute disp noRip => if noRip then .memory none none disp else .ripRelative disp
  | rip => .ripRelative 0

/-- The calls that pass the `CHECK` of their constructor: RSP is no index. -/
def Legal : AddressCall → Prop
  | withBaseIndex _ index _ _ | withIndex index _ _ => index ≠ .rsp
  | _ => True

end AddressCall

theorem rex_withDisplacement {base : Register} {disp : BitVec 32} {build : Nat → Operand} {rex : UInt8}
    (built : ∀ mod, (build mod).rex = rex) : (Address.withDisplacement base disp build).rex = rex := by
  unfold Address.withDisplacement
  split_ifs <;> simp only [Operand.rex_setDisp8, Operand.rex_setDisp32, built]

theorem setWidth_signExtend_int32 (disp : BitVec 32) : (disp.signExtend 64).setWidth 32 = disp := by
  apply BitVec.eq_of_getLsbD_eq
  intro i below
  simp only [below, BitVec.getLsbD_eq_getElem, BitVec.getElem_setWidth, BitVec.getLsbD_signExtend,
    if_true, Bool.and_eq_right_iff_imp, decide_eq_true_eq]
  exact fun _ => by omega

open Operand in
/-- `Address(base_in, disp)`: a SIB byte for RSP and R12, the ModRM byte alone
for every other base. -/
theorem decodes_init (base : Register) (disp : BitVec 32) :
    Decodes (Address.init base disp) (.memory (some base.toNat) none disp) ∧
      (Address.init base disp).rex = rexOf false base.needsRex := by
  refine ⟨decodes_withDisplacement fun mod modLt withBase => ?_, rex_withDisplacement fun mod => ?_⟩
  · by_cases sib : base.lowBits = Register.rsp.toNat
    · have decodes := decodesWith_setSIB base .times1 .rsp base modLt sib id withBase
      simp only [if_true] at decodes
      simpa only [if_pos sib] using decodes
    · simp only [if_neg sib]
      exact decodesWith_setModRM modLt sib fun ⟨zero, five⟩ => withBase ⟨zero, five⟩
  · by_cases sib : base.lowBits = Register.rsp.toNat
    · rw [if_pos sib, rex_setSIB (rex_setModRM_empty mod base)]
      cases base.needsRex <;> rfl
    · rw [if_neg sib, rex_setModRM_empty]

open Operand in
theorem decodes_baseIndexed {base index : Register} (scale : ScaleFactor) (disp : BitVec 32)
    (legal : index ≠ .rsp) :
    ∃ operand, Address.baseIndexed base index scale disp = some operand ∧
      Decodes operand (.memory (some base.toNat) (some (index.toNat, scale.toNat)) disp) ∧
      operand.rex = rexOf index.needsRex base.needsRex := by
  refine ⟨_, if_neg legal, decodes_withDisplacement fun mod modLt withBase => ?_,
    rex_withDisplacement fun mod => ?_⟩
  · have decodes := decodesWith_setSIB .rsp scale index base modLt rfl
      (fun rspRex => absurd rspRex (by decide)) withBase
    simpa only [if_neg legal] using decodes
  · rw [rex_setSIB (rex_setModRM_empty mod .rsp)]
    rfl

open Operand in
theorem decodes_indexed {index : Register} (scale : ScaleFactor) (disp : BitVec 32)
    (legal : index ≠ .rsp) :
    ∃ operand, Address.indexed index scale disp = some operand ∧
      Decodes operand (.memory none (some (index.toNat, scale.toNat)) disp) ∧
      operand.rex = rexOf index.needsRex false := by
  refine ⟨_, if_neg legal, ?_, ?_⟩
  · simpa only [if_neg legal] using decodes_noBase scale index disp
  · rw [rex_setDisp32, rex_setSIB (rex_setModRM_empty 0 .rsp)]
    rfl

/-- `Address::Absolute(addr, no_rip)`: the address with no register, or from
the next instruction. -/
theorem decodes_absolute (disp : BitVec 32) (noRip : Bool) :
    Decodes (Address.absolute (disp.signExtend 64) noRip)
        (if noRip then .memory none none disp else .ripRelative disp) ∧
      (Address.absolute (disp.signExtend 64) noRip).rex = rexOf false false := by
  rw [Address.absolute, setWidth_signExtend_int32]
  cases noRip
  · exact ⟨decodes_rip disp, rfl⟩
  · exact ⟨by simpa using decodes_noBase .times1 .rsp disp, rfl⟩

/-- Each call that passes its check builds an operand that decodes to the
address it is meant to name. -/
theorem AddressCall.build_decodes (call : AddressCall) (legal : call.Legal) :
    ∃ operand, call.build = some operand ∧ Decodes operand call.intended ∧
      ∃ x b, operand.rex = rexOf x b := by
  cases call with
  | withBase base disp =>
    obtain ⟨decodes, rex⟩ := decodes_init base disp
    exact ⟨_, rfl, decodes, _, _, rex⟩
  | withBaseIndex base index scale disp =>
    obtain ⟨operand, built, decodes, rex⟩ := decodes_baseIndexed scale disp legal
    exact ⟨operand, built, decodes, _, _, rex⟩
  | withIndex index scale disp =>
    obtain ⟨operand, built, decodes, rex⟩ := decodes_indexed scale disp legal
    exact ⟨operand, built, decodes, _, _, rex⟩
  | absolute disp noRip =>
    obtain ⟨decodes, rex⟩ := decodes_absolute disp noRip
    exact ⟨_, rfl, decodes, _, _, rex⟩
  | rip => exact ⟨_, rfl, decodes_rip 0, false, false, rfl⟩

/-! ## The prefix -/

/-- The prefix of `EmitOptionalRex32`: the operand's bits and REX.R, present
only where one of them is set. -/
theorem optionalRex_prefix (x b needs : Bool) :
    let rex := if needs then rexOf x b ||| 0x44 else rexOf x b
    (rex ≠ 0 → isRex rex = true) ∧ rex.toNat % 4 = (rexOf x b).toNat % 4 ∧
      rexExtension rex 2 = (if needs then 8 else 0) ∧ rex.toNat.testBit 3 = false ∧
      (rex = 0 → needs = false ∧ rexOf x b = 0) := by
  cases x <;> cases b <;> cases needs <;> decide

theorem rex64_prefix (x b needs : Bool) :
    let rex := if needs then 0x48 ||| rexOf x b ||| 0x44 else 0x48 ||| rexOf x b
    isRex rex = true ∧ rex.toNat % 4 = (rexOf x b).toNat % 4 ∧
      rexExtension rex 2 = (if needs then 8 else 0) ∧ rex.toNat.testBit 3 = true := by
  cases x <;> cases b <;> cases needs <;> decide

section Emit

variable {operand : Operand} {address : EffectiveAddress} (decodes : Decodes operand address)
  {x b : Bool} (rex : operand.rex = rexOf x b) (dst : Register) {opcode : UInt8}
  (notRex : isRex opcode = false) (opcodeRest rest : List UInt8)

include decodes rex notRex

theorem decode_emitOptionalRex32 :
    decode (opcodeRest.length + 1) (emitOptionalRex32 dst operand ++ opcode :: opcodeRest ++
      emitOperand dst.lowBits operand ++ rest) = some (⟨false, dst.toNat, address⟩, rest) := by
  obtain ⟨prefixed, agree, extension, narrow, absent⟩ := optionalRex_prefix x b dst.needsRex
  simp only [emitOptionalRex32, rex]
  generalize (if dst.needsRex then rexOf x b ||| 0x44 else rexOf x b) = written
    at prefixed agree extension narrow absent ⊢
  split_ifs with present
  · simp only [List.append_assoc, List.cons_append, List.nil_append]
    rw [decode_of_rex (prefixed present), decodes _ (by rw [agree, rex]) dst.lowBits dst.lowBits_lt rest]
    simp only [Option.map_some, narrow, extension, Register.lowBits_add_extension]
  · obtain ⟨unneeded, zero⟩ := absent (not_not.mp present)
    simp only [List.append_assoc, List.nil_append, List.cons_append]
    rw [decode_of_not_rex notRex, decodes 0 (by rw [rex, zero]) dst.lowBits dst.lowBits_lt rest,
      Option.map_some, show rexExtension 0 2 = 0 from rfl, ← dst.lowBits_add_extension, unneeded]
    rfl

omit notRex in
theorem decode_emitRex64 :
    decode (opcodeRest.length + 1) (emitRex64 dst operand ++ opcode :: opcodeRest ++
      emitOperand dst.lowBits operand ++ rest) = some (⟨true, dst.toNat, address⟩, rest) := by
  obtain ⟨prefixed, agree, extension, wide⟩ := rex64_prefix x b dst.needsRex
  simp only [emitRex64, rex, List.append_assoc, List.cons_append,
    List.nil_append]
  rw [decode_of_rex prefixed, decodes _ (by rw [agree, rex]) dst.lowBits dst.lowBits_lt rest]
  simp only [Option.map_some, wide, extension, Register.lowBits_add_extension]

end Emit

/-- Every memory operand the assembler builds encodes the address it is meant
to name. For every call of an `Address` constructor that passes its check,
every register or opcode extension `dst` and every opcode, the bytes of
`EmitOptionalRex32(dst, address)` or of `EmitRex64(dst, address)`, then the
opcode, then `EmitOperand(dst & 7, address)` decode to `dst`, with REX.W set
exactly after `EmitRex64`, and to that address. -/
theorem address_operands_decode (call : AddressCall) (legal : call.Legal) (dst : Register)
    {opcode : UInt8} (notRex : isRex opcode = false) (opcodeRest rest : List UInt8) :
    ∃ operand, call.build = some operand ∧
      decode (opcodeRest.length + 1) (emitOptionalRex32 dst operand ++ opcode :: opcodeRest ++
        emitOperand dst.lowBits operand ++ rest) = some (⟨false, dst.toNat, call.intended⟩, rest) ∧
      decode (opcodeRest.length + 1) (emitRex64 dst operand ++ opcode :: opcodeRest ++
        emitOperand dst.lowBits operand ++ rest) = some (⟨true, dst.toNat, call.intended⟩, rest) := by
  obtain ⟨operand, built, decodes, x, b, rex⟩ := call.build_decodes legal
  exact ⟨operand, built, decode_emitOptionalRex32 decodes rex dst notRex opcodeRest rest,
    decode_emitRex64 decodes rex dst opcodeRest rest⟩

/-- `movl r9d, [r13 + r12 * 8]`: a base that needs a displacement byte at zero
and an index that needs REX.X. -/
theorem address_operands_decode_of_r13_r12 :
    (AddressCall.withBaseIndex .r13 .r12 .times8 0).Legal ∧ isRex 0x8B = false ∧
      ∃ operand, (AddressCall.withBaseIndex .r13 .r12 .times8 0).build = some operand ∧
        decode ([] : List UInt8).length.succ (emitOptionalRex32 .r9 operand ++ 0x8B :: [] ++
          emitOperand Register.r9.lowBits operand ++ []) =
            some (⟨false, Register.r9.toNat, (AddressCall.withBaseIndex .r13 .r12 .times8 0).intended⟩, []) ∧
        decode ([] : List UInt8).length.succ (emitRex64 .r9 operand ++ 0x8B :: [] ++
          emitOperand Register.r9.lowBits operand ++ []) =
            some (⟨true, Register.r9.toNat, (AddressCall.withBaseIndex .r13 .r12 .times8 0).intended⟩, []) :=
  ⟨show Register.r12 ≠ .rsp by decide, by decide,
    address_operands_decode (.withBaseIndex .r13 .r12 .times8 0) (show Register.r12 ≠ .rsp by decide)
      .r9 (by decide) [] []⟩

end ArtRuntime.Compiler.X8664
