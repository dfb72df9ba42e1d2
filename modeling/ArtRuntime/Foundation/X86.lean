import ArtRuntime.Foundation.TwosComplement

/-! # The integer instructions of an x86 processor

A register machine for the general-purpose instructions code generators emit
for integer arithmetic: moves, `lea`, the logic and arithmetic instructions
with the flags they set, shifts, the one-operand signed multiply that leaves a
double-width product in `edx:eax`, conditional moves, and jumps forward to a
label bound later in the same sequence.

Registers are numbered as the encoding numbers them (`eax` or `rax` is 0,
`edx` or `rdx` is 2) and are `w` bits wide: 32 on x86, 64 on x86-64. An
instruction works on the low 32 bits or on all 64 bits of its registers; a
32-bit result written to a 64-bit register clears its upper half, also when a
32-bit `cmov` does not move. A flag the manual leaves undefined after an
instruction keeps its value. A taken jump skips the instructions up to the
`bind` of its label, which is how a sequence whose labels are all bound after
the jumps to them runs. -/

namespace ArtRuntime.Foundation.X86

open TwosComplement

/-- The operand size: `l` works on the low 32 bits of a register, `q` on 64. -/
inductive OperandSize
  | l | q
  deriving DecidableEq, Repr

@[reducible] def OperandSize.bits : OperandSize → Nat
  | l => 32
  | q => 64

@[simp] theorem OperandSize.bits_l : OperandSize.l.bits = 32 := rfl

@[simp] theorem OperandSize.bits_q : OperandSize.q.bits = 64 := rfl

theorem OperandSize.bits_pos (size : OperandSize) : 0 < size.bits := by cases size <;> decide

theorem OperandSize.two_le_bits (size : OperandSize) : 2 ≤ size.bits := by cases size <;> decide

/-- The status flags the conditions test. -/
structure Flags where
  cf : Bool
  zf : Bool
  sf : Bool
  of : Bool
  pf : Bool
  deriving DecidableEq, Repr

/-- An even number of set bits in the low byte. -/
def parity {n : Nat} (result : BitVec n) : Bool := (List.range 8).countP result.getLsbD % 2 == 0

/-- `and`, `or`, `xor` and `test` clear carry and overflow. -/
def logicFlags {n : Nat} (result : BitVec n) : Flags := ⟨false, decide (result = 0), result.msb, false, parity result⟩

def arithFlags {n : Nat} (result : BitVec n) (carry overflow : Bool) : Flags :=
  ⟨carry, decide (result = 0), result.msb, overflow, parity result⟩

/-- A shift by a nonzero count sets the carry to the last bit shifted out;
the overflow is defined for a count of one only. -/
def shiftFlags {n : Nat} (flags : Flags) (original result : BitVec n) (count : Nat) (overflowAtOne : Bool) :
    Flags :=
  if count = 0 then flags
  else ⟨original.getLsbD (count - 1), decide (result = 0), result.msb,
    if count = 1 then overflowAtOne else flags.of, parity result⟩

/-- Condition `cc` of the `tttn` field: bits 3 to 1 choose the test, bit 0
negates it. -/
def Flags.holds (flags : Flags) (cc : Nat) : Bool :=
  let test := match cc / 2 % 8 with
    | 0 => flags.of
    | 1 => flags.cf
    | 2 => flags.zf
    | 3 => flags.cf || flags.zf
    | 4 => flags.sf
    | 5 => flags.pf
    | 6 => flags.sf != flags.of
    | _ => flags.zf || flags.sf != flags.of
  test != (cc % 2 == 1)

/-- The instructions, registers and labels by number. -/
inductive Instruction
  | mov (size : OperandSize) (dst src : Nat)
  | movImm (size : OperandSize) (dst : Nat) (imm : Int)
  | lea (size : OperandSize) (dst base : Nat) (disp : Int)
  | add (size : OperandSize) (dst src : Nat)
  | sub (size : OperandSize) (dst src : Nat)
  | and (size : OperandSize) (dst src : Nat)
  | andImm (size : OperandSize) (dst : Nat) (imm : Int)
  | or (size : OperandSize) (dst src : Nat)
  | xor (size : OperandSize) (dst src : Nat)
  | not (size : OperandSize) (dst : Nat)
  | neg (size : OperandSize) (dst : Nat)
  | test (size : OperandSize) (left right : Nat)
  | shr (size : OperandSize) (dst count : Nat)
  | sar (size : OperandSize) (dst count : Nat)
  /-- `edx:eax` gets the signed double-width product of `eax` and `src`. -/
  | imul (size : OperandSize) (src : Nat)
  /-- `dst` times a constant, truncated to the operand size. -/
  | imulImm (size : OperandSize) (dst : Nat) (imm : Int)
  | cmov (cc : Nat) (size : OperandSize) (dst src : Nat)
  | j (cc : Nat) (label : Nat)
  | jmp (label : Nat)
  | bind (label : Nat)
  deriving DecidableEq, Repr

/-- The registers an instruction writes. -/
def Instruction.writes : Instruction → List Nat
  | mov _ dst _ | movImm _ dst _ | lea _ dst _ _ | add _ dst _ | sub _ dst _ | and _ dst _
  | andImm _ dst _ | or _ dst _ | xor _ dst _ | not _ dst | neg _ dst | shr _ dst _ | sar _ dst _
  | imulImm _ dst _ | cmov _ _ dst _ => [dst]
  | imul _ _ => [2, 0]
  | test _ _ _ | j _ _ | jmp _ | bind _ => []

def Instruction.isJump : Instruction → Bool
  | j _ _ => true
  | jmp _ => true
  | _ => false

/-- The registers, the flags, and the label a taken jump is skipping to. -/
structure Machine (w : Nat) where
  regs : Nat → BitVec w
  flags : Flags
  skipping : Option Nat

namespace Machine

variable {w : Nat}

def read (m : Machine w) (size : OperandSize) (reg : Nat) : BitVec size.bits := (m.regs reg).setWidth size.bits

/-- A write of the operand size, zero-extended to the register. -/
def write (m : Machine w) (size : OperandSize) (reg : Nat) (value : BitVec size.bits) : Machine w :=
  { m with regs := Function.update m.regs reg (value.setWidth w) }

def setFlags (m : Machine w) (flags : Flags) : Machine w := { m with flags }

/-- The count of a shift, masked to five bits, six for a 64-bit operand. -/
def shiftCount (size : OperandSize) (count : Nat) : Nat := count % size.bits

/-- A signed multiply overflows when its product leaves the operand size. -/
def mulOverflow {n : Nat} (a b : BitVec n) : Bool := !decide (Fits n (a.toInt * b.toInt))

def execute (m : Machine w) : Instruction → Machine w
  | .mov size dst src => m.write size dst (m.read size src)
  | .movImm size dst imm => m.write size dst (BitVec.ofInt size.bits imm)
  | .lea size dst base disp => m.write size dst ((m.regs base + BitVec.ofInt w disp).setWidth size.bits)
  | .add size dst src =>
    let a := m.read size dst
    let b := m.read size src
    (m.write size dst (a + b)).setFlags (arithFlags (a + b) (a.uaddOverflow b) (a.saddOverflow b))
  | .sub size dst src =>
    let a := m.read size dst
    let b := m.read size src
    (m.write size dst (a - b)).setFlags (arithFlags (a - b) (a.usubOverflow b) (a.ssubOverflow b))
  | .and size dst src =>
    let result := m.read size dst &&& m.read size src
    (m.write size dst result).setFlags (logicFlags result)
  | .andImm size dst imm =>
    let result := m.read size dst &&& BitVec.ofInt size.bits imm
    (m.write size dst result).setFlags (logicFlags result)
  | .or size dst src =>
    let result := m.read size dst ||| m.read size src
    (m.write size dst result).setFlags (logicFlags result)
  | .xor size dst src =>
    let result := m.read size dst ^^^ m.read size src
    (m.write size dst result).setFlags (logicFlags result)
  | .not size dst => m.write size dst (~~~(m.read size dst))
  | .neg size dst =>
    let a := m.read size dst
    (m.write size dst (-a)).setFlags (arithFlags (-a) (a != 0) (a == BitVec.intMin _))
  | .test size left right => m.setFlags (logicFlags (m.read size left &&& m.read size right))
  | .shr size dst count =>
    let a := m.read size dst
    let n := shiftCount size count
    (m.write size dst (a >>> n)).setFlags (shiftFlags m.flags a (a >>> n) n a.msb)
  | .sar size dst count =>
    let a := m.read size dst
    let n := shiftCount size count
    (m.write size dst (a.sshiftRight n)).setFlags (shiftFlags m.flags a (a.sshiftRight n) n false)
  | .imul size src =>
    let a := m.read size 0
    let b := m.read size src
    ((m.write size 2 (mulHigh a b)).write size 0 (a * b)).setFlags
      { m.flags with cf := mulOverflow a b, of := mulOverflow a b }
  | .imulImm size dst imm =>
    let a := m.read size dst
    let b := BitVec.ofInt size.bits imm
    (m.write size dst (a * b)).setFlags { m.flags with cf := mulOverflow a b, of := mulOverflow a b }
  | .cmov cc size dst src => m.write size dst (if m.flags.holds cc then m.read size src else m.read size dst)
  | .j cc label => if m.flags.holds cc then { m with skipping := some label } else m
  | .jmp label => { m with skipping := some label }
  | .bind _ => m

/-- While running an instruction executes; while skipping, only the `bind` of
the awaited label does anything, and it resumes execution. -/
def step (m : Machine w) (instruction : Instruction) : Machine w :=
  match m.skipping with
  | none => m.execute instruction
  | some label => if instruction = .bind label then { m with skipping := none } else m

end Machine

def run {w : Nat} (code : List Instruction) (m : Machine w) : Machine w := code.foldl Machine.step m

/-! ## Reading back what an instruction writes -/

namespace Machine

variable {w : Nat} {m : Machine w}

@[simp] theorem flags_setFlags (flags : Flags) : (m.setFlags flags).flags = flags := rfl

@[simp] theorem skipping_setFlags (flags : Flags) : (m.setFlags flags).skipping = m.skipping := rfl

@[simp] theorem skipping_write (size : OperandSize) (reg : Nat) (value : BitVec size.bits) :
    (m.write size reg value).skipping = m.skipping := rfl

@[simp] theorem read_setFlags (flags : Flags) (size : OperandSize) (reg : Nat) :
    (m.setFlags flags).read size reg = m.read size reg := rfl

@[simp] theorem read_write_of_ne {reg other : Nat} (apart : other ≠ reg) (size size' : OperandSize)
    (value : BitVec size.bits) : (m.write size reg value).read size' other = m.read size' other := by
  simp [read, write, Function.update_of_ne apart]

theorem read_write_same (size size' : OperandSize) (reg : Nat) (value : BitVec size.bits)
    (narrow : size'.bits ≤ w) : (m.write size reg value).read size' reg = value.setWidth size'.bits := by
  simp only [read, write, Function.update_self]
  exact BitVec.setWidth_setWidth_of_le value narrow

@[simp] theorem read_write_self (size : OperandSize) (reg : Nat) (value : BitVec size.bits)
    (narrow : size.bits ≤ w) : (m.write size reg value).read size reg = value := by
  rw [read_write_same size size reg value narrow, BitVec.setWidth_eq]

theorem setWidth_read {size size' : OperandSize} (narrow : size.bits ≤ size'.bits) (reg : Nat) :
    (m.read size' reg).setWidth size.bits = m.read size reg :=
  BitVec.setWidth_setWidth_of_le _ narrow

theorem read_execute_lea {size : OperandSize} (narrow : size.bits ≤ w) (dst base : Nat) (disp : Int) :
    (m.execute (.lea size dst base disp)).read size dst = m.read size base + BitVec.ofInt size.bits disp := by
  simp only [execute, read_write_self _ _ _ narrow, BitVec.setWidth_add _ _ narrow,
    setWidth_ofInt_of_le narrow]
  rfl

theorem read_execute_neg {size : OperandSize} (narrow : size.bits ≤ w) (dst : Nat) :
    (m.execute (.neg size dst)).read size dst = -(m.read size dst) := by
  simp only [execute, read_setFlags, read_write_self _ _ _ narrow]

theorem shiftCount_of_lt {size : OperandSize} {count : Nat} (below : count < size.bits) :
    shiftCount size count = count := Nat.mod_eq_of_lt below

theorem toInt_read_imul (size : OperandSize) (narrow : size.bits ≤ w) (src : Nat) :
    ((m.execute (.imul size src)).read size 2).toInt =
      (m.read size 0).toInt * (m.read size src).toInt / 2 ^ size.bits := by
  simp only [execute, read_setFlags, read_write_of_ne (show (2 : Nat) ≠ 0 by decide),
    read_write_self _ _ _ narrow]
  exact toInt_mulHigh size.bits_pos _ _

theorem toInt_read_sar (size : OperandSize) (narrow : size.bits ≤ w) (dst : Nat) {count : Nat}
    (below : count < size.bits) :
    ((m.execute (.sar size dst count)).read size dst).toInt = (m.read size dst).toInt / 2 ^ count := by
  simp only [execute, read_setFlags, read_write_self _ _ _ narrow, shiftCount_of_lt below,
    BitVec.toInt_sshiftRight, Int.shiftRight_eq_div_pow]
  push_cast
  rfl

theorem step_of_running (running : m.skipping = none) (instruction : Instruction) :
    m.step instruction = m.execute instruction := by
  simp only [step, running]

theorem step_of_skipping {label : Nat} (skipping : m.skipping = some label) (instruction : Instruction) :
    m.step instruction = if instruction = .bind label then { m with skipping := none } else m := by
  simp only [step, skipping]

theorem regs_execute_of_not_mem {instruction : Instruction} {reg : Nat} (untouched : reg ∉ instruction.writes) :
    (m.execute instruction).regs reg = m.regs reg := by
  cases instruction
  case j cc label =>
    simp only [execute]
    split <;> rfl
  all_goals simp_all [execute, Instruction.writes, write, setFlags, Function.update_of_ne]

theorem skipping_execute {instruction : Instruction} (straight : instruction.isJump = false) :
    (m.execute instruction).skipping = m.skipping := by
  cases instruction <;> simp_all [execute, Instruction.isJump]

theorem resume_of_running (running : m.skipping = none) : { m with skipping := none } = m := by
  cases m
  simp_all

end Machine

/-! ## Runs -/

section Runs

variable {w : Nat}

@[simp] theorem run_nil (m : Machine w) : run [] m = m := rfl

theorem run_cons (instruction : Instruction) (code : List Instruction) (m : Machine w) :
    run (instruction :: code) m = run code (m.step instruction) := rfl

@[simp] theorem run_append (first second : List Instruction) (m : Machine w) :
    run (first ++ second) m = run second (run first m) := List.foldl_append

theorem run_cons_of_running {m : Machine w} (running : m.skipping = none) (instruction : Instruction)
    (code : List Instruction) : run (instruction :: code) m = run code (m.execute instruction) := by
  rw [run_cons, Machine.step_of_running running]

theorem run_of_straight {code : List Instruction} (straight : ∀ instruction ∈ code, instruction.isJump = false)
    {m : Machine w} (running : m.skipping = none) : run code m = code.foldl Machine.execute m := by
  induction code generalizing m with
  | nil => rfl
  | cons instruction rest ih =>
    have first := straight instruction List.mem_cons_self
    rw [run_cons_of_running running, List.foldl_cons,
      ih (fun other member => straight other (List.mem_cons_of_mem _ member))
        (by rw [Machine.skipping_execute first, running])]

theorem skipping_run_of_straight {code : List Instruction}
    (straight : ∀ instruction ∈ code, instruction.isJump = false) {m : Machine w} (running : m.skipping = none) :
    (run code m).skipping = none := by
  induction code generalizing m with
  | nil => exact running
  | cons instruction rest ih =>
    rw [run_cons_of_running running]
    exact ih (fun other member => straight other (List.mem_cons_of_mem _ member))
      (by rw [Machine.skipping_execute (straight instruction List.mem_cons_self), running])

theorem regs_run_of_not_mem {code : List Instruction} {reg : Nat}
    (untouched : ∀ instruction ∈ code, reg ∉ instruction.writes) (m : Machine w) :
    (run code m).regs reg = m.regs reg := by
  induction code generalizing m with
  | nil => rfl
  | cons instruction rest ih =>
    rw [run_cons, ih (fun other member => untouched other (List.mem_cons_of_mem _ member))]
    unfold Machine.step
    split
    · exact Machine.regs_execute_of_not_mem (untouched instruction List.mem_cons_self)
    · split <;> rfl

theorem read_run_of_not_mem {code : List Instruction} {reg : Nat}
    (untouched : ∀ instruction ∈ code, reg ∉ instruction.writes) (m : Machine w) (size : OperandSize) :
    (run code m).read size reg = m.read size reg := by
  simp only [Machine.read, regs_run_of_not_mem untouched]

theorem run_cons_of_skipping {m : Machine w} {label : Nat} (skipping : m.skipping = some label)
    {instruction : Instruction} (other : instruction ≠ .bind label) (code : List Instruction) :
    run (instruction :: code) m = run code m := by
  rw [run_cons, Machine.step_of_skipping skipping, if_neg other]

theorem run_bind_of_skipping {m : Machine w} {label : Nat} (skipping : m.skipping = some label)
    (code : List Instruction) : run (.bind label :: code) m = run code { m with skipping := none } := by
  rw [run_cons, Machine.step_of_skipping skipping, if_pos rfl]

/-- A taken jump passes over the code before the `bind` of its label and
resumes after it. -/
theorem run_skip {m : Machine w} {label : Nat} (skipping : m.skipping = some label) {skipped : List Instruction}
    (unbound : Instruction.bind label ∉ skipped) (rest : List Instruction) :
    run (skipped ++ .bind label :: rest) m = run rest { m with skipping := none } := by
  induction skipped with
  | nil => rw [List.nil_append, run_cons, Machine.step_of_skipping skipping, if_pos rfl]
  | cons instruction more ih =>
    have other : instruction ≠ .bind label := fun same => unbound (same ▸ List.mem_cons_self)
    rw [List.cons_append, run_cons, Machine.step_of_skipping skipping, if_neg other,
      ih (fun member => unbound (List.mem_cons_of_mem _ member))]

/-- The shape `j cc, entry; jmp exit; entry: block; exit:` of a block entered
on a condition: the block runs when the condition holds, and is passed over
otherwise. -/
theorem run_jumpOver {m : Machine w} (running : m.skipping = none) {cc entry exit : Nat} (labels : entry ≠ exit)
    {block : List Instruction} (straight : ∀ instruction ∈ block, instruction.isJump = false)
    (unbound : Instruction.bind exit ∉ block) (rest : List Instruction) :
    run (.j cc entry :: .jmp exit :: .bind entry :: (block ++ .bind exit :: rest)) m =
      run rest (if m.flags.holds cc then run block m else m) := by
  rw [run_cons_of_running running]
  by_cases holds : m.flags.holds cc
  · -- taken: `jmp exit` is skipped, and `entry` resumes into the block
    simp only [Machine.execute, holds, if_true]
    rw [run_cons_of_skipping rfl (by simp), run_bind_of_skipping rfl, Machine.resume_of_running running,
      run_append, run_cons_of_running (skipping_run_of_straight straight running)]
    rfl
  · -- not taken: `jmp exit` passes over the block
    simp only [Machine.execute, holds, Bool.false_eq_true, if_false]
    rw [run_cons_of_running running]
    simp only [Machine.execute]
    rw [run_cons_of_skipping rfl (by simpa using labels), run_skip rfl unbound, Machine.resume_of_running running]

end Runs

/-! ## The conditions after `test` -/

section Conditions

variable {n : Nat}

theorem holds_less_logicFlags (result : BitVec n) : (logicFlags result).holds 12 = decide (result.toInt < 0) := by
  simp [Flags.holds, logicFlags, BitVec.msb_eq_toInt]

theorem holds_greaterEqual_logicFlags (result : BitVec n) :
    (logicFlags result).holds 13 = decide (0 ≤ result.toInt) := by
  by_cases negative : result.toInt < 0
  · simp [Flags.holds, logicFlags, BitVec.msb_eq_toInt, negative, Int.not_le.mpr negative]
  · simp [Flags.holds, logicFlags, BitVec.msb_eq_toInt, negative, Int.not_lt.mp negative]

theorem holds_notEqual_logicFlags (result : BitVec n) : (logicFlags result).holds 5 = decide (result ≠ 0) := by
  simp [Flags.holds, logicFlags]

end Conditions

end ArtRuntime.Foundation.X86
