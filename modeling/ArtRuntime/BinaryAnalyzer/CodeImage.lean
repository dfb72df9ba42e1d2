import ArtRuntime.Foundation.Inevitable

/-! # Native code images

What the binary analyzer of `runtime/binary_analyzer` sees of native code: at each
address the disassembler either fails or decodes an instruction of some length,
of which `AnalyzeInstruction` only looks at the prefix, the instruction id and
whether the first operand is an immediate. `InstructionKind` is that view.

The abstract execution runs such an image with a stack of return addresses:
direct branches and calls go to their targets, a call pushes the address after
it, and a `ret` pops it. The instructions the fast classifier must exclude
(interrupts, indirect transfers, invalid, locked or repeated instructions) have
no abstract step.
-/

namespace ArtRuntime.BinaryAnalyzer

open ArtRuntime.Foundation

/-- The view `AnalyzeInstruction` takes of a decoded instruction. -/
inductive InstructionKind
  | plain
  | conditionalBranch (target : Nat)
  | directJmp (target : Nat)
  | directCall (target : Nat)
  | ret
  | interrupt
  | indirectCall
  | indirectJump
  | invalid
  | lockPrefixed
  | repLoop
  deriving DecidableEq, Repr

/-- A decoded instruction; the disassembler never decodes an empty one. -/
structure DecodedInstruction where
  length : Nat
  kind : InstructionKind
  lengthPos : 0 < length
  deriving DecidableEq

/-- The instruction decoded at each address, `none` where decoding fails. -/
abbrev CodeImage := Nat → Option DecodedInstruction

/-- A point of the abstract execution: the program counter and the return
addresses of the calls in progress, innermost first. -/
structure ExecutionState where
  pc : Nat
  stack : List Nat
  deriving DecidableEq, Repr

/-- One move of the abstract execution. -/
inductive AbstractStep (code : CodeImage) : ExecutionState → ExecutionState → Prop
  | plain {pc : Nat} {stack : List Nat} {insn : DecodedInstruction} :
      code pc = some insn → insn.kind = .plain →
      AbstractStep code ⟨pc, stack⟩ ⟨pc + insn.length, stack⟩
  | branchTaken {pc target : Nat} {stack : List Nat} {insn : DecodedInstruction} :
      code pc = some insn → insn.kind = .conditionalBranch target →
      AbstractStep code ⟨pc, stack⟩ ⟨target, stack⟩
  | branchNotTaken {pc target : Nat} {stack : List Nat} {insn : DecodedInstruction} :
      code pc = some insn → insn.kind = .conditionalBranch target →
      AbstractStep code ⟨pc, stack⟩ ⟨pc + insn.length, stack⟩
  | jmp {pc target : Nat} {stack : List Nat} {insn : DecodedInstruction} :
      code pc = some insn → insn.kind = .directJmp target →
      AbstractStep code ⟨pc, stack⟩ ⟨target, stack⟩
  | call {pc target : Nat} {stack : List Nat} {insn : DecodedInstruction} :
      code pc = some insn → insn.kind = .directCall target →
      AbstractStep code ⟨pc, stack⟩ ⟨target, (pc + insn.length) :: stack⟩
  | ret {pc returnAddress : Nat} {stack : List Nat} {insn : DecodedInstruction} :
      code pc = some insn → insn.kind = .ret →
      AbstractStep code ⟨pc, returnAddress :: stack⟩ ⟨returnAddress, stack⟩

/-- The `ret` of the outermost function: the method returns to its caller. -/
def OutermostReturn (code : CodeImage) (state : ExecutionState) : Prop :=
  state.stack = [] ∧ ∃ insn, code state.pc = some insn ∧ insn.kind = .ret

/-- Every abstract execution from the entry of a method, with no call in
progress, ends at the method's own `ret`. -/
def AlwaysReturns (code : CodeImage) (entry : Nat) : Prop :=
  Inevitable (AbstractStep code) (OutermostReturn code) ⟨entry, []⟩

/-- A set of program points that holds no `ret` and from each of which the
abstract execution can move to another of its points, whatever the stack:
an execution from any of them never returns. -/
theorem not_alwaysReturns_of_trap (code : CodeImage) (points : Set Nat)
    (noReturn : ∀ pc ∈ points, ∀ insn, code pc = some insn → insn.kind ≠ .ret)
    (moves : ∀ pc ∈ points, ∀ stack, ∃ next : ExecutionState,
      next.pc ∈ points ∧ AbstractStep code ⟨pc, stack⟩ next)
    (entry : Nat) (entryMember : entry ∈ points) : ¬AlwaysReturns code entry := by
  unfold AlwaysReturns
  refine Inevitable.not_of_closed {state : ExecutionState | state.pc ∈ points} ?_ ?_ ⟨entry, []⟩
    entryMember
  · rintro state member ⟨-, insn, decoded, isReturn⟩
    exact noReturn state.pc member insn decoded isReturn
  · intro state member
    obtain ⟨next, nextMember, stepped⟩ := moves state.pc member state.stack
    exact ⟨next, nextMember, stepped⟩

end ArtRuntime.BinaryAnalyzer
