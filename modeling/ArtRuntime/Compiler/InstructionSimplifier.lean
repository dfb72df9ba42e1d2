import Mathlib
import ArtRuntime.Compiler.Graph

/-! # Rotations recognised by the instruction simplifier

`TryReplaceWithRotate` and its three patterns from
`compiler/optimizing/instruction_simplifier.cc`. An `Add`, `Or` or `Xor` whose
inputs are an unsigned right shift and a left shift of one value becomes a
rotation right by the distance of the unsigned shift, when the distances are
two constants whose sum is a multiple of the width, a distance and a multiple
of the width minus it, or a distance and its negation.

The two shifted halves share no bit unless the distance is a multiple of the
width. When it is, both halves are the whole value: their `Or` is the value,
as the rotation is, but their sum is twice the value and their `Xor` is zero.
`VisitShift` has already removed a shift by a constant multiple of the width
before the constant pattern can see it; the two register patterns see the
distance only at run time. -/

namespace ArtRuntime.Compiler

namespace InstructionSimplifier

open HInstruction

/-- The unsigned right shift and the left shift that are the inputs of the
operation, in either order: the type, shifted input and distance of each. -/
structure RotateHalves where
  ushrType : DataType
  ushrValue : Nat
  ushrDistance : Nat
  shlType : DataType
  shlValue : Nat
  shlDistance : Nat
  deriving DecidableEq, Repr

def rotateHalves (graph : List HInstruction) (left right : Nat) : Option RotateHalves :=
  match instructionAt graph left, instructionAt graph right with
  | .ushr ushrType ushrValue ushrDistance, .shl shlType shlValue shlDistance
  | .shl shlType shlValue shlDistance, .ushr ushrType ushrValue ushrDistance =>
      some ⟨ushrType, ushrValue, ushrDistance, shlType, shlValue, shlDistance⟩
  | _, _ => none

/-- `reg_bits`, the width of the unsigned shift's type. -/
def regBits (halves : RotateHalves) : Nat := halves.ushrType.size * 8

/-- `ReplaceRotateWithRor`: the rotation of the unsigned shift's input by its
distance takes the place of the operation. The shifts and distances left
without uses are removed in the source; here they stay, and no value reads
them. -/
def replaceRotateWithRor (graph : List HInstruction) (op : Nat) (halves : RotateHalves) :
    List HInstruction :=
  replaceInstruction graph op (.ror halves.ushrType halves.ushrValue halves.ushrDistance)

/-- A constant as the source converts it to `size_t`. -/
def sizeOfConstant (constant : HInstruction) : Nat :=
  (constant.int64FromConstant % 2 ^ 64).toNat

def tryReplaceWithRotateConstantPattern (graph : List HInstruction) (op : Nat)
    (halves : RotateHalves) : Bool × List HInstruction :=
  let rdist := sizeOfConstant (instructionAt graph halves.ushrDistance)
  let ldist := sizeOfConstant (instructionAt graph halves.shlDistance)
  if (ldist + rdist) % 2 ^ 64 &&& (regBits halves - 1) = 0 then
    (true, replaceRotateWithRor graph op halves)
  else (false, graph)

/-- `IsSubRegBitsMinusOther`: the subtraction is a constant multiple of the
width minus the other distance. -/
def isSubRegBitsMinusOther (graph : List HInstruction) (sub regBits other : Nat) : Bool :=
  match instructionAt graph sub with
  | .sub _ left right =>
      right == other && (instructionAt graph left).isConstant &&
        sizeOfConstant (instructionAt graph left) &&& (regBits - 1) == 0
  | _ => false

def tryReplaceWithRotateRegisterSubPattern (graph : List HInstruction) (op : Nat)
    (halves : RotateHalves) : Bool × List HInstruction :=
  let shlShift := halves.shlDistance
  let ushrShift := halves.ushrDistance
  if ((instructionAt graph shlShift).isSub &&
        isSubRegBitsMinusOther graph shlShift (regBits halves) ushrShift) ||
      ((instructionAt graph ushrShift).isSub &&
        isSubRegBitsMinusOther graph ushrShift (regBits halves) shlShift) then
    (true, replaceRotateWithRor graph op halves)
  else (false, graph)

/-- The negated-register pattern replaces the operation but, as in the source,
reports that it did not. -/
def tryReplaceWithRotateRegisterNegPattern (graph : List HInstruction) (op : Nat)
    (halves : RotateHalves) : Bool × List HInstruction :=
  let negIsLeft := (instructionAt graph halves.shlDistance).isNeg
  let neg := if negIsLeft then halves.shlDistance else halves.ushrDistance
  let other := if negIsLeft then halves.ushrDistance else halves.shlDistance
  match instructionAt graph neg with
  | .neg _ input =>
      if input = other then (false, replaceRotateWithRor graph op halves) else (false, graph)
  | _ => (false, graph)

/-- `TryReplaceWithRotate` on the instruction at `op`: whether it reported a
rewrite, and the graph after it. -/
def tryReplaceWithRotate (graph : List HInstruction) (op : Nat) : Bool × List HInstruction :=
  match instructionAt graph op with
  | .add _ left right | .or _ left right | .xor _ left right =>
      match rotateHalves graph left right with
      | some halves =>
          if halves.ushrType = halves.shlType ∧ halves.ushrValue = halves.shlValue then
            let ushrShift := instructionAt graph halves.ushrDistance
            let shlShift := instructionAt graph halves.shlDistance
            if ushrShift.isConstant && shlShift.isConstant then
              tryReplaceWithRotateConstantPattern graph op halves
            else if ushrShift.isSub || shlShift.isSub then
              tryReplaceWithRotateRegisterSubPattern graph op halves
            else if ushrShift.isNeg || shlShift.isNeg then
              tryReplaceWithRotateRegisterNegPattern graph op halves
            else (false, graph)
          else (false, graph)
      | none => (false, graph)
  | _ => (false, graph)

/-! ## A distance that is a multiple of the width -/

/-- The graph of `(x >>> d) op (x << -d)` on the method's `int` arguments `x`
and `d`, with the operation at position five. -/
def negatedDistanceRotation (combine : DataType → Nat → Nat → HInstruction) : List HInstruction :=
  [.parameterValue 0, .parameterValue 1, .ushr .kInt32 0 1, .neg .kInt32 1, .shl .kInt32 0 3,
    combine .kInt32 2 4]

/-- The arguments `x` and `d` of the method. -/
def rotationArguments (x distance : BitVec 32) : Nat → Value :=
  fun index => if index = 0 then .int x else .int distance

/-- The values of the graph: the two arguments, the two shifts and the
negated distance, then the operation on them. -/
theorem evaluateGraph_negatedDistanceRotation (combine : DataType → Nat → Nat → HInstruction)
    (x distance : BitVec 32) :
    evaluateGraph (rotationArguments x distance) (negatedDistanceRotation combine) =
      let before := [.int x, .int distance, .int (x >>> (distance.toNat % 32)), .int (-distance),
        .int (x <<< ((-distance).toNat % 32))]
      before ++ [(combine .kInt32 2 4).evaluate (rotationArguments x distance) before] :=
  rfl

theorem valueAt_negatedDistanceRotation (combine : DataType → Nat → Nat → HInstruction)
    (x distance : BitVec 32) :
    valueAt (rotationArguments x distance) (negatedDistanceRotation combine) 5 =
      (combine .kInt32 2 4).evaluate (rotationArguments x distance)
        [.int x, .int distance, .int (x >>> (distance.toNat % 32)), .int (-distance),
          .int (x <<< ((-distance).toNat % 32))] := by
  rw [valueAt, evaluateGraph_negatedDistanceRotation]
  rfl

theorem tryReplaceWithRotate_negatedDistanceRotation {combine : DataType → Nat → Nat → HInstruction}
    (operation : combine = .add ∨ combine = .or ∨ combine = .xor) :
    (tryReplaceWithRotate (negatedDistanceRotation combine) 5).2 =
      negatedDistanceRotation fun _ _ _ => .ror .kInt32 0 1 := by
  rcases operation with rfl | rfl | rfl <;> rfl

theorem valueAt_rotateRight_negatedDistanceRotation (x distance : BitVec 32) :
    valueAt (rotationArguments x distance) (negatedDistanceRotation fun _ _ _ => .ror .kInt32 0 1) 5 =
      .int (x.rotateRight (distance.toNat % 32)) :=
  valueAt_negatedDistanceRotation _ x distance

theorem neg_toNat_mod_of_multiple {distance : BitVec 32} (multiple : distance.toNat % 32 = 0) :
    (-distance).toNat % 32 = 0 := by
  have bounded := distance.isLt
  rw [BitVec.toNat_neg]
  omega

/-- With a distance that is a multiple of the width, `(x >>> d) + (x << -d)` is
`x + x` and `(x >>> d) ^ (x << -d)` is zero, but the rotation that replaces
either is `x`. -/
theorem tryReplaceWithRotate_add_xor_of_multiple (x distance : BitVec 32)
    (multiple : distance.toNat % 32 = 0) :
    valueAt (rotationArguments x distance) (negatedDistanceRotation .add) 5 = .int (x + x) ∧
    valueAt (rotationArguments x distance) (negatedDistanceRotation .xor) 5 = .int 0 ∧
    valueAt (rotationArguments x distance)
      (tryReplaceWithRotate (negatedDistanceRotation .add) 5).2 5 = .int x ∧
    valueAt (rotationArguments x distance)
      (tryReplaceWithRotate (negatedDistanceRotation .xor) 5).2 5 = .int x := by
  have unsigned : x >>> (distance.toNat % 32) = x := by rw [multiple, BitVec.ushiftRight_zero]
  have signed : x <<< ((-distance).toNat % 32) = x := by
    rw [neg_toNat_mod_of_multiple multiple, BitVec.shiftLeft_zero]
  have rotated : x.rotateRight (distance.toNat % 32) = x := by
    simp [multiple, BitVec.rotateRight_def]
  refine ⟨?_, ?_, ?_, ?_⟩
  · rw [valueAt_negatedDistanceRotation, unsigned, signed]
    rfl
  · rw [valueAt_negatedDistanceRotation, unsigned, signed]
    simp [HInstruction.evaluate, Value.binary]
  · rw [tryReplaceWithRotate_negatedDistanceRotation (.inl rfl),
      valueAt_rotateRight_negatedDistanceRotation, rotated]
  · rw [tryReplaceWithRotate_negatedDistanceRotation (.inr (.inr rfl)),
      valueAt_rotateRight_negatedDistanceRotation, rotated]

/-- At `x = 1` and `d = 0` the method returns 2 from the sum and 0 from the
exclusive or; the compiled code returns 1 from both. -/
theorem tryReplaceWithRotate_add_xor_at_zero :
    (0 : BitVec 32).toNat % 32 = 0 ∧
    valueAt (rotationArguments 1 0) (negatedDistanceRotation .add) 5 = .int (1 + 1) ∧
    valueAt (rotationArguments 1 0) (negatedDistanceRotation .xor) 5 = .int 0 ∧
    valueAt (rotationArguments 1 0) (tryReplaceWithRotate (negatedDistanceRotation .add) 5).2 5 = .int 1 ∧
    valueAt (rotationArguments 1 0) (tryReplaceWithRotate (negatedDistanceRotation .xor) 5).2 5 = .int 1 :=
  ⟨rfl, tryReplaceWithRotate_add_xor_of_multiple 1 0 rfl⟩

end InstructionSimplifier

end ArtRuntime.Compiler
