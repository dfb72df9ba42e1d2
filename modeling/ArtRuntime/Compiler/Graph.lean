import ArtRuntime.Compiler.Location
import Mathlib.Data.List.Basic

/-! # Straight-line graphs of integral instructions

The part of `compiler/optimizing/nodes.h` that the arithmetic rewrites of the
instruction simplifier read: instructions over `int` and `long` values whose
inputs are earlier instructions of the graph, named by their position. Two
inputs are the same instruction when their positions are equal, as the
simplifier compares `HInstruction*` pointers.

Values follow Java: arithmetic wraps around, and a shift or rotation by `d`
moves the bits by `d` modulo the width of the value, which is what masking the
distance with 31 or 63 does. -/

namespace ArtRuntime.Compiler

/-- An `int` or a `long`. -/
inductive Value
  | int (bits : BitVec 32)
  | long (bits : BitVec 64)
  deriving DecidableEq, Repr

instance : Inhabited Value := ⟨.int 0⟩

namespace Value

/-- A binary operation of Java on two values of the same type. -/
def binary (intOperation : BitVec 32 → BitVec 32 → BitVec 32)
    (longOperation : BitVec 64 → BitVec 64 → BitVec 64) : Value → Value → Value
  | int left, int right => int (intOperation left right)
  | long left, long right => long (longOperation left right)
  | _, _ => default

/-- A shift or rotation of Java: the value moved by an `int` distance, taken
modulo the width. -/
def shift (operation : {width : Nat} → BitVec width → Nat → BitVec width) : Value → Value → Value
  | int value, int distance => int (operation value (distance.toNat % 32))
  | long value, int distance => long (operation value (distance.toNat % 64))
  | _, _ => default

def negate : Value → Value
  | int value => int (-value)
  | long value => long (-value)

end Value

/-- The instructions of a graph that the rotate rewrites read or create; every
input is the position of an earlier instruction. -/
inductive HInstruction
  | parameterValue (index : Nat)
  | intConstant (value : BitVec 32)
  | longConstant (value : BitVec 64)
  | add (type : DataType) (left right : Nat)
  | sub (type : DataType) (left right : Nat)
  | mul (type : DataType) (left right : Nat)
  | or (type : DataType) (left right : Nat)
  | xor (type : DataType) (left right : Nat)
  | shl (type : DataType) (left right : Nat)
  | ushr (type : DataType) (left right : Nat)
  | ror (type : DataType) (left right : Nat)
  | neg (type : DataType) (input : Nat)
  deriving DecidableEq, Repr

namespace HInstruction

/-- `HInstruction::IsConstant` on the integral constants. -/
def isConstant : HInstruction → Bool
  | intConstant _ | longConstant _ => true
  | _ => false

def isAdd : HInstruction → Bool
  | add .. => true
  | _ => false

def isSub : HInstruction → Bool
  | sub .. => true
  | _ => false

def isNeg : HInstruction → Bool
  | neg .. => true
  | _ => false

/-- `Int64FromConstant`: the value of an integral constant, sign-extended. -/
def int64FromConstant : HInstruction → Int
  | intConstant value => value.toInt
  | longConstant value => value.toInt
  | _ => 0

/-- The value of the instruction, given the values of the method's arguments and
of the instructions before it. -/
def evaluate (arguments : Nat → Value) (values : List Value) : HInstruction → Value
  | parameterValue index => arguments index
  | intConstant value => .int value
  | longConstant value => .long value
  | add _ left right => Value.binary (· + ·) (· + ·) (values.getD left default) (values.getD right default)
  | sub _ left right => Value.binary (· - ·) (· - ·) (values.getD left default) (values.getD right default)
  | mul _ left right => Value.binary (· * ·) (· * ·) (values.getD left default) (values.getD right default)
  | or _ left right => Value.binary (· ||| ·) (· ||| ·) (values.getD left default) (values.getD right default)
  | xor _ left right => Value.binary (· ^^^ ·) (· ^^^ ·) (values.getD left default) (values.getD right default)
  | shl _ left right =>
      Value.shift (fun value distance => value <<< distance) (values.getD left default) (values.getD right default)
  | ushr _ left right =>
      Value.shift (fun value distance => value >>> distance) (values.getD left default) (values.getD right default)
  | ror _ left right =>
      Value.shift (fun value distance => value.rotateRight distance) (values.getD left default)
        (values.getD right default)
  | neg _ input => (values.getD input default).negate

end HInstruction

/-- One more instruction evaluated after the ones before it. -/
def evaluateStep (arguments : Nat → Value) (values : List Value) (instruction : HInstruction) :
    List Value :=
  values ++ [instruction.evaluate arguments values]

/-- The values of all the instructions of the graph, in order. -/
def evaluateGraph (arguments : Nat → Value) (graph : List HInstruction) : List Value :=
  graph.foldl (evaluateStep arguments) []

/-- The instruction at a position; a position past the end reads a parameter,
which no rewrite matches. -/
def instructionAt (graph : List HInstruction) (index : Nat) : HInstruction :=
  graph.getD index (.parameterValue 0)

/-- `ReplaceAndRemoveInstructionWith`: the instruction at `index` replaced, so
that its uses read the replacement. -/
def replaceInstruction (graph : List HInstruction) (index : Nat) (replacement : HInstruction) :
    List HInstruction :=
  graph.set index replacement

/-- The value of the instruction at a position. -/
def valueAt (arguments : Nat → Value) (graph : List HInstruction) (index : Nat) : Value :=
  (evaluateGraph arguments graph).getD index default

/-! ## Evaluating a graph position by position -/

end ArtRuntime.Compiler
