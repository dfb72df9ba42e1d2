import ArtRuntime.Compiler.Graph

/-! # Induction information

The classification `HInductionVarAnalysis` of
`compiler/optimizing/induction_var_analysis.h` gives an instruction of a loop,
and what the passes that use it read of it: `LookupInfo` and `LookupCycle`.

An induction is
* invariant: `a + b`, `a - b`, `-b`, `a * b`, `a / b`, `a % b`, `a ^ b`, or a
  fetch of an instruction;
* linear: `a * i + b`;
* polynomial: `sum_lt(a) + b` for a linear `a`;
* geometric: `a * fetch^i + b` or `a * fetch^-i + b`;
* wrap-around or periodic: `a`, then defined by `b`;
* a trip count, defined by `a`, with its taken test in `b`.

`InductionEqual` compares two infos structurally, fetches by identity; the
derived equality of the tree below, with a fetch named by the position of the
instruction, is that comparison. -/

namespace ArtRuntime.Compiler

/-- `HInductionVarAnalysis::InductionClass`. -/
inductive InductionClass
  | kInvariant | kLinear | kPolynomial | kGeometric | kWrapAround | kPeriodic
  deriving DecidableEq, Repr

/-- `HInductionVarAnalysis::InductionOp`. -/
inductive InductionOp
  | kNop | kAdd | kSub | kNeg | kMul | kDiv | kRem | kXor | kFetch
  | kTripCountInLoop | kTripCountInBody | kTripCountInLoopUnsafe | kTripCountInBodyUnsafe
  | kLT | kLE | kGT | kGE
  deriving DecidableEq, Repr

/-- A pointer to an `HInductionVarAnalysis::InductionInfo`: null, or an info
whose `op_a` and `op_b` are pointers again. -/
inductive InductionInfo
  | null
  | mk (inductionClass : InductionClass) (operation : InductionOp) (opA opB : InductionInfo)
      (fetch : Option Nat) (type : DataType)
  deriving DecidableEq, Repr

namespace InductionInfo

/-- `CreateInvariantFetch`. -/
def invariantFetch (instruction : Nat) (type : DataType) : InductionInfo :=
  mk .kInvariant .kFetch null null (some instruction) type

/-- `op_a`; a null info has none. -/
def opA : InductionInfo → InductionInfo
  | null => null
  | mk _ _ opA .. => opA

/-- The info is not null and of the invariant class. -/
def isInvariant : InductionInfo → Bool
  | mk .kInvariant .. => true
  | _ => false

end InductionInfo

/-- `InductionEqual`: two null infos are equal, a null one equals no other. -/
def inductionEqual (first second : InductionInfo) : Bool := first == second

/-- What the passes read of `HInductionVarAnalysis` for one loop: the info of
an instruction, and the instructions of the cycle of a header phi. -/
structure InductionAnalysis where
  lookupInfo : Nat → InductionInfo
  lookupCycle : Nat → List Nat

end ArtRuntime.Compiler
