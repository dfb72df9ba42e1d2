import ArtRuntime.Compiler.InductionVarAnalysis

/-! # Strength reduction of derived induction variables

`InductionVarSimplification::SimplifyLoop` of
`compiler/optimizing/iv_simplifier.cc`. For a header phi `i` of an inner loop
that its cycle steps by an addition of a constant `c`, the pass collects
derived variables as triples `(var, k, b)`, read `k * var + b`: a
multiplication of `i` by a constant `k` is `(i, k, 0)`, and an addition or
subtraction of a constant to an earlier candidate `v` is `(v, 1, ±c)`. Every
triple over another candidate is then composed with that candidate's triple,
in the order of the candidate map, and each derived variable `d` of triple
`(i, k, b)` is replaced by a new phi that starts at `init * k + b` and is
advanced by `c * k` next to the basic increment.

The candidate map is keyed by instruction pointers; the model keys it by
position, so that it visits the instructions in the order of the graph. The
constant of a subtraction is negated when its candidate is found, and the
composition then subtracts the offset of the variable from it: the triple of
`v - c` for `v = k * i + b` gets the offset `-c - b`, where `b - c` is the
value. -/

namespace ArtRuntime.Compiler

/-- A phi of a loop header with its inputs. The phi is the instruction
`.parameterValue position` of the graph: its value in an iteration comes with
the arguments of that iteration. -/
structure HeaderPhi where
  position : Nat
  inputs : List Nat
  deriving DecidableEq, Repr

/-- An inner loop as the pass reads it. The instructions before `header` are
outside the loop; `condition` holds the inputs of the condition that the `If`
ending the header tests; `blocks` lists the instructions of the loop's blocks
in the order the pass visits them. -/
structure Loop where
  graph : List HInstruction
  header : Nat
  phis : List HeaderPhi
  condition : Option (Nat × Nat)
  blocks : List Nat

namespace Loop

/-- `GetOutOfLoopInput`: the first input of the phi defined outside the loop. -/
def getOutOfLoopInput (loop : Loop) (phi : HeaderPhi) : Option Nat :=
  phi.inputs.find? (· < loop.header)

def backEdgeInput (loop : Loop) (phi : HeaderPhi) : Option Nat :=
  phi.inputs.find? (loop.header ≤ ·)

/-- The arguments of an iteration: a header phi reads its value in the
iteration, any other parameter the method's argument. -/
def iterationArguments (loop : Loop) (arguments phiValues : Nat → Value) : Nat → Value :=
  fun index => if loop.phis.any (·.position == index) then phiValues index else arguments index

/-- The values of the header phis at the start of iteration `n`: the value of
the input from outside the loop, then the value of the back edge's input in
the iteration before. -/
def phiValues (loop : Loop) (arguments : Nat → Value) : Nat → Nat → Value
  | 0, position =>
      match loop.phis.find? (·.position == position) with
      | some phi => valueAt arguments loop.graph ((loop.getOutOfLoopInput phi).getD 0)
      | none => default
  | n + 1, position =>
      match loop.phis.find? (·.position == position) with
      | some phi =>
          valueAt (loop.iterationArguments arguments (loop.phiValues arguments n)) loop.graph
            ((loop.backEdgeInput phi).getD 0)
      | none => default

/-- The value of an instruction in iteration `n`. -/
def valueIn (loop : Loop) (arguments : Nat → Value) (n position : Nat) : Value :=
  valueAt (loop.iterationArguments arguments (loop.phiValues arguments n)) loop.graph position

end Loop

namespace IvSimplifier

/-- `GetConstant` for an integral type: a `long` keeps its value, any other
type gets the `int` constant of the low 32 bits. -/
def getConstant (type : DataType) (value : Int) : Int :=
  if type = .kInt64 then (BitVec.ofInt 64 value).toInt else (BitVec.ofInt 32 value).toInt

/-- The constant as a value of its type. -/
def constantValue (type : DataType) (value : Int) : Value :=
  if type = .kInt64 then .long (BitVec.ofInt 64 value) else .int (BitVec.ofInt 32 value)

@[simp] theorem constantValue_kInt32 (value : Int) :
    constantValue .kInt32 value = .int (BitVec.ofInt 32 value) :=
  rfl

inductive InstructionKind
  | kAdd | kSub | kMul
  deriving DecidableEq, Repr

/-- `GetNewConstant` on integral constants of the given type. -/
def getNewConstant (kind : InstructionKind) (type : DataType) (first second : Int) : Int :=
  getConstant type <|
    match kind with
    | .kAdd => first + second
    | .kSub => first - second
    | .kMul => first * second

/-- `GetNegativeConstant` on an integral constant. -/
def getNegativeConstant (type : DataType) (value : Int) : Int := getConstant type (-1 * value)

/-- `HBinaryOperation::GetConstantRight`: the constant input, on either side of
a commutative operation, on the right of a subtraction. -/
def getConstantRight (graph : List HInstruction) : HInstruction → Option Nat
  | .add _ left right | .mul _ left right =>
      if (instructionAt graph right).isConstant then some right
      else if (instructionAt graph left).isConstant then some left
      else none
  | .sub _ _ right => if (instructionAt graph right).isConstant then some right else none
  | _ => none

/-- The type of an addition, subtraction or multiplication. -/
def operationType : HInstruction → DataType
  | .add type .. | .sub type .. | .mul type .. => type
  | _ => .kInt32

/-- The triple `(var, k, b)` of a derived variable, `k * var + b`, with the
constants held by value. -/
structure Triple where
  var : Nat
  factor : Int
  offset : Int
  deriving DecidableEq, Repr

instance : Inhabited Triple := ⟨⟨0, 0, 0⟩⟩

/-- `std::map::insert` into the candidate map, kept in the order of its keys: a
key already there keeps its triple. -/
def insertCandidate (key : Nat) (triple : Triple) : List (Nat × Triple) → List (Nat × Triple)
  | [] => [(key, triple)]
  | (other, value) :: rest =>
      if key < other then (key, triple) :: (other, value) :: rest
      else if key = other then (other, value) :: rest
      else (other, value) :: insertCandidate key triple rest

/-- `candidate[key] = triple` for a key of the map. -/
def setCandidate (key : Nat) (triple : Triple) (candidate : List (Nat × Triple)) :
    List (Nat × Triple) :=
  candidate.map fun entry => if entry.1 = key then (key, triple) else entry

/-- `candidate[key]` for a key of the map. -/
def lookupCandidate (candidate : List (Nat × Triple)) (key : Nat) : Triple :=
  (candidate.lookup key).getD default

/-- `IsCandidatePhi`: the basic increment, the first addition of a constant in
the cycle of the phi, when the phi has two inputs and the condition of the
header tests an induction equal to it. -/
def isCandidatePhi (loop : Loop) (analysis : InductionAnalysis) (phi : HeaderPhi) : Option Nat :=
  if phi.inputs.length ≠ 2 then none
  else
    match loop.condition with
    | none => none
    | some (first, second) =>
        let phiInfo := analysis.lookupInfo phi.position
        if inductionEqual (analysis.lookupInfo first) phiInfo ||
            inductionEqual (analysis.lookupInfo second) phiInfo then
          (analysis.lookupCycle phi.position).find? fun instruction =>
            (instructionAt loop.graph instruction).isAdd &&
              (getConstantRight loop.graph (instructionAt loop.graph instruction)).isSome
        else none

/-- The addition and subtraction branch of `IsCandidateForReduction`: when
neither input is the basic induction, the first candidate in key order whose
info is that of one input, the other input being invariant, becomes the
variable of the new triple. -/
def candidateForAddSub (analysis : InductionAnalysis) (biv : Nat) (candidate : List (Nat × Triple))
    (toCheck : Nat) (type : DataType) (left right : Nat) (cst : Int) : List (Nat × Triple) :=
  let info := analysis.lookupInfo
  if !inductionEqual (info left) (info biv) && !inductionEqual (info right) (info biv) then
    match candidate.find? fun entry =>
        (inductionEqual (info left) (info entry.1) && (info right).isInvariant) ||
          (inductionEqual (info right) (info entry.1) && (info left).isInvariant) with
    | some (key, _) => insertCandidate toCheck ⟨key, getConstant type 1, cst⟩ candidate
    | none => candidate
  else candidate

/-- `IsCandidateForReduction`: the candidate map after visiting `toCheck`. -/
def isCandidateForReduction (loop : Loop) (analysis : InductionAnalysis) (biv : Nat)
    (candidate : List (Nat × Triple)) (toCheck : Nat) : List (Nat × Triple) :=
  let info := analysis.lookupInfo
  let instruction := instructionAt loop.graph toCheck
  let constantAt (position : Nat) := (instructionAt loop.graph position).int64FromConstant
  if info toCheck = .null then candidate
  else
    match instruction, getConstantRight loop.graph instruction with
    | .mul type left right, some cst =>
        if inductionEqual (info biv) (info left) && (info right).isInvariant then
          insertCandidate toCheck ⟨biv, constantAt cst, getConstant type 0⟩ candidate
        else if inductionEqual (info biv) (info right) && (info left).isInvariant then
          insertCandidate toCheck ⟨biv, constantAt cst, getConstant type 0⟩ candidate
        else candidate
    | .add type left right, some cst =>
        candidateForAddSub analysis biv candidate toCheck type left right (constantAt cst)
    | .sub type left right, some cst =>
        candidateForAddSub analysis biv candidate toCheck type left right
          (getNegativeConstant type (constantAt cst))
    | _, _ => candidate

/-- The composition loop of `SimplifyLoop`: in key order, a triple over another
candidate takes over that candidate's variable, its factor or its offset
combined by the kind of the derived variable. -/
def composeCandidates (loop : Loop) (phi : Nat) (candidate : List (Nat × Triple)) :
    List (Nat × Triple) :=
  candidate.foldl (fun map entry =>
    let derivedVar := entry.1
    let val := lookupCandidate map derivedVar
    if val.var ≠ phi then
      let parent := lookupCandidate map val.var
      match instructionAt loop.graph derivedVar with
      | .add type .. =>
          setCandidate derivedVar
            ⟨parent.var, parent.factor, getNewConstant .kAdd type val.offset parent.offset⟩ map
      | .sub type .. =>
          setCandidate derivedVar
            ⟨parent.var, parent.factor, getNewConstant .kSub type val.offset parent.offset⟩ map
      | .mul type .. =>
          setCandidate derivedVar
            ⟨parent.var, getNewConstant .kMul type val.offset parent.factor,
              getNewConstant .kMul type val.offset parent.offset⟩ map
      | _ => map
    else map) candidate

/-- A call of `PerformReduction`: the derived variable, its triple, and the
basic increment next to which the new phi is advanced. -/
structure Reduction where
  derivedVar : Nat
  triple : Triple
  increment : Nat
  deriving DecidableEq, Repr

/-- One header phi of `SimplifyLoop`: collect, compose and reduce when the phi
is a candidate; then the candidate map is cleared, but only the first time it
is found not empty. -/
def simplifyPhi (loop : Loop) (analysis : InductionAnalysis)
    (state : Bool × List (Nat × Triple) × List Reduction) (phi : HeaderPhi) :
    Bool × List (Nat × Triple) × List Reduction :=
  let (didReduction, candidate, performed) := state
  let (candidate, performed) :=
    match isCandidatePhi loop analysis phi with
    | some increment =>
        let found := loop.blocks.foldl (isCandidateForReduction loop analysis phi.position) candidate
        let composed := composeCandidates loop phi.position found
        (composed, performed ++ composed.map fun (entry : Nat × Triple) => Reduction.mk entry.1 entry.2 increment)
    | none => (candidate, performed)
  if !didReduction && !candidate.isEmpty then (true, [], performed)
  else (didReduction, candidate, performed)

/-- `SimplifyLoop`: whether it reports a reduction, and the reductions it performs. -/
def simplifyLoop (loop : Loop) (analysis : InductionAnalysis) : Bool × List Reduction :=
  let (didReduction, _, performed) := loop.phis.foldl (simplifyPhi loop analysis) (false, [], [])
  (didReduction, performed)

/-- The value, at the start of iteration `n`, of the phi that `PerformReduction`
creates: `input * k + b` from the preheader, then the phi plus the constant
`c * k` from the back edge, with `c` the constant of the basic increment. -/
def reducedValue (loop : Loop) (arguments : Nat → Value) (reduction : Reduction) : Nat → Value
  | 0 =>
      let type := operationType (instructionAt loop.graph reduction.derivedVar)
      Value.binary (· + ·) (· + ·)
        (Value.binary (· * ·) (· * ·) (loop.phiValues arguments 0 reduction.triple.var)
          (constantValue type reduction.triple.factor))
        (constantValue type reduction.triple.offset)
  | n + 1 =>
      let increment := instructionAt loop.graph reduction.increment
      let type := operationType increment
      let stride := ((getConstantRight loop.graph increment).map fun position =>
        (instructionAt loop.graph position).int64FromConstant).getD 0
      Value.binary (· + ·) (· + ·) (reducedValue loop arguments reduction n)
        (constantValue type (getNewConstant .kMul type stride reduction.triple.factor))

/-! ## A subtraction after an addition -/

/-- `for (i = init; i < bound; i++) { v = i * 3; w = v + 5; d = w - 2; }`, with
`init` and `bound` the arguments of the method: `d` is `3 * i + 3`. -/
def strideLoop : Loop where
  graph := [.parameterValue 0, .parameterValue 1, .intConstant 1, .intConstant 3, .intConstant 5,
    .intConstant 2, .parameterValue 6, .mul .kInt32 6 3, .add .kInt32 7 4, .sub .kInt32 8 5,
    .add .kInt32 6 2]
  header := 6
  phis := [⟨6, [0, 10]⟩]
  condition := some (6, 1)
  blocks := [7, 8, 9, 10]

def loopArguments (init bound : BitVec 32) : Nat → Value :=
  fun index => if index = 0 then .int init else .int bound

/-- What the analysis finds in the loop: `i`, `v`, `w` and `d` are inductions
that are not invariant, and those of `i`, `v` and `w` differ; the constants
are invariant; the cycle of `i` is the phi and its increment. -/
structure ClassifiesStrideLoop (analysis : InductionAnalysis) : Prop where
  variant : ∀ position ∈ [6, 7, 8, 9], (analysis.lookupInfo position).isInvariant = false
  notNull : analysis.lookupInfo 7 ≠ .null ∧ analysis.lookupInfo 8 ≠ .null ∧
    analysis.lookupInfo 9 ≠ .null
  constants : ∀ position ∈ [3, 4, 5], (analysis.lookupInfo position).isInvariant = true
  distinct : analysis.lookupInfo 6 ≠ analysis.lookupInfo 7 ∧
    analysis.lookupInfo 6 ≠ analysis.lookupInfo 8 ∧ analysis.lookupInfo 7 ≠ analysis.lookupInfo 8
  cycle : analysis.lookupCycle 6 = [6, 10]

theorem ne_of_isInvariant {first second : InductionInfo} (invariant : first.isInvariant = true)
    (variant : second.isInvariant = false) : first ≠ second := by
  rintro rfl
  rw [invariant] at variant
  exact Bool.noConfusion variant

section ClassifiedStrideLoop

variable {analysis : InductionAnalysis} (classified : ClassifiesStrideLoop analysis)
include classified

theorem isCandidatePhi_strideLoop : isCandidatePhi strideLoop analysis ⟨6, [0, 10]⟩ = some 10 := by
  simp [isCandidatePhi, strideLoop, classified.cycle, inductionEqual, instructionAt,
    HInstruction.isAdd, getConstantRight, HInstruction.isConstant]

theorem isCandidateForReduction_strideLoop_mul :
    isCandidateForReduction strideLoop analysis 6 [] 7 = [(7, ⟨6, 3, 0⟩)] := by
  have constant : (analysis.lookupInfo 3).isInvariant = true := classified.constants 3 (by simp)
  simp [isCandidateForReduction, strideLoop, instructionAt, getConstantRight, classified.notNull.1,
    HInstruction.isConstant, inductionEqual, constant, insertCandidate, getConstant,
    HInstruction.int64FromConstant]

theorem isCandidateForReduction_strideLoop_add :
    isCandidateForReduction strideLoop analysis 6 [(7, ⟨6, 3, 0⟩)] 8 =
      [(7, ⟨6, 3, 0⟩), (8, ⟨7, 1, 5⟩)] := by
  have constant : (analysis.lookupInfo 4).isInvariant = true := classified.constants 4 (by simp)
  have apart : analysis.lookupInfo 4 ≠ analysis.lookupInfo 6 :=
    ne_of_isInvariant constant (classified.variant 6 (by simp))
  simp [isCandidateForReduction, candidateForAddSub, strideLoop, instructionAt, getConstantRight,
    classified.notNull.2.1, HInstruction.isConstant, inductionEqual, Ne.symm classified.distinct.1,
    apart, constant, insertCandidate, getConstant, HInstruction.int64FromConstant]

/-- `d = w - 2` is `(w, 1, -2)`: the candidate `v` comes first in the map, but
its info is not that of `w`. -/
theorem isCandidateForReduction_strideLoop_sub :
    isCandidateForReduction strideLoop analysis 6 [(7, ⟨6, 3, 0⟩), (8, ⟨7, 1, 5⟩)] 9 =
      [(7, ⟨6, 3, 0⟩), (8, ⟨7, 1, 5⟩), (9, ⟨8, 1, -2⟩)] := by
  have constant : (analysis.lookupInfo 5).isInvariant = true := classified.constants 5 (by simp)
  have apart6 : analysis.lookupInfo 5 ≠ analysis.lookupInfo 6 :=
    ne_of_isInvariant constant (classified.variant 6 (by simp))
  have apart7 : analysis.lookupInfo 5 ≠ analysis.lookupInfo 7 :=
    ne_of_isInvariant constant (classified.variant 7 (by simp))
  simp [isCandidateForReduction, candidateForAddSub, strideLoop, instructionAt, getConstantRight,
    classified.notNull.2.2, HInstruction.isConstant, inductionEqual, Ne.symm classified.distinct.2.1,
    Ne.symm classified.distinct.2.2, apart6, apart7, constant, insertCandidate, getNegativeConstant,
    getConstant, HInstruction.int64FromConstant]

end ClassifiedStrideLoop

theorem isCandidateForReduction_strideLoop_increment (candidate : List (Nat × Triple)) :
    isCandidateForReduction strideLoop analysis 6 candidate 10 = candidate := by
  simp [isCandidateForReduction, candidateForAddSub, strideLoop, instructionAt, getConstantRight,
    HInstruction.isConstant, inductionEqual]

theorem composeCandidates_strideLoop :
    composeCandidates strideLoop 6 [(7, ⟨6, 3, 0⟩), (8, ⟨7, 1, 5⟩), (9, ⟨8, 1, -2⟩)] =
      [(7, ⟨6, 3, 0⟩), (8, ⟨6, 3, 5⟩), (9, ⟨6, 3, -7⟩)] := by
  decide

theorem simplifyLoop_strideLoop {analysis : InductionAnalysis}
    (classified : ClassifiesStrideLoop analysis) :
    simplifyLoop strideLoop analysis =
      (true, [⟨7, ⟨6, 3, 0⟩, 10⟩, ⟨8, ⟨6, 3, 5⟩, 10⟩, ⟨9, ⟨6, 3, -7⟩, 10⟩]) := by
  have found : strideLoop.blocks.foldl (isCandidateForReduction strideLoop analysis 6) [] =
      [(7, ⟨6, 3, 0⟩), (8, ⟨7, 1, 5⟩), (9, ⟨8, 1, -2⟩)] := by
    rw [show strideLoop.blocks = [7, 8, 9, 10] from rfl, List.foldl_cons,
      isCandidateForReduction_strideLoop_mul classified, List.foldl_cons,
      isCandidateForReduction_strideLoop_add classified, List.foldl_cons,
      isCandidateForReduction_strideLoop_sub classified, List.foldl_cons,
      isCandidateForReduction_strideLoop_increment, List.foldl_nil]
  simp only [simplifyLoop, show strideLoop.phis = [⟨6, [0, 10]⟩] from rfl, List.foldl_cons,
    List.foldl_nil, simplifyPhi, isCandidatePhi_strideLoop classified, found,
    composeCandidates_strideLoop]
  rfl

/-- The values of the loop's instructions in an iteration whose arguments are
`arguments`. -/
theorem evaluateGraph_strideLoop (arguments : Nat → Value) :
    evaluateGraph arguments strideLoop.graph =
      [arguments 0, arguments 1, .int 1, .int 3, .int 5, .int 2, arguments 6,
        Value.binary (· * ·) (· * ·) (arguments 6) (.int 3),
        Value.binary (· + ·) (· + ·) (Value.binary (· * ·) (· * ·) (arguments 6) (.int 3)) (.int 5),
        Value.binary (· - ·) (· - ·)
          (Value.binary (· + ·) (· + ·) (Value.binary (· * ·) (· * ·) (arguments 6) (.int 3)) (.int 5))
          (.int 2),
        Value.binary (· + ·) (· + ·) (arguments 6) (.int 1)] :=
  rfl

theorem phiValues_strideLoop (init bound : BitVec 32) (n : Nat) :
    strideLoop.phiValues (loopArguments init bound) n 6 = .int (init + BitVec.ofNat 32 n) := by
  induction n with
  | zero =>
      show valueAt (loopArguments init bound) strideLoop.graph 0 = _
      rw [valueAt, evaluateGraph_strideLoop]
      simp [loopArguments]
  | succ n induction =>
      show valueAt (strideLoop.iterationArguments (loopArguments init bound)
        (strideLoop.phiValues (loopArguments init bound) n)) strideLoop.graph 10 = _
      rw [valueAt, evaluateGraph_strideLoop]
      show Value.binary (· + ·) (· + ·) (strideLoop.phiValues (loopArguments init bound) n 6) (.int 1) = _
      rw [induction, BitVec.ofNat_add, ← BitVec.add_assoc]
      rfl

theorem valueIn_strideLoop_derived (init bound : BitVec 32) (n : Nat) :
    strideLoop.valueIn (loopArguments init bound) n 9 =
      .int ((init + BitVec.ofNat 32 n) * 3 + 3) := by
  rw [Loop.valueIn, valueAt, evaluateGraph_strideLoop]
  show Value.binary (· - ·) (· - ·) (Value.binary (· + ·) (· + ·)
    (Value.binary (· * ·) (· * ·) (strideLoop.phiValues (loopArguments init bound) n 6) (.int 3))
      (.int 5)) (.int 2) = _
  rw [phiValues_strideLoop]
  simp only [Value.binary, Value.int.injEq]
  bv_omega

theorem reducedValue_strideLoop_derived (init bound : BitVec 32) (n : Nat) :
    reducedValue strideLoop (loopArguments init bound) ⟨9, ⟨6, 3, -7⟩, 10⟩ n =
      .int ((init + BitVec.ofNat 32 n) * 3 - 7) := by
  induction n with
  | zero =>
      show Value.binary (· + ·) (· + ·) (Value.binary (· * ·) (· * ·)
        (strideLoop.phiValues (loopArguments init bound) 0 6) (constantValue .kInt32 3))
          (constantValue .kInt32 (-7)) = _
      have three : BitVec.ofInt 32 3 = 3 := by decide
      have seven : BitVec.ofInt 32 (-7) = -7 := by decide
      rw [phiValues_strideLoop, constantValue_kInt32, constantValue_kInt32, three, seven]
      simp only [Value.binary, Value.int.injEq]
      bv_omega
  | succ n induction =>
      show Value.binary (· + ·) (· + ·)
        (reducedValue strideLoop (loopArguments init bound) ⟨9, ⟨6, 3, -7⟩, 10⟩ n)
          (constantValue .kInt32 (getNewConstant .kMul .kInt32 1 3)) = _
      have stride : constantValue .kInt32 (getNewConstant .kMul .kInt32 1 3) = .int 3 := by decide
      rw [induction, stride]
      simp only [Value.binary, Value.int.injEq]
      bv_omega

/-- In every iteration the phi that replaces `d = w - 2` holds `3 * i - 7`,
where `d` holds `3 * i + 3`: composing `(w, 1, -2)` with `(i, 3, 5)` took the
offset `-2 - 5`. -/
theorem simplifyLoop_misplaces_subtracted_offset {analysis : InductionAnalysis}
    (classified : ClassifiesStrideLoop analysis) (init bound : BitVec 32) (n : Nat) :
    (⟨9, ⟨6, 3, -7⟩, 10⟩ : Reduction) ∈ (simplifyLoop strideLoop analysis).2 ∧
    strideLoop.valueIn (loopArguments init bound) n 9 = .int ((init + BitVec.ofNat 32 n) * 3 + 3) ∧
    reducedValue strideLoop (loopArguments init bound) ⟨9, ⟨6, 3, -7⟩, 10⟩ n =
      .int ((init + BitVec.ofNat 32 n) * 3 - 7) := by
  refine ⟨?_, valueIn_strideLoop_derived init bound n, reducedValue_strideLoop_derived init bound n⟩
  rw [simplifyLoop_strideLoop classified]
  simp

/-- The infos of the loop as the analysis builds them: `i` is linear with
stride `1` and offset `init`; `v`, `w` and `d` are linear with stride `3` and
the offsets `init * 3`, `init * 3 + 5` and `init * 3 + 5 - 2`; an instruction
outside the loop is fetched. -/
def strideLoopAnalysis : InductionAnalysis where
  lookupInfo position :=
    let fetch (instruction : Nat) := InductionInfo.invariantFetch instruction .kInt32
    let invariant (operation : InductionOp) (a b : InductionInfo) :=
      InductionInfo.mk .kInvariant operation a b none .kInt32
    let linear (a b : InductionInfo) := InductionInfo.mk .kLinear .kNop a b none .kInt32
    let offsetV := invariant .kMul (fetch 0) (fetch 3)
    let offsetW := invariant .kAdd offsetV (fetch 4)
    match position with
    | 6 => linear (fetch 2) (fetch 0)
    | 7 => linear (fetch 3) offsetV
    | 8 => linear (fetch 3) offsetW
    | 9 => linear (fetch 3) (invariant .kSub offsetW (fetch 5))
    | 10 => linear (fetch 2) (invariant .kAdd (fetch 0) (fetch 2))
    | position => if position < 6 then fetch position else .null
  lookupCycle position := if position = 6 then [6, 10] else []

theorem classifiesStrideLoop_strideLoopAnalysis : ClassifiesStrideLoop strideLoopAnalysis where
  variant := by decide
  notNull := by decide
  constants := by decide
  distinct := by decide
  cycle := rfl

theorem simplifyLoop_misplaces_subtracted_offset_from_zero :
    ClassifiesStrideLoop strideLoopAnalysis ∧
    (⟨9, ⟨6, 3, -7⟩, 10⟩ : Reduction) ∈ (simplifyLoop strideLoop strideLoopAnalysis).2 ∧
    strideLoop.valueIn (loopArguments 0 10) 0 9 = .int ((0 + BitVec.ofNat 32 0) * 3 + 3) ∧
    reducedValue strideLoop (loopArguments 0 10) ⟨9, ⟨6, 3, -7⟩, 10⟩ 0 =
      .int ((0 + BitVec.ofNat 32 0) * 3 - 7) :=
  ⟨classifiesStrideLoop_strideLoopAnalysis,
    simplifyLoop_misplaces_subtracted_offset classifiesStrideLoop_strideLoopAnalysis 0 10 0⟩

end IvSimplifier

end ArtRuntime.Compiler
