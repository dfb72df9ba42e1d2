import ArtRuntime.Compiler.BoundsCheckElimination
import ArtRuntime.Foundation.TwosComplement

/-! # `MonotonicValueRange` of bounds check elimination

`VisitPhi` gives a loop-header phi that moves by a constant `increment_` on
each iteration a `MonotonicValueRange`, with `bound_` a bound on its initial
value. A comparison in the loop header narrows it by the range it tests, and
`Narrow` turns it into a plain range only where it can show that the phi does
not wrap around before the test stops the loop: for an increasing phi, the
last value up to the test's upper limit plus the increment is still an
`int32_t`; for a decreasing one, the test's constant lower limit plus the
increment is. The phi's values are then those of the sequence in the
integers, so every value with which the loop body is entered lies in the
narrowed range. -/

namespace ArtRuntime.Compiler

namespace BoundsCheckElimination

/-- `MonotonicValueRange`: the phi's `initial_` instruction, its `increment_`,
which `VisitPhi` never makes zero, and `bound_` on the initial value. -/
structure MonotonicValueRange where
  initial : Nat
  increment : Int32Value
  nonzero : increment.value ≠ 0
  bound : ValueBound

section Graph

variable (graph : BoundsGraph)

namespace MonotonicValueRange

/-- The greatest value the upper bound of `range` can take: its constant, or
`max_array_len` plus a nonpositive constant on an array length. -/
def maxUpperValue (range : ValueRange) : Int :=
  -- We currently conservatively assume max array length is Max().
  let maxArrayLen := int32Max
  if range.upper.isConstant then range.upper.constant.value
  else if ValueBound.isRelatedToArrayLength graph range.upper && decide (range.upper.constant.value ≤ 0) then
    maxArrayLen + range.upper.constant.value
  else int32Max

/-- `last_num_in_sequence`: the last of `initial_, initial_ + increment_, ...`
that is at most `upper` when `initial_` is a constant, and `upper` itself
otherwise. -/
def lastNumInSequence (mono : MonotonicValueRange) (upper : Int) : Int :=
  match graph.intConstant mono.initial with
  | some initialConstant =>
      if upper ≤ initialConstant.value then upper
      else initialConstant.value + (upper - initialConstant.value).tdiv mono.increment.value * mono.increment.value
  | none => upper

/-- `MonotonicValueRange::Narrow` by a range that is not monotonic: a plain
range when no overflow or underflow can happen before the test stops the loop,
and `none` where the code returns the monotonic range itself. -/
def narrow (mono : MonotonicValueRange) : Option ValueRange → Option ValueRange
  | none => none
  | some range =>
      if 0 < mono.increment.value then
        let lower := ValueBound.narrowLowerBound graph mono.bound range.lower
        if !lower.isConstant || decide (lower.constant.value = int32Min) then none
        else if lastNumInSequence graph mono (maxUpperValue graph range) ≤ int32Max - mono.increment.value then
          some ⟨lower, range.upper⟩
        else none
      else
        let upper := ValueBound.narrowUpperBound graph mono.bound range.upper
        if (!upper.isConstant || decide (upper.constant.value = int32Max)) &&
            !ValueBound.isRelatedToArrayLength graph upper then none
        else if range.lower.isConstant && decide (int32Min - mono.increment.value ≤ range.lower.constant.value) then
          some ⟨range.lower, upper⟩
        else none

end MonotonicValueRange

end Graph

/-- `int32_t` addition wraps around. -/
def wrapInt32 (x : Int) : Int := x.bmod (2 ^ 32)

variable {graph : BoundsGraph}

/-- The values the phi takes in a run: `initial_`, then each moved by
`increment_`. -/
def MonotonicValueRange.sequence (valuation : Valuation graph) (mono : MonotonicValueRange) : Nat → Int
  | 0 => valuation.value mono.initial
  | k + 1 => wrapInt32 (MonotonicValueRange.sequence valuation mono k + mono.increment.value)

theorem wrapInt32_of_fits {x : Int} (atLeast : int32Min ≤ x) (atMost : x ≤ int32Max) : wrapInt32 x = x := by
  unfold int32Min at atLeast
  unfold int32Max at atMost
  exact Foundation.TwosComplement.bmod_eq_of_fits (by decide) ⟨by simpa using atLeast, by simp; omega⟩

theorem wrapInt32_isInt32 (x : Int) : int32Min ≤ wrapInt32 x ∧ wrapInt32 x ≤ int32Max := by
  have atLeast := @Int.le_bmod x (2 ^ 32) (by decide)
  have below := @Int.bmod_lt x (2 ^ 32) (by decide)
  unfold wrapInt32 int32Min int32Max
  constructor
  · simpa using atLeast
  · have : (((2 ^ 32 : Nat) : Int) + 1) / 2 = 2 ^ 31 := by decide
    omega

namespace MonotonicValueRange

variable (valuation : Valuation graph) (mono : MonotonicValueRange)

theorem sequence_isInt32 (k : Nat) :
    int32Min ≤ mono.sequence valuation k ∧ mono.sequence valuation k ≤ int32Max := by
  cases k with
  | zero => exact valuation.isInt32 mono.initial
  | succ k => exact wrapInt32_isInt32 _

/-- The phi moves by exactly `increment_` on each step that does not leave
`int32_t`: by induction on the steps, it has not wrapped around so far. -/
theorem sequence_eq_of_steps {k : Nat}
    (steps : ∀ j < k, mono.sequence valuation j = valuation.value mono.initial + j * mono.increment.value →
      int32Min ≤ mono.sequence valuation j + mono.increment.value ∧
        mono.sequence valuation j + mono.increment.value ≤ int32Max) :
    ∀ j ≤ k, mono.sequence valuation j = valuation.value mono.initial + j * mono.increment.value := by
  intro j
  induction j with
  | zero => simp [sequence]
  | succ j induction =>
    intro within
    have exact := induction (by omega)
    obtain ⟨atLeast, atMost⟩ := steps j (by omega) exact
    rw [sequence, wrapInt32_of_fits atLeast atMost, exact]
    push_cast
    ring

variable {valuation}

theorem le_maxUpperValue {range : ValueRange} {x : Int} (below : x ≤ range.upper.denote valuation)
    (atMost : x ≤ int32Max) : x ≤ maxUpperValue graph range := by
  dsimp only [maxUpperValue]
  split
  · rename_i constant
    rwa [denote_of_none valuation (by simpa [ValueBound.isConstant] using constant)] at below
  · rename_i notConstant
    split
    · rename_i related
      simp only [Bool.and_eq_true, decide_eq_true_eq] at related
      obtain ⟨position, named⟩ : ∃ position, range.upper.instruction = some position := by
        simpa [ValueBound.isConstant, Option.isNone_iff_eq_none, Option.ne_none_iff_exists'] using notConstant
      have length := (valuation.isInt32 position).2
      rw [denote_of_some valuation named] at below
      omega
    · exact atMost

/-- A value of the sequence from a constant `initial_` that is at most
`upper` is at most `last_num_in_sequence`, the last such value. -/
theorem le_lastNumInSequence (positive : 0 < mono.increment.value) {upper : Int} (j : Nat)
    (below : valuation.value mono.initial + j * mono.increment.value ≤ upper) :
    valuation.value mono.initial + j * mono.increment.value ≤ lastNumInSequence graph mono upper := by
  unfold lastNumInSequence
  split
  · rename_i initialConstant known
    rw [valuation.constant mono.initial initialConstant known] at below ⊢
    split
    · exact below
    · rename_i above
      -- `j` steps fit below `upper`, so `j` is at most the quotient the code takes
      have steps : (j : Int) ≤ (upper - initialConstant.value).tdiv mono.increment.value := by
        rw [Int.tdiv_eq_ediv_of_nonneg (by omega)]
        exact Int.le_ediv_of_mul_le positive (by omega)
      have := Int.mul_le_mul_of_nonneg_right steps (Int.le_of_lt positive)
      omega
  · exact below

theorem narrow_eq_some {range narrowed : ValueRange} (narrowedEq : mono.narrow graph (some range) = some narrowed) :
    (0 < mono.increment.value ∧ narrowed = ⟨ValueBound.narrowLowerBound graph mono.bound range.lower, range.upper⟩ ∧
        lastNumInSequence graph mono (maxUpperValue graph range) ≤ int32Max - mono.increment.value) ∨
      (mono.increment.value < 0 ∧ narrowed = ⟨range.lower, ValueBound.narrowUpperBound graph mono.bound range.upper⟩ ∧
        range.lower.isConstant = true ∧ int32Min - mono.increment.value ≤ range.lower.constant.value) := by
  dsimp only [narrow] at narrowedEq
  by_cases positive : 0 < mono.increment.value
  · rw [if_pos positive] at narrowedEq
    refine .inl ⟨positive, ?_⟩
    split at narrowedEq
    · cases narrowedEq
    · split at narrowedEq
      · rename_i fits
        exact ⟨(Option.some.inj narrowedEq).symm, fits⟩
      · cases narrowedEq
  · rw [if_neg positive] at narrowedEq
    have negative : mono.increment.value < 0 := by
      have := mono.nonzero
      omega
    refine .inr ⟨negative, ?_⟩
    split at narrowedEq
    · cases narrowedEq
    · split at narrowedEq
      · rename_i constant
        simp only [Bool.and_eq_true, decide_eq_true_eq] at constant
        exact ⟨(Option.some.inj narrowedEq).symm, constant⟩
      · cases narrowedEq

section Sound

variable {range : ValueRange} {k : Nat}
  (tested : ∀ j ≤ k, range.Holds valuation (mono.sequence valuation j))
include tested

/-- An increasing phi whose last value up to the test's limit moves to an
`int32_t` never wraps around while the loop runs. -/
theorem sequence_eq_of_increasing (positive : 0 < mono.increment.value)
    (fits : lastNumInSequence graph mono (maxUpperValue graph range) ≤ int32Max - mono.increment.value) :
    ∀ j ≤ k, mono.sequence valuation j = valuation.value mono.initial + j * mono.increment.value := by
  refine sequence_eq_of_steps valuation mono fun j within exact => ?_
  have isInt32 := sequence_isInt32 valuation mono j
  have limit := le_maxUpperValue (tested j (by omega)).2 isInt32.2
  rw [exact] at limit
  have last := le_lastNumInSequence mono positive j limit
  rw [← exact] at last
  omega

/-- A decreasing phi stays at or above the test's constant lower limit, and
that limit plus the increment is an `int32_t`, so it never wraps around while
the loop runs. -/
theorem sequence_eq_of_decreasing (negative : mono.increment.value < 0) (constant : range.lower.isConstant = true)
    (fits : int32Min - mono.increment.value ≤ range.lower.constant.value) :
    ∀ j ≤ k, mono.sequence valuation j = valuation.value mono.initial + j * mono.increment.value := by
  refine sequence_eq_of_steps valuation mono fun j within _ => ?_
  have isInt32 := sequence_isInt32 valuation mono j
  have limit := (tested j (by omega)).1
  rw [denote_of_none valuation (by simpa [ValueBound.isConstant] using constant)] at limit
  omega

end Sound

end MonotonicValueRange

/-! ## A counting loop -/

theorem int32Min_le_zero : int32Min ≤ 0 := by decide

theorem zero_le_int32Max : 0 ≤ int32Max := by decide

/-- A graph with an `HArrayLength` at position 0 and the constant 0 at
position 1. -/
def countingLoopGraph : BoundsGraph where
  intConstant position := if position = 1 then some ⟨0, int32Min_le_zero, zero_le_int32Max⟩ else none
  isArrayLength position := position == 0
  isNewArray _ := false
  declaration position := position

/-- The run in which the array has five elements. -/
def countingLoopValuation : Valuation countingLoopGraph where
  value position := if position = 0 then 5 else 0
  isInt32 position := by constructor <;> split <;> decide
  constant position c known := by
    simp only [countingLoopGraph] at known
    split at known
    · cases known
      rename_i isOne
      simp [isOne]
    · cases known
  length position _ := by split <;> decide
  declaration first second same := by
    have equal : first = second := same
    rw [equal]

end BoundsCheckElimination

end ArtRuntime.Compiler
