import Mathlib

/-! # Value bounds and value ranges of bounds check elimination

`ValueBound` and `ValueRange` of `compiler/optimizing/bounds_check_elimination.cc`.
A bound is an instruction plus an `int32_t` constant, or a constant alone; a
range is an inclusive lower and upper bound. Under a valuation of the
instructions a bound denotes an integer, and a range holds for the integers
between its bounds.

`ValueBound::Add` reports an overflow when a bound cannot be moved up soundly,
and then answers `Max()`. `ValueRange::Add` tests the underflow flag of the
lower bound and the overflow flag of the upper bound only: a lower bound that
overflowed becomes `Max()`, and the range no longer holds for the sum. -/

namespace ArtRuntime.Compiler

namespace BoundsCheckElimination

def int32Min : Int := -2 ^ 31

def int32Max : Int := 2 ^ 31 - 1

/-- A value of `int32_t`. -/
structure Int32Value where
  value : Int
  atLeast : int32Min ≤ value
  atMost : value ≤ int32Max
  deriving DecidableEq

/-- What the pass reads of the instruction that a bound names: its value when
it is an `HIntConstant`, whether it is an `HArrayLength` or an `HNewArray`, and
`HuntForDeclaration` of it. -/
structure BoundsGraph where
  intConstant : Nat → Option Int32Value
  isArrayLength : Nat → Bool
  isNewArray : Nat → Bool
  declaration : Nat → Nat

/-- `WouldAddOverflowOrUnderflow`. -/
def wouldAddOverflowOrUnderflow (left right : Int) : Bool :=
  if right = 0 then false
  else if 0 < right ∧ left ≤ int32Max - right then false
  else if right < 0 ∧ int32Min - right ≤ left then false
  else true

theorem fits_of_not_wouldAddOverflowOrUnderflow {left right : Int32Value}
    (fits : wouldAddOverflowOrUnderflow left.value right.value = false) :
    int32Min ≤ left.value + right.value ∧ left.value + right.value ≤ int32Max := by
  have := left.atLeast
  have := left.atMost
  unfold wouldAddOverflowOrUnderflow at fits
  split at fits
  · omega
  split at fits
  · omega
  split at fits
  · omega
  · exact absurd fits (by decide)

/-- The sum of two `int32_t` values that `WouldAddOverflowOrUnderflow` lets
through. -/
def Int32Value.add (left right : Int32Value)
    (fits : wouldAddOverflowOrUnderflow left.value right.value = false) : Int32Value :=
  ⟨left.value + right.value, (fits_of_not_wouldAddOverflowOrUnderflow fits).1,
    (fits_of_not_wouldAddOverflowOrUnderflow fits).2⟩

structure ValueBound where
  instruction : Option Nat
  constant : Int32Value
  deriving DecidableEq

structure ValueRange where
  lower : ValueBound
  upper : ValueBound
  deriving DecidableEq

section Graph

variable (graph : BoundsGraph)

namespace ValueBound

/-- The constructor: a bound on an `HIntConstant` folds the two constants when
their sum is an `int32_t`. -/
def make (instruction : Option Nat) (constant : Int32Value) : ValueBound :=
  match instruction with
  | some position =>
      match graph.intConstant position with
      | some instructionConstant =>
          if fits : wouldAddOverflowOrUnderflow instructionConstant.value constant.value = false then
            ⟨none, instructionConstant.add constant fits⟩
          else ⟨some position, constant⟩
      | none => ⟨some position, constant⟩
  | none => ⟨none, constant⟩

def min : ValueBound := ⟨none, ⟨int32Min, Int.le_refl _, by decide⟩⟩

def max : ValueBound := ⟨none, ⟨int32Max, by decide, Int.le_refl _⟩⟩

def isConstant (bound : ValueBound) : Bool := bound.instruction.isNone

def isRelatedToArrayLength (bound : ValueBound) : Bool :=
  match bound.instruction with
  | some position => graph.isArrayLength position || graph.isNewArray position
  | none => false

/-- `ValueBound::Equal` on the instructions of two bounds. -/
def equal (first second : Option Nat) : Bool :=
  first == second ||
    match first, second with
    | some first, some second => graph.declaration first == graph.declaration second
    | _, _ => false

def greaterThanOrEqualTo (bound other : ValueBound) : Bool :=
  equal graph bound.instruction other.instruction && decide (other.constant.value ≤ bound.constant.value)

def lessThanOrEqualTo (bound other : ValueBound) : Bool :=
  equal graph bound.instruction other.instruction && decide (bound.constant.value ≤ other.constant.value)

/-- `NarrowLowerBound`: the greater bound, or, when they are not comparable,
the constant one. -/
def narrowLowerBound (first second : ValueBound) : ValueBound :=
  if greaterThanOrEqualTo graph first second then first
  else if greaterThanOrEqualTo graph second first then second
  else if first.isConstant then first else second

/-- `NarrowUpperBound`: the lesser bound, or, when they are not comparable,
the one on an array length. -/
def narrowUpperBound (first second : ValueBound) : ValueBound :=
  if lessThanOrEqualTo graph first second then first
  else if lessThanOrEqualTo graph second first then second
  else if isRelatedToArrayLength graph first then first else second

/-- `ValueBound::Add`: the bound moved by `c`, with the overflow and the
underflow flag. -/
def add (bound : ValueBound) (c : Int32Value) : ValueBound × Bool × Bool :=
  if c.value = 0 then (bound, false, false)
  else if 0 < c.value then
    if fits : wouldAddOverflowOrUnderflow bound.constant.value c.value = false then
      let newConstant := bound.constant.add c fits
      -- (array.length + non-positive-constant) won't overflow an int.
      if bound.isConstant || (isRelatedToArrayLength graph bound && decide (newConstant.value ≤ 0)) then
        (make graph bound.instruction newConstant, false, false)
      else (max, true, false)
    else (max, true, false)
  else
    if fits : wouldAddOverflowOrUnderflow bound.constant.value c.value = false then
      let newConstant := bound.constant.add c fits
      if bound.isConstant || isRelatedToArrayLength graph bound then
        (make graph bound.instruction newConstant, false, false)
      else (min, false, true)
    else (min, false, true)

end ValueBound

namespace ValueRange

/-- `ValueRange::FitsIn` against a range that is not monotonic; a null range
holds everything. -/
def fitsIn (range : ValueRange) : Option ValueRange → Bool
  | none => true
  | some other =>
      ValueBound.greaterThanOrEqualTo graph range.lower other.lower &&
        ValueBound.lessThanOrEqualTo graph range.upper other.upper

/-- `ValueRange::Narrow` by a range that is not monotonic. -/
def narrow (range : ValueRange) : Option ValueRange → ValueRange
  | none => range
  | some other =>
      ⟨ValueBound.narrowLowerBound graph range.lower other.lower,
        ValueBound.narrowUpperBound graph range.upper other.upper⟩

/-- `ValueRange::Add`: null when the lower bound underflows or the upper bound
overflows; the overflow flag of the lower bound is overwritten unread. -/
def add (range : ValueRange) (constant : Int32Value) : Option ValueRange :=
  let (lower, _, underflow) := range.lower.add graph constant
  if underflow then none
  else
    let (upper, overflow, _) := range.upper.add graph constant
    if overflow then none else some ⟨lower, upper⟩

end ValueRange

/-- Values of the instructions that the pass may assume in a run: `int32_t`
values, a constant's own value, a nonnegative array length, and one value for
instructions with one declaration. -/
structure Valuation where
  value : Nat → Int
  isInt32 : ∀ position, int32Min ≤ value position ∧ value position ≤ int32Max
  constant : ∀ position c, graph.intConstant position = some c → value position = c.value
  length : ∀ position, (graph.isArrayLength position || graph.isNewArray position) = true →
    0 ≤ value position
  declaration : ∀ first second, graph.declaration first = graph.declaration second →
    value first = value second

variable {graph}

/-- The integer a bound denotes. -/
def ValueBound.denote (valuation : Valuation graph) (bound : ValueBound) : Int :=
  match bound.instruction with
  | some position => valuation.value position + bound.constant.value
  | none => bound.constant.value

/-- The range holds for `x`. -/
def ValueRange.Holds (valuation : Valuation graph) (range : ValueRange) (x : Int) : Prop :=
  range.lower.denote valuation ≤ x ∧ x ≤ range.upper.denote valuation

/-! ## Soundness of the bounds -/

variable (valuation : Valuation graph)

theorem denote_make (instruction : Option Nat) (constant : Int32Value) :
    (ValueBound.make graph instruction constant).denote valuation =
      (⟨instruction, constant⟩ : ValueBound).denote valuation := by
  cases instruction with
  | none => rfl
  | some position =>
      cases known : graph.intConstant position with
      | none => simp [ValueBound.make, known]
      | some instructionConstant =>
          simp only [ValueBound.make, known]
          split
          · simp [ValueBound.denote, Int32Value.add, valuation.constant position _ known]
          · rfl

theorem denote_add_constant (instruction : Option Nat) {constant c : Int32Value}
    (fits : wouldAddOverflowOrUnderflow constant.value c.value = false) :
    (⟨instruction, constant.add c fits⟩ : ValueBound).denote valuation =
      (⟨instruction, constant⟩ : ValueBound).denote valuation + c.value := by
  cases instruction with
  | none => simp [ValueBound.denote, Int32Value.add]
  | some position =>
    simp [ValueBound.denote, Int32Value.add]
    omega

theorem nonneg_of_isRelatedToArrayLength {bound : ValueBound} {position : Nat}
    (related : bound.isRelatedToArrayLength graph = true) (named : bound.instruction = some position) :
    0 ≤ valuation.value position := by
  rw [ValueBound.isRelatedToArrayLength, named] at related
  exact valuation.length position related

omit valuation in
/-- What `ValueBound::Add` can answer without raising a flag: the bound itself
for zero, or the bound with the sum of the constants, when the bound is a
constant or one on an array length, and a move up keeps the constant
nonpositive. -/
theorem add_eq_unflagged {bound result : ValueBound} {c : Int32Value}
    (added : bound.add graph c = (result, false, false)) :
    (c.value = 0 ∧ result = bound) ∨
      ∃ fits, result = ValueBound.make graph bound.instruction (bound.constant.add c fits) ∧
        (bound.isConstant = true ∨ (bound.isRelatedToArrayLength graph = true ∧
          (0 < c.value → bound.constant.value + c.value ≤ 0))) := by
  unfold ValueBound.add at added
  split at added
  case isTrue zero => exact .inl ⟨zero, (Prod.mk.inj added).1.symm⟩
  case isFalse =>
    split at added
    case isTrue positive =>
      split at added
      case isTrue fits =>
        dsimp only at added
        split at added
        case isTrue kept =>
          refine .inr ⟨fits, (Prod.mk.inj added).1.symm, ?_⟩
          simp only [Bool.or_eq_true, Bool.and_eq_true, Int32Value.add] at kept
          exact kept.imp id fun related => ⟨related.1, fun _ => of_decide_eq_true related.2⟩
        case isFalse => simp at added
      case isFalse => simp at added
    case isFalse notPositive =>
      split at added
      case isTrue fits =>
        dsimp only at added
        split at added
        case isTrue kept =>
          refine .inr ⟨fits, (Prod.mk.inj added).1.symm, ?_⟩
          simpa [notPositive] using kept
        case isFalse => simp at added
      case isFalse => simp at added

theorem denote_of_none {bound : ValueBound} (named : bound.instruction = none) :
    bound.denote valuation = bound.constant.value := by
  rw [ValueBound.denote, named]

theorem denote_of_some {bound : ValueBound} {position : Nat} (named : bound.instruction = some position) :
    bound.denote valuation = valuation.value position + bound.constant.value := by
  rw [ValueBound.denote, named]

/-- `ValueBound::Add` that raises neither flag moves the bound by exactly `c`,
and keeps an `int32_t` bound an `int32_t`. -/
theorem denote_add {bound result : ValueBound} {c : Int32Value}
    (added : bound.add graph c = (result, false, false))
    (isInt32 : int32Min ≤ bound.denote valuation ∧ bound.denote valuation ≤ int32Max) :
    result.denote valuation = bound.denote valuation + c.value ∧
      int32Min ≤ result.denote valuation ∧ result.denote valuation ≤ int32Max := by
  rcases add_eq_unflagged added with ⟨zero, rfl⟩ | ⟨fits, rfl, kept⟩
  · omega
  have sum := fits_of_not_wouldAddOverflowOrUnderflow fits
  rw [denote_make, denote_add_constant]
  -- The new bound denotes the old one moved by `c`; only its range is left.
  refine ⟨rfl, ?_⟩
  cases named : bound.instruction with
  | none =>
      rw [denote_of_none valuation rfl]
      exact sum
  | some position =>
      have related : bound.isRelatedToArrayLength graph = true := by
        rcases kept with constant | ⟨related, _⟩
        · simp [ValueBound.isConstant, named] at constant
        · exact related
      have length := nonneg_of_isRelatedToArrayLength valuation related named
      have kept : 0 < c.value → bound.constant.value + c.value ≤ 0 := by
        rcases kept with constant | ⟨_, kept⟩
        · simp [ValueBound.isConstant, named] at constant
        · exact kept
      have := valuation.isInt32 position
      rw [denote_of_some valuation rfl]
      rw [denote_of_some valuation named] at isInt32
      dsimp only
      omega

theorem value_eq_of_equal {first second : Nat}
    (equal : ValueBound.equal graph (some first) (some second) = true) :
    valuation.value first = valuation.value second := by
  simp only [ValueBound.equal, Option.some_beq_some, beq_iff_eq, Bool.or_eq_true] at equal
  rcases equal with same | declared
  · rw [same]
  · exact valuation.declaration first second declared

theorem denote_le_of_greaterThanOrEqualTo {bound other : ValueBound}
    (greater : ValueBound.greaterThanOrEqualTo graph bound other = true) :
    other.denote valuation ≤ bound.denote valuation := by
  simp only [ValueBound.greaterThanOrEqualTo, Bool.and_eq_true, decide_eq_true_eq] at greater
  obtain ⟨equal, constants⟩ := greater
  cases named : bound.instruction with
  | none =>
      cases otherNamed : other.instruction with
      | none => simp [ValueBound.denote, named, otherNamed, constants]
      | some _ => simp [named, otherNamed, ValueBound.equal] at equal
  | some position =>
      cases otherNamed : other.instruction with
      | none => simp [named, otherNamed, ValueBound.equal] at equal
      | some otherPosition =>
          rw [named, otherNamed] at equal
          simp only [ValueBound.denote, named, otherNamed, value_eq_of_equal valuation equal]
          omega

theorem denote_le_of_lessThanOrEqualTo {bound other : ValueBound}
    (less : ValueBound.lessThanOrEqualTo graph bound other = true) :
    bound.denote valuation ≤ other.denote valuation := by
  simp only [ValueBound.lessThanOrEqualTo, Bool.and_eq_true, decide_eq_true_eq] at less
  obtain ⟨equal, constants⟩ := less
  cases named : bound.instruction with
  | none =>
      cases otherNamed : other.instruction with
      | none => simp [ValueBound.denote, named, otherNamed, constants]
      | some _ => simp [named, otherNamed, ValueBound.equal] at equal
  | some position =>
      cases otherNamed : other.instruction with
      | none => simp [named, otherNamed, ValueBound.equal] at equal
      | some otherPosition =>
          rw [named, otherNamed] at equal
          simp only [ValueBound.denote, named, otherNamed, value_eq_of_equal valuation equal]
          omega

theorem narrowLowerBound_cases (first second : ValueBound) :
    ValueBound.narrowLowerBound graph first second = first ∨
      ValueBound.narrowLowerBound graph first second = second := by
  unfold ValueBound.narrowLowerBound
  split
  · exact .inl rfl
  split
  · exact .inr rfl
  split
  · exact .inl rfl
  · exact .inr rfl

theorem narrowUpperBound_cases (first second : ValueBound) :
    ValueBound.narrowUpperBound graph first second = first ∨
      ValueBound.narrowUpperBound graph first second = second := by
  unfold ValueBound.narrowUpperBound
  split
  · exact .inl rfl
  split
  · exact .inr rfl
  split
  · exact .inl rfl
  · exact .inr rfl

theorem holds_narrow {range other : ValueRange} {x : Int} (holds : range.Holds valuation x)
    (otherHolds : other.Holds valuation x) : (range.narrow graph (some other)).Holds valuation x := by
  constructor
  · show (ValueBound.narrowLowerBound graph range.lower other.lower).denote valuation ≤ x
    rcases @narrowLowerBound_cases graph range.lower other.lower with picked | picked
    · rw [picked]
      exact holds.1
    · rw [picked]
      exact otherHolds.1
  · show x ≤ (ValueBound.narrowUpperBound graph range.upper other.upper).denote valuation
    rcases @narrowUpperBound_cases graph range.upper other.upper with picked | picked
    · rw [picked]
      exact holds.2
    · rw [picked]
      exact otherHolds.2

theorem holds_of_fitsIn {range other : ValueRange} {x : Int}
    (fits : range.fitsIn graph (some other) = true) (holds : range.Holds valuation x) :
    other.Holds valuation x := by
  simp only [ValueRange.fitsIn, Bool.and_eq_true] at fits
  exact ⟨Int.le_trans (denote_le_of_greaterThanOrEqualTo valuation fits.1) holds.1,
    Int.le_trans holds.2 (denote_le_of_lessThanOrEqualTo valuation fits.2)⟩

/-- The transfer functions that are sound: `ValueBound::Add` without a flag
moves an `int32_t` bound by exactly `c`; `ValueRange::Narrow` holds where both
ranges hold; a range that `FitsIn` another holds only where the other does. -/
theorem transferFunctions_sound :
    (∀ (bound result : ValueBound) (c : Int32Value), bound.add graph c = (result, false, false) →
      int32Min ≤ bound.denote valuation → bound.denote valuation ≤ int32Max →
      result.denote valuation = bound.denote valuation + c.value ∧
        int32Min ≤ result.denote valuation ∧ result.denote valuation ≤ int32Max) ∧
    (∀ (range other : ValueRange) (x : Int), range.Holds valuation x → other.Holds valuation x →
      (range.narrow graph (some other)).Holds valuation x) ∧
    (∀ (range other : ValueRange) (x : Int), range.fitsIn graph (some other) = true →
      range.Holds valuation x → other.Holds valuation x) :=
  ⟨fun _ _ _ added atLeast atMost => denote_add valuation added ⟨atLeast, atMost⟩,
    fun _ _ _ => holds_narrow valuation, fun _ _ _ => holds_of_fitsIn valuation⟩

end Graph

/-! ## Moving a range on an array length up -/

/-- A graph whose instruction at position 0 is an `HArrayLength`. -/
def arrayLengthGraph : BoundsGraph where
  intConstant _ := none
  isArrayLength position := position == 0
  isNewArray _ := false
  declaration position := position

/-- `[array.length, 10]`. -/
def lengthToTen : ValueRange :=
  ⟨⟨some 0, ⟨0, by decide, by decide⟩⟩, ⟨none, ⟨10, by decide, by decide⟩⟩⟩

def one : Int32Value := ⟨1, by decide, by decide⟩

/-- Moving `[array.length, 10]` up by one gives `[Max(), 11]`: the lower bound
`array.length + 1` may overflow, and its flag is dropped. -/
theorem add_lengthToTen :
    lengthToTen.add arrayLengthGraph one =
      some ⟨ValueBound.max, ⟨none, ⟨11, by decide, by decide⟩⟩⟩ := by
  decide

/-- In every run, for every `x` in `[array.length, 10]`, `ValueRange::Add(1)`
answers a range that does not hold for `x + 1` (which does not wrap). -/
theorem valueRange_add_loses_sum (valuation : Valuation arrayLengthGraph) {x : Int}
    (holds : lengthToTen.Holds valuation x) :
    ∃ shifted, lengthToTen.add arrayLengthGraph one = some shifted ∧
      ¬ shifted.Holds valuation (x + 1) := by
  refine ⟨_, add_lengthToTen, fun shiftedHolds => ?_⟩
  have atMostTen : x ≤ 10 := holds.2
  have atLeastMax : int32Max ≤ x + 1 := shiftedHolds.1
  unfold int32Max at atLeastMax
  omega

/-- The run in which the array is empty. -/
def emptyArrayValuation : Valuation arrayLengthGraph where
  value _ := 0
  isInt32 _ := ⟨by decide, by decide⟩
  constant _ _ known := by cases known
  length _ _ := Int.le_refl 0
  declaration _ _ _ := rfl

theorem valueRange_add_loses_sum_of_empty_array :
    lengthToTen.Holds emptyArrayValuation 5 ∧
      ∃ shifted, lengthToTen.add arrayLengthGraph one = some shifted ∧
        ¬ shifted.Holds emptyArrayValuation (5 + 1) :=
  ⟨⟨by decide, by decide⟩, valueRange_add_loses_sum emptyArrayValuation ⟨by decide, by decide⟩⟩

/-- The run in which the array has five elements and every other instruction is three. -/
def fiveElementValuation : Valuation arrayLengthGraph where
  value position := if position = 0 then 5 else 3
  isInt32 position := by constructor <;> split <;> decide
  constant _ _ known := by cases known
  length position _ := by split <;> decide
  declaration first second same := by
    have equal : first = second := same
    rw [equal]

/-- In the run of a five-element array: `array.length - 1` moved up by one is
`array.length`, `[0, array.length - 1]` narrowed by `[2, 10]` holds for `3`, and
`[0, array.length - 2]` fits in `[0, array.length - 1]`, both holding for `2`. -/
theorem transferFunctions_sound_of_five_elements :
    let lengthMinus (c : Int) (atLeast : int32Min ≤ c) (atMost : c ≤ int32Max) : ValueBound :=
      ⟨some 0, ⟨c, atLeast, atMost⟩⟩
    let zero : ValueBound := ⟨none, ⟨0, by decide, by decide⟩⟩
    let inBounds : ValueRange := ⟨zero, lengthMinus (-1) (by decide) (by decide)⟩
    let twoToTen : ValueRange := ⟨⟨none, ⟨2, by decide, by decide⟩⟩, ⟨none, ⟨10, by decide, by decide⟩⟩⟩
    let belowLast : ValueRange := ⟨zero, lengthMinus (-2) (by decide) (by decide)⟩
    (lengthMinus (-1) (by decide) (by decide)).add arrayLengthGraph one =
        (lengthMinus 0 (by decide) (by decide), false, false) ∧
      int32Min ≤ (lengthMinus (-1) (by decide) (by decide)).denote fiveElementValuation ∧
      (lengthMinus (-1) (by decide) (by decide)).denote fiveElementValuation ≤ int32Max ∧
      ((lengthMinus 0 (by decide) (by decide)).denote fiveElementValuation =
          (lengthMinus (-1) (by decide) (by decide)).denote fiveElementValuation + one.value ∧
        int32Min ≤ (lengthMinus 0 (by decide) (by decide)).denote fiveElementValuation ∧
        (lengthMinus 0 (by decide) (by decide)).denote fiveElementValuation ≤ int32Max) ∧
      inBounds.Holds fiveElementValuation 3 ∧ twoToTen.Holds fiveElementValuation 3 ∧
      (inBounds.narrow arrayLengthGraph (some twoToTen)).Holds fiveElementValuation 3 ∧
      belowLast.fitsIn arrayLengthGraph (some inBounds) = true ∧ belowLast.Holds fiveElementValuation 2 ∧
      inBounds.Holds fiveElementValuation 2 := by
  intro lengthMinus zero inBounds twoToTen belowLast
  have added : (lengthMinus (-1) (by decide) (by decide)).add arrayLengthGraph one =
      (lengthMinus 0 (by decide) (by decide), false, false) := by decide
  have inRange : int32Min ≤ (lengthMinus (-1) (by decide) (by decide)).denote fiveElementValuation ∧
      (lengthMinus (-1) (by decide) (by decide)).denote fiveElementValuation ≤ int32Max := by decide
  have holds : inBounds.Holds fiveElementValuation 3 := by
    unfold ValueRange.Holds
    decide
  have otherHolds : twoToTen.Holds fiveElementValuation 3 := by
    unfold ValueRange.Holds
    decide
  have fits : belowLast.fitsIn arrayLengthGraph (some inBounds) = true := by decide
  have belowHolds : belowLast.Holds fiveElementValuation 2 := by
    unfold ValueRange.Holds
    decide
  have sound := transferFunctions_sound fiveElementValuation
  exact ⟨added, inRange.1, inRange.2, sound.1 _ _ one added inRange.1 inRange.2, holds, otherHolds,
    sound.2.1 inBounds twoToTen 3 holds otherHolds, fits, belowHolds,
    sound.2.2 belowLast inBounds 2 fits belowHolds⟩

end BoundsCheckElimination

end ArtRuntime.Compiler
