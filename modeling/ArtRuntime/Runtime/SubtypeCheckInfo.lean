import ArtRuntime.Base.BitString

/-! # Subtype check labels

`runtime/subtype_check_info.h`: the label a class carries for O(1) subtype checks.
Its bit string holds the path to the root, one character per level below the
root (the sibling index the class got from its parent), then the `Next`
character its next child will get; the overflow bit marks a label that can
never become a full path. `GetState` reads the label, `IsSubtypeOf` compares
the masked paths, `CreateRoot` and `CreateChild` build labels.

The debug checks (`DcheckInvariants`) are left out: they do not change a label.
The lemmas of the second part give the characters and the state of the labels
these operations build.
-/

namespace ArtRuntime.Runtime

open ArtRuntime.Base ArtRuntime.Foundation

/-- `SubtypeCheckBits`: the bit string and the overflow bit. -/
structure SubtypeCheckBits where
  bitstring : BitString := BitString.empty
  overflow : Bool := false
  deriving DecidableEq

structure SubtypeCheckInfo where
  depth : Nat
  bitstringAndOf : SubtypeCheckBits

namespace SubtypeCheckInfo

inductive State
  | kUninitialized
  | kInitialized
  | kAssigned
  | kOverflowed
  deriving DecidableEq, Repr

inductive Result
  | kUnknownSubtypeOf
  | kNotSubtypeOf
  | kSubtypeOf
  deriving DecidableEq, Repr

def create (compressedValue : SubtypeCheckBits) (depth : Nat) : SubtypeCheckInfo :=
  { depth := depth, bitstringAndOf := compressedValue }

def getBitString (sci : SubtypeCheckInfo) : BitString :=
  sci.bitstringAndOf.bitstring

def setBitStringUnchecked (sci : SubtypeCheckInfo) (val : BitString) : SubtypeCheckInfo :=
  { sci with bitstringAndOf := { sci.bitstringAndOf with bitstring := val } }

def hasNext (sci : SubtypeCheckInfo) : Bool :=
  decide (sci.depth < kCapacity)

def getSafeDepth (sci : SubtypeCheckInfo) : Nat :=
  min sci.depth kCapacity

def getPathToRoot (sci : SubtypeCheckInfo) : BitString :=
  sci.getBitString.truncate sci.getSafeDepth

def getNext (sci : SubtypeCheckInfo) : BitStringChar :=
  sci.getBitString.get sci.depth

def setNext (sci : SubtypeCheckInfo) (next : BitStringChar) : SubtypeCheckInfo :=
  sci.setBitStringUnchecked (sci.getBitString.setAt sci.depth next)

def maybeInitNext (sci : SubtypeCheckInfo) : SubtypeCheckInfo :=
  if sci.hasNext then
    let sci := sci.setNext {}
    sci.setNext (sci.getNext.add 1)
  else sci

def markOverflowed (sci : SubtypeCheckInfo) : SubtypeCheckInfo :=
  { sci with bitstringAndOf := { sci.bitstringAndOf with overflow := true } }

/-- `OverwriteNextValueFromParent(child, value)`, called on the parent. -/
def overwriteNextValueFromParent (sci child : SubtypeCheckInfo) (value : BitStringChar) :
    SubtypeCheckInfo :=
  if sci.hasNext then child.setBitStringUnchecked (child.getBitString.setAt sci.depth value)
  else child

def getState (sci : SubtypeCheckInfo) : State :=
  if sci.bitstringAndOf.overflow then .kOverflowed
  else if sci.getBitString.isEmpty then .kUninitialized
  else if sci.getPathToRoot.length = sci.depth then .kAssigned
  else .kInitialized

def getEncodedPathToRoot (sci : SubtypeCheckInfo) : BitVec 32 :=
  sci.getPathToRoot.storage

def getEncodedPathToRootMask (sci : SubtypeCheckInfo) : BitVec 32 :=
  maskLeastSignificant 32 (getBitLengthTotalAtPosition sci.getSafeDepth)

/-- `IsSubtypeOf(target)`, called on the source. -/
def isSubtypeOf (sci target : SubtypeCheckInfo) : Result :=
  if target.getState ≠ .kAssigned then .kUnknownSubtypeOf
  else if sci.getState = .kUninitialized then .kUnknownSubtypeOf
  else if (sci.getEncodedPathToRoot &&& target.getEncodedPathToRootMask) = target.getEncodedPathToRoot then
    .kSubtypeOf
  else .kNotSubtypeOf

def createRoot : SubtypeCheckInfo :=
  let io : SubtypeCheckInfo := { depth := 0, bitstringAndOf := {} }
  io.setNext (io.getNext.add 1)

/-- `CreateChild(assign_next)`, called on the parent: the child and the parent,
whose `Next` moves on when it hands it to the child. -/
def createChild (sci : SubtypeCheckInfo) (assignNext : Bool) : SubtypeCheckInfo × SubtypeCheckInfo :=
  let child : SubtypeCheckInfo := { sci with depth := sci.depth + 1 }
  let child := child.maybeInitNext
  let child := sci.overwriteNextValueFromParent child {}
  if !assignNext then (child, sci)
  else if sci.hasNext ∧ !sci.bitstringAndOf.overflow then
    let next := sci.getNext
    if next.data ≠ next.maximumValue.data then
      (sci.overwriteNextValueFromParent child next, sci.setNext (next.add 1))
    else (child.markOverflowed, sci)
  else (child.markOverflowed, sci)

/-! ## Characters and states -/

/-- The character of a label at a position. -/
def charAt (sci : SubtypeCheckInfo) (idx : Nat) : Nat :=
  sci.getBitString.charAt idx

/-- `Next` can still be handed out: the parent is not overflowed and its `Next`
is below the largest value of its position. -/
def CanAssignNext (sci : SubtypeCheckInfo) : Prop :=
  sci.depth < kCapacity ∧ sci.bitstringAndOf.overflow = false ∧
    sci.charAt sci.depth ≠ 2 ^ bitSizeAt sci.depth - 1

instance (sci : SubtypeCheckInfo) : Decidable sci.CanAssignNext :=
  inferInstanceAs (Decidable (_ ∧ _ ∧ _))

@[simp] theorem depth_create (bits : SubtypeCheckBits) (depth : Nat) : (create bits depth).depth = depth :=
  rfl

@[simp] theorem bitstringAndOf_create (bits : SubtypeCheckBits) (depth : Nat) :
    (create bits depth).bitstringAndOf = bits :=
  rfl

@[simp] theorem charAt_setNext_self (sci : SubtypeCheckInfo) (next : BitStringChar)
    (fits : next.data < 2 ^ bitSizeAt sci.depth) : (sci.setNext next).charAt sci.depth = next.data :=
  BitString.charAt_setAt_self _ _ _ fits

theorem charAt_setNext_of_ne (sci : SubtypeCheckInfo) (next : BitStringChar) {idx : Nat}
    (different : idx ≠ sci.depth) : (sci.setNext next).charAt idx = sci.charAt idx :=
  BitString.charAt_setAt_of_ne _ _ (Ne.symm different)

@[simp] theorem depth_setNext (sci : SubtypeCheckInfo) (next : BitStringChar) :
    (sci.setNext next).depth = sci.depth :=
  rfl

@[simp] theorem overflow_setNext (sci : SubtypeCheckInfo) (next : BitStringChar) :
    (sci.setNext next).bitstringAndOf.overflow = sci.bitstringAndOf.overflow :=
  rfl

theorem one_lt_two_pow_bitSizeAt {idx : Nat} (inside : idx < kCapacity) : 1 < 2 ^ bitSizeAt idx := by
  match idx, inside with
  | 0, _ => decide
  | 1, _ => decide
  | 2, _ => decide
  | _ + 3, outside => exact absurd outside (by simp [kCapacity, kBitSizeAtPosition])

theorem charAt_maybeInitNext (sci : SubtypeCheckInfo) (idx : Nat) :
    sci.maybeInitNext.charAt idx =
      if idx = sci.depth ∧ sci.depth < kCapacity then 1 else sci.charAt idx := by
  unfold maybeInitNext hasNext
  by_cases inside : sci.depth < kCapacity
  · have one := one_lt_two_pow_bitSizeAt inside
    rw [if_pos (decide_eq_true inside)]
    -- `Next` is cleared, then read back as zero and incremented
    have cleared : (sci.setNext {}).getNext.data = 0 :=
      charAt_setNext_self _ _ (Nat.two_pow_pos _)
    have incremented : ((sci.setNext {}).getNext.add 1).data = 1 := by
      rw [BitStringChar.add, cleared]
    dsimp only
    by_cases same : idx = sci.depth
    · subst same
      rw [if_pos ⟨rfl, inside⟩]
      exact (charAt_setNext_self (sci.setNext {}) _ (by rw [incremented]; exact one)).trans incremented
    · rw [if_neg (fun both => same both.1), charAt_setNext_of_ne (sci.setNext {}) _ same,
        charAt_setNext_of_ne sci _ same]
  · rw [if_neg (by simp only [decide_eq_true_eq]; exact inside), if_neg (fun both => inside both.2)]

@[simp] theorem depth_maybeInitNext (sci : SubtypeCheckInfo) : sci.maybeInitNext.depth = sci.depth := by
  unfold maybeInitNext
  split <;> rfl

@[simp] theorem overflow_maybeInitNext (sci : SubtypeCheckInfo) :
    sci.maybeInitNext.bitstringAndOf.overflow = sci.bitstringAndOf.overflow := by
  unfold maybeInitNext
  split <;> rfl

theorem charAt_overwriteNextValueFromParent (sci child : SubtypeCheckInfo) (value : BitStringChar)
    (fits : value.data < 2 ^ bitSizeAt sci.depth) (idx : Nat) :
    (sci.overwriteNextValueFromParent child value).charAt idx =
      if idx = sci.depth ∧ sci.depth < kCapacity then value.data else child.charAt idx := by
  unfold overwriteNextValueFromParent hasNext
  by_cases inside : sci.depth < kCapacity
  · rw [if_pos (decide_eq_true inside)]
    by_cases same : idx = sci.depth
    · subst same
      rw [if_pos ⟨rfl, inside⟩]
      exact BitString.charAt_setAt_self _ _ _ fits
    · rw [if_neg (fun both => same both.1)]
      exact BitString.charAt_setAt_of_ne _ _ (Ne.symm same)
  · rw [if_neg (by simp only [decide_eq_true_eq]; exact inside), if_neg (fun both => inside both.2)]

@[simp] theorem depth_overwriteNextValueFromParent (sci child : SubtypeCheckInfo) (value : BitStringChar) :
    (sci.overwriteNextValueFromParent child value).depth = child.depth := by
  unfold overwriteNextValueFromParent
  split <;> rfl

@[simp] theorem overflow_overwriteNextValueFromParent (sci child : SubtypeCheckInfo)
    (value : BitStringChar) :
    (sci.overwriteNextValueFromParent child value).bitstringAndOf.overflow =
      child.bitstringAndOf.overflow := by
  unfold overwriteNextValueFromParent
  split <;> rfl

/-- The child label `CreateChild` builds before it looks at `assign_next`. -/
def initialChild (sci : SubtypeCheckInfo) : SubtypeCheckInfo :=
  sci.overwriteNextValueFromParent ({ sci with depth := sci.depth + 1 } : SubtypeCheckInfo).maybeInitNext {}

theorem charAt_initialChild (sci : SubtypeCheckInfo) (idx : Nat) :
    sci.initialChild.charAt idx =
      if idx = sci.depth ∧ sci.depth < kCapacity then 0
      else if idx = sci.depth + 1 ∧ sci.depth + 1 < kCapacity then 1 else sci.charAt idx := by
  rw [initialChild, charAt_overwriteNextValueFromParent _ _ _ (Nat.two_pow_pos _), charAt_maybeInitNext]
  rfl

theorem createChild_eq (sci : SubtypeCheckInfo) (assignNext : Bool) :
    sci.createChild assignNext =
      if assignNext ∧ sci.CanAssignNext then
        (sci.overwriteNextValueFromParent sci.initialChild sci.getNext, sci.setNext (sci.getNext.add 1))
      else if assignNext then (sci.initialChild.markOverflowed, sci)
      else (sci.initialChild, sci) := by
  unfold createChild CanAssignNext
  cases assignNext
  · simp [initialChild]
  · by_cases inside : sci.depth < 3
    · by_cases clear : sci.bitstringAndOf.overflow = false
      · by_cases atMax : sci.getBitString.charAt sci.depth = 2 ^ bitSizeAt sci.depth - 1
        · simp [hasNext, inside, clear, atMax, initialChild, getNext, BitStringChar.maximumValue, charAt]
        · simp [hasNext, inside, clear, atMax, initialChild, getNext, BitStringChar.maximumValue, charAt]
      · simp [hasNext, inside, clear, initialChild]
    · simp [hasNext, inside, initialChild]

@[simp] theorem depth_markOverflowed (sci : SubtypeCheckInfo) : sci.markOverflowed.depth = sci.depth :=
  rfl

@[simp] theorem charAt_markOverflowed (sci : SubtypeCheckInfo) (idx : Nat) :
    sci.markOverflowed.charAt idx = sci.charAt idx :=
  rfl

@[simp] theorem overflow_markOverflowed (sci : SubtypeCheckInfo) :
    sci.markOverflowed.bitstringAndOf.overflow = true :=
  rfl

@[simp] theorem depth_initialChild (sci : SubtypeCheckInfo) : sci.initialChild.depth = sci.depth + 1 := by
  rw [initialChild, depth_overwriteNextValueFromParent, depth_maybeInitNext]

@[simp] theorem overflow_initialChild (sci : SubtypeCheckInfo) :
    sci.initialChild.bitstringAndOf.overflow = sci.bitstringAndOf.overflow := by
  rw [initialChild, overflow_overwriteNextValueFromParent, overflow_maybeInitNext]

/-! ## What `CreateChild` builds -/

section CreateChild

variable (sci : SubtypeCheckInfo) (assignNext : Bool)

@[simp] theorem depth_createChild_fst : (sci.createChild assignNext).1.depth = sci.depth + 1 := by
  rw [createChild_eq]
  split_ifs <;> simp

theorem overflow_createChild_fst :
    (sci.createChild assignNext).1.bitstringAndOf.overflow =
      (sci.bitstringAndOf.overflow || (assignNext && !decide sci.CanAssignNext)) := by
  rw [createChild_eq]
  split_ifs with assigned assignedOnly
  · simp [assigned.2.2.1, assigned.1, assigned.2]
  · simp [assignedOnly, show ¬sci.CanAssignNext from fun can => assigned ⟨assignedOnly, can⟩]
  · simp [show assignNext = false by simpa using assignedOnly]

/-- The child's path is the parent's, then the handed-out `Next` (zero when
none is handed out), then a `Next` of one. -/
theorem charAt_createChild_fst (idx : Nat) :
    (sci.createChild assignNext).1.charAt idx =
      if idx = sci.depth ∧ sci.depth < kCapacity then
        (if assignNext ∧ sci.CanAssignNext then sci.charAt sci.depth else 0)
      else if idx = sci.depth + 1 ∧ sci.depth + 1 < kCapacity then 1 else sci.charAt idx := by
  rw [createChild_eq]
  by_cases assigned : assignNext = true ∧ sci.CanAssignNext
  · have fits : sci.getNext.data < 2 ^ bitSizeAt sci.depth := BitString.charAt_lt _ _
    rw [if_pos assigned]
    dsimp only
    rw [charAt_overwriteNextValueFromParent _ _ _ fits, charAt_initialChild, if_pos assigned]
    split_ifs <;> rfl
  · rw [if_neg assigned, if_neg assigned]
    split
    · rw [charAt_markOverflowed, charAt_initialChild]
    · rw [charAt_initialChild]

theorem createChild_snd :
    (sci.createChild assignNext).2 =
      if assignNext ∧ sci.CanAssignNext then sci.setNext (sci.getNext.add 1) else sci := by
  rw [createChild_eq]
  split_ifs <;> rfl

end CreateChild

theorem charAt_setNext_add_one {sci : SubtypeCheckInfo} (can : sci.CanAssignNext) (idx : Nat) :
    (sci.setNext (sci.getNext.add 1)).charAt idx =
      if idx = sci.depth then sci.charAt sci.depth + 1 else sci.charAt idx := by
  obtain ⟨-, -, notMax⟩ := can
  split
  · rename_i same
    subst same
    have below := BitString.charAt_lt sci.getBitString sci.depth
    exact charAt_setNext_self _ _ (by simp only [BitStringChar.add, getNext, BitString.get_data]; unfold charAt at notMax; omega)
  · rename_i different
    exact charAt_setNext_of_ne _ _ different

/-! ## States -/

theorem getState_eq_kOverflowed_iff (sci : SubtypeCheckInfo) :
    sci.getState = .kOverflowed ↔ sci.bitstringAndOf.overflow = true := by
  unfold getState
  split_ifs <;> simp_all

theorem getState_eq_kUninitialized_iff (sci : SubtypeCheckInfo) :
    sci.getState = .kUninitialized ↔
      sci.bitstringAndOf.overflow = false ∧ ∀ idx < kCapacity, sci.charAt idx = 0 := by
  unfold getState charAt getBitString
  rw [← BitString.isEmpty_iff]
  split_ifs <;> simp_all

/-- A label is `Assigned` when it is not overflowed, not empty, and its path is
as long as its depth: the depth fits the string and the last path character
is not zero. -/
theorem getState_eq_kAssigned_iff (sci : SubtypeCheckInfo) :
    sci.getState = .kAssigned ↔
      sci.bitstringAndOf.overflow = false ∧ (∃ idx < kCapacity, sci.charAt idx ≠ 0) ∧
        sci.depth ≤ kCapacity ∧ (sci.depth = 0 ∨ sci.charAt (sci.depth - 1) ≠ 0) := by
  have pathLength : sci.getPathToRoot.length = sci.depth ↔
      sci.depth ≤ kCapacity ∧ (sci.depth = 0 ∨ sci.charAt (sci.depth - 1) ≠ 0) := by
    unfold getPathToRoot getSafeDepth
    by_cases fits : sci.depth ≤ kCapacity
    · rw [Nat.min_eq_left fits, BitString.length_truncate_eq_iff _ fits]
      exact ⟨fun last => ⟨fits, last⟩, fun both => both.2⟩
    · have short := (sci.getBitString.truncate (min sci.depth kCapacity)).length_le
      constructor
      · intro long
        omega
      · intro both
        exact absurd both.1 fits
  unfold getState
  split_ifs with overflowed empty assigned
  · simp [overflowed]
  · -- an empty label is not assigned
    have allZero := (BitString.isEmpty_iff _).mp empty
    simp only [false_iff]
    rintro ⟨-, ⟨idx, inside, nonzero⟩, -⟩
    exact nonzero (allZero idx inside)
  · have nonEmpty : ∃ idx < kCapacity, sci.charAt idx ≠ 0 := by
      by_contra allZero
      apply empty
      apply (BitString.isEmpty_iff _).mpr
      intro idx inside
      by_contra nonzero
      exact allZero ⟨idx, inside, nonzero⟩
    simp only [true_iff]
    exact ⟨by simpa using overflowed, nonEmpty, pathLength.mp assigned⟩
  · simp only [false_iff]
    rintro ⟨-, -, fits, last⟩
    exact assigned (pathLength.mpr ⟨fits, last⟩)

/-- The masked comparison of `IsSubtypeOf`: the source's path, cut at the
target's depth, is the target's path. -/
theorem encoded_and_mask_eq_iff (sci target : SubtypeCheckInfo) :
    (sci.getEncodedPathToRoot &&& target.getEncodedPathToRootMask) = target.getEncodedPathToRoot ↔
      ∀ idx < min target.depth kCapacity,
        (if idx < min sci.depth kCapacity then sci.charAt idx else 0) = target.charAt idx := by
  unfold getEncodedPathToRoot getEncodedPathToRootMask getSafeDepth
  rw [BitString.storage_and_mask_eq _ (Nat.min_le_right _ _)]
  constructor
  · intro same idx below
    have chars := congrArg (fun bs : BitString => bs.charAt idx) (BitString.ext_storage same)
    have inside : idx < kCapacity := Nat.lt_of_lt_of_le below (Nat.min_le_right _ _)
    simp only [getPathToRoot, getSafeDepth, BitString.charAt_truncate _ _ inside, below, if_true] at chars
    exact chars
  · intro same
    apply congrArg BitString.storage
    apply BitString.ext_charAt
    intro idx inside
    simp only [getPathToRoot, getSafeDepth, BitString.charAt_truncate _ _ inside]
    split
    · rename_i below
      exact same idx below
    · rfl

/-! ## The root -/

@[simp] theorem depth_createRoot : createRoot.depth = 0 := rfl

@[simp] theorem overflow_createRoot : createRoot.bitstringAndOf.overflow = false := rfl

theorem charAt_createRoot (idx : Nat) : createRoot.charAt idx = if idx = 0 then 1 else 0 := by
  have emptyNext : ({ depth := 0, bitstringAndOf := {} } : SubtypeCheckInfo).getNext.data = 0 :=
    BitString.charAt_empty 0
  unfold createRoot
  dsimp only
  split
  · rename_i zero
    subst zero
    exact charAt_setNext_self _ _ (by simp only [BitStringChar.add, emptyNext]; simp)
  · rename_i nonzero
    rw [charAt_setNext_of_ne _ _ nonzero]
    exact BitString.charAt_empty idx

theorem getState_createRoot : createRoot.getState = .kAssigned := by
  rw [getState_eq_kAssigned_iff]
  exact ⟨rfl, ⟨0, by decide, by rw [charAt_createRoot]; simp⟩, by simp, Or.inl rfl⟩

/-! ## Labels built from an `Assigned` or `Overflowed` parent -/

theorem getState_eq_kInitialized {sci : SubtypeCheckInfo} (clear : sci.bitstringAndOf.overflow = false)
    (nonEmpty : ∃ idx < kCapacity, sci.charAt idx ≠ 0) (notAssigned : sci.getState ≠ .kAssigned) :
    sci.getState = .kInitialized := by
  cases state : sci.getState with
  | kUninitialized =>
      obtain ⟨idx, inside, nonzero⟩ := nonEmpty
      exact absurd (((getState_eq_kUninitialized_iff sci).mp state).2 idx inside) nonzero
  | kInitialized => rfl
  | kAssigned => exact absurd state notAssigned
  | kOverflowed =>
      rw [(getState_eq_kOverflowed_iff sci).mp state] at clear
      cases clear

theorem getState_eq_kAssigned_of_clear {sci : SubtypeCheckInfo}
    (final : sci.getState = .kAssigned ∨ sci.getState = .kOverflowed)
    (clear : sci.bitstringAndOf.overflow = false) : sci.getState = .kAssigned := by
  refine final.resolve_right ?_
  rw [getState_eq_kOverflowed_iff, clear]
  exact Bool.false_ne_true

/-- An `Assigned` label that gives no `Next` away still makes an `Initialized`
child: the child keeps the parent's nonzero path, or gets `Next` one below the root. -/
theorem exists_charAt_createChild_fst_ne_zero {sci : SubtypeCheckInfo} (assignNext : Bool)
    (assigned : sci.getState = .kAssigned) :
    ∃ idx < kCapacity, (sci.createChild assignNext).1.charAt idx ≠ 0 := by
  obtain ⟨-, -, fits, last⟩ := (getState_eq_kAssigned_iff sci).mp assigned
  rcases Nat.eq_zero_or_pos sci.depth with root | below
  · refine ⟨1, by decide, ?_⟩
    rw [charAt_createChild_fst, if_neg (by simp [root]), if_pos (by simp [root])]
    exact Nat.one_ne_zero
  · have last := last.resolve_left (by omega)
    refine ⟨sci.depth - 1, by simp at fits ⊢; omega, ?_⟩
    rw [charAt_createChild_fst, if_neg (by omega), if_neg (by omega)]
    exact last

/-- The state of the child label: `Assigned` when the parent hands out its
`Next`, `Overflowed` when the parent is overflowed or refuses `Next`,
`Initialized` otherwise. The parent is `Assigned` or `Overflowed`, and an
`Assigned` parent's `Next` is not zero. -/
theorem getState_createChild_fst {sci : SubtypeCheckInfo} (assignNext : Bool)
    (final : sci.getState = .kAssigned ∨ sci.getState = .kOverflowed)
    (nextPositive : sci.getState = .kAssigned → sci.depth < kCapacity → 0 < sci.charAt sci.depth) :
    (sci.createChild assignNext).1.getState =
      if assignNext ∧ sci.CanAssignNext then .kAssigned
      else if (sci.bitstringAndOf.overflow || assignNext) = true then .kOverflowed
      else .kInitialized := by
  by_cases handed : assignNext = true ∧ sci.CanAssignNext
  · rw [if_pos handed, getState_eq_kAssigned_iff]
    obtain ⟨assign, depthLt, clear, -⟩ := id handed
    have next : (sci.createChild assignNext).1.charAt sci.depth = sci.charAt sci.depth := by
      rw [charAt_createChild_fst, if_pos ⟨rfl, depthLt⟩, if_pos handed]
    have nonzero := nextPositive (getState_eq_kAssigned_of_clear final clear) depthLt
    refine ⟨?_, ⟨sci.depth, depthLt, by omega⟩, ?_, Or.inr ?_⟩
    · rw [overflow_createChild_fst, clear, assign, decide_eq_true handed.2]
      rfl
    · rw [depth_createChild_fst]
      exact depthLt
    · rw [depth_createChild_fst, Nat.add_sub_cancel, next]
      omega
  · rw [if_neg handed]
    split
    · rename_i overflowed
      rw [getState_eq_kOverflowed_iff, overflow_createChild_fst]
      cases assignNext
      · simpa using overflowed
      · simp only [true_and] at handed
        simp [handed]
    · rename_i notOverflowed
      simp only [Bool.or_eq_true, not_or, Bool.not_eq_true] at notOverflowed
      obtain ⟨clear, noAssign⟩ := notOverflowed
      subst noAssign
      have assigned := getState_eq_kAssigned_of_clear final clear
      have clearChild : (sci.createChild false).1.bitstringAndOf.overflow = false := by
        rw [overflow_createChild_fst, clear]
        rfl
      refine getState_eq_kInitialized clearChild (exists_charAt_createChild_fst_ne_zero false assigned) ?_
      -- without a handed-out `Next` the child's own character is zero
      rw [Ne, getState_eq_kAssigned_iff]
      rintro ⟨-, -, fits, last⟩
      rw [depth_createChild_fst] at fits last
      rw [Nat.add_sub_cancel, charAt_createChild_fst, if_pos ⟨rfl, by simp at fits ⊢; omega⟩] at last
      simp at last

theorem getState_setNext_add_one {sci : SubtypeCheckInfo} (can : sci.CanAssignNext)
    (assigned : sci.getState = .kAssigned) : (sci.setNext (sci.getNext.add 1)).getState = .kAssigned := by
  obtain ⟨clear, -, fits, last⟩ := (getState_eq_kAssigned_iff sci).mp assigned
  rw [getState_eq_kAssigned_iff, overflow_setNext, depth_setNext]
  refine ⟨clear, ⟨sci.depth, can.1, ?_⟩, fits, ?_⟩
  · rw [charAt_setNext_add_one can, if_pos rfl]
    omega
  · rcases Nat.eq_zero_or_pos sci.depth with root | below
    · exact Or.inl root
    · rw [charAt_setNext_add_one can, if_neg (by omega)]
      exact last

theorem getPathToRoot_setNext (sci : SubtypeCheckInfo) (next : BitStringChar) :
    (sci.setNext next).getPathToRoot = sci.getPathToRoot := by
  apply BitString.ext_charAt
  intro idx inside
  unfold getPathToRoot getSafeDepth
  rw [BitString.charAt_truncate _ _ inside, BitString.charAt_truncate _ _ inside, depth_setNext]
  split
  · exact charAt_setNext_of_ne sci next (by omega)
  · rfl

end SubtypeCheckInfo

end ArtRuntime.Runtime
