import ArtRuntime.Runtime.SubtypeCheck

/-! # The invariant of the labels of a class hierarchy

`Consistent` collects what the labels of all classes satisfy from the
zero-initialized start on, whatever `EnsureInitialized` and `EnsureAssigned`
are called on: a class out of `Uninitialized` carries the sibling index of each
superclass at that superclass's position; siblings have distinct indices below
their parent's `Next`; an overflow within the capacity goes back to a class
that was refused a sibling index. The root step and the `CreateChild` step
keep it, and so does `InitializeOrAssign` by induction on the depth.
-/

namespace ArtRuntime.Runtime

open ArtRuntime.Base SubtypeCheckInfo

namespace SubtypeCheck

variable {C : Type} (hierarchy : ClassHierarchy C)

/-- The state of a class's label. -/
def stateOf (bits : ClassBits C) (klass : C) : State :=
  (getSubtypeCheckInfo hierarchy bits klass).getState

/-- A character of a class's label. -/
def charOf (bits : ClassBits C) (klass : C) (idx : Nat) : Nat :=
  (bits klass).bitstring.charAt idx

/-- The class was refused a sibling index: it is `Overflowed` below an
`Assigned` parent whose `Next` is the largest value of its position. -/
def Refused (bits : ClassBits C) (klass : C) : Prop :=
  (bits klass).overflow = true ∧ ∃ parent, hierarchy.superClass klass = some parent ∧
    hierarchy.depth parent < kCapacity ∧ stateOf hierarchy bits parent = .kAssigned ∧
    charOf bits parent (hierarchy.depth parent) = 2 ^ bitSizeAt (hierarchy.depth parent) - 1

structure Consistent (bits : ClassBits C) : Prop where
  /-- The root is `Uninitialized` or `Assigned`. -/
  root : stateOf hierarchy bits hierarchy.root ≠ .kUninitialized →
    stateOf hierarchy bits hierarchy.root = .kAssigned
  /-- A class out of `Uninitialized` holds each superclass's own character. -/
  path : ∀ {klass ancestor}, stateOf hierarchy bits klass ≠ .kUninitialized →
    hierarchy.IsSubclassOf klass ancestor → 0 < hierarchy.depth ancestor →
    hierarchy.depth ancestor ≤ kCapacity →
    charOf bits klass (hierarchy.depth ancestor - 1) = charOf bits ancestor (hierarchy.depth ancestor - 1)
  parentFinal : ∀ {klass parent}, hierarchy.superClass klass = some parent →
    stateOf hierarchy bits klass ≠ .kUninitialized →
    stateOf hierarchy bits parent = .kAssigned ∨ stateOf hierarchy bits parent = .kOverflowed
  parentAssigned : ∀ {klass parent}, hierarchy.superClass klass = some parent →
    stateOf hierarchy bits klass = .kAssigned → stateOf hierarchy bits parent = .kAssigned
  /-- Past a class's `Next` its label is zero. -/
  zeroAbove : ∀ {klass idx}, hierarchy.depth klass + 1 < idx → charOf bits klass idx = 0
  nextPositive : ∀ {klass}, stateOf hierarchy bits klass = .kAssigned →
    hierarchy.depth klass < kCapacity → 0 < charOf bits klass (hierarchy.depth klass)
  pathNonzero : ∀ {klass idx}, stateOf hierarchy bits klass = .kAssigned →
    idx < hierarchy.depth klass → charOf bits klass idx ≠ 0
  /-- Two subclasses of one parent with one nonzero sibling index are one class. -/
  siblingsDistinct : ∀ {parent first second}, hierarchy.superClass first = some parent →
    hierarchy.superClass second = some parent → hierarchy.depth parent < kCapacity →
    charOf bits first (hierarchy.depth parent) ≠ 0 →
    charOf bits first (hierarchy.depth parent) = charOf bits second (hierarchy.depth parent) →
    first = second
  /-- Sibling indices stay below the parent's `Next`. -/
  siblingsBelowNext : ∀ {klass parent}, hierarchy.superClass klass = some parent →
    hierarchy.depth parent < kCapacity → stateOf hierarchy bits parent = .kAssigned →
    charOf bits klass (hierarchy.depth parent) < charOf bits parent (hierarchy.depth parent)
  /-- An overflow within the capacity goes back to a refusal. -/
  overflowRefused : ∀ {klass}, (bits klass).overflow = true → hierarchy.depth klass ≤ kCapacity →
    ∃ ancestor, hierarchy.IsSubclassOf klass ancestor ∧ Refused hierarchy bits ancestor

/-- What a later state keeps of an earlier one: a class stays out of
`Uninitialized`, and an `Assigned` class stays `Assigned` with its path. -/
structure Keeps (before after : ClassBits C) : Prop where
  started : ∀ {klass}, stateOf hierarchy before klass ≠ .kUninitialized →
    stateOf hierarchy after klass ≠ .kUninitialized
  assigned : ∀ {klass}, stateOf hierarchy before klass = .kAssigned →
    stateOf hierarchy after klass = .kAssigned ∧
      (getSubtypeCheckInfo hierarchy after klass).getPathToRoot =
        (getSubtypeCheckInfo hierarchy before klass).getPathToRoot

variable {hierarchy}

theorem Keeps.refl (bits : ClassBits C) : Keeps hierarchy bits bits :=
  ⟨id, fun assigned => ⟨assigned, rfl⟩⟩

theorem Keeps.trans {first second third : ClassBits C} (earlier : Keeps hierarchy first second)
    (later : Keeps hierarchy second third) : Keeps hierarchy first third := by
  constructor
  · intro klass started
    exact later.started (earlier.started started)
  · intro klass assigned
    obtain ⟨assigned', samePath⟩ := earlier.assigned assigned
    obtain ⟨assigned'', samePath'⟩ := later.assigned assigned'
    exact ⟨assigned'', samePath'.trans samePath⟩

/-! ## Reading labels -/

@[simp] theorem depth_getSubtypeCheckInfo (bits : ClassBits C) (klass : C) :
    (getSubtypeCheckInfo hierarchy bits klass).depth = hierarchy.depth klass :=
  rfl

variable (hierarchy) in
theorem charAt_getSubtypeCheckInfo (bits : ClassBits C) (klass : C) (idx : Nat) :
    (getSubtypeCheckInfo hierarchy bits klass).charAt idx = charOf bits klass idx :=
  rfl

theorem ne_kUninitialized_of_final {state : State}
    (final : state = .kAssigned ∨ state = .kOverflowed) : state ≠ .kUninitialized := by
  rcases final with rfl | rfl <;> decide

theorem charOf_of_uninitialized {bits : ClassBits C} {klass : C}
    (uninitialized : stateOf hierarchy bits klass = .kUninitialized) (idx : Nat) : charOf bits klass idx = 0 := by
  by_cases inside : idx < kCapacity
  · exact ((getState_eq_kUninitialized_iff _).mp uninitialized).2 idx inside
  · exact BitString.charAt_of_ge _ (by omega)

theorem overflow_eq_false_of_open {bits : ClassBits C} {klass : C}
    (opened : stateOf hierarchy bits klass = .kUninitialized ∨ stateOf hierarchy bits klass = .kInitialized) :
    (bits klass).overflow = false := by
  cases overflow : (bits klass).overflow
  · rfl
  · have overflowed : stateOf hierarchy bits klass = .kOverflowed :=
      (getState_eq_kOverflowed_iff _).mpr overflow
    rcases opened with opened | opened <;> rw [overflowed] at opened <;> cases opened

theorem depth_le_of_assigned {bits : ClassBits C} {klass : C}
    (assigned : stateOf hierarchy bits klass = .kAssigned) : hierarchy.depth klass ≤ kCapacity :=
  ((getState_eq_kAssigned_iff _).mp assigned).2.2.1

/-! ## The zero-initialized start -/

theorem stateOf_uninitialized (klass : C) :
    stateOf hierarchy uninitialized klass = .kUninitialized := by
  rw [stateOf, getState_eq_kUninitialized_iff]
  exact ⟨rfl, fun idx _ => BitString.charAt_empty idx⟩

theorem consistent_uninitialized : Consistent hierarchy (uninitialized : ClassBits C) where
  root started := absurd (stateOf_uninitialized _) started
  path started := absurd (stateOf_uninitialized _) started
  parentFinal _ started := absurd (stateOf_uninitialized _) started
  parentAssigned _ assigned := by
    rw [stateOf_uninitialized] at assigned
    cases assigned
  zeroAbove _ := BitString.charAt_empty _
  nextPositive assigned := by
    rw [stateOf_uninitialized] at assigned
    cases assigned
  pathNonzero assigned := by
    rw [stateOf_uninitialized] at assigned
    cases assigned
  siblingsDistinct _ _ _ nonzero := absurd (BitString.charAt_empty _) nonzero
  siblingsBelowNext _ _ assigned := by
    rw [stateOf_uninitialized] at assigned
    cases assigned
  overflowRefused overflow := by
    cases overflow

/-! ## Consequences of the invariant -/

section Consequences

variable {bits : ClassBits C} (consistent : Consistent hierarchy bits)
include consistent

/-- The proper superclasses of a class out of `Uninitialized` are `Assigned`
or `Overflowed`. -/
theorem Consistent.final_of_isSubclassOf {klass ancestor : C}
    (started : stateOf hierarchy bits klass ≠ .kUninitialized)
    (below : hierarchy.IsSubclassOf klass ancestor) (proper : ancestor ≠ klass) :
    stateOf hierarchy bits ancestor = .kAssigned ∨ stateOf hierarchy bits ancestor = .kOverflowed := by
  induction below with
  | refl => exact absurd rfl proper
  | @superClass klass parent target direct _ induction =>
      have parentFinal := consistent.parentFinal direct started
      by_cases top : target = parent
      · subst top
        exact parentFinal
      · exact induction (ne_kUninitialized_of_final parentFinal) top

theorem Consistent.started_of_isSubclassOf {klass ancestor : C}
    (started : stateOf hierarchy bits klass ≠ .kUninitialized)
    (below : hierarchy.IsSubclassOf klass ancestor) :
    stateOf hierarchy bits ancestor ≠ .kUninitialized := by
  by_cases same : ancestor = klass
  · subst same
    exact started
  · exact ne_kUninitialized_of_final (consistent.final_of_isSubclassOf started below same)

/-- Below a class that is `Uninitialized` or `Initialized` every class is
`Uninitialized`. -/
theorem Consistent.uninitialized_below {klass subclass : C}
    (opened : stateOf hierarchy bits klass = .kUninitialized ∨ stateOf hierarchy bits klass = .kInitialized)
    (below : hierarchy.IsSubclassOf subclass klass) (proper : klass ≠ subclass) :
    stateOf hierarchy bits subclass = .kUninitialized := by
  by_contra started
  rcases consistent.final_of_isSubclassOf started below proper with final | final <;>
    rcases opened with opened | opened <;> rw [opened] at final <;> cases final

/-- A class out of `Uninitialized` holds the characters of each superclass's
path. -/
theorem Consistent.charOf_eq_of_isSubclassOf {klass ancestor : C} {idx : Nat}
    (started : stateOf hierarchy bits klass ≠ .kUninitialized)
    (below : hierarchy.IsSubclassOf klass ancestor) (onPath : idx < hierarchy.depth ancestor)
    (inside : idx < kCapacity) : charOf bits klass idx = charOf bits ancestor idx := by
  obtain ⟨owner, ownerBelow, ownerDepth⟩ :=
    ClassHierarchy.IsSubclassOf.exists_at_depth ancestor (show idx + 1 ≤ hierarchy.depth ancestor by omega)
  have fromKlass := consistent.path started (below.trans ownerBelow) (by omega) (by omega)
  have fromAncestor := consistent.path (consistent.started_of_isSubclassOf started below) ownerBelow
    (by omega) (by omega)
  rw [ownerDepth, Nat.add_sub_cancel] at fromKlass fromAncestor
  rw [fromKlass, fromAncestor]

end Consequences

/-! ## Writing labels -/

section Writes

variable [DecidableEq C] {bits : ClassBits C} {klass : C}

theorem getSubtypeCheckInfo_setSubtypeCheckInfo_self {sci : SubtypeCheckInfo}
    (depthOf : sci.depth = hierarchy.depth klass) :
    getSubtypeCheckInfo hierarchy (setSubtypeCheckInfo bits klass sci) klass = sci := by
  unfold getSubtypeCheckInfo getSubtypeCheckInfoAt setSubtypeCheckInfo
  rw [Function.update_self, ← depthOf]
  rfl

theorem getSubtypeCheckInfo_setSubtypeCheckInfo_of_ne (sci : SubtypeCheckInfo) {other : C}
    (different : other ≠ klass) :
    getSubtypeCheckInfo hierarchy (setSubtypeCheckInfo bits klass sci) other =
      getSubtypeCheckInfo hierarchy bits other := by
  unfold getSubtypeCheckInfo getSubtypeCheckInfoAt setSubtypeCheckInfo
  rw [Function.update_of_ne different]

theorem setSubtypeCheckInfo_of_ne (sci : SubtypeCheckInfo) {other : C} (different : other ≠ klass) :
    setSubtypeCheckInfo bits klass sci other = bits other :=
  Function.update_of_ne different _ _

theorem setSubtypeCheckInfo_self (sci : SubtypeCheckInfo) :
    setSubtypeCheckInfo bits klass sci klass = sci.bitstringAndOf :=
  Function.update_self _ _ _

theorem stateOf_setSubtypeCheckInfo_of_ne (sci : SubtypeCheckInfo) {other : C} (different : other ≠ klass) :
    stateOf hierarchy (setSubtypeCheckInfo bits klass sci) other = stateOf hierarchy bits other := by
  rw [stateOf, getSubtypeCheckInfo_setSubtypeCheckInfo_of_ne sci different, stateOf]

theorem charOf_setSubtypeCheckInfo_of_ne (sci : SubtypeCheckInfo) {other : C} (different : other ≠ klass)
    (idx : Nat) : charOf (setSubtypeCheckInfo bits klass sci) other idx = charOf bits other idx := by
  rw [charOf, setSubtypeCheckInfo_of_ne sci different, charOf]

theorem charOf_setSubtypeCheckInfo_self (sci : SubtypeCheckInfo) (idx : Nat) :
    charOf (setSubtypeCheckInfo bits klass sci) klass idx = sci.charAt idx := by
  rw [charOf, setSubtypeCheckInfo_self]
  rfl

end Writes

/-! ## The root step -/

section RootStep

variable [DecidableEq C] {bits : ClassBits C} (consistent : Consistent hierarchy bits)
  (uninitializedRoot : stateOf hierarchy bits hierarchy.root = .kUninitialized)
include consistent uninitializedRoot

theorem Consistent.uninitialized_of_root (klass : C) : stateOf hierarchy bits klass = .kUninitialized := by
  by_cases isRoot : klass = hierarchy.root
  · rw [isRoot]
    exact uninitializedRoot
  · exact consistent.uninitialized_below (Or.inl uninitializedRoot)
      (ClassHierarchy.IsSubclassOf.root_of klass) (Ne.symm isRoot)

theorem Consistent.rootStep_keeps :
    Keeps hierarchy bits (setSubtypeCheckInfo bits hierarchy.root createRoot) := by
  constructor
  · intro klass started
    exact absurd (consistent.uninitialized_of_root uninitializedRoot klass) started
  · intro klass assigned
    rw [consistent.uninitialized_of_root uninitializedRoot klass] at assigned
    cases assigned

theorem Consistent.rootStep :
    Consistent hierarchy (setSubtypeCheckInfo bits hierarchy.root createRoot) := by
  have rootLabel : getSubtypeCheckInfo hierarchy (setSubtypeCheckInfo bits hierarchy.root createRoot)
      hierarchy.root = SubtypeCheckInfo.createRoot :=
    getSubtypeCheckInfo_setSubtypeCheckInfo_self (by rw [depth_createRoot, hierarchy.depth_root])
  have rootState : stateOf hierarchy (setSubtypeCheckInfo bits hierarchy.root createRoot) hierarchy.root =
      .kAssigned := by
    rw [stateOf, rootLabel, getState_createRoot]
  have rootChar (idx : Nat) :
      charOf (setSubtypeCheckInfo bits hierarchy.root createRoot) hierarchy.root idx = if idx = 0 then 1 else 0 := by
    rw [charOf_setSubtypeCheckInfo_self, charAt_createRoot]
  -- every other class keeps its zero label
  have others {klass : C} (notRoot : klass ≠ hierarchy.root) :
      stateOf hierarchy (setSubtypeCheckInfo bits hierarchy.root createRoot) klass = .kUninitialized ∧
        ∀ idx, charOf (setSubtypeCheckInfo bits hierarchy.root createRoot) klass idx = 0 := by
    have uninitialized := consistent.uninitialized_of_root uninitializedRoot klass
    refine ⟨?_, fun idx => ?_⟩
    · rw [stateOf_setSubtypeCheckInfo_of_ne _ notRoot, uninitialized]
    · rw [charOf_setSubtypeCheckInfo_of_ne _ notRoot, charOf_of_uninitialized uninitialized]
  have isRoot_of_started (klass : C)
      (started : stateOf hierarchy (setSubtypeCheckInfo bits hierarchy.root createRoot) klass ≠ .kUninitialized) :
      klass = hierarchy.root := by
    by_contra notRoot
    exact started (others notRoot).1
  have notRoot_of_superClass {klass parent : C} (direct : hierarchy.superClass klass = some parent) :
      klass ≠ hierarchy.root := by
    intro isRoot
    rw [(hierarchy.superClass_eq_none_iff klass).mpr isRoot] at direct
    cases direct
  constructor
  · intro _
    exact rootState
  · intro klass ancestor started below positive _
    rw [isRoot_of_started klass started] at below
    have := below.depth_le
    rw [hierarchy.depth_root] at this
    omega
  · intro klass parent direct started
    exact absurd (isRoot_of_started klass started) (notRoot_of_superClass direct)
  · intro klass parent direct assigned
    exact absurd (isRoot_of_started klass (ne_kUninitialized_of_final (Or.inl assigned)))
      (notRoot_of_superClass direct)
  · intro klass idx above
    by_cases isRoot : klass = hierarchy.root
    · subst isRoot
      rw [rootChar, if_neg (by omega)]
    · exact (others isRoot).2 idx
  · intro klass assigned _
    rw [isRoot_of_started klass (ne_kUninitialized_of_final (Or.inl assigned)), rootChar,
      hierarchy.depth_root, if_pos rfl]
    exact Nat.one_pos
  · intro klass idx assigned below
    rw [isRoot_of_started klass (ne_kUninitialized_of_final (Or.inl assigned)), hierarchy.depth_root] at below
    omega
  · intro parent first _ direct _ _ nonzero
    exact absurd ((others (notRoot_of_superClass direct)).2 _) nonzero
  · intro klass parent direct _ assigned
    rw [isRoot_of_started parent (ne_kUninitialized_of_final (Or.inl assigned)), rootChar,
      (others (notRoot_of_superClass direct)).2,
      hierarchy.depth_root, if_pos rfl]
    exact Nat.one_pos
  · intro klass overflow _
    by_cases isRoot : klass = hierarchy.root
    · subst isRoot
      rw [setSubtypeCheckInfo_self, overflow_createRoot] at overflow
      cases overflow
    · rw [setSubtypeCheckInfo_of_ne _ isRoot,
        overflow_eq_false_of_open (Or.inl (consistent.uninitialized_of_root uninitializedRoot klass))] at overflow
      cases overflow

end RootStep

/-! ## The `CreateChild` step -/

section ChildStep

variable (hierarchy) in
/-- `InitializeOrAssign` is about to derive `klass`'s label from its parent's:
the bits are consistent, the parent is `Assigned` or `Overflowed`, and `klass`
is `Uninitialized`, or `Initialized` and to be assigned. -/
structure ChildStep (bits : ClassBits C) (klass parent : C) (assign : Bool) : Prop where
  consistent : Consistent hierarchy bits
  direct : hierarchy.superClass klass = some parent
  parentFinal : stateOf hierarchy bits parent = .kAssigned ∨ stateOf hierarchy bits parent = .kOverflowed
  opened : stateOf hierarchy bits klass = .kUninitialized ∨
    (stateOf hierarchy bits klass = .kInitialized ∧ assign = true)

namespace ChildStep

variable {bits : ClassBits C} {klass parent : C} {assign : Bool}
  (situation : ChildStep hierarchy bits klass parent assign)
include situation

theorem depth_klass : hierarchy.depth klass = hierarchy.depth parent + 1 :=
  hierarchy.depth_of_superClass situation.direct

theorem klass_ne_parent : klass ≠ parent :=
  (ClassHierarchy.ne_of_superClass situation.direct).symm

theorem parentStarted : stateOf hierarchy bits parent ≠ .kUninitialized :=
  ne_kUninitialized_of_final situation.parentFinal

theorem parent_assigned_of_can (can : (getSubtypeCheckInfo hierarchy bits parent).CanAssignNext) :
    stateOf hierarchy bits parent = .kAssigned :=
  getState_eq_kAssigned_of_clear situation.parentFinal can.2.1

theorem uninitialized_below {other : C} (below : hierarchy.IsSubclassOf other klass)
    (proper : klass ≠ other) : stateOf hierarchy bits other = .kUninitialized :=
  situation.consistent.uninitialized_below (situation.opened.imp_right And.left) below proper

theorem uninitialized_of_superClass {other : C} (direct : hierarchy.superClass other = some klass) :
    stateOf hierarchy bits other = .kUninitialized :=
  situation.uninitialized_below (.superClass direct (.refl _)) (ClassHierarchy.ne_of_superClass direct)

theorem ne_klass_of_superClass {other upper : C} (direct : hierarchy.superClass other = some upper)
    (started : stateOf hierarchy bits other ≠ .kUninitialized) : upper ≠ klass := by
  rintro rfl
  exact started (situation.uninitialized_of_superClass direct)

theorem klass_overflow : (bits klass).overflow = false :=
  overflow_eq_false_of_open (situation.opened.imp_right And.left)

end ChildStep

variable [DecidableEq C]

variable (hierarchy) in
/-- The bits `InitializeOrAssign` writes back when it derives `klass`'s label
from its parent's. -/
def childBits (bits : ClassBits C) (klass parent : C) (assign : Bool) : ClassBits C :=
  let created := (getSubtypeCheckInfo hierarchy bits parent).createChild assign
  setSubtypeCheckInfo (setSubtypeCheckInfo bits klass created.1) parent created.2

/-- With the parent's label read at its depth, the tail of `InitializeOrAssign`
writes `childBits` when the class still needs a label. -/
theorem initializeFromParent_eq {bits : ClassBits C} {klass parent : C} (assign : Bool)
    (direct : hierarchy.superClass klass = some parent) :
    initializeFromParent bits klass parent (hierarchy.depth parent) assign =
      if stateOf hierarchy bits klass = .kUninitialized ∨
          (stateOf hierarchy bits klass = .kInitialized ∧ assign = true) then
        (((getSubtypeCheckInfo hierarchy bits parent).createChild assign).1,
          childBits hierarchy bits klass parent assign)
      else (getSubtypeCheckInfo hierarchy bits klass, bits) := by
  unfold initializeFromParent
  rw [← hierarchy.depth_of_superClass direct]
  rfl

/-! ### What the step writes to the parent and leaves of the other classes -/

variable (hierarchy) in
theorem getSubtypeCheckInfo_childBits_parent (bits : ClassBits C) (klass parent : C) (assign : Bool) :
    getSubtypeCheckInfo hierarchy (childBits hierarchy bits klass parent assign) parent =
      ((getSubtypeCheckInfo hierarchy bits parent).createChild assign).2 := by
  unfold childBits
  rw [getSubtypeCheckInfo_setSubtypeCheckInfo_self (by rw [createChild_snd]; split <;> rfl)]

theorem getSubtypeCheckInfo_childBits_of_ne {bits : ClassBits C} {klass parent other : C} (assign : Bool)
    (notKlass : other ≠ klass) (notParent : other ≠ parent) :
    getSubtypeCheckInfo hierarchy (childBits hierarchy bits klass parent assign) other =
      getSubtypeCheckInfo hierarchy bits other := by
  unfold childBits
  rw [getSubtypeCheckInfo_setSubtypeCheckInfo_of_ne _ notParent,
    getSubtypeCheckInfo_setSubtypeCheckInfo_of_ne _ notKlass]

theorem overflow_childBits_of_ne {bits : ClassBits C} {klass parent other : C} {assign : Bool}
    (notKlass : other ≠ klass) :
    (childBits hierarchy bits klass parent assign other).overflow = (bits other).overflow := by
  by_cases isParent : other = parent
  · rw [isParent]
    have label := congrArg (fun sci => sci.bitstringAndOf.overflow)
      (getSubtypeCheckInfo_childBits_parent hierarchy bits klass parent assign)
    rw [createChild_snd] at label
    exact label.trans (by split <;> rfl)
  · exact congrArg (fun sci => sci.bitstringAndOf.overflow)
      (getSubtypeCheckInfo_childBits_of_ne assign notKlass isParent)

theorem charOf_childBits_of_ne {bits : ClassBits C} {klass parent other : C} {assign : Bool}
    (notKlass : other ≠ klass) (idx : Nat) :
    charOf (childBits hierarchy bits klass parent assign) other idx =
      if other = parent ∧ (assign = true ∧ (getSubtypeCheckInfo hierarchy bits parent).CanAssignNext) ∧
          idx = hierarchy.depth parent then
        charOf bits parent (hierarchy.depth parent) + 1
      else charOf bits other idx := by
  by_cases isParent : other = parent
  · rw [isParent, ← charAt_getSubtypeCheckInfo hierarchy,
      getSubtypeCheckInfo_childBits_parent hierarchy bits klass parent assign, createChild_snd]
    split
    · rename_i handed
      rw [charAt_setNext_add_one handed.2, depth_getSubtypeCheckInfo]
      by_cases atNext : idx = hierarchy.depth parent
      · rw [if_pos atNext, if_pos ⟨rfl, handed, atNext⟩]
        rfl
      · rw [if_neg atNext, if_neg (fun changed => atNext changed.2.2)]
        rfl
    · rename_i notHanded
      rw [if_neg (fun changed => notHanded changed.2.1)]
      rfl
  · rw [if_neg (fun changed => isParent changed.1), ← charAt_getSubtypeCheckInfo hierarchy,
      getSubtypeCheckInfo_childBits_of_ne assign notKlass isParent]
    rfl

theorem charOf_childBits_of_lt {bits : ClassBits C} {klass parent other : C} {assign : Bool}
    (notKlass : other ≠ klass) {idx : Nat}
    (onPath : idx < hierarchy.depth other) :
    charOf (childBits hierarchy bits klass parent assign) other idx = charOf bits other idx := by
  rw [charOf_childBits_of_ne notKlass, if_neg]
  rintro ⟨rfl, -, rfl⟩
  omega

theorem charOf_childBits_le {bits : ClassBits C} {klass parent other : C} {assign : Bool}
    (notKlass : other ≠ klass) (idx : Nat) :
    charOf bits other idx ≤ charOf (childBits hierarchy bits klass parent assign) other idx := by
  rw [charOf_childBits_of_ne notKlass]
  split
  · rename_i changed
    obtain ⟨rfl, -, rfl⟩ := changed
    omega
  · exact Nat.le_refl _

namespace ChildStep

variable {bits : ClassBits C} {klass parent : C} {assign : Bool}
  (situation : ChildStep hierarchy bits klass parent assign)
include situation

/-! ### The labels written back -/

theorem getSubtypeCheckInfo_klass :
    getSubtypeCheckInfo hierarchy (childBits hierarchy bits klass parent assign) klass =
      ((getSubtypeCheckInfo hierarchy bits parent).createChild assign).1 := by
  unfold childBits
  rw [getSubtypeCheckInfo_setSubtypeCheckInfo_of_ne _ situation.klass_ne_parent,
    getSubtypeCheckInfo_setSubtypeCheckInfo_self (by rw [depth_createChild_fst, situation.depth_klass]; rfl)]

theorem overflow_klass :
    (childBits hierarchy bits klass parent assign klass).overflow =
      ((bits parent).overflow || (assign && !decide (getSubtypeCheckInfo hierarchy bits parent).CanAssignNext)) :=
  (congrArg (fun sci => sci.bitstringAndOf.overflow) situation.getSubtypeCheckInfo_klass).trans
    (overflow_createChild_fst _ _)

/-- The state of `klass`: `Assigned` when the parent hands out `Next`,
`Overflowed` when the parent is overflowed or refuses, else `Initialized`. -/
theorem stateOf_klass :
    stateOf hierarchy (childBits hierarchy bits klass parent assign) klass =
      if assign = true ∧ (getSubtypeCheckInfo hierarchy bits parent).CanAssignNext then .kAssigned
      else if ((bits parent).overflow || assign) = true then .kOverflowed
      else .kInitialized := by
  rw [stateOf, situation.getSubtypeCheckInfo_klass]
  exact getState_createChild_fst assign situation.parentFinal
    (fun assigned depthLt => situation.consistent.nextPositive assigned depthLt)

/-- Every other class keeps its state; the parent stays `Assigned` when its
`Next` moves on. -/
theorem stateOf_of_ne {other : C} (notKlass : other ≠ klass) :
    stateOf hierarchy (childBits hierarchy bits klass parent assign) other = stateOf hierarchy bits other := by
  by_cases isParent : other = parent
  · rw [isParent, stateOf, getSubtypeCheckInfo_childBits_parent hierarchy bits klass parent assign,
      createChild_snd]
    split
    · rename_i handed
      have assigned := situation.parent_assigned_of_can handed.2
      exact (getState_setNext_add_one handed.2 assigned).trans assigned.symm
    · rfl
  · rw [stateOf, getSubtypeCheckInfo_childBits_of_ne assign notKlass isParent, stateOf]

theorem charOf_klass (idx : Nat) :
    charOf (childBits hierarchy bits klass parent assign) klass idx =
      if idx = hierarchy.depth parent ∧ hierarchy.depth parent < kCapacity then
        (if assign = true ∧ (getSubtypeCheckInfo hierarchy bits parent).CanAssignNext then
          charOf bits parent (hierarchy.depth parent) else 0)
      else if idx = hierarchy.depth parent + 1 ∧ hierarchy.depth parent + 1 < kCapacity then 1
      else charOf bits parent idx := by
  rw [← charAt_getSubtypeCheckInfo hierarchy, situation.getSubtypeCheckInfo_klass, charAt_createChild_fst]
  rfl

theorem handed_of_assigned
    (assigned : stateOf hierarchy (childBits hierarchy bits klass parent assign) klass = .kAssigned) :
    assign = true ∧ (getSubtypeCheckInfo hierarchy bits parent).CanAssignNext := by
  rw [situation.stateOf_klass] at assigned
  split_ifs at assigned with handed
  exact handed

theorem handed_of_charOf_ne_zero
    (nonzero : charOf (childBits hierarchy bits klass parent assign) klass (hierarchy.depth parent) ≠ 0) :
    (assign = true ∧ (getSubtypeCheckInfo hierarchy bits parent).CanAssignNext) ∧
      charOf (childBits hierarchy bits klass parent assign) klass (hierarchy.depth parent) =
        charOf bits parent (hierarchy.depth parent) := by
  by_cases inside : hierarchy.depth parent < kCapacity
  · rw [situation.charOf_klass, if_pos ⟨rfl, inside⟩] at nonzero ⊢
    split_ifs at nonzero ⊢ with handed
    · exact ⟨handed, rfl⟩
    · exact absurd rfl nonzero
  · exact absurd (BitString.charAt_of_ge _ (by omega)) nonzero

/-! ### The invariant after the step -/

theorem childBits_root
    (started : stateOf hierarchy (childBits hierarchy bits klass parent assign) hierarchy.root ≠ .kUninitialized) :
    stateOf hierarchy (childBits hierarchy bits klass parent assign) hierarchy.root = .kAssigned := by
  have notKlass : hierarchy.root ≠ klass := by
    intro isKlass
    have direct := situation.direct
    rw [← isKlass, (hierarchy.superClass_eq_none_iff _).mpr rfl] at direct
    cases direct
  rw [situation.stateOf_of_ne notKlass] at started ⊢
  exact situation.consistent.root started

theorem childBits_path {other ancestor : C}
    (started : stateOf hierarchy (childBits hierarchy bits klass parent assign) other ≠ .kUninitialized)
    (below : hierarchy.IsSubclassOf other ancestor) (positive : 0 < hierarchy.depth ancestor)
    (fits : hierarchy.depth ancestor ≤ kCapacity) :
    charOf (childBits hierarchy bits klass parent assign) other (hierarchy.depth ancestor - 1) =
      charOf (childBits hierarchy bits klass parent assign) ancestor (hierarchy.depth ancestor - 1) := by
  by_cases isKlass : other = klass
  · rw [isKlass] at below ⊢
    by_cases same : ancestor = klass
    · rw [same]
    · -- a proper superclass of `klass` lies on the parent's path, which `klass` copies
      have aboveParent := below.of_superClass situation.direct same
      have shallow := aboveParent.depth_le
      rw [situation.charOf_klass, if_neg (by omega), if_neg (by omega), charOf_childBits_of_lt same (by omega)]
      exact situation.consistent.path situation.parentStarted aboveParent positive fits
  · rw [situation.stateOf_of_ne isKlass] at started
    have notKlass : ancestor ≠ klass := by
      intro same
      rw [same] at below
      exact started (situation.uninitialized_below below (Ne.symm isKlass))
    have shallow := below.depth_le
    rw [charOf_childBits_of_lt isKlass (by omega), charOf_childBits_of_lt notKlass (by omega)]
    exact situation.consistent.path started below positive fits

theorem childBits_parentFinal {other upper : C} (direct : hierarchy.superClass other = some upper)
    (started : stateOf hierarchy (childBits hierarchy bits klass parent assign) other ≠ .kUninitialized) :
    stateOf hierarchy (childBits hierarchy bits klass parent assign) upper = .kAssigned ∨
      stateOf hierarchy (childBits hierarchy bits klass parent assign) upper = .kOverflowed := by
  by_cases isKlass : other = klass
  · rw [isKlass] at direct
    rw [← ClassHierarchy.eq_of_superClass situation.direct direct,
      situation.stateOf_of_ne situation.klass_ne_parent.symm]
    exact situation.parentFinal
  · rw [situation.stateOf_of_ne isKlass] at started
    rw [situation.stateOf_of_ne (situation.ne_klass_of_superClass direct started)]
    exact situation.consistent.parentFinal direct started

theorem childBits_parentAssigned {other upper : C} (direct : hierarchy.superClass other = some upper)
    (assigned : stateOf hierarchy (childBits hierarchy bits klass parent assign) other = .kAssigned) :
    stateOf hierarchy (childBits hierarchy bits klass parent assign) upper = .kAssigned := by
  by_cases isKlass : other = klass
  · rw [isKlass] at direct assigned
    rw [← ClassHierarchy.eq_of_superClass situation.direct direct,
      situation.stateOf_of_ne situation.klass_ne_parent.symm]
    exact situation.parent_assigned_of_can (situation.handed_of_assigned assigned).2
  · rw [situation.stateOf_of_ne isKlass] at assigned
    rw [situation.stateOf_of_ne
      (situation.ne_klass_of_superClass direct (ne_kUninitialized_of_final (Or.inl assigned)))]
    exact situation.consistent.parentAssigned direct assigned

theorem childBits_zeroAbove {other : C} {idx : Nat} (above : hierarchy.depth other + 1 < idx) :
    charOf (childBits hierarchy bits klass parent assign) other idx = 0 := by
  by_cases isKlass : other = klass
  · rw [isKlass, situation.depth_klass] at above
    rw [isKlass, situation.charOf_klass, if_neg (by omega), if_neg (by omega)]
    exact situation.consistent.zeroAbove (by omega)
  · rw [charOf_childBits_of_ne isKlass, if_neg (by rintro ⟨rfl, -, rfl⟩; omega)]
    exact situation.consistent.zeroAbove above

theorem childBits_nextPositive {other : C}
    (assigned : stateOf hierarchy (childBits hierarchy bits klass parent assign) other = .kAssigned)
    (inside : hierarchy.depth other < kCapacity) :
    0 < charOf (childBits hierarchy bits klass parent assign) other (hierarchy.depth other) := by
  by_cases isKlass : other = klass
  · -- the new label's `Next` is one
    rw [isKlass, situation.depth_klass] at inside ⊢
    rw [situation.charOf_klass, if_neg (by omega), if_pos ⟨rfl, inside⟩]
    exact Nat.one_pos
  · rw [situation.stateOf_of_ne isKlass] at assigned
    exact Nat.lt_of_lt_of_le (situation.consistent.nextPositive assigned inside) (charOf_childBits_le isKlass _)

theorem childBits_pathNonzero {other : C} {idx : Nat}
    (assigned : stateOf hierarchy (childBits hierarchy bits klass parent assign) other = .kAssigned)
    (onPath : idx < hierarchy.depth other) :
    charOf (childBits hierarchy bits klass parent assign) other idx ≠ 0 := by
  by_cases isKlass : other = klass
  · rw [isKlass] at assigned onPath ⊢
    have handed := situation.handed_of_assigned assigned
    have parentAssigned := situation.parent_assigned_of_can handed.2
    rw [situation.depth_klass] at onPath
    rw [situation.charOf_klass]
    by_cases atNext : idx = hierarchy.depth parent
    · rw [if_pos ⟨atNext, handed.2.1⟩, if_pos handed]
      exact Nat.pos_iff_ne_zero.mp (situation.consistent.nextPositive parentAssigned handed.2.1)
    · rw [if_neg (fun both => atNext both.1), if_neg (by omega)]
      exact situation.consistent.pathNonzero parentAssigned (by omega)
  · rw [situation.stateOf_of_ne isKlass] at assigned
    rw [charOf_childBits_of_lt isKlass onPath]
    exact situation.consistent.pathNonzero assigned onPath

theorem childBits_siblingsDistinct {upper first second : C}
    (firstDirect : hierarchy.superClass first = some upper)
    (secondDirect : hierarchy.superClass second = some upper) (inside : hierarchy.depth upper < kCapacity)
    (nonzero : charOf (childBits hierarchy bits klass parent assign) first (hierarchy.depth upper) ≠ 0)
    (same : charOf (childBits hierarchy bits klass parent assign) first (hierarchy.depth upper) =
      charOf (childBits hierarchy bits klass parent assign) second (hierarchy.depth upper)) :
    first = second := by
  -- a sibling of `klass` keeps an index below the `Next` that `klass` was handed
  have handedApart {sibling : C} (siblingDirect : hierarchy.superClass sibling = some parent)
      (notKlass : sibling ≠ klass)
      (klassNonzero : charOf (childBits hierarchy bits klass parent assign) klass (hierarchy.depth parent) ≠ 0) :
      charOf (childBits hierarchy bits klass parent assign) sibling (hierarchy.depth parent) ≠
        charOf (childBits hierarchy bits klass parent assign) klass (hierarchy.depth parent) := by
    obtain ⟨handed, handedChar⟩ := situation.handed_of_charOf_ne_zero klassNonzero
    have below := situation.consistent.siblingsBelowNext siblingDirect handed.2.1
      (situation.parent_assigned_of_can handed.2)
    rw [handedChar, charOf_childBits_of_lt notKlass (by rw [hierarchy.depth_of_superClass siblingDirect]; omega)]
    omega
  by_cases firstKlass : first = klass
  · by_cases secondKlass : second = klass
    · rw [firstKlass, secondKlass]
    · rw [firstKlass] at firstDirect nonzero same
      rw [← ClassHierarchy.eq_of_superClass situation.direct firstDirect] at secondDirect nonzero same
      exact absurd same.symm (handedApart secondDirect secondKlass nonzero)
  · by_cases secondKlass : second = klass
    · rw [secondKlass] at secondDirect same
      rw [← ClassHierarchy.eq_of_superClass situation.direct secondDirect] at firstDirect nonzero same
      exact absurd same (handedApart firstDirect firstKlass (by rw [← same]; exact nonzero))
    · have firstDeeper := hierarchy.depth_of_superClass firstDirect
      have secondDeeper := hierarchy.depth_of_superClass secondDirect
      rw [charOf_childBits_of_lt firstKlass (by omega), charOf_childBits_of_lt secondKlass (by omega)] at same
      rw [charOf_childBits_of_lt firstKlass (by omega)] at nonzero
      exact situation.consistent.siblingsDistinct firstDirect secondDirect inside nonzero same

theorem childBits_siblingsBelowNext {other upper : C} (direct : hierarchy.superClass other = some upper)
    (inside : hierarchy.depth upper < kCapacity)
    (assigned : stateOf hierarchy (childBits hierarchy bits klass parent assign) upper = .kAssigned) :
    charOf (childBits hierarchy bits klass parent assign) other (hierarchy.depth upper) <
      charOf (childBits hierarchy bits klass parent assign) upper (hierarchy.depth upper) := by
  by_cases isKlass : other = klass
  · rw [isKlass] at direct ⊢
    rw [← ClassHierarchy.eq_of_superClass situation.direct direct] at assigned inside ⊢
    rw [situation.stateOf_of_ne situation.klass_ne_parent.symm] at assigned
    rw [situation.charOf_klass, if_pos ⟨rfl, inside⟩, charOf_childBits_of_ne situation.klass_ne_parent.symm]
    by_cases handed : assign = true ∧ (getSubtypeCheckInfo hierarchy bits parent).CanAssignNext
    · rw [if_pos handed, if_pos ⟨rfl, handed, rfl⟩]
      omega
    · rw [if_neg handed, if_neg (fun changed => handed changed.2.1)]
      exact situation.consistent.nextPositive assigned inside
  · have deeper := hierarchy.depth_of_superClass direct
    rw [charOf_childBits_of_lt isKlass (by omega)]
    by_cases upperKlass : upper = klass
    · -- `klass` has just left `Uninitialized`: its subclasses are still zero
      rw [upperKlass] at direct inside ⊢
      rw [situation.depth_klass] at inside ⊢
      rw [charOf_of_uninitialized (situation.uninitialized_of_superClass direct), situation.charOf_klass,
        if_neg (by omega), if_pos ⟨rfl, inside⟩]
      exact Nat.one_pos
    · rw [situation.stateOf_of_ne upperKlass] at assigned
      exact Nat.lt_of_lt_of_le (situation.consistent.siblingsBelowNext direct inside assigned)
        (charOf_childBits_le upperKlass _)

/-- A refusal other than `klass` stays a refusal: the refused parent's `Next`
is at its maximum and cannot move on. -/
theorem refused_of_ne {other : C} (refused : Refused hierarchy bits other) (notKlass : other ≠ klass) :
    Refused hierarchy (childBits hierarchy bits klass parent assign) other := by
  obtain ⟨overflow, upper, direct, inside, assigned, atMax⟩ := refused
  have started : stateOf hierarchy bits other ≠ .kUninitialized := by
    intro uninitialized
    rw [overflow_eq_false_of_open (Or.inl uninitialized)] at overflow
    cases overflow
  have upperNotKlass := situation.ne_klass_of_superClass direct started
  refine ⟨(overflow_childBits_of_ne notKlass).trans overflow, upper, direct, inside,
    (situation.stateOf_of_ne upperNotKlass).trans assigned, ?_⟩
  rw [charOf_childBits_of_ne upperNotKlass, if_neg]
  · exact atMax
  · rintro ⟨rfl, handed, -⟩
    exact handed.2.2.2 atMax

theorem childBits_overflowRefused {other : C}
    (overflow : (childBits hierarchy bits klass parent assign other).overflow = true)
    (fits : hierarchy.depth other ≤ kCapacity) :
    ∃ ancestor, hierarchy.IsSubclassOf other ancestor ∧
      Refused hierarchy (childBits hierarchy bits klass parent assign) ancestor := by
  by_cases isKlass : other = klass
  · rw [isKlass] at overflow fits ⊢
    rw [situation.depth_klass] at fits
    have overflowKlass := overflow
    rw [situation.overflow_klass] at overflow
    cases parentOverflow : (bits parent).overflow
    · -- the parent was asked for `Next` and refused: it is at its maximum
      rw [parentOverflow] at overflow
      have notCan : ¬(getSubtypeCheckInfo hierarchy bits parent).CanAssignNext := by
        intro can
        simp [can] at overflow
      refine ⟨klass, .refl _, overflowKlass, parent, situation.direct, by omega, ?_, ?_⟩
      · rw [situation.stateOf_of_ne situation.klass_ne_parent.symm]
        exact getState_eq_kAssigned_of_clear situation.parentFinal parentOverflow
      · rw [charOf_childBits_of_ne situation.klass_ne_parent.symm, if_neg (fun changed => notCan changed.2.1.2)]
        by_contra notMax
        exact notCan ⟨show hierarchy.depth parent < kCapacity by omega, parentOverflow, notMax⟩
    · -- the parent's overflow goes back to a refusal above it
      obtain ⟨ancestor, below, refused⟩ := situation.consistent.overflowRefused parentOverflow (by omega)
      have shallow := below.depth_le
      refine ⟨ancestor, .superClass situation.direct below, situation.refused_of_ne refused ?_⟩
      intro same
      rw [same, situation.depth_klass] at shallow
      omega
  · rw [overflow_childBits_of_ne isKlass] at overflow
    obtain ⟨ancestor, below, refused⟩ := situation.consistent.overflowRefused overflow fits
    refine ⟨ancestor, below, situation.refused_of_ne refused ?_⟩
    intro same
    have ancestorOverflow := refused.1
    rw [same, situation.klass_overflow] at ancestorOverflow
    cases ancestorOverflow

theorem consistent_childBits : Consistent hierarchy (childBits hierarchy bits klass parent assign) where
  root := situation.childBits_root
  path := situation.childBits_path
  parentFinal := situation.childBits_parentFinal
  parentAssigned := situation.childBits_parentAssigned
  zeroAbove := situation.childBits_zeroAbove
  nextPositive := situation.childBits_nextPositive
  pathNonzero := situation.childBits_pathNonzero
  siblingsDistinct := situation.childBits_siblingsDistinct
  siblingsBelowNext := situation.childBits_siblingsBelowNext
  overflowRefused := situation.childBits_overflowRefused

theorem keeps_childBits : Keeps hierarchy bits (childBits hierarchy bits klass parent assign) := by
  constructor
  · intro other started
    by_cases isKlass : other = klass
    · rw [isKlass, situation.stateOf_klass]
      split_ifs <;> decide
    · rwa [situation.stateOf_of_ne isKlass]
  · intro other assigned
    have notKlass : other ≠ klass := by
      intro same
      rw [same] at assigned
      rcases situation.opened with opened | ⟨opened, -⟩ <;> rw [opened] at assigned <;> cases assigned
    refine ⟨(situation.stateOf_of_ne notKlass).trans assigned, ?_⟩
    by_cases isParent : other = parent
    · -- only the parent's `Next` moves, past its path
      rw [isParent, getSubtypeCheckInfo_childBits_parent hierarchy bits klass parent assign, createChild_snd]
      split
      · exact getPathToRoot_setNext _ _
      · rfl
    · rw [getSubtypeCheckInfo_childBits_of_ne assign notKlass isParent]

end ChildStep

end ChildStep

/-! ## Whole calls and runs -/

section Runs

variable [DecidableEq C]

variable (hierarchy) in
/-- What `InitializeOrAssign(klass, assign)` leaves: consistent bits that keep
what the earlier ones had, the class out of `Uninitialized` (`Assigned` or
`Overflowed` when assigning), and the class's own label returned. -/
structure Outcome (bits : ClassBits C) (klass : C) (assign : Bool) (result : SubtypeCheckInfo × ClassBits C) :
    Prop where
  consistent : Consistent hierarchy result.2
  keeps : Keeps hierarchy bits result.2
  label : result.1 = getSubtypeCheckInfo hierarchy result.2 klass
  started : stateOf hierarchy result.2 klass ≠ .kUninitialized
  final : assign = true →
    stateOf hierarchy result.2 klass = .kAssigned ∨ stateOf hierarchy result.2 klass = .kOverflowed

theorem final_of_ne {state : State} (started : state ≠ .kUninitialized) (initialized : state ≠ .kInitialized) :
    state = .kAssigned ∨ state = .kOverflowed := by
  cases state
  · exact absurd rfl started
  · exact absurd rfl initialized
  · exact Or.inl rfl
  · exact Or.inr rfl

theorem Consistent.outcome_root {bits : ClassBits C} (consistent : Consistent hierarchy bits) (assign : Bool) :
    Outcome hierarchy bits hierarchy.root assign (initializeOrAssign hierarchy bits hierarchy.root assign) := by
  rw [initializeOrAssign_of_superClass_eq_none assign ((hierarchy.superClass_eq_none_iff _).mpr rfl)]
  split
  · rename_i started
    exact ⟨consistent, Keeps.refl _, rfl, started, fun _ => Or.inl (consistent.root started)⟩
  · rename_i uninitialized
    have uninitializedRoot : stateOf hierarchy bits hierarchy.root = .kUninitialized := not_not.mp uninitialized
    have label : getSubtypeCheckInfo hierarchy (setSubtypeCheckInfo bits hierarchy.root createRoot)
        hierarchy.root = SubtypeCheckInfo.createRoot :=
      getSubtypeCheckInfo_setSubtypeCheckInfo_self (by rw [depth_createRoot, hierarchy.depth_root])
    have assigned : stateOf hierarchy (setSubtypeCheckInfo bits hierarchy.root createRoot) hierarchy.root =
        .kAssigned := by
      rw [stateOf, label, getState_createRoot]
    exact ⟨consistent.rootStep uninitializedRoot, consistent.rootStep_keeps uninitializedRoot, label.symm,
      ne_kUninitialized_of_final (Or.inl assigned), fun _ => Or.inl assigned⟩

theorem Consistent.outcome_initializeFromParent {bits : ClassBits C} {klass parent : C}
    (consistent : Consistent hierarchy bits) (direct : hierarchy.superClass klass = some parent)
    (parentFinal : stateOf hierarchy bits parent = .kAssigned ∨ stateOf hierarchy bits parent = .kOverflowed)
    (assign : Bool) :
    Outcome hierarchy bits klass assign (initializeFromParent bits klass parent (hierarchy.depth parent) assign) := by
  rw [initializeFromParent_eq assign direct]
  split
  · rename_i opened
    have situation : ChildStep hierarchy bits klass parent assign := ⟨consistent, direct, parentFinal, opened⟩
    refine ⟨situation.consistent_childBits, situation.keeps_childBits, situation.getSubtypeCheckInfo_klass.symm,
      ?_, ?_⟩
    · rw [situation.stateOf_klass]
      split_ifs <;> decide
    · intro assigning
      rw [situation.stateOf_klass]
      split_ifs with handed overflowed
      · exact Or.inl rfl
      · exact Or.inr rfl
      · simp [assigning] at overflowed
  · -- already `Initialized` or better: nothing is written
    rename_i upToDate
    refine ⟨consistent, Keeps.refl _, rfl, fun uninitialized => upToDate (Or.inl uninitialized), ?_⟩
    intro assigning
    exact final_of_ne (fun uninitialized => upToDate (Or.inl uninitialized))
      (fun initialized => upToDate (Or.inr ⟨initialized, assigning⟩))

/-- `InitializeOrAssign` keeps the invariant and leaves the class out of
`Uninitialized`, and `Assigned` or `Overflowed` when assigning: by induction on
the depth, through the call on the superclass. -/
theorem Consistent.outcome_initializeOrAssign {bits : ClassBits C} (consistent : Consistent hierarchy bits)
    (klass : C) (assign : Bool) :
    Outcome hierarchy bits klass assign (initializeOrAssign hierarchy bits klass assign) := by
  induction depthOf : hierarchy.depth klass generalizing bits klass assign with
  | zero =>
      rw [(ClassHierarchy.depth_eq_zero_iff klass).mp depthOf]
      exact consistent.outcome_root assign
  | succ level induction =>
      obtain ⟨parent, direct, oneUp⟩ :=
        ClassHierarchy.exists_superClass (show 0 < hierarchy.depth klass by omega)
      have parentOutcome := induction consistent parent true (by omega)
      have tailOutcome := parentOutcome.consistent.outcome_initializeFromParent direct (parentOutcome.final rfl)
        assign
      rw [initializeOrAssign_of_superClass_eq_some assign direct, depth_initializeOrAssign_fst]
      exact ⟨tailOutcome.consistent, parentOutcome.keeps.trans tailOutcome.keeps, tailOutcome.label,
        tailOutcome.started, tailOutcome.final⟩

theorem Consistent.step {bits : ClassBits C} (consistent : Consistent hierarchy bits) (operation : Operation C) :
    Consistent hierarchy (SubtypeCheck.step hierarchy bits operation) ∧
      Keeps hierarchy bits (SubtypeCheck.step hierarchy bits operation) := by
  cases operation with
  | ensureInitialized klass =>
      have outcome := consistent.outcome_initializeOrAssign klass false
      exact ⟨outcome.consistent, outcome.keeps⟩
  | ensureAssigned klass =>
      have outcome := consistent.outcome_initializeOrAssign klass true
      exact ⟨outcome.consistent, outcome.keeps⟩

theorem Consistent.foldl_step {bits : ClassBits C} (consistent : Consistent hierarchy bits)
    (operations : List (Operation C)) :
    Consistent hierarchy (operations.foldl (SubtypeCheck.step hierarchy) bits) ∧
      Keeps hierarchy bits (operations.foldl (SubtypeCheck.step hierarchy) bits) := by
  induction operations generalizing bits with
  | nil => exact ⟨consistent, Keeps.refl _⟩
  | cons operation rest induction =>
      obtain ⟨consistentNext, keepsNext⟩ := consistent.step operation
      obtain ⟨consistentRest, keepsRest⟩ := induction consistentNext
      exact ⟨consistentRest, keepsNext.trans keepsRest⟩

theorem consistent_run (operations : List (Operation C)) : Consistent hierarchy (run hierarchy operations) :=
  (consistent_uninitialized.foldl_step operations).1

theorem keeps_run_append (operations more : List (Operation C)) :
    Keeps hierarchy (run hierarchy operations) (run hierarchy (operations ++ more)) := by
  rw [run_append]
  exact ((consistent_run operations).foldl_step more).2

end Runs

end SubtypeCheck

end ArtRuntime.Runtime
