import ArtRuntime.Runtime.ClassHierarchy
import ArtRuntime.Runtime.SubtypeCheckInfo

/-! # Subtype checks over a class hierarchy

`runtime/subtype_check.h`: every class keeps `SubtypeCheckBits` in its status
word. `InitializeOrAssign` first makes the superclass `Assigned` or
`Overflowed`, then derives the class's label from its parent's with
`CreateChild` and writes both labels back. `EnsureInitialized` and
`EnsureAssigned` call it; `IsSubtypeOf` compares the labels of two classes.

The bits of all classes are a map from classes to `SubtypeCheckBits`. The
compare-and-swap loop of `WriteSubtypeCheckBits` keeps the class status that
shares the word and retries only under contention, so a write is an update of
the map.
-/

namespace ArtRuntime.Runtime

open ArtRuntime.Base SubtypeCheckInfo

/-- The `SubtypeCheckBits` of every class. -/
abbrev ClassBits (C : Type) := C → SubtypeCheckBits

namespace SubtypeCheck

variable {C : Type} [DecidableEq C] (hierarchy : ClassHierarchy C)

/-- Every class zero-initialized, so `Uninitialized`. -/
def uninitialized : ClassBits C := fun _ => {}

/-- `GetSubtypeCheckInfo(klass, depth)`. -/
def getSubtypeCheckInfoAt (bits : ClassBits C) (klass : C) (depth : Nat) : SubtypeCheckInfo :=
  create (bits klass) depth

/-- `GetSubtypeCheckInfo(klass)`. -/
def getSubtypeCheckInfo (bits : ClassBits C) (klass : C) : SubtypeCheckInfo :=
  getSubtypeCheckInfoAt bits klass (hierarchy.depth klass)

/-- `SetSubtypeCheckInfo(klass, new_sci)`. -/
def setSubtypeCheckInfo (bits : ClassBits C) (klass : C) (newSci : SubtypeCheckInfo) : ClassBits C :=
  Function.update bits klass newSci.bitstringAndOf

/-- The part of `InitializeOrAssign` after the superclass is `Assigned` or
`Overflowed` at depth `parentDepth`. -/
def initializeFromParent (bits : ClassBits C) (klass parentKlass : C) (parentDepth : Nat)
    (assign : Bool) : SubtypeCheckInfo × ClassBits C :=
  let sci := getSubtypeCheckInfoAt bits klass (parentDepth + 1)
  let parentSci := getSubtypeCheckInfoAt bits parentKlass parentDepth
  let sciState := sci.getState
  if sciState = .kUninitialized ∨ (sciState = .kInitialized ∧ assign = true) then
    -- `CreateChild` may move the parent's `Next` on: both labels are written back
    let created := parentSci.createChild assign
    (created.1, setSubtypeCheckInfo (setSubtypeCheckInfo bits klass created.1) parentKlass created.2)
  else (sci, bits)

/-- `InitializeOrAssign(klass, assign)`: the class's label and the bits after. -/
def initializeOrAssign (bits : ClassBits C) (klass : C) (assign : Bool) :
    SubtypeCheckInfo × ClassBits C :=
  match parentOf : hierarchy.superClass klass with
  | none =>
      -- the root goes from `Uninitialized` straight to `Assigned`
      let rootSci := getSubtypeCheckInfo hierarchy bits klass
      if rootSci.getState ≠ .kUninitialized then (rootSci, bits)
      else (createRoot, setSubtypeCheckInfo bits klass createRoot)
  | some parentKlass =>
      have _ : hierarchy.depth klass = hierarchy.depth parentKlass + 1 := hierarchy.depth_of_superClass parentOf
      let parentResult := initializeOrAssign bits parentKlass true
      initializeFromParent parentResult.2 klass parentKlass parentResult.1.depth assign
termination_by hierarchy.depth klass

/-- `EnsureInitialized(klass)`: the state it returns and the bits after. -/
def ensureInitialized (bits : ClassBits C) (klass : C) : State × ClassBits C :=
  let result := initializeOrAssign hierarchy bits klass false
  (result.1.getState, result.2)

/-- `EnsureAssigned(klass)`: the state it returns and the bits after. -/
def ensureAssigned (bits : ClassBits C) (klass : C) : State × ClassBits C :=
  let result := initializeOrAssign hierarchy bits klass true
  (result.1.getState, result.2)

/-- `IsSubtypeOf(source, target)`. -/
def isSubtypeOf (bits : ClassBits C) (source target : C) : Result :=
  (getSubtypeCheckInfo hierarchy bits source).isSubtypeOf (getSubtypeCheckInfo hierarchy bits target)

/-- The calls that change the bits. -/
inductive Operation (C : Type)
  | ensureInitialized (klass : C)
  | ensureAssigned (klass : C)
  deriving DecidableEq, Repr

def step (bits : ClassBits C) : Operation C → ClassBits C
  | .ensureInitialized klass => (ensureInitialized hierarchy bits klass).2
  | .ensureAssigned klass => (ensureAssigned hierarchy bits klass).2

/-- The bits after a sequence of calls, from all classes zero-initialized. -/
def run (operations : List (Operation C)) : ClassBits C :=
  operations.foldl (step hierarchy) uninitialized

theorem run_append (operations more : List (Operation C)) :
    run hierarchy (operations ++ more) = more.foldl (step hierarchy) (run hierarchy operations) :=
  List.foldl_append

/-! ## Unfolding `InitializeOrAssign` -/

variable {hierarchy}

theorem initializeOrAssign_of_superClass_eq_none {bits : ClassBits C} {klass : C} (assign : Bool)
    (noParent : hierarchy.superClass klass = none) :
    initializeOrAssign hierarchy bits klass assign =
      if (getSubtypeCheckInfo hierarchy bits klass).getState ≠ .kUninitialized then
        (getSubtypeCheckInfo hierarchy bits klass, bits)
      else (createRoot, setSubtypeCheckInfo bits klass createRoot) := by
  rw [initializeOrAssign]
  split
  · rfl
  · rename_i parentOf
    rw [noParent] at parentOf
    cases parentOf

theorem initializeOrAssign_of_superClass_eq_some {bits : ClassBits C} {klass parent : C}
    (assign : Bool) (direct : hierarchy.superClass klass = some parent) :
    initializeOrAssign hierarchy bits klass assign =
      initializeFromParent (initializeOrAssign hierarchy bits parent true).2 klass parent
        (initializeOrAssign hierarchy bits parent true).1.depth assign := by
  rw [initializeOrAssign]
  split
  · rename_i parentOf
    rw [direct] at parentOf
    cases parentOf
  · rename_i parent' parentOf
    rw [direct] at parentOf
    cases parentOf
    rfl

theorem depth_initializeFromParent_fst (bits : ClassBits C) (klass parentKlass : C)
    (parentDepth : Nat) (assign : Bool) :
    (initializeFromParent bits klass parentKlass parentDepth assign).1.depth = parentDepth + 1 := by
  unfold initializeFromParent
  dsimp only
  split
  · exact depth_createChild_fst _ _
  · rfl

theorem depth_initializeOrAssign_fst (bits : ClassBits C) (klass : C) (assign : Bool) :
    (initializeOrAssign hierarchy bits klass assign).1.depth = hierarchy.depth klass := by
  induction depthOf : hierarchy.depth klass generalizing bits klass assign with
  | zero =>
      have root := (ClassHierarchy.depth_eq_zero_iff klass).mp depthOf
      rw [initializeOrAssign_of_superClass_eq_none assign ((hierarchy.superClass_eq_none_iff klass).mpr root)]
      split
      · exact depthOf
      · rfl
  | succ level induction =>
      obtain ⟨parent, direct, step⟩ := ClassHierarchy.exists_superClass (show 0 < hierarchy.depth klass by omega)
      rw [initializeOrAssign_of_superClass_eq_some assign direct, depth_initializeFromParent_fst,
        induction bits parent true (by omega)]

end SubtypeCheck

end ArtRuntime.Runtime
