import Mathlib.Logic.Function.Basic

/-! # Class hierarchies

The classes a runtime has loaded form a tree: one root without a superclass
(`java.lang.Object`), every other class one level below its superclass.
`IsSubclassOf source target` holds when `target` is `source` or one of its
superclasses. The lemmas give the ancestor of a class at each depth and its
uniqueness.
-/

namespace ArtRuntime.Runtime

/-- A hierarchy of classes of type `C`. -/
structure ClassHierarchy (C : Type) where
  superClass : C → Option C
  depth : C → Nat
  root : C
  superClass_eq_none_iff : ∀ klass, superClass klass = none ↔ klass = root
  depth_root : depth root = 0
  depth_of_superClass : ∀ {klass parent}, superClass klass = some parent → depth klass = depth parent + 1

namespace ClassHierarchy

variable {C : Type} (hierarchy : ClassHierarchy C)

/-- `target` is `source` or a superclass of it. -/
inductive IsSubclassOf : C → C → Prop
  | refl (klass : C) : IsSubclassOf klass klass
  | superClass {klass parent target : C} :
      hierarchy.superClass klass = some parent → IsSubclassOf parent target → IsSubclassOf klass target

variable {hierarchy}

theorem depth_eq_zero_iff (klass : C) : hierarchy.depth klass = 0 ↔ klass = hierarchy.root := by
  constructor
  · intro zero
    cases parent : hierarchy.superClass klass with
    | none => exact (hierarchy.superClass_eq_none_iff klass).mp parent
    | some parent' =>
        rw [hierarchy.depth_of_superClass parent] at zero
        omega
  · rintro rfl
    exact hierarchy.depth_root

theorem exists_superClass {klass : C} (positive : 0 < hierarchy.depth klass) :
    ∃ parent, hierarchy.superClass klass = some parent ∧
      hierarchy.depth klass = hierarchy.depth parent + 1 := by
  cases parent : hierarchy.superClass klass with
  | none =>
      rw [(hierarchy.superClass_eq_none_iff klass).mp parent, hierarchy.depth_root] at positive
      omega
  | some parent' => exact ⟨parent', rfl, hierarchy.depth_of_superClass parent⟩

theorem ne_of_superClass {klass parent : C} (direct : hierarchy.superClass klass = some parent) :
    parent ≠ klass := by
  intro same
  have deeper := hierarchy.depth_of_superClass direct
  rw [same] at deeper
  omega

theorem eq_of_superClass {klass parent other : C} (direct : hierarchy.superClass klass = some parent)
    (alsoDirect : hierarchy.superClass klass = some other) : parent = other :=
  Option.some.inj (direct.symm.trans alsoDirect)

namespace IsSubclassOf

theorem trans {source middle target : C} (lower : hierarchy.IsSubclassOf source middle)
    (upper : hierarchy.IsSubclassOf middle target) : hierarchy.IsSubclassOf source target := by
  induction lower with
  | refl => exact upper
  | superClass parent _ induction => exact .superClass parent (induction upper)

theorem depth_le {source target : C} (below : hierarchy.IsSubclassOf source target) :
    hierarchy.depth target ≤ hierarchy.depth source := by
  induction below with
  | refl => exact Nat.le_refl _
  | superClass parent _ induction =>
      rw [hierarchy.depth_of_superClass parent]
      omega

theorem of_superClass {klass parent target : C} (below : hierarchy.IsSubclassOf klass target)
    (direct : hierarchy.superClass klass = some parent) (different : target ≠ klass) :
    hierarchy.IsSubclassOf parent target := by
  cases below with
  | refl => exact absurd rfl different
  | superClass parent' above =>
      rw [direct] at parent'
      cases parent'
      exact above

theorem root_of (klass : C) : hierarchy.IsSubclassOf klass hierarchy.root := by
  induction depthOf : hierarchy.depth klass generalizing klass with
  | zero =>
      rw [(depth_eq_zero_iff klass).mp depthOf]
      exact .refl _
  | succ depth induction =>
      obtain ⟨parent, direct, step⟩ := exists_superClass (show 0 < hierarchy.depth klass by omega)
      exact .superClass direct (induction parent (by omega))

theorem exists_at_depth (klass : C) {depth : Nat} (above : depth ≤ hierarchy.depth klass) :
    ∃ ancestor, hierarchy.IsSubclassOf klass ancestor ∧ hierarchy.depth ancestor = depth := by
  induction depthOf : hierarchy.depth klass generalizing klass with
  | zero => exact ⟨klass, .refl _, by omega⟩
  | succ level induction =>
      by_cases same : depth = level + 1
      · exact ⟨klass, .refl _, by omega⟩
      · obtain ⟨parent, direct, step⟩ := exists_superClass (show 0 < hierarchy.depth klass by omega)
        obtain ⟨ancestor, below, atDepth⟩ := induction parent (by omega) (by omega)
        exact ⟨ancestor, .superClass direct below, atDepth⟩

end IsSubclassOf

end ClassHierarchy

end ArtRuntime.Runtime
