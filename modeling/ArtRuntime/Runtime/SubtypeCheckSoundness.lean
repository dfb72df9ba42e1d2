import ArtRuntime.Runtime.SubtypeCheckInvariant

/-! # Soundness and stability of bitstring subtype checks

On consistent labels `IsSubtypeOf` answers exactly: the answer is known when
the target is `Assigned` and the source out of `Uninitialized`, and it is then
`kSubtypeOf` just for the superclasses of the source. Runs from the
zero-initialized start keep the labels consistent, so this holds at every point
of every sequence of `EnsureInitialized` and `EnsureAssigned` calls; what
`EnsureAssigned` leaves, and that known answers never change, follow from the
same invariant and from what later states keep.
-/

namespace ArtRuntime.Runtime

open ArtRuntime.Base SubtypeCheckInfo

namespace SubtypeCheck

variable {C : Type} {hierarchy : ClassHierarchy C} {bits : ClassBits C}

theorem isSubtypeOf_eq (source target : C) :
    isSubtypeOf hierarchy bits source target =
      if stateOf hierarchy bits target ≠ .kAssigned then .kUnknownSubtypeOf
      else if stateOf hierarchy bits source = .kUninitialized then .kUnknownSubtypeOf
      else if ((getSubtypeCheckInfo hierarchy bits source).getEncodedPathToRoot &&&
          (getSubtypeCheckInfo hierarchy bits target).getEncodedPathToRootMask) =
          (getSubtypeCheckInfo hierarchy bits target).getEncodedPathToRoot then .kSubtypeOf
      else .kNotSubtypeOf :=
  rfl

theorem isSubtypeOf_of_unknown {source target : C}
    (unknown : stateOf hierarchy bits target ≠ .kAssigned ∨ stateOf hierarchy bits source = .kUninitialized) :
    isSubtypeOf hierarchy bits source target = .kUnknownSubtypeOf := by
  rw [isSubtypeOf_eq]
  rcases unknown with notAssigned | uninitialized
  · rw [if_pos notAssigned]
  · by_cases notAssigned : stateOf hierarchy bits target ≠ .kAssigned
    · rw [if_pos notAssigned]
    · rw [if_neg notAssigned, if_pos uninitialized]

section Sound

variable (consistent : Consistent hierarchy bits)
include consistent

/-- Two classes at one depth whose paths agree are one class when the second
is `Assigned`: by induction on the depth, through the parents, which agree on
the copied path, and the distinct sibling indices below them. -/
theorem Consistent.eq_of_charOf_eq {first second : C}
    (started : stateOf hierarchy bits first ≠ .kUninitialized)
    (assigned : stateOf hierarchy bits second = .kAssigned)
    (sameDepth : hierarchy.depth first = hierarchy.depth second)
    (samePath : ∀ idx < hierarchy.depth second, charOf bits first idx = charOf bits second idx) :
    first = second := by
  induction depthOf : hierarchy.depth second generalizing first second with
  | zero =>
      have firstRoot : hierarchy.depth first = 0 := by omega
      rw [(ClassHierarchy.depth_eq_zero_iff first).mp firstRoot,
        (ClassHierarchy.depth_eq_zero_iff second).mp depthOf]
  | succ level induction =>
      obtain ⟨firstParent, firstDirect, firstUp⟩ :=
        ClassHierarchy.exists_superClass (show 0 < hierarchy.depth first by omega)
      obtain ⟨secondParent, secondDirect, secondUp⟩ :=
        ClassHierarchy.exists_superClass (show 0 < hierarchy.depth second by omega)
      have fits := depth_le_of_assigned assigned
      have secondStarted := ne_kUninitialized_of_final (Or.inl assigned)
      have parentsPath : ∀ idx < hierarchy.depth secondParent,
          charOf bits firstParent idx = charOf bits secondParent idx := by
        intro idx onPath
        rw [← consistent.charOf_eq_of_isSubclassOf started (.superClass firstDirect (.refl _)) (by omega) (by omega),
          ← consistent.charOf_eq_of_isSubclassOf secondStarted (.superClass secondDirect (.refl _)) onPath
            (by omega)]
        exact samePath idx (by omega)
      have sameParent : firstParent = secondParent :=
        induction (ne_kUninitialized_of_final (consistent.parentFinal firstDirect started))
          (consistent.parentAssigned secondDirect assigned) (by omega) parentsPath (by omega)
      rw [← sameParent] at secondDirect
      -- the sibling indices at the parent's position agree, and the second's is not zero
      have siblingIndex := samePath (hierarchy.depth firstParent) (by omega)
      exact (consistent.siblingsDistinct secondDirect firstDirect (by omega)
        (consistent.pathNonzero assigned (by omega)) siblingIndex.symm).symm

/-- The masked comparison of `IsSubtypeOf` holds exactly for the superclasses
of the source, once the target is `Assigned` and the source out of
`Uninitialized`. -/
theorem Consistent.masked_path_eq_iff {source target : C}
    (started : stateOf hierarchy bits source ≠ .kUninitialized)
    (assigned : stateOf hierarchy bits target = .kAssigned) :
    ((getSubtypeCheckInfo hierarchy bits source).getEncodedPathToRoot &&&
        (getSubtypeCheckInfo hierarchy bits target).getEncodedPathToRootMask) =
        (getSubtypeCheckInfo hierarchy bits target).getEncodedPathToRoot ↔
      hierarchy.IsSubclassOf source target := by
  have fits := depth_le_of_assigned assigned
  rw [SubtypeCheckInfo.encoded_and_mask_eq_iff, depth_getSubtypeCheckInfo, depth_getSubtypeCheckInfo,
    Nat.min_eq_left fits]
  simp only [charAt_getSubtypeCheckInfo]
  constructor
  · intro samePath
    rcases Nat.eq_zero_or_pos (hierarchy.depth target) with atRoot | belowRoot
    · rw [(ClassHierarchy.depth_eq_zero_iff target).mp atRoot]
      exact ClassHierarchy.IsSubclassOf.root_of source
    · -- the target's last character is not zero, so the source is at least as deep
      have last := samePath (hierarchy.depth target - 1) (by omega)
      have deep : hierarchy.depth target ≤ hierarchy.depth source := by
        by_contra shallow
        rw [if_neg (by omega)] at last
        exact consistent.pathNonzero assigned (by omega) last.symm
      obtain ⟨ancestor, toAncestor, ancestorDepth⟩ :=
        ClassHierarchy.IsSubclassOf.exists_at_depth source deep
      have ancestorPath : ∀ idx < hierarchy.depth target,
          charOf bits ancestor idx = charOf bits target idx := by
        intro idx onPath
        have agree := samePath idx onPath
        rw [if_pos (by omega)] at agree
        rw [← consistent.charOf_eq_of_isSubclassOf started toAncestor (by omega) (by omega)]
        exact agree
      rw [← consistent.eq_of_charOf_eq (consistent.started_of_isSubclassOf started toAncestor) assigned
        ancestorDepth ancestorPath]
      exact toAncestor
  · intro below idx onPath
    have deep := below.depth_le
    rw [if_pos (by omega)]
    exact consistent.charOf_eq_of_isSubclassOf started below onPath (by omega)

theorem Consistent.isSubtypeOf_of_isSubclassOf {source target : C}
    (assigned : stateOf hierarchy bits target = .kAssigned)
    (started : stateOf hierarchy bits source ≠ .kUninitialized) (below : hierarchy.IsSubclassOf source target) :
    isSubtypeOf hierarchy bits source target = .kSubtypeOf := by
  rw [isSubtypeOf_eq, if_neg (not_not.mpr assigned), if_neg started,
    if_pos ((consistent.masked_path_eq_iff started assigned).mpr below)]

theorem Consistent.isSubtypeOf_of_not_isSubclassOf {source target : C}
    (assigned : stateOf hierarchy bits target = .kAssigned)
    (started : stateOf hierarchy bits source ≠ .kUninitialized) (notBelow : ¬hierarchy.IsSubclassOf source target) :
    isSubtypeOf hierarchy bits source target = .kNotSubtypeOf := by
  rw [isSubtypeOf_eq, if_neg (not_not.mpr assigned), if_neg started,
    if_neg (fun masked => notBelow ((consistent.masked_path_eq_iff started assigned).mp masked))]

theorem Consistent.isSubtypeOf_iff (source target : C) :
    (isSubtypeOf hierarchy bits source target = .kSubtypeOf ↔
      stateOf hierarchy bits target = .kAssigned ∧ stateOf hierarchy bits source ≠ .kUninitialized ∧
        hierarchy.IsSubclassOf source target) ∧
    (isSubtypeOf hierarchy bits source target = .kNotSubtypeOf ↔
      stateOf hierarchy bits target = .kAssigned ∧ stateOf hierarchy bits source ≠ .kUninitialized ∧
        ¬hierarchy.IsSubclassOf source target) ∧
    (isSubtypeOf hierarchy bits source target = .kUnknownSubtypeOf ↔
      stateOf hierarchy bits target ≠ .kAssigned ∨ stateOf hierarchy bits source = .kUninitialized) := by
  by_cases known : stateOf hierarchy bits target = .kAssigned ∧ stateOf hierarchy bits source ≠ .kUninitialized
  · obtain ⟨assigned, started⟩ := known
    have notUnknown : ¬(stateOf hierarchy bits target ≠ .kAssigned ∨
        stateOf hierarchy bits source = .kUninitialized) :=
      fun unknown => unknown.elim (fun notAssigned => notAssigned assigned) started
    by_cases below : hierarchy.IsSubclassOf source target
    · rw [consistent.isSubtypeOf_of_isSubclassOf assigned started below]
      exact ⟨iff_of_true rfl ⟨assigned, started, below⟩,
        iff_of_false (by decide) (fun answer => answer.2.2 below), iff_of_false (by decide) notUnknown⟩
    · rw [consistent.isSubtypeOf_of_not_isSubclassOf assigned started below]
      exact ⟨iff_of_false (by decide) (fun answer => below answer.2.2),
        iff_of_true rfl ⟨assigned, started, below⟩, iff_of_false (by decide) notUnknown⟩
  · have unknown : stateOf hierarchy bits target ≠ .kAssigned ∨
        stateOf hierarchy bits source = .kUninitialized := by
      by_cases assigned : stateOf hierarchy bits target = .kAssigned
      · exact Or.inr (not_not.mp fun started => known ⟨assigned, started⟩)
      · exact Or.inl assigned
    rw [isSubtypeOf_of_unknown unknown]
    exact ⟨iff_of_false (by decide) (fun answer => known ⟨answer.1, answer.2.1⟩),
      iff_of_false (by decide) (fun answer => known ⟨answer.1, answer.2.1⟩), iff_of_true rfl unknown⟩

end Sound

theorem Consistent.isSubtypeOf_eq_of_keeps {later : ClassBits C} (consistent : Consistent hierarchy bits)
    (consistentLater : Consistent hierarchy later) (keeps : Keeps hierarchy bits later) {source target : C}
    (known : isSubtypeOf hierarchy bits source target ≠ .kUnknownSubtypeOf) :
    isSubtypeOf hierarchy later source target = isSubtypeOf hierarchy bits source target := by
  have assigned : stateOf hierarchy bits target = .kAssigned := by
    by_contra notAssigned
    exact known (isSubtypeOf_of_unknown (Or.inl notAssigned))
  have started : stateOf hierarchy bits source ≠ .kUninitialized :=
    fun uninitialized => known (isSubtypeOf_of_unknown (Or.inr uninitialized))
  have assignedLater := (keeps.assigned assigned).1
  have startedLater := keeps.started started
  by_cases below : hierarchy.IsSubclassOf source target
  · rw [consistentLater.isSubtypeOf_of_isSubclassOf assignedLater startedLater below,
      consistent.isSubtypeOf_of_isSubclassOf assigned started below]
  · rw [consistentLater.isSubtypeOf_of_not_isSubclassOf assignedLater startedLater below,
      consistent.isSubtypeOf_of_not_isSubclassOf assigned started below]

/-! ## After `EnsureAssigned` -/

/-- An `Assigned` or `Overflowed` class within the capacity is `Assigned` unless
one of its superclasses, itself included, was refused a sibling index. -/
theorem Consistent.assigned_of_not_refused (consistent : Consistent hierarchy bits) {klass : C}
    (final : stateOf hierarchy bits klass = .kAssigned ∨ stateOf hierarchy bits klass = .kOverflowed)
    (fits : hierarchy.depth klass ≤ kCapacity)
    (noRefusal : ∀ ancestor, hierarchy.IsSubclassOf klass ancestor → ¬Refused hierarchy bits ancestor) :
    stateOf hierarchy bits klass = .kAssigned := by
  refine final.resolve_right fun overflowed => ?_
  obtain ⟨ancestor, below, refused⟩ :=
    consistent.overflowRefused ((getState_eq_kOverflowed_iff _).mp overflowed) fits
  exact noRefusal ancestor below refused

variable [DecidableEq C]

/-- `EnsureAssigned` returns the class's state, leaves it and all its
superclasses `Assigned` or `Overflowed`, and the class `Assigned` within the
capacity unless a superclass or the class itself was refused. -/
theorem Consistent.ensureAssigned_spec (consistent : Consistent hierarchy bits) (klass : C) :
    (ensureAssigned hierarchy bits klass).1 = stateOf hierarchy (ensureAssigned hierarchy bits klass).2 klass ∧
    (∀ ancestor, hierarchy.IsSubclassOf klass ancestor →
      stateOf hierarchy (ensureAssigned hierarchy bits klass).2 ancestor = .kAssigned ∨
        stateOf hierarchy (ensureAssigned hierarchy bits klass).2 ancestor = .kOverflowed) ∧
    (hierarchy.depth klass ≤ kCapacity →
      (∀ ancestor, hierarchy.IsSubclassOf klass ancestor →
        ¬Refused hierarchy (ensureAssigned hierarchy bits klass).2 ancestor) →
      stateOf hierarchy (ensureAssigned hierarchy bits klass).2 klass = .kAssigned) := by
  have outcome := consistent.outcome_initializeOrAssign klass true
  have final := outcome.final rfl
  refine ⟨by rw [ensureAssigned, outcome.label]; rfl, ?_, ?_⟩
  · intro ancestor below
    by_cases same : ancestor = klass
    · rw [same]
      exact final
    · exact outcome.consistent.final_of_isSubclassOf outcome.started below same
  · intro fits noRefusal
    exact outcome.consistent.assigned_of_not_refused final fits noRefusal

/-! ## Every run of calls -/

theorem run_ensureAssigned (operations : List (Operation C)) (klass : C) :
    run hierarchy (operations ++ [.ensureAssigned klass]) =
      (ensureAssigned hierarchy (run hierarchy operations) klass).2 := by
  rw [run_append]
  rfl

/-- Bitstring subtype checks over every sequence of `EnsureInitialized` and
`EnsureAssigned` calls from zero-initialized bits: `IsSubtypeOf` answers
exactly; `EnsureAssigned` leaves its class and all superclasses `Assigned` or
`Overflowed`, the class `Assigned` within the capacity unless a class on its
path was refused; `Assigned` classes keep their encoded path and mask, and
known answers never change. -/
theorem subtypeCheck_sound_and_stable (hierarchy : ClassHierarchy C) (operations : List (Operation C)) :
    (∀ source target,
      (isSubtypeOf hierarchy (run hierarchy operations) source target = .kSubtypeOf ↔
        stateOf hierarchy (run hierarchy operations) target = .kAssigned ∧
          stateOf hierarchy (run hierarchy operations) source ≠ .kUninitialized ∧
          hierarchy.IsSubclassOf source target) ∧
      (isSubtypeOf hierarchy (run hierarchy operations) source target = .kNotSubtypeOf ↔
        stateOf hierarchy (run hierarchy operations) target = .kAssigned ∧
          stateOf hierarchy (run hierarchy operations) source ≠ .kUninitialized ∧
          ¬hierarchy.IsSubclassOf source target) ∧
      (isSubtypeOf hierarchy (run hierarchy operations) source target = .kUnknownSubtypeOf ↔
        stateOf hierarchy (run hierarchy operations) target ≠ .kAssigned ∨
          stateOf hierarchy (run hierarchy operations) source = .kUninitialized)) ∧
    (∀ klass,
      (ensureAssigned hierarchy (run hierarchy operations) klass).1 =
          stateOf hierarchy (run hierarchy (operations ++ [.ensureAssigned klass])) klass ∧
      (∀ ancestor, hierarchy.IsSubclassOf klass ancestor →
        stateOf hierarchy (run hierarchy (operations ++ [.ensureAssigned klass])) ancestor = .kAssigned ∨
          stateOf hierarchy (run hierarchy (operations ++ [.ensureAssigned klass])) ancestor = .kOverflowed) ∧
      (hierarchy.depth klass ≤ kCapacity →
        (∀ ancestor, hierarchy.IsSubclassOf klass ancestor →
          ¬Refused hierarchy (run hierarchy (operations ++ [.ensureAssigned klass])) ancestor) →
        stateOf hierarchy (run hierarchy (operations ++ [.ensureAssigned klass])) klass = .kAssigned)) ∧
    (∀ more klass, stateOf hierarchy (run hierarchy operations) klass = .kAssigned →
      stateOf hierarchy (run hierarchy (operations ++ more)) klass = .kAssigned ∧
        (getSubtypeCheckInfo hierarchy (run hierarchy (operations ++ more)) klass).getEncodedPathToRoot =
          (getSubtypeCheckInfo hierarchy (run hierarchy operations) klass).getEncodedPathToRoot ∧
        (getSubtypeCheckInfo hierarchy (run hierarchy (operations ++ more)) klass).getEncodedPathToRootMask =
          (getSubtypeCheckInfo hierarchy (run hierarchy operations) klass).getEncodedPathToRootMask) ∧
    (∀ more source target,
      isSubtypeOf hierarchy (run hierarchy operations) source target ≠ .kUnknownSubtypeOf →
        isSubtypeOf hierarchy (run hierarchy (operations ++ more)) source target =
          isSubtypeOf hierarchy (run hierarchy operations) source target) := by
  have consistent : Consistent hierarchy (run hierarchy operations) := consistent_run operations
  refine ⟨fun source target => consistent.isSubtypeOf_iff source target, fun klass => ?_, ?_, ?_⟩
  · rw [run_ensureAssigned]
    exact consistent.ensureAssigned_spec klass
  · intro more klass assigned
    obtain ⟨assignedLater, samePath⟩ := (keeps_run_append operations more).assigned assigned
    -- the mask depends on the depth alone
    exact ⟨assignedLater, congrArg BitString.storage samePath, rfl⟩
  · intro more source target known
    exact consistent.isSubtypeOf_eq_of_keeps (consistent_run (operations ++ more))
      (keeps_run_append operations more) known

end SubtypeCheck

end ArtRuntime.Runtime
