import ArtRuntime.Compiler.X8664.Label

/-! # Where the labels of the x86-64 assembler resolve

`Layout` says what a sequence of calls is meant to produce, with no links in
it: the bytes outside the displacement fields, where each label is bound, and
the displacement fields with their labels. A branch to a bound label takes the
2-byte form where its displacement fits a byte and the long form otherwise; to
a label not bound yet it takes the long form for a `Label` and the short one
for a `NearLabel`. `Layout.step` accepts the runs the source is meant for: each
label bound once, and the displacements of a `NearLabel` and the distances
between its links within a byte, as its `CHECK`s demand.

`Realizes` relates the assembler to the layout: the same size and the same
bytes outside the fields, the fields of a bound label patched and those of a
label not bound yet chained. Each call keeps it, so after a run every field of
a bound label holds the distance from its end to the label. -/

namespace ArtRuntime.Compiler.X8664

open ArtRuntime.Foundation

/-- A displacement field of `width` bytes at `field`, of a branch to the label
`label` of the kind `near`. -/
structure Reference where
  near : Bool
  label : Nat
  field : Nat
  width : Nat
  deriving DecidableEq, Repr

/-- `Bind` of the label `label` of the kind `near`. -/
def Call.bindOf (near : Bool) (label : Nat) : Call := if near then .bindNear label else .bind label

/-- What the calls are meant to produce: the bytes outside the displacement
fields, none in them, where each label is bound, and the fields. -/
structure Layout where
  image : List (Option UInt8)
  bound : Bool → Nat → Option Nat
  references : List Reference

namespace Layout

def empty : Layout := ⟨[], fun _ _ => none, []⟩

def size (layout : Layout) : Nat := layout.image.length

/-- Bytes outside any field. -/
def emit (layout : Layout) (bytes : List UInt8) : Layout :=
  { layout with image := layout.image ++ bytes.map some }

/-- An instruction: its opcode, then a field of `width` bytes for the label. -/
def reference (layout : Layout) (opcode : List UInt8) (near : Bool) (label width : Nat) : Layout :=
  { layout with
    image := layout.image ++ opcode.map some ++ List.replicate width none
    references := layout.references ++ [⟨near, label, layout.size + opcode.length, width⟩] }

/-- The fields of the references to a label, newest first. -/
def fieldsOf (layout : Layout) (near : Bool) (label : Nat) : List Nat :=
  ((layout.references.filter fun r => r.near == near && r.label == label).map Reference.field).reverse

/-- A branch to a `Label`: the short form `short` to a bound label whose
displacement fits a byte, else the long form `long`. -/
def branch (layout : Layout) (short : UInt8) (long : List UInt8) (label : Nat) : Layout :=
  match layout.bound false label with
  | some target =>
    if isInt8 (target - (layout.size + 2)) then layout.reference [short] false label 1
    else layout.reference long false label 4
  | none => layout.reference long false label 4

/-- A branch to a `NearLabel`, which must reach a bound label within a byte
and stay within 255 bytes of the previous branch to a label not bound yet. -/
def nearBranch (layout : Layout) (opcode : UInt8) (label : Nat) : Option Layout :=
  match layout.bound true label with
  | some target =>
    if isInt8 (target - (layout.size + 2)) then some (layout.reference [opcode] true label 1)
    else none
  | none =>
    match (layout.fieldsOf true label).head? with
    | some previous =>
      if layout.size + 1 ≤ previous + 255 then some (layout.reference [opcode] true label 1)
      else none
    | none => some (layout.reference [opcode] true label 1)

/-- The label bound at the end of the code. -/
def bind (layout : Layout) (near : Bool) (label : Nat) : Layout :=
  { layout with bound := fun kind other =>
      if kind = near ∧ other = label then some layout.size else layout.bound kind other }

def step (layout : Layout) : Call → Option Layout
  | .emit bytes => some (layout.emit bytes)
  | .j condition label =>
    some (layout.branch (UInt8.ofNat (0x70 + condition.toNat))
      [0x0F, UInt8.ofNat (0x80 + condition.toNat)] label)
  | .jNear condition label => layout.nearBranch (UInt8.ofNat (0x70 + condition.toNat)) label
  | .jrcxz label => layout.nearBranch 0xE3 label
  | .jmp label => some (layout.branch 0xEB [0xE9] label)
  | .jmpNear label => layout.nearBranch 0xEB label
  | .call label => some (layout.reference [0xE8] false label 4)
  | .bind label => if (layout.bound false label).isSome then none else some (layout.bind false label)
  | .bindNear label =>
    if (layout.bound true label).isSome then none
    else if (layout.fieldsOf true label).all fun field => isInt8 (layout.size - (field + 1)) then
      some (layout.bind true label)
    else none

def run (layout : Layout) (calls : List Call) : Option Layout := calls.foldlM step layout

section Parts

variable (layout : Layout) (opcode : List UInt8) (near : Bool) (label width : Nat)

@[simp] theorem size_emit (bytes : List UInt8) : (layout.emit bytes).size = layout.size + bytes.length := by
  simp [emit, size]

@[simp] theorem size_reference :
    (layout.reference opcode near label width).size = layout.size + (opcode.length + width) := by
  simp only [reference, size, List.length_append, List.length_map, List.length_replicate]
  omega

@[simp] theorem bound_reference : (layout.reference opcode near label width).bound = layout.bound := rfl

@[simp] theorem image_bind : (layout.bind near label).image = layout.image := rfl

theorem fieldsOf_reference_self :
    (layout.reference opcode near label width).fieldsOf near label =
      (layout.size + opcode.length) :: layout.fieldsOf near label := by
  simp [fieldsOf, reference, List.filter_append]

theorem fieldsOf_reference_of_ne {kind : Bool} {other : Nat} (apart : ¬(kind = near ∧ other = label)) :
    (layout.reference opcode near label width).fieldsOf kind other = layout.fieldsOf kind other := by
  have skipped : (near == kind && label == other) = false := by
    by_cases same : near = kind
    · simp only [same, beq_self_eq_true, Bool.true_and, beq_eq_false_iff_ne]
      exact fun labelSame => apart ⟨same.symm, labelSame.symm⟩
    · simp [same]
  simp [fieldsOf, reference, List.filter_append, skipped]

end Parts

theorem size_le_branch (layout : Layout) (short : UInt8) (long : List UInt8) (label : Nat) :
    layout.size ≤ (layout.branch short long label).size := by
  unfold branch
  split
  · split_ifs <;> simp
  · simp

theorem size_le_nearBranch {layout planned : Layout} {opcode : UInt8} {label : Nat}
    (stepped : layout.nearBranch opcode label = some planned) : layout.size ≤ planned.size := by
  unfold nearBranch at stepped
  split at stepped
  · split_ifs at stepped
    obtain rfl := Option.some.inj stepped
    simp
  · split at stepped
    · split_ifs at stepped
      obtain rfl := Option.some.inj stepped
      simp
    · obtain rfl := Option.some.inj stepped
      simp

theorem size_le_step {layout planned : Layout} {call : Call} (stepped : layout.step call = some planned) :
    layout.size ≤ planned.size := by
  cases call with
  | emit bytes =>
    obtain rfl := Option.some.inj stepped
    simp
  | j _ label | jmp label =>
    obtain rfl := Option.some.inj stepped
    exact size_le_branch _ _ _ _
  | jNear _ label | jrcxz label | jmpNear label => exact size_le_nearBranch stepped
  | call label =>
    obtain rfl := Option.some.inj stepped
    simp
  | bind label | bindNear label =>
    simp only [step] at stepped
    split_ifs at stepped
    obtain rfl := Option.some.inj stepped
    rfl

theorem run_cons_eq_some {layout planned : Layout} {call : Call} {rest : List Call} :
    layout.run (call :: rest) = some planned ↔
      ∃ middle, layout.step call = some middle ∧ middle.run rest = some planned := by
  simp [run, List.foldlM_cons, Option.bind_eq_some_iff]

theorem run_append_eq_some {layout planned : Layout} {front back : List Call} :
    layout.run (front ++ back) = some planned ↔
      ∃ middle, layout.run front = some middle ∧ middle.run back = some planned := by
  simp [run, List.foldlM_append, Option.bind_eq_some_iff]

theorem size_le_run : ∀ {calls : List Call} {layout planned : Layout},
    layout.run calls = some planned → layout.size ≤ planned.size
  | [], _, _, ran => by
    obtain rfl := Option.some.inj ran
    rfl
  | _ :: _, _, _, ran => by
    obtain ⟨_, stepped, rested⟩ := run_cons_eq_some.mp ran
    exact (size_le_step stepped).trans (size_le_run rested)

theorem mem_fieldsOf {layout : Layout} {near : Bool} {label field : Nat} :
    field ∈ layout.fieldsOf near label ↔
      ∃ r ∈ layout.references, r.near = near ∧ r.label = label ∧ r.field = field := by
  simp [fieldsOf, and_assoc]

theorem mem_references_reference {layout : Layout} {opcode : List UInt8} {near : Bool} {label width : Nat}
    {r : Reference} :
    r ∈ (layout.reference opcode near label width).references ↔
      r ∈ layout.references ∨ r = ⟨near, label, layout.size + opcode.length, width⟩ := by
  simp [reference]

theorem bound_bind (layout : Layout) (near : Bool) (label : Nat) (kind : Bool) (other : Nat) :
    (layout.bind near label).bound kind other =
      if kind = near ∧ other = label then some layout.size else layout.bound kind other := rfl

end Layout

namespace Assembler

/-- `position_` of the label `label` of the kind `near`. -/
def positionOf (asm : Assembler) (near : Bool) (label : Nat) : Int :=
  if near then asm.nearLabels label else asm.labels label

end Assembler

/-- The bytes of a patched displacement: 32 bits, or one byte. -/
def displacementBytes (width : Nat) (value : Int) : List UInt8 :=
  if width = 4 then bytesOf32 (BitVec.ofInt 32 value) else [lowByte value]

theorem length_displacementBytes {width : Nat} (widthOk : width = 1 ∨ width = 4) (value : Int) :
    (displacementBytes width value).length = width := by
  rcases widthOk with rfl | rfl <;> rfl

theorem displacementBytes_four (value : Int) :
    displacementBytes 4 value = bytesOf32 (BitVec.ofInt 32 value) := rfl

theorem displacementBytes_one (value : Int) : displacementBytes 1 value = [lowByte value] := rfl

/-- The field holds the distance from its end to `target`, which fits it. -/
def Patched (contents : Nat → UInt8) (reference : Reference) (target : Nat) : Prop :=
  Stores contents reference.field
      (displacementBytes reference.width (target - (reference.field + reference.width))) ∧
    (reference.width = 4 ∨ isInt8 (target - (reference.field + reference.width)) = true)

theorem Patched.of_stores {contents : Nat → UInt8} {near : Bool} {label field width target : Nat}
    {value : Int} (valueEq : value = target - (field + width))
    (stored : Stores contents field (displacementBytes width value)) (fits : width = 4 ∨ isInt8 value = true) :
    Patched contents ⟨near, label, field, width⟩ target := by
  subst valueEq
  exact ⟨stored, fits⟩

/-- The displacement a field holds, as the processor reads it: a signed 32-bit
word or a signed byte. -/
def fieldDisplacement (contents : Nat → UInt8) (reference : Reference) : Int :=
  if reference.width = 4 then (readWord32 contents reference.field).toInt
  else (contents reference.field).toBitVec.toInt

/-- A patched field reads back the distance from its end to the target, both
within the range of an `int`. -/
theorem Patched.read {contents : Nat → UInt8} {reference : Reference} {target : Nat}
    (patched : Patched contents reference target) (widthOk : reference.width = 1 ∨ reference.width = 4)
    (targetSmall : (target : Int) < 2 ^ 31) (fieldSmall : (reference.field : Int) + reference.width ≤ 2 ^ 31) :
    fieldDisplacement contents reference = target - (reference.field + reference.width) := by
  obtain ⟨stored, fits⟩ := patched
  unfold fieldDisplacement
  rcases widthOk with one | four
  · rw [if_neg (by omega)]
    rw [one] at stored fits ⊢
    have byte : contents reference.field = lowByte (target - (reference.field + (1 : Nat))) :=
      stored 0 (by simp [displacementBytes_one])
    rw [byte, toInt_lowByte (fits.resolve_left (by omega))]
  · rw [if_pos four]
    rw [four, displacementBytes_four] at stored
    rw [four, readWord32_of_stores stored, toInt_ofInt32 (by omega) (by omega)]

/-- A label bound at `target` has every field patched and `position_` bound
there; a label not bound yet has its fields chained from `position_`. -/
def LabelRealized (asm : Assembler) (layout : Layout) (near : Bool) (label : Nat) : Prop :=
  match layout.bound near label with
  | some target =>
    asm.positionOf near label = Label.bindTo target ∧ target ≤ layout.size ∧
      ∀ r ∈ layout.references, r.near = near → r.label = label → Patched asm.contents r target
  | none =>
    Chained near asm.contents (layout.fieldsOf near label) (asm.positionOf near label) ∧
      ∀ r ∈ layout.references, r.near = near → r.label = label → r.width = linkWidth near

/-- The assembler has the code of the layout: the same size and bytes, the
fields in order and each label as its binding says. -/
structure Realizes (asm : Assembler) (layout : Layout) : Prop where
  size : asm.size = layout.size
  image : ∀ i byte, layout.image[i]? = some (some byte) → asm.contents i = byte
  ordered : layout.references.Pairwise fun r s => r.field + r.width ≤ s.field
  fields : ∀ r ∈ layout.references, ∀ k < r.width, layout.image[r.field + k]? = some none
  widths : ∀ r ∈ layout.references, r.width = 1 ∨ r.width = 4
  labels : ∀ near label, LabelRealized asm layout near label

namespace Assembler

@[simp] theorem size_emitBytes (asm : Assembler) (bytes : List UInt8) :
    (asm.emitBytes bytes).size = asm.size + bytes.length := rfl

@[simp] theorem labels_emitBytes (asm : Assembler) (bytes : List UInt8) :
    (asm.emitBytes bytes).labels = asm.labels := rfl

theorem run_cons (asm : Assembler) (call : Call) (rest : List Call) :
    asm.run (call :: rest) = (asm.step call).bind fun next => next.run rest := by
  simp [run, List.foldlM_cons]

theorem positionOf_update {asm next : Assembler} (near : Bool) {label : Nat} {value : Int}
    (labels : next.labels = if near then asm.labels else Function.update asm.labels label value)
    (nearLabels : next.nearLabels =
      if near then Function.update asm.nearLabels label value else asm.nearLabels) :
    next.positionOf near label = value ∧ ∀ kind other, ¬(kind = near ∧ other = label) →
      next.positionOf kind other = asm.positionOf kind other := by
  refine ⟨by cases near <;> simp [positionOf, labels, nearLabels], fun kind other apart => ?_⟩
  cases kind <;> cases near <;> simp_all [positionOf, Function.update_of_ne]

end Assembler

@[simp] theorem Label.isBound_bindTo (position : Nat) : Label.isBound (Label.bindTo position) = true := by
  unfold Label.isBound Label.bindTo kPointerSize
  exact decide_eq_true (by omega)

@[simp] theorem Label.position_bindTo (position : Nat) : Label.position (Label.bindTo position) = position := by
  rw [Label.position, if_pos (Label.isBound_bindTo position)]
  simp only [Label.bindTo, kPointerSize]
  omega

@[simp] theorem isBound_linkValue (newest : Option Nat) : Label.isBound (linkValue newest) = false := by
  unfold Label.isBound
  cases newest with
  | none => rfl
  | some newest =>
    simp only [linkValue, Label.linkTo, kPointerSize]
    exact decide_eq_false (by omega)

theorem one_le_linkWidth (near : Bool) : 1 ≤ linkWidth near := by
  cases near <;> decide

theorem Chained.value {near : Bool} {contents : Nat → UInt8} :
    ∀ {fields : List Nat} {value : Int}, Chained near contents fields value → value = linkValue fields.head?
  | [], _, chained => chained
  | _ :: _, _, chained => chained.1

/-- The links of a label, each after the one before, are at most as many as the
positions below `bound`. -/
theorem Chained.length_le {near : Bool} {contents : Nat → UInt8} :
    ∀ {fields : List Nat} {value : Int} {bound : Nat}, Chained near contents fields value →
      (∀ field ∈ fields, field < bound) → fields.length ≤ bound
  | [], _, _, _, _ => Nat.zero_le _
  | field :: older, _, _, ⟨_, after, _, _, rest⟩, below => by
    have shorter : older.length ≤ field := rest.length_le fun previous member => by
      have := after previous member
      have := one_le_linkWidth near
      omega
    have := below field List.mem_cons_self
    rw [List.length_cons]
    omega

theorem apart_of_ordered : ∀ {references : List Reference},
    references.Pairwise (fun r s => r.field + r.width ≤ s.field) →
    ∀ r ∈ references, ∀ s ∈ references, r ≠ s → r.field + r.width ≤ s.field ∨ s.field + s.width ≤ r.field
  | [], _ => by simp
  | _ :: _, ordered => by
    rw [List.pairwise_cons] at ordered
    intro r rMember s sMember different
    rcases List.mem_cons.mp rMember with rfl | rLater <;> rcases List.mem_cons.mp sMember with rfl | sLater
    · exact absurd rfl different
    · exact Or.inl (ordered.1 s sLater)
    · exact Or.inr (ordered.1 r rLater)
    · exact apart_of_ordered ordered.2 r rLater s sLater different

theorem LabelRealized.bound_iff {asm : Assembler} {layout : Layout} {near : Bool} {label target : Nat}
    (bound : layout.bound near label = some target) :
    LabelRealized asm layout near label ↔ asm.positionOf near label = Label.bindTo target ∧
      target ≤ layout.size ∧ ∀ r ∈ layout.references, r.near = near → r.label = label →
        Patched asm.contents r target := by
  unfold LabelRealized
  rw [bound]

theorem LabelRealized.unbound_iff {asm : Assembler} {layout : Layout} {near : Bool} {label : Nat}
    (unbound : layout.bound near label = none) :
    LabelRealized asm layout near label ↔
      Chained near asm.contents (layout.fieldsOf near label) (asm.positionOf near label) ∧
        ∀ r ∈ layout.references, r.near = near → r.label = label → r.width = linkWidth near := by
  unfold LabelRealized
  rw [unbound]

/-- The state of a label carries over to a layout with the same binding and
the same fields for it and no smaller code, and to an assembler with the
same `position_` for it and the same cells in its fields. -/
theorem LabelRealized.transfer {asm next : Assembler} {layout planned : Layout} {near : Bool} {label : Nat}
    (realized : LabelRealized asm layout near label)
    (widths : ∀ r ∈ layout.references, r.width = 1 ∨ r.width = 4)
    (position : next.positionOf near label = asm.positionOf near label)
    (bound : planned.bound near label = layout.bound near label) (grows : layout.size ≤ planned.size)
    (fields : planned.fieldsOf near label = layout.fieldsOf near label)
    (references : ∀ r ∈ planned.references, r.near = near → r.label = label → r ∈ layout.references)
    (agree : ∀ r ∈ layout.references, r.near = near → r.label = label →
      ∀ k < r.width, next.contents (r.field + k) = asm.contents (r.field + k)) :
    LabelRealized next planned near label := by
  unfold LabelRealized at realized ⊢
  rw [bound]
  cases bounded : layout.bound near label with
  | some target =>
    rw [bounded] at realized
    obtain ⟨bindTo, inside, patched⟩ := realized
    refine ⟨position.trans bindTo, inside.trans grows, fun r member kind same => ?_⟩
    have old := references r member kind same
    obtain ⟨stored, fits⟩ := patched r old kind same
    refine ⟨stored.congr fun k below => agree r old kind same k ?_, fits⟩
    rwa [length_displacementBytes (widths r old)] at below
  | none =>
    rw [bounded] at realized
    obtain ⟨chained, linkWidths⟩ := realized
    refine ⟨?_, fun r member kind same => linkWidths r (references r member kind same) kind same⟩
    rw [position, fields]
    refine chained.congr fun field member k below => ?_
    obtain ⟨r, rMember, kind, same, rfl⟩ := Layout.mem_fieldsOf.mp member
    exact agree r rMember kind same k (by rw [linkWidths r rMember kind same]; exact below)

namespace Realizes

variable {asm next : Assembler} {layout : Layout}

theorem fields_below (realizes : Realizes asm layout) :
    ∀ r ∈ layout.references, r.field + r.width ≤ layout.size := by
  intro r member
  have positive : 0 < r.width := by rcases realizes.widths r member with one | four <;> omega
  have found := realizes.fields r member (r.width - 1) (by omega)
  have := (List.getElem?_eq_some_iff.mp found).1
  simp only [Layout.size]
  omega

theorem cell_below (realizes : Realizes asm layout) {r : Reference} (member : r ∈ layout.references)
    {k : Nat} (inside : k < r.width) : r.field + k < asm.size := by
  have := realizes.fields_below r member
  rw [realizes.size]
  omega

theorem image_append (realizes : Realizes asm layout) {extra : List (Option UInt8)}
    (below : ∀ i < asm.size, next.contents i = asm.contents i)
    (stored : ∀ i byte, extra[i]? = some (some byte) → next.contents (asm.size + i) = byte) :
    ∀ i byte, (layout.image ++ extra)[i]? = some (some byte) → next.contents i = byte := by
  intro i byte found
  have sized : layout.image.length = asm.size := realizes.size.symm
  by_cases before : i < asm.size
  · rw [List.getElem?_append_left (by omega)] at found
    rw [below i before]
    exact realizes.image i byte found
  · rw [List.getElem?_append_right (by omega), sized] at found
    have := stored (i - asm.size) byte found
    rwa [show asm.size + (i - asm.size) = i by omega] at this

theorem fields_append (realizes : Realizes asm layout) (extra : List (Option UInt8)) :
    ∀ r ∈ layout.references, ∀ k < r.width, (layout.image ++ extra)[r.field + k]? = some none := by
  intro r member k below
  have := realizes.fields_below r member
  rw [List.getElem?_append_left (by simp only [Layout.size] at this; omega)]
  exact realizes.fields r member k below

theorem emit (realizes : Realizes asm layout) (bytes : List UInt8) :
    Realizes (asm.emitBytes bytes) (layout.emit bytes) where
  size := by simp [realizes.size]
  image := by
    refine realizes.image_append (fun i before => writeList_of_lt bytes before) fun i byte found => ?_
    obtain ⟨inside, same⟩ := List.getElem?_eq_some_iff.mp found
    simp only [List.getElem_map, Option.some.injEq] at same
    simp only [List.length_map] at inside
    rw [← same]
    exact stores_writeList _ _ _ i inside
  ordered := realizes.ordered
  fields := realizes.fields_append _
  widths := realizes.widths
  labels near label := (realizes.labels near label).transfer realizes.widths rfl rfl
    (by simp) rfl (fun _ member _ _ => member) fun _ member _ _ _ inside =>
      writeList_of_lt bytes (realizes.cell_below member inside)

/-- An instruction with a field for `label` after the end: its opcode laid out,
the state of `label` given, and the other labels kept. -/
theorem extend (realizes : Realizes asm layout) {opcode : List UInt8} {near : Bool} {label width : Nat}
    (widthOk : width = 1 ∨ width = 4) (below : ∀ i < asm.size, next.contents i = asm.contents i)
    (stored : Stores next.contents asm.size opcode) (sized : next.size = asm.size + (opcode.length + width))
    (positions : ∀ kind other, ¬(kind = near ∧ other = label) →
      next.positionOf kind other = asm.positionOf kind other)
    (own : LabelRealized next (layout.reference opcode near label width) near label) :
    Realizes next (layout.reference opcode near label width) where
  size := by simp [sized, realizes.size]
  image := by
    show ∀ i byte, (layout.image ++ opcode.map some ++ List.replicate width none)[i]? = some (some byte) →
      next.contents i = byte
    rw [List.append_assoc]
    refine realizes.image_append below fun i byte found => ?_
    by_cases inOpcode : i < opcode.length
    · rw [List.getElem?_append_left (by simpa using inOpcode), List.getElem?_map,
        Option.map_eq_some_iff] at found
      obtain ⟨value, found, same⟩ := found
      cases same
      exact stored.eq_of_getElem? found
    · rw [List.getElem?_append_right (by simpa using inOpcode), List.getElem?_replicate] at found
      split_ifs at found
      simp at found
  ordered := by
    show (layout.references ++ [_]).Pairwise _
    rw [List.pairwise_append]
    refine ⟨realizes.ordered, List.pairwise_singleton _ _, fun r member s added => ?_⟩
    rw [List.mem_singleton] at added
    subst added
    have := realizes.fields_below r member
    simp only
    omega
  fields := by
    intro r member k inside
    show (layout.image ++ opcode.map some ++ List.replicate width none)[r.field + k]? = some none
    rw [List.append_assoc]
    rcases Layout.mem_references_reference.mp member with old | rfl
    · exact realizes.fields_append _ r old k inside
    · dsimp only [Layout.size] at inside ⊢
      rw [List.getElem?_append_right (by omega), List.getElem?_append_right (by simp only [List.length_map]; omega),
        List.getElem?_replicate_of_lt (by simp only [List.length_map]; omega)]
  widths r member := by
    rcases Layout.mem_references_reference.mp member with old | rfl
    · exact realizes.widths r old
    · exact widthOk
  labels kind other := by
    by_cases same : kind = near ∧ other = label
    · obtain ⟨rfl, rfl⟩ := same
      exact own
    · refine (realizes.labels kind other).transfer realizes.widths (positions kind other same) rfl
        (by simp) (Layout.fieldsOf_reference_of_ne _ _ _ _ _ same) (fun r member kind' other' => ?_)
        fun _ member _ _ _ inside => below _ (realizes.cell_below member inside)
      rcases Layout.mem_references_reference.mp member with old | rfl
      · exact old
      · exact absurd ⟨kind'.symm, other'.symm⟩ same

theorem ownBound (realizes : Realizes asm layout) {opcode : List UInt8} {near : Bool} {label width target : Nat}
    (bound : layout.bound near label = some target) (below : ∀ i < asm.size, next.contents i = asm.contents i)
    (position : next.positionOf near label = asm.positionOf near label)
    (patched : Patched next.contents ⟨near, label, layout.size + opcode.length, width⟩ target) :
    LabelRealized next (layout.reference opcode near label width) near label := by
  obtain ⟨bindTo, inside, old⟩ := (LabelRealized.bound_iff bound).mp (realizes.labels near label)
  have stillBound : (layout.reference opcode near label width).bound near label = some target := by
    rw [Layout.bound_reference, bound]
  refine (LabelRealized.bound_iff stillBound).mpr
    ⟨position.trans bindTo, by simp; omega, fun r member kind same => ?_⟩
  rcases Layout.mem_references_reference.mp member with member | rfl
  · obtain ⟨stored, fits⟩ := old r member kind same
    refine ⟨stored.congr fun k inside => below _ (realizes.cell_below member ?_), fits⟩
    rwa [length_displacementBytes (realizes.widths r member)] at inside
  · exact patched

theorem ownLinked (realizes : Realizes asm layout) {opcode : List UInt8} {near : Bool} {label : Nat}
    (unbound : layout.bound near label = none) (below : ∀ i < asm.size, next.contents i = asm.contents i)
    (position : next.positionOf near label = Label.linkTo (layout.size + opcode.length))
    (stored : Stores next.contents (layout.size + opcode.length)
      (linkBytes near (layout.size + opcode.length) (layout.fieldsOf near label).head?))
    (close : near = true →
      ∀ previous ∈ (layout.fieldsOf near label).head?, layout.size + opcode.length ≤ previous + 255) :
    LabelRealized next (layout.reference opcode near label (linkWidth near)) near label := by
  obtain ⟨chained, linkWidths⟩ := (LabelRealized.unbound_iff unbound).mp (realizes.labels near label)
  have stillUnbound : (layout.reference opcode near label (linkWidth near)).bound near label = none := by
    rw [Layout.bound_reference, unbound]
  refine (LabelRealized.unbound_iff stillUnbound).mpr ⟨?_, fun r member kind same => ?_⟩
  · rw [Layout.fieldsOf_reference_self, position]
    refine ⟨rfl, fun previous member => ?_, close, stored, ?_⟩
    · obtain ⟨r, rMember, kind, same, rfl⟩ := Layout.mem_fieldsOf.mp member
      have := realizes.fields_below r rMember
      rw [linkWidths r rMember kind same] at this
      omega
    · rw [← chained.value]
      refine chained.congr fun field member k inside => below _ ?_
      obtain ⟨r, rMember, kind, same, rfl⟩ := Layout.mem_fieldsOf.mp member
      exact realizes.cell_below rMember (by rw [linkWidths r rMember kind same]; exact inside)
  · rcases Layout.mem_references_reference.mp member with member | rfl
    · exact linkWidths r member kind same
    · rfl

theorem short (realizes : Realizes asm layout) {near : Bool} {label target : Nat}
    (bound : layout.bound near label = some target) (opcode : UInt8)
    (fits : isInt8 (target - (layout.size + 2)) = true) :
    Realizes (asm.emitBytes [opcode, lowByte (target - (layout.size + 2))])
      (layout.reference [opcode] near label 1) := by
  have stored : Stores (asm.emitBytes [opcode, lowByte (target - (layout.size + 2))]).contents asm.size
      ([opcode] ++ [lowByte (target - (layout.size + 2))]) := stores_writeList _ _ _
  rw [Stores.append_iff, List.length_singleton, realizes.size] at stored
  have below : ∀ i < asm.size,
      (asm.emitBytes [opcode, lowByte (target - (layout.size + 2))]).contents i = asm.contents i :=
    fun i before => writeList_of_lt _ before
  have value : (target : Int) - (layout.size + 2) = target - ((layout.size + [opcode].length : Nat) + (1 : Nat)) := by
    simp only [List.length_singleton]
    push_cast
    omega
  refine realizes.extend (Or.inl rfl) below (realizes.size ▸ stored.1) rfl (fun _ _ _ => rfl)
    (realizes.ownBound bound below rfl (Patched.of_stores value ?_ (Or.inr fits)))
  rw [displacementBytes_one, List.length_singleton]
  exact stored.2

/-- The long form of a branch or a call to a bound `Label`: the opcode, then
32 bits of displacement. -/
theorem long (realizes : Realizes asm layout) {label target : Nat}
    (bound : layout.bound false label = some target) (opcode : List UInt8) :
    Realizes ((asm.emitBytes opcode).emitInt32 (target - (layout.size + opcode.length + 4)))
      (layout.reference opcode false label 4) := by
  have stored : Stores ((asm.emitBytes opcode).emitInt32 (target - (layout.size + opcode.length + 4))).contents
      asm.size (opcode ++ bytesOf32 (BitVec.ofInt 32 (target - (layout.size + opcode.length + 4)))) :=
    stores_writeList_writeList _ _ _ _
  rw [Stores.append_iff, realizes.size] at stored
  have below : ∀ i < asm.size,
      ((asm.emitBytes opcode).emitInt32 (target - (layout.size + opcode.length + 4))).contents i =
        asm.contents i :=
    fun i before => (writeList_of_lt _ (by simp; omega)).trans (writeList_of_lt _ before)
  have value : (target : Int) - (layout.size + opcode.length + 4) =
      target - ((layout.size + opcode.length : Nat) + (4 : Nat)) := by
    push_cast
    omega
  refine realizes.extend (Or.inr rfl) below (realizes.size ▸ stored.1)
    (by simp [Assembler.emitInt32]; omega) (fun _ _ _ => rfl)
    (realizes.ownBound bound below rfl (Patched.of_stores value ?_ (Or.inl rfl)))
  exact stored.2

/-- A branch to a label not bound yet: the opcode, then a link to the label's
newest reference, which the label's `position_` now points past. -/
theorem linked (realizes : Realizes asm layout) {near : Bool} {label : Nat}
    (unbound : layout.bound near label = none) (opcode : List UInt8)
    (close : near = true →
      ∀ previous ∈ (layout.fieldsOf near label).head?, layout.size + opcode.length ≤ previous + 255)
    (contents : next.contents = writeList (writeList asm.contents asm.size opcode) (asm.size + opcode.length)
      (linkBytes near (layout.size + opcode.length) (layout.fieldsOf near label).head?))
    (sized : next.size = asm.size + (opcode.length + linkWidth near))
    (labels : next.labels =
      if near then asm.labels else Function.update asm.labels label (Label.linkTo (asm.size + opcode.length)))
    (nearLabels : next.nearLabels =
      if near then Function.update asm.nearLabels label (Label.linkTo (asm.size + opcode.length))
      else asm.nearLabels) :
    Realizes next (layout.reference opcode near label (linkWidth near)) := by
  have stored := stores_writeList_writeList asm.contents asm.size opcode
    (linkBytes near (layout.size + opcode.length) (layout.fieldsOf near label).head?)
  rw [← contents, Stores.append_iff] at stored
  have below : ∀ i < asm.size, next.contents i = asm.contents i := fun i before => by
    rw [contents]
    exact (writeList_of_lt _ (by omega)).trans (writeList_of_lt _ before)
  obtain ⟨position, positions⟩ := Assembler.positionOf_update near labels nearLabels
  have widthOk : linkWidth near = 1 ∨ linkWidth near = 4 := by cases near <;> simp
  refine realizes.extend widthOk below stored.1 sized positions
    (realizes.ownLinked unbound below (by rw [position, realizes.size]) ?_ close)
  have linkStored := stored.2
  rwa [realizes.size] at linkStored

theorem link (realizes : Realizes asm layout) {label : Nat} (unbound : layout.bound false label = none)
    (opcode : List UInt8) :
    ∃ next, (asm.emitBytes opcode).emitLabelLink label = some next ∧
      Realizes next (layout.reference opcode false label 4) := by
  have value : asm.labels label = linkValue (layout.fieldsOf false label).head? :=
    ((LabelRealized.unbound_iff unbound).mp (realizes.labels false label)).1.value
  rw [Assembler.emitLabelLink, if_neg (by simp [Assembler.emitBytes, value])]
  refine ⟨_, rfl, realizes.linked unbound opcode (by simp) ?_ (by simp [Assembler.emitInt32]; omega) rfl rfl⟩
  simp [Assembler.emitInt32, Assembler.emitBytes, linkBytes, value]

/-- The short form to a `NearLabel` not bound yet, with its one-byte link: the
distance back to the previous reference, zero at the first. -/
theorem nearLink (realizes : Realizes asm layout) {label : Nat} (unbound : layout.bound true label = none)
    (opcode : UInt8) (close : ∀ previous ∈ (layout.fieldsOf true label).head?, layout.size + 1 ≤ previous + 255) :
    ∃ next, (asm.emitBytes [opcode]).emitNearLabelLink label = some next ∧
      Realizes next (layout.reference [opcode] true label 1) := by
  obtain ⟨chained, linkWidths⟩ := (LabelRealized.unbound_iff unbound).mp (realizes.labels true label)
  have value : asm.nearLabels label = linkValue (layout.fieldsOf true label).head? := chained.value
  obtain ⟨byte, emitted, linked⟩ : ∃ byte, (asm.emitBytes [opcode]).emitNearLabelLink label =
      some { (asm.emitBytes [opcode]).emitBytes [byte] with
        nearLabels := Function.update asm.nearLabels label (Label.linkTo (asm.size + 1)) } ∧
      [byte] = linkBytes true (layout.size + 1) (layout.fieldsOf true label).head? := by
    cases first : (layout.fieldsOf true label).head? with
    | none =>
      rw [first] at value
      refine ⟨0, ?_, rfl⟩
      simp [Assembler.emitNearLabelLink, Assembler.emitBytes, value, linkValue, Label.isLinked, Label.isBound]
    | some previous =>
      rw [first] at value
      have below : previous + 1 ≤ layout.size := by
        obtain ⟨r, member, kind, same, rfl⟩ := Layout.mem_fieldsOf.mp (List.mem_of_mem_head? first)
        have := realizes.fields_below r member
        rwa [linkWidths r member kind same] at this
      have near := close previous first
      have notBound : Label.isBound (asm.nearLabels label) = false := by rw [value]; exact isBound_linkValue _
      have isLinked : Label.isLinked (asm.nearLabels label) = true := by
        rw [value]
        exact decide_eq_true (by simp only [linkValue, Label.linkTo, kPointerSize]; omega)
      have position : Label.linkPosition (asm.nearLabels label) = previous := by
        rw [value]
        simp [linkValue, Label.linkPosition, Label.linkTo]
      refine ⟨UInt8.ofNat (layout.size + 1 - previous), ?_, rfl⟩
      simp only [Assembler.emitNearLabelLink, Assembler.emitBytes, notBound, isLinked, position,
        if_true, Bool.false_eq_true, if_false, List.length_singleton]
      have delta : ((asm.size + 1 : Nat) : Int) - previous = ((layout.size + 1 - previous : Nat) : Int) := by
        rw [realizes.size]
        omega
      have fits : isUint8 ((layout.size + 1 - previous : Nat) : Int) = true := decide_eq_true (by omega)
      rw [delta, if_pos fits, Int.toNat_natCast, Option.map_some]
  refine ⟨_, emitted, realizes.linked unbound [opcode] (fun _ => close) ?_ rfl rfl rfl⟩
  simp only [List.length_singleton]
  rw [← linked]
  rfl

/-- A label bound at the end of the code: its links patched with the distance
to the end, its `position_` bound there, and every cell outside its links kept. -/
theorem bind (realizes : Realizes asm layout) {near : Bool} {label : Nat}
    (unbound : layout.bound near label = none) (sized : next.size = asm.size)
    (labels : next.labels =
      if near then asm.labels else Function.update asm.labels label (Label.bindTo asm.size))
    (nearLabels : next.nearLabels =
      if near then Function.update asm.nearLabels label (Label.bindTo asm.size) else asm.nearLabels)
    (patched : ∀ field ∈ layout.fieldsOf near label, Stores next.contents field
      (displacementBytes (linkWidth near) (layout.size - (field + linkWidth near))))
    (fits : near = true → ∀ field ∈ layout.fieldsOf near label, isInt8 (layout.size - (field + 1)) = true)
    (frame : ∀ i, (∀ field ∈ layout.fieldsOf near label, i < field ∨ field + linkWidth near ≤ i) →
      next.contents i = asm.contents i) :
    Realizes next (layout.bind near label) := by
  obtain ⟨-, linkWidths⟩ := (LabelRealized.unbound_iff unbound).mp (realizes.labels near label)
  obtain ⟨position, positions⟩ := Assembler.positionOf_update near labels nearLabels
  have outside : ∀ i, (∀ s ∈ layout.references, s.near = near → s.label = label →
      i < s.field ∨ s.field + s.width ≤ i) → next.contents i = asm.contents i := by
    intro i apart
    refine frame i fun field member => ?_
    obtain ⟨s, sMember, kind, same, rfl⟩ := Layout.mem_fieldsOf.mp member
    rw [← linkWidths s sMember kind same]
    exact apart s sMember kind same
  refine ⟨sized.trans realizes.size, fun i byte found => ?_, realizes.ordered, realizes.fields,
    realizes.widths, fun kind other => ?_⟩
  · -- a byte of the image is outside every field
    rw [outside i fun s sMember _ _ => ?_]
    · exact realizes.image i byte found
    by_contra inside
    have cell := realizes.fields s sMember (i - s.field) (by omega)
    rw [Layout.image_bind] at found
    rw [show s.field + (i - s.field) = i by omega, found] at cell
    simp at cell
  · by_cases same : kind = near ∧ other = label
    · obtain ⟨rfl, rfl⟩ := same
      have nowBound : (layout.bind kind other).bound kind other = some layout.size := by
        rw [Layout.bound_bind, if_pos ⟨rfl, rfl⟩]
      refine (LabelRealized.bound_iff nowBound).mpr
        ⟨by rw [position, realizes.size], le_rfl, fun r member rNear rLabel => ?_⟩
      have width := linkWidths r member rNear rLabel
      have fieldMember := Layout.mem_fieldsOf.mpr ⟨r, member, rNear, rLabel, rfl⟩
      have stored := patched r.field fieldMember
      rw [← width] at stored
      refine ⟨stored, ?_⟩
      -- a 32-bit field takes any distance, a byte one the distances `Bind` checks
      by_cases isNear : kind = true
      · rw [width, isNear, linkWidth_true, Nat.cast_one]
        exact Or.inr (fits isNear r.field fieldMember)
      · rw [Bool.not_eq_true] at isNear
        rw [width, isNear, linkWidth_false]
        exact Or.inl rfl
    · refine (realizes.labels kind other).transfer realizes.widths (positions kind other same) ?_ le_rfl rfl
        (fun _ member _ _ => member) fun r member kind' other' k inside => outside _ fun s sMember sKind sLabel => ?_
      · rw [Layout.bound_bind, if_neg same]
      · have different : r ≠ s := fun equal =>
          same ⟨by rw [← kind', equal, sKind], by rw [← other', equal, sLabel]⟩
        rcases apart_of_ordered realizes.ordered r member s sMember different with before | after <;> omega

/-- The links of a label not bound yet lie inside the code and are no more
than its bytes. -/
theorem links_inside (realizes : Realizes asm layout) {near : Bool} {label : Nat}
    (unbound : layout.bound near label = none) :
    Chained near asm.contents (layout.fieldsOf near label) (asm.positionOf near label) ∧
      (∀ field ∈ layout.fieldsOf near label, field + linkWidth near ≤ asm.size) ∧
      (layout.fieldsOf near label).length < asm.size + 1 := by
  obtain ⟨chained, linkWidths⟩ := (LabelRealized.unbound_iff unbound).mp (realizes.labels near label)
  have inside : ∀ field ∈ layout.fieldsOf near label, field + linkWidth near ≤ asm.size := by
    intro field member
    obtain ⟨r, rMember, kind, same, rfl⟩ := Layout.mem_fieldsOf.mp member
    have := realizes.fields_below r rMember
    rwa [linkWidths r rMember kind same, ← realizes.size] at this
  refine ⟨chained, inside, Nat.lt_succ_of_le (chained.length_le fun field member => ?_)⟩
  have := inside field member
  have := one_le_linkWidth near
  omega

/-- `Bind(Label*)`, the code small enough for its `int` positions: the label's
links patched and every other cell kept. -/
theorem bindLabel (realizes : Realizes asm layout) {label : Nat} (unbound : layout.bound false label = none)
    (small : (layout.size : Int) + kPointerSize < 2 ^ 31) :
    ∃ next, asm.bind label = some next ∧ Realizes next (layout.bind false label) ∧
      ∀ i, (∀ field ∈ layout.fieldsOf false label, i < field ∨ field + 4 ≤ i) →
        next.contents i = asm.contents i := by
  obtain ⟨chained, inside, few⟩ := realizes.links_inside unbound
  obtain ⟨final, looped, sized, nearLabels, labels, patched, frame⟩ :=
    @bindLoop_of_chained label asm.size _ _ _ chained inside (by rw [realizes.size]; exact small) few
  rw [Assembler.bind, if_neg (by rw [show asm.labels label = _ from chained.value]; simp), looped,
    Option.map_some]
  refine ⟨_, rfl, realizes.bind unbound sized (by simp [labels]) (by simp [nearLabels])
    (fun field member => ?_) (by simp) frame, frame⟩
  have stored := patched field member
  rwa [realizes.size] at stored

/-- `Bind(NearLabel*)`, each displacement fitting a byte: the label's links
patched and every other cell kept. -/
theorem bindNearLabel (realizes : Realizes asm layout) {label : Nat} (unbound : layout.bound true label = none)
    (fits : ∀ field ∈ layout.fieldsOf true label, isInt8 (layout.size - (field + 1)) = true) :
    ∃ next, asm.bindNear label = some next ∧ Realizes next (layout.bind true label) ∧
      ∀ i, (∀ field ∈ layout.fieldsOf true label, i < field ∨ field + 1 ≤ i) →
        next.contents i = asm.contents i := by
  obtain ⟨chained, inside, few⟩ := realizes.links_inside unbound
  obtain ⟨final, looped, sized, labels, nearLabels, patched, frame⟩ :=
    @bindNearLoop_of_chained label asm.size _ _ _ chained inside (by rw [realizes.size]; exact fits) few
  rw [Assembler.bindNear, if_neg (by rw [show asm.nearLabels label = _ from chained.value]; simp), looped,
    Option.map_some]
  refine ⟨_, rfl, realizes.bind unbound sized (by simp [labels]) (by simp [nearLabels])
    (fun field member => ?_) (fun _ => fits) frame, frame⟩
  have stored := patched field member
  rwa [realizes.size] at stored

theorem branch (realizes : Realizes asm layout) (short : UInt8) (long : List UInt8) (label : Nat) :
    ∃ next, asm.branch short long label = some next ∧ Realizes next (layout.branch short long label) := by
  unfold Layout.branch
  cases bound : layout.bound false label with
  | none =>
    have value : asm.labels label = _ :=
      ((LabelRealized.unbound_iff bound).mp (realizes.labels false label)).1.value
    simp only [Assembler.branch, value, isBound_linkValue, Bool.false_eq_true, if_false]
    exact realizes.link bound long
  | some target =>
    obtain ⟨value, inside, -⟩ := (LabelRealized.bound_iff bound).mp (realizes.labels false label)
    simp only [Assembler.branch, show asm.labels label = _ from value, Label.isBound_bindTo, if_true,
      Label.position_bindTo, realizes.size]
    rw [if_pos (by omega), show (target : Int) - layout.size - 2 = target - (layout.size + 2) by omega]
    by_cases fits : isInt8 (target - (layout.size + 2)) = true
    · rw [if_pos fits, if_pos fits]
      exact ⟨_, rfl, realizes.short bound short fits⟩
    · rw [if_neg fits, if_neg fits,
        show (target : Int) - layout.size - (long.length + 4) = target - (layout.size + long.length + 4) by omega]
      exact ⟨_, rfl, realizes.long bound long⟩

theorem nearBranch (realizes : Realizes asm layout) {opcode : UInt8} {label : Nat} {planned : Layout}
    (stepped : layout.nearBranch opcode label = some planned) :
    ∃ next, asm.nearBranch opcode label = some next ∧ Realizes next planned := by
  unfold Layout.nearBranch at stepped
  cases bound : layout.bound true label with
  | none =>
    rw [bound] at stepped
    have value : asm.nearLabels label = _ :=
      ((LabelRealized.unbound_iff bound).mp (realizes.labels true label)).1.value
    -- the layout takes the branch when the previous link is within a byte
    obtain ⟨close, rfl⟩ : (∀ previous ∈ (layout.fieldsOf true label).head?,
        layout.size + 1 ≤ previous + 255) ∧ layout.reference [opcode] true label 1 = planned := by
      cases first : (layout.fieldsOf true label).head? with
      | none =>
        rw [first] at stepped
        exact ⟨by simp, Option.some.inj stepped⟩
      | some previous =>
        rw [first] at stepped
        dsimp only at stepped
        split_ifs at stepped with near
        refine ⟨fun other member => ?_, Option.some.inj stepped⟩
        obtain rfl := Option.mem_some_iff.mp member
        exact near
    simp only [Assembler.nearBranch, value, isBound_linkValue, Bool.false_eq_true, if_false]
    exact realizes.nearLink bound opcode close
  | some target =>
    rw [bound] at stepped
    obtain ⟨value, inside, -⟩ := (LabelRealized.bound_iff bound).mp (realizes.labels true label)
    dsimp only at stepped
    split_ifs at stepped with fits
    obtain rfl := Option.some.inj stepped
    simp only [Assembler.nearBranch, show asm.nearLabels label = _ from value, Label.isBound_bindTo,
      if_true, Label.position_bindTo, realizes.size]
    rw [show (target : Int) - layout.size - 2 = target - (layout.size + 2) by omega,
      if_pos ⟨by omega, fits⟩]
    exact ⟨_, rfl, realizes.short bound opcode fits⟩

/-- `call(Label*)`: the opcode, then `EmitLabel` with the 4 bytes left of the
instruction. -/
theorem call (realizes : Realizes asm layout) (label : Nat) :
    ∃ next, asm.call label = some next ∧ Realizes next (layout.reference [0xE8] false label 4) := by
  cases bound : layout.bound false label with
  | none =>
    have value : asm.labels label = _ :=
      ((LabelRealized.unbound_iff bound).mp (realizes.labels false label)).1.value
    simp only [Assembler.call, Assembler.emitLabel, Assembler.labels_emitBytes, value, isBound_linkValue,
      Bool.false_eq_true, if_false]
    exact realizes.link bound [0xE8]
  | some target =>
    obtain ⟨value, inside, -⟩ := (LabelRealized.bound_iff bound).mp (realizes.labels false label)
    simp only [Assembler.call, Assembler.emitLabel, Assembler.labels_emitBytes, show asm.labels label = _ from value,
      Label.isBound_bindTo, if_true, Label.position_bindTo, Assembler.size_emitBytes, realizes.size]
    have displacement : (target : Int) - ((layout.size + ([0xE8] : List UInt8).length : Nat) : Int) - (5 - 1) =
        target - (layout.size + ([0xE8] : List UInt8).length + 4) := by
      simp only [List.length_singleton]
      push_cast
      omega
    rw [if_pos (by simp only [List.length_singleton]; push_cast; omega), displacement]
    exact ⟨_, rfl, realizes.long bound [0xE8]⟩

theorem linkWidth_of_unbound (realizes : Realizes asm layout) {near : Bool} {label : Nat}
    (unbound : layout.bound near label = none) :
    ∀ r ∈ layout.references, r.near = near → r.label = label → r.width = linkWidth near := by
  exact ((LabelRealized.unbound_iff unbound).mp (realizes.labels near label)).2

/-- `Bind` of either kind that the layout accepts: the label was not bound, its
links are patched and every cell outside them is kept. -/
theorem bindOf (realizes : Realizes asm layout) {near : Bool} {label : Nat} {planned : Layout}
    (stepped : layout.step (Call.bindOf near label) = some planned)
    (small : (planned.size : Int) + kPointerSize < 2 ^ 31) :
    layout.bound near label = none ∧ planned = layout.bind near label ∧
      ∃ next, asm.step (Call.bindOf near label) = some next ∧ Realizes next planned ∧
        ∀ i, (∀ r ∈ layout.references, r.near = near → r.label = label → i < r.field ∨ r.field + r.width ≤ i) →
          next.contents i = asm.contents i := by
  cases bound : layout.bound near label with
  | some _ => cases near <;> simp [Call.bindOf, Layout.step, bound] at stepped
  | none =>
    have widths := realizes.linkWidth_of_unbound bound
    -- a cell outside the references of the label is outside its links
    have outside : ∀ i, (∀ r ∈ layout.references, r.near = near → r.label = label →
        i < r.field ∨ r.field + r.width ≤ i) →
        ∀ field ∈ layout.fieldsOf near label, i < field ∨ field + linkWidth near ≤ i := by
      intro i apart field member
      obtain ⟨r, rMember, kind, same, rfl⟩ := Layout.mem_fieldsOf.mp member
      rw [← widths r rMember kind same]
      exact apart r rMember kind same
    cases near with
    | false =>
      change layout.step (Call.bind label) = some planned at stepped
      simp only [Layout.step, bound, Option.isSome_none, Bool.false_eq_true, if_false] at stepped
      obtain rfl := Option.some.inj stepped
      obtain ⟨next, bound', realized, frame⟩ := realizes.bindLabel bound small
      exact ⟨rfl, rfl, next, bound', realized, fun i apart => frame i (outside i apart)⟩
    | true =>
      change layout.step (Call.bindNear label) = some planned at stepped
      simp only [Layout.step, bound, Option.isSome_none, Bool.false_eq_true, if_false] at stepped
      split_ifs at stepped with fits
      obtain rfl := Option.some.inj stepped
      obtain ⟨next, bound', realized, frame⟩ := realizes.bindNearLabel bound (by simpa using fits)
      exact ⟨rfl, rfl, next, bound', realized, fun i apart => frame i (outside i apart)⟩

theorem step (realizes : Realizes asm layout) {call : Call} {planned : Layout}
    (stepped : layout.step call = some planned) (small : (planned.size : Int) + kPointerSize < 2 ^ 31) :
    ∃ next, asm.step call = some next ∧ Realizes next planned := by
  cases call with
  | emit bytes =>
    obtain rfl := Option.some.inj stepped
    exact ⟨_, rfl, realizes.emit bytes⟩
  | j _ label | jmp label =>
    obtain rfl := Option.some.inj stepped
    exact realizes.branch _ _ label
  | jNear _ label | jrcxz label | jmpNear label => exact realizes.nearBranch stepped
  | call label =>
    obtain rfl := Option.some.inj stepped
    exact realizes.call label
  | bind label =>
    obtain ⟨-, -, next, stepped, realized, -⟩ :=
      realizes.bindOf (show layout.step (Call.bindOf false label) = some planned from stepped) small
    exact ⟨next, stepped, realized⟩
  | bindNear label =>
    obtain ⟨-, -, next, stepped, realized, -⟩ :=
      realizes.bindOf (show layout.step (Call.bindOf true label) = some planned from stepped) small
    exact ⟨next, stepped, realized⟩

/-- A run the layout accepts, the code small enough for `int` positions, keeps
the assembler realizing it. -/
theorem run {calls : List Call} {planned : Layout} (small : (planned.size : Int) + kPointerSize < 2 ^ 31) :
    ∀ {asm : Assembler} {layout : Layout}, Realizes asm layout → layout.run calls = some planned →
      ∃ next, asm.run calls = some next ∧ Realizes next planned := by
  induction calls with
  | nil =>
    intro asm layout realizes ran
    obtain rfl := Option.some.inj ran
    exact ⟨asm, rfl, realizes⟩
  | cons call rest induction =>
    intro asm layout realizes ran
    obtain ⟨middle, stepped, rested⟩ := Layout.run_cons_eq_some.mp ran
    have grows := Layout.size_le_run rested
    obtain ⟨next, asmStepped, realized⟩ := realizes.step stepped (by omega)
    obtain ⟨final, asmRan, finished⟩ := induction realized rested
    refine ⟨final, ?_, finished⟩
    rw [Assembler.run_cons, asmStepped, Option.bind_some]
    exact asmRan

theorem read (realizes : Realizes asm layout) (small : (layout.size : Int) + kPointerSize < 2 ^ 31)
    {r : Reference} (member : r ∈ layout.references) {target : Nat}
    (bound : layout.bound r.near r.label = some target) :
    fieldDisplacement asm.contents r = target - (r.field + r.width) := by
  obtain ⟨-, inside, patched⟩ := (LabelRealized.bound_iff bound).mp (realizes.labels r.near r.label)
  have below := realizes.fields_below r member
  simp only [kPointerSize] at small
  exact (patched r member rfl rfl).read (realizes.widths r member) (by omega) (by omega)

end Realizes

theorem realizes_empty : Realizes Assembler.empty Layout.empty where
  size := rfl
  image _ _ found := by simp [Layout.empty] at found
  ordered := List.Pairwise.nil
  fields _ member := by simp [Layout.empty] at member
  widths _ member := by simp [Layout.empty] at member
  labels near _ := ⟨by cases near <;> rfl, fun _ member => by simp [Layout.empty] at member⟩

/-- After a run the layout accepts, with the code small enough for the `int`
positions of the labels, the buffer holds the bytes of the layout and every
field of a bound label the distance from its end to the label; each `Bind` on
the way patches exactly the fields emitted for its label before it and keeps
every other cell. -/
theorem labels_resolve (calls : List Call) (layout : Layout)
    (planned : Layout.empty.run calls = some layout) (small : (layout.size : Int) + kPointerSize < 2 ^ 31) :
    ∃ asm, Assembler.empty.run calls = some asm ∧ asm.size = layout.size ∧
      (∀ i byte, layout.image[i]? = some (some byte) → asm.contents i = byte) ∧
      (∀ r ∈ layout.references, ∀ target, layout.bound r.near r.label = some target →
        fieldDisplacement asm.contents r = target - (r.field + r.width)) ∧
      ∀ pre post near label, calls = pre ++ Call.bindOf near label :: post →
        ∃ bindLayout before after, Layout.empty.run pre = some bindLayout ∧
          Assembler.empty.run pre = some before ∧ before.step (Call.bindOf near label) = some after ∧
          (∀ r ∈ bindLayout.references, r.near = near → r.label = label →
            fieldDisplacement after.contents r = bindLayout.size - (r.field + r.width)) ∧
          ∀ i, (∀ r ∈ bindLayout.references, r.near = near → r.label = label →
            i < r.field ∨ r.field + r.width ≤ i) → after.contents i = before.contents i := by
  obtain ⟨asm, ran, realizes⟩ := realizes_empty.run small planned
  refine ⟨asm, ran, realizes.size, realizes.image, fun r member _ bound => realizes.read small member bound, ?_⟩
  intro pre post near label split
  rw [split] at planned
  -- the calls before the `Bind`, the `Bind`, and the calls after it
  obtain ⟨bindLayout, prefixPlanned, restPlanned⟩ := Layout.run_append_eq_some.mp planned
  obtain ⟨boundLayout, stepped, tailPlanned⟩ := Layout.run_cons_eq_some.mp restPlanned
  have tailGrows := Layout.size_le_run tailPlanned
  have bindGrows := Layout.size_le_step stepped
  obtain ⟨before, prefixRan, realizesBefore⟩ := realizes_empty.run (by omega) prefixPlanned
  obtain ⟨-, rfl, after, bindStepped, realizesAfter, frame⟩ := realizesBefore.bindOf stepped (by omega)
  refine ⟨bindLayout, before, after, prefixPlanned, prefixRan, bindStepped, fun r member rNear rLabel => ?_, frame⟩
  have bound : (bindLayout.bind near label).bound r.near r.label = some bindLayout.size := by
    rw [Layout.bound_bind, if_pos ⟨rNear, rLabel⟩]
  exact realizesAfter.read (by omega) member bound

/-- Three forward references to one label, a `j`, a `jmp` and a `call`, linked
through their fields, and a `jmp` to a `NearLabel`, bound after them. -/
theorem labels_resolve_of_linked_and_near :
    let calls : List Call :=
      [.j .kEqual 0, .jmp 0, .emit [0x90], .call 0, .jmpNear 1, .emit [0x90, 0x90], .bind 0, .bindNear 1]
    ∃ layout, Layout.empty.run calls = some layout ∧ layout.references.length = 4 ∧
      (layout.size : Int) + kPointerSize < 2 ^ 31 ∧
      ∃ asm, Assembler.empty.run calls = some asm ∧ asm.size = layout.size ∧
        (∀ i byte, layout.image[i]? = some (some byte) → asm.contents i = byte) ∧
        (∀ r ∈ layout.references, ∀ target, layout.bound r.near r.label = some target →
          fieldDisplacement asm.contents r = target - (r.field + r.width)) ∧
        ∀ pre post near label, calls = pre ++ Call.bindOf near label :: post →
          ∃ bindLayout before after, Layout.empty.run pre = some bindLayout ∧
            Assembler.empty.run pre = some before ∧ before.step (Call.bindOf near label) = some after ∧
            (∀ r ∈ bindLayout.references, r.near = near → r.label = label →
              fieldDisplacement after.contents r = bindLayout.size - (r.field + r.width)) ∧
            ∀ i, (∀ r ∈ bindLayout.references, r.near = near → r.label = label →
              i < r.field ∨ r.field + r.width ≤ i) → after.contents i = before.contents i := by
  intro calls
  refine ⟨_, rfl, rfl, by decide, ?_⟩
  exact labels_resolve calls _ rfl (by decide)

end ArtRuntime.Compiler.X8664
