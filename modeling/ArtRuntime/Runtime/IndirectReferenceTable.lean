import ArtRuntime.Foundation.RangeCount
import ArtRuntime.Foundation.NatBits

/-! # The indirect reference table

`runtime/indirect_reference_table.{h,cc}`, for a release build (`kIRTPrevCount`
is 3). The table is a stack of entries with holes: `segment_state_` is its top,
`Add` fills the highest hole or pushes, `Remove` of a lower entry leaves a hole
and `Remove` of the top entry pops it and the holes right below it. The number
of holes is cached in `current_num_holes_` and recounted by `RecoverHoles` only
when `last_known_previous_state_` does not lie in the caller's segment.

An entry keeps the last `kIRTPrevCount` objects stored in it and a serial that
names the current one; an indirect reference packs the index, the serial and
the kind of the table. Objects are of any type and a null reference is `none`.
The debug checks (`CheckHoleCount`, the `DCHECK`s) are not modelled: they are
what the invariants of `ArtRuntime.Runtime.JniEnvExt` prove. -/

namespace ArtRuntime.Runtime

open ArtRuntime.Foundation ArtRuntime.Foundation.NatBits

/-- `IndirectRefKind`. -/
inductive IndirectRefKind
  | kHandleScopeOrInvalid
  | kLocal
  | kGlobal
  | kWeakGlobal
  deriving DecidableEq, Repr

namespace IndirectRefKind

def toNat : IndirectRefKind → Nat
  | .kHandleScopeOrInvalid => 0
  | .kLocal => 1
  | .kGlobal => 2
  | .kWeakGlobal => 3

def ofBits : Nat → IndirectRefKind
  | 1 => .kLocal
  | 2 => .kGlobal
  | 3 => .kWeakGlobal
  | _ => .kHandleScopeOrInvalid

theorem toNat_lt (kind : IndirectRefKind) : kind.toNat < 4 := by
  cases kind <;> decide

theorem toNat_pos (kind : IndirectRefKind) (valid : kind ≠ .kHandleScopeOrInvalid) :
    0 < kind.toNat := by
  cases kind
  · exact absurd rfl valid
  all_goals decide

@[simp] theorem ofBits_toNat (kind : IndirectRefKind) : ofBits kind.toNat = kind := by
  cases kind <;> rfl

end IndirectRefKind

/-- The kind as `operator<<` prints it: the generated operator uses the
alternate texts of the enumeration's comments. -/
def IndirectRefKind.text : IndirectRefKind → String
  | .kHandleScopeOrInvalid => "stack indirect reference table or invalid reference"
  | .kLocal => "local reference"
  | .kGlobal => "global reference"
  | .kWeakGlobal => "weak global reference"

/-- `GetIndirectRefKindString`. -/
def getIndirectRefKindString : IndirectRefKind → String
  | .kHandleScopeOrInvalid => "HandleScopeOrInvalid"
  | .kLocal => "Local"
  | .kGlobal => "Global"
  | .kWeakGlobal => "WeakGlobal"

def kIRTPrevCount : Nat := 3

/-- `MinimumBitsToStore(kIRTPrevCount)`. -/
def kSerialBits : Nat := 2
def kShiftedSerialMask : Nat := 2 ^ kSerialBits - 1

/-- `MinimumBitsToStore(kLastKind)`. -/
def kKindBits : Nat := 2
def kKindMask : Nat := 2 ^ kKindBits - 1

/-! ## Entries -/

/-- `IrtEntry`: the serial is below `kIRTPrevCount`, which its type keeps. -/
structure IrtEntry (Obj : Type) where
  serial : Fin kIRTPrevCount
  references : Fin kIRTPrevCount → Option Obj

namespace IrtEntry

variable {Obj : Type}

/-- An entry of a fresh table: the anonymous mapping is zero-filled. -/
def zero : IrtEntry Obj where
  serial := ⟨0, by decide⟩
  references := fun _ => none

/-- `GetReference()`: the reference slot the serial names. -/
def getReference (entry : IrtEntry Obj) : Option Obj :=
  entry.references entry.serial

/-- `IrtEntry::Add`: advance the serial, wrapping at `kIRTPrevCount`, and store. -/
def add (entry : IrtEntry Obj) (obj : Obj) : IrtEntry Obj :=
  let serial : Fin kIRTPrevCount :=
    if wraps : entry.serial.val + 1 = kIRTPrevCount then ⟨0, by decide⟩
    else ⟨entry.serial.val + 1, by have := entry.serial.isLt; omega⟩
  { serial := serial, references := Function.update entry.references serial (some obj) }

/-- `*GetReference() = GcRoot<mirror::Object>(nullptr)`. -/
def clearReference (entry : IrtEntry Obj) : IrtEntry Obj :=
  { entry with references := Function.update entry.references entry.serial none }

@[simp] theorem getReference_add (entry : IrtEntry Obj) (obj : Obj) :
    (entry.add obj).getReference = some obj := by
  simp [add, getReference]

@[simp] theorem getReference_clearReference (entry : IrtEntry Obj) :
    entry.clearReference.getReference = none := by
  simp [clearReference, getReference]

theorem serial_lt_four (entry : IrtEntry Obj) : entry.serial.val < 4 := by
  have := entry.serial.isLt
  simp only [kIRTPrevCount] at this
  omega

end IrtEntry

/-! ## Indirect references -/

/-- `EncodeIndex`. -/
def encodeIndex (tableIndex : Nat) : Nat :=
  tableIndex <<< kKindBits <<< kSerialBits

/-- `DecodeIndex`; the `static_cast<uint32_t>` keeps 32 bits. -/
def decodeIndex (uref : Nat) : Nat :=
  ((uref >>> kKindBits) >>> kSerialBits) % 2 ^ 32

def encodeIndirectRefKind (kind : IndirectRefKind) : Nat :=
  kind.toNat

def decodeIndirectRefKind (uref : Nat) : IndirectRefKind :=
  .ofBits (uref &&& kKindMask)

/-- The null reference has the kind bits of a handle-scope reference. -/
@[simp] theorem decodeIndirectRefKind_zero : decodeIndirectRefKind 0 = .kHandleScopeOrInvalid := rfl

def encodeSerial (serial : Nat) : Nat :=
  serial <<< kKindBits

def decodeSerial (uref : Nat) : Nat :=
  ((uref >>> kKindBits) % 2 ^ 32) &&& kShiftedSerialMask

/-- `EncodeIndirectRef(table_index, serial)` of a table of kind `kind`. -/
def encodeIndirectRef (tableIndex serial : Nat) (kind : IndirectRefKind) : Nat :=
  encodeIndex tableIndex ||| encodeSerial serial ||| encodeIndirectRefKind kind

/-- `ExtractIndex`. -/
def extractIndex (iref : Nat) : Nat :=
  decodeIndex iref

/-- The three fields, packed from the top: index, then two serial bits, then
two kind bits. -/
theorem encodeIndirectRef_eq (tableIndex : Nat) {serial : Nat} (serialFits : serial < 4)
    (kind : IndirectRefKind) :
    encodeIndirectRef tableIndex serial kind = tableIndex * 16 + serial * 4 + kind.toNat := by
  have kindFits := kind.toNat_lt
  have index : encodeIndex tableIndex = tableIndex * 16 := by
    simp only [encodeIndex, kKindBits, kSerialBits, Nat.shiftLeft_eq]
    omega
  have serialPart : encodeSerial serial = serial * 4 := by
    simp only [encodeSerial, kKindBits, Nat.shiftLeft_eq]
  rw [encodeIndirectRef, index, serialPart, encodeIndirectRefKind,
    or_eq_add_of_lt 4 (by omega) (by omega : serial * 4 < 2 ^ 4),
    or_eq_add_of_lt 2 (by omega) (by omega : kind.toNat < 2 ^ 2)]

theorem decodeIndex_encodeIndirectRef {tableIndex serial : Nat} (indexFits : tableIndex < 2 ^ 32)
    (serialFits : serial < 4) (kind : IndirectRefKind) :
    decodeIndex (encodeIndirectRef tableIndex serial kind) = tableIndex := by
  have kindFits := kind.toNat_lt
  rw [encodeIndirectRef_eq tableIndex serialFits, decodeIndex, kKindBits, kSerialBits,
    Nat.shiftRight_eq_div_pow, Nat.shiftRight_eq_div_pow]
  omega

theorem decodeIndirectRefKind_encodeIndirectRef {tableIndex serial : Nat} (serialFits : serial < 4)
    (kind : IndirectRefKind) :
    decodeIndirectRefKind (encodeIndirectRef tableIndex serial kind) = kind := by
  have kindFits := kind.toNat_lt
  have low : (tableIndex * 16 + serial * 4 + kind.toNat) % 4 = kind.toNat := by omega
  rw [encodeIndirectRef_eq tableIndex serialFits, decodeIndirectRefKind, kKindMask, kKindBits,
    Nat.and_two_pow_sub_one_eq_mod, low, IndirectRefKind.ofBits_toNat]

/-! ## The table -/

def kMaxTableSizeInBytes : Nat := 128 * 1024 * 1024

/-- `kMaxTableSizeInBytes / sizeof(IrtEntry)`, an entry being a serial and
`kIRTPrevCount` references of four bytes each. -/
def kMaxEntries : Nat := kMaxTableSizeInBytes / ((1 + kIRTPrevCount) * 4)

/-- `IndirectReferenceTable::ResizableCapacity`. -/
inductive ResizableCapacity
  | kNo
  | kYes
  deriving DecidableEq, Repr

/-- The fields of `IndirectReferenceTable`; `segmentState` is
`segment_state_.top_index` and `lastKnownPreviousState` is
`last_known_previous_state_.top_index`. The constructor refuses the kind
`kHandleScopeOrInvalid` and more than `kMaxEntries` entries, and `Resize` never
goes past that: the structure keeps both as fields. -/
structure IndirectReferenceTable (Obj : Type) where
  segmentState : Nat
  table : Nat → IrtEntry Obj
  kind : IndirectRefKind
  kindValid : kind ≠ .kHandleScopeOrInvalid
  maxEntries : Nat
  maxEntriesBounded : maxEntries ≤ kMaxEntries
  currentNumHoles : Nat
  lastKnownPreviousState : Nat
  resizable : ResizableCapacity

/-- What `Add` comes to: a reference and the new table, a failure with its
`error_msg` (the table unchanged), an abort of a failed `CHECK`, or a hole
scan that runs below the table, which is undefined. -/
inductive AddResult (Obj : Type)
  | added (iref : Nat) (irt : IndirectReferenceTable Obj)
  | failed (errorMsg : String)
  | aborted (message : String)
  | scanPastTable

/-- What `Remove` comes to: its result and the new table, or the abort of
`AbortIfNoCheckJNI` when CheckJNI is off. -/
inductive RemoveResult (Obj : Type)
  | returned (removed : Bool) (irt : IndirectReferenceTable Obj)
  | aborted (message : String)

/-- What `Remove` asks of the thread: whether CheckJNI is on, and whether the
thread's handle scopes hold a given reference. -/
structure JniEnvironment where
  checkJniEnabled : Bool
  handleScopeContains : Nat → Bool

/-- `std::numeric_limits<size_t>::max()` on a 64-bit target. -/
def sizeMax : Nat := 2 ^ 64 - 1

/-- `%p` of a pointer: hexadecimal with a `0x` prefix. -/
def pointerText (value : Nat) : String :=
  "0x" ++ String.ofList (Nat.toDigits 16 value)

namespace IndirectReferenceTable

variable {Obj : Type}

/-- The constructor, when its checks pass and its mapping succeeds: every entry
is zero. -/
def create (maxCount : Nat) (kind : IndirectRefKind) (kindValid : kind ≠ .kHandleScopeOrInvalid)
    (bounded : maxCount ≤ kMaxEntries) (resizable : ResizableCapacity) :
    IndirectReferenceTable Obj where
  segmentState := 0
  table := fun _ => IrtEntry.zero
  kind := kind
  kindValid := kindValid
  maxEntries := maxCount
  maxEntriesBounded := bounded
  currentNumHoles := 0
  lastKnownPreviousState := 0
  resizable := resizable

/-- `CountNullEntries(table, from, to)`. -/
def countNullEntries (table : Nat → IrtEntry Obj) (fromIndex toIndex : Nat) : Nat :=
  countIn (fun index => (table index).getReference.isNone) fromIndex toIndex

/-- `RecoverHoles(prev_state)`: recount unless the last known previous state
lies in `[prev_state, top_index)`. -/
def recoverHoles (irt : IndirectReferenceTable Obj) (prevState : Nat) :
    IndirectReferenceTable Obj :=
  if irt.lastKnownPreviousState ≥ irt.segmentState ∨ irt.lastKnownPreviousState < prevState then
    { irt with
      currentNumHoles := countNullEntries irt.table prevState irt.segmentState
      lastKnownPreviousState := prevState }
  else irt

/-- `ToIndirectRef(table_index)`. -/
def toIndirectRef (irt : IndirectReferenceTable Obj) (tableIndex : Nat) : Nat :=
  encodeIndirectRef tableIndex (irt.table tableIndex).serial irt.kind

/-- `Resize(new_size, &error_msg)`, with `mapError` the failure of
`MemMap::MapAnonymous` if it fails. The old entries are copied and the new
ones are the zeros of the fresh mapping. -/
def resize (irt : IndirectReferenceTable Obj) (newSize : Nat) (mapError : Option String) :
    Except String (IndirectReferenceTable Obj) :=
  if tooLarge : newSize > kMaxEntries then .error s!"Requested size exceeds maximum: {newSize}"
  else
    match mapError with
    | some message => .error message
    | none =>
        .ok { irt with
          table := fun index => if index < irt.maxEntries then irt.table index else IrtEntry.zero
          maxEntries := newSize
          maxEntriesBounded := Nat.le_of_not_gt tooLarge }

/-- The scan of `Add` for the first hole: from `index` down while the entry
holds a reference; `none` when it runs below the first entry. -/
def scanForHole (table : Nat → IrtEntry Obj) : Nat → Option Nat
  | 0 => if (table 0).getReference.isNone then some 0 else none
  | index + 1 =>
      if (table (index + 1)).getReference.isNone then some (index + 1)
      else scanForHole table index

/-- The part of `Add` after `RecoverHoles`: fill the first hole below the top
entry if there is one, or push. -/
def addRecovered (irt : IndirectReferenceTable Obj) (obj : Obj) : AddResult Obj :=
  let topIndex := irt.segmentState
  if irt.currentNumHoles > 0 then
    -- the scan starts below the top entry, at `&table_[top_index - 1] - 1`
    if topIndex < 2 then .scanPastTable
    else
      match scanForHole irt.table (topIndex - 2) with
      | none => .scanPastTable
      | some index =>
          let irt := { irt with
            table := Function.update irt.table index ((irt.table index).add obj)
            currentNumHoles := irt.currentNumHoles - 1 }
          .added (irt.toIndirectRef index) irt
  else
    let irt := { irt with
      table := Function.update irt.table topIndex ((irt.table topIndex).add obj)
      segmentState := topIndex + 1 }
    .added (irt.toIndirectRef topIndex) irt

/-- `Add(previous_state, obj, &error_msg)`. The failure messages end with a dump
of the table, which is not modelled. -/
def add (irt : IndirectReferenceTable Obj) (previousState : Nat) (obj : Obj)
    (mapError : Option String) : AddResult Obj :=
  let topIndex := irt.segmentState
  let maxEntries := irt.maxEntries
  let overflow := s!"JNI ERROR (app bug): {irt.kind.text} table overflow (max={maxEntries})"
  if topIndex = maxEntries then
    match irt.resizable with
    | .kNo => .failed overflow
    | .kYes =>
        if sizeMax / 2 < maxEntries then
          .failed (overflow ++ "\n" ++ " Resizing failed: exceeds size_t")
        -- the `CHECK_GT(new_size, max_entries_)` of `Resize`
        else if maxEntries * 2 ≤ maxEntries then .aborted "Check failed: new_size > max_entries_"
        else
          match resize irt (maxEntries * 2) mapError with
          | .error inner => .failed (overflow ++ "\n" ++ " Resizing failed: " ++ inner)
          | .ok irt => addRecovered (recoverHoles irt previousState) obj
  else addRecovered (recoverHoles irt previousState) obj

/-- `CheckEntry(what, iref, idx)` when it fails: the abort of
`AbortIfNoCheckJNI`, or a plain `false` with CheckJNI on. -/
def checkEntryFailure (irt : IndirectReferenceTable Obj) (environment : JniEnvironment)
    (iref idx : Nat) : RemoveResult Obj :=
  if environment.checkJniEnabled then .returned false irt
  else
    .aborted (s!"JNI ERROR (app bug): attempt to remove stale {getIndirectRefKindString irt.kind}" ++
      s!" {pointerText iref} (should be {pointerText (irt.toIndirectRef idx)})")

/-- The loop of `Remove` that eats the holes right below a removed top entry:
`while (--collapse_top_index > bottom_index && current_num_holes_ != 0)`,
stopping at an entry that holds a reference. Returns the new top and count. -/
def collapseHoles (table : Nat → IrtEntry Obj) (bottomIndex : Nat) :
    (collapseTopIndex numHoles : Nat) → Nat × Nat
  | 0, numHoles => (0, numHoles)
  | collapseTopIndex + 1, numHoles =>
      if collapseTopIndex > bottomIndex ∧ numHoles ≠ 0 then
        if (table (collapseTopIndex - 1)).getReference.isSome then (collapseTopIndex, numHoles)
        else collapseHoles table bottomIndex collapseTopIndex (numHoles - 1)
      else (collapseTopIndex, numHoles)

/-- The part of `Remove` after `RecoverHoles`, for an index inside the segment. -/
def removeRecovered (irt : IndirectReferenceTable Obj) (environment : JniEnvironment)
    (bottomIndex iref idx : Nat) : RemoveResult Obj :=
  let topIndex := irt.segmentState
  if idx = topIndex - 1 then
    if irt.toIndirectRef idx ≠ iref then checkEntryFailure irt environment iref idx
    else
      let table := Function.update irt.table idx (irt.table idx).clearReference
      if irt.currentNumHoles ≠ 0 then
        let (collapseTopIndex, numHoles) :=
          collapseHoles table bottomIndex topIndex irt.currentNumHoles
        .returned true { irt with
          table := table, segmentState := collapseTopIndex, currentNumHoles := numHoles }
      else .returned true { irt with table := table, segmentState := topIndex - 1 }
  else
    -- removing a null entry would corrupt the hole count
    if (irt.table idx).getReference.isNone then .returned false irt
    else if irt.toIndirectRef idx ≠ iref then checkEntryFailure irt environment iref idx
    else
      .returned true { irt with
        table := Function.update irt.table idx (irt.table idx).clearReference
        currentNumHoles := irt.currentNumHoles + 1 }

/-- `Remove(previous_state, iref)`. -/
def remove (irt : IndirectReferenceTable Obj) (previousState : Nat) (iref : Nat)
    (environment : JniEnvironment) : RemoveResult Obj :=
  let topIndex := irt.segmentState
  let bottomIndex := previousState
  if decodeIndirectRefKind iref = .kHandleScopeOrInvalid ∧ environment.handleScopeContains iref then
    .returned true irt
  else
    let idx := extractIndex iref
    -- a reference of another segment, or a stale one
    if idx < bottomIndex then .returned false irt
    else if idx ≥ topIndex then .returned false irt
    else removeRecovered (recoverHoles irt previousState) environment bottomIndex iref idx

/-- `SetSegmentState(new_state)`. -/
def setSegmentState (irt : IndirectReferenceTable Obj) (newState : Nat) :
    IndirectReferenceTable Obj :=
  { irt with segmentState := newState }

/-! ## Counting holes -/

/-- An entry holds no reference. -/
abbrev IsHole (table : Nat → IrtEntry Obj) (index : Nat) : Prop :=
  (table index).getReference = none

theorem countNullEntries_congr {table other : Nat → IrtEntry Obj} {low high : Nat}
    (agree : ∀ index, low ≤ index → index < high → other index = table index) :
    countNullEntries other low high = countNullEntries table low high :=
  countIn.congr fun index lowLe lt => by rw [agree index lowLe lt]

theorem countNullEntries_fill {table : Nat → IrtEntry Obj} {low high index : Nat} (obj : Obj)
    (lowLe : low ≤ index) (lt : index < high) (hole : IsHole table index) :
    countNullEntries table low high =
      countNullEntries (Function.update table index ((table index).add obj)) low high + 1 := by
  apply countIn.of_flip lowLe lt
  · simp
  · simpa using hole
  · intro other different
    simp [Function.update_of_ne different]

theorem countNullEntries_clear {table : Nat → IrtEntry Obj} {low high index : Nat}
    (lowLe : low ≤ index) (lt : index < high) (live : (table index).getReference.isSome) :
    countNullEntries (Function.update table index (table index).clearReference) low high =
      countNullEntries table low high + 1 := by
  apply countIn.of_flip lowLe lt
  · simpa [Option.isNone_iff_eq_none, Option.isSome_iff_ne_none] using live
  · simp
  · intro other different
    simp [Function.update_of_ne different]

/-! ## What each part of `Add` and `Remove` does -/

@[simp] theorem recoverHoles_table (irt : IndirectReferenceTable Obj) (prevState : Nat) :
    (irt.recoverHoles prevState).table = irt.table := by
  unfold recoverHoles
  split <;> rfl

@[simp] theorem recoverHoles_segmentState (irt : IndirectReferenceTable Obj) (prevState : Nat) :
    (irt.recoverHoles prevState).segmentState = irt.segmentState := by
  unfold recoverHoles
  split <;> rfl

@[simp] theorem recoverHoles_kind (irt : IndirectReferenceTable Obj) (prevState : Nat) :
    (irt.recoverHoles prevState).kind = irt.kind := by
  unfold recoverHoles
  split <;> rfl

@[simp] theorem recoverHoles_maxEntries (irt : IndirectReferenceTable Obj) (prevState : Nat) :
    (irt.recoverHoles prevState).maxEntries = irt.maxEntries := by
  unfold recoverHoles
  split <;> rfl

theorem toIndirectRef_congr {irt other : IndirectReferenceTable Obj} {tableIndex : Nat}
    (sameKind : other.kind = irt.kind) (sameEntry : other.table tableIndex = irt.table tableIndex) :
    other.toIndirectRef tableIndex = irt.toIndirectRef tableIndex := by
  simp only [toIndirectRef, sameKind, sameEntry]

theorem toIndirectRef_ne_zero (irt : IndirectReferenceTable Obj) (tableIndex : Nat) :
    irt.toIndirectRef tableIndex ≠ 0 := by
  have serialFits := (irt.table tableIndex).serial_lt_four
  have kindPositive := irt.kind.toNat_pos irt.kindValid
  rw [toIndirectRef, encodeIndirectRef_eq tableIndex serialFits]
  omega

theorem extractIndex_toIndirectRef (irt : IndirectReferenceTable Obj) {tableIndex : Nat}
    (indexFits : tableIndex < 2 ^ 32) : extractIndex (irt.toIndirectRef tableIndex) = tableIndex := by
  have serialFits := (irt.table tableIndex).serial_lt_four
  exact decodeIndex_encodeIndirectRef indexFits serialFits irt.kind

theorem decodeIndirectRefKind_toIndirectRef (irt : IndirectReferenceTable Obj) (tableIndex : Nat) :
    decodeIndirectRefKind (irt.toIndirectRef tableIndex) = irt.kind := by
  have serialFits := (irt.table tableIndex).serial_lt_four
  exact decodeIndirectRefKind_encodeIndirectRef serialFits irt.kind

@[simp] theorem toIndirectRef_recoverHoles (irt : IndirectReferenceTable Obj) (prevState : Nat) :
    (irt.recoverHoles prevState).toIndirectRef = irt.toIndirectRef := by
  funext tableIndex
  simp [toIndirectRef]

/-- After `RecoverHoles(prev_state)` the cache describes the caller's segment,
provided a cache it keeps was already exact for it. -/
theorem recoverHoles_exact (irt : IndirectReferenceTable Obj) {prevState : Nat}
    (cached : prevState ≤ irt.lastKnownPreviousState →
      irt.lastKnownPreviousState < irt.segmentState →
      irt.lastKnownPreviousState = prevState ∧
        irt.currentNumHoles = countNullEntries irt.table prevState irt.segmentState) :
    (irt.recoverHoles prevState).lastKnownPreviousState = prevState ∧
      (irt.recoverHoles prevState).currentNumHoles =
        countNullEntries irt.table prevState irt.segmentState := by
  unfold recoverHoles
  split
  · exact ⟨rfl, rfl⟩
  · rename_i inside
    exact cached (by omega) (by omega)

theorem scanForHole_spec {table : Nat → IrtEntry Obj} :
    ∀ {start index : Nat}, scanForHole table start = some index →
      index ≤ start ∧ IsHole table index ∧
        ∀ other, index < other → other ≤ start → (table other).getReference.isSome
  | 0, index, found => by
      unfold scanForHole at found
      split at found
      · rename_i hole
        cases found
        exact ⟨Nat.le_refl 0, Option.isNone_iff_eq_none.mp hole, fun other lt le => by omega⟩
      · cases found
  | start + 1, index, found => by
      unfold scanForHole at found
      split at found
      · rename_i hole
        cases found
        exact ⟨Nat.le_refl _, Option.isNone_iff_eq_none.mp hole, fun other lt le => by omega⟩
      · rename_i live
        obtain ⟨below, hole, liveBetween⟩ := scanForHole_spec found
        refine ⟨by omega, hole, fun other lt le => ?_⟩
        rcases Nat.lt_or_eq_of_le le with lower | top
        · exact liveBetween other lt (by omega)
        · subst top
          exact Option.isSome_iff_ne_none.mpr (by simpa using live)

theorem scanForHole_isSome {table : Nat → IrtEntry Obj} :
    ∀ {start hole : Nat}, hole ≤ start → IsHole table hole →
      ∃ index, scanForHole table start = some index ∧ hole ≤ index
  | 0, hole, le, isHole => by
      have zero : hole = 0 := by omega
      subst zero
      refine ⟨0, ?_, Nat.le_refl 0⟩
      simp [scanForHole, isHole]
  | start + 1, hole, le, isHole => by
      by_cases atStart : (table (start + 1)).getReference.isNone
      · exact ⟨start + 1, by simp [scanForHole, atStart], le⟩
      · have below : hole ≤ start := by
          rcases Nat.lt_or_eq_of_le le with lower | same
          · omega
          · subst same
            simp [isHole] at atStart
        obtain ⟨index, found, holeLe⟩ := scanForHole_isSome below isHole
        exact ⟨index, by simp [scanForHole, atStart, found], holeLe⟩

/-- The collapse loop of `Remove`. Entered with the entries from
`collapseTopIndex - 1` to the old top all holes and `numHoles` the holes
below them, it stops at a top whose entry below holds a reference, or at the
bottom, with the count of the holes below the new top. -/
theorem collapseHoles_spec (table : Nat → IrtEntry Obj) (bottomIndex topIndex : Nat)
    (collapseTopIndex numHoles : Nat) (above : bottomIndex < collapseTopIndex)
    (le : collapseTopIndex ≤ topIndex)
    (holes : ∀ index, collapseTopIndex - 1 ≤ index → index < topIndex → IsHole table index)
    (counted : numHoles = countNullEntries table bottomIndex (collapseTopIndex - 1)) :
    let result := collapseHoles table bottomIndex collapseTopIndex numHoles
    bottomIndex ≤ result.1 ∧ result.1 < collapseTopIndex ∧
      (∀ index, result.1 ≤ index → index < topIndex → IsHole table index) ∧
      result.2 = countNullEntries table bottomIndex result.1 ∧
      (bottomIndex < result.1 → (table (result.1 - 1)).getReference.isSome) := by
  -- the loop decrements before it tests, so `next` is the candidate top
  induction collapseTopIndex generalizing numHoles with
  | zero => omega
  | succ next induction =>
      simp only [Nat.add_sub_cancel] at holes counted
      simp only [collapseHoles]
      split
      · rename_i continuing
        split
        · rename_i live
          exact ⟨by omega, by omega, holes, counted, fun _ => live⟩
        · rename_i notLive
          have isHole : IsHole table (next - 1) := by simpa using notLive
          have moreHoles : ∀ index, next - 1 ≤ index → index < topIndex → IsHole table index := by
            intro index lowLe lt
            rcases Nat.lt_or_eq_of_le lowLe with higher | same
            · exact holes index (by omega) lt
            · rw [← same]
              exact isHole
          have oneMore : countNullEntries table bottomIndex next =
              countNullEntries table bottomIndex (next - 1) + 1 := by
            have grown := countIn.succ_right (fun index => (table index).getReference.isNone)
              (show bottomIndex ≤ next - 1 by omega)
            have sameTop : next - 1 + 1 = next := by omega
            rw [sameTop] at grown
            simp only [countNullEntries, grown, isHole, Option.isNone_none, if_true]
          obtain ⟨lowLe, lt, holesAbove, count, live⟩ :=
            induction (numHoles - 1) (by omega) (by omega) moreHoles (by omega)
          exact ⟨lowLe, by omega, holesAbove, count, live⟩
      · rename_i stopping
        refine ⟨by omega, by omega, holes, ?_, ?_⟩
        · rcases Nat.lt_or_ge bottomIndex next with inside | atBottom
          · exact counted
          · have same : next = bottomIndex := by omega
            rw [same, countNullEntries, countIn.self] at counted ⊢
            exact counted
        · intro aboveBottom
          have none : countNullEntries table bottomIndex next = 0 := by omega
          have noHoles := countIn.eq_zero_iff.mp none (next - 1) (by omega) (by omega)
          simpa using noHoles

/-! ## `Add` and `Remove` on an exact cache

The two results below say, once, everything a successful `Add` or `Remove`
does to a segment `[cookie, top)` whose cached hole count is exact and whose
top entry holds a reference. -/

/-- What `Add` did: `obj` went into entry `index` of the segment, a hole or the
entry at the old top, and the segment's cache is exact again. -/
structure AddedEntry (before after : IndirectReferenceTable Obj) (cookie index : Nat) (obj : Obj) :
    Prop where
  table : after.table = Function.update before.table index ((before.table index).add obj)
  cookieLe : cookie ≤ index
  indexLt : index < after.segmentState
  wasFree : (IsHole before.table index ∧ after.segmentState = before.segmentState) ∨
    (index = before.segmentState ∧ after.segmentState = before.segmentState + 1)
  topLive : (after.table (after.segmentState - 1)).getReference.isSome
  exact : after.currentNumHoles = countNullEntries after.table cookie after.segmentState
  kind : after.kind = before.kind
  maxEntries : after.maxEntries = before.maxEntries
  lastKnown : after.lastKnownPreviousState = before.lastKnownPreviousState

/-- What `Remove` did: entry `idx` was cleared, the top came down past the holes
this left at the top of the segment, and the segment's cache is exact. -/
structure RemovedEntry (before after : IndirectReferenceTable Obj) (cookie idx : Nat) : Prop where
  table : after.table = Function.update before.table idx (before.table idx).clearReference
  topLe : after.segmentState ≤ before.segmentState
  idxLt : idx < before.segmentState
  cookieLe : cookie ≤ after.segmentState
  holesAtTop : ∀ index, after.segmentState ≤ index → index < before.segmentState →
    IsHole after.table index
  topLive : cookie < after.segmentState → (after.table (after.segmentState - 1)).getReference.isSome
  exact : after.currentNumHoles = countNullEntries after.table cookie after.segmentState
  kind : after.kind = before.kind
  maxEntries : after.maxEntries = before.maxEntries
  lastKnown : after.lastKnownPreviousState = before.lastKnownPreviousState

theorem checkEntryFailure_cases (irt : IndirectReferenceTable Obj) (environment : JniEnvironment) (iref idx : Nat) :
    irt.checkEntryFailure environment iref idx = .returned false irt ∨
      ∃ message, irt.checkEntryFailure environment iref idx = .aborted message := by
  unfold checkEntryFailure
  split
  · exact Or.inl rfl
  · exact Or.inr ⟨_, rfl⟩

section ExactSegment

variable {irt : IndirectReferenceTable Obj} {cookie : Nat}
  (cookieLe : cookie ≤ irt.segmentState)
  (topLive : cookie < irt.segmentState → (irt.table (irt.segmentState - 1)).getReference.isSome)
  (exact : irt.currentNumHoles = countNullEntries irt.table cookie irt.segmentState)
include cookieLe topLive exact

theorem addRecovered_spec (obj : Obj) :
    ∃ index after, addRecovered irt obj = .added (after.toIndirectRef index) after ∧
      AddedEntry irt after cookie index obj := by
  unfold addRecovered
  split
  · rename_i someHoles
    -- a hole exists in the segment, and not at its top entry
    obtain ⟨hole, lowLe, lt, isHole⟩ := countIn.exists_of_pos (exact ▸ someHoles)
    have holeIsHole : IsHole irt.table hole := by simpa using isHole
    have belowTop : hole + 2 ≤ irt.segmentState := by
      have live := topLive (by omega)
      have notTop : hole ≠ irt.segmentState - 1 := by
        intro same
        rw [← same, holeIsHole] at live
        cases live
      omega
    obtain ⟨index, found, holeLe⟩ := scanForHole_isSome (show hole ≤ irt.segmentState - 2 by omega)
      holeIsHole
    obtain ⟨indexLe, indexHole, -⟩ := scanForHole_spec found
    have enough : ¬irt.segmentState < 2 := by omega
    rw [if_neg enough, found]
    let table := Function.update irt.table index ((irt.table index).add obj)
    have count : countNullEntries irt.table cookie irt.segmentState =
        countNullEntries table cookie irt.segmentState + 1 :=
      countNullEntries_fill obj (by omega) (by omega) indexHole
    refine ⟨index, { irt with table := table, currentNumHoles := irt.currentNumHoles - 1 },
      rfl, ?_⟩
    refine ⟨rfl, by omega, by simp; omega, Or.inl ⟨indexHole, rfl⟩, ?_, ?_, rfl, rfl, rfl⟩
    · have notIndex : irt.segmentState - 1 ≠ index := by omega
      simpa [table, Function.update_of_ne notIndex] using topLive (by omega)
    · simp only [table] at count ⊢
      omega
  · rename_i noHoles
    let table := Function.update irt.table irt.segmentState
      ((irt.table irt.segmentState).add obj)
    refine ⟨irt.segmentState, { irt with table := table, segmentState := irt.segmentState + 1 },
      rfl, rfl, cookieLe, by simp, Or.inr ⟨rfl, rfl⟩, by simp [table], ?_, rfl, rfl, rfl⟩
    -- the pushed entry holds `obj`, and below it nothing changed
    show irt.currentNumHoles = countNullEntries table cookie (irt.segmentState + 1)
    have pushed : (table irt.segmentState).getReference.isNone = false := by simp [table]
    have below : countNullEntries table cookie irt.segmentState =
        countNullEntries irt.table cookie irt.segmentState :=
      countNullEntries_congr fun index _ lt => by
        simp [table, Function.update_of_ne (Nat.ne_of_lt lt)]
    have grown : countNullEntries table cookie (irt.segmentState + 1) =
        countNullEntries table cookie irt.segmentState := by
      simp only [countNullEntries, countIn.succ_right _ cookieLe, pushed]
      rfl
    rw [grown, below, ← exact]

theorem removeRecovered_of_live (environment : JniEnvironment) {iref idx : Nat}
    (idxLe : cookie ≤ idx) (idxLt : idx < irt.segmentState)
    (canonical : iref = irt.toIndirectRef idx) (live : (irt.table idx).getReference.isSome) :
    ∃ after, irt.removeRecovered environment cookie iref idx = .returned true after ∧
      RemovedEntry irt after cookie idx := by
  let table := Function.update irt.table idx (irt.table idx).clearReference
  have cleared : IsHole table idx := by
    show (table idx).getReference = none
    simp [table]
  have agree : ∀ index, index ≠ idx → table index = irt.table index :=
    fun index different => Function.update_of_ne different _ _
  have passes : ¬irt.toIndirectRef idx ≠ iref := by simpa using canonical.symm
  unfold removeRecovered
  dsimp only
  by_cases atTop : idx = irt.segmentState - 1
  · rw [if_pos atTop, if_neg passes]
    -- the entries below the removed top one are unchanged, so are their holes
    have countBelow : countNullEntries table cookie (irt.segmentState - 1) =
        countNullEntries irt.table cookie (irt.segmentState - 1) :=
      countNullEntries_congr fun index _ lt => agree index (by omega)
    have countWithTop : countNullEntries irt.table cookie irt.segmentState =
        countNullEntries irt.table cookie (irt.segmentState - 1) := by
      have grown := countIn.succ_right (fun index => (irt.table index).getReference.isNone)
        (show cookie ≤ irt.segmentState - 1 by omega)
      have sameTop : irt.segmentState - 1 + 1 = irt.segmentState := by omega
      have liveTop : (irt.table (irt.segmentState - 1)).getReference.isNone = false := by
        rw [← atTop]
        simpa [Option.isSome_iff_ne_none] using live
      rw [sameTop] at grown
      simp only [countNullEntries, grown, liveTop]
      rfl
    by_cases someHoles : irt.currentNumHoles ≠ 0
    · rw [if_pos someHoles]
      obtain ⟨lowLe, lt, holesAtTop, count, topLive'⟩ :=
        collapseHoles_spec table cookie irt.segmentState irt.segmentState irt.currentNumHoles
          (by omega) (Nat.le_refl _)
          (fun index lowLe lt => by
            have same : index = idx := by omega
            rw [same]
            exact cleared)
          (by rw [countBelow, ← countWithTop, exact])
      exact ⟨_, rfl, rfl, Nat.le_of_lt lt, idxLt, lowLe, holesAtTop, topLive', count,
        rfl, rfl, rfl⟩
    · rw [if_neg someHoles]
      have none : countNullEntries irt.table cookie (irt.segmentState - 1) = 0 := by omega
      refine ⟨_, rfl, rfl, Nat.sub_le _ 1, idxLt, by dsimp only; omega, ?_, ?_, ?_, rfl, rfl, rfl⟩
      · intro index lowLe lt
        dsimp only at lowLe
        have same : index = idx := by omega
        rw [same]
        exact cleared
      · intro above
        dsimp only at above
        have liveBelow := countIn.eq_zero_iff.mp none (irt.segmentState - 1 - 1)
          (by omega) (by omega)
        show (table (irt.segmentState - 1 - 1)).getReference.isSome
        rw [agree _ (by omega)]
        simpa [Option.isSome_iff_ne_none] using liveBelow
      · show irt.currentNumHoles = countNullEntries table cookie (irt.segmentState - 1)
        rw [countBelow]
        omega
  · rw [if_neg atTop, if_neg (by simpa [Option.isSome_iff_ne_none] using live), if_neg passes]
    refine ⟨_, rfl, rfl, Nat.le_refl _, idxLt, cookieLe,
      fun index lowLe lt => by dsimp only at lowLe; omega, ?_, ?_,
      rfl, rfl, rfl⟩
    · intro above
      dsimp only at above
      show (table (irt.segmentState - 1)).getReference.isSome
      rw [agree _ (by omega)]
      exact topLive above
    · show irt.currentNumHoles + 1 = countNullEntries table cookie irt.segmentState
      rw [countNullEntries_clear idxLe idxLt live, exact]

/-- Everything `Remove` can do inside the segment: refuse and change nothing,
abort, or remove a live entry that the reference names. -/
theorem removeRecovered_spec (environment : JniEnvironment) (iref : Nat) {idx : Nat}
    (idxLe : cookie ≤ idx) (idxLt : idx < irt.segmentState) :
    irt.removeRecovered environment cookie iref idx = .returned false irt ∨
      (∃ message, irt.removeRecovered environment cookie iref idx = .aborted message) ∨
      (iref = irt.toIndirectRef idx ∧ (irt.table idx).getReference.isSome ∧
        ∃ after, irt.removeRecovered environment cookie iref idx = .returned true after ∧
          RemovedEntry irt after cookie idx) := by
  by_cases canonical : iref = irt.toIndirectRef idx
  · by_cases live : (irt.table idx).getReference.isSome
    · exact Or.inr (Or.inr ⟨canonical, live,
        removeRecovered_of_live cookieLe topLive exact environment idxLe idxLt canonical live⟩)
    · -- a hole is never the top entry, so this is the refusal of a null entry
      have notTop : idx ≠ irt.segmentState - 1 := by
        intro atTop
        apply live
        rw [atTop]
        exact topLive (by omega)
      left
      unfold removeRecovered
      dsimp only
      rw [if_neg notTop, if_pos (by simpa using live)]
  · unfold removeRecovered
    dsimp only
    split
    · rw [if_pos (Ne.symm canonical)]
      exact (checkEntryFailure_cases irt environment iref idx).imp_right Or.inl
    · split
      · exact Or.inl rfl
      · rw [if_pos (Ne.symm canonical)]
        exact (checkEntryFailure_cases irt environment iref idx).imp_right Or.inl

end ExactSegment

/-! ## The checks before the segment is touched -/

theorem resize_eq_ok {irt after : IndirectReferenceTable Obj} {newSize : Nat}
    {mapError : Option String} (resized : irt.resize newSize mapError = .ok after) :
    after.segmentState = irt.segmentState ∧ after.currentNumHoles = irt.currentNumHoles ∧
      after.lastKnownPreviousState = irt.lastKnownPreviousState ∧ after.kind = irt.kind ∧
      after.maxEntries = newSize ∧
      ∀ index, index < irt.maxEntries → after.table index = irt.table index := by
  unfold resize at resized
  split at resized
  · cases resized
  · split at resized
    · cases resized
    · cases resized
      exact ⟨rfl, rfl, rfl, rfl, rfl, fun index lt => if_pos lt⟩

/-- `Add` past its capacity check: the table it works on has room above the
top, and agrees with the caller's table below the top. -/
theorem add_eq_added {irt after : IndirectReferenceTable Obj} {previousState iref : Nat}
    {obj : Obj} {mapError : Option String} (withinCapacity : irt.segmentState ≤ irt.maxEntries)
    (added : irt.add previousState obj mapError = .added iref after) :
    ∃ roomy : IndirectReferenceTable Obj,
      roomy.segmentState = irt.segmentState ∧ roomy.currentNumHoles = irt.currentNumHoles ∧
      roomy.lastKnownPreviousState = irt.lastKnownPreviousState ∧ roomy.kind = irt.kind ∧
      irt.segmentState < roomy.maxEntries ∧
      (∀ index, index < irt.segmentState → roomy.table index = irt.table index) ∧
      (roomy.recoverHoles previousState).addRecovered obj = .added iref after := by
  unfold add at added
  dsimp only at added
  split at added
  · rename_i full
    split at added
    · cases added
    · split at added
      · cases added
      split at added
      · cases added
      · rename_i grows
        split at added
        · cases added
        · rename_i roomy resized
          obtain ⟨sameTop, sameHoles, sameKnown, sameKind, doubled, agree⟩ := resize_eq_ok resized
          exact ⟨roomy, sameTop, sameHoles, sameKnown, sameKind, by omega,
            fun index lt => agree index (by omega), added⟩
  · rename_i notFull
    exact ⟨irt, rfl, rfl, rfl, rfl, by omega, fun _ _ => rfl, added⟩

/-- `Remove` either returns before it looks at the segment, with the table
unchanged (a handle-scope reference, or an index outside the segment), or goes
on with an index inside the segment. -/
theorem remove_cases (irt : IndirectReferenceTable Obj) (previousState iref : Nat)
    (environment : JniEnvironment) :
    (decodeIndirectRefKind iref = .kHandleScopeOrInvalid ∧
        irt.remove previousState iref environment = .returned true irt) ∨
      ((extractIndex iref < previousState ∨ irt.segmentState ≤ extractIndex iref) ∧
        irt.remove previousState iref environment = .returned false irt) ∨
      (previousState ≤ extractIndex iref ∧ extractIndex iref < irt.segmentState ∧
        irt.remove previousState iref environment =
          (irt.recoverHoles previousState).removeRecovered environment previousState iref
            (extractIndex iref)) := by
  unfold remove
  dsimp only
  split
  · rename_i handleScope
    exact Or.inl ⟨handleScope.1, rfl⟩
  split
  · rename_i below
    exact Or.inr (Or.inl ⟨Or.inl below, rfl⟩)
  split
  · rename_i above
    exact Or.inr (Or.inl ⟨Or.inr above, rfl⟩)
  · rename_i notBelow notAbove
    exact Or.inr (Or.inr ⟨by omega, by omega, rfl⟩)

end IndirectReferenceTable

end ArtRuntime.Runtime
