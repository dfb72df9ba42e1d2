import ArtRuntime.Runtime.IndirectReferenceTable
import Mathlib.Data.List.Chain

/-! # Local references under the JNI frame discipline

`JNIEnvExt` of `runtime/jni_env_ext.cc` keeps the local reference table, the
cookie of the current frame and the cookies of the frames below it.
`PushFrame` saves the cookie and starts a frame at the table's top;
`PopFrame` cuts the table back to the current cookie and restores the saved
one; `NewLocalRef` and `DeleteLocalRef` call `Add` and `Remove` with the
current cookie.

The invariant is stated frame by frame over the list of boundaries (the top,
then the cookies from the innermost out): every frame's top entry holds a
reference, and the cached hole count is exact for the frame whose cookie it
was last computed for. A pop does not recount; what keeps the cache honest is
that the last known previous state is always a cookie of the stack or at
least the top, so `RecoverHoles` keeps it only when it is the current cookie. -/

namespace ArtRuntime.Runtime

open ArtRuntime.Foundation IndirectReferenceTable

/-- `kIRTFirstSegment`. -/
def kIRTFirstSegment : Nat := 0

/-- The local-reference part of `JNIEnvExt`; `stackedLocalRefCookies` has the
innermost saved cookie first (the `back()` of the source's vector). -/
structure JniEnvExt (Obj : Type) where
  locals : IndirectReferenceTable Obj
  localRefCookie : Nat
  stackedLocalRefCookies : List Nat

/-- The calls a thread makes on its local references. -/
inductive JniOperation (Obj : Type)
  | pushFrame
  | popFrame
  | newLocalRef (obj : Obj) (mapError : Option String)
  | deleteLocalRef (iref : Nat) (environment : JniEnvironment)

namespace JniEnvExt

variable {Obj : Type}

/-- A thread's environment with a fresh local table. -/
def create (maxCount : Nat) (kind : IndirectRefKind) (kindValid : kind ≠ .kHandleScopeOrInvalid)
    (bounded : maxCount ≤ kMaxEntries) (resizable : ResizableCapacity) : JniEnvExt Obj where
  locals := IndirectReferenceTable.create maxCount kind kindValid bounded resizable
  localRefCookie := kIRTFirstSegment
  stackedLocalRefCookies := []

/-- `PushFrame`. -/
def pushFrame (env : JniEnvExt Obj) : JniEnvExt Obj where
  locals := env.locals
  localRefCookie := env.locals.segmentState
  stackedLocalRefCookies := env.localRefCookie :: env.stackedLocalRefCookies

@[simp] theorem pushFrame_locals (env : JniEnvExt Obj) : env.pushFrame.locals = env.locals := rfl

@[simp] theorem pushFrame_localRefCookie (env : JniEnvExt Obj) :
    env.pushFrame.localRefCookie = env.locals.segmentState := rfl

/-- `PopFrame`; `none` when no frame was pushed, where `back()` of the empty
vector is undefined. -/
def popFrame (env : JniEnvExt Obj) : Option (JniEnvExt Obj) :=
  match env.stackedLocalRefCookies with
  | [] => none
  | cookie :: rest =>
      some { locals := env.locals.setSegmentState env.localRefCookie
             localRefCookie := cookie
             stackedLocalRefCookies := rest }

/-- `NewLocalRef(obj)`; `none` when `Add` fails, which is a `LOG(FATAL)` here,
or aborts, or scans below the table. -/
def newLocalRef (env : JniEnvExt Obj) (obj : Obj) (mapError : Option String) :
    Option (Nat × JniEnvExt Obj) :=
  match env.locals.add env.localRefCookie obj mapError with
  | .added iref locals => some (iref, { env with locals := locals })
  | _ => none

/-- `DeleteLocalRef(obj)`; a null reference is ignored, and `none` is the abort
of a stale reference without CheckJNI. -/
def deleteLocalRef (env : JniEnvExt Obj) (iref : Nat) (environment : JniEnvironment) :
    Option (JniEnvExt Obj) :=
  if iref = 0 then some env
  else
    match env.locals.remove env.localRefCookie iref environment with
    | .returned _ locals => some { env with locals := locals }
    | .aborted _ => none

def step (env : JniEnvExt Obj) : JniOperation Obj → Option (JniEnvExt Obj)
  | .pushFrame => some env.pushFrame
  | .popFrame => env.popFrame
  | .newLocalRef obj mapError => (env.newLocalRef obj mapError).map Prod.snd
  | .deleteLocalRef iref environment => env.deleteLocalRef iref environment

/-- A sequence of calls; `none` once one of them aborts. -/
def run (env : JniEnvExt Obj) : List (JniOperation Obj) → Option (JniEnvExt Obj)
  | [] => some env
  | operation :: rest => (env.step operation).bind fun next => next.run rest

/-! ## The invariant -/

/-- The boundaries of the frames: the top, then the cookies from the current
frame's out. -/
def boundaries (env : JniEnvExt Obj) : List Nat :=
  env.locals.segmentState :: env.localRefCookie :: env.stackedLocalRefCookies

/-- A frame from its cookie `lower` up to the boundary `upper` above it: its
top entry holds a reference, and the cache counts its holes if it was last
computed for it. -/
def FrameSound (irt : IndirectReferenceTable Obj) (upper lower : Nat) : Prop :=
  lower ≤ upper ∧
    (lower < upper → (irt.table (upper - 1)).getReference.isSome) ∧
    (irt.lastKnownPreviousState = lower → lower < upper →
      irt.currentNumHoles = countNullEntries irt.table lower upper)

structure Invariant (env : JniEnvExt Obj) : Prop where
  frames : env.boundaries.IsChain (FrameSound env.locals)
  lastKnown : env.locals.lastKnownPreviousState ∈ env.localRefCookie :: env.stackedLocalRefCookies ∨
    env.locals.segmentState ≤ env.locals.lastKnownPreviousState
  withinCapacity : env.locals.segmentState ≤ env.locals.maxEntries

/-- The cache describes the current frame exactly. -/
def HolesExact (env : JniEnvExt Obj) : Prop :=
  env.locals.currentNumHoles =
    countNullEntries env.locals.table env.localRefCookie env.locals.segmentState

/-- The top entry of the current frame holds a reference. -/
def TopLive (env : JniEnvExt Obj) : Prop :=
  env.localRefCookie < env.locals.segmentState →
    (env.locals.table (env.locals.segmentState - 1)).getReference.isSome

/-- `iref` is the reference of a live entry holding `obj`: its index is below
the top, the entry holds `obj`, and `ToIndirectRef` of that index, serial
included, is `iref`. -/
def Decodes (irt : IndirectReferenceTable Obj) (iref : Nat) (obj : Obj) : Prop :=
  extractIndex iref < irt.segmentState ∧ iref = irt.toIndirectRef (extractIndex iref) ∧
    (irt.table (extractIndex iref)).getReference = some obj

theorem FrameSound.le {irt : IndirectReferenceTable Obj} {upper lower : Nat}
    (sound : FrameSound irt upper lower) : lower ≤ upper :=
  sound.1

/-- A frame at or below `cookie` stays sound when the table changes only at
`cookie` and above and the cache was last computed for `cookie`. -/
theorem FrameSound.of_agree_below {irt other : IndirectReferenceTable Obj} {cookie upper lower : Nat}
    (sound : FrameSound irt upper lower) (upperLe : upper ≤ cookie)
    (agree : ∀ index, index < cookie → other.table index = irt.table index)
    (lastKnown : other.lastKnownPreviousState = cookie) : FrameSound other upper lower := by
  obtain ⟨le, live, -⟩ := sound
  refine ⟨le, fun below => ?_, fun known below => by omega⟩
  rw [agree _ (by omega)]
  exact live below

theorem isChain_frameSound_of_agree_below {irt other : IndirectReferenceTable Obj} {cookie : Nat}
    {cookies : List Nat} (frames : (cookie :: cookies).IsChain (FrameSound irt))
    (agree : ∀ index, index < cookie → other.table index = irt.table index)
    (lastKnown : other.lastKnownPreviousState = cookie) :
    (cookie :: cookies).IsChain (FrameSound other) := by
  have below : ∀ boundary ∈ cookie :: cookies, boundary ≤ cookie := by
    have ordered : (cookie :: cookies).IsChain (fun upper lower => lower ≤ upper) :=
      frames.imp fun _ _ sound => sound.le
    intro boundary member
    rcases List.mem_cons.mp member with same | inner
    · omega
    · exact ordered.rel_cons inner
  exact frames.imp_of_mem_imp fun upper lower upperMember _ sound =>
    sound.of_agree_below (below upper upperMember) agree lastKnown

section Invariant

variable {env : JniEnvExt Obj} (invariant : env.Invariant)
include invariant

theorem Invariant.cookie_le_top : env.localRefCookie ≤ env.locals.segmentState :=
  (List.isChain_cons_cons.mp invariant.frames).1.le

theorem Invariant.topLive : env.TopLive :=
  (List.isChain_cons_cons.mp invariant.frames).1.2.1

theorem Invariant.below : (env.localRefCookie :: env.stackedLocalRefCookies).IsChain
    (FrameSound env.locals) :=
  (List.isChain_cons_cons.mp invariant.frames).2

/-- A cache that `RecoverHoles` keeps for the current cookie is the current
frame's: the last known state is a cookie or above the top, and the saved
cookies are below the current one. -/
theorem Invariant.cached :
    env.localRefCookie ≤ env.locals.lastKnownPreviousState →
      env.locals.lastKnownPreviousState < env.locals.segmentState →
      env.locals.lastKnownPreviousState = env.localRefCookie ∧
        env.locals.currentNumHoles =
          countNullEntries env.locals.table env.localRefCookie env.locals.segmentState := by
  intro cookieLe belowTop
  have isCookie : env.locals.lastKnownPreviousState = env.localRefCookie := by
    rcases invariant.lastKnown with member | aboveTop
    · rcases List.mem_cons.mp member with same | saved
      · exact same
      · have ordered : (env.localRefCookie :: env.stackedLocalRefCookies).IsChain
            (fun upper lower => lower ≤ upper) :=
          invariant.below.imp fun _ _ sound => sound.le
        have savedLe := ordered.rel_cons saved
        omega
    · omega
  exact ⟨isCookie, (List.isChain_cons_cons.mp invariant.frames).1.2.2 isCookie (by omega)⟩

theorem Invariant.recoverHoles :
    (env.locals.recoverHoles env.localRefCookie).lastKnownPreviousState = env.localRefCookie ∧
      (env.locals.recoverHoles env.localRefCookie).currentNumHoles =
        countNullEntries env.locals.table env.localRefCookie env.locals.segmentState :=
  env.locals.recoverHoles_exact invariant.cached

theorem Invariant.pushFrame : env.pushFrame.Invariant := by
  have frames := invariant.frames
  refine ⟨?_, ?_, invariant.withinCapacity⟩
  · -- the new frame is empty
    refine List.isChain_cons_cons.mpr ⟨⟨Nat.le_refl _, fun empty => by simp at empty,
      fun _ empty => by simp at empty⟩, frames⟩
  · rcases invariant.lastKnown with member | aboveTop
    · exact Or.inl (List.mem_cons_of_mem _ member)
    · exact Or.inr aboveTop

theorem Invariant.popFrame {popped : JniEnvExt Obj} (stepped : env.popFrame = some popped) :
    popped.Invariant := by
  unfold JniEnvExt.popFrame at stepped
  split at stepped
  · cases stepped
  · rename_i cookie rest saved
    cases stepped
    have frames := invariant.below
    rw [saved] at frames
    refine ⟨frames, ?_, ?_⟩
    · -- a cache for the popped frame's cookie is at the new top
      rcases invariant.lastKnown with member | aboveTop
      · rw [saved] at member
        rcases List.mem_cons.mp member with same | older
        · exact Or.inr (Nat.le_of_eq same.symm)
        · exact Or.inl older
      · exact Or.inr (Nat.le_trans invariant.cookie_le_top aboveTop)
    · exact Nat.le_trans invariant.cookie_le_top invariant.withinCapacity

end Invariant

/-! ## What each call does to the environment -/

/-- What a `NewLocalRef` that returned did: `obj` went into entry `index` of the
current frame, a hole or the entry at the old top, and the frame's cache is
exact. -/
structure NewLocalRefDone (env added : JniEnvExt Obj) (index : Nat) (obj : Obj) : Prop where
  cookie : added.localRefCookie = env.localRefCookie
  stacked : added.stackedLocalRefCookies = env.stackedLocalRefCookies
  cookieLe : env.localRefCookie ≤ index
  indexLt : index < added.locals.segmentState
  wasFree : (IsHole env.locals.table index ∧ added.locals.segmentState = env.locals.segmentState) ∨
    (index = env.locals.segmentState ∧ added.locals.segmentState = env.locals.segmentState + 1)
  stored : (added.locals.table index).getReference = some obj
  agree : ∀ other, other ≠ index → other < env.locals.segmentState →
    added.locals.table other = env.locals.table other
  holesExact : added.HolesExact
  topLive : added.TopLive
  lastKnown : added.locals.lastKnownPreviousState = env.localRefCookie
  kind : added.locals.kind = env.locals.kind
  withinCapacity : added.locals.segmentState ≤ added.locals.maxEntries

/-- What a `DeleteLocalRef` that removed did: it cleared entry `idx` of the
current frame, which the reference named and which held a reference, and
brought the top down past the holes this left at the top of the frame. -/
structure DeleteLocalRefDone (env deleted : JniEnvExt Obj) (iref idx : Nat) : Prop where
  cookie : deleted.localRefCookie = env.localRefCookie
  stacked : deleted.stackedLocalRefCookies = env.stackedLocalRefCookies
  cookieLe : env.localRefCookie ≤ idx
  idxLt : idx < env.locals.segmentState
  canonical : iref = env.locals.toIndirectRef idx
  wasLive : (env.locals.table idx).getReference.isSome
  table : deleted.locals.table = Function.update env.locals.table idx (env.locals.table idx).clearReference
  topLe : deleted.locals.segmentState ≤ env.locals.segmentState
  cookieLeTop : env.localRefCookie ≤ deleted.locals.segmentState
  holesAtTop : ∀ index, deleted.locals.segmentState ≤ index → index < env.locals.segmentState →
    IsHole deleted.locals.table index
  holesExact : deleted.HolesExact
  topLive : deleted.TopLive
  lastKnown : deleted.locals.lastKnownPreviousState = env.localRefCookie
  kind : deleted.locals.kind = env.locals.kind
  maxEntries : deleted.locals.maxEntries = env.locals.maxEntries

section Calls

variable {env : JniEnvExt Obj} (invariant : env.Invariant)
include invariant

/-- The invariant after a call that changed only the current frame, left its
cache exact and its top entry live. -/
theorem Invariant.of_current {changed : JniEnvExt Obj}
    (cookie : changed.localRefCookie = env.localRefCookie)
    (stacked : changed.stackedLocalRefCookies = env.stackedLocalRefCookies)
    (agree : ∀ index, index < env.localRefCookie →
      changed.locals.table index = env.locals.table index)
    (lastKnown : changed.locals.lastKnownPreviousState = env.localRefCookie)
    (cookieLe : env.localRefCookie ≤ changed.locals.segmentState)
    (topLive : changed.TopLive) (holesExact : changed.HolesExact)
    (withinCapacity : changed.locals.segmentState ≤ changed.locals.maxEntries) :
    changed.Invariant := by
  have below := isChain_frameSound_of_agree_below invariant.below agree lastKnown
  refine ⟨?_, Or.inl ?_, withinCapacity⟩
  · unfold boundaries
    rw [cookie, stacked]
    refine List.isChain_cons_cons.mpr ⟨⟨cookieLe, ?_, fun _ _ => ?_⟩, below⟩
    · rw [← cookie]
      exact topLive
    · rw [← cookie]
      exact holesExact
  · rw [cookie, lastKnown]
    exact List.mem_cons_self

/-- `NewLocalRef` returns only after `Add` placed the object in the current
frame. -/
theorem newLocalRef_spec {obj : Obj} {mapError : Option String} {iref : Nat}
    {added : JniEnvExt Obj} (stepped : env.newLocalRef obj mapError = some (iref, added)) :
    ∃ index, iref = added.locals.toIndirectRef index ∧ NewLocalRefDone env added index obj := by
  unfold newLocalRef at stepped
  split at stepped
  · rename_i reference locals addResult
    cases stepped
    obtain ⟨roomy, sameTop, sameHoles, sameKnown, sameKind, roomyCapacity, roomyAgree, recovered⟩ :=
      add_eq_added invariant.withinCapacity addResult
    -- the table `Add` works on has the caller's segment, with its cache
    have sameCount : countNullEntries roomy.table env.localRefCookie env.locals.segmentState =
        countNullEntries env.locals.table env.localRefCookie env.locals.segmentState :=
      countNullEntries_congr fun index _ lt => roomyAgree index lt
    have exactness : (roomy.recoverHoles env.localRefCookie).lastKnownPreviousState =
          env.localRefCookie ∧
        (roomy.recoverHoles env.localRefCookie).currentNumHoles =
          countNullEntries roomy.table env.localRefCookie roomy.segmentState :=
      roomy.recoverHoles_exact fun cookieLe belowTop => by
        rw [sameKnown] at cookieLe
        rw [sameKnown, sameTop] at belowTop
        rw [sameKnown, sameHoles, sameTop, sameCount]
        exact invariant.cached cookieLe belowTop
    have cookieLe : env.localRefCookie ≤ (roomy.recoverHoles env.localRefCookie).segmentState := by
      rw [recoverHoles_segmentState, sameTop]
      exact invariant.cookie_le_top
    have topLive : env.localRefCookie < (roomy.recoverHoles env.localRefCookie).segmentState →
        ((roomy.recoverHoles env.localRefCookie).table
          ((roomy.recoverHoles env.localRefCookie).segmentState - 1)).getReference.isSome := by
      rw [recoverHoles_segmentState, recoverHoles_table, sameTop]
      intro nonEmpty
      rw [roomyAgree _ (by omega)]
      exact invariant.topLive nonEmpty
    have exact : (roomy.recoverHoles env.localRefCookie).currentNumHoles =
        countNullEntries (roomy.recoverHoles env.localRefCookie).table env.localRefCookie
          (roomy.recoverHoles env.localRefCookie).segmentState := by
      rw [recoverHoles_segmentState, recoverHoles_table]
      exact exactness.2
    obtain ⟨index, after, result, entry⟩ := addRecovered_spec cookieLe topLive exact obj
    rw [result] at recovered
    injection recovered with sameReference sameAfter
    subst sameReference sameAfter
    have sameTable := entry.table
    rw [recoverHoles_table] at sameTable
    refine ⟨index, rfl, rfl, rfl, entry.cookieLe, entry.indexLt, ?_, ?_, ?_, entry.exact,
      fun _ => entry.topLive, ?_, ?_, ?_⟩
    · rcases entry.wasFree with ⟨hole, sameTop'⟩ | ⟨atTop, grown⟩
      · rw [recoverHoles_segmentState, sameTop] at sameTop'
        have inside : index < env.locals.segmentState := by
          have := entry.indexLt
          omega
        change ((roomy.recoverHoles env.localRefCookie).table index).getReference = none at hole
        rw [recoverHoles_table, roomyAgree index inside] at hole
        exact Or.inl ⟨hole, sameTop'⟩
      · rw [recoverHoles_segmentState, sameTop] at atTop grown
        exact Or.inr ⟨atTop, grown⟩
    · show (after.table index).getReference = some obj
      rw [sameTable, Function.update_self, IrtEntry.getReference_add]
    · intro other different below
      show after.table other = env.locals.table other
      rw [sameTable, Function.update_of_ne different, roomyAgree other below]
    · show after.lastKnownPreviousState = env.localRefCookie
      rw [entry.lastKnown, exactness.1]
    · show after.kind = env.locals.kind
      rw [entry.kind, recoverHoles_kind, sameKind]
    · show after.segmentState ≤ after.maxEntries
      have grownBy := entry.wasFree
      rw [entry.maxEntries, recoverHoles_maxEntries, recoverHoles_segmentState, sameTop] at *
      omega
  · cases stepped

theorem DeleteLocalRefDone.of_removedEntry {iref idx : Nat} {after : IndirectReferenceTable Obj}
    (idxLe : env.localRefCookie ≤ idx) (idxLt : idx < env.locals.segmentState)
    (canonical : iref = env.locals.toIndirectRef idx) (live : (env.locals.table idx).getReference.isSome)
    (entry : RemovedEntry (env.locals.recoverHoles env.localRefCookie) after env.localRefCookie idx) :
    DeleteLocalRefDone env { env with locals := after } iref idx := by
  have table := entry.table
  have topLe := entry.topLe
  have holesAtTop := entry.holesAtTop
  rw [recoverHoles_table] at table
  rw [recoverHoles_segmentState] at topLe holesAtTop
  refine ⟨rfl, rfl, idxLe, idxLt, canonical, live, table, topLe, entry.cookieLe, holesAtTop,
    entry.exact, entry.topLive, ?_, ?_, ?_⟩
  · show after.lastKnownPreviousState = env.localRefCookie
    rw [entry.lastKnown, invariant.recoverHoles.1]
  · show after.kind = env.locals.kind
    rw [entry.kind, recoverHoles_kind]
  · show after.maxEntries = env.locals.maxEntries
    rw [entry.maxEntries, recoverHoles_maxEntries]

/-- The exact cache of the current frame, as `Remove` and `Add` find it after
`RecoverHoles`. -/
theorem Invariant.recovered :
    env.localRefCookie ≤ (env.locals.recoverHoles env.localRefCookie).segmentState ∧
      (env.localRefCookie < (env.locals.recoverHoles env.localRefCookie).segmentState →
        ((env.locals.recoverHoles env.localRefCookie).table
          ((env.locals.recoverHoles env.localRefCookie).segmentState - 1)).getReference.isSome) ∧
      (env.locals.recoverHoles env.localRefCookie).currentNumHoles =
        countNullEntries (env.locals.recoverHoles env.localRefCookie).table env.localRefCookie
          (env.locals.recoverHoles env.localRefCookie).segmentState := by
  rw [recoverHoles_segmentState, recoverHoles_table]
  exact ⟨invariant.cookie_le_top, invariant.topLive, invariant.recoverHoles.2⟩

/-- `DeleteLocalRef` either changes nothing (for a null or handle-scope reference,
or an index outside the frame), or only refreshes the cache of the current
frame, or removes the live entry the reference names. -/
theorem deleteLocalRef_cases {iref : Nat} {environment : JniEnvironment}
    {deleted : JniEnvExt Obj} (stepped : env.deleteLocalRef iref environment = some deleted) :
    (deleted = env ∧ (decodeIndirectRefKind iref = .kHandleScopeOrInvalid ∨
        extractIndex iref < env.localRefCookie ∨ env.locals.segmentState ≤ extractIndex iref)) ∨
      (env.localRefCookie ≤ extractIndex iref ∧ extractIndex iref < env.locals.segmentState ∧
        deleted = { env with locals := env.locals.recoverHoles env.localRefCookie }) ∨
      DeleteLocalRefDone env deleted iref (extractIndex iref) := by
  unfold deleteLocalRef at stepped
  split at stepped
  · rename_i null
    cases stepped
    exact Or.inl ⟨rfl, Or.inl (by rw [null, decodeIndirectRefKind_zero])⟩
  · rcases env.locals.remove_cases env.localRefCookie iref environment with
      ⟨handleScope, refused⟩ | ⟨outside, refused⟩ | ⟨idxLe, idxLt, inside⟩
    · rw [refused] at stepped
      cases stepped
      exact Or.inl ⟨rfl, Or.inl handleScope⟩
    · rw [refused] at stepped
      cases stepped
      exact Or.inl ⟨rfl, Or.inr outside⟩
    rw [inside] at stepped
    obtain ⟨cookieLe, topLive, exact⟩ := invariant.recovered
    rcases removeRecovered_spec cookieLe topLive exact environment iref idxLe
        (by rw [recoverHoles_segmentState]; exact idxLt) with
      refused | ⟨message, aborted⟩ | ⟨canonical, live, after, removed, entry⟩
    · rw [refused] at stepped
      cases stepped
      exact Or.inr (Or.inl ⟨idxLe, idxLt, rfl⟩)
    · rw [aborted] at stepped
      cases stepped
    · rw [removed] at stepped
      cases stepped
      rw [toIndirectRef_recoverHoles] at canonical
      rw [recoverHoles_table] at live
      exact Or.inr (Or.inr (DeleteLocalRefDone.of_removedEntry invariant idxLe idxLt canonical live entry))

theorem Invariant.newLocalRef {obj : Obj} {mapError : Option String} {iref : Nat}
    {added : JniEnvExt Obj} (stepped : env.newLocalRef obj mapError = some (iref, added)) :
    added.Invariant := by
  obtain ⟨index, -, done⟩ := newLocalRef_spec invariant stepped
  have cookieLeTop : env.localRefCookie ≤ added.locals.segmentState :=
    Nat.le_trans done.cookieLe (Nat.le_of_lt done.indexLt)
  refine invariant.of_current done.cookie done.stacked (fun other below => ?_) done.lastKnown
    cookieLeTop done.topLive done.holesExact done.withinCapacity
  exact done.agree other (by have := done.cookieLe; omega)
    (Nat.lt_of_lt_of_le below invariant.cookie_le_top)

theorem Invariant.deleteLocalRef {iref : Nat} {environment : JniEnvironment}
    {deleted : JniEnvExt Obj} (stepped : env.deleteLocalRef iref environment = some deleted) :
    deleted.Invariant := by
  rcases deleteLocalRef_cases invariant stepped with ⟨same, -⟩ | ⟨-, -, refreshed⟩ | done
  · rw [same]
    exact invariant
  · -- only the cache changed, and it now describes the current frame
    subst refreshed
    have recovered := invariant.recoverHoles
    refine invariant.of_current rfl rfl (fun _ _ => by simp) recovered.1 ?_ ?_ ?_ ?_
    · simpa using invariant.cookie_le_top
    · simpa [TopLive] using invariant.topLive
    · simpa [HolesExact] using recovered.2
    · simpa using invariant.withinCapacity
  · refine invariant.of_current done.cookie done.stacked (fun other below => ?_) done.lastKnown
      done.cookieLeTop done.topLive done.holesExact ?_
    · rw [done.table, Function.update_of_ne (by have := done.cookieLe; omega)]
    · rw [done.maxEntries]
      exact Nat.le_trans done.topLe invariant.withinCapacity

theorem Invariant.step {operation : JniOperation Obj} {next : JniEnvExt Obj}
    (stepped : env.step operation = some next) : next.Invariant := by
  cases operation with
  | pushFrame =>
      cases stepped
      exact invariant.pushFrame
  | popFrame => exact invariant.popFrame stepped
  | newLocalRef obj mapError =>
      simp only [JniEnvExt.step, Option.map_eq_some_iff] at stepped
      obtain ⟨⟨iref, added⟩, newRef, rfl⟩ := stepped
      exact invariant.newLocalRef newRef
  | deleteLocalRef iref environment => exact invariant.deleteLocalRef stepped

end Calls

theorem Invariant.run {env final : JniEnvExt Obj} (invariant : env.Invariant) :
    ∀ {operations : List (JniOperation Obj)}, env.run operations = some final → final.Invariant
  | [], finished => by
      cases finished
      exact invariant
  | operation :: rest, finished => by
      simp only [JniEnvExt.run, Option.bind_eq_some_iff] at finished
      obtain ⟨next, stepped, continued⟩ := finished
      exact (invariant.step stepped).run continued

theorem invariant_create (maxCount : Nat) (kind : IndirectRefKind)
    (kindValid : kind ≠ .kHandleScopeOrInvalid) (bounded : maxCount ≤ kMaxEntries)
    (resizable : ResizableCapacity) :
    (create maxCount kind kindValid bounded resizable : JniEnvExt Obj).Invariant := by
  refine ⟨?_, Or.inl List.mem_cons_self, Nat.zero_le _⟩
  refine List.isChain_cons_cons.mpr ⟨⟨Nat.le_refl 0, fun empty => ?_, fun _ empty => ?_⟩, ?_⟩
  · exact absurd empty (Nat.lt_irrefl 0)
  · exact absurd empty (Nat.lt_irrefl 0)
  · exact List.IsChain.singleton _


/-! ## References handed out -/

theorem Decodes.of_agree {irt other : IndirectReferenceTable Obj} {iref : Nat} {obj : Obj}
    (decodes : Decodes irt iref obj)
    (sameKind : other.kind = irt.kind)
    (sameEntry : other.table (extractIndex iref) = irt.table (extractIndex iref))
    (below : extractIndex iref < other.segmentState) : Decodes other iref obj := by
  obtain ⟨-, canonical, holds⟩ := decodes
  refine ⟨below, ?_, by rw [sameEntry]; exact holds⟩
  rw [toIndirectRef_congr sameKind sameEntry]
  exact canonical


section References

variable {env : JniEnvExt Obj} {iref : Nat} {obj : Obj} (invariant : env.Invariant)
  (decodes : Decodes env.locals iref obj)
include invariant decodes

theorem deleteLocalRef_of_decodes (inFrame : env.localRefCookie ≤ extractIndex iref)
    (environment : JniEnvironment) :
    ∃ deleted, env.deleteLocalRef iref environment = some deleted ∧
      DeleteLocalRefDone env deleted iref (extractIndex iref) := by
  obtain ⟨idxLt, canonical, holds⟩ := decodes
  have live : (env.locals.table (extractIndex iref)).getReference.isSome := by simp [holds]
  obtain ⟨cookieLe, topLive, exact⟩ := invariant.recovered
  obtain ⟨after, removed, entry⟩ := removeRecovered_of_live cookieLe topLive exact environment
    inFrame (by rw [recoverHoles_segmentState]; exact idxLt)
    (show iref = (env.locals.recoverHoles env.localRefCookie).toIndirectRef (extractIndex iref) by
      rw [toIndirectRef_recoverHoles]
      exact canonical)
    (by rw [recoverHoles_table]; exact live)
  refine ⟨{ env with locals := after }, ?_,
    DeleteLocalRefDone.of_removedEntry invariant inFrame idxLt canonical live entry⟩
  -- the reference is neither null nor a handle-scope one, and its index is in the frame
  have nonZero : iref ≠ 0 := by
    rw [canonical]
    exact env.locals.toIndirectRef_ne_zero _
  have notHandle : ¬(decodeIndirectRefKind iref = .kHandleScopeOrInvalid ∧
      environment.handleScopeContains iref = true) := by
    rw [canonical, decodeIndirectRefKind_toIndirectRef]
    exact fun both => env.locals.kindValid both.1
  unfold deleteLocalRef remove
  dsimp only
  rw [if_neg nonZero, if_neg notHandle, if_neg (by omega), if_neg (by omega), removed]

/-- A live reference keeps naming its object until it is removed from its own
frame or that frame is popped. -/
theorem Decodes.step {operation : JniOperation Obj} {next : JniEnvExt Obj}
    (stepped : env.step operation = some next)
    (notRemoved : ∀ environment, operation = .deleteLocalRef iref environment →
      extractIndex iref < env.localRefCookie)
    (notPopped : operation = .popFrame → extractIndex iref < env.localRefCookie) :
    Decodes next.locals iref obj := by
  have idxLt := decodes.1
  have live : (env.locals.table (extractIndex iref)).getReference.isSome := by simp [decodes.2.2]
  cases operation with
  | pushFrame =>
      cases stepped
      exact decodes
  | popFrame =>
      simp only [JniEnvExt.step] at stepped
      unfold popFrame at stepped
      split at stepped
      · cases stepped
      · cases stepped
        exact decodes.of_agree rfl rfl (notPopped rfl)
  | newLocalRef newObj mapError =>
      simp only [JniEnvExt.step, Option.map_eq_some_iff] at stepped
      obtain ⟨⟨newRef, added⟩, newRefStep, rfl⟩ := stepped
      obtain ⟨index, -, done⟩ := newLocalRef_spec invariant newRefStep
      -- the entry filled was a hole or the old top, so not this live one
      have different : extractIndex iref ≠ index := by
        intro same
        rcases done.wasFree with ⟨hole, -⟩ | ⟨atTop, -⟩
        · rw [← same] at hole
          simp [hole] at live
        · omega
      have grownTop : env.locals.segmentState ≤ added.locals.segmentState := by
        rcases done.wasFree with ⟨-, same⟩ | ⟨-, grown⟩ <;> omega
      exact decodes.of_agree done.kind (done.agree _ different idxLt)
        (show extractIndex iref < added.locals.segmentState by omega)
  | deleteLocalRef other environment =>
      rcases deleteLocalRef_cases invariant stepped with ⟨same, -⟩ | ⟨-, -, refreshed⟩ | done
      · rw [same]
        exact decodes
      · subst refreshed
        exact decodes.of_agree (by simp) (by simp) (by simpa using idxLt)
      · have different : extractIndex other ≠ extractIndex iref := by
          intro same
          have sameRef : other = iref := by
            rw [done.canonical, same, ← decodes.2.1]
          subst sameRef
          have := notRemoved environment rfl
          have := done.cookieLe
          omega
        have sameEntry : next.locals.table (extractIndex iref) = env.locals.table (extractIndex iref) := by
          rw [done.table, Function.update_of_ne (Ne.symm different)]
        -- the top came down only past holes, and this entry is not one
        have below : extractIndex iref < next.locals.segmentState := by
          by_contra above
          have hole := done.holesAtTop (extractIndex iref) (by omega) idxLt
          rw [IsHole, sameEntry] at hole
          simp [hole] at live
        exact decodes.of_agree done.kind sameEntry below

end References

/-! ## Runs of a thread -/

/-- Along every run of a thread's calls from a fresh table: the top entry of the
current frame holds a reference; `NewLocalRef` leaves the frame's cache exact
and returns a reference into the frame that names its object; `DeleteLocalRef`
of an index inside the frame leaves the cache exact; a live reference keeps
naming its object until it is deleted from its own frame or the frame is
popped; and deleting it clears exactly its entry. -/
theorem localReferences_exact_in_frame (maxCount : Nat) (kind : IndirectRefKind)
    (kindValid : kind ≠ .kHandleScopeOrInvalid) (bounded : maxCount ≤ kMaxEntries)
    (resizable : ResizableCapacity) (operations : List (JniOperation Obj)) (env : JniEnvExt Obj)
    (reached : (create maxCount kind kindValid bounded resizable).run operations = some env) :
    env.TopLive ∧
      (∀ obj mapError iref added, env.newLocalRef obj mapError = some (iref, added) →
        added.HolesExact ∧ added.TopLive ∧ env.localRefCookie ≤ extractIndex iref ∧
          extractIndex iref < added.locals.segmentState ∧ Decodes added.locals iref obj) ∧
      (∀ iref environment deleted, env.deleteLocalRef iref environment = some deleted →
        decodeIndirectRefKind iref ≠ .kHandleScopeOrInvalid →
        env.localRefCookie ≤ extractIndex iref → extractIndex iref < env.locals.segmentState →
        deleted.HolesExact) ∧
      (∀ iref obj operation next, Decodes env.locals iref obj → env.step operation = some next →
        (∀ environment, operation = .deleteLocalRef iref environment →
          extractIndex iref < env.localRefCookie) →
        (operation = .popFrame → extractIndex iref < env.localRefCookie) →
        Decodes next.locals iref obj) ∧
      (∀ iref obj environment, Decodes env.locals iref obj → env.localRefCookie ≤ extractIndex iref →
        ∃ deleted, env.deleteLocalRef iref environment = some deleted ∧
          DeleteLocalRefDone env deleted iref (extractIndex iref)) := by
  have invariant := (invariant_create maxCount kind kindValid bounded resizable).run reached
  refine ⟨invariant.topLive, ?_, ?_, fun iref obj operation next decodes stepped notRemoved notPopped =>
    decodes.step invariant stepped notRemoved notPopped,
    fun iref obj environment decodes inFrame => deleteLocalRef_of_decodes invariant decodes inFrame
      environment⟩
  · intro obj mapError iref added stepped
    obtain ⟨index, canonical, done⟩ := newLocalRef_spec invariant stepped
    -- the index fits the reference's index bits: the table is at most `kMaxEntries` long
    have fits : index < 2 ^ 32 := by
      have capacity := done.withinCapacity
      have bound := added.locals.maxEntriesBounded
      have indexLt := done.indexLt
      simp only [kMaxEntries, kMaxTableSizeInBytes, kIRTPrevCount] at bound
      omega
    have extracted : extractIndex iref = index := by
      rw [canonical, extractIndex_toIndirectRef _ fits]
    refine ⟨done.holesExact, done.topLive, extracted ▸ done.cookieLe, extracted ▸ done.indexLt, ?_⟩
    unfold Decodes
    rw [extracted]
    exact ⟨done.indexLt, canonical, done.stored⟩
  · intro iref environment deleted stepped notHandleScope idxLe idxLt
    rcases deleteLocalRef_cases invariant stepped with
      ⟨-, handleScope | below | above⟩ | ⟨-, -, refreshed⟩ | done
    · exact absurd handleScope notHandleScope
    · omega
    · omega
    · subst refreshed
      simpa [HolesExact] using invariant.recoverHoles.2
    · exact done.holesExact

/-- Calls in two frames: the inner frame deletes a reference of its own and
fills the hole with the next, and after the pop the outer frame deletes its
first reference. -/
def twoFrameCalls : List (JniOperation Nat) :=
  [.newLocalRef 1 none, .newLocalRef 2 none, .pushFrame, .newLocalRef 3 none, .newLocalRef 4 none,
    .deleteLocalRef 37 ⟨true, fun _ => false⟩, .newLocalRef 5 none, .popFrame,
    .deleteLocalRef 5 ⟨true, fun _ => false⟩]

theorem localReferences_exact_across_frames :
    ∃ env added, (create 4 .kLocal (by decide) (by decide) .kYes : JniEnvExt Nat).run twoFrameCalls = some env ∧
      env.newLocalRef 6 none = some (9, added) ∧
      added.HolesExact ∧ added.TopLive ∧ env.localRefCookie ≤ extractIndex 9 ∧
        extractIndex 9 < added.locals.segmentState ∧ Decodes added.locals 9 6 := by
  refine ⟨_, _, rfl, rfl, ?_⟩
  exact (localReferences_exact_in_frame 4 .kLocal (by decide) (by decide) .kYes twoFrameCalls _ rfl).2.1
    6 none 9 _ rfl

/-- The cached count is not exact after every call: three references are
added and the middle one deleted (one hole), a frame is pushed, one reference
added in it (the cache is recounted for the new frame) and the frame popped;
deleting the popped frame's reference again (index 3, at the restored top)
returns early, so the cache still counts the pushed frame's zero holes while
the current frame has one. -/
theorem staleDelete_leaves_hole_count_of_popped_frame :
    ∃ env : JniEnvExt Nat,
      (create 4 .kLocal (by decide) (by decide) .kYes).run
          [.newLocalRef 1 none, .newLocalRef 2 none, .newLocalRef 3 none,
            .deleteLocalRef 21 ⟨true, fun _ => false⟩, .pushFrame, .newLocalRef 4 none, .popFrame,
            .deleteLocalRef 53 ⟨true, fun _ => false⟩] = some env ∧
        env.locals.currentNumHoles = 0 ∧
        countNullEntries env.locals.table env.localRefCookie env.locals.segmentState = 1 := by
  refine ⟨_, rfl, ?_, ?_⟩
  · rfl
  · decide

end JniEnvExt

end ArtRuntime.Runtime
