import ArtRuntime.Foundation.WordLoop

/-! # Loop control of vectorized loops

`HLoopOptimization::Vectorize` and `GenerateNewLoop` of
`compiler/optimizing/loop_optimization.cc` replace a loop taken `stc` times by
up to three loops over one index: a peeling loop up to `ptc` that aligns the
vector accesses, a vector loop up to `vtc` whose iterations each process
`chunk = vector_length * unroll` elements, and a cleanup loop up to `stc` for
what is left. Each is `for (; !(i >=u bound); i += step)` on the induction's
type, and each starts where the one before stopped.

`Vectorize` computes the bounds in the preheader: `ptc` from a static peeling
factor or a dynamic candidate's offset, clamped to `stc` when the trip count
is not known at compile time; `vtc = stc - ((stc - ptc) & (chunk - 1))`; and
`vtc = 0` when the run-time disambiguation test fails. Over any run-time trip
count the three loops process the elements `0, …, stc - 1` once each, in
order, and no vector iteration reaches past `stc`. -/

namespace ArtRuntime.Compiler.LoopOptimization

open Foundation

variable {w : Nat}

/-- A dynamic peeling candidate at run time: the offset of its array index,
its hidden offset in elements (`HiddenOffset >> shift`), and the vector size
in its elements (`align`). -/
structure DynamicPeeling (w : Nat) where
  offset : BitVec w
  adjustedOffset : Nat
  align : UInt32

/-- The bounds `Vectorize` computes: the peeling loop's `ptc` (none when there
is no peeling loop), the vector loop's `vtc`, and whether a cleanup loop is
generated. -/
structure LoopControl (w : Nat) where
  ptc : Option (BitVec w)
  vtc : BitVec w
  needsCleanup : Bool

/-- `ptc = <peeling factor>`: the static factor, or for a dynamic candidate
`rem == 0 ? 0 : align - rem` with `rem = offset & (align - 1)`. -/
def peelingFactor (staticPeelingFactor : Nat) (dynamicPeeling : Option (DynamicPeeling w)) :
    Option (BitVec w) :=
  if staticPeelingFactor ≠ 0 then some (BitVec.ofNat w staticPeelingFactor)
  else dynamicPeeling.map fun candidate =>
    let offset := candidate.offset + BitVec.ofNat w candidate.adjustedOffset
    let rem := offset &&& BitVec.ofNat w (candidate.align - 1).toNat
    if rem = 0 then 0 else BitVec.ofNat w candidate.align.toNat - rem

/-- `ptc = min(stc, ptc)`, only when the trip count is not known at compile
time, and `vtc = stc - (stc - ptc) & (chunk - 1)`. -/
def vectorBounds (tripCount : Int) (chunk : Nat) (stc : BitVec w) :
    Option (BitVec w) → Option (BitVec w) × BitVec w
  | some ptc =>
      let ptc := if tripCount = 0 then (if ptc ≤ stc then ptc else stc) else ptc
      (some ptc, stc - ((stc - ptc) &&& BitVec.ofNat w (chunk - 1)))
  | none => (none, stc - (stc &&& BitVec.ofNat w (chunk - 1)))

/-- `needs_cleanup` as first decided: for an unknown trip count, or a known
one whose iterations after static peeling do not fill whole chunks. -/
def needsCleanupOf (tripCount : Int) (staticPeelingFactor chunk : Nat) : Bool :=
  tripCount == 0 || (tripCount - staticPeelingFactor).tmod chunk != 0

/-- The loop control of `Vectorize`, for the trip count `tripCount` known at
compile time (zero when unknown) and the trip count `stc` at run time;
`runtimeTest` is the outcome of `a != b` when a disambiguation test is
generated. -/
def generateLoopControl (tripCount : Int) (staticPeelingFactor : Nat)
    (dynamicPeeling : Option (DynamicPeeling w)) (vectorLength unroll : Nat) (runtimeTest : Option Bool)
    (stc : BitVec w) : LoopControl w :=
  let chunk := vectorLength * unroll
  let ptc := peelingFactor staticPeelingFactor dynamicPeeling
  -- A dynamic peeling factor leaves the remainder unknown.
  let needsCleanup := needsCleanupOf tripCount staticPeelingFactor chunk ||
    (staticPeelingFactor == 0 && dynamicPeeling.isSome)
  let bounds := if needsCleanup then vectorBounds tripCount chunk stc ptc else (ptc, stc)
  match runtimeTest with
  | some different => ⟨bounds.1, if different then bounds.2 else 0, true⟩
  | none => ⟨bounds.1, bounds.2, needsCleanup⟩

/-- `MaxNumberPeeled`. -/
def maxNumberPeeled (staticPeelingFactor : Nat) (dynamicPeeling : Option (DynamicPeeling w))
    (vectorLength : Nat) : Nat :=
  if dynamicPeeling.isSome then vectorLength - 1 else staticPeelingFactor

/-- What `Vectorize` assumes of the loop it is given: a chunk that is a power
of two; one peeling strategy; and a compile-time trip count that is unknown
(zero), or is the run-time one with room for the largest peeling and a chunk
(its `DCHECK`). With a known trip count a dynamic candidate's vector size is
at most the vector length, as `TrySetVectorLength` gives every vector
operation of the loop one length. -/
structure Accepted (tripCount : Int) (staticPeelingFactor : Nat) (dynamicPeeling : Option (DynamicPeeling w))
    (vectorLength unroll : Nat) (stc : BitVec w) : Prop where
  chunkPowerOfTwo : ∃ k, vectorLength * unroll = 2 ^ k
  oneStrategy : staticPeelingFactor ≠ 0 → dynamicPeeling = none
  tripCountKnown : tripCount ≠ 0 → tripCount = stc.toNat ∧
    maxNumberPeeled staticPeelingFactor dynamicPeeling vectorLength + vectorLength * unroll ≤ tripCount
  alignWithinVector : tripCount ≠ 0 → ∀ candidate, dynamicPeeling = some candidate →
    0 < candidate.align.toNat ∧ candidate.align.toNat ≤ vectorLength

/-- What the three loops need of their bounds: a peeling bound within `stc`;
a vector bound that is zero (the disambiguation test failed) or lies within
`stc` a multiple of `chunk` above the peeling bound; and, without a cleanup
loop, a vector bound at `stc`. -/
structure LoopControl.Sound (control : LoopControl w) (stc : BitVec w) (chunk : Nat) : Prop where
  peelingBelow : (control.ptc.getD 0).toNat ≤ stc.toNat
  vectorBound : control.vtc = 0 ∨
    ((control.ptc.getD 0).toNat ≤ control.vtc.toNat ∧ control.vtc.toNat ≤ stc.toNat ∧
      chunk ∣ control.vtc.toNat - (control.ptc.getD 0).toNat)
  cleanupUnneeded : control.needsCleanup = false → control.vtc = stc

/-- The elements one vector-loop iteration at `i` processes: copy `copy` of
the unrolled body runs at `i` advanced `copy` times by the vector length, and
processes `vectorLength` lanes from there. -/
def vectorLanes (vectorLength unroll : Nat) (i : BitVec w) : List Nat :=
  (List.range unroll).flatMap fun copy =>
    List.range' ((fun index => index + BitVec.ofNat w vectorLength)^[copy] i).toNat vectorLength

/-- The iterations of the three loops, in order, and the index each leaves. -/
structure GeneratedLoops (w : Nat) where
  peeling : List (BitVec w)
  peelingExit : BitVec w
  vector : List (BitVec w)
  vectorExit : BitVec w
  cleanup : List (BitVec w)
  exit : BitVec w

/-- The peeling loop `for (i = 0; !(i >=u ptc); i += 1)`, when there is one,
run for at most `fuel` iterations. -/
def peelingLoop (ptc : Option (BitVec w)) (fuel : Nat) : List (BitVec w) × BitVec w :=
  match ptc with
  | some ptc => wordLoop ptc (· + 1) fuel 0
  | none => ([], 0)

/-- The vector loop `for (; !(i >=u vtc); )` whose body is unrolled `unroll`
times, each copy advancing the index by the vector length. -/
def vectorLoop (vtc : BitVec w) (vectorLength unroll fuel : Nat) (start : BitVec w) :
    List (BitVec w) × BitVec w :=
  wordLoop vtc (fun index => (· + BitVec.ofNat w vectorLength)^[unroll] index) fuel start

/-- The cleanup loop `for (; !(i >=u stc); i += 1)`, when there is one. -/
def cleanupLoop (needsCleanup : Bool) (stc : BitVec w) (fuel : Nat) (start : BitVec w) :
    List (BitVec w) × BitVec w :=
  if needsCleanup then wordLoop stc (· + 1) fuel start else ([], start)

/-- The three loops `GenerateNewLoop` builds, each starting from the index the
one before left. -/
def runGeneratedLoops (control : LoopControl w) (stc : BitVec w) (vectorLength unroll fuel : Nat) :
    GeneratedLoops w :=
  let peeling := peelingLoop control.ptc fuel
  let vector := vectorLoop control.vtc vectorLength unroll fuel peeling.2
  let cleanup := cleanupLoop control.needsCleanup stc fuel vector.2
  ⟨peeling.1, peeling.2, vector.1, vector.2, cleanup.1, cleanup.2⟩

/-- The elements the loop body runs at, in order: one per iteration of the
peeling and cleanup loops, `chunk` per iteration of the vector loop. -/
def GeneratedLoops.elements (loops : GeneratedLoops w) (vectorLength unroll : Nat) : List Nat :=
  loops.peeling.map BitVec.toNat ++ loops.vector.flatMap (vectorLanes vectorLength unroll) ++
    loops.cleanup.map BitVec.toNat

/-! ## The vector loop -/

section VectorLoop

variable {vectorLength unroll : Nat}

theorem iterate_add_ofNat (a : Nat) (i : BitVec w) (count : Nat) :
    (fun index => index + BitVec.ofNat w a)^[count] i = i + BitVec.ofNat w (a * count) := by
  induction count with
  | zero => simp
  | succ count induction =>
    rw [Function.iterate_succ_apply', induction, BitVec.add_assoc, ← BitVec.ofNat_add, Nat.mul_succ]

theorem toNat_add_ofNat {i : BitVec w} {a : Nat} (within : i.toNat + a < 2 ^ w) :
    (i + BitVec.ofNat w a).toNat = i.toNat + a := by
  rw [BitVec.toNat_add, BitVec.toNat_ofNat, Nat.mod_eq_of_lt (a := a) (by omega), Nat.mod_eq_of_lt within]

/-- Without wrap-around, an iteration of the vector loop processes `chunk`
consecutive elements from its index. -/
theorem vectorLanes_eq {i : BitVec w} (within : i.toNat + vectorLength * unroll < 2 ^ w) :
    vectorLanes vectorLength unroll i = List.range' i.toNat (vectorLength * unroll) := by
  have copies : ∀ copy ∈ List.range unroll,
      List.range' ((fun index => index + BitVec.ofNat w vectorLength)^[copy] i).toNat vectorLength =
        List.range' (i.toNat + vectorLength * copy) vectorLength := by
    intro copy member
    have before : vectorLength * copy ≤ vectorLength * unroll :=
      Nat.mul_le_mul_left _ (List.mem_range.mp member).le
    rw [iterate_add_ofNat, toNat_add_ofNat (by omega)]
  rw [vectorLanes, List.flatMap_congr copies, flatMap_range_range', Nat.mul_comm]

theorem unrolledStep_eq :
    (fun index : BitVec w => (· + BitVec.ofNat w vectorLength)^[unroll] index) =
      (· + BitVec.ofNat w (vectorLength * unroll)) :=
  funext fun index => iterate_add_ofNat vectorLength index unroll

/-- The vector loop from `p` up to `vtc` does nothing when `vtc ≤ p`;
otherwise, with `vtc - p` a multiple of `chunk`, it processes the elements
from `p` up to `vtc` once each, no iteration reaching past `vtc`, and leaves
`vtc`. -/
theorem vectorLoop_run {p vtc : BitVec w} {fuel : Nat} (chunkPos : 0 < vectorLength * unroll)
    (aligned : p.toNat < vtc.toNat → vectorLength * unroll ∣ vtc.toNat - p.toNat)
    (enough : vtc.toNat - p.toNat ≤ fuel) :
    (vectorLoop vtc vectorLength unroll fuel p).1.flatMap (vectorLanes vectorLength unroll) =
        List.range' p.toNat (vtc.toNat - p.toNat) ∧
      (∀ i ∈ (vectorLoop vtc vectorLength unroll fuel p).1, i.toNat + vectorLength * unroll ≤ vtc.toNat) ∧
      (vectorLoop vtc vectorLength unroll fuel p).2.toNat = max p.toNat vtc.toNat := by
  rw [vectorLoop, unrolledStep_eq]
  by_cases empty : vtc.toNat ≤ p.toNat
  · rw [wordLoop_of_le _ fuel (BitVec.le_def.mpr empty)]
    simp only [List.flatMap_nil, List.not_mem_nil, false_implies, implies_true, true_and,
      Nat.sub_eq_zero_of_le empty, List.range'_zero]
    omega
  · -- The vector loop runs: its step is `chunk` itself, with no wrap-around.
    have divides := aligned (by omega)
    have chunkBelow := Nat.le_of_dvd (by omega) divides
    have chunkBits : (BitVec.ofNat w (vectorLength * unroll)).toNat = vectorLength * unroll := by
      have bound := vtc.isLt
      rw [BitVec.toNat_ofNat, Nat.mod_eq_of_lt (by omega)]
    have run := @wordLoop_add w p vtc (BitVec.ofNat w (vectorLength * unroll)) fuel (by rw [chunkBits]; exact chunkPos)
      (by omega) (by rw [chunkBits]; exact divides) (by rw [chunkBits]; exact le_trans (Nat.div_le_self _ _) enough)
    rw [chunkBits] at run
    obtain ⟨indices, exit⟩ := run
    have covered : (vtc.toNat - p.toNat) / (vectorLength * unroll) * (vectorLength * unroll) =
        vtc.toNat - p.toNat := Nat.div_mul_cancel divides
    have within : ∀ i ∈ (wordLoop vtc (· + BitVec.ofNat w (vectorLength * unroll)) fuel p).1,
        i.toNat + vectorLength * unroll ≤ vtc.toNat := by
      intro i member
      have index := List.mem_map_of_mem (f := BitVec.toNat) member
      rw [indices, List.mem_range'] at index
      obtain ⟨k, before, atK⟩ := index
      have chunks : vectorLength * unroll * (k + 1) ≤
          vectorLength * unroll * ((vtc.toNat - p.toNat) / (vectorLength * unroll)) :=
        Nat.mul_le_mul_left _ before
      rw [Nat.mul_comm (vectorLength * unroll) ((vtc.toNat - p.toNat) / _), covered, Nat.mul_succ] at chunks
      omega
    refine ⟨?_, within, by rw [exit]; omega⟩
    have lanes : ∀ i ∈ (wordLoop vtc (· + BitVec.ofNat w (vectorLength * unroll)) fuel p).1,
        vectorLanes vectorLength unroll i = List.range' i.toNat (vectorLength * unroll) := by
      intro i member
      have bound := vtc.isLt
      exact vectorLanes_eq (by have := within i member; omega)
    rw [List.flatMap_congr lanes, ← List.flatMap_map BitVec.toNat (fun start => List.range' start _), indices,
      flatMap_range'_range', covered]

end VectorLoop

/-! ## The bounds `Vectorize` computes -/

section Bounds

variable {stc : BitVec w}

/-- `stc - (stc - p) & (chunk - 1)` rounds `stc` down to `p` plus a multiple of
a chunk that is a power of two. -/
theorem toNat_sub_and_chunk (k : Nat) {p : BitVec w} (below : p.toNat ≤ stc.toNat) :
    (stc - ((stc - p) &&& BitVec.ofNat w (2 ^ k - 1))).toNat = stc.toNat - (stc.toNat - p.toNat) % 2 ^ k := by
  have difference : (stc - p).toNat = stc.toNat - p.toNat := BitVec.toNat_sub_of_le (BitVec.le_def.mpr below)
  have masked := toNat_and_ofNat_two_pow_sub_one (stc - p) k
  rw [difference] at masked
  have remainderBelow := Nat.mod_le (stc.toNat - p.toNat) (2 ^ k)
  rw [BitVec.toNat_sub_of_le (BitVec.le_def.mpr (by omega)), masked]

/-- What the three loops need of `ptc` and `vtc`: `vtc` within `stc`, a
multiple of `chunk` above `ptc`. -/
def BoundsSound (stc : BitVec w) (chunk : Nat) (bounds : Option (BitVec w) × BitVec w) : Prop :=
  (bounds.1.getD 0).toNat ≤ bounds.2.toNat ∧ bounds.2.toNat ≤ stc.toNat ∧
    chunk ∣ bounds.2.toNat - (bounds.1.getD 0).toNat

theorem boundsSound_round (k : Nat) {p : BitVec w} (below : p.toNat ≤ stc.toNat) :
    BoundsSound stc (2 ^ k) (some p, stc - ((stc - p) &&& BitVec.ofNat w (2 ^ k - 1))) := by
  simp only [BoundsSound, Option.getD_some, toNat_sub_and_chunk k below]
  have remainderBelow := Nat.mod_le (stc.toNat - p.toNat) (2 ^ k)
  refine ⟨by omega, by omega, ?_⟩
  rw [show stc.toNat - (stc.toNat - p.toNat) % 2 ^ k - p.toNat =
    stc.toNat - p.toNat - (stc.toNat - p.toNat) % 2 ^ k by omega]
  exact Nat.dvd_sub_mod _

theorem vectorBounds_sound (tripCount : Int) (k : Nat) (ptc : Option (BitVec w))
    (clamped : tripCount = 0 ∨ (ptc.getD 0).toNat ≤ stc.toNat) :
    BoundsSound stc (2 ^ k) (vectorBounds tripCount (2 ^ k) stc ptc) := by
  cases ptc with
  | none =>
    have rounded := @boundsSound_round w stc k 0 (by simp)
    simpa [vectorBounds, BoundsSound] using rounded
  | some ptc =>
    -- The clamp `min(stc, ptc)` applies only to an unknown trip count.
    have clampedBelow : (if tripCount = 0 then (if ptc ≤ stc then ptc else stc) else ptc).toNat ≤ stc.toNat := by
      by_cases unknown : tripCount = 0
      · by_cases within : ptc ≤ stc
        · simpa [unknown, within] using BitVec.le_def.mp within
        · simp [unknown, within]
      · simpa [unknown] using clamped.resolve_left unknown
    exact boundsSound_round k clampedBelow

theorem peelingFactor_le {staticPeelingFactor vectorLength : Nat} {dynamicPeeling : Option (DynamicPeeling w)}
    (oneStrategy : staticPeelingFactor ≠ 0 → dynamicPeeling = none)
    (alignWithin : ∀ candidate, dynamicPeeling = some candidate →
      0 < candidate.align.toNat ∧ candidate.align.toNat ≤ vectorLength)
    (vectorBelow : vectorLength < 2 ^ w) :
    ((peelingFactor staticPeelingFactor dynamicPeeling).getD 0).toNat ≤
      maxNumberPeeled staticPeelingFactor dynamicPeeling vectorLength := by
  by_cases static : staticPeelingFactor = 0
  · cases dynamicPeeling with
    | none => simp [peelingFactor, static]
    | some candidate =>
      obtain ⟨alignPos, alignLe⟩ := alignWithin candidate rfl
      simp only [peelingFactor, static, ne_eq, not_true_eq_false, if_false, Option.map_some, Option.getD_some,
        maxNumberPeeled, Option.isSome_some, if_true]
      split_ifs with zero
      · simp
      · -- `rem = offset & (align - 1)` is below `align`, so `align - rem` does not wrap.
        have maskBits : (candidate.align - 1).toNat = candidate.align.toNat - 1 :=
          UInt32.toNat_sub_of_le _ _ (UInt32.le_iff_toNat_le.mpr (by simp; omega))
        have remBelow : ((candidate.offset + BitVec.ofNat w candidate.adjustedOffset) &&&
            BitVec.ofNat w (candidate.align - 1).toNat).toNat ≤ candidate.align.toNat - 1 := by
          rw [BitVec.toNat_and, BitVec.toNat_ofNat, maskBits]
          exact le_trans Nat.and_le_right (Nat.mod_le _ _)
        have remPos : 0 < ((candidate.offset + BitVec.ofNat w candidate.adjustedOffset) &&&
            BitVec.ofNat w (candidate.align - 1).toNat).toNat := by
          apply Nat.pos_of_ne_zero
          intro isZero
          exact zero (BitVec.eq_of_toNat_eq (by simpa using isZero))
        have alignBits : (BitVec.ofNat w candidate.align.toNat).toNat = candidate.align.toNat := by
          rw [BitVec.toNat_ofNat, Nat.mod_eq_of_lt (by omega)]
        rw [BitVec.toNat_sub_of_le (BitVec.le_def.mpr (by rw [alignBits]; omega)), alignBits]
        omega
  · obtain rfl := oneStrategy static
    simp only [peelingFactor, static, ne_eq, not_false_eq_true, if_true, Option.getD_some, maxNumberPeeled,
      Option.isSome_none, Bool.false_eq_true, if_false]
    exact le_trans (le_of_eq (BitVec.toNat_ofNat _ _)) (Nat.mod_le _ _)

/-- Without a cleanup loop the trip count is known, the peeling is static, and
the iterations after it fill whole chunks: the vector loop alone reaches `stc`. -/
theorem boundsSound_of_not_needsCleanup {tripCount : Int} {staticPeelingFactor vectorLength unroll : Nat}
    {dynamicPeeling : Option (DynamicPeeling w)} (accepted : Accepted tripCount staticPeelingFactor dynamicPeeling vectorLength unroll stc)
    (noCleanup : (needsCleanupOf tripCount staticPeelingFactor (vectorLength * unroll) ||
      (staticPeelingFactor == 0 && dynamicPeeling.isSome)) = false) :
    BoundsSound stc (vectorLength * unroll) (peelingFactor staticPeelingFactor dynamicPeeling, stc) := by
  simp only [needsCleanupOf, Bool.or_eq_false_iff, beq_eq_false_iff_ne, bne_eq_false_iff_eq,
    Bool.and_eq_false_iff, Option.isSome_eq_false_iff, Option.isNone_iff_eq_none] at noCleanup
  obtain ⟨⟨known, filled⟩, staticOrNone⟩ := noCleanup
  obtain ⟨sameCount, room⟩ := accepted.tripCountKnown known
  -- Without dynamic peeling, `ptc` is the static factor, which fits the word.
  have noDynamic : dynamicPeeling = none := by
    by_cases static : staticPeelingFactor = 0
    · exact staticOrNone.resolve_left (by simpa using static)
    · exact accepted.oneStrategy static
  subst noDynamic
  have factorBelow : staticPeelingFactor ≤ stc.toNat := by
    simp only [maxNumberPeeled, Option.isSome_none, Bool.false_eq_true, if_false] at room
    have chunkNonneg : 0 ≤ (vectorLength : Int) * unroll := Int.mul_nonneg (Int.natCast_nonneg _) (Int.natCast_nonneg _)
    omega
  have peeled : ((peelingFactor staticPeelingFactor (none : Option (DynamicPeeling w))).getD 0).toNat =
      staticPeelingFactor := by
    by_cases static : staticPeelingFactor = 0
    · simp [peelingFactor, static]
    · have bound := stc.isLt
      simp [peelingFactor, static, Nat.mod_eq_of_lt (show staticPeelingFactor < 2 ^ w by omega)]
  have divides : ((vectorLength * unroll : Nat) : Int) ∣ ((stc.toNat - staticPeelingFactor : Nat) : Int) := by
    rw [Int.dvd_iff_tmod_eq_zero, Int.natCast_sub factorBelow, ← sameCount]
    exact filled
  simp only [BoundsSound, peeled]
  exact ⟨factorBelow, le_refl _, Int.natCast_dvd_natCast.mp divides⟩

/-- An unknown trip count of 10 in chunks of 8: the vector loop takes
`0, …, 7`, the cleanup loop `8` and `9`. -/
example : (runGeneratedLoops (generateLoopControl 0 0 none 4 2 (some true) (10 : BitVec 32)) 10 4 2 10).elements 4 2 =
    [0, 1, 2, 3, 4, 5, 6, 7, 8, 9] := by
  decide

/-- Under `Vectorize`'s assumptions, the loop control it generates is sound
for every run-time trip count and either outcome of the disambiguation test. -/
theorem generateLoopControl_sound {tripCount : Int} {staticPeelingFactor vectorLength unroll : Nat}
    {dynamicPeeling : Option (DynamicPeeling w)} (runtimeTest : Option Bool)
    (accepted : Accepted tripCount staticPeelingFactor dynamicPeeling vectorLength unroll stc) :
    (generateLoopControl tripCount staticPeelingFactor dynamicPeeling vectorLength unroll runtimeTest stc).Sound
      stc (vectorLength * unroll) := by
  obtain ⟨k, chunkEq⟩ := accepted.chunkPowerOfTwo
  have bounds : BoundsSound stc (vectorLength * unroll)
      (if (needsCleanupOf tripCount staticPeelingFactor (vectorLength * unroll) ||
          (staticPeelingFactor == 0 && dynamicPeeling.isSome)) then
        vectorBounds tripCount (vectorLength * unroll) stc (peelingFactor staticPeelingFactor dynamicPeeling)
      else (peelingFactor staticPeelingFactor dynamicPeeling, stc)) := by
    split_ifs with needs
    · rw [chunkEq]
      apply vectorBounds_sound
      -- A known trip count leaves room for the largest peeling.
      by_cases unknown : tripCount = 0
      · exact Or.inl unknown
      · obtain ⟨sameCount, room⟩ := accepted.tripCountKnown unknown
        have vectorBelow : vectorLength < 2 ^ w := by
          have unrolled : 1 ≤ unroll := Nat.pos_of_ne_zero (by
            intro zero
            rw [zero, Nat.mul_zero] at chunkEq
            exact absurd chunkEq.symm (Nat.pos_iff_ne_zero.mp (Nat.two_pow_pos k)))
          have covered : vectorLength ≤ vectorLength * unroll := Nat.le_mul_of_pos_right _ unrolled
          have bound := stc.isLt
          omega
        have peeled := peelingFactor_le accepted.oneStrategy (accepted.alignWithinVector unknown) vectorBelow
        exact Or.inr (by omega)
    · exact boundsSound_of_not_needsCleanup accepted (by simpa using needs)
  obtain ⟨peelingBelowVector, vectorBelow, aligned⟩ := bounds
  cases runtimeTest with
  | some different =>
    -- The disambiguation test sets `vtc` to zero when it fails, and forces a cleanup loop.
    refine ⟨by simp only [generateLoopControl]; omega, ?_, by simp [generateLoopControl]⟩
    cases different
    · exact Or.inl (by simp [generateLoopControl])
    · exact Or.inr ⟨peelingBelowVector, vectorBelow, aligned⟩
  | none =>
    refine ⟨by simp only [generateLoopControl]; omega, Or.inr ⟨peelingBelowVector, vectorBelow, aligned⟩, ?_⟩
    intro noCleanup
    simp only [generateLoopControl] at noCleanup ⊢
    rw [if_neg (by simpa using noCleanup)]

end Bounds

/-! ## The three loops -/

theorem peelingLoop_run (wide : 0 < w) (ptc : Option (BitVec w)) {fuel : Nat}
    (enough : (ptc.getD 0).toNat ≤ fuel) :
    (peelingLoop ptc fuel).1.map BitVec.toNat = List.range' 0 (ptc.getD 0).toNat ∧
      (peelingLoop ptc fuel).2 = ptc.getD 0 := by
  cases ptc with
  | none => simp [peelingLoop]
  | some ptc =>
    have run := @wordLoop_add_one w 0 ptc fuel wide (by simp) (by simpa using enough)
    simpa [peelingLoop] using run

theorem cleanupLoop_run (wide : 0 < w) {needsCleanup : Bool} {stc start : BitVec w} {fuel : Nat}
    (below : start.toNat ≤ stc.toNat) (enough : stc.toNat ≤ fuel)
    (reached : needsCleanup = false → start = stc) :
    (cleanupLoop needsCleanup stc fuel start).1.map BitVec.toNat =
        List.range' start.toNat (stc.toNat - start.toNat) ∧
      (cleanupLoop needsCleanup stc fuel start).2 = stc := by
  cases needsCleanup with
  | true => simpa [cleanupLoop] using @wordLoop_add_one w start stc fuel wide below (by omega)
  | false =>
    have equal := reached rfl
    subst equal
    simp [cleanupLoop]

/-- With sound bounds, the three loops process the elements `0, …, stc - 1`
once each and in order, each vector iteration within `stc`, and leave the
index at `stc`. -/
theorem runGeneratedLoops_elements {control : LoopControl w} {stc : BitVec w} {vectorLength unroll fuel : Nat}
    (wide : 0 < w) (chunkPos : 0 < vectorLength * unroll) (sound : control.Sound stc (vectorLength * unroll))
    (enough : stc.toNat ≤ fuel) :
    (runGeneratedLoops control stc vectorLength unroll fuel).elements vectorLength unroll =
        List.range stc.toNat ∧
      (∀ i ∈ (runGeneratedLoops control stc vectorLength unroll fuel).vector,
        i.toNat + vectorLength * unroll ≤ stc.toNat) ∧
      (runGeneratedLoops control stc vectorLength unroll fuel).peelingExit.toNat ≤ stc.toNat ∧
      (runGeneratedLoops control stc vectorLength unroll fuel).vectorExit.toNat ≤ stc.toNat ∧
      (runGeneratedLoops control stc vectorLength unroll fuel).exit = stc := by
  obtain ⟨peelingBelow, vectorBound, cleanupUnneeded⟩ := sound
  -- Each loop starts where the one before stopped.
  obtain ⟨peeled, peelingExit⟩ := @peelingLoop_run w wide control.ptc fuel (by omega)
  have vtcBelow : control.vtc.toNat ≤ stc.toNat := by
    rcases vectorBound with zero | ⟨-, below, -⟩
    · simp [zero]
    · exact below
  have aligned : (control.ptc.getD 0).toNat < control.vtc.toNat →
      vectorLength * unroll ∣ control.vtc.toNat - (control.ptc.getD 0).toNat := by
    intro above
    rcases vectorBound with zero | ⟨-, -, divides⟩
    · simp [zero] at above
    · exact divides
  obtain ⟨vectorElements, vectorWithin, vectorExit⟩ :=
    @vectorLoop_run w vectorLength unroll (control.ptc.getD 0) control.vtc fuel chunkPos aligned (by omega)
  have reached : control.needsCleanup = false →
      (vectorLoop control.vtc vectorLength unroll fuel (control.ptc.getD 0)).2 = stc := by
    intro noCleanup
    apply BitVec.eq_of_toNat_eq
    rw [vectorExit, cleanupUnneeded noCleanup]
    omega
  obtain ⟨cleaned, exit⟩ := cleanupLoop_run wide (by rw [vectorExit]; omega) enough reached
  simp only [runGeneratedLoops, GeneratedLoops.elements, peelingExit]
  refine ⟨?_, fun i member => le_trans (vectorWithin i member) vtcBelow, by omega, by rw [vectorExit]; omega,
    exit⟩
  rw [peeled, vectorElements, cleaned, vectorExit, List.range_eq_range']
  -- The three runs `[0, p)`, `[p, max p vtc)` and `[max p vtc, stc)` make `[0, stc)`.
  generalize (control.ptc.getD 0).toNat = p at peelingBelow ⊢
  generalize control.vtc.toNat = v at vtcBelow ⊢
  have first := range'_append_range' (Nat.zero_le p) (le_max_left p v)
  have second := range'_append_range' (Nat.zero_le (max p v)) (max_le peelingBelow vtcBelow)
  simp only [Nat.sub_zero] at first second
  rw [show v - p = max p v - p by omega, first, second]

/-- The loops `Vectorize` generates replace the original loop: for every
run-time trip count, peeling, chunk and outcome of the disambiguation test,
the peeling, vector and cleanup loops process the elements `0, …, stc - 1`
once each and in increasing order, every vector iteration at `i` has
`i + chunk ≤ stc`, and the index never passes `stc`, which it ends at. -/
theorem vectorize_covers_trip_count {tripCount : Int} {staticPeelingFactor vectorLength unroll fuel : Nat}
    {dynamicPeeling : Option (DynamicPeeling w)} {stc : BitVec w} (runtimeTest : Option Bool) (wide : 0 < w)
    (accepted : Accepted tripCount staticPeelingFactor dynamicPeeling vectorLength unroll stc)
    (enough : stc.toNat ≤ fuel) :
    let loops := runGeneratedLoops
      (generateLoopControl tripCount staticPeelingFactor dynamicPeeling vectorLength unroll runtimeTest stc)
      stc vectorLength unroll fuel
    loops.elements vectorLength unroll = List.range stc.toNat ∧
      (∀ i ∈ loops.vector, i.toNat + vectorLength * unroll ≤ stc.toNat) ∧
      loops.peelingExit.toNat ≤ stc.toNat ∧ loops.vectorExit.toNat ≤ stc.toNat ∧ loops.exit = stc := by
  obtain ⟨k, chunkEq⟩ := accepted.chunkPowerOfTwo
  exact runGeneratedLoops_elements wide (by rw [chunkEq]; exact Nat.two_pow_pos k)
    (generateLoopControl_sound runtimeTest accepted) enough

/-- A known trip count of 19 with a static peeling of 3 and chunks of 8 needs
no cleanup loop. -/
theorem vectorize_covers_trip_count_of_static_peeling :
    0 < 32 ∧ Accepted (19 : Int) 3 (none : Option (DynamicPeeling 32)) 4 2 19 ∧ (19 : BitVec 32).toNat ≤ 19 ∧
      let loops := runGeneratedLoops (generateLoopControl 19 3 none 4 2 none (19 : BitVec 32)) 19 4 2 19
      loops.elements 4 2 = List.range (19 : BitVec 32).toNat ∧
        (∀ i ∈ loops.vector, i.toNat + 4 * 2 ≤ (19 : BitVec 32).toNat) ∧
        loops.peelingExit.toNat ≤ (19 : BitVec 32).toNat ∧ loops.vectorExit.toNat ≤ (19 : BitVec 32).toNat ∧
        loops.exit = 19 :=
  have accepted : Accepted (19 : Int) 3 (none : Option (DynamicPeeling 32)) 4 2 19 :=
    ⟨⟨3, rfl⟩, fun _ => rfl, fun _ => ⟨by decide, by decide⟩, fun _ _ isSome => by cases isSome⟩
  ⟨by decide, accepted, by decide, vectorize_covers_trip_count none (by decide) accepted (by decide)⟩

end ArtRuntime.Compiler.LoopOptimization
