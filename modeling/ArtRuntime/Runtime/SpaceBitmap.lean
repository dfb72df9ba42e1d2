import Mathlib.Tactic.Ring
import ArtRuntime.Base.BitUtils
import ArtRuntime.Foundation.SetBits
import ArtRuntime.Foundation.TracedMemory

/-! # Space bitmaps

`SpaceBitmap<kAlignment>` of `runtime/gc/accounting/space_bitmap.h`: a bit for
each `kAlignment`-aligned address from `heap_begin_`, in words of
`kBitsPerIntPtrT` bits, `w` here. `VisitMarkedRange` visits the addresses in
`[visit_begin, visit_end)` whose bit is set, a word at a time: the first word
masked from `visit_begin`'s bit, the whole words between, and the last word
masked below `visit_end`'s bit, which it does not read when `visit_end` starts
a word. The words are a memory that logs its reads, so that which words the
walk reads is a statement about the log. -/

namespace ArtRuntime.Runtime.Accounting

open Foundation

/-- `SpaceBitmap<kAlignment>` with `w`-bit words: `heap_begin_`, `heap_limit_`
and `bitmap_size_` in bytes. The words are the memory it reads. -/
structure SpaceBitmap (kAlignment w : Nat) where
  heapBegin : Nat
  heapLimit : Nat
  bitmapSize : Nat
  deriving DecidableEq, Repr

namespace SpaceBitmap

variable {kAlignment w : Nat}

/-- `OffsetToIndex`. -/
def offsetToIndex (kAlignment w offset : Nat) : Nat := offset / kAlignment / w

/-- `IndexToOffset`. -/
def indexToOffset (kAlignment w index : Nat) : Nat := index * kAlignment * w

/-- `OffsetBitIndex`. -/
def offsetBitIndex (kAlignment w offset : Nat) : Nat := (offset / kAlignment) % w

/-- `RoundUp` to a power of two. -/
def roundUp (x n : Nat) : Nat := (x + n - 1) / n * n

section RoundUp

variable {x n : Nat}

theorem le_roundUp (positive : 0 < n) : x ≤ roundUp x n := by
  have split := Nat.div_add_mod (x + n - 1) n
  have remainder := Nat.mod_lt (x + n - 1) positive
  rw [roundUp, Nat.mul_comm]
  omega

theorem roundUp_mod : roundUp x n % n = 0 := Nat.mul_mod_left _ _

theorem roundUp_le_of_mod {c : Nat} (positive : 0 < n) (multiple : c % n = 0) (after : x ≤ c) : roundUp x n ≤ c := by
  obtain ⟨k, rfl⟩ := Nat.dvd_of_mod_eq_zero multiple
  have quotient : (x + n - 1) / n ≤ k := by
    apply Nat.le_of_lt_succ
    apply (Nat.div_lt_iff_lt_mul positive).mpr
    rw [Nat.succ_mul, Nat.mul_comm]
    omega
  rw [roundUp, Nat.mul_comm n k]
  exact Nat.mul_le_mul_right n quotient

theorem le_sub_mod_of_mod {c : Nat} (positive : 0 < n) (multiple : c % n = 0) (below : c ≤ x) : c ≤ x - x % n := by
  obtain ⟨k, rfl⟩ := Nat.dvd_of_mod_eq_zero multiple
  have quotient : k ≤ x / n := (Nat.le_div_iff_mul_le positive).mpr (by rw [Nat.mul_comm]; exact below)
  have split := Nat.div_add_mod x n
  calc n * k ≤ n * (x / n) := Nat.mul_le_mul_left n quotient
    _ = x - x % n := by omega

end RoundUp

/-- `ComputeBitmapSize`: the bytes of the words that cover `capacity` bytes. -/
def computeBitmapSize (kAlignment w capacity : Nat) : Nat :=
  roundUp capacity (kAlignment * w) / (kAlignment * w) * (w / 8)

/-- `Create` and `CreateFromMemMap`. -/
def create (heapBegin capacity : Nat) : SpaceBitmap kAlignment w :=
  ⟨heapBegin, heapBegin + capacity, computeBitmapSize kAlignment w capacity⟩

/-- `bitmap_size_ / sizeof(intptr_t)`: the words of the bitmap. -/
def wordCount (bitmap : SpaceBitmap kAlignment w) : Nat := bitmap.bitmapSize / (w / 8)

/-- `Test`: the bit of `address` in the words. -/
def test (bitmap : SpaceBitmap kAlignment w) (words : Nat → BitVec w) (address : Nat) : Bool :=
  let offset := address - bitmap.heapBegin
  (words (offsetToIndex kAlignment w offset) &&& ((1 : BitVec w) <<< offsetBitIndex kAlignment w offset)) != 0

/-- The addresses of the set bits of `word`, from the least significant:
`do { shift = CTZ(word); visitor(ptr_base + shift * kAlignment); word ^= 1 << shift; } while (word != 0)`,
a loop of at most `w` iterations. -/
def visitWord (kAlignment : Nat) (base : Nat) (word : BitVec w) : List Nat :=
  (visitSetBits (fun word => Base.ctz w word.toNat) w word).map fun shift => base + shift * kAlignment

/-- The middle loop of `VisitMarkedRange`, from word `index` to `index_end`. -/
def visitMiddle (bitmap : SpaceBitmap kAlignment w) (indexEnd index : Nat) (memory : TracedMemory (BitVec w)) :
    List Nat × TracedMemory (BitVec w) :=
  if index < indexEnd then
    let (word, memory) := memory.read index
    let visited := bif word != 0 then visitWord kAlignment (indexToOffset kAlignment w index + bitmap.heapBegin) word else []
    let (rest, memory) := bitmap.visitMiddle indexEnd (index + 1) memory
    (visited ++ rest, memory)
  else ([], memory)
termination_by indexEnd - index

/-- The walk of `VisitMarkedRange` over the objects from `kStart` to `kEnd`,
`offset / kAlignment` of `visit_begin` and `visit_end`: the addresses visited,
in order, and the memory with the words read. -/
def visitObjects (bitmap : SpaceBitmap kAlignment w) (kStart kEnd : Nat) (memory : TracedMemory (BitVec w)) :
    List Nat × TracedMemory (BitVec w) :=
  let indexStart := kStart / w
  let indexEnd := kEnd / w
  let bitStart := kStart % w
  let bitEnd := kEnd % w
  let leftRead := memory.read indexStart
  -- Clear the bits below `visit_begin`'s.
  let leftEdge := leftRead.1 &&& ~~~(((1 : BitVec w) <<< bitStart) - 1)
  let edges : List Nat × List Nat × BitVec w × TracedMemory (BitVec w) :=
    if indexStart < indexEnd then
      let left := bif leftEdge != 0 then
          visitWord kAlignment (indexToOffset kAlignment w indexStart + bitmap.heapBegin) leftEdge
        else []
      let middle := bitmap.visitMiddle indexEnd (indexStart + 1) leftRead.2
      -- Do not read memory, as it could be after the end of the bitmap.
      let rightRead := if bitEnd = 0 then ((0 : BitVec w), middle.2) else middle.2.read indexEnd
      (left, middle.1, rightRead.1, rightRead.2)
    else ([], [], leftEdge, leftRead.2)
  let rightEdge := edges.2.2.1 &&& (((1 : BitVec w) <<< bitEnd) - 1)
  let right := bif rightEdge != 0 then
      visitWord kAlignment (indexToOffset kAlignment w indexEnd + bitmap.heapBegin) rightEdge
    else []
  (edges.1 ++ edges.2.1 ++ right, edges.2.2.2)

/-- `VisitMarkedRange`: `index_start = OffsetToIndex(offset_start)` is
`(offset_start / kAlignment) / w` and `bit_start` its remainder, and likewise
at the end. -/
def visitMarkedRange (bitmap : SpaceBitmap kAlignment w) (visitBegin visitEnd : Nat)
    (memory : TracedMemory (BitVec w)) : List Nat × TracedMemory (BitVec w) :=
  let offsetStart := visitBegin - bitmap.heapBegin
  let offsetEnd := visitEnd - bitmap.heapBegin
  bitmap.visitObjects (offsetStart / kAlignment) (offsetEnd / kAlignment) memory

/-! ## The addresses visited -/

/-- Bit `k` of the bitmap, for the address `heap_begin + k * kAlignment`. -/
def marked (words : Nat → BitVec w) (k : Nat) : Bool := (words (k / w)).getLsbD (k % w)

theorem marked_add {words : Nat → BitVec w} {index shift : Nat} (below : shift < w) :
    marked words (index * w + shift) = (words index).getLsbD shift := by
  have wide : 0 < w := by omega
  unfold marked
  rw [Nat.mul_comm, Nat.mul_add_div wide, Nat.div_eq_of_lt below, Nat.add_zero, Nat.mul_add_mod,
    Nat.mod_eq_of_lt below]

theorem isLowestSetBit_ctz (word : BitVec w) (nonzero : word ≠ 0) : IsLowestSetBit word (Base.ctz w word.toNat) := by
  have notZero : word.toNat ≠ 0 := fun zero => nonzero (BitVec.eq_of_toNat_eq (by simpa using zero))
  obtain ⟨below, set⟩ := Base.testBit_ctz word.isLt notZero
  exact ⟨below, set, fun i before => Base.testBit_of_lt_ctz before⟩

/-- The bits of word `index` a mask keeps between `a` and `b`, visited as the
addresses of the marked objects there. -/
theorem visitWord_eq (words : Nat → BitVec w) (index heapBegin : Nat) {masked : BitVec w} {a b : Nat}
    (within : b ≤ w) (agree : ∀ i < w, masked.getLsbD i = ((words index).getLsbD i && decide (a ≤ i) && decide (i < b))) :
    visitWord kAlignment (indexToOffset kAlignment w index + heapBegin) masked =
      ((List.range' (index * w + a) (b - a)).filter (marked words)).map fun k => heapBegin + k * kAlignment := by
  have sameBits : (List.range' a (b - a)).filter (marked words ∘ (index * w + ·)) =
      (List.range' a (b - a)).filter (words index).getLsbD := by
    apply List.filter_congr
    intro shift member
    rw [List.mem_range'_1] at member
    exact marked_add (by omega)
  rw [visitWord, visitSetBits_eq_filter isLowestSetBit_ctz (le_refl w), filter_range_eq_filter_range' within agree,
    ← List.map_add_range', List.filter_map, List.map_map, sameBits]
  apply List.map_congr_left
  intro shift _
  simp only [Function.comp_apply, indexToOffset]
  ring

/-- A word with no bit set visits nothing, so the guard `if (w != 0)` changes
nothing. -/
theorem visitWord_guard (base : Nat) (word : BitVec w) :
    (bif word != 0 then visitWord kAlignment base word else []) = visitWord kAlignment base word := by
  by_cases zero : word = 0
  · subst zero
    cases w <;> simp [visitWord, visitSetBits]
  · rw [show (word != 0) = true from bne_iff_ne.mpr zero, cond_true]

/-- The middle loop visits the marked objects of the whole words from `index`
to `index_end`, reading just those words. -/
theorem visitMiddle_spec (bitmap : SpaceBitmap kAlignment w) (indexEnd index : Nat) (memory : TracedMemory (BitVec w)) :
    (bitmap.visitMiddle indexEnd index memory).1 =
        ((List.range' (index * w) ((indexEnd - index) * w)).filter (marked memory.cells)).map
          (fun k => bitmap.heapBegin + k * kAlignment) ∧
      TracedMemory.ReadsWithin memory (bitmap.visitMiddle indexEnd index memory).2 index indexEnd := by
  fun_induction bitmap.visitMiddle indexEnd index memory with
  | case1 index memory before word readMemory readEq visited rest final restEq induction =>
    have readSnd : (memory.read index).2 = readMemory := congrArg Prod.snd readEq
    have readCells : readMemory.cells = memory.cells := by
      rw [← readSnd]
      rfl
    have readWord : word = memory.cells index := by
      rw [← TracedMemory.read_fst memory index, readEq]
    rw [restEq] at induction
    obtain ⟨restVisits, restReads⟩ := induction
    refine ⟨?_, ?_⟩
    · -- This word's marked objects, then those of the words after it.
      have here := @visitWord_eq kAlignment w memory.cells index bitmap.heapBegin word 0 w (le_refl w)
        (fun i below => by simp [readWord, below])
      have joined : List.range' (index * w) w ++ List.range' ((index + 1) * w) ((indexEnd - (index + 1)) * w) =
          List.range' (index * w) ((indexEnd - index) * w) := by
        rw [Nat.succ_mul, show (indexEnd - index) * w = w + (indexEnd - (index + 1)) * w by
          rw [show indexEnd - index = (indexEnd - (index + 1)) + 1 by omega, Nat.succ_mul, Nat.add_comm]]
        exact List.range'_append_1
      simp only [visited, visitWord_guard] at restVisits ⊢
      rw [restVisits, here, readCells, ← joined, List.filter_append, List.map_append, Nat.add_zero, Nat.sub_zero]
    · have first : TracedMemory.ReadsWithin memory readMemory index indexEnd := by
        rw [← readSnd]
        exact TracedMemory.ReadsWithin.read memory ⟨le_refl index, before⟩
      exact first.trans (restReads.mono (Nat.le_succ index) (le_refl indexEnd))
  | case2 index memory after =>
    rw [show indexEnd - index = 0 by omega, Nat.zero_mul, List.range'_zero, List.filter_nil, List.map_nil]
    exact ⟨rfl, TracedMemory.ReadsWithin.refl memory index indexEnd⟩

/-- The walk of the last word, masked below `visit_end`'s bit, which is read only
when that bit is not zero: the marked objects of that word below `kEnd`. -/
theorem visitRightEdge_eq (wide : 0 < w) (bitmap : SpaceBitmap kAlignment w) (memory : TracedMemory (BitVec w))
    (kEnd : Nat) (word : BitVec w) (ofZero : kEnd % w = 0 → word = 0)
    (ofRead : kEnd % w ≠ 0 → word = memory.cells (kEnd / w)) :
    (bif word &&& (((1 : BitVec w) <<< (kEnd % w)) - 1) != 0 then
        visitWord kAlignment (indexToOffset kAlignment w (kEnd / w) + bitmap.heapBegin)
          (word &&& (((1 : BitVec w) <<< (kEnd % w)) - 1))
      else []) =
      ((List.range' (kEnd / w * w) (kEnd % w)).filter (marked memory.cells)).map
        fun k => bitmap.heapBegin + k * kAlignment := by
  have endBit := Nat.mod_lt kEnd wide
  rw [visitWord_guard]
  by_cases zero : kEnd % w = 0
  · rw [ofZero zero, zero]
    cases w <;> simp [visitWord, visitSetBits]
  · rw [ofRead zero, visitWord_eq memory.cells (kEnd / w) bitmap.heapBegin (a := 0) (Nat.le_of_lt endBit)
      fun i inside => by rw [getLsbD_and_mask endBit]; simp]
    rfl

/-- The walk visits, in increasing order, the addresses of the marked objects
from `kStart` to `kEnd`. -/
theorem visitObjects_eq (wide : 0 < w) (bitmap : SpaceBitmap kAlignment w) (memory : TracedMemory (BitVec w))
    {kStart kEnd : Nat} (ordered : kStart ≤ kEnd) :
    (bitmap.visitObjects kStart kEnd memory).1 =
      ((List.range' kStart (kEnd - kStart)).filter (marked memory.cells)).map fun k => bitmap.heapBegin + k * kAlignment := by
  have startSplit := Nat.div_add_mod' kStart w
  have endSplit := Nat.div_add_mod' kEnd w
  have startBit := Nat.mod_lt kStart wide
  have endBit := Nat.mod_lt kEnd wide
  have middle := visitMiddle_spec bitmap (kEnd / w) (kStart / w + 1) (memory.read (kStart / w)).2
  simp only [TracedMemory.read_cells] at middle
  obtain ⟨middleVisits, middleCells, -⟩ := middle
  by_cases crosses : kStart / w < kEnd / w
  · simp only [visitObjects, crosses, if_true, TracedMemory.read_fst, middleVisits]
    rw [visitRightEdge_eq wide bitmap memory kEnd _ (fun zero => by simp [zero])
      (fun nonzero => by simp [nonzero, middleCells])]
    simp only [visitWord_guard]
    rw [visitWord_eq memory.cells (kStart / w) bitmap.heapBegin (a := kStart % w) (b := w) (le_refl w)
        fun i inside => by rw [getLsbD_and_not_mask startBit inside]; simp [inside]]
    -- The three pieces are consecutive runs of objects.
    have firstEnd : w - kStart % w = (kStart / w + 1) * w - kStart := by rw [Nat.succ_mul]; omega
    have middleEnd : (kEnd / w - (kStart / w + 1)) * w = kEnd / w * w - (kStart / w + 1) * w := Nat.sub_mul _ _ _
    have lastEnd : kEnd % w = kEnd - kEnd / w * w := by omega
    have ordered : (kStart / w + 1) * w ≤ kEnd / w * w := Nat.mul_le_mul_right w crosses
    rw [startSplit, firstEnd, middleEnd, lastEnd, ← List.map_append, ← List.map_append, ← List.filter_append,
      ← List.filter_append, List.append_assoc, range'_append_range' ordered (by omega),
      range'_append_range' (by rw [Nat.succ_mul]; omega) (by omega)]
  · -- One word: both masks apply to it.
    have same : kStart / w = kEnd / w := le_antisymm (Nat.div_le_div_right ordered) (by omega)
    have sameBase : kStart / w * w = kEnd / w * w := by rw [same]
    simp only [visitObjects, crosses, if_false, TracedMemory.read_fst, List.nil_append]
    simp only [visitWord_guard]
    rw [← same, visitWord_eq memory.cells (kStart / w) bitmap.heapBegin (a := kStart % w) (b := kEnd % w)
        (Nat.le_of_lt endBit) fun i inside => by
          rw [getLsbD_and_mask endBit, getLsbD_and_not_mask startBit inside, Bool.and_assoc], startSplit]
    congr 3
    omega

/-- `VisitMarkedRange` visits, in strictly increasing order, exactly the
addresses `heap_begin + k * kAlignment` of `[visit_begin, visit_end)` whose bit
`k` is set, for bounds on objects of the heap. -/
theorem visitMarkedRange_visits_marked (positive : 0 < kAlignment) (wide : 0 < w) (bitmap : SpaceBitmap kAlignment w)
    (memory : TracedMemory (BitVec w)) {visitBegin visitEnd : Nat} (ordered : visitBegin ≤ visitEnd)
    (above : bitmap.heapBegin ≤ visitBegin) (beginAligned : (visitBegin - bitmap.heapBegin) % kAlignment = 0)
    (endAligned : (visitEnd - bitmap.heapBegin) % kAlignment = 0) :
    (bitmap.visitMarkedRange visitBegin visitEnd memory).1.Pairwise (· < ·) ∧
      ∀ address, address ∈ (bitmap.visitMarkedRange visitBegin visitEnd memory).1 ↔
        ∃ k, address = bitmap.heapBegin + k * kAlignment ∧ visitBegin ≤ address ∧ address < visitEnd ∧
          marked memory.cells k = true := by
  have monotone : (visitBegin - bitmap.heapBegin) / kAlignment ≤ (visitEnd - bitmap.heapBegin) / kAlignment :=
    Nat.div_le_div_right (Nat.sub_le_sub_right ordered _)
  have beginSplit := Nat.div_add_mod (visitBegin - bitmap.heapBegin) kAlignment
  have endSplit := Nat.div_add_mod (visitEnd - bitmap.heapBegin) kAlignment
  rw [beginAligned, Nat.add_zero] at beginSplit
  rw [endAligned, Nat.add_zero] at endSplit
  rw [visitMarkedRange, visitObjects_eq wide bitmap memory monotone]
  refine ⟨?_, fun address => ?_⟩
  · -- Object indices increase along the walk, and so do their addresses.
    rw [List.pairwise_map]
    exact (List.Pairwise.filter _ List.pairwise_lt_range').imp fun before =>
      Nat.add_lt_add_left (Nat.mul_lt_mul_of_pos_right before positive) _
  · simp only [List.mem_map, List.mem_filter, List.mem_range'_1]
    constructor
    · rintro ⟨k, ⟨⟨started, ended⟩, isMarked⟩, rfl⟩
      refine ⟨k, rfl, ?_, ?_, isMarked⟩
      · have := Nat.mul_le_mul_right kAlignment started
        rw [Nat.mul_comm, beginSplit] at this
        omega
      · have := Nat.mul_lt_mul_of_pos_right (show k < (visitEnd - bitmap.heapBegin) / kAlignment by omega) positive
        rw [Nat.mul_comm ((visitEnd - bitmap.heapBegin) / kAlignment), endSplit] at this
        omega
    · rintro ⟨k, rfl, started, ended, isMarked⟩
      refine ⟨k, ⟨⟨?_, ?_⟩, isMarked⟩, rfl⟩
      · apply Nat.div_le_of_le_mul
        rw [Nat.mul_comm]
        omega
      · have below : k * kAlignment < (visitEnd - bitmap.heapBegin) / kAlignment * kAlignment := by
          rw [Nat.mul_comm ((visitEnd - bitmap.heapBegin) / kAlignment) kAlignment, endSplit]
          omega
        have := Nat.lt_of_mul_lt_mul_right below
        omega

/-! ## The words read -/

/-- The walk reads from the first object's word up to the word of the last
object before `kEnd`, or the first word alone. -/
theorem visitObjects_reads (wide : 0 < w) (bitmap : SpaceBitmap kAlignment w) (memory : TracedMemory (BitVec w))
    (kStart kEnd : Nat) :
    TracedMemory.ReadsWithin memory (bitmap.visitObjects kStart kEnd memory).2 (kStart / w)
      (max (kStart / w + 1) ((kEnd + w - 1) / w)) := by
  have first : TracedMemory.ReadsWithin memory (memory.read (kStart / w)).2 (kStart / w) (kStart / w + 1) :=
    TracedMemory.ReadsWithin.read memory ⟨le_refl _, Nat.lt_succ_self _⟩
  have firstWithin := first.mono (le_refl _) (le_max_left (kStart / w + 1) ((kEnd + w - 1) / w))
  by_cases crosses : kStart / w < kEnd / w
  · have middle := (visitMiddle_spec bitmap (kEnd / w) (kStart / w + 1) (memory.read (kStart / w)).2).2
    have endWord : kEnd / w ≤ (kEnd + w - 1) / w := Nat.div_le_div_right (by omega)
    have middleWithin := middle.mono (Nat.le_succ _) (le_trans endWord (le_max_right (kStart / w + 1) _))
    simp only [visitObjects, crosses, if_true]
    by_cases zero : kEnd % w = 0
    · simp only [zero, if_true]
      exact firstWithin.trans middleWithin
    · -- The last word is read, and it lies before the word after `kEnd`.
      simp only [zero, if_false]
      have lastBelow : kEnd / w < (kEnd + w - 1) / w := by
        apply (Nat.le_div_iff_mul_le wide).mpr
        have split := Nat.div_add_mod kEnd w
        rw [Nat.succ_mul, Nat.mul_comm]
        omega
      exact (firstWithin.trans middleWithin).trans (TracedMemory.ReadsWithin.read _ ⟨le_of_lt crosses,
        lt_of_lt_of_le lastBelow (le_max_right _ _)⟩)
  · simp only [visitObjects, crosses, if_false]
    exact firstWithin

/-- The bitmap covers its heap: there is a bit for each object below
`heap_limit_`. -/
def Covers (bitmap : SpaceBitmap kAlignment w) : Prop :=
  bitmap.heapLimit - bitmap.heapBegin ≤ bitmap.wordCount * (kAlignment * w)

theorem wordCount_create (positive : 0 < kAlignment) (wide : 8 ≤ w) (heapBegin capacity : Nat) :
    (create heapBegin capacity : SpaceBitmap kAlignment w).wordCount =
      (capacity + kAlignment * w - 1) / (kAlignment * w) := by
  have covered : 0 < kAlignment * w := Nat.mul_pos positive (by omega)
  rw [wordCount, create, computeBitmapSize, roundUp, Nat.mul_div_cancel _ covered, Nat.mul_div_cancel _ (by omega)]

theorem covers_create (positive : 0 < kAlignment) (wide : 8 ≤ w) (heapBegin capacity : Nat) :
    Covers (create heapBegin capacity : SpaceBitmap kAlignment w) := by
  have covered : 0 < kAlignment * w := Nat.mul_pos positive (by omega)
  rw [Covers, wordCount_create positive wide]
  have split := Nat.div_add_mod (capacity + kAlignment * w - 1) (kAlignment * w)
  have remainder := Nat.mod_lt (capacity + kAlignment * w - 1) covered
  simp only [create]
  rw [Nat.mul_comm]
  omega

/-- Starting below `HeapLimit()` in a bitmap that covers its heap, the walk
reads only words of the bitmap. -/
theorem visitMarkedRange_reads_within (positive : 0 < kAlignment) (wide : 0 < w) (bitmap : SpaceBitmap kAlignment w)
    (covers : Covers bitmap) (memory : TracedMemory (BitVec w)) {visitBegin visitEnd : Nat}
    (above : bitmap.heapBegin ≤ visitBegin) (started : visitBegin < bitmap.heapLimit) (ended : visitEnd ≤ bitmap.heapLimit) :
    TracedMemory.ReadsWithin memory (bitmap.visitMarkedRange visitBegin visitEnd memory).2 0 bitmap.wordCount := by
  unfold Covers at covers
  have reads := visitObjects_reads wide bitmap memory ((visitBegin - bitmap.heapBegin) / kAlignment)
    ((visitEnd - bitmap.heapBegin) / kAlignment)
  -- Both objects lie within the words, in objects: `wordCount * w` of them.
  have objects : bitmap.heapLimit - bitmap.heapBegin ≤ bitmap.wordCount * w * kAlignment := by
    rw [Nat.mul_assoc, Nat.mul_comm w kAlignment]
    exact covers
  have firstBelow : (visitBegin - bitmap.heapBegin) / kAlignment < bitmap.wordCount * w :=
    (Nat.div_lt_iff_lt_mul positive).mpr (by omega)
  have lastBelow : (visitEnd - bitmap.heapBegin) / kAlignment ≤ bitmap.wordCount * w :=
    Nat.div_le_of_le_mul (by rw [Nat.mul_comm]; omega)
  apply reads.mono (Nat.zero_le _)
  apply max_le
  · exact (Nat.div_lt_iff_lt_mul wide).mpr firstBelow
  · apply Nat.le_of_lt_succ
    apply (Nat.div_lt_iff_lt_mul wide).mpr
    rw [Nat.succ_mul]
    omega

/-- `VisitMarkedRange` on a bitmap that `Create` made, from below `HeapLimit()`
and between object boundaries, visits the marked objects of its range once each,
in increasing order, and reads only words of the bitmap. -/
theorem visitMarkedRange_correct (positive : 0 < kAlignment) (wide : 8 ≤ w) (heapBegin capacity : Nat)
    (memory : TracedMemory (BitVec w)) {visitBegin visitEnd : Nat} (ordered : visitBegin ≤ visitEnd)
    (above : heapBegin ≤ visitBegin) (started : visitBegin < heapBegin + capacity)
    (ended : visitEnd ≤ heapBegin + capacity) (beginAligned : (visitBegin - heapBegin) % kAlignment = 0)
    (endAligned : (visitEnd - heapBegin) % kAlignment = 0) :
    let bitmap : SpaceBitmap kAlignment w := create heapBegin capacity
    let visit := bitmap.visitMarkedRange visitBegin visitEnd memory
    visit.1.Pairwise (· < ·) ∧
      (∀ address, address ∈ visit.1 ↔
        ∃ k, address = heapBegin + k * kAlignment ∧ visitBegin ≤ address ∧ address < visitEnd ∧
          marked memory.cells k = true) ∧
      TracedMemory.ReadsWithin memory visit.2 0 bitmap.wordCount := by
  intro bitmap visit
  obtain ⟨increasing, exact⟩ :=
    visitMarkedRange_visits_marked positive (by omega) bitmap memory ordered above beginAligned endAligned
  have within := visitMarkedRange_reads_within positive (by omega) bitmap (covers_create positive wide heapBegin capacity)
    memory above started ended
  exact ⟨increasing, exact, within⟩

/-- Objects `1`, `2`, `4` and `63` marked in the first word of the bitmap and
`64` and `66` in the second, visited from `heap_begin + 8` to `heap_begin + 0x300`. -/
theorem visitMarkedRange_correct_on_marked_words :
    (0 < 8 ∧ 8 ≤ 64 ∧ 0x10000000 ≤ 0x10000000 + 0x300 ∧ 0x10000000 ≤ 0x10000000 + 8 ∧
      0x10000000 + 8 < 0x10000000 + 0x8000 ∧ 0x10000000 + 0x300 ≤ 0x10000000 + 0x8000 ∧
      (0x10000000 + 8 - 0x10000000) % 8 = 0 ∧ (0x10000000 + 0x300 - 0x10000000) % 8 = 0) ∧
    let bitmap : SpaceBitmap 8 64 := create 0x10000000 0x8000
    let memory : TracedMemory (BitVec 64) :=
      ⟨fun i => if i = 0 then 0x8000000000000016 else if i = 1 then 5 else 0, []⟩
    let visit := bitmap.visitMarkedRange (0x10000000 + 8) (0x10000000 + 0x300) memory
    visit.1.Pairwise (· < ·) ∧
      (∀ address, address ∈ visit.1 ↔
        ∃ k, address = 0x10000000 + k * 8 ∧ 0x10000000 + 8 ≤ address ∧ address < 0x10000000 + 0x300 ∧
          marked memory.cells k = true) ∧
      TracedMemory.ReadsWithin memory visit.2 0 bitmap.wordCount :=
  ⟨by decide, visitMarkedRange_correct (by decide) (by decide) 0x10000000 0x8000 _ (by decide) (by decide)
    (by decide) (by decide) (by decide) (by decide)⟩

/-- From a `visit_begin` inside an object's slot, the walk starts at that
object, below `visit_begin`. -/
theorem visitMarkedRange_visits_before_begin (wide : 0 < w) (bitmap : SpaceBitmap kAlignment w)
    (memory : TracedMemory (BitVec w)) {visitBegin visitEnd : Nat}
    (beyond : (visitBegin - bitmap.heapBegin) / kAlignment < (visitEnd - bitmap.heapBegin) / kAlignment)
    (isMarked : marked memory.cells ((visitBegin - bitmap.heapBegin) / kAlignment) = true) :
    bitmap.heapBegin + (visitBegin - bitmap.heapBegin) / kAlignment * kAlignment ∈
      (bitmap.visitMarkedRange visitBegin visitEnd memory).1 := by
  rw [visitMarkedRange, visitObjects_eq wide bitmap memory (le_of_lt beyond)]
  exact List.mem_map.mpr ⟨_, List.mem_filter.mpr ⟨List.mem_range'_1.mpr ⟨le_rfl, by omega⟩, isMarked⟩, rfl⟩

/-- On a heap of whole bitmap words, a walk from `HeapLimit()`, even an empty
one, reads the word after the last word of the bitmap. -/
theorem visitMarkedRange_from_limit_reads_past_bitmap (positive : 0 < kAlignment) (wide : 8 ≤ w)
    (heapBegin words : Nat) (memory : TracedMemory (BitVec w)) :
    (create heapBegin (words * (kAlignment * w)) : SpaceBitmap kAlignment w).wordCount = words ∧
      words ∈ ((create heapBegin (words * (kAlignment * w)) : SpaceBitmap kAlignment w).visitMarkedRange
        (heapBegin + words * (kAlignment * w)) (heapBegin + words * (kAlignment * w)) memory).2.reads := by
  have covered : 0 < kAlignment * w := Nat.mul_pos positive (by omega)
  have objects : words * (kAlignment * w) / kAlignment = words * w := by
    rw [Nat.mul_comm kAlignment w, ← Nat.mul_assoc, Nat.mul_div_cancel _ positive]
  have word : words * w / w = words := Nat.mul_div_cancel _ (by omega)
  refine ⟨?_, ?_⟩
  · rw [wordCount_create positive wide, show words * (kAlignment * w) + kAlignment * w - 1 =
      kAlignment * w * words + (kAlignment * w - 1) by rw [Nat.mul_comm]; omega,
      Nat.mul_add_div covered, Nat.div_eq_of_lt (by omega), Nat.add_zero]
  · -- The walk is within one word, the one at `HeapLimit()`, and reads it.
    simp only [visitMarkedRange, visitObjects, create, Nat.add_sub_cancel_left, objects, word, lt_irrefl, if_false,
      TracedMemory.read_reads]
    exact List.mem_cons_self

end SpaceBitmap

end ArtRuntime.Runtime.Accounting
