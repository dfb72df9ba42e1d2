import ArtRuntime.Runtime.SpaceBitmap

/-! # Card table scans

`CardTable::Scan` of `runtime/gc/accounting/card_table-inl.h`: a card byte for
each `kCardSize` bytes of the heap, at `biased_begin_ + (addr >> kCardShift)`.
`Scan` visits the marked objects of the cards of `[scan_begin, scan_end)` whose
value is at least `minimum_age`: the cards before the first word-aligned one a
byte at a time, then whole words of cards, skipping words of clean cards, then
the cards after the last whole word a byte at a time. Card pointers are
addresses, so the alignment the loops test is the pointer's. A word of cards is
read as its `sizeof(uintptr_t)` bytes in memory order, as on the little-endian
targets the code assumes; `IsAligned` and `& (sizeof(uintptr_t) - 1)` on the
power-of-two word size are remainders. -/

namespace ArtRuntime.Runtime.Accounting

open Foundation

/-- `CardTable`: `biased_begin_`. The card bytes are the memory it reads. -/
structure CardTable where
  biasedBegin : Nat
  deriving DecidableEq, Repr

/-- What a scan has done so far: the addresses visited, in order,
`cards_scanned`, and the bitmap's memory with the words read. -/
structure ScanState (w : Nat) where
  visited : List Nat
  cardsScanned : Nat
  memory : TracedMemory (BitVec w)

namespace CardTable

variable {kAlignment w : Nat}

/-- `kCardShift`. -/
def kCardShift : Nat := 10

/-- `kCardSize`. -/
def kCardSize : Nat := 1 <<< kCardShift

/-- `CardFromAddr`. -/
def cardFromAddr (table : CardTable) (addr : Nat) : Nat := table.biasedBegin + (addr >>> kCardShift)

/-- `AddrFromCard`. -/
def addrFromCard (table : CardTable) (card : Nat) : Nat := (card - table.biasedBegin) <<< kCardShift

/-- The body of the byte loops: `if (*card_cur >= minimum_age) { start = AddrFromCard(card_cur);
bitmap->VisitMarkedRange(start, start + kCardSize, visitor); ++cards_scanned; }`. -/
def scanCard (table : CardTable) (bitmap : SpaceBitmap kAlignment w) (cards : Nat → UInt8) (minimumAge : UInt8)
    (state : ScanState w) (card : Nat) : ScanState w :=
  if cards card ≥ minimumAge then
    let start := table.addrFromCard card
    let visit := bitmap.visitMarkedRange start (start + kCardSize) state.memory
    ⟨state.visited ++ visit.1, state.cardsScanned + 1, visit.2⟩
  else state

/-- The leading loop: `while (!IsAligned<sizeof(intptr_t)>(card_cur) && card_cur < card_end)`,
and the card it stops at. -/
def scanLeading (table : CardTable) (bitmap : SpaceBitmap kAlignment w) (cards : Nat → UInt8) (minimumAge : UInt8)
    (wordBytes cardEnd cardCur : Nat) (state : ScanState w) : Nat × ScanState w :=
  if cardCur % wordBytes ≠ 0 ∧ cardCur < cardEnd then
    table.scanLeading bitmap cards minimumAge wordBytes cardEnd (cardCur + 1)
      (table.scanCard bitmap cards minimumAge state cardCur)
  else (cardCur, state)
termination_by cardEnd - cardCur

/-- The body of the word loop at `word_cur`: a word of clean cards is skipped
(`while (*word_cur == 0)`), and otherwise each of its bytes, from the first,
is the card at `word_cur + i`, at `start = AddrFromCard(word_cur) + i * kCardSize`. -/
def scanWord (table : CardTable) (bitmap : SpaceBitmap kAlignment w) (cards : Nat → UInt8) (minimumAge : UInt8)
    (wordBytes : Nat) (state : ScanState w) (wordCur : Nat) : ScanState w :=
  if (List.range wordBytes).all fun i => cards (wordCur + i) = 0 then state
  else
    (List.range wordBytes).foldl
      (fun state i =>
        if cards (wordCur + i) ≥ minimumAge then
          let start := table.addrFromCard wordCur + i * kCardSize
          let visit := bitmap.visitMarkedRange start (start + kCardSize) state.memory
          ⟨state.visited ++ visit.1, state.cardsScanned + 1, visit.2⟩
        else state)
      state

/-- The word loop `for (word_cur = card_cur; word_cur < word_end; ++word_cur)`
over words of `wordBytes` cards; its inner skip of clean words leaves it at
`word_end` (`goto exit_for`), as the loop's own test would. -/
def scanWords (table : CardTable) (bitmap : SpaceBitmap kAlignment w) (cards : Nat → UInt8) (minimumAge : UInt8)
    (wordBytes cardCur wordEnd : Nat) (state : ScanState w) : ScanState w :=
  (List.range' cardCur ((wordEnd - cardCur + wordBytes - 1) / wordBytes) wordBytes).foldl
    (table.scanWord bitmap cards minimumAge wordBytes) state

/-- `CardTable::Scan` without clearing the cards: what it visits, its
`cards_scanned`, and the bitmap's memory. -/
def scan (table : CardTable) (bitmap : SpaceBitmap kAlignment w) (cards : Nat → UInt8) (wordBytes : Nat)
    (scanBegin scanEnd : Nat) (minimumAge : UInt8) (memory : TracedMemory (BitVec w)) : ScanState w :=
  let cardBegin := table.cardFromAddr scanBegin
  let cardEnd := table.cardFromAddr (SpaceBitmap.roundUp scanEnd kCardSize)
  -- Handle any unaligned cards at the start.
  let leading := table.scanLeading bitmap cards minimumAge wordBytes cardEnd cardBegin ⟨[], 0, memory⟩
  let wordEnd := cardEnd - cardEnd % wordBytes
  let words := table.scanWords bitmap cards minimumAge wordBytes leading.1 wordEnd leading.2
  -- Handle any unaligned cards at the end.
  (List.range' wordEnd (cardEnd - wordEnd)).foldl (table.scanCard bitmap cards minimumAge) words

/-! ## Scanning cards one at a time -/

theorem visitMarkedRange_cells (wide : 0 < w) (bitmap : SpaceBitmap kAlignment w) (memory : TracedMemory (BitVec w))
    (visitBegin visitEnd : Nat) : (bitmap.visitMarkedRange visitBegin visitEnd memory).2.cells = memory.cells :=
  (SpaceBitmap.visitObjects_reads wide bitmap memory _ _).1

/-- The objects a card's walk visits: those of its `kCardSize` bytes. -/
def cardVisits (table : CardTable) (bitmap : SpaceBitmap kAlignment w) (memory : TracedMemory (BitVec w))
    (card : Nat) : List Nat :=
  (bitmap.visitMarkedRange (table.addrFromCard card) (table.addrFromCard card + kCardSize) memory).1

theorem cardVisits_of_cells (wide : 0 < w) (table : CardTable) (bitmap : SpaceBitmap kAlignment w)
    {memory other : TracedMemory (BitVec w)} (same : other.cells = memory.cells) (card : Nat) :
    table.cardVisits bitmap other card = table.cardVisits bitmap memory card := by
  have ordered : table.addrFromCard card ≤ table.addrFromCard card + kCardSize := Nat.le_add_right _ _
  rw [cardVisits, cardVisits, SpaceBitmap.visitMarkedRange, SpaceBitmap.visitMarkedRange,
    SpaceBitmap.visitObjects_eq wide _ _ (Nat.div_le_div_right (Nat.sub_le_sub_right ordered _)),
    SpaceBitmap.visitObjects_eq wide _ _ (Nat.div_le_div_right (Nat.sub_le_sub_right ordered _)), same]

/-- Scanning cards one at a time visits, card after card, the objects of those
at least `minimum_age` old, and counts them. -/
theorem foldl_scanCard (wide : 0 < w) (table : CardTable) (bitmap : SpaceBitmap kAlignment w) (cards : Nat → UInt8)
    (minimumAge : UInt8) (scanned : List Nat) (state : ScanState w) :
    let final := scanned.foldl (table.scanCard bitmap cards minimumAge) state
    let dirty := scanned.filter fun card => cards card ≥ minimumAge
    final.visited = state.visited ++ dirty.flatMap (table.cardVisits bitmap state.memory) ∧
      final.cardsScanned = state.cardsScanned + dirty.length ∧ final.memory.cells = state.memory.cells := by
  -- Induction on the cards, with the state before each.
  induction scanned generalizing state with
  | nil => simp
  | cons card rest induction =>
    by_cases old : cards card ≥ minimumAge
    · have next := induction (table.scanCard bitmap cards minimumAge state card)
      simp only [scanCard, old, if_true, visitMarkedRange_cells wide] at next
      simp only [List.foldl_cons, scanCard, old, if_true, List.filter_cons, decide_true, List.flatMap_cons,
        List.length_cons]
      refine ⟨?_, ?_, next.2.2⟩
      · rw [next.1, List.append_assoc]
        congr 2
        exact List.flatMap_congr fun other _ =>
          cardVisits_of_cells wide table bitmap (visitMarkedRange_cells wide bitmap _ _ _) other
      · rw [next.2.1]
        omega
    · have next := induction state
      simp only [List.foldl_cons, scanCard, old, if_false, List.filter_cons, decide_false]
      exact next

theorem foldl_scanCard_of_young (table : CardTable) (bitmap : SpaceBitmap kAlignment w) (cards : Nat → UInt8)
    {minimumAge : UInt8} {scanned : List Nat} (young : ∀ card ∈ scanned, cards card < minimumAge)
    (state : ScanState w) : scanned.foldl (table.scanCard bitmap cards minimumAge) state = state := by
  induction scanned with
  | nil => rfl
  | cons card rest induction =>
    rw [List.foldl_cons, scanCard, if_neg (UInt8.not_le.mpr (young card List.mem_cons_self))]
    exact induction fun other member => young other (List.mem_cons_of_mem _ member)

theorem addrFromCard_add (table : CardTable) {card : Nat} (valid : table.biasedBegin ≤ card) (i : Nat) :
    table.addrFromCard (card + i) = table.addrFromCard card + i * kCardSize := by
  simp only [addrFromCard, kCardSize, Nat.shiftLeft_eq, Nat.one_mul]
  rw [Nat.sub_add_comm valid, Nat.add_mul]

/-! ## The three loops of `Scan` -/

section Loops

variable (table : CardTable) (bitmap : SpaceBitmap kAlignment w) (cards : Nat → UInt8) (minimumAge : UInt8)
  (wordBytes : Nat)

/-- A word of cards is scanned as its cards one at a time: a word of clean cards
holds no card as old as a positive `minimum_age`. -/
theorem scanWord_eq (positiveAge : 0 < minimumAge) {wordCur : Nat} (valid : table.biasedBegin ≤ wordCur)
    (state : ScanState w) :
    table.scanWord bitmap cards minimumAge wordBytes state wordCur =
      (List.range' wordCur wordBytes).foldl (table.scanCard bitmap cards minimumAge) state := by
  unfold scanWord
  split
  · next clean =>
    refine (foldl_scanCard_of_young table bitmap cards (fun card member => ?_) state).symm
    rw [List.mem_range'_1] at member
    have zero := List.all_eq_true.mp clean (card - wordCur) (List.mem_range.mpr (by omega))
    rw [Nat.add_sub_cancel' member.1] at zero
    rw [of_decide_eq_true zero]
    exact positiveAge
  · rw [List.range'_eq_map_range, List.foldl_map]
    congr 1
    funext state i
    simp only [scanCard, addrFromCard_add table valid]

/-- The word loop over whole words from an aligned `card_cur` to `word_end`
scans each of their cards once, in order. -/
theorem scanWords_eq (positiveAge : 0 < minimumAge) (bytes : 0 < wordBytes) {cardCur wordEnd : Nat}
    (valid : table.biasedBegin ≤ cardCur) (whole : (wordEnd - cardCur) % wordBytes = 0)
    (state : ScanState w) :
    table.scanWords bitmap cards minimumAge wordBytes cardCur wordEnd state =
      (List.range' cardCur (wordEnd - cardCur)).foldl (table.scanCard bitmap cards minimumAge) state := by
  obtain ⟨count, distance⟩ := Nat.dvd_of_mod_eq_zero whole
  have words : (wordEnd - cardCur + wordBytes - 1) / wordBytes = count := by
    rw [distance, show wordBytes * count + wordBytes - 1 = (wordBytes - 1) + count * wordBytes by
      rw [Nat.mul_comm]; omega, Nat.add_mul_div_right _ _ bytes, Nat.div_eq_of_lt (by omega), Nat.zero_add]
  rw [scanWords, words, distance, Nat.mul_comm, ← flatMap_range'_range', List.foldl_flatMap]
  apply List.foldl_ext
  intro state wordCur member
  rw [List.mem_range'] at member
  obtain ⟨i, _, rfl⟩ := member
  exact scanWord_eq table bitmap cards minimumAge wordBytes positiveAge (by omega) state

/-- What `Scan` does once its leading loop has stopped at `stop`: the words
from `stop` to `word_end` and the cards from `word_end` to `card_end`. -/
theorem scan_of_leading_stop (positiveAge : 0 < minimumAge) (bytes : 0 < wordBytes) (scanBegin scanEnd : Nat)
    (memory : TracedMemory (BitVec w)) {stop : Nat}
    (leading : table.scanLeading bitmap cards minimumAge wordBytes (table.cardFromAddr (SpaceBitmap.roundUp scanEnd kCardSize))
      (table.cardFromAddr scanBegin) ⟨[], 0, memory⟩ =
      (stop, (List.range' (table.cardFromAddr scanBegin) (stop - table.cardFromAddr scanBegin)).foldl
        (table.scanCard bitmap cards minimumAge) ⟨[], 0, memory⟩))
    (started : table.cardFromAddr scanBegin ≤ stop) (aligned : stop % wordBytes = 0) :
    let cardBegin := table.cardFromAddr scanBegin
    let cardEnd := table.cardFromAddr (SpaceBitmap.roundUp scanEnd kCardSize)
    let wordEnd := cardEnd - cardEnd % wordBytes
    table.scan bitmap cards wordBytes scanBegin scanEnd minimumAge memory =
      (List.range' wordEnd (cardEnd - wordEnd)).foldl (table.scanCard bitmap cards minimumAge)
        ((List.range' stop (wordEnd - stop)).foldl (table.scanCard bitmap cards minimumAge)
          ((List.range' cardBegin (stop - cardBegin)).foldl (table.scanCard bitmap cards minimumAge) ⟨[], 0, memory⟩)) := by
  intro cardBegin cardEnd wordEnd
  have valid : table.biasedBegin ≤ stop := le_trans (Nat.le_add_right _ _) started
  have whole : (wordEnd - stop) % wordBytes = 0 := by
    have wordAligned : wordEnd % wordBytes = 0 := Nat.sub_mod_eq_zero_of_mod_eq (Nat.mod_mod _ _).symm
    exact Nat.sub_mod_eq_zero_of_mod_eq (wordAligned.trans aligned.symm)
  rw [scan, leading, scanWords_eq table bitmap cards minimumAge wordBytes positiveAge bytes valid whole]

/-- The leading loop scans the cards up to the first one that is aligned or is
`card_end`, and stops there. -/
theorem scanLeading_eq (cardEnd : Nat) {cardCur stop : Nat} (before : cardCur ≤ stop)
    (running : ∀ card, cardCur ≤ card → card < stop → card % wordBytes ≠ 0 ∧ card < cardEnd)
    (stops : stop % wordBytes = 0 ∨ cardEnd ≤ stop) (state : ScanState w) :
    table.scanLeading bitmap cards minimumAge wordBytes cardEnd cardCur state =
      (stop, (List.range' cardCur (stop - cardCur)).foldl (table.scanCard bitmap cards minimumAge) state) := by
  -- Induction on the cards left before `stop`.
  induction distance : stop - cardCur generalizing cardCur state with
  | zero =>
    have atStop : cardCur = stop := by omega
    subst atStop
    rw [scanLeading, if_neg (by omega)]
    rfl
  | succ distance induction =>
    rw [scanLeading, if_pos (running cardCur le_rfl (by omega)),
      induction (by omega) (fun card after below => running card (by omega) below) _ (by omega),
      List.range'_succ, List.foldl_cons]

/-- When the first aligned card is within the range, `Scan` scans each card of
`[card_begin, card_end)` once, in order. -/
theorem scan_eq (positiveAge : 0 < minimumAge) (bytes : 0 < wordBytes) (scanBegin scanEnd : Nat)
    (memory : TracedMemory (BitVec w))
    (reaches : SpaceBitmap.roundUp (table.cardFromAddr scanBegin) wordBytes ≤
      table.cardFromAddr (SpaceBitmap.roundUp scanEnd kCardSize)) :
    let cardBegin := table.cardFromAddr scanBegin
    let cardEnd := table.cardFromAddr (SpaceBitmap.roundUp scanEnd kCardSize)
    table.scan bitmap cards wordBytes scanBegin scanEnd minimumAge memory =
      (List.range' cardBegin (cardEnd - cardBegin)).foldl (table.scanCard bitmap cards minimumAge) ⟨[], 0, memory⟩ := by
  intro cardBegin cardEnd
  change SpaceBitmap.roundUp cardBegin wordBytes ≤ cardEnd at reaches
  -- The leading loop stops at the first aligned card.
  have started : cardBegin ≤ SpaceBitmap.roundUp cardBegin wordBytes := SpaceBitmap.le_roundUp bytes
  have aligned : SpaceBitmap.roundUp cardBegin wordBytes % wordBytes = 0 := SpaceBitmap.roundUp_mod
  have leading := scanLeading_eq table bitmap cards minimumAge wordBytes cardEnd started
    (fun card after below => ⟨fun multiple => absurd (SpaceBitmap.roundUp_le_of_mod bytes multiple after) (by omega),
      by omega⟩) (Or.inl aligned) ⟨[], 0, memory⟩
  -- The three loops scan consecutive runs of cards.
  have wordsWithin : SpaceBitmap.roundUp cardBegin wordBytes ≤ cardEnd - cardEnd % wordBytes :=
    SpaceBitmap.le_sub_mod_of_mod bytes aligned reaches
  rw [scan_of_leading_stop table bitmap cards minimumAge wordBytes positiveAge bytes scanBegin scanEnd memory leading started aligned,
    ← List.foldl_append, ← List.foldl_append, range'_append_range' wordsWithin (Nat.sub_le _ _),
    range'_append_range' started reaches]

/-- When the range's cards all lie before the first aligned card but do not
start aligned, the leading loop scans them all, and the trailing loop then scans
again from the start of the last word, `card_end` rounded down. -/
theorem scan_eq_of_within_word (positiveAge : 0 < minimumAge) (bytes : 0 < wordBytes) (scanBegin scanEnd : Nat)
    (memory : TracedMemory (BitVec w))
    (short : table.cardFromAddr (SpaceBitmap.roundUp scanEnd kCardSize) <
      SpaceBitmap.roundUp (table.cardFromAddr scanBegin) wordBytes)
    (ordered : table.cardFromAddr scanBegin ≤ table.cardFromAddr (SpaceBitmap.roundUp scanEnd kCardSize)) :
    let cardBegin := table.cardFromAddr scanBegin
    let cardEnd := table.cardFromAddr (SpaceBitmap.roundUp scanEnd kCardSize)
    let wordEnd := cardEnd - cardEnd % wordBytes
    table.scan bitmap cards wordBytes scanBegin scanEnd minimumAge memory =
      (List.range' wordEnd (cardEnd - wordEnd)).foldl (table.scanCard bitmap cards minimumAge)
        ((List.range' cardBegin (cardEnd - cardBegin)).foldl (table.scanCard bitmap cards minimumAge) ⟨[], 0, memory⟩) := by
  intro cardBegin cardEnd wordEnd
  change cardEnd < SpaceBitmap.roundUp cardBegin wordBytes at short
  change cardBegin ≤ cardEnd at ordered
  -- No card of the range is aligned, so the leading loop runs to `card_end`.
  have leading := scanLeading_eq table bitmap cards minimumAge wordBytes cardEnd ordered
    (fun card after below => ⟨fun multiple => absurd (SpaceBitmap.roundUp_le_of_mod bytes multiple after) (by omega),
      below⟩) (Or.inr le_rfl) ⟨[], 0, memory⟩
  -- The word loop starts past `word_end` and scans nothing.
  have noWords : (wordEnd - cardEnd) % wordBytes = 0 := by
    rw [show wordEnd - cardEnd = 0 by omega, Nat.zero_mod]
  have valid : table.biasedBegin ≤ cardEnd := le_trans (Nat.le_add_right _ _) ordered
  rw [scan, leading, scanWords_eq table bitmap cards minimumAge wordBytes positiveAge bytes valid noWords,
    show wordEnd - cardEnd = 0 by omega, List.range'_zero, List.foldl_nil]

end Loops

/-! ## The objects a scan visits -/

/-- The card of an address is `card` exactly when the address is among the
`kCardSize` bytes from `AddrFromCard(card)`. -/
theorem cardFromAddr_eq_iff (table : CardTable) {card : Nat} (valid : table.biasedBegin ≤ card) (address : Nat) :
    table.cardFromAddr address = card ↔
      table.addrFromCard card ≤ address ∧ address < table.addrFromCard card + kCardSize := by
  simp only [cardFromAddr, addrFromCard, kCardSize, kCardShift, Nat.shiftRight_eq_div_pow, Nat.shiftLeft_eq,
    Nat.one_mul]
  omega

theorem cardFromAddr_le_cardFromAddr (table : CardTable) {address other : Nat} (ordered : address ≤ other) :
    table.cardFromAddr address ≤ table.cardFromAddr other := by
  simp only [cardFromAddr, Nat.shiftRight_eq_div_pow]
  exact Nat.add_le_add_left (Nat.div_le_div_right ordered) _

theorem addrFromCard_mod (table : CardTable) (card : Nat) : table.addrFromCard card % kCardSize = 0 := by
  simp only [addrFromCard, kCardSize, Nat.shiftLeft_eq, Nat.one_mul]
  exact Nat.mul_mod_left _ _

section Visits

variable (positive : 0 < kAlignment) (wide : 0 < w) (table : CardTable) (bitmap : SpaceBitmap kAlignment w)
  (cardAligned : kCardSize % kAlignment = 0) (heapAligned : bitmap.heapBegin % kCardSize = 0)
include positive wide cardAligned heapAligned

theorem cardVisits_spec (memory : TracedMemory (BitVec w)) {card : Nat} (valid : table.biasedBegin ≤ card)
    (above : bitmap.heapBegin ≤ table.addrFromCard card) :
    (table.cardVisits bitmap memory card).Pairwise (· < ·) ∧
      ∀ address, address ∈ table.cardVisits bitmap memory card ↔
        ∃ k, address = bitmap.heapBegin + k * kAlignment ∧ table.cardFromAddr address = card ∧
          SpaceBitmap.marked memory.cells k = true := by
  -- Both ends of the card are card-aligned, so object-aligned from `heap_begin_`.
  have objectAligned : ∀ address, address % kCardSize = 0 → (address - bitmap.heapBegin) % kAlignment = 0 :=
    fun address cardStart => Nat.mod_eq_zero_of_dvd (Nat.dvd_trans (Nat.dvd_of_mod_eq_zero cardAligned)
      (Nat.dvd_sub (Nat.dvd_of_mod_eq_zero cardStart) (Nat.dvd_of_mod_eq_zero heapAligned)))
  have endAligned : (table.addrFromCard card + kCardSize) % kCardSize = 0 := by
    rw [Nat.add_mod_right, addrFromCard_mod]
  obtain ⟨ordered, exact⟩ := SpaceBitmap.visitMarkedRange_visits_marked positive wide bitmap memory
    (Nat.le_add_right (table.addrFromCard card) kCardSize) above (objectAligned _ (addrFromCard_mod table card))
    (objectAligned _ endAligned)
  refine ⟨ordered, fun address => ?_⟩
  rw [cardVisits, exact, cardFromAddr_eq_iff table valid]
  simp only [and_assoc]

theorem pairwise_flatMap_cardVisits (memory : TracedMemory (BitVec w)) {scanned : List Nat}
    (increasing : scanned.Pairwise (· < ·))
    (valid : ∀ card ∈ scanned, table.biasedBegin ≤ card ∧ bitmap.heapBegin ≤ table.addrFromCard card) :
    (scanned.flatMap (table.cardVisits bitmap memory)).Pairwise (· < ·) := by
  have spec := fun card (member : card ∈ scanned) =>
    cardVisits_spec positive wide table bitmap cardAligned heapAligned memory (valid card member).1 (valid card member).2
  rw [List.pairwise_flatMap]
  refine ⟨fun card member => (spec card member).1, increasing.imp_of_mem fun {first second} firstScanned secondScanned lower => ?_⟩
  -- Each card's objects have that card, and a later address never has an earlier card.
  intro x xVisited y yVisited
  obtain ⟨-, -, xCard, -⟩ := ((spec first firstScanned).2 x).mp xVisited
  obtain ⟨-, -, yCard, -⟩ := ((spec second secondScanned).2 y).mp yVisited
  by_contra notBelow
  have later := cardFromAddr_le_cardFromAddr table (not_lt.mp notBelow)
  omega

theorem mem_flatMap_cardVisits (memory : TracedMemory (BitVec w)) {scanned : List Nat}
    (valid : ∀ card ∈ scanned, table.biasedBegin ≤ card ∧ bitmap.heapBegin ≤ table.addrFromCard card)
    (address : Nat) :
    address ∈ scanned.flatMap (table.cardVisits bitmap memory) ↔
      ∃ k, address = bitmap.heapBegin + k * kAlignment ∧ SpaceBitmap.marked memory.cells k = true ∧
        table.cardFromAddr address ∈ scanned := by
  have spec := fun card (member : card ∈ scanned) =>
    cardVisits_spec positive wide table bitmap cardAligned heapAligned memory (valid card member).1 (valid card member).2
  rw [List.mem_flatMap]
  constructor
  · rintro ⟨card, member, visited⟩
    obtain ⟨k, rfl, cardOf, isMarked⟩ := ((spec card member).2 _).mp visited
    exact ⟨k, rfl, isMarked, cardOf ▸ member⟩
  · rintro ⟨k, rfl, isMarked, member⟩
    exact ⟨_, member, ((spec _ member).2 _).mpr ⟨k, rfl, rfl, isMarked⟩⟩

/-- When the range reaches the first aligned card, `Scan` visits, in increasing
address order and once each, the marked objects whose card in
`[card_begin, card_end)` is at least `minimum_age` old, and returns the number of
those cards. -/
theorem scan_visits_marked_objects (cards : Nat → UInt8) {minimumAge : UInt8} (positiveAge : 0 < minimumAge)
    {wordBytes : Nat} (bytes : 0 < wordBytes) {scanBegin : Nat} (scanEnd : Nat) (memory : TracedMemory (BitVec w))
    (inside : bitmap.heapBegin ≤ scanBegin)
    (reaches : SpaceBitmap.roundUp (table.cardFromAddr scanBegin) wordBytes ≤
      table.cardFromAddr (SpaceBitmap.roundUp scanEnd kCardSize)) :
    let cardBegin := table.cardFromAddr scanBegin
    let cardEnd := table.cardFromAddr (SpaceBitmap.roundUp scanEnd kCardSize)
    let final := table.scan bitmap cards wordBytes scanBegin scanEnd minimumAge memory
    final.visited.Pairwise (· < ·) ∧
      (∀ address, address ∈ final.visited ↔
        ∃ k, address = bitmap.heapBegin + k * kAlignment ∧ SpaceBitmap.marked memory.cells k = true ∧
          cardBegin ≤ table.cardFromAddr address ∧ table.cardFromAddr address < cardEnd ∧
          cards (table.cardFromAddr address) ≥ minimumAge) ∧
      final.cardsScanned = ((List.range' cardBegin (cardEnd - cardBegin)).filter fun card => cards card ≥ minimumAge).length := by
  intro cardBegin cardEnd final
  obtain ⟨visited, counted, -⟩ := foldl_scanCard wide table bitmap cards minimumAge
    (List.range' cardBegin (cardEnd - cardBegin)) ⟨[], 0, memory⟩
  have scanned : final = (List.range' cardBegin (cardEnd - cardBegin)).foldl (table.scanCard bitmap cards minimumAge)
      ⟨[], 0, memory⟩ := scan_eq table bitmap cards minimumAge wordBytes positiveAge bytes scanBegin scanEnd memory reaches
  -- Every card from `card_begin` on is a card of the heap, from `heap_begin_` on.
  have valid : ∀ card ∈ (List.range' cardBegin (cardEnd - cardBegin)).filter fun card => cards card ≥ minimumAge,
      table.biasedBegin ≤ card ∧ bitmap.heapBegin ≤ table.addrFromCard card := by
    intro card dirty
    have after := (List.mem_range'_1.mp (List.mem_filter.mp dirty).1).1
    have aligned := heapAligned
    refine ⟨le_trans (Nat.le_add_right _ _) after, ?_⟩
    simp only [cardBegin, cardFromAddr, addrFromCard, kCardSize, kCardShift, Nat.shiftRight_eq_div_pow,
      Nat.shiftLeft_eq, Nat.one_mul] at after aligned ⊢
    omega
  rw [scanned]
  simp only [List.nil_append, Nat.zero_add] at visited counted
  refine ⟨?_, fun address => ?_, counted⟩
  · rw [visited]
    exact pairwise_flatMap_cardVisits positive wide table bitmap cardAligned heapAligned memory
      ((List.pairwise_lt_range' 1).filter _) valid
  · rw [visited, mem_flatMap_cardVisits positive wide table bitmap cardAligned heapAligned memory valid]
    simp only [List.mem_filter, List.mem_range'_1, decide_eq_true_eq]
    constructor
    · rintro ⟨k, placed, isMarked, ⟨after, before⟩, old⟩
      exact ⟨k, placed, isMarked, after, by omega, old⟩
    · rintro ⟨k, placed, isMarked, after, before, old⟩
      exact ⟨k, placed, isMarked, ⟨after, by omega⟩, old⟩

end Visits

/-- Every other card old enough, and objects marked at the start of the heap,
in the middle of the first card and in the second card, scanned over the first
twelve cards. -/
theorem scan_visits_marked_objects_of_alternate_cards :
    let cards : Nat → UInt8 := fun card => if card % 2 = 0 then 0x70 else 0x10
    let memory : TracedMemory (BitVec 64) := ⟨fun i => if i = 0 then 1 else if i = 1 then 4 else
      if i = 2 then 1 else 0, []⟩
    (0 < 8 ∧ 0 < 64 ∧ kCardSize % 8 = 0 ∧ 0x10000000 % kCardSize = 0 ∧ (0 : UInt8) < 0x70 ∧ 0 < 8 ∧
      0x10000000 ≤ 0x10000000 ∧
      SpaceBitmap.roundUp ((⟨0x70⟩ : CardTable).cardFromAddr 0x10000000) 8 ≤
        (⟨0x70⟩ : CardTable).cardFromAddr (SpaceBitmap.roundUp 0x10003000 kCardSize)) ∧
    let cardBegin := (⟨0x70⟩ : CardTable).cardFromAddr 0x10000000
    let cardEnd := (⟨0x70⟩ : CardTable).cardFromAddr (SpaceBitmap.roundUp 0x10003000 kCardSize)
    let final := (⟨0x70⟩ : CardTable).scan (SpaceBitmap.create 0x10000000 0x8000 : SpaceBitmap 8 64) cards 8
      0x10000000 0x10003000 0x70 memory
    final.visited.Pairwise (· < ·) ∧
      (∀ address, address ∈ final.visited ↔
        ∃ k, address = 0x10000000 + k * 8 ∧ SpaceBitmap.marked memory.cells k = true ∧
          cardBegin ≤ (⟨0x70⟩ : CardTable).cardFromAddr address ∧
          (⟨0x70⟩ : CardTable).cardFromAddr address < cardEnd ∧
          cards ((⟨0x70⟩ : CardTable).cardFromAddr address) ≥ 0x70) ∧
      final.cardsScanned = ((List.range' cardBegin (cardEnd - cardBegin)).filter fun card => cards card ≥ 0x70).length :=
  ⟨by decide, scan_visits_marked_objects (by decide) (by decide) ⟨0x70⟩ (SpaceBitmap.create 0x10000000 0x8000)
    (by decide) (by decide) _ (by decide) (by decide) 0x10003000 _ (by decide) (by decide)⟩

/-- On a 32 KiB heap of 8-byte objects at 0x10000000, with 64-bit words,
`VisitMarkedRange(HeapLimit(), HeapLimit())` reads bitmap word 64 of a bitmap of
64 words, and `VisitMarkedRange(heap_begin + 1, heap_begin + 8)` visits the
marked object at `heap_begin`, before its range; and with `biased_begin_` 0x70,
every card 0x70 old and `minimum_age` 0x70, `Scan` of
`[heap_begin + 9 KiB, heap_begin + 12 KiB)`, three cards inside one word of cards
that starts before them, scans seven cards: the three, then again the four from
that word's start. -/
theorem scan_and_visitMarkedRange_overrun :
    let bitmap : SpaceBitmap 8 64 := SpaceBitmap.create 0x10000000 0x8000
    let table : CardTable := ⟨0x70⟩
    let cards : Nat → UInt8 := fun _ => 0x70
    let memory : TracedMemory (BitVec 64) := ⟨fun _ => 0, []⟩
    bitmap.wordCount = 64 ∧ 64 ∈ (bitmap.visitMarkedRange (0x10000000 + 0x8000) (0x10000000 + 0x8000) memory).2.reads ∧
      0x10000000 ∈ (bitmap.visitMarkedRange (0x10000000 + 1) (0x10000000 + 8) ⟨fun i => if i = 0 then 1 else 0, []⟩).1 ∧
      ((List.range' (table.cardFromAddr 0x10002400)
        (table.cardFromAddr (SpaceBitmap.roundUp 0x10003000 kCardSize) - table.cardFromAddr 0x10002400)).filter
          fun card => cards card ≥ 0x70).length = 3 ∧
      (table.scan bitmap cards 8 0x10002400 0x10003000 0x70 memory).cardsScanned = 7 := by
  -- The kernel evaluates the card numbers of a closed table, not of a let-bound one.
  dsimp only
  obtain ⟨size, past⟩ :=
    @SpaceBitmap.visitMarkedRange_from_limit_reads_past_bitmap 8 64 (by decide) (by decide) 0x10000000 64 ⟨fun _ => 0, []⟩
  rw [show 64 * (8 * 64) = 0x8000 from rfl] at size past
  have before := @SpaceBitmap.visitMarkedRange_visits_before_begin 8 64 (by decide) (SpaceBitmap.create 0x10000000 0x8000)
    ⟨fun i => if i = 0 then 1 else 0, []⟩ (0x10000000 + 1) (0x10000000 + 8) (by decide) (by decide)
  refine ⟨size, past, before, by decide, ?_⟩
  -- The leading loop scans cards 0x40079 to 0x4007b, the trailing loop 0x40078 to 0x4007b.
  rw [scan_eq_of_within_word ⟨0x70⟩ (SpaceBitmap.create 0x10000000 0x8000) (fun _ => 0x70) 0x70 8 (by decide) (by decide)
      0x10002400 0x10003000 ⟨fun _ => 0, []⟩ (by decide) (by decide),
    show (⟨0x70⟩ : CardTable).cardFromAddr 0x10002400 = 0x40079 from rfl,
    show (⟨0x70⟩ : CardTable).cardFromAddr (SpaceBitmap.roundUp 0x10003000 kCardSize) = 0x4007c from rfl]
  simp only [Nat.reduceMod, Nat.reduceSub]
  rw [(foldl_scanCard (by decide) _ _ _ _ (List.range' 0x40078 4) _).2.1,
    (foldl_scanCard (by decide) _ _ _ _ (List.range' 0x40079 3) _).2.1]
  decide

end CardTable

end ArtRuntime.Runtime.Accounting
