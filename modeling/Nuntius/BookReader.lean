import Nuntius.CobCommon
import Nuntius.ConsolidatedBook

/-!
# Reading the fresh books of an asset

The reader has no clock of its own: the reference time is the upper median of the timestamps
of the candidate books, and a book counts if it is within five seconds of it. A minority of
venues can therefore neither move the reference out of the range of the others nor age their
books out.
-/

namespace Nuntius.ConsolidatedBook
open CobCommon OrderStatistics

variable {F : Type} [F64 F]

/-! ### The reader -/

def btcVenues : List String :=
  ["binance", "bybit", "okx", "kucoin", "mexc", "kraken", "coinbase", "cryptocom", "htx", "gate",
    "gateio", "bingx", "bitmart", "whitebit", "poloniex", "ascendex", "xt", "phemex", "lbank",
    "weex", "orangex", "bitfinex", "biconomy", "coinstore", "coinw", "bitrue"]

/-- The price tick of a venue for a base asset. A match on the venue whose arms agree is
written as its value. -/
def tickSizeFor (source baseAsset : String) : ℚ :=
  if baseAsset = "BTC" ∧ source ∈ btcVenues then 0.01
  else if baseAsset = "BTC" ∧ source = "bitget" then 0.1
  else if baseAsset = "ETH" then 0.01
  else if baseAsset = "KAS" then 0.00001
  else if baseAsset = "USDC" then 0.0001
  else if baseAsset = "TAO" then
    if source ∈ ["binance", "gate", "gateio", "xt", "lbank", "whitebit", "coinw"] then 0.1
    else 0.01
  else if source ∈ ["bybit", "okx", "bitget", "kucoin"] then 0.00001
  else 0.000001

def maxBookAgeMs : ℤ := 5000

/-- The upper median of the positive timestamps. -/
def referenceNowMs (timestamps : List I64) : Option I64 :=
  if timestamps.isEmpty then none
  else
    let v := timestamps.filter (fun t => 0 < t.val)
    if v.isEmpty then none else (sorted v)[v.length / 2]?

def freshBookAgeMs (referenceMs bookTsMs : I64) : Bool :=
  decide ((referenceMs.sub bookTsMs).abs.val ≤ maxBookAgeMs)

section Reader
variable (toUppercase : String → String) (symbolFilter : String)

/-- A book of the base asset with both sides and a timestamp. -/
def isCandidate (book : OrderBookData F) : Bool :=
  extractBaseAsset toUppercase book.symbol == symbolFilter && !book.bids.isEmpty &&
    !book.asks.isEmpty && decide (0 < book.exchangeTimestamp.val)

def levelOf (l : PriceLevel F) : Level F := ⟨l.price, l.quantity⟩

def snapshotOf (book : OrderBookData F) : OrderBookSnapshot F where
  source := book.exchangeId
  baseAsset := extractBaseAsset toUppercase book.symbol
  bids := book.bids.map levelOf
  asks := book.asks.map levelOf
  tickSize := F64.lit (tickSizeFor book.exchangeId (extractBaseAsset toUppercase book.symbol))
  exchangeTimestampMs := book.exchangeTimestamp.val

def candidateTs (books : List (OrderBookData F)) : List I64 :=
  (books.filter (isCandidate toUppercase symbolFilter)).map OrderBookData.exchangeTimestamp

/-- The usable books before they are sorted by source. -/
def freshSnapshots (referenceMs : I64) (books : List (OrderBookData F)) :
    List (OrderBookSnapshot F) :=
  ((books.filter (fun b => isCandidate toUppercase symbolFilter b &&
    freshBookAgeMs referenceMs b.exchangeTimestamp)).map (snapshotOf toUppercase)).filter
      isBookUsable

/-- `books` are the values of the shared map in its iteration order. -/
def readBooksFiltered (books : List (OrderBookData F)) : List (OrderBookSnapshot F) :=
  match referenceNowMs (candidateTs toUppercase symbolFilter books) with
  | none => []
  | some referenceMs =>
    (freshSnapshots toUppercase symbolFilter referenceMs books).insertionSort
      (fun a b => a.source ≤ b.source)

end Reader

/-! ### The reference time -/

/-- On positive timestamps the reference is the upper median of them all. -/
theorem referenceNowMs_of_pos {timestamps : List I64} (hpos : ∀ t ∈ timestamps, 0 < t.val) :
    referenceNowMs timestamps = (sorted timestamps)[timestamps.length / 2]? := by
  have hall : timestamps.filter (fun t => decide (0 < t.val)) = timestamps := by
    rw [List.filter_eq_self]
    intro t ht
    simpa using hpos t ht
  unfold referenceNowMs
  rw [hall]
  cases timestamps with
  | nil => rfl
  | cons t rest => rfl

/-- A strict majority within `[lo, hi]` holds the reference there. -/
theorem referenceNowMs_of_majority {timestamps : List I64} (hpos : ∀ t ∈ timestamps, 0 < t.val)
    {lo hi : I64} (h : Majority timestamps lo hi) :
    ∃ ref ∈ timestamps, referenceNowMs timestamps = some ref ∧ lo ≤ ref ∧ ref ≤ hi := by
  have hlt : timestamps.length / 2 < (sorted timestamps).length := by
    have hne : 0 < timestamps.length := by
      unfold Majority at h
      omega
    rw [length_sorted]
    omega
  refine ⟨(sorted timestamps)[timestamps.length / 2], mem_sorted.mp (List.getElem_mem hlt), ?_, ?_⟩
  · rw [referenceNowMs_of_pos hpos, List.getElem?_eq_getElem hlt]
  · exact h.getElem_mem hlt (by omega) (by omega)

/-! ### Ages -/

/-- Positive timestamps are less than `2 ^ 63` apart. -/
theorem sub_fits {a b : I64} (ha : 0 < a.val) (hb : 0 < b.val) :
    i64Min ≤ a.val - b.val ∧ |a.val - b.val| ≤ i64Max := by
  have ha' := a.upper
  have hb' := b.upper
  refine ⟨?_, ?_⟩
  · unfold i64Min
    unfold i64Max at hb'
    omega
  · rw [abs_le]
    constructor <;> omega

theorem freshBookAgeMs_iff {a b : I64} (ha : 0 < a.val) (hb : 0 < b.val) :
    freshBookAgeMs a b = true ↔ |a.val - b.val| ≤ 5000 := by
  obtain ⟨hmin, hmax⟩ := sub_fits ha hb
  have hsub : (a.sub b).val = a.val - b.val :=
    I64.wrap_val hmin ((le_abs_self _).trans hmax)
  have habs : (a.sub b).abs.val = |a.val - b.val| := by
    rw [I64.abs, hsub]
    have hlow : i64Min ≤ |a.val - b.val| := le_trans (by decide) (abs_nonneg _)
    exact I64.wrap_val hlow hmax
  rw [freshBookAgeMs, habs, decide_eq_true_iff]
  rfl

/-! ### What the reader returns -/

section Returned
variable {toUppercase : String → String} {symbolFilter : String} {books : List (OrderBookData F)}

/-- The books the reader considers. -/
def candidates (toUppercase : String → String) (symbolFilter : String)
    (books : List (OrderBookData F)) : List (OrderBookData F) :=
  books.filter (isCandidate toUppercase symbolFilter)

omit [F64 F] in
theorem pos_of_mem_candidates {b : OrderBookData F}
    (hb : b ∈ candidates toUppercase symbolFilter books) : 0 < b.exchangeTimestamp.val := by
  have h := (List.mem_filter.mp hb).2
  simp only [isCandidate, Bool.and_eq_true, decide_eq_true_eq] at h
  exact h.2

omit [F64 F] in
theorem candidateTs_pos : ∀ t ∈ candidateTs toUppercase symbolFilter books, 0 < t.val := by
  intro t ht
  obtain ⟨b, hb, rfl⟩ := List.mem_map.mp ht
  exact pos_of_mem_candidates hb

theorem freshSnapshots_eq (referenceMs : I64) :
    freshSnapshots toUppercase symbolFilter referenceMs books =
      (((candidates toUppercase symbolFilter books).filter
        (fun b => freshBookAgeMs referenceMs b.exchangeTimestamp)).map
          (snapshotOf toUppercase)).filter isBookUsable := by
  unfold freshSnapshots candidates
  rw [List.filter_filter]
  simp only [Bool.and_comm]

theorem readBooksFiltered_perm {referenceMs : I64}
    (h : referenceNowMs (candidateTs toUppercase symbolFilter books) = some referenceMs) :
    (readBooksFiltered toUppercase symbolFilter books).Perm
      (freshSnapshots toUppercase symbolFilter referenceMs books) := by
  unfold readBooksFiltered
  rw [h]
  exact List.perm_insertionSort _ _

/-- Every returned book is of a candidate that is fresh. -/
theorem fresh_of_returned {referenceMs : I64} (href : 0 < referenceMs.val)
    (h : referenceNowMs (candidateTs toUppercase symbolFilter books) = some referenceMs)
    {s : OrderBookSnapshot F} (hs : s ∈ readBooksFiltered toUppercase symbolFilter books) :
    |referenceMs.val - s.exchangeTimestampMs| ≤ 5000 := by
  have hmem := (readBooksFiltered_perm h).mem_iff.mp hs
  rw [freshSnapshots_eq] at hmem
  obtain ⟨b, hb, rfl⟩ := List.mem_map.mp (List.mem_filter.mp hmem).1
  obtain ⟨hcandidate, hfresh⟩ := List.mem_filter.mp hb
  exact (freshBookAgeMs_iff href (pos_of_mem_candidates hcandidate)).mp hfresh

/-- Fresh candidates that are usable are all returned. -/
theorem returned_of_fresh {referenceMs : I64} {part : List (OrderBookData F)}
    (h : referenceNowMs (candidateTs toUppercase symbolFilter books) = some referenceMs)
    (hsub : part.Sublist (candidates toUppercase symbolFilter books))
    (hfresh : ∀ b ∈ part, freshBookAgeMs referenceMs b.exchangeTimestamp = true) :
    ((part.map (snapshotOf toUppercase)).filter isBookUsable).Subperm
      (readBooksFiltered toUppercase symbolFilter books) := by
  have hself : part.filter (fun b => freshBookAgeMs referenceMs b.exchangeTimestamp) = part :=
    List.filter_eq_self.mpr hfresh
  have hpart : ((part.map (snapshotOf toUppercase)).filter isBookUsable).Sublist
      (freshSnapshots toUppercase symbolFilter referenceMs books) := by
    rw [freshSnapshots_eq, ← hself]
    exact ((hsub.filter _).map _).filter _
  exact hpart.subperm.trans (readBooksFiltered_perm h).symm.subperm

/-- If a strict majority of the candidates agree within five seconds, the reference lies between
their timestamps, each of them that is usable is returned, every returned book is within five
seconds of the reference, and no subtraction overflows. -/
theorem majority_keeps_books {honest : List (OrderBookData F)}
    (hsub : honest.Sublist (candidates toUppercase symbolFilter books))
    (hmore : (candidates toUppercase symbolFilter books).length < 2 * honest.length)
    (hagree : ∀ b ∈ honest, ∀ b' ∈ honest,
      |b.exchangeTimestamp.val - b'.exchangeTimestamp.val| ≤ 5000) :
    ∃ ref, referenceNowMs (candidateTs toUppercase symbolFilter books) = some ref ∧
      (∃ b ∈ honest, b.exchangeTimestamp.val ≤ ref.val) ∧
      (∃ b ∈ honest, ref.val ≤ b.exchangeTimestamp.val) ∧
      ((honest.map (snapshotOf toUppercase)).filter isBookUsable).Subperm
        (readBooksFiltered toUppercase symbolFilter books) ∧
      (∀ s ∈ readBooksFiltered toUppercase symbolFilter books,
        |ref.val - s.exchangeTimestampMs| ≤ 5000) ∧
      ∀ b ∈ candidates toUppercase symbolFilter books,
        i64Min ≤ ref.val - b.exchangeTimestamp.val ∧
          |ref.val - b.exchangeTimestamp.val| ≤ i64Max := by
  obtain ⟨first, hfirst, last, hlast, hrange, hkept⟩ :=
    exists_majority OrderBookData.exchangeTimestamp hmore
  have hmajority : Majority (candidateTs toUppercase symbolFilter books) first.exchangeTimestamp
      last.exchangeTimestamp := hkept _ hsub hmore
  obtain ⟨ref, hmem, href, hlow, hhigh⟩ := referenceNowMs_of_majority candidateTs_pos hmajority
  have hpos := candidateTs_pos ref hmem
  refine ⟨ref, href, ⟨first, hfirst, hlow⟩, ⟨last, hlast, hhigh⟩, ?_, ?_, ?_⟩
  · apply returned_of_fresh href hsub
    intro b hb
    rw [freshBookAgeMs_iff hpos (pos_of_mem_candidates (hsub.subset hb))]
    -- the reference and the book both lie between the first and the last honest timestamp
    have hwidth := abs_le.mp (hagree last hlast first hfirst)
    obtain ⟨hb₁, hb₂⟩ := hrange b hb
    rw [I64.le_iff] at hb₁ hb₂ hlow hhigh
    rw [abs_le]
    constructor <;> omega
  · intro s hs
    exact fresh_of_returned hpos href hs
  · intro b hb
    exact sub_fits hpos (pos_of_mem_candidates hb)

end Returned

def stampedBook (venue : String) (ts : ℤ) : OrderBookData ExtRat where
  exchangeId := venue
  symbol := "KAS_USDT"
  exchangeTimestamp := I64.wrap ts
  latency := I64.wrap 0
  bids := [⟨.fin 1, .fin 1⟩, ⟨.fin 0.9999, .fin 1⟩, ⟨.fin 0.9998, .fin 1⟩]
  asks := [⟨.fin 1.0001, .fin 1⟩, ⟨.fin 1.0002, .fin 1⟩, ⟨.fin 1.0003, .fin 1⟩]

def freshPair : List (OrderBookData ExtRat) :=
  [stampedBook "a" 1700000000000, stampedBook "b" 1700000005000]

/-- Two books five seconds apart and one from the far future. -/
def strayedBooks : List (OrderBookData ExtRat) :=
  [stampedBook "a" 1700000000000, stampedBook "c" 9000000000000000000,
    stampedBook "b" 1700000005000]

theorem majority_keeps_books_two :
    ∃ ref, referenceNowMs (candidateTs id "KAS" strayedBooks) = some ref ∧
      ((freshPair.map (snapshotOf id)).filter isBookUsable).Subperm
        (readBooksFiltered id "KAS" strayedBooks) := by
  obtain ⟨ref, href, -, -, hkept, -⟩ := @majority_keeps_books ExtRat _ id "KAS" strayedBooks
    freshPair (by decide +kernel) (by decide +kernel) (by decide +kernel)
  exact ⟨ref, href, hkept⟩

end Nuntius.ConsolidatedBook
