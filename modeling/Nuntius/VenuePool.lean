import Nuntius.VenueGate

/-!
# Pools of books with one odd venue

A pool of exact books from distinct venues in which all but one book has its tops inside
`[L, U]`. Changing only quantities keeps everything the gate and the grid read.
-/

namespace Nuntius.ConsolidatedBook
open Aggregator OrderStatistics

/-- The same book with other quantities. -/
structure SameQuotes (b b' : OrderBookSnapshot ℚ) : Prop where
  source : b'.source = b.source
  baseAsset : b'.baseAsset = b.baseAsset
  bids : b'.bids.map Level.price = b.bids.map Level.price
  asks : b'.asks.map Level.price = b.asks.map Level.price
  tickSize : b'.tickSize = b.tickSize
  timestamp : b'.exchangeTimestampMs = b.exchangeTimestampMs

namespace SameQuotes
variable {b b' : OrderBookSnapshot ℚ}

theorem symm (h : SameQuotes b b') : SameQuotes b' b :=
  ⟨h.source.symm, h.baseAsset.symm, h.bids.symm, h.asks.symm, h.tickSize.symm, h.timestamp.symm⟩

theorem bestBid (h : SameQuotes b b') : b'.bestBid = b.bestBid := by
  simp only [OrderBookSnapshot.bestBid, ← List.head?_map, h.bids]

theorem bestAsk (h : SameQuotes b b') : b'.bestAsk = b.bestAsk := by
  simp only [OrderBookSnapshot.bestAsk, ← List.head?_map, h.asks]

theorem mid (h : SameQuotes b b') : b'.mid = b.mid := by
  simp only [OrderBookSnapshot.mid, h.bestBid, h.bestAsk]

theorem tickUnits (h : SameQuotes b b') : tickUnits b' = tickUnits b := by
  simp only [ConsolidatedBook.tickUnits, h.tickSize]

theorem level (h : SameQuotes b b') {l : Level ℚ} (hl : l ∈ b'.levels) :
    ∃ l₀ ∈ b.levels, l₀.price = l.price := by
  have hprices : b'.levels.map Level.price = b.levels.map Level.price := by
    simp [OrderBookSnapshot.levels, h.bids, h.asks]
  exact List.mem_map.mp (hprices ▸ List.mem_map_of_mem hl)

/-- The sanity filter reads prices and depths only. -/
theorem isBookUsable (h : SameQuotes b b') :
    isBookUsable b'.lift = isBookUsable b.lift := by
  have hbids := h.bids
  have hasks := h.asks
  have hdepth : b'.bids.length = b.bids.length := by simpa using congrArg List.length hbids
  have hdepth' : b'.asks.length = b.asks.length := by simpa using congrArg List.length hasks
  unfold ConsolidatedBook.isBookUsable
  simp only [OrderBookSnapshot.lift, List.length_map, hdepth, hdepth', h.baseAsset]
  cases hb : b.bids <;> cases hb' : b'.bids <;> simp [hb, hb'] at hbids ⊢
  cases ha : b.asks <;> cases ha' : b'.asks <;> simp [ha, ha'] at hasks ⊢
  simp [Level.lift, hbids.1, hasks.1]

theorem exactBook (h : SameQuotes b b') (hb : ExactBook b) (hq : ∀ l ∈ b'.levels, 0 < l.quantity) :
    ExactBook b' where
  usable := h.isBookUsable.trans hb.usable
  bids_sorted := by
    have hsorted : (b.bids.map Level.price).Pairwise (fun p q => q ≤ p) :=
      List.pairwise_map.mpr hb.bids_sorted
    rw [← h.bids] at hsorted
    exact List.pairwise_map.mp hsorted
  asks_sorted := by
    have hsorted : (b.asks.map Level.price).Pairwise (fun p q => p ≤ q) :=
      List.pairwise_map.mpr hb.asks_sorted
    rw [← h.asks] at hsorted
    exact List.pairwise_map.mp hsorted
  quantity_pos := hq
  dated := h.timestamp ▸ hb.dated
  tick := h.tickSize ▸ hb.tick
  on_tick l hl := by
    obtain ⟨l₀, hl₀, hp⟩ := h.level hl
    rw [← hp, h.tickSize]
    exact hb.on_tick l₀ hl₀

end SameQuotes

/-- All books, with `odd` among them. -/
def pool (before : List (OrderBookSnapshot ℚ)) (odd : OrderBookSnapshot ℚ)
    (after : List (OrderBookSnapshot ℚ)) : List (OrderBookSnapshot ℚ) := before ++ odd :: after

/-- At least three exact books from distinct venues, all but `odd` with both tops in `[L, U]`. -/
structure VenuePool (before : List (OrderBookSnapshot ℚ)) (odd : OrderBookSnapshot ℚ)
    (after : List (OrderBookSnapshot ℚ)) (L U : ℚ) : Prop where
  count : 3 ≤ (pool before odd after).length
  exact_books : ∀ b ∈ pool before odd after, ExactBook b
  distinct : ((pool before odd after).map OrderBookSnapshot.source).Nodup
  honest : ∀ b ∈ before ++ after, b.bestBid ∈ Set.Icc L U ∧ b.bestAsk ∈ Set.Icc L U

section Requantified
variable {before after : List (OrderBookSnapshot ℚ)} {odd odd' : OrderBookSnapshot ℚ}

theorem mem_pool {b : OrderBookSnapshot ℚ} :
    b ∈ pool before odd after ↔ b = odd ∨ b ∈ before ++ after := by
  simp only [pool, List.mem_append, List.mem_cons]
  tauto

theorem map_pool {α : Type} (f : OrderBookSnapshot ℚ → α) (h : f odd' = f odd) :
    (pool before odd' after).map f = (pool before odd after).map f := by
  simp [pool, h]

theorem gridUnits_pool (h : SameQuotes odd odd') :
    gridUnits (pool before odd' after) = gridUnits (pool before odd after) := by
  have hfold : ∀ books : List (OrderBookSnapshot ℚ),
      gridUnits books = (books.map tickUnits).foldl Nat.gcd 0 := by
    intro books
    rw [gridUnits, List.foldl_map]
  rw [hfold, hfold, map_pool _ h.tickUnits]

theorem grid_pool (h : SameQuotes odd odd') :
    grid (pool before odd' after) = grid (pool before odd after) := by
  rw [grid, gridUnits_pool h, grid]

theorem KeysFit.requantify (hfit : KeysFit (pool before odd after)) (h : SameQuotes odd odd') :
    KeysFit (pool before odd' after) where
  ticks b hb := by
    rcases mem_pool.mp hb with rfl | hb
    · rw [h.tickUnits]
      exact hfit.ticks odd (mem_pool.mpr (.inl rfl))
    · exact hfit.ticks b (mem_pool.mpr (.inr hb))
  keys b hb l hl := by
    rw [grid_pool h]
    rcases mem_pool.mp hb with rfl | hb
    · obtain ⟨l₀, hl₀, hp⟩ := h.level hl
      rw [← hp]
      exact hfit.keys odd (mem_pool.mpr (.inl rfl)) l₀ hl₀
    · exact hfit.keys b (mem_pool.mpr (.inr hb)) l hl

theorem VenuePool.requantify {L U : ℚ} (hpool : VenuePool before odd after L U)
    (h : SameQuotes odd odd') (hq : ∀ l ∈ odd'.levels, 0 < l.quantity) :
    VenuePool before odd' after L U where
  count := by simpa [pool] using hpool.count
  exact_books b hb := by
    rcases mem_pool.mp hb with rfl | hb
    · exact h.exactBook (hpool.exact_books odd (mem_pool.mpr (.inl rfl))) hq
    · exact hpool.exact_books b (mem_pool.mpr (.inr hb))
  distinct := by
    rw [map_pool _ h.source]
    exact hpool.distinct
  honest := hpool.honest

/-- Both sides at once: `side` is the bids or the asks. -/
theorem quoted_requantify {side : OrderBookSnapshot ℚ → List (Level ℚ)}
    (h : (side odd').map Level.price = (side odd).map Level.price) {p : ℚ}
    (hp : ∃ b ∈ pool before odd' after, ∃ l ∈ side b, l.price = p) :
    ∃ b ∈ pool before odd after, ∃ l ∈ side b, l.price = p := by
  obtain ⟨b, hb, l, hl, rfl⟩ := hp
  rcases mem_pool.mp hb with rfl | hb
  · obtain ⟨l₀, hl₀, hp⟩ := List.mem_map.mp (h ▸ List.mem_map_of_mem hl)
    exact ⟨odd, mem_pool.mpr (.inl rfl), l₀, hl₀, hp⟩
  · exact ⟨b, mem_pool.mpr (.inr hb), l, hl, rfl⟩

theorem QuotedBid.requantify (h : SameQuotes odd odd') {p : ℚ}
    (hp : QuotedBid (pool before odd' after) p) : QuotedBid (pool before odd after) p :=
  ⟨hp.1, quoted_requantify h.bids hp.2⟩

theorem QuotedAsk.requantify (h : SameQuotes odd odd') {p : ℚ}
    (hp : QuotedAsk (pool before odd' after) p) : QuotedAsk (pool before odd after) p :=
  ⟨hp.1, quoted_requantify h.asks hp.2⟩

end Requantified

section Tops
variable {before after : List (OrderBookSnapshot ℚ)} {odd : OrderBookSnapshot ℚ} {L U : ℚ}
variable (hpool : VenuePool before odd after L U)
include hpool

theorem VenuePool.odd_exact : ExactBook odd := hpool.exact_books odd (mem_pool.mpr (.inl rfl))

theorem VenuePool.length_lt : (pool before odd after).length < 2 * (before ++ after).length := by
  have hcount := hpool.count
  simp only [pool, List.length_append, List.length_cons] at hcount ⊢
  omega

theorem VenuePool.exists_honest : ∃ b, b ∈ before ++ after := by
  have hlt := hpool.length_lt
  exact List.exists_mem_of_length_pos (by omega)

theorem VenuePool.le : L ≤ U := by
  obtain ⟨b, hb⟩ := hpool.exists_honest
  exact (hpool.honest b hb).1.1.trans (hpool.honest b hb).1.2

/-- The tops of any book of the pool lie in the hull of `[L, U]` and the odd book's own. -/
theorem VenuePool.tops {b : OrderBookSnapshot ℚ} (hb : b ∈ pool before odd after) :
    (min L odd.bestBid ≤ b.bestBid ∧ b.bestBid ≤ max U odd.bestBid) ∧
      min L odd.bestAsk ≤ b.bestAsk ∧ b.bestAsk ≤ max U odd.bestAsk := by
  rcases mem_pool.mp hb with rfl | hb
  · exact ⟨⟨min_le_right _ _, le_max_right _ _⟩, min_le_right _ _, le_max_right _ _⟩
  · obtain ⟨⟨hbl, hbu⟩, hal, hau⟩ := hpool.honest b hb
    exact ⟨⟨min_le_of_left_le hbl, le_max_of_le_left hbu⟩, min_le_of_left_le hal,
      le_max_of_le_left hau⟩

omit hpool in
theorem sublist_pool : (before ++ after).Sublist (pool before odd after) :=
  (List.sublist_cons_self odd after).append_left before

/-- One book out of at least three is a minority. -/
theorem VenuePool.majority : Majority ((pool before odd after).map OrderBookSnapshot.mid) L U := by
  apply Majority.of_sublist (sublist_pool.map _)
  · rw [List.length_map, List.length_map]
    exact hpool.length_lt
  · intro m hm
    obtain ⟨b, hb, rfl⟩ := List.mem_map.mp hm
    obtain ⟨⟨hbl, hbu⟩, hal, hau⟩ := hpool.honest b hb
    unfold OrderBookSnapshot.mid
    constructor <;> linarith

end Tops

/-! ### Books in cents -/

/-- A `KAS` book with a tick of one cent; levels are pairs of cents and quantity. -/
def centBook (source : String) (bids asks : List (ℤ × ℚ)) : OrderBookSnapshot ℚ where
  source := source
  baseAsset := "KAS"
  bids := bids.map fun l => ⟨l.1 / 100, l.2⟩
  asks := asks.map fun l => ⟨l.1 / 100, l.2⟩
  tickSize := 1 / 100
  exchangeTimestampMs := 1700000000000

/-- The conditions on an exact book that a book in cents does not meet by construction. -/
def centBookOk (bids asks : List (ℤ × ℚ)) : Bool :=
  isBookUsable (centBook "" bids asks).lift &&
    decide (bids.Pairwise (fun l l' => l'.1 ≤ l.1)) &&
    decide (asks.Pairwise (fun l l' => l.1 ≤ l'.1)) &&
    (bids ++ asks).all (fun l => decide (0 < l.2))

theorem centBook_exact (source : String) {bids asks : List (ℤ × ℚ)}
    (h : centBookOk bids asks = true) : ExactBook (centBook source bids asks) := by
  simp only [centBookOk, Bool.and_eq_true, decide_eq_true_eq, List.all_eq_true] at h
  obtain ⟨⟨⟨husable, hbids⟩, hasks⟩, hq⟩ := h
  have hlevel : ∀ l ∈ (centBook source bids asks).levels,
      ∃ c ∈ bids ++ asks, l = ⟨c.1 / 100, c.2⟩ := by
    intro l hl
    simp only [OrderBookSnapshot.levels, centBook, ← List.map_append, List.mem_map] at hl
    obtain ⟨c, hc, rfl⟩ := hl
    exact ⟨c, hc, rfl⟩
  have hcents : ∀ {x y : ℤ}, x ≤ y → (x : ℚ) / 100 ≤ y / 100 := by
    intro x y hxy
    have : (x : ℚ) ≤ y := by exact_mod_cast hxy
    linarith
  refine ⟨husable, List.pairwise_map.mpr (hbids.imp fun h => hcents h),
    List.pairwise_map.mpr (hasks.imp fun h => hcents h), ?_, by norm_num [centBook],
    ⟨10 ^ 8, by norm_num, ?_⟩, ?_⟩
  · intro l hl
    obtain ⟨c, hc, rfl⟩ := hlevel l hl
    exact hq c hc
  · norm_num [centBook]
  · intro l hl
    obtain ⟨c, -, rfl⟩ := hlevel l hl
    exact ⟨c.1, by simp [centBook]; ring⟩

/-! ### A calm market and a rogue venue -/

def calm (source : String) : OrderBookSnapshot ℚ :=
  centBook source [(10000, 1), (9999, 1), (9998, 1)] [(10001, 1), (10002, 1), (10003, 1)]

/-- A second honest venue, two cents higher. -/
def calmHigher (source : String) : OrderBookSnapshot ℚ :=
  centBook source [(10002, 1), (10001, 1), (10000, 1)] [(10003, 1), (10004, 1), (10005, 1)]

/-- Twice the price, with volume at the best bid. -/
def rogue (source : String) : OrderBookSnapshot ℚ :=
  centBook source [(20000, 10), (19999, 1), (19998, 1)] [(20001, 1), (20002, 1), (20003, 1)]

/-- Prices no key can hold. -/
def beyond (source : String) : OrderBookSnapshot ℚ :=
  centBook source [(10 ^ 30, 1), (10 ^ 30 - 1, 1), (10 ^ 30 - 2, 1)]
    [(10 ^ 30 + 1, 1), (10 ^ 30 + 2, 1), (10 ^ 30 + 3, 1)]

theorem calm_exact (source : String) : ExactBook (calm source) :=
  centBook_exact source (by decide +kernel)

theorem calmHigher_exact (source : String) : ExactBook (calmHigher source) :=
  centBook_exact source (by decide +kernel)

theorem rogue_exact (source : String) : ExactBook (rogue source) :=
  centBook_exact source (by decide +kernel)

theorem beyond_exact (source : String) : ExactBook (beyond source) :=
  centBook_exact source (by decide +kernel)

end Nuntius.ConsolidatedBook
