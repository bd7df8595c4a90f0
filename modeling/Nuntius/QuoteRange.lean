import Nuntius.ExactBooks

/-!
# The consolidated price and the venues' own quotes

Books over the rationals with arbitrary ticks. No ask lies at or below the lowest of the
venues' best bids, so clearing cannot touch that bid, and dually for the highest of the best
asks. However the books cross each other, a fair value comes out and lies between the two.
-/

namespace Nuntius.ConsolidatedBook
open Aggregator
open OrderBookSnapshot (lift)

/-! ### The grid of arbitrary ticks -/

/-- One turn of the grid loop keeps the accumulator finite and not negative. -/
theorem gridStep_lift_nonneg {g : ℚ} (hg : 0 ≤ g) (b : OrderBookSnapshot ℚ) :
    ∃ g' : ℚ, 0 ≤ g' ∧ gridStep (.fin g) b.lift = .fin g' := by
  unfold gridStep
  split
  · exact ⟨g, hg, rfl⟩
  · rename_i htick
    split
    · have hpos : 0 < b.tickSize := by simpa [lift] using htick
      exact ⟨b.tickSize, hpos.le, rfl⟩
    · refine ⟨_, ?_, ExtRat.fin_div _ (by norm_num)⟩
      positivity

theorem gridFold_lift_nonneg (books : List (OrderBookSnapshot ℚ)) {g : ℚ} (hg : 0 ≤ g) :
    ∃ g' : ℚ, 0 ≤ g' ∧ (books.map lift).foldl gridStep (.fin g) = .fin g' := by
  induction books generalizing g with
  | nil => exact ⟨g, hg, rfl⟩
  | cons b rest ih =>
    obtain ⟨g₁, hg₁, hstep⟩ := gridStep_lift_nonneg hg b
    rw [List.map_cons, List.foldl_cons, hstep]
    exact ih hg₁

/-- Whatever the ticks are, the common grid is a positive number. -/
theorem computeCommonGrid_lift_pos (books : List (OrderBookSnapshot ℚ)) :
    ∃ g : ℚ, 0 < g ∧ computeCommonGrid (books.map lift) = .fin g := by
  obtain ⟨g, hg, hfold⟩ := gridFold_lift_nonneg books le_rfl
  simp only [computeCommonGrid, ExtRat.lit_eq, hfold, ExtRat.fin_le]
  split
  · exact ⟨0.0001, by norm_num, rfl⟩
  · rename_i hpos
    exact ⟨g, by simpa using hpos, rfl⟩

/-! ### Best keys -/

/-- The reciprocal of the common grid, as the program computes it. -/
def invGrid (books : List (OrderBookSnapshot ℚ)) : ExtRat :=
  F64.lit 1 / computeCommonGrid (books.map lift)

def bestBidKey (invGrid : ExtRat) (b : OrderBookSnapshot ℚ) : Option ℤ :=
  b.bids.head?.map (fun l => gridKey invGrid l.lift.price)

def bestAskKey (invGrid : ExtRat) (b : OrderBookSnapshot ℚ) : Option ℤ :=
  b.asks.head?.map (fun l => gridKey invGrid l.lift.price)

/-- Levels best first, positive prices and quantities, and no crossing on the grid within
the book itself. -/
structure QuotedBook (invGrid : ExtRat) (b : OrderBookSnapshot ℚ) : Prop where
  bids_sorted : b.bids.Pairwise (fun l l' => l'.price ≤ l.price)
  asks_sorted : b.asks.Pairwise (fun l l' => l.price ≤ l'.price)
  price_pos : ∀ l ∈ b.levels, 0 < l.price
  quantity_pos : ∀ l ∈ b.levels, 0 < l.quantity
  uncrossed : ∃ kb ka, bestBidKey invGrid b = some kb ∧ bestAskKey invGrid b = some ka ∧ kb < ka

section Keys
variable {c : ℚ} (hc : 0 ≤ c) {b : OrderBookSnapshot ℚ} (hb : QuotedBook (.fin c) b)
include hc hb

theorem QuotedBook.bid_le_best {kb : ℤ} (hbest : bestBidKey (.fin c) b = some kb) {l : Level ℚ}
    (hl : l ∈ b.bids) : gridKey (ExtRat.fin c) l.lift.price ≤ kb := by
  obtain ⟨first, hfirst, rfl⟩ := Option.map_eq_some_iff.mp hbest
  have hle := head_rel_of_pairwise hb.bids_sorted hfirst hl (fun _ => le_rfl)
  exact gridKey_mono hc hle

theorem QuotedBook.best_le_ask {ka : ℤ} (hbest : bestAskKey (.fin c) b = some ka) {l : Level ℚ}
    (hl : l ∈ b.asks) : ka ≤ gridKey (ExtRat.fin c) l.lift.price := by
  obtain ⟨first, hfirst, rfl⟩ := Option.map_eq_some_iff.mp hbest
  have hle := head_rel_of_pairwise hb.asks_sorted hfirst hl (fun _ => le_rfl)
  exact gridKey_mono hc hle

end Keys

/-! ### Clearing between the extreme quotes -/

section Range
variable {c : ℚ} {books : List (OrderBookSnapshot ℚ)} (hbooks : ∀ b ∈ books, QuotedBook (.fin c) b)
include hbooks

/-- The lowest best bid is a key of the projection. -/
theorem lowest_bid_mem {lo : ℤ} (hlo : (books.filterMap (bestBidKey (.fin c))).min? = some lo) :
    lo ∈ (project (.fin c) (books.map lift)).bids.keys := by
  obtain ⟨b, hb, hbest⟩ := List.mem_filterMap.mp (List.min?_eq_some_iff.mp hlo).1
  obtain ⟨l, hl, hkey⟩ := Option.map_eq_some_iff.mp hbest
  have hmem := List.mem_of_head? hl
  exact (mem_project_bids fun b hb => (hbooks b hb).quantity_pos).mpr ⟨l.price,
    ⟨(hbooks b hb).price_pos l (List.mem_append_left _ hmem), b, hb, l, hmem, rfl⟩, hkey⟩

theorem highest_ask_mem {hi : ℤ} (hhi : (books.filterMap (bestAskKey (.fin c))).max? = some hi) :
    hi ∈ (project (.fin c) (books.map lift)).asks.keys := by
  obtain ⟨b, hb, hbest⟩ := List.mem_filterMap.mp (List.max?_eq_some_iff.mp hhi).1
  obtain ⟨l, hl, hkey⟩ := Option.map_eq_some_iff.mp hbest
  have hmem := List.mem_of_head? hl
  exact (mem_project_asks fun b hb => (hbooks b hb).quantity_pos).mpr ⟨l.price,
    ⟨(hbooks b hb).price_pos l (List.mem_append_right _ hmem), b, hb, l, hmem, rfl⟩, hkey⟩

variable (hc : 0 ≤ c)
include hc

/-- Every ask lies above its own venue's best bid, hence above the lowest of them. -/
theorem lowest_bid_lt_ask {lo : ℤ} (hlo : (books.filterMap (bestBidKey (.fin c))).min? = some lo)
    {ka : ℤ} (hka : ka ∈ (project (.fin c) (books.map lift)).asks.keys) :
    lo < ka := by
  obtain ⟨_, ⟨-, b, hb, l, hl, rfl⟩, rfl⟩ :=
    (mem_project_asks fun b hb => (hbooks b hb).quantity_pos).mp hka
  obtain ⟨kb, ka, hbid, hask, hlt⟩ := (hbooks b hb).uncrossed
  calc lo ≤ kb := (List.min?_eq_some_iff.mp hlo).2 kb (List.mem_filterMap.mpr ⟨b, hb, hbid⟩)
    _ < ka := hlt
    _ ≤ gridKey (ExtRat.fin c) l.lift.price := (hbooks b hb).best_le_ask hc hask hl

theorem bid_lt_highest_ask {hi : ℤ} (hhi : (books.filterMap (bestAskKey (.fin c))).max? = some hi)
    {kb : ℤ} (hkb : kb ∈ (project (.fin c) (books.map lift)).bids.keys) :
    kb < hi := by
  obtain ⟨_, ⟨-, b, hb, l, hl, rfl⟩, rfl⟩ :=
    (mem_project_bids fun b hb => (hbooks b hb).quantity_pos).mp hkb
  obtain ⟨kb, ka, hbid, hask, hlt⟩ := (hbooks b hb).uncrossed
  calc gridKey (ExtRat.fin c) l.lift.price ≤ kb := (hbooks b hb).bid_le_best hc hbid hl
    _ < ka := hlt
    _ ≤ hi := (List.max?_eq_some_iff.mp hhi).2 ka (List.mem_filterMap.mpr ⟨b, hb, hask⟩)

/-- What clearing leaves lies between the lowest best bid and the highest best ask. -/
theorem clearCrossing_range {lo hi : ℤ}
    (hlo : (books.filterMap (bestBidKey (.fin c))).min? = some lo)
    (hhi : (books.filterMap (bestAskKey (.fin c))).max? = some hi) :
    ∃ s kb vb ka va, clearCrossing (project (.fin c) (books.map lift)) = some s ∧
      s.bids.greatest? = some (kb, vb) ∧ s.asks.least? = some (ka, va) ∧
      lo ≤ kb ∧ kb < ka ∧ ka ≤ hi := by
  have hpos := project_lift_positive (fun b hb => (hbooks b hb).quantity_pos) (.fin c)
  obtain ⟨s, hs⟩ := hpos.clearCrossing_returns
  have hcleared := clearLoop_cleared hs
  -- no ask reaches the lowest best bid, so clearing keeps it; dually for the highest best ask
  have hbid := hcleared.bids_kept lo (lowest_bid_mem hbooks hlo)
    (fun _ => lowest_bid_lt_ask hbooks hc hlo)
  have hask := hcleared.asks_kept hi (highest_ask_mem hbooks hhi)
    (fun _ => bid_lt_highest_ask hbooks hc hhi)
  obtain ⟨⟨kb, vb⟩, hmax⟩ := Ladder.greatest?_isSome hbid
  obtain ⟨⟨ka, va⟩, hmin⟩ := Ladder.least?_isSome hask
  obtain ⟨hkb, hkbmax⟩ := Ladder.greatest?_eq_some hmax
  obtain ⟨hka, hkamin⟩ := Ladder.least?_eq_some hmin
  exact ⟨s, kb, vb, ka, va, hs, hmax, hmin, hkbmax lo hbid,
    uncrossed_of_clearStep (clearLoop_stops hs) hkb hka, hkamin hi hask⟩

end Range

/-- A fair value is returned, its best bid and ask lie between the lowest best bid and the
highest best ask, however the books cross each other, and its price lies between the two. -/
theorem consolidated_within_quotes {books : List (OrderBookSnapshot ℚ)} (hne : books ≠ [])
    (hbooks : ∀ b ∈ books, QuotedBook (invGrid books) b) :
    ∃ fv, ∃ lo hi kb ka : ℤ,
      consolidatedOrderBook (books.map lift) = some fv ∧
      (books.filterMap (bestBidKey (invGrid books))).min? = some lo ∧
      (books.filterMap (bestAskKey (invGrid books))).max? = some hi ∧
      fv.bestBid = F64.lit kb * computeCommonGrid (books.map lift) ∧
      fv.bestAsk = F64.lit ka * computeCommonGrid (books.map lift) ∧
      lo ≤ kb ∧ kb < ka ∧ ka ≤ hi ∧
      F64.lt fv.bestBid fv.price = true ∧ F64.lt fv.price fv.bestAsk = true := by
  obtain ⟨g, hg, hgrid⟩ := computeCommonGrid_lift_pos books
  have hinv : invGrid books = .fin (1 / g) := by
    rw [invGrid, hgrid]
    exact ExtRat.fin_div 1 hg.ne'
  rw [hinv] at hbooks ⊢
  obtain ⟨b, hb⟩ := List.exists_mem_of_ne_nil books hne
  obtain ⟨kb₀, ka₀, hbid, hask, -⟩ := (hbooks b hb).uncrossed
  obtain ⟨lo, hlo⟩ := Option.isSome_iff_exists.mp (List.isSome_min?_iff.mpr
    (List.ne_nil_of_mem (List.mem_filterMap.mpr ⟨b, hb, hbid⟩)))
  obtain ⟨hi, hhi⟩ := Option.isSome_iff_exists.mp (List.isSome_max?_iff.mpr
    (List.ne_nil_of_mem (List.mem_filterMap.mpr ⟨b, hb, hask⟩)))
  obtain ⟨s, kb, vb, ka, va, hs, hmax, hmin, hlow, huncrossed, hhigh⟩ :=
    clearCrossing_range hbooks (by positivity) hlo hhi
  have hfair : ∃ fv, consolidatedOrderBook (books.map lift) = some fv ∧
      fv.bestBid = .fin (kb * g) ∧ fv.bestAsk = .fin (ka * g) ∧
      fv.price = .fin ((kb * g + ka * g) / 2) := by
    rw [consolidatedOrderBook_on_grid hne hg hgrid, hs]
    simp only [Option.bind_some, fairValue, hmax, hmin, ExtRat.lit_eq, ExtRat.fin_mul,
      ExtRat.fin_add, ExtRat.fin_div_two]
    exact ⟨_, rfl, rfl, rfl, rfl⟩
  obtain ⟨fv, hfv, hbest, hworst, hprice⟩ := hfair
  have hlt : (kb : ℚ) * g < ka * g := mul_lt_mul_of_pos_right (by exact_mod_cast huncrossed) hg
  refine ⟨fv, lo, hi, kb, ka, hfv, hlo, hhi, by rw [hgrid, hbest]; simp,
    by rw [hgrid, hworst]; simp, hlow, huncrossed, hhigh, ?_, ?_⟩
  · rw [hbest, hprice, ExtRat.fin_lt, decide_eq_true_eq]
    linarith
  · rw [hprice, hworst, ExtRat.fin_lt, decide_eq_true_eq]
    linarith

/-- Three books that cross each other everywhere but not within themselves. -/
def crossingBooks : List (OrderBookSnapshot ℚ) :=
  [⟨"a", "KAS", [⟨10, 1⟩, ⟨9, 2⟩], [⟨11, 1⟩], 1 / 2, 0⟩,
    ⟨"b", "KAS", [⟨20, 5⟩], [⟨21, 1⟩, ⟨23, 1⟩], 1 / 4, 0⟩,
    ⟨"c", "KAS", [⟨14, 1⟩], [⟨15, 7⟩], -1, 0⟩]

theorem crossingBooks_quoted :
    ∀ b ∈ crossingBooks, QuotedBook (invGrid crossingBooks) b := by
  have hbook : ∀ b ∈ crossingBooks, b.bids.Pairwise (fun l l' => l'.price ≤ l.price) ∧
      b.asks.Pairwise (fun l l' => l.price ≤ l'.price) ∧
      (∀ l ∈ b.levels, 0 < l.price ∧ 0 < l.quantity) ∧
      ((bestBidKey (invGrid crossingBooks) b).isSome = true ∧
        (bestAskKey (invGrid crossingBooks) b).isSome = true ∧
        (bestBidKey (invGrid crossingBooks) b).getD 0 <
          (bestAskKey (invGrid crossingBooks) b).getD 0) := by decide +kernel
  intro b hb
  obtain ⟨hbids, hasks, hpos, hbid, hask, hlt⟩ := hbook b hb
  obtain ⟨kb, hkb⟩ := Option.isSome_iff_exists.mp hbid
  obtain ⟨ka, hka⟩ := Option.isSome_iff_exists.mp hask
  refine ⟨hbids, hasks, fun l hl => (hpos l hl).1, fun l hl => (hpos l hl).2, kb, ka, hkb, hka, ?_⟩
  simpa [hkb, hka] using hlt

theorem consolidated_within_quotes_crossing :
    ∃ fv, ∃ lo hi kb ka : ℤ,
      consolidatedOrderBook (crossingBooks.map lift) = some fv ∧
      (crossingBooks.filterMap (bestBidKey (invGrid crossingBooks))).min? = some lo ∧
      (crossingBooks.filterMap (bestAskKey (invGrid crossingBooks))).max? = some hi ∧
      fv.bestBid = F64.lit kb * computeCommonGrid (crossingBooks.map lift) ∧
      fv.bestAsk = F64.lit ka * computeCommonGrid (crossingBooks.map lift) ∧
      lo ≤ kb ∧ kb < ka ∧ ka ≤ hi ∧
      F64.lt fv.bestBid fv.price = true ∧ F64.lt fv.price fv.bestAsk = true :=
  consolidated_within_quotes (by decide) crossingBooks_quoted

end Nuntius.ConsolidatedBook
