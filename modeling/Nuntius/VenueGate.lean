import Mathlib.Data.Finset.Max
import Nuntius.ExactBooks

/-!
# The per-venue gate on exact books

Each exact book contributes its middle as one sample, and every such sample passes the
sanity filter. The books that go on are those whose middle the deviation filter keeps.
-/

namespace Nuntius.ConsolidatedBook
open Aggregator OrderStatistics
open OrderBookSnapshot (lift)

def OrderBookSnapshot.bestBid (b : OrderBookSnapshot ℚ) : ℚ := (b.bids.head?.map Level.price).getD 0

def OrderBookSnapshot.bestAsk (b : OrderBookSnapshot ℚ) : ℚ := (b.asks.head?.map Level.price).getD 0

def OrderBookSnapshot.mid (b : OrderBookSnapshot ℚ) : ℚ := (b.bestBid + b.bestAsk) / 2

def OrderBookSnapshot.halfSpread (b : OrderBookSnapshot ℚ) : ℚ := (b.bestAsk - b.bestBid) / 2

open OrderBookSnapshot (mid)

/-- What a usable book's two best levels look like. -/
theorem ExactBook.tops {b : OrderBookSnapshot ℚ} (hb : ExactBook b) :
    ∃ bid ask bids asks, b.bids = bid :: bids ∧ b.asks = ask :: asks ∧
      b.bestBid = bid.price ∧ b.bestAsk = ask.price ∧ 0 < bid.price ∧ bid.price < ask.price := by
  have husable := hb.usable
  unfold isBookUsable at husable
  cases hbids : b.bids with
  | nil => simp [lift, hbids] at husable
  | cons bid bids =>
    cases hasks : b.asks with
    | nil => simp [lift, hbids, hasks] at husable
    | cons ask asks =>
      refine ⟨bid, ask, bids, asks, rfl, rfl, by simp [OrderBookSnapshot.bestBid, hbids],
        by simp [OrderBookSnapshot.bestAsk, hasks], ?_⟩
      simp only [lift, hbids, hasks, List.map_cons] at husable
      split_ifs at husable with hdepth hpos hcross
      simp only [Level.lift, ExtRat.lit_eq, ExtRat.fin_lt, ExtRat.fin_le, Bool.not_eq_true',
        Bool.and_eq_false_iff, decide_eq_false_iff_not, decide_eq_true_eq, not_or, not_not,
        not_le] at hpos hcross
      exact ⟨hpos.1, hcross⟩

variable {books : List (OrderBookSnapshot ℚ)} {b : OrderBookSnapshot ℚ}

theorem ExactBook.bestBid_lt_bestAsk (hb : ExactBook b) : b.bestBid < b.bestAsk := by
  obtain ⟨bid, ask, _, _, -, -, hbid, hask, -, hlt⟩ := hb.tops
  rwa [hbid, hask]

theorem ExactBook.bestBid_pos (hb : ExactBook b) : 0 < b.bestBid := by
  obtain ⟨bid, ask, _, _, -, -, hbid, -, hpos, -⟩ := hb.tops
  rwa [hbid]

theorem ExactBook.quotedBid (hb : ExactBook b) (hmem : b ∈ books) : QuotedBid books b.bestBid := by
  obtain ⟨bid, ask, bids, asks, hbids, -, hbid, -, hpos, -⟩ := hb.tops
  exact ⟨hbid ▸ hpos, b, hmem, bid, by simp [hbids], hbid.symm⟩

theorem ExactBook.quotedAsk (hb : ExactBook b) (hmem : b ∈ books) : QuotedAsk books b.bestAsk := by
  obtain ⟨bid, ask, bids, asks, -, hasks, -, hask, hpos, hlt⟩ := hb.tops
  exact ⟨hask ▸ hpos.trans hlt, b, hmem, ask, by simp [hasks], hask.symm⟩

theorem ExactBook.bid_le_bestBid (hb : ExactBook b) {l : Level ℚ} (hl : l ∈ b.bids) :
    l.price ≤ b.bestBid := by
  obtain ⟨bid, ask, bids, asks, hbids, -, hbid, -⟩ := hb.tops
  rw [hbid]
  exact head_rel_of_pairwise hb.bids_sorted (by rw [hbids]; rfl) hl (fun _ => le_rfl)

theorem ExactBook.bestAsk_le_ask (hb : ExactBook b) {l : Level ℚ} (hl : l ∈ b.asks) :
    b.bestAsk ≤ l.price := by
  obtain ⟨bid, ask, bids, asks, -, hasks, -, hask, -⟩ := hb.tops
  rw [hask]
  exact head_rel_of_pairwise hb.asks_sorted (by rw [hasks]; rfl) hl (fun _ => le_rfl)

theorem QuotedBid.le_of_tops (hbooks : ∀ b ∈ books, ExactBook b) {p u : ℚ} (hp : QuotedBid books p)
    (hu : ∀ b ∈ books, b.bestBid ≤ u) : p ≤ u := by
  obtain ⟨-, b, hb, l, hl, rfl⟩ := hp
  exact ((hbooks b hb).bid_le_bestBid hl).trans (hu b hb)

theorem QuotedAsk.ge_of_tops (hbooks : ∀ b ∈ books, ExactBook b) {p u : ℚ} (hp : QuotedAsk books p)
    (hu : ∀ b ∈ books, u ≤ b.bestAsk) : u ≤ p := by
  obtain ⟨-, b, hb, l, hl, rfl⟩ := hp
  exact (hu b hb).trans ((hbooks b hb).bestAsk_le_ask hl)

theorem KeysFit.bestAsk_le (hfit : KeysFit books) (hbooks : ∀ b ∈ books, ExactBook b)
    (hb : b ∈ books) (g : ℚ)
    (hgrid : computeCommonGrid (books.map lift) = .fin g) :
    b.bestAsk ≤ i64Max * g := by
  obtain ⟨bid, ask, bids, asks, -, hasks, -, hask, -⟩ := (hbooks b hb).tops
  rw [computeCommonGrid_lift (onTick_of_exact hbooks) (List.ne_nil_of_mem hb) hfit.ticks] at hgrid
  rw [hask, ← ExtRat.fin_inj.mp hgrid]
  exact hfit.keys b hb ask (by simp [OrderBookSnapshot.levels, hasks])

theorem ExactBook.bestBid_add_tick_le (hb : ExactBook b) : b.bestBid + b.tickSize ≤ b.bestAsk := by
  obtain ⟨bid, ask, bids, asks, hbids, hasks, hbid, hask, -, hlt⟩ := hb.tops
  obtain ⟨m, hm⟩ := hb.on_tick bid (by simp [OrderBookSnapshot.levels, hbids])
  obtain ⟨n, hn⟩ := hb.on_tick ask (by simp [OrderBookSnapshot.levels, hasks])
  obtain ⟨k, hk, htick⟩ := hb.tick
  have hpos : 0 < b.tickSize := by
    have : (0 : ℚ) < k := by exact_mod_cast hk
    rw [htick]
    positivity
  have hmn : m + 1 ≤ n := by
    rw [hm, hn] at hlt
    exact_mod_cast lt_of_mul_lt_mul_right hlt hpos.le
  have hmn' : (m : ℚ) + 1 ≤ n := by exact_mod_cast hmn
  rw [hbid, hask, hm, hn]
  nlinarith

/-! ### The price and the books' tops -/

/-- A price within half a step `g` of the middle of the range of the books' best prices. -/
structure NearTops (books : List (OrderBookSnapshot ℚ)) (g p : ℚ) : Prop where
  step : ∀ b ∈ books, b.bestBid + g ≤ b.bestAsk
  range : ∀ {lo hi lo' hi' : ℚ}, (∀ b ∈ books,
    (lo ≤ b.bestBid ∧ b.bestBid ≤ hi) ∧ lo' ≤ b.bestAsk ∧ b.bestAsk ≤ hi') →
    (lo + lo') / 2 - g / 2 ≤ p ∧ p ≤ (hi + hi') / 2 + g / 2

section Cleared
variable (hbooks : ∀ b ∈ books, ExactBook b) {g : ℚ}
  (hg : 0 < g) (hstep : ∀ b ∈ books, b.bestBid + g ≤ b.bestAsk) {s : Sides ExtRat}
  (hs : clearCrossing (project (.fin (1 / g)) (books.map lift)) = some s)
include hbooks hg hstep hs

/-- Clearing never reaches the lowest best bid if one book's ask has a key of its own. -/
theorem le_greatest_bid {calm : OrderBookSnapshot ℚ} (hcalm : calm ∈ books)
    (hfit : calm.bestAsk ≤ i64Max * g) {kb : ℤ} (hmax : ∀ k ∈ s.bids.keys, k ≤ kb) {lo : ℚ}
    (hlo : ∀ b ∈ books, lo ≤ b.bestBid) : lo - g / 2 ≤ kb * g := by
  obtain ⟨m, hm, hmin⟩ := books.toFinset.exists_min_image OrderBookSnapshot.bestBid
    ⟨calm, List.mem_toFinset.mpr hcalm⟩
  rw [List.mem_toFinset] at hm
  have hpos := (hbooks m hm).bestBid_pos
  obtain ⟨hhigh, hlow⟩ := gridKey_near hg hpos.le rfl
  have hunsaturated : gridKey (ExtRat.fin (1 / g)) (.fin m.bestBid) ≠ i64Max := by
    intro hsat
    rw [hsat] at hhigh
    linarith [hmin calm (List.mem_toFinset.mpr hcalm), hstep calm hcalm]
  have hquantity := fun b hb => (hbooks b hb).quantity_pos
  have hkept := (clearLoop_cleared hs).bids_kept _
    ((mem_project_bids hquantity).mpr ⟨_, (hbooks m hm).quotedBid hm, rfl⟩) (by
      intro k hk
      obtain ⟨_, ⟨-, b, hb, l, hl, rfl⟩, rfl⟩ := (mem_project_asks hquantity).mp hk
      have hnext := gridKey_step hg hpos.le (q := l.price) (by
        linarith [hmin b (List.mem_toFinset.mpr hb), hstep b hb, (hbooks b hb).bestAsk_le_ask hl])
      have hle := gridKey_of_nonneg hg hpos.le
      omega)
  have hkey : (gridKey (ExtRat.fin (1 / g)) (.fin m.bestBid) : ℚ) * g ≤ kb * g :=
    mul_le_mul_of_nonneg_right (by exact_mod_cast hmax _ hkept) hg.le
  linarith [hlow.resolve_left hunsaturated, hlo m hm]

/-- Clearing never reaches the highest best ask, unless its key saturates. -/
theorem least_ask_le {ka : ℤ} (hmin : ∀ k ∈ s.asks.keys, ka ≤ k) (hka : ka ≤ i64Max)
    (hne : books ≠ []) {hi : ℚ} (hhi : ∀ b ∈ books, b.bestAsk ≤ hi) : ka * g ≤ hi + g / 2 := by
  obtain ⟨b₀, hb₀⟩ := List.exists_mem_of_ne_nil books hne
  obtain ⟨m, hm, hmax⟩ := books.toFinset.exists_max_image OrderBookSnapshot.bestAsk
    ⟨b₀, List.mem_toFinset.mpr hb₀⟩
  rw [List.mem_toFinset] at hm
  have hpos := (hbooks m hm).bestBid_pos.trans (hbooks m hm).bestBid_lt_bestAsk
  have hquantity := fun b hb => (hbooks b hb).quantity_pos
  have hle : ka ≤ gridKey (ExtRat.fin (1 / g)) (.fin m.bestAsk) := by
    by_contra habove
    refine habove (hmin _ ((clearLoop_cleared hs).asks_kept _
      ((mem_project_asks hquantity).mpr ⟨_, (hbooks m hm).quotedAsk hm, rfl⟩) ?_))
    intro k hk
    obtain ⟨_, ⟨hprice, b, hb, l, hl, rfl⟩, rfl⟩ := (mem_project_bids hquantity).mp hk
    have hnext := gridKey_step hg hprice.le (q := m.bestAsk) (by
      linarith [hmax b (List.mem_toFinset.mpr hb), hstep b hb, (hbooks b hb).bid_le_bestBid hl])
    omega
  have hkey : (ka : ℚ) * g ≤ gridKey (ExtRat.fin (1 / g)) (.fin m.bestAsk) * g :=
    mul_le_mul_of_nonneg_right (by exact_mod_cast hle) hg.le
  linarith [(gridKey_near hg hpos.le rfl).1, hhi m hm]

end Cleared

/-- However far other books saturate the keys, one book whose best ask does not keeps the price
near the books' tops. -/
theorem consolidatedOrderBook_near_tops (hbooks : ∀ b ∈ books, ExactBook b)
    {calm : OrderBookSnapshot ℚ} (hcalm : calm ∈ books)
    (hfit : ∀ g, computeCommonGrid (books.map lift) = .fin g →
      calm.bestAsk ≤ i64Max * g) {fv : FairValue ExtRat}
    (h : consolidatedOrderBook (books.map lift) = some fv) :
    ∃ g p, fv.price = .fin p ∧ NearTops books g p := by
  have hne := List.ne_nil_of_mem hcalm
  obtain ⟨g, hgrid, hunit, htick, -⟩ := computeCommonGrid_le (onTick_of_exact hbooks) hne
  have hg : 0 < g := lt_of_lt_of_le (by norm_num) hunit
  have hstep : ∀ b ∈ books, b.bestBid + g ≤ b.bestAsk := by
    intro b hb
    linarith [htick b hb, (hbooks b hb).bestBid_add_tick_le]
  rw [consolidatedOrderBook_on_grid hne hg hgrid, Option.bind_eq_some_iff] at h
  obtain ⟨s, hs, hfair⟩ := h
  obtain ⟨kb, vb, ka, va, hmax, hmin, hprice, -⟩ := fairValue_eq_some hfair
  obtain ⟨hkb, hkbmax⟩ := Ladder.greatest?_eq_some hmax
  obtain ⟨hka, hkamin⟩ := Ladder.least?_eq_some hmin
  have hquantity := fun b hb => (hbooks b hb).quantity_pos
  have hcleared := clearLoop_cleared hs
  obtain ⟨p, hp, hkp⟩ := (mem_project_bids hquantity).mp (hcleared.bids_subset kb hkb)
  obtain ⟨a, ha, hkaa⟩ := (mem_project_asks hquantity).mp (hcleared.asks_subset ka hka)
  refine ⟨g, _, hprice, hstep, ?_⟩
  intro lo hi lo' hi' hrange
  have hbid_lo := le_greatest_bid hbooks hg hstep hs hcalm (hfit g hgrid) hkbmax
    fun b hb => (hrange b hb).1.1
  have hbid_hi := hp.le_of_tops hbooks fun b hb => (hrange b hb).1.2
  have hkey := (gridKey_near hg hp.1.le hkp).1
  have hask_lo : lo' - g / 2 ≤ ka * g := by
    obtain rfl | hlow := (gridKey_near hg ha.1.le hkaa).2
    · linarith [hfit g hgrid, (hrange calm hcalm).2.1]
    · linarith [ha.ge_of_tops hbooks fun b hb => (hrange b hb).2.1]
  have hsat := gridKey_of_nonneg hg ha.1.le
  have hask_hi := least_ask_le hbooks hg hstep hs hkamin (by omega) hne
    fun b hb => (hrange b hb).2.2
  constructor <;> linarith

/-! ### The samples -/

/-- The sample a book contributes. -/
def midSample (b : OrderBookSnapshot ℚ) : PricePoint ExtRat where
  price := .fin b.mid
  volume := .fin 0
  source := b.source
  serverTime := (max (b.exchangeTimestampMs.tdiv 1000) 0).toNat

theorem midPoint_lift (hb : ExactBook b) : midPoint b.lift = some (midSample b) := by
  obtain ⟨bid, ask, bids, asks, hbids, hasks, hbid, hask, -⟩ := hb.tops
  simp [midPoint, midSample, lift, mid, hbids, hasks, hbid, hask, Level.lift]

theorem isSane_midSample (hb : ExactBook b) : isSane (midSample b) = true := by
  have hpos := hb.bestBid_pos
  have hlt := hb.bestBid_lt_bestAsk
  have hmid : 0 < b.mid := by
    unfold mid
    linarith
  have htime : 0 < (midSample b).serverTime := by
    have hdiv : 1 ≤ b.exchangeTimestampMs.tdiv 1000 := by
      rw [Int.tdiv_eq_ediv_of_nonneg (by have := hb.dated; omega)]
      have := hb.dated
      omega
    simp only [midSample]
    omega
  have hfinite : F64.isFinite (midSample b).price = true := rfl
  have hprice : F64.lt (F64.lit 0) (midSample b).price = true := by simpa [midSample] using hmid
  simp only [isSane, hfinite, hprice, htime, decide_true, Bool.and_self]

theorem sanitize_mids (hbooks : ∀ b ∈ books, ExactBook b) :
    sanitize ((books.map lift).filterMap midPoint) = books.map midSample := by
  have hmids : (books.map lift).filterMap midPoint = books.map midSample := by
    rw [List.filterMap_map, ← List.filterMap_eq_map]
    exact List.filterMap_congr fun b hb => midPoint_lift (hbooks b hb)
  have hrepair : ∀ b, repairVolume (midSample b) = midSample b := by
    intro b
    simp [repairVolume, midSample]
  rw [hmids, sanitize, List.filter_eq_self.mpr, List.map_map]
  · exact List.map_congr_left fun b _ => hrepair b
  · intro p hp
    obtain ⟨b, hb, rfl⟩ := List.mem_map.mp hp
    exact isSane_midSample (hbooks b hb)

variable (books) in
theorem exactPrices_mids : exactPrices (books.map midSample) = books.map mid := by
  simp [exactPrices, midSample, Function.comp_def]

variable (books) in
theorem finitePrices_mids : FinitePrices (books.map midSample) := by
  intro p hp
  obtain ⟨b, -, rfl⟩ := List.mem_map.mp hp
  rfl

theorem cleanedMids_lift (hbooks : ∀ b ∈ books, ExactBook b) :
    cleanedMids (books.map lift) = rejectOutliers (books.map midSample) (.fin 3) := by
  rw [cleanedMids, sanitize_mids hbooks]
  rfl

/-- The exact books that the gate passes on. -/
def keptBooks (books : List (OrderBookSnapshot ℚ)) : List (OrderBookSnapshot ℚ) :=
  books.filter fun b => b.source ∈ (cleanedMids (books.map lift)).map PricePoint.source

variable (books) in
theorem survivingBooks_lift : survivingBooks (books.map lift) = (keptBooks books).map lift := by
  rw [survivingBooks, keptBooks, List.filter_map]
  rfl

variable (books) in
theorem keptBooks_subset : keptBooks books ⊆ books :=
  List.filter_subset_self books

/-- A dispersion below `1e-10` lets every book through. -/
theorem keptBooks_off (hbooks : ∀ b ∈ books, ExactBook b)
    (hmad : medianDeviation (books.map mid) < 1e-10) : keptBooks books = books := by
  rw [keptBooks, cleanedMids_lift hbooks,
    rejectOutliers_off (finitePrices_mids books) (by rwa [exactPrices_mids]), List.filter_eq_self]
  intro b hb
  simpa [midSample] using ⟨b, hb, rfl⟩

/-- Any other dispersion keeps the books whose middle is close to the median. -/
theorem mem_keptBooks (hbooks : ∀ b ∈ books, ExactBook b)
    (hdistinct : (books.map OrderBookSnapshot.source).Nodup) (hlen : 3 ≤ books.length)
    (hmad : 1e-10 ≤ medianDeviation (books.map mid)) (hb : b ∈ books) : b ∈ keptBooks books ↔
      |b.mid - median (books.map mid)| ≤ 3 * 1.4826 * medianDeviation (books.map mid) := by
  have hsample : ∀ {b}, midSample b ∈ rejectOutliers (books.map midSample) (.fin 3) ↔
      midSample b ∈ books.map midSample ∧ |b.mid - median (books.map mid)| ≤
        3 * 1.4826 * medianDeviation (books.map mid) := by
    rw [← exactPrices_mids] at hmad ⊢
    exact mem_rejectOutliersWithCap (finitePrices_mids books) (by simpa using hlen)
      (exactThreshold_uncapped 3 hmad)
  rw [keptBooks, List.mem_filter, decide_eq_true_eq, cleanedMids_lift hbooks, and_iff_right hb]
  constructor
  · intro hsource
    obtain ⟨p, hp, hpb⟩ := List.mem_map.mp hsource
    obtain ⟨b', hb', rfl⟩ := List.mem_map.mp (rejectOutliersWithCap_sublist _ _ _ |>.subset hp)
    -- sources are distinct, so the surviving sample is this book's own
    obtain rfl : b' = b := List.inj_on_of_nodup_map hdistinct hb' hb hpb
    exact (hsample.mp hp).2
  · intro hclose
    exact List.mem_map.mpr ⟨_, hsample.mpr ⟨List.mem_map_of_mem hb, hclose⟩, rfl⟩

end Nuntius.ConsolidatedBook
