import Nuntius.DeepBooks
import Nuntius.VenuePool

/-!
# How far one venue can move the consolidated price

All books but one quote their tops inside `[L, U]`. The deviation gate bounds the
remaining venue through the dispersion of the middles. When that dispersion is below
`1e-10` the gate passes every book, and then a venue with enough volume at its best
level clears the opposite side up to its own price.
-/

namespace Nuntius.ConsolidatedBook
open Aggregator OrderStatistics
open OrderBookSnapshot (lift mid)

/-- The honest range with five times its width and half the odd book's spread on either side. -/
def band (odd : OrderBookSnapshot ℚ) (L U : ℚ) : Set ℚ :=
  Set.Icc (L - 5 * (U - L) - odd.halfSpread) (U + 5 * (U - L) + odd.halfSpread)

theorem OrderBookSnapshot.bestAsk_eq (b : OrderBookSnapshot ℚ) :
    b.bestAsk = b.bestBid + 2 * b.halfSpread := by
  unfold halfSpread
  ring

section Bounded
variable {before after : List (OrderBookSnapshot ℚ)} {odd : OrderBookSnapshot ℚ} {L U : ℚ}
variable (hpool : VenuePool before odd after L U)
include hpool

/-- Prices near the tops of the books are in the band, as far as the odd book's tops are. -/
theorem VenuePool.mem_band {kept : List (OrderBookSnapshot ℚ)} (hsub : kept ⊆ pool before odd after)
    {calm : OrderBookSnapshot ℚ} (hcalm : calm ∈ kept) (hhonest : calm ∈ before ++ after)
    {g p : ℚ} (hnear : NearTops kept g p)
    (hhigh : U < odd.bestBid → p ≤ U + 5 * (U - L) + odd.halfSpread)
    (hlow : odd.bestAsk < L → L - 5 * (U - L) - odd.halfSpread ≤ p) : p ∈ band odd L U := by
  have hLU := hpool.le
  have hodd := hpool.odd_exact.bestBid_lt_bestAsk
  have hstep := hnear.step calm hcalm
  obtain ⟨⟨hcalm_lo, -⟩, -, hcalm_hi⟩ := hpool.honest calm hhonest
  obtain ⟨hlo, hhi⟩ := hnear.range fun b hb => hpool.tops (hsub hb)
  have hh := odd.bestAsk_eq
  constructor
  · by_cases hask : odd.bestAsk < L
    · exact hlow hask
    · rw [min_eq_left (not_lt.mp hask)] at hlo
      rcases min_cases L odd.bestBid with ⟨hmin, -⟩ | ⟨hmin, -⟩ <;> rw [hmin] at hlo <;> linarith
  · by_cases hbid : U < odd.bestBid
    · exact hhigh hbid
    · rw [max_eq_left (not_lt.mp hbid)] at hhi
      rcases max_cases U odd.bestAsk with ⟨hmax, -⟩ | ⟨hmax, -⟩ <;> rw [hmax] at hhi <;> linarith

section GateOn
variable (hmad : 1e-10 ≤ medianDeviation ((pool before odd after).map mid))
include hmad

/-- With the gate on, a kept odd book has its middle within five widths of `[L, U]`. -/
theorem VenuePool.mid_of_kept (hkept : odd ∈ keptBooks (pool before odd after)) :
    L - 5 * (U - L) ≤ odd.mid ∧ odd.mid ≤ U + 5 * (U - L) := by
  have hLU := hpool.le
  have hclose := (mem_keptBooks hpool.exact_books hpool.distinct hpool.count hmad
    (mem_pool.mpr (.inl rfl))).mp hkept
  obtain ⟨hmed_lo, hmed_hi⟩ := hpool.majority.median_mem
  obtain ⟨-, hdev⟩ := hpool.majority.medianDeviation_mem
  obtain ⟨hlo, hhi⟩ := abs_le.mp hclose
  constructor <;> linarith

/-- The gate keeps an honest book: the one closest to the median. -/
theorem VenuePool.honest_kept :
    ∃ calm ∈ before ++ after, calm ∈ keptBooks (pool before odd after) := by
  obtain ⟨calm, hcalm, _, -, -, hmajority⟩ := exists_majority (fun b : OrderBookSnapshot ℚ =>
    |b.mid - median ((pool before odd after).map mid)|) hpool.length_lt
  refine ⟨calm, hcalm, (mem_keptBooks hpool.exact_books hpool.distinct hpool.count hmad
    (sublist_pool.subset hcalm)).mpr ?_⟩
  have hle : |calm.mid - median ((pool before odd after).map mid)| ≤
      medianDeviation ((pool before odd after).map mid) := by
    rw [medianDeviation, median_eq_of_perm ((sorted_perm _).map _), List.map_map]
    exact (hmajority _ sublist_pool hpool.length_lt).median_mem.1
  linarith

/-- The gate bounds the price if every kept honest book has keys of its own. -/
theorem VenuePool.bounded_of_gate
    (hfit : ∀ b ∈ keptBooks (pool before odd after), b ∈ before ++ after →
      ∀ g, computeCommonGrid ((keptBooks (pool before odd after)).map lift) =
        .fin g → b.bestAsk ≤ i64Max * g)
    {minSources : ℕ} {fv : FairValue ExtRat}
    (h : gatedConsolidatedOrderBook ((pool before odd after).map lift)
      minSources = some fv) : ∃ p ∈ band odd L U, fv.price = .fin p := by
  have hsub := keptBooks_subset (pool before odd after)
  obtain ⟨calm, hhonest, hcalm⟩ := hpool.honest_kept hmad
  unfold gatedConsolidatedOrderBook at h
  split_ifs at h
  rw [survivingBooks_lift] at h
  obtain ⟨g, p, hprice, hnear⟩ := consolidatedOrderBook_near_tops
    (fun b hb => hpool.exact_books b (hsub hb)) hcalm (hfit calm hcalm hhonest) h
  refine ⟨p, ?_, hprice⟩
  have hLU := hpool.le
  have hodd := hpool.odd_exact.bestBid_lt_bestAsk
  by_cases hkept : odd ∈ keptBooks (pool before odd after)
  · obtain ⟨hmid_lo, hmid_hi⟩ := hpool.mid_of_kept hmad hkept
    have hstep := hnear.step odd hkept
    obtain ⟨hlo, hhi⟩ := hnear.range fun b hb => hpool.tops (hsub hb)
    unfold mid at hmid_lo hmid_hi
    refine hpool.mem_band hsub hcalm hhonest hnear ?_ ?_
    · intro hU
      rw [max_eq_right hU.le, max_eq_right (hU.trans hodd).le] at hhi
      linarith [odd.bestAsk_eq]
    · intro hL
      rw [min_eq_right (hodd.trans hL).le, min_eq_right hL.le] at hlo
      linarith [odd.bestAsk_eq]
  · -- only honest books are left
    have htops : ∀ b ∈ keptBooks (pool before odd after),
        (L ≤ b.bestBid ∧ b.bestBid ≤ U) ∧ L ≤ b.bestAsk ∧ b.bestAsk ≤ U := by
      intro b hb
      rcases mem_pool.mp (hsub hb) with rfl | hb'
      · exact absurd hb hkept
      · exact hpool.honest b hb'
    have hstep := hnear.step calm hcalm
    obtain ⟨⟨hcalm_lo, -⟩, -, hcalm_hi⟩ := htops calm hcalm
    obtain ⟨hlo, hhi⟩ := hnear.range htops
    constructor <;> linarith [odd.bestAsk_eq]

end GateOn

/-- The books offer a price near the band on the far side of the odd book's best levels. -/
structure Contained (before : List (OrderBookSnapshot ℚ)) (odd : OrderBookSnapshot ℚ)
    (after : List (OrderBookSnapshot ℚ)) (L U : ℚ) : Prop where
  high : ∃ a, QuotedAsk (pool before odd after) a ∧ odd.bestBid < a ∧
    (odd.bestBid + a) / 2 ≤ U + 5 * (U - L) + odd.halfSpread
  low : ∃ p, QuotedBid (pool before odd after) p ∧ p < odd.bestAsk ∧
    L - 5 * (U - L) - odd.halfSpread ≤ (p + odd.bestAsk) / 2

omit hpool in
theorem Contained.requantify {odd' : OrderBookSnapshot ℚ} (h : Contained before odd after L U)
    (hsame : SameQuotes odd odd') : Contained before odd' after L U := by
  obtain ⟨a, ha, hlta, hhigh⟩ := h.high
  obtain ⟨p, hp, hltp, hlow⟩ := h.low
  have hback := hsame.symm
  constructor
  · refine ⟨a, ha.requantify hback, ?_⟩
    simp only [OrderBookSnapshot.halfSpread, hsame.bestBid, hsame.bestAsk]
    exact ⟨hlta, hhigh⟩
  · refine ⟨p, hp.requantify hback, ?_⟩
    simp only [OrderBookSnapshot.halfSpread, hsame.bestBid, hsame.bestAsk]
    exact ⟨hltp, hlow⟩

theorem VenuePool.bounded_of_contained (hfit : KeysFit (pool before odd after))
    (hcontained : Contained before odd after L U) {fv : FairValue ExtRat}
    (h : consolidatedOrderBook ((pool before odd after).map lift) = some fv) :
    ∃ p ∈ band odd L U, fv.price = .fin p := by
  have hLU := hpool.le
  have hodd := hpool.odd_exact.bestBid_lt_bestAsk
  obtain ⟨a, ha, hlta, hhigh⟩ := hcontained.high
  obtain ⟨p, hp, hltp, hlow⟩ := hcontained.low
  obtain ⟨calm, hhonest⟩ := hpool.exists_honest
  have hcalm : calm ∈ pool before odd after := mem_pool.mpr (.inr hhonest)
  obtain ⟨g, q, hprice, hnear⟩ := consolidatedOrderBook_near_tops hpool.exact_books hcalm
    (hfit.bestAsk_le hpool.exact_books hcalm) h
  obtain ⟨bid, ask, hprice', hs⟩ := consolidatedOrderBook_settlement hpool.exact_books hfit h
  obtain rfl := ExtRat.fin_inj.mp (hprice.symm.trans hprice')
  refine ⟨_, hpool.mem_band (List.Subset.refl _) hcalm hhonest hnear ?_ ?_, hprice⟩
  · intro hU
    have hbids : ∀ q, QuotedBid (pool before odd after) q → q ≤ odd.bestBid := by
      intro q hq
      have hle := hq.le_of_tops hpool.exact_books fun b hb => (hpool.tops hb).1.2
      rwa [max_eq_right hU.le] at hle
    have hask := hs.ask_le a ha fun q hq => (hbids q hq).trans_lt hlta
    linarith [hbids bid hs.bid_quoted]
  · intro hL
    have hasks : ∀ q, QuotedAsk (pool before odd after) q → odd.bestAsk ≤ q := by
      intro q hq
      have hle := hq.ge_of_tops hpool.exact_books fun b hb => (hpool.tops hb).2.1
      rwa [min_eq_right hL.le] at hle
    have hbid := hs.bid_ge p hp fun q hq => hltp.trans_le (hasks q hq)
    linarith [hasks ask hs.ask_quoted]

theorem VenuePool.gated_off
    (hmad : medianDeviation ((pool before odd after).map mid) < 1e-10)
    (minSources : ℕ) {fv : FairValue ExtRat}
    (h : gatedConsolidatedOrderBook ((pool before odd after).map lift)
      minSources = some fv) :
    consolidatedOrderBook ((pool before odd after).map lift) = some fv := by
  unfold gatedConsolidatedOrderBook at h
  split_ifs at h
  rwa [survivingBooks_lift, keptBooks_off hpool.exact_books hmad] at h

theorem VenuePool.gated_zero
    (hmad : medianDeviation ((pool before odd after).map mid) < 1e-10) :
    gatedConsolidatedOrderBook ((pool before odd after).map lift) 0 =
      consolidatedOrderBook ((pool before odd after).map lift) := by
  unfold gatedConsolidatedOrderBook
  rw [if_neg (Nat.not_lt_zero _), if_neg (Nat.not_lt_zero _), survivingBooks_lift,
    keptBooks_off hpool.exact_books hmad]

end Bounded

/-! ### Deepening the best level -/

def deepenTop (q : ℚ) : List (Level ℚ) → List (Level ℚ)
  | [] => []
  | l :: rest => { l with quantity := q } :: rest

theorem map_price_deepenTop (q : ℚ) (levels : List (Level ℚ)) :
    (deepenTop q levels).map Level.price = levels.map Level.price := by
  cases levels <;> rfl

theorem deepenTop_pos {q : ℚ} (hq : 0 < q) {levels : List (Level ℚ)}
    (h : ∀ l ∈ levels, 0 < l.quantity) : ∀ l ∈ deepenTop q levels, 0 < l.quantity := by
  cases levels with
  | nil => simp [deepenTop]
  | cons l rest =>
    intro l' hl'
    rcases List.mem_cons.mp hl' with rfl | hl'
    · exact hq
    · exact h l' (List.mem_cons_of_mem _ hl')

def OrderBookSnapshot.deepenBid (b : OrderBookSnapshot ℚ) (q : ℚ) : OrderBookSnapshot ℚ :=
  { b with bids := deepenTop q b.bids }

def OrderBookSnapshot.deepenAsk (b : OrderBookSnapshot ℚ) (q : ℚ) : OrderBookSnapshot ℚ :=
  { b with asks := deepenTop q b.asks }

theorem sameQuotes_deepenBid (b : OrderBookSnapshot ℚ) (q : ℚ) : SameQuotes b (b.deepenBid q) :=
  ⟨rfl, rfl, map_price_deepenTop q b.bids, rfl, rfl, rfl⟩

theorem sameQuotes_deepenAsk (b : OrderBookSnapshot ℚ) (q : ℚ) : SameQuotes b (b.deepenAsk q) :=
  ⟨rfl, rfl, rfl, map_price_deepenTop q b.asks, rfl, rfl⟩

theorem deepenBid_pos {b : OrderBookSnapshot ℚ} (hb : ExactBook b) {q : ℚ} (hq : 0 < q) :
    ∀ l ∈ (b.deepenBid q).levels, 0 < l.quantity := by
  intro l hl
  rcases List.mem_append.mp hl with hl | hl
  · exact deepenTop_pos hq (fun l hl => hb.quantity_pos l (List.mem_append_left _ hl)) l hl
  · exact hb.quantity_pos l (List.mem_append_right _ hl)

theorem deepenAsk_pos {b : OrderBookSnapshot ℚ} (hb : ExactBook b) {q : ℚ} (hq : 0 < q) :
    ∀ l ∈ (b.deepenAsk q).levels, 0 < l.quantity := by
  intro l hl
  rcases List.mem_append.mp hl with hl | hl
  · exact hb.quantity_pos l (List.mem_append_left _ hl)
  · exact deepenTop_pos hq (fun l hl => hb.quantity_pos l (List.mem_append_right _ hl)) l hl

section Attack
variable {before after : List (OrderBookSnapshot ℚ)} {odd : OrderBookSnapshot ℚ} {L U : ℚ}

theorem projected_asks_deepenBid (q : ℚ) :
    (projected (pool before (odd.deepenBid q) after)).asks =
      (projected (pool before odd after)).asks := by
  rw [projected_asks, projected_asks, grid_pool (sameQuotes_deepenBid odd q)]
  simp [pool, OrderBookSnapshot.deepenBid]

theorem projected_bids_deepenAsk (q : ℚ) :
    (projected (pool before (odd.deepenAsk q) after)).bids =
      (projected (pool before odd after)).bids := by
  rw [projected_bids, projected_bids, grid_pool (sameQuotes_deepenAsk odd q)]
  simp [pool, OrderBookSnapshot.deepenAsk]

/-- Above the honest range, volume at the best bid moves the price to that bid. -/
theorem VenuePool.pull_up (hpool : VenuePool before odd after L U)
    (hfit : KeysFit (pool before odd after)) (hU : U < odd.bestBid) :
    ∃ q > 0, ∃ fv a, consolidatedOrderBook
        ((pool before (odd.deepenBid q) after).map lift) = some fv ∧
      fv.price = .fin ((odd.bestBid + a) / 2) ∧ QuotedAsk (pool before odd after) a ∧
      odd.bestBid < a := by
  let q := 1 + totalVolume (projected (pool before odd after)).asks
  have hq : 0 < q := by
    have := totalVolume_nonneg (projected_positive hpool.exact_books).2
    change 0 < 1 + _
    linarith
  have hsame := sameQuotes_deepenBid odd q
  have hpool' := hpool.requantify hsame (deepenBid_pos hpool.odd_exact hq)
  have hodd' : odd.deepenBid q ∈ pool before (odd.deepenBid q) after := mem_pool.mpr (.inl rfl)
  obtain ⟨bid, ask, bids, asks, hbids, hasks, hbid, hask, hpos, hlt⟩ := hpool.odd_exact.tops
  have hmem : { bid with quantity := q } ∈ (odd.deepenBid q).bids := by
    simp [OrderBookSnapshot.deepenBid, deepenTop, hbids]
  obtain ⟨fv, a, hfv, hprice, ha, hlta⟩ := consolidatedOrderBook_deepBid hpool'.exact_books
    (hfit.requantify hsame) hodd' hmem hpos
    (by
      intro p hp
      have hle := (hp.requantify hsame).le_of_tops hpool.exact_books fun b hb => (hpool.tops hb).1.2
      rw [max_eq_right hU.le, hbid] at hle
      exact hle)
    (by rw [projected_asks_deepenBid])
    ⟨_, hpool'.odd_exact.quotedAsk hodd', by rw [hsame.bestAsk, hask]; exact hlt⟩
  exact ⟨q, hq, fv, a, hfv, hbid ▸ hprice, ha.requantify hsame, hbid ▸ hlta⟩

/-- Below the honest range, volume at the best ask moves the price to that ask. -/
theorem VenuePool.pull_down (hpool : VenuePool before odd after L U)
    (hfit : KeysFit (pool before odd after)) (hL : odd.bestAsk < L) :
    ∃ q > 0, ∃ fv p, consolidatedOrderBook
        ((pool before (odd.deepenAsk q) after).map lift) = some fv ∧
      fv.price = .fin ((p + odd.bestAsk) / 2) ∧ QuotedBid (pool before odd after) p ∧
      p < odd.bestAsk := by
  let q := 1 + totalVolume (projected (pool before odd after)).bids
  have hq : 0 < q := by
    have := totalVolume_nonneg (projected_positive hpool.exact_books).1
    change 0 < 1 + _
    linarith
  have hsame := sameQuotes_deepenAsk odd q
  have hpool' := hpool.requantify hsame (deepenAsk_pos hpool.odd_exact hq)
  have hodd' : odd.deepenAsk q ∈ pool before (odd.deepenAsk q) after := mem_pool.mpr (.inl rfl)
  obtain ⟨bid, ask, bids, asks, hbids, hasks, hbid, hask, hpos, hlt⟩ := hpool.odd_exact.tops
  have hmem : { ask with quantity := q } ∈ (odd.deepenAsk q).asks := by
    simp [OrderBookSnapshot.deepenAsk, deepenTop, hasks]
  obtain ⟨fv, p, hfv, hprice, hp, hltp⟩ := consolidatedOrderBook_deepAsk hpool'.exact_books
    (hfit.requantify hsame) hodd' hmem (hpos.trans hlt)
    (by
      intro p hp
      have hle := (hp.requantify hsame).ge_of_tops hpool.exact_books fun b hb => (hpool.tops hb).2.1
      rw [min_eq_right hL.le, hask] at hle
      exact hle)
    (by rw [projected_bids_deepenAsk])
    ⟨_, hpool'.odd_exact.quotedBid hodd', by rw [hsame.bestBid, hbid]; exact hlt⟩
  exact ⟨q, hq, fv, p, hfv, hask ▸ hprice, hp.requantify hsame, hask ▸ hltp⟩

/-- A price that stays in the band however deep the odd book is has quotes that hold it there. -/
theorem VenuePool.contained_of_bounded (hpool : VenuePool before odd after L U)
    (hfit : KeysFit (pool before odd after))
    (hmem : ∀ odd', SameQuotes odd odd' → (∀ l ∈ odd'.levels, 0 < l.quantity) → ∀ fv p,
      consolidatedOrderBook ((pool before odd' after).map lift) = some fv →
      fv.price = .fin p → p ∈ band odd L U) : Contained before odd after L U := by
  have hLU := hpool.le
  have hodd := hpool.odd_exact.bestBid_lt_bestAsk
  constructor
  · by_cases hU : U < odd.bestBid
    · obtain ⟨q, hq, fv, a, hfv, hprice, ha, hlt⟩ := hpool.pull_up hfit hU
      exact ⟨a, ha, hlt, (hmem _ (sameQuotes_deepenBid odd q)
        (deepenBid_pos hpool.odd_exact hq) fv _ hfv hprice).2⟩
    · refine ⟨_, hpool.odd_exact.quotedAsk (mem_pool.mpr (.inl rfl)), hodd, ?_⟩
      linarith [odd.bestAsk_eq]
  · by_cases hL : odd.bestAsk < L
    · obtain ⟨q, hq, fv, p, hfv, hprice, hp, hlt⟩ := hpool.pull_down hfit hL
      exact ⟨p, hp, hlt, (hmem _ (sameQuotes_deepenAsk odd q)
        (deepenAsk_pos hpool.odd_exact hq) fv _ hfv hprice).1⟩
    · refine ⟨_, hpool.odd_exact.quotedBid (mem_pool.mpr (.inl rfl)), hodd, ?_⟩
      linarith [odd.bestAsk_eq]

/-- If the middles disperse by at least `1e-10` and the honest prices have keys on every grid, one
venue keeps the price in the band whatever it quotes, also prices and ticks beyond the machine's
integers. If all keys fit, it does so for all its quantities exactly when the middles disperse or
the books' own quotes contain it. -/
theorem one_venue_bounded_iff (hpool : VenuePool before odd after L U) :
    (U ≤ i64Max / 10 ^ 10 →
      1e-10 ≤ medianDeviation ((pool before odd after).map mid) →
      ∀ minSources fv, gatedConsolidatedOrderBook
        ((pool before odd after).map lift) minSources = some fv →
        ∃ p ∈ band odd L U, fv.price = .fin p) ∧
    (KeysFit (pool before odd after) →
      ((∀ odd', SameQuotes odd odd' → (∀ l ∈ odd'.levels, 0 < l.quantity) →
        ∀ minSources ≤ (pool before odd after).length, ∀ fv, gatedConsolidatedOrderBook
          ((pool before odd' after).map lift) minSources = some fv →
          ∃ p ∈ band odd L U, fv.price = .fin p) ↔
        1e-10 ≤ medianDeviation ((pool before odd after).map mid) ∨
          Contained before odd after L U)) := by
  refine ⟨?_, fun hfit => ⟨?_, ?_⟩⟩
  · intro hU hmad minSources fv
    refine hpool.bounded_of_gate hmad fun b hb hhonest g hgrid => ?_
    obtain ⟨g', hgrid', hunit, -⟩ := computeCommonGrid_le (onTick_of_exact fun b hb =>
      hpool.exact_books b (keptBooks_subset _ hb)) (List.ne_nil_of_mem hb)
    rw [ExtRat.fin_inj.mp (hgrid.symm.trans hgrid')]
    have hmax : (0 : ℚ) ≤ i64Max := by norm_num [i64Max]
    linarith [(hpool.honest b hhonest).2.2, mul_le_mul_of_nonneg_left hunit hmax]
  · intro hbounded
    refine or_iff_not_imp_left.mpr fun hmad => ?_
    push Not at hmad
    -- with the gate off, a deepened book's fair value is returned for `minSources = 0`
    refine hpool.contained_of_bounded hfit fun odd' hsame hq fv p hfv hp => ?_
    have hmad' : medianDeviation ((pool before odd' after).map mid) < 1e-10 := by
      rwa [map_pool _ hsame.mid]
    obtain ⟨p', hp', hprice⟩ := hbounded odd' hsame hq 0 (Nat.zero_le _) fv
      ((hpool.requantify hsame hq).gated_zero hmad' ▸ hfv)
    rwa [ExtRat.fin_inj.mp (hp.symm.trans hprice)]
  · intro hcond odd' hsame hq minSources _ fv hfv
    have hpool' := hpool.requantify hsame hq
    have hfit' := hfit.requantify hsame
    have hband : band odd' L U = band odd L U := by
      simp only [band, OrderBookSnapshot.halfSpread, hsame.bestBid, hsame.bestAsk]
    rw [← hband]
    by_cases hmad : 1e-10 ≤ medianDeviation ((pool before odd' after).map mid)
    · have hsub := keptBooks_subset (pool before odd' after)
      exact hpool'.bounded_of_gate hmad (fun b hb _ =>
        (hfit'.subset hpool'.exact_books hsub).bestAsk_le
          (fun b hb => hpool'.exact_books b (hsub hb)) hb) hfv
    · have hcontained : Contained before odd after L U :=
        hcond.resolve_left (by rwa [map_pool _ hsame.mid] at hmad)
      push Not at hmad
      exact hpool'.bounded_of_contained hfit' (hcontained.requantify hsame)
        (hpool'.gated_off hmad minSources hfv)

end Attack

/-- Two honest venues and a third one make a pool. -/
theorem venuePool_three {b odd : OrderBookSnapshot ℚ} (hb : ExactBook b) (hodd : ExactBook odd)
    (hsources : ["a", b.source, odd.source].Nodup) {U : ℚ}
    (honest : ∀ c ∈ [calm "a", b], c.bestBid ∈ Set.Icc 100 U ∧ c.bestAsk ∈ Set.Icc 100 U) :
    VenuePool [calm "a", b] odd [] 100 U := by
  refine ⟨le_rfl, ?_, ?_, by rwa [List.append_nil]⟩
  · intro c hc
    simp only [pool, List.cons_append, List.nil_append, List.mem_cons, List.not_mem_nil,
      or_false] at hc
    rcases hc with rfl | rfl | rfl
    · exact calm_exact "a"
    · exact hb
    · exact hodd
  · exact hsources

def honestPair : List (OrderBookSnapshot ℚ) := [calm "a", calmHigher "b"]

/-- Honest venues two cents apart keep the gate on, and the rogue venue has no effect, also with
prices that no key can hold. -/
theorem one_venue_bounded_dispersed :
    VenuePool honestPair (rogue "r") [] 100 (10003 / 100) ∧
      KeysFit (pool honestPair (rogue "r") []) ∧
      (∀ odd', SameQuotes (rogue "r") odd' → (∀ l ∈ odd'.levels, 0 < l.quantity) →
        ∀ minSources ≤ (pool honestPair (rogue "r") []).length, ∀ fv,
          gatedConsolidatedOrderBook ((pool honestPair odd' []).map lift) minSources = some fv →
          ∃ p ∈ band (rogue "r") 100 (10003 / 100), fv.price = .fin p) ∧
      VenuePool honestPair (beyond "r") [] 100 (10003 / 100) ∧
      ¬ KeysFit (pool honestPair (beyond "r") []) ∧
      (gatedConsolidatedOrderBook ((pool honestPair (beyond "r") []).map lift) 2).isSome ∧
      ∀ minSources fv, gatedConsolidatedOrderBook
        ((pool honestPair (beyond "r") []).map lift) minSources = some fv →
        ∃ p ∈ band (beyond "r") 100 (10003 / 100), fv.price = .fin p := by
  have hpool : VenuePool honestPair (rogue "r") [] 100 (10003 / 100) :=
    venuePool_three (calmHigher_exact "b") (rogue_exact "r") (by decide) (by decide +kernel)
  have hfit : KeysFit (pool honestPair (rogue "r") []) := ⟨by decide +kernel, by decide +kernel⟩
  have hbeyond : VenuePool honestPair (beyond "r") [] 100 (10003 / 100) :=
    venuePool_three (calmHigher_exact "b") (beyond_exact "r") (by decide) (by decide +kernel)
  exact ⟨hpool, hfit, ((one_venue_bounded_iff hpool).2 hfit).mpr (.inl (by decide +kernel)),
    hbeyond, fun h => absurd h.keys (by decide +kernel), by decide +kernel,
    (one_venue_bounded_iff hbeyond).1 (by decide +kernel) (by decide +kernel)⟩

/-- Two venues with equal books and a third at twice the price: the middles do not disperse,
the gate passes all three, and the price is the rogue venue's own. -/
theorem one_venue_pulls_price :
    VenuePool [calm "a", calm "b"] (rogue "r") [] 100 (10001 / 100) ∧
      KeysFit (pool [calm "a", calm "b"] (rogue "r") []) ∧
      (gatedConsolidatedOrderBook ((pool [calm "a", calm "b"] (rogue "r") []).map lift) 3).map
        FairValue.price = some (.fin (200005 / 1000)) ∧
      200005 / 1000 ∉ band (rogue "r") 100 (10001 / 100) := by
  refine ⟨venuePool_three (calm_exact "b") (rogue_exact "r") (by decide) (by decide +kernel),
    ⟨by decide +kernel, by decide +kernel⟩, by decide +kernel, ?_⟩
  unfold band
  decide +kernel

end Nuntius.ConsolidatedBook
