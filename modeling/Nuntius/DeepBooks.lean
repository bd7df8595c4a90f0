import Nuntius.ExactBooks

/-!
# Books with one deep level

A best level that holds more than the whole opposite side survives clearing, and the fair
value is then the middle between it and the nearest opposite quote it does not cross.
-/

namespace Nuntius.ConsolidatedBook

variable {books : List (OrderBookSnapshot ℚ)} (hbooks : ∀ b ∈ books, ExactBook b)
  (hfit : KeysFit books)
include hbooks hfit

/-- A level with more than the opposite volume is deep in the projected map. -/
theorem deep_of_level {side : OrderBookSnapshot ℚ → List (Level ℚ)} (hside : ∀ b, side b ⊆ b.levels)
    {b : OrderBookSnapshot ℚ} (hb : b ∈ books) {l : Level ℚ} (hl : l ∈ side b) (hpos : 0 < l.price)
    {z : ℤ} (hz : l.price = z * grid books) {shallow : Ladder ℤ ExtRat}
    (hdeep : 1 + totalVolume shallow ≤ l.quantity) :
    Deep z (addLevels (.fin (1 / grid books)) .empty
      (books.flatMap fun b => (side b).map Level.lift)) shallow := by
  have hlev := hside b hl
  have hskip : skipped l.lift = false := by
    rw [skipped_lift ((hbooks b hb).quantity_pos l hlev)]
    simpa using hpos
  obtain ⟨w, hw, hmem⟩ := quantity_le_addLevels
    (finiteQuantities_flatMap (fun b hb => (hbooks b hb).quantity_pos) hside)
    (.fin (1 / grid books))
    positive_empty (List.mem_flatMap.mpr ⟨b, hb, List.mem_map_of_mem hl⟩) hskip rfl
  have hkey : gridKey (.fin (1 / grid books)) l.lift.price = z :=
    gridKey_eq (grid_pos (onTick_of_exact hbooks) (List.ne_nil_of_mem hb)) hz hpos
      (hfit.keys b hb l hlev)
  exact ⟨w, hkey ▸ hmem, hdeep.trans hw⟩

/-- When both sides keep a level, a fair value is returned, and no remaining key is better
than the ones it uses. -/
theorem consolidatedOrderBook_returns (hne : books ≠ []) {s : Sides ExtRat}
    (hs : clearCrossing (projected books) = some s) {x y : ℤ} (hx : x ∈ s.bids.keys)
    (hy : y ∈ s.asks.keys) :
    ∃ fv, ∃ kb ka : ℤ, consolidatedOrderBook (books.map OrderBookSnapshot.lift) = some fv ∧
      fv.price = .fin ((kb * grid books + ka * grid books) / 2) ∧
      Settlement books (kb * grid books) (ka * grid books) ∧
      (kb ∈ s.bids.keys ∧ x ≤ kb) ∧ ka ∈ s.asks.keys ∧ ka ≤ y := by
  obtain ⟨⟨kb, vb⟩, hmax⟩ := Ladder.greatest?_isSome hx
  obtain ⟨⟨ka, va⟩, hmin⟩ := Ladder.least?_isSome hy
  obtain ⟨hkb, hkbmax⟩ := Ladder.greatest?_eq_some hmax
  obtain ⟨hka, hkamin⟩ := Ladder.least?_eq_some hmin
  obtain ⟨fv, hfv⟩ : ∃ fv, fairValue (.fin (grid books)) books.length s = some fv := by
    simp [fairValue, hmax, hmin]
  obtain ⟨kb', vb', ka', va', hmax', hmin', hprice, -⟩ := fairValue_eq_some hfv
  obtain ⟨rfl, rfl⟩ := Prod.mk.inj (Option.some.inj (hmax.symm.trans hmax'))
  obtain ⟨rfl, rfl⟩ := Prod.mk.inj (Option.some.inj (hmin.symm.trans hmin'))
  refine ⟨fv, kb, ka, ?_, hprice, settlement_of_cleared hbooks hfit hne hs hmax hmin,
    ⟨hkb, hkbmax x hx⟩, hka, hkamin y hy⟩
  rw [consolidatedOrderBook_lift hbooks hfit hne, hs]
  exact hfv

/-- A best bid deeper than the whole ask side buys everything up to its own price. -/
theorem consolidatedOrderBook_deepBid {b : OrderBookSnapshot ℚ} (hb : b ∈ books) {l : Level ℚ}
    (hl : l ∈ b.bids) (hpos : 0 < l.price)
    (htop : ∀ p, QuotedBid books p → p ≤ l.price)
    (hdeep : 1 + totalVolume (projected books).asks ≤ l.quantity)
    (habove : ∃ a, QuotedAsk books a ∧ l.price < a) :
    ∃ fv a, consolidatedOrderBook (books.map OrderBookSnapshot.lift) = some fv ∧
      fv.price = .fin ((l.price + a) / 2) ∧ QuotedAsk books a ∧ l.price < a := by
  have hne := List.ne_nil_of_mem hb
  have hg := grid_pos (onTick_of_exact hbooks) hne
  have hpositive := projected_positive hbooks
  obtain ⟨z, hz⟩ := (onTick_of_exact hbooks b hb).on_grid hb (List.mem_append_left _ hl)
  obtain ⟨s, hs⟩ := hpositive.clearCrossing_returns
  have hentry : Deep z (projected books).bids (projected books).asks := by
    rw [projected_bids]
    exact deep_of_level hbooks hfit (fun b => List.subset_append_left _ _) hb hl hpos hz hdeep
  have hle : ∀ k ∈ (projected books).bids.keys, k ≤ z := by
    intro k hk
    have hprice := htop _ ((mem_projected_bids hbooks hfit).mp hk)
    rw [hz] at hprice
    exact_mod_cast le_of_mul_le_mul_right hprice hg
  have hzs := deepBid_survives hpositive hentry hle hs
  obtain ⟨a, ha, hlt⟩ := habove
  obtain ⟨y, rfl⟩ := ha.exists_key hbooks
  -- no bid reaches the ask above, so it is still there
  have hys : y ∈ s.asks.keys := by
    refine (clearLoop_cleared hs).asks_kept y ((mem_projected_asks hbooks hfit).mpr ha) ?_
    intro k hk
    rw [hz] at hlt
    exact (hle k hk).trans_lt (by exact_mod_cast lt_of_mul_lt_mul_right hlt hg.le)
  obtain ⟨fv, kb, ka, hfv, hprice, hsettle, ⟨hkb, hzkb⟩, -⟩ :=
    consolidatedOrderBook_returns hbooks hfit hne hs hzs hys
  obtain rfl : kb = z := le_antisymm (hle kb ((clearLoop_cleared hs).bids_subset kb hkb)) hzkb
  rw [hz]
  exact ⟨fv, _, hfv, hprice, hsettle.ask_quoted, hsettle.uncrossed⟩

/-- A best ask deeper than the whole bid side sells everything down to its own price. -/
theorem consolidatedOrderBook_deepAsk {b : OrderBookSnapshot ℚ} (hb : b ∈ books) {l : Level ℚ}
    (hl : l ∈ b.asks) (hpos : 0 < l.price)
    (hbottom : ∀ p, QuotedAsk books p → l.price ≤ p)
    (hdeep : 1 + totalVolume (projected books).bids ≤ l.quantity)
    (hbelow : ∃ p, QuotedBid books p ∧ p < l.price) :
    ∃ fv p, consolidatedOrderBook (books.map OrderBookSnapshot.lift) = some fv ∧
      fv.price = .fin ((p + l.price) / 2) ∧ QuotedBid books p ∧ p < l.price := by
  have hne := List.ne_nil_of_mem hb
  have hg := grid_pos (onTick_of_exact hbooks) hne
  have hpositive := projected_positive hbooks
  obtain ⟨z, hz⟩ := (onTick_of_exact hbooks b hb).on_grid hb (List.mem_append_right _ hl)
  obtain ⟨s, hs⟩ := hpositive.clearCrossing_returns
  have hentry : Deep z (projected books).asks (projected books).bids := by
    rw [projected_asks]
    exact deep_of_level hbooks hfit (fun b => List.subset_append_right _ _) hb hl hpos hz hdeep
  have hge : ∀ k ∈ (projected books).asks.keys, z ≤ k := by
    intro k hk
    have hprice := hbottom _ ((mem_projected_asks hbooks hfit).mp hk)
    rw [hz] at hprice
    exact_mod_cast le_of_mul_le_mul_right hprice hg
  have hzs := deepAsk_survives hpositive hentry hge hs
  obtain ⟨p, hp, hlt⟩ := hbelow
  obtain ⟨y, rfl⟩ := hp.exists_key hbooks
  have hys : y ∈ s.bids.keys := by
    refine (clearLoop_cleared hs).bids_kept y ((mem_projected_bids hbooks hfit).mpr hp) ?_
    intro k hk
    rw [hz] at hlt
    exact lt_of_lt_of_le (by exact_mod_cast lt_of_mul_lt_mul_right hlt hg.le) (hge k hk)
  obtain ⟨fv, kb, ka, hfv, hprice, hsettle, -, hka, hkaz⟩ :=
    consolidatedOrderBook_returns hbooks hfit hne hs hys hzs
  obtain rfl : ka = z := le_antisymm hkaz (hge ka ((clearLoop_cleared hs).asks_subset ka hka))
  rw [hz]
  exact ⟨fv, _, hfv, hprice, hsettle.bid_quoted, hsettle.uncrossed⟩

end Nuntius.ConsolidatedBook
