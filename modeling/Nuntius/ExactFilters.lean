import Nuntius.Aggregator

/-!
# The deviation filter over exact rationals

On finite prices the median and the median absolute deviation computed by the
aggregator are those of the rational values, so the filter is a rational comparison.
-/

namespace Nuntius

/-- The rational under a finite value. -/
def ExtRat.toRat : ExtRat → ℚ
  | .fin q => q
  | _ => 0

@[simp] theorem ExtRat.toRat_fin (q : ℚ) : (ExtRat.fin q).toRat = q := rfl

theorem ExtRat.fin_toRat {x : ExtRat} (h : F64.isFinite x = true) : .fin x.toRat = x := by
  cases x with
  | fin q => rfl
  | nan | negInf | posInf => exact absurd h (by decide)

namespace Aggregator
open OrderStatistics

theorem middleFloat_fin (l : List ℚ) : middleFloat (l.map ExtRat.fin) = .fin (middle l) := by
  have hget : ∀ i, (l.map ExtRat.fin).getD i (F64.lit 0) = .fin (l.getD i 0) := by
    intro i
    simp [List.getD_eq_getElem?_getD, Option.getD_map]
  unfold middleFloat middle
  rw [List.length_map]
  split
  · rw [hget, hget]
    simp
  · exact hget _

theorem medianSorted_fin (l : List ℚ) : medianSorted (l.map ExtRat.fin) = .fin (median l) := by
  rw [medianSorted, sortFloats_fin, middleFloat_fin]
  rfl

/-- The rational prices of a list of samples. -/
def exactPrices (prices : List (PricePoint ExtRat)) : List ℚ := prices.map (fun p => p.price.toRat)

def FinitePrices (prices : List (PricePoint ExtRat)) : Prop :=
  ∀ p ∈ prices, F64.isFinite p.price = true

theorem FinitePrices.map_price {prices : List (PricePoint ExtRat)} (h : FinitePrices prices) :
    prices.map PricePoint.price = (exactPrices prices).map ExtRat.fin := by
  rw [exactPrices, List.map_map]
  exact List.map_congr_left (fun p hp => (ExtRat.fin_toRat (h p hp)).symm)

/-- The threshold that the filter compares with. -/
def exactThreshold (prices : List (PricePoint ExtRat)) (sigma : ℚ) (capBps : ℕ) : ExtRat :=
  outlierThreshold (.fin (median (exactPrices prices)))
    (.fin (medianDeviation (exactPrices prices)))
    (.fin sigma) capBps

theorem rejectOutliersWithCap_exact {prices : List (PricePoint ExtRat)} (h : FinitePrices prices)
    (hlen : 3 ≤ prices.length) (sigma : ℚ) (capBps : ℕ) :
    rejectOutliersWithCap prices (.fin sigma) capBps =
      if F64.isFinite (exactThreshold prices sigma capBps) then
        prices.filter (fun p => F64.le
          (F64.abs (p.price - .fin (median (exactPrices prices))))
          (exactThreshold prices sigma capBps))
      else prices := by
  have hmad : medianSorted (((sorted (exactPrices prices)).map ExtRat.fin).map
      (fun p => F64.abs (p - .fin (middle (sorted (exactPrices prices)))))) =
      .fin (medianDeviation (exactPrices prices)) := by
    rw [medianDeviation, ← medianSorted_fin]
    simp [median, Function.comp_def]
  unfold rejectOutliersWithCap exactThreshold
  rw [if_neg (by omega)]
  simp only [h.map_price, sortFloats_fin, middleFloat_fin, hmad]
  rfl

/-- The survivors of a finite threshold are the samples within it of the median. -/
theorem mem_rejectOutliersWithCap {prices : List (PricePoint ExtRat)} (h : FinitePrices prices)
    (hlen : 3 ≤ prices.length) {sigma : ℚ} {capBps : ℕ} {t : ℚ}
    (ht : exactThreshold prices sigma capBps = .fin t) {p : PricePoint ExtRat} :
    p ∈ rejectOutliersWithCap prices (.fin sigma) capBps ↔
      p ∈ prices ∧ |p.price.toRat - median (exactPrices prices)| ≤ t := by
  rw [rejectOutliersWithCap_exact h hlen, ht, if_pos (ExtRat.fin_isFinite t), List.mem_filter]
  refine and_congr_right fun hp => ?_
  rw [← ExtRat.fin_toRat (h p hp)]
  simp

/-- With a positive cap the threshold is finite and at most the capped share of the median. -/
theorem exactThreshold_capped (prices : List (PricePoint ExtRat)) (sigma : ℚ) {capBps : ℕ}
    (hcap : capBps ≠ 0) : ∃ t, exactThreshold prices sigma capBps = .fin t ∧
      t ≤ |median (exactPrices prices)| * capBps / 10000 := by
  unfold exactThreshold outlierThreshold
  by_cases hmad : medianDeviation (exactPrices prices) < 1e-10
  · exact ⟨_, by simp [hcap, hmad], le_rfl⟩
  · refine ⟨min (sigma * 1.4826 * medianDeviation (exactPrices prices)) _, ?_, min_le_right _ _⟩
    simp [hcap, hmad]

/-- Without a cap, a dispersion below `1e-10` switches the filter off. -/
theorem rejectOutliers_off {prices : List (PricePoint ExtRat)} (h : FinitePrices prices)
    {sigma : ℚ} (hmad : medianDeviation (exactPrices prices) < 1e-10) :
    rejectOutliers prices (.fin sigma) = prices := by
  by_cases hlen : 3 ≤ prices.length
  · have ht : exactThreshold prices sigma 0 = .posInf := by
      simp [exactThreshold, outlierThreshold, hmad]
    rw [rejectOutliers, rejectOutliersWithCap_exact h hlen, ht]
    simp
  · rw [rejectOutliers, rejectOutliersWithCap, if_pos (by omega)]

/-- Without a cap, any other dispersion bounds the distance to the median. -/
theorem exactThreshold_uncapped {prices : List (PricePoint ExtRat)} (sigma : ℚ)
    (hmad : 1e-10 ≤ medianDeviation (exactPrices prices)) :
    exactThreshold prices sigma 0 =
      .fin (sigma * 1.4826 * medianDeviation (exactPrices prices)) := by
  simp [exactThreshold, outlierThreshold, not_lt.mpr hmad]

end Aggregator

end Nuntius
