import Nuntius.ExactFilters

/-!
# What the deviation filter keeps

The filter keeps the samples within a threshold of the median. The threshold is the smaller
of a multiple of the median absolute deviation and a share of the median, and either may be
absent. So the filter is stricter when one of the two shrinks, and the deviation alone never
drops more than half of the samples.
-/

namespace Nuntius.Aggregator
open OrderStatistics

/-- Within the multiple of the dispersion, where that is a scale at all, and within the cap,
where there is one. -/
structure Survives (prices : List ℚ) (sigma : ℚ) (capBps : ℕ) (price : ℚ) : Prop where
  deviation : 1e-10 ≤ medianDeviation prices →
    |price - median prices| ≤ sigma * 1.4826 * medianDeviation prices
  cap : capBps ≠ 0 → |price - median prices| ≤ |median prices| * capBps / 10000

theorem survives_iff {prices : List ℚ} {sigma : ℚ} {capBps : ℕ} {price : ℚ} :
    Survives prices sigma capBps price ↔
      (1e-10 ≤ medianDeviation prices →
        |price - median prices| ≤ sigma * 1.4826 * medianDeviation prices) ∧
      (capBps ≠ 0 → |price - median prices| ≤ |median prices| * capBps / 10000) :=
  ⟨fun h => ⟨h.deviation, h.cap⟩, fun h => ⟨h.1, h.2⟩⟩

instance (prices : List ℚ) (sigma : ℚ) (capBps : ℕ) (price : ℚ) :
    Decidable (Survives prices sigma capBps price) := decidable_of_iff' _ survives_iff

variable {prices : List (PricePoint ExtRat)}

/-- A finite threshold that says the same as the two limits. -/
theorem eq_filter_of_threshold (h : FinitePrices prices) (hlen : 3 ≤ prices.length) {sigma t : ℚ}
    {capBps : ℕ} (hthreshold : exactThreshold prices sigma capBps = .fin t)
    (ht : ∀ x : ℚ, |x - median (exactPrices prices)| ≤ t ↔
      Survives (exactPrices prices) sigma capBps x) :
    rejectOutliersWithCap prices (.fin sigma) capBps =
      prices.filter (fun p => Survives (exactPrices prices) sigma capBps p.price.toRat) := by
  rw [rejectOutliersWithCap_exact h hlen, hthreshold, if_pos (ExtRat.fin_isFinite t)]
  apply List.filter_congr
  intro p hp
  obtain ⟨q, hq⟩ : ∃ q, p.price = .fin q := ⟨_, (ExtRat.fin_toRat (h p hp)).symm⟩
  rw [Bool.eq_iff_iff, decide_eq_true_eq, ← ht, hq]
  simp

/-- On at least three finite prices the filter is one comparison for each sample. -/
theorem rejectOutliersWithCap_eq_filter (h : FinitePrices prices) (hlen : 3 ≤ prices.length)
    (sigma : ℚ) (capBps : ℕ) :
    rejectOutliersWithCap prices (.fin sigma) capBps =
      prices.filter (fun p => Survives (exactPrices prices) sigma capBps p.price.toRat) := by
  by_cases hmad : medianDeviation (exactPrices prices) < 1e-10
  · by_cases hcap : capBps = 0
    -- no dispersion and no cap: the threshold is infinite
    · have ht : exactThreshold prices sigma capBps = .posInf := by
        simp [exactThreshold, outlierThreshold, hmad, hcap]
      rw [rejectOutliersWithCap_exact h hlen, ht, ExtRat.posInf_isFinite, if_neg Bool.false_ne_true]
      symm
      apply List.filter_eq_self.mpr
      intro p hp
      simp [survives_iff, hcap, not_le.mpr hmad]
    · have ht : exactThreshold prices sigma capBps =
          .fin (|median (exactPrices prices)| * capBps / 10000) := by
        simp [exactThreshold, outlierThreshold, hmad, hcap]
      apply eq_filter_of_threshold h hlen ht
      intro x
      simp [survives_iff, hcap, not_le.mpr hmad]
  · by_cases hcap : capBps = 0
    · have ht : exactThreshold prices sigma capBps =
          .fin (sigma * 1.4826 * medianDeviation (exactPrices prices)) := by
        simp [exactThreshold, outlierThreshold, hmad, hcap]
      apply eq_filter_of_threshold h hlen ht
      intro x
      simp [survives_iff, hcap, not_lt.mp hmad]
    · have ht : exactThreshold prices sigma capBps =
          .fin (min (sigma * 1.4826 * medianDeviation (exactPrices prices))
            (|median (exactPrices prices)| * capBps / 10000)) := by
        simp [exactThreshold, outlierThreshold, hmad, hcap]
      apply eq_filter_of_threshold h hlen ht
      intro x
      simp [survives_iff, hcap, not_lt.mp hmad]

/-- Whoever survives a stricter pair of limits survives a looser one. -/
theorem rejectOutliersWithCap_sublist_of_imp (h : FinitePrices prices) {sigma sigma' : ℚ}
    {capBps capBps' : ℕ}
    (himp : ∀ x, Survives (exactPrices prices) sigma capBps x →
      Survives (exactPrices prices) sigma' capBps' x) :
    (rejectOutliersWithCap prices (.fin sigma) capBps).Sublist
      (rejectOutliersWithCap prices (.fin sigma') capBps') := by
  by_cases hlen : 3 ≤ prices.length
  · rw [rejectOutliersWithCap_eq_filter h hlen, rejectOutliersWithCap_eq_filter h hlen]
    apply List.monotone_filter_right
    intro p hp
    simp only [decide_eq_true_eq] at hp ⊢
    exact himp _ hp
  · unfold rejectOutliersWithCap
    rw [if_pos (by omega), if_pos (by omega)]

theorem Survives.mono_sigma {l : List ℚ} {sigma sigma' : ℚ} {capBps : ℕ} {x : ℚ}
    (hle : sigma ≤ sigma') (h : Survives l sigma capBps x) : Survives l sigma' capBps x := by
  refine ⟨?_, h.cap⟩
  intro hmad
  have hpos : (0 : ℚ) ≤ medianDeviation l := le_trans (by norm_num) hmad
  exact (h.deviation hmad).trans (by gcongr)

theorem Survives.mono_cap {l : List ℚ} {sigma : ℚ} {capBps capBps' : ℕ} {x : ℚ}
    (hpos : 0 < capBps) (hle : capBps ≤ capBps') (h : Survives l sigma capBps x) :
    Survives l sigma capBps' x := by
  refine ⟨h.deviation, ?_⟩
  intro _
  have hcast : (capBps : ℚ) ≤ capBps' := by exact_mod_cast hle
  exact (h.cap hpos.ne').trans (by gcongr)

theorem Survives.without_cap {l : List ℚ} {sigma : ℚ} {capBps : ℕ} {x : ℚ}
    (h : Survives l sigma capBps x) : Survives l sigma 0 x := by
  refine ⟨h.deviation, ?_⟩
  intro h0
  exact absurd rfl h0

/-- A factor of at least one on the median deviation keeps at least half of the samples. -/
theorem half_survive (h : FinitePrices prices) {sigma : ℚ} (hsigma : 1 ≤ 1.4826 * sigma) :
    prices.length ≤ 2 * (rejectOutliersWithCap prices (.fin sigma) 0).length := by
  by_cases hlen : 3 ≤ prices.length
  · have hcount := length_le_countP_le_median
      ((sorted (exactPrices prices)).map (fun a => |a - median (exactPrices prices)|))
    rw [List.length_map, length_sorted, List.countP_map, (sorted_perm _).countP_eq, exactPrices,
      List.length_map, List.countP_map] at hcount
    rw [rejectOutliersWithCap_eq_filter h hlen, ← List.countP_eq_length_filter]
    refine hcount.trans (Nat.mul_le_mul_left 2 (List.countP_mono_left ?_))
    intro p _ hp
    simp only [Function.comp_apply, decide_eq_true_eq] at hp ⊢
    refine ⟨?_, fun h0 => absurd rfl h0⟩
    intro hmad
    calc |p.price.toRat - median (exactPrices prices)|
        ≤ medianDeviation (exactPrices prices) := hp
      _ ≤ sigma * 1.4826 * medianDeviation (exactPrices prices) := by
          have hpos : (0 : ℚ) ≤ medianDeviation (exactPrices prices) := le_trans (by norm_num) hmad
          nlinarith
  · unfold rejectOutliersWithCap
    rw [if_pos (by omega)]
    omega

/-- The survivors are samples in their order; without a cap at least half survive; a smaller
cap or a smaller factor only rejects more. -/
theorem outlier_filter_keeps_majority (h : FinitePrices prices) :
    (∀ sigma : ℚ, 1 ≤ 1.4826 * sigma →
      (∀ capBps, (rejectOutliersWithCap prices (.fin sigma) capBps).Sublist prices) ∧
      (prices.length + 1) / 2 ≤ (rejectOutliersWithCap prices (.fin sigma) 0).length ∧
      ∀ c₁ c₂, 0 < c₁ → c₁ ≤ c₂ →
        (rejectOutliersWithCap prices (.fin sigma) c₁).Sublist
          (rejectOutliersWithCap prices (.fin sigma) c₂) ∧
        (rejectOutliersWithCap prices (.fin sigma) c₂).Sublist
          (rejectOutliersWithCap prices (.fin sigma) 0)) ∧
    ∀ (sigma₁ sigma₂ : ℚ) (capBps : ℕ), sigma₁ ≤ sigma₂ →
      (rejectOutliersWithCap prices (.fin sigma₁) capBps).Sublist
        (rejectOutliersWithCap prices (.fin sigma₂) capBps) := by
  constructor
  · intro sigma hsigma
    refine ⟨fun capBps => rejectOutliersWithCap_sublist prices _ capBps, ?_, ?_⟩
    · have hhalf := half_survive h hsigma
      omega
    · intro c₁ c₂ hpos hle
      exact ⟨rejectOutliersWithCap_sublist_of_imp h fun _ hx => hx.mono_cap hpos hle,
        rejectOutliersWithCap_sublist_of_imp h fun _ hx => hx.without_cap⟩
  · intro sigma₁ sigma₂ capBps hle
    exact rejectOutliersWithCap_sublist_of_imp h fun _ hx => hx.mono_sigma hle

def pricedSample (price : ℚ) : PricePoint ExtRat := ⟨.fin price, .fin 1, "a", 1700000000⟩

theorem outlier_filter_keeps_majority_three :
    (∀ sigma : ℚ, 1 ≤ 1.4826 * sigma →
      (∀ capBps, (rejectOutliersWithCap ([100, 101, 150].map pricedSample) (.fin sigma)
        capBps).Sublist ([100, 101, 150].map pricedSample)) ∧
      (([100, 101, 150].map pricedSample).length + 1) / 2 ≤
        (rejectOutliersWithCap ([100, 101, 150].map pricedSample) (.fin sigma) 0).length ∧
      ∀ c₁ c₂, 0 < c₁ → c₁ ≤ c₂ →
        (rejectOutliersWithCap ([100, 101, 150].map pricedSample) (.fin sigma) c₁).Sublist
          (rejectOutliersWithCap ([100, 101, 150].map pricedSample) (.fin sigma) c₂) ∧
        (rejectOutliersWithCap ([100, 101, 150].map pricedSample) (.fin sigma) c₂).Sublist
          (rejectOutliersWithCap ([100, 101, 150].map pricedSample) (.fin sigma) 0)) ∧
    ∀ (sigma₁ sigma₂ : ℚ) (capBps : ℕ), sigma₁ ≤ sigma₂ →
      (rejectOutliersWithCap ([100, 101, 150].map pricedSample) (.fin sigma₁) capBps).Sublist
        (rejectOutliersWithCap ([100, 101, 150].map pricedSample) (.fin sigma₂) capBps) :=
  outlier_filter_keeps_majority (by unfold FinitePrices; decide)

end Nuntius.Aggregator
