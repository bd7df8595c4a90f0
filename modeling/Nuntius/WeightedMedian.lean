import Nuntius.ExactFilters
import Nuntius.RunningWeights

/-!
# The weighted median over exact rationals

The aggregator walks the price-sorted weights until half of the total is reached. That price
has less than half of the weight strictly below it and at most half strictly above, and it
does not depend on the order of the samples.
-/

namespace Nuntius.Aggregator
open OrderStatistics RunningWeights

def PricePoint.lift (p : PricePoint ℚ) : PricePoint ExtRat where
  price := .fin p.price
  volume := .fin p.volume
  source := p.source
  serverTime := p.serverTime

def PricePoint.exact (p : PricePoint ExtRat) : PricePoint ℚ where
  price := p.price.toRat
  volume := p.volume.toRat
  source := p.source
  serverTime := p.serverTime

theorem PricePoint.lift_exact {p : PricePoint ExtRat} (hprice : F64.isFinite p.price = true)
    (hvolume : F64.isFinite p.volume = true) : p.exact.lift = p := by
  simp only [exact, lift, ExtRat.fin_toRat hprice, ExtRat.fin_toRat hvolume]

/-- The volumes that are positive. -/
def positiveVolumes (samples : List (PricePoint ℚ)) : List ℚ :=
  (samples.filter fun p => 0 < p.volume).map PricePoint.volume

/-- Most samples report a volume. -/
def VolumeQuorum (samples : List (PricePoint ℚ)) : Prop :=
  samples.length < 2 * (positiveVolumes samples).length

instance (samples : List (PricePoint ℚ)) : Decidable (VolumeQuorum samples) :=
  inferInstanceAs (Decidable (_ < _))

/-- Equal weights without a quorum; else the volume, capped at five times the median of the
positive volumes, and one for a volume of zero. -/
def exactWeight (samples : List (PricePoint ℚ)) (p : PricePoint ℚ) : ℚ :=
  if VolumeQuorum samples then
    if 0 < p.volume then min p.volume (5 * median (positiveVolumes samples)) else 1
  else 1

/-- The samples' prices with their weights. -/
def weighted (samples : List (PricePoint ℚ)) : List (ℚ × ℚ) :=
  samples.map fun p => (p.price, exactWeight samples p)

/-! ### The program on exact samples -/

section Lift
variable (samples : List (PricePoint ℚ))

theorem useVolume_lift :
    useVolume (samples.map PricePoint.lift) = decide (VolumeQuorum samples) := by
  have hcount : (samples.map PricePoint.lift).countP
      (fun p => F64.lt (F64.lit 0) p.volume) = (positiveVolumes samples).length := by
    rw [positiveVolumes, List.length_map, ← List.countP_eq_length_filter, List.countP_map]
    rfl
  unfold useVolume VolumeQuorum
  rw [hcount, List.length_map, mul_comm]
  exact decide_eq_decide.mpr Iff.rfl

theorem volumeCap_lift :
    volumeCap (samples.map PricePoint.lift) =
      if VolumeQuorum samples then some (.fin (5 * median (positiveVolumes samples)))
      else none := by
  have hpositive : ((samples.map PricePoint.lift).filter (fun p => F64.lt (F64.lit 0) p.volume)).map
      PricePoint.volume = (positiveVolumes samples).map ExtRat.fin := by
    rw [List.filter_map, List.map_map, positiveVolumes, List.map_map]
    rfl
  unfold volumeCap
  rw [useVolume_lift, hpositive, medianSorted_fin, ExtRat.lit_eq, ExtRat.fin_mul, mul_comm]
  simp only [decide_eq_true_eq]
  rfl

theorem sampleWeight_lift (p : PricePoint ℚ) :
    sampleWeight (samples.map PricePoint.lift) p.lift = .fin (exactWeight samples p) := by
  have hlt : F64.lt (F64.lit 0) p.lift.volume = decide (0 < p.volume) := ExtRat.fin_lt 0 p.volume
  unfold sampleWeight exactWeight
  rw [useVolume_lift, volumeCap_lift, hlt]
  by_cases hquorum : VolumeQuorum samples
  · by_cases hvolume : 0 < p.volume
    · simp only [hquorum, hvolume, decide_true, Bool.and_self, if_true]
      exact ExtRat.fin_min _ _
    · simp [hquorum, hvolume]
  · simp [hquorum]

/-- The weighted prices in increasing order. -/
def sortedWeights : List (ℚ × ℚ) := (weighted samples).insertionSort (fun a b => a.1 ≤ b.1)

def liftPair (e : ℚ × ℚ) : ExtRat × ExtRat := (.fin e.1, .fin e.2)

theorem weightedSamples_lift :
    weightedSamples (samples.map PricePoint.lift) = (sortedWeights samples).map liftPair := by
  have hmap : (samples.map PricePoint.lift).map
      (fun p => (p.price, sampleWeight (samples.map PricePoint.lift) p)) =
      (weighted samples).map liftPair := by
    rw [weighted, List.map_map, List.map_map]
    apply List.map_congr_left
    intro p _
    simp only [Function.comp_apply, sampleWeight_lift]
    rfl
  rw [weightedSamples, hmap, sortedWeights]
  symm
  apply List.map_insertionSort
  intro a _ b _
  simp [liftPair]

theorem totalWeight_lift (ws : List (ℚ × ℚ)) :
    totalWeight (ws.map liftPair) = .fin (weight ws) := by
  have hfold : ∀ acc : ℚ, (ws.map liftPair).foldl (fun acc pw => acc + pw.2) (ExtRat.fin acc) =
      .fin (acc + weight ws) := by
    induction ws with
    | nil =>
      intro acc
      simp
    | cons e rest ih =>
      intro acc
      rw [List.map_cons, List.foldl_cons, liftPair, ExtRat.fin_add, ih, weight_cons, add_assoc]
  rw [totalWeight, ExtRat.lit_eq, hfold, zero_add]

theorem pickAtHalf_lift (half : ℚ) (running : ℚ) (ws : List (ℚ × ℚ)) :
    pickAtHalf (.fin half) (.fin running) (ws.map liftPair) =
      (reachAt half running ws).map ExtRat.fin := by
  induction ws generalizing running with
  | nil => rfl
  | cons e rest ih =>
    rw [List.map_cons, liftPair, pickAtHalf, reachAt, ExtRat.fin_add, ExtRat.fin_le]
    by_cases hreach : half ≤ running + e.2
    · simp [hreach]
    · simpa [hreach] using ih (running + e.2)

end Lift

/-! ### Positive weights -/

theorem positiveVolumes_pos {samples : List (PricePoint ℚ)} {v : ℚ}
    (h : v ∈ positiveVolumes samples) : 0 < v := by
  obtain ⟨p, hp, rfl⟩ := List.mem_map.mp h
  simpa using (List.mem_filter.mp hp).2

/-- The median of positive numbers is positive. -/
theorem median_pos {l : List ℚ} (hne : l ≠ []) (hpos : ∀ v ∈ l, 0 < v) : 0 < median l := by
  obtain ⟨lo, hlo, hi, -, hrange⟩ := exists_extremes hne
  have hmajority : Majority l lo hi := by
    apply Majority.of_sublist (List.Sublist.refl l) _ hrange
    have := List.length_pos_iff.mpr hne
    omega
  exact (hpos lo hlo).trans_le hmajority.median_mem.1

theorem exactWeight_pos (samples : List (PricePoint ℚ)) (p : PricePoint ℚ) :
    0 < exactWeight samples p := by
  unfold exactWeight
  split
  · rename_i hquorum
    split
    · rename_i hvolume
      have hne : positiveVolumes samples ≠ [] := by
        intro hnil
        unfold VolumeQuorum at hquorum
        rw [hnil, List.length_nil] at hquorum
        omega
      have hmedian := median_pos hne fun v => positiveVolumes_pos
      exact lt_min hvolume (by linarith)
    · exact one_pos
  · exact one_pos

theorem weighted_pos {samples : List (PricePoint ℚ)} {e : ℚ × ℚ} (h : e ∈ weighted samples) :
    0 < e.2 := by
  obtain ⟨p, -, rfl⟩ := List.mem_map.mp h
  exact exactWeight_pos samples p

theorem weight_pos {ws : List (ℚ × ℚ)} (hne : ws ≠ []) (hpos : ∀ e ∈ ws, 0 < e.2) :
    0 < weight ws := by
  cases ws with
  | nil => exact absurd rfl hne
  | cons e rest =>
    rw [weight_cons]
    have hhead := hpos e List.mem_cons_self
    have hrest := weight_nonneg fun e' he' => (hpos e' (List.mem_cons_of_mem _ he')).le
    linarith

/-! ### The weighted median -/

theorem sortedWeights_perm (samples : List (PricePoint ℚ)) :
    (sortedWeights samples).Perm (weighted samples) := List.perm_insertionSort _ _

/-- On two or more samples the program returns the price at which half of the weight is
reached. -/
theorem weightedMedian_lift {samples : List (PricePoint ℚ)} (hlen : 2 ≤ samples.length) :
    ∃ x, weightedMedian (samples.map PricePoint.lift) = some (.fin x,
        if VolumeQuorum samples then .volumeWeighted else .equalFallback) ∧
      (∃ p ∈ samples, p.price = x) ∧
      Reaches (weight (weighted samples) / 2) (weighted samples) x := by
  have hperm := sortedWeights_perm samples
  have hpos : ∀ e ∈ sortedWeights samples, 0 < e.2 := fun e he => weighted_pos (hperm.mem_iff.mp he)
  have hne : sortedWeights samples ≠ [] := by
    intro hnil
    have hlength := hperm.length_eq
    rw [hnil, weighted, List.length_map, List.length_nil] at hlength
    omega
  have htotal := weight_pos hne hpos
  have hsorted : (sortedWeights samples).Pairwise (fun a b => a.1 ≤ b.1) :=
    List.pairwise_insertionSort _ _
  obtain ⟨x, w, hmem, hwalk, hreaches⟩ := reachAt_sorted hsorted (fun e he => (hpos e he).le)
    (half_pos htotal) (half_le_self htotal.le)
  have hsample : ∃ p ∈ samples, p.price = x := by
    obtain ⟨p, hp, heq⟩ := List.mem_map.mp (hperm.mem_iff.mp hmem)
    exact ⟨p, hp, congrArg Prod.fst heq⟩
  rw [weight_eq_of_perm hperm] at hreaches hwalk
  refine ⟨x, ?_, hsample, hreaches.perm hperm⟩
  have hpick : pickAtHalf (totalWeight (weightedSamples (samples.map PricePoint.lift)) / F64.lit 2)
      (F64.lit 0) (weightedSamples (samples.map PricePoint.lift)) = some (.fin x) := by
    rw [weightedSamples_lift, totalWeight_lift, ExtRat.lit_eq, ExtRat.lit_eq, ExtRat.fin_div_two,
      pickAtHalf_lift, weight_eq_of_perm hperm, hwalk]
    rfl
  rcases samples with _ | ⟨p, _ | ⟨q, rest⟩⟩
  · simp at hlen
  · simp at hlen
  · simp only [List.map_cons] at hpick ⊢
    simp only [weightedMedian, hpick]
    have huse := useVolume_lift (p :: q :: rest)
    simp only [List.map_cons] at huse
    simp [huse]

/-- Also one sample alone is where half of the weight is reached. -/
theorem reaches_of_weightedMedian {samples : List (PricePoint ℚ)} {m : ExtRat}
    {mode : WeightingMode} (h : weightedMedian (samples.map PricePoint.lift) = some (m, mode)) :
    ∃ x, m = .fin x ∧ Reaches (weight (weighted samples) / 2) (weighted samples) x := by
  rcases samples with _ | ⟨p, _ | ⟨q, rest⟩⟩
  · cases h
  · refine ⟨p.price, (congrArg Prod.fst (Option.some.inj h)).symm, ?_⟩
    have hpos := exactWeight_pos [p] p
    constructor <;> simp [weighted, weightBelow, weightUpTo, weightWhere, hpos, hpos.le]
  · obtain ⟨x, hx, -, hreaches⟩ := @weightedMedian_lift (p :: q :: rest) (by simp)
    rw [h] at hx
    exact ⟨x, congrArg Prod.fst (Option.some.inj hx), hreaches⟩

theorem positiveVolumes_perm {samples samples' : List (PricePoint ℚ)} (h : samples.Perm samples') :
    (positiveVolumes samples).Perm (positiveVolumes samples') := (h.filter _).map _

theorem volumeQuorum_perm {samples samples' : List (PricePoint ℚ)} (h : samples.Perm samples') :
    VolumeQuorum samples ↔ VolumeQuorum samples' := by
  unfold VolumeQuorum
  rw [h.length_eq, (positiveVolumes_perm h).length_eq]

theorem weighted_perm {samples samples' : List (PricePoint ℚ)} (h : samples.Perm samples') :
    (weighted samples).Perm (weighted samples') := by
  have hweight : exactWeight samples = exactWeight samples' := by
    funext p
    unfold exactWeight
    rw [median_eq_of_perm (positiveVolumes_perm h)]
    simp only [volumeQuorum_perm h]
  rw [weighted, weighted, hweight]
  exact h.map _

/-- The returned price is that of a sample; the samples priced below it weigh less than half,
those above at most half, and every order of the samples gives the same result. -/
theorem weightedMedian_is_weighted_median {samples : List (PricePoint ℚ)}
    (hlen : 2 ≤ samples.length) :
    ∃ x mode, weightedMedian (samples.map PricePoint.lift) = some (.fin x, mode) ∧
      (∃ p ∈ samples, p.price = x) ∧
      weightBelow (weighted samples) x < weight (weighted samples) / 2 ∧
      weightAbove (weighted samples) x ≤ weight (weighted samples) / 2 ∧
      ∀ samples' : List (PricePoint ℚ), samples.Perm samples' →
        weightedMedian (samples'.map PricePoint.lift) = some (.fin x, mode) := by
  obtain ⟨x, hx, hsample, hreaches⟩ := weightedMedian_lift hlen
  refine ⟨x, _, hx, hsample, hreaches.below, ?_, ?_⟩
  · have hsplit := weightUpTo_add_above (weighted samples) x
    linarith [hreaches.upTo]
  · intro samples' hperm
    have hweights := weighted_perm hperm
    obtain ⟨x', hx', -, hreaches'⟩ := weightedMedian_lift (hperm.length_eq ▸ hlen)
    rw [← weight_eq_of_perm hweights] at hreaches'
    have hback := hreaches'.perm hweights.symm
    rw [hx', hback.unique (fun e he => (weighted_pos he).le) hreaches]
    simp only [volumeQuorum_perm hperm]

def volumeSample (price volume : ℚ) : PricePoint ℚ := ⟨price, volume, "a", 1700000000⟩

/-- Prices with ties, a capped volume and a missing one. -/
def tiedSamples : List (PricePoint ℚ) :=
  [volumeSample 3 1, volumeSample 1 100, volumeSample 3 0, volumeSample 2 1]

theorem weightedMedian_is_weighted_median_ties :
    ∃ x mode, weightedMedian (tiedSamples.map PricePoint.lift) = some (.fin x, mode) ∧
      (∃ p ∈ tiedSamples, p.price = x) ∧
      weightBelow (weighted tiedSamples) x < weight (weighted tiedSamples) / 2 ∧
      weightAbove (weighted tiedSamples) x ≤ weight (weighted tiedSamples) / 2 ∧
      ∀ samples' : List (PricePoint ℚ), tiedSamples.Perm samples' →
        weightedMedian (samples'.map PricePoint.lift) = some (.fin x, mode) :=
  weightedMedian_is_weighted_median (by decide)

end Nuntius.Aggregator
