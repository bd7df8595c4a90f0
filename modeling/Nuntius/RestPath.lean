import Mathlib.Data.Finset.Max
import Nuntius.ExactFilters
import Nuntius.OracleCycle

/-!
# What the REST path stores

A stored price is about the samples that survived every filter: their hash, their count,
the price of one of them, and a time between their times. Over exact rationals the price
is also held by any strict majority of the samples that reach the outlier filter.
-/

namespace Nuntius.OracleCycle
open WireFormat Aggregator OrderStatistics

section Inversion
variable {F : Type} [F64 F] {H : Digests F} {asset : AssetConfig} {s : CycleState F}
variable {raw : List (PricePoint F)}

/-- Everything that must have happened for the filters to yield a median. -/
theorem restAggregate_eq_some {median : F} {ts : ℕ}
    (h : restAggregate asset s raw = some (median, ts)) :
    asset.minSources ≤ (survivingSamples asset s raw).length ∧
      medianServerTime (survivingSamples asset s raw) = some ts ∧
      ∃ mode, weightedMedian (survivingSamples asset s raw) = some (median, mode) := by
  unfold restAggregate at h
  split at h
  · simp at h
  · split at h
    · simp at h
    · rename_i signedTs hts
      split at h
      · simp at h
      · rename_i hquorum
        rw [rejectTimeOutliers_snd] at hts
        obtain ⟨⟨m, mode⟩, hm, heq⟩ := Option.map_eq_some_iff.mp h
        obtain ⟨rfl, rfl⟩ := Prod.mk.inj heq
        exact ⟨not_lt.mp hquorum, hts, mode, hm⟩

theorem restCached_eq_some {c : CachedPrice F} (h : restCached H asset s raw = some c) :
    restAggregate asset s raw = some (c.priceHuman, c.signedTimestamp) ∧
      c.numSources = (survivingSamples asset s raw).length % 256 ∧
      c.sourcesHash = sourcesHash H (survivingSamples asset s raw) := by
  obtain ⟨⟨median, ts⟩, hagg, hfixed⟩ := Option.bind_eq_some_iff.mp h
  obtain ⟨priceFixed, -, rfl⟩ := Option.map_eq_some_iff.mp hfixed
  exact ⟨hagg, rfl, rfl⟩

variable (asset s raw) in
theorem survivingSamples_sublist :
    (survivingSamples asset s raw).Sublist (pricedSamples asset s raw) :=
  rejectTimeOutliers_sublist _

variable (asset s raw) in
theorem pricedSamples_sublist :
    (pricedSamples asset s raw).Sublist (convertedSamples asset s raw) :=
  rejectOutliersWithCap_sublist _ _ _

variable (asset s raw) in
theorem length_convertedSamples :
    (convertedSamples asset s raw).length = (sanitize raw).length := by
  unfold convertedSamples
  split
  · exact length_convertQuotesToUsd _ _ _
  · rfl

/-- Conversion changes prices only. -/
theorem convertedSamples_origin {p : PricePoint F} (hp : p ∈ convertedSamples asset s raw) :
    ∃ q ∈ raw, q.source = p.source ∧ q.serverTime = p.serverTime := by
  have hsane : ∀ p ∈ sanitize raw,
      ∃ q ∈ raw, q.source = p.source ∧ q.serverTime = p.serverTime := by
    intro p hp
    obtain ⟨q, hq, rfl⟩ := List.mem_map.mp hp
    refine ⟨q, (List.mem_filter.mp hq).1, ?_⟩
    unfold repairVolume
    split <;> exact ⟨rfl, rfl⟩
  simp only [convertedSamples, convertQuotesToUsd] at hp
  split_ifs at hp
  · exact hsane p hp
  · obtain ⟨q, hq, rfl⟩ := List.mem_map.mp hp
    obtain ⟨r, hr, hrq⟩ := hsane q hq
    refine ⟨r, hr, ?_⟩
    unfold convertQuote
    split <;> exact hrq
  · exact hsane p hp

/-- A survivor has the name and the time of a sample that was fetched. -/
theorem survivingSamples_origin {p : PricePoint F} (hp : p ∈ survivingSamples asset s raw) :
    ∃ q ∈ raw, q.source = p.source ∧ q.serverTime = p.serverTime :=
  convertedSamples_origin ((pricedSamples_sublist asset s raw).subset
    ((survivingSamples_sublist asset s raw).subset hp))

/-- A filter that leaves too few samples stops the path. -/
theorem restCached_eq_none
    (h : (sanitize raw).length < asset.minSources ∨
      (convertedSamples asset s raw).length < asset.minSources ∨
      (pricedSamples asset s raw).length < asset.minSources ∨
      (survivingSamples asset s raw).length < asset.minSources) :
    restCached H asset s raw = none := by
  cases hc : restCached H asset s raw with
  | none => rfl
  | some c =>
    have hquorum := (restAggregate_eq_some (restCached_eq_some hc).1).1
    have hpriced := (survivingSamples_sublist asset s raw).length_le
    have hconverted := (pricedSamples_sublist asset s raw).length_le
    have hsane := length_convertedSamples asset s raw
    omega

end Inversion

section Commitment
variable {F : Type} [F64 F]

/-- What a stored price says about the samples `S` it was computed from. -/
structure CommitsTo (H : Digests F) (asset : AssetConfig) (priced S : List (PricePoint F))
    (c : CachedPrice F) : Prop where
  quorum : asset.minSources ≤ S.length
  count : c.numSources = S.length % 256
  price : ∃ p ∈ S, c.priceHuman = p.price
  hash : c.sourcesHash = sourcesHash H S
  time_ge : ∃ p ∈ S, (∀ q ∈ S, p.serverTime ≤ q.serverTime) ∧ p.serverTime ≤ c.signedTimestamp
  time_le : ∃ p ∈ S, (∀ q ∈ S, q.serverTime ≤ p.serverTime) ∧ c.signedTimestamp ≤ p.serverTime
  near : ∃ median, medianServerTime priced = some median ∧
    ∀ p ∈ S, p.serverTime ≤ median + 300 ∧ median ≤ p.serverTime + 300

/-- Every survivor is within the drift of the median clock of the samples before. -/
theorem survivingSamples_near {asset : AssetConfig} {s : CycleState F} {raw : List (PricePoint F)}
    (hne : survivingSamples asset s raw ≠ []) :
    ∃ median, medianServerTime (pricedSamples asset s raw) = some median ∧
      ∀ p ∈ survivingSamples asset s raw,
        p.serverTime ≤ median + 300 ∧ median ≤ p.serverTime + 300 := by
  have hpriced : pricedSamples asset s raw ≠ [] := by
    intro hnil
    have hsub := survivingSamples_sublist asset s raw
    rw [hnil] at hsub
    exact hne (List.sublist_nil.mp hsub)
  obtain ⟨median, hmedian⟩ := medianServerTime_isSome hpriced
  refine ⟨median, hmedian, ?_⟩
  intro p hp
  rw [survivingSamples, rejectTimeOutliers_fst hmedian] at hp
  have hdrift : max p.serverTime median - min p.serverTime median ≤ 300 :=
    of_decide_eq_true (List.mem_filter.mp hp).2
  omega

theorem survivingSamples_clock {asset : AssetConfig} {s : CycleState F} {raw : List (PricePoint F)}
    (hclock : ∀ p ∈ raw, p.serverTime < 2 ^ 63) {p : PricePoint F}
    (hp : p ∈ survivingSamples asset s raw) : p.serverTime < 2 ^ 63 := by
  obtain ⟨q, hq, -, htime⟩ := survivingSamples_origin hp
  exact htime ▸ hclock q hq

theorem commitsTo_of_restCached {H : Digests F} {asset : AssetConfig} {s : CycleState F}
    {raw : List (PricePoint F)} (hclock : ∀ p ∈ raw, p.serverTime < 2 ^ 63) {c : CachedPrice F}
    (h : restCached H asset s raw = some c) :
    CommitsTo H asset (pricedSamples asset s raw) (survivingSamples asset s raw) c := by
  classical
  obtain ⟨hagg, hcount, hhash⟩ := restCached_eq_some h
  obtain ⟨hquorum, hts, mode, hmedian⟩ := restAggregate_eq_some hagg
  obtain ⟨p, hp, hprice⟩ := weightedMedian_mem hmedian
  have hclockS : ∀ q ∈ survivingSamples asset s raw, q.serverTime < 2 ^ 63 :=
    fun q hq => survivingSamples_clock hclock hq
  have hnonempty : (survivingSamples asset s raw).toFinset.Nonempty := ⟨p, by simpa using hp⟩
  obtain ⟨lo, hlo, hmin⟩ := Finset.exists_min_image _ PricePoint.serverTime hnonempty
  obtain ⟨hi, hhi, hmax⟩ := Finset.exists_max_image _ PricePoint.serverTime hnonempty
  simp only [List.mem_toFinset] at hlo hmin hhi hmax
  obtain ⟨hge, hle⟩ := medianServerTime_mem hts hclockS hmin hmax
  exact ⟨hquorum, hcount, ⟨p, hp, hprice.symm⟩, hhash, ⟨lo, hlo, hmin, hge⟩, ⟨hi, hhi, hmax, hle⟩,
    survivingSamples_near (List.ne_nil_of_mem hp)⟩

/-- What the REST path signs is about exactly the samples it used, and a filter that leaves
too few samples leaves the store alone. -/
theorem rest_commits_to_survivors (H : Digests F) (asset : AssetConfig) (s : CycleState F)
    (raw : List (PricePoint F)) (hclock : ∀ p ∈ raw, p.serverTime < 2 ^ 63) :
    (∀ c, restCached H asset s raw = some c →
      (restStep H asset s raw).store = Function.update s.store asset.symbol (some c) ∧
      (survivingSamples asset s raw).Sublist (convertedSamples asset s raw) ∧
      CommitsTo H asset (pricedSamples asset s raw) (survivingSamples asset s raw) c ∧
      ((survivingSamples asset s raw).length ≤ 255 →
        c.numSources = (survivingSamples asset s raw).length)) ∧
    ((sanitize raw).length < asset.minSources ∨
      (convertedSamples asset s raw).length < asset.minSources ∨
      (pricedSamples asset s raw).length < asset.minSources ∨
      (survivingSamples asset s raw).length < asset.minSources →
      (restStep H asset s raw).store = s.store) := by
  constructor
  · intro c hc
    have hcommits := commitsTo_of_restCached hclock hc
    refine ⟨?_, (survivingSamples_sublist asset s raw).trans (pricedSamples_sublist asset s raw),
      hcommits, ?_⟩
    · rw [restStep_store, hc]
    · intro hlen
      rw [hcommits.count]
      omega
  · intro hfew
    rw [restStep_store, restCached_eq_none hfew]

end Commitment

/-- Digests that ignore their input, for runs on fixed samples. -/
def blankDigests : Digests ExtRat where
  keccak256 _ := ⟨List.replicate 32 0, by decide⟩
  toBeBytes _ := ⟨List.replicate 8 0, by decide⟩

/-- Three sources needed, five per cent deviation allowed. -/
def demoAsset : AssetConfig := ⟨"KAS/USD", 3, 500, [("a", .usd), ("b", .usd), ("c", .usdt)]⟩

def emptyState : CycleState ExtRat := ⟨fun _ => none, none⟩

/-- Three agreeing samples, one price far off, one clock far off and one broken price. -/
def demoSamples : List (PricePoint ExtRat) :=
  [⟨.fin 100, .fin 5, "a", 1700000000⟩, ⟨.fin 101, .fin 7, "b", 1700000010⟩,
    ⟨.fin 102, .fin 0, "c", 1700000020⟩, ⟨.fin 900, .fin 9, "d", 1700000005⟩,
    ⟨.fin 101, .fin 2, "e", 1600000000⟩, ⟨.nan, .fin 1, "f", 1700000000⟩]

/-- The three agreeing samples are stored and committed to. -/
theorem rest_commits_to_survivors_demo :
    (survivingSamples demoAsset emptyState demoSamples).map PricePoint.source = ["a", "b", "c"] ∧
      ∃ c, restCached blankDigests demoAsset emptyState demoSamples = some c ∧
        CommitsTo blankDigests demoAsset (pricedSamples demoAsset emptyState demoSamples)
          (survivingSamples demoAsset emptyState demoSamples) c ∧ c.numSources = 3 := by
  have hsources : (survivingSamples demoAsset emptyState demoSamples).map PricePoint.source =
      ["a", "b", "c"] := by decide +kernel
  have hlen : (survivingSamples demoAsset emptyState demoSamples).length = 3 := by
    simpa using congrArg List.length hsources
  obtain ⟨c, hc⟩ := Option.isSome_iff_exists.mp
    (by decide +kernel : (restCached blankDigests demoAsset emptyState demoSamples).isSome = true)
  obtain ⟨-, -, hcommits, hcount⟩ := (rest_commits_to_survivors blankDigests demoAsset emptyState
    demoSamples (by decide)).1 c hc
  exact ⟨hsources, c, hc, hcommits, (hcount (by omega)).trans hlen⟩

/-! ### The majority holds the price -/

section Majority
variable {H : Digests ExtRat} {asset : AssetConfig} {s : CycleState ExtRat}
variable {raw : List (PricePoint ExtRat)}

theorem finitePrices_sanitize (raw : List (PricePoint ExtRat)) : FinitePrices (sanitize raw) := by
  intro p hp
  obtain ⟨q, hq, rfl⟩ := List.mem_map.mp hp
  have hsane := (List.mem_filter.mp hq).2
  have hprice : (repairVolume q).price = q.price := by
    unfold repairVolume
    split <;> rfl
  simp only [isSane, Bool.and_eq_true] at hsane
  rw [hprice]
  exact hsane.1.1

/-- A volume that is not finite counts as none. -/
theorem finite_volume_sanitize {p : PricePoint ExtRat} (hp : p ∈ sanitize raw) :
    F64.isFinite p.volume = true := by
  obtain ⟨q, -, rfl⟩ := List.mem_map.mp hp
  unfold repairVolume
  split
  · rfl
  · rename_i hvolume
    simp only [Bool.or_eq_true, Bool.not_eq_true', not_or, Bool.not_eq_false] at hvolume
    exact hvolume.1

theorem finite_volume_convertedSamples {p : PricePoint ExtRat}
    (hp : p ∈ convertedSamples asset s raw) : F64.isFinite p.volume = true := by
  simp only [convertedSamples, convertQuotesToUsd] at hp
  split_ifs at hp
  · exact finite_volume_sanitize hp
  · obtain ⟨q, hq, rfl⟩ := List.mem_map.mp hp
    have hvolume := finite_volume_sanitize hq
    unfold convertQuote
    split <;> exact hvolume
  · exact finite_volume_sanitize hp

/-- A usable rate is finite, so conversion keeps prices finite. -/
theorem finitePrices_convertedSamples (asset : AssetConfig) (s : CycleState ExtRat)
    (raw : List (PricePoint ExtRat)) : FinitePrices (convertedSamples asset s raw) := by
  have hsane := finitePrices_sanitize raw
  simp only [convertedSamples, convertQuotesToUsd]
  split_ifs with husdt hrate
  · exact hsane
  · intro p hp
    obtain ⟨q, hq, rfl⟩ := List.mem_map.mp hp
    have hq' := hsane q hq
    simp only [Bool.or_eq_true, Bool.not_eq_true', not_or, Bool.not_eq_false] at hrate
    unfold convertQuote
    split
    · rw [← ExtRat.fin_toRat hq', ← ExtRat.fin_toRat hrate.1]
      rfl
    · exact hq'
  · exact hsane

/-- A strict majority in `[L, U]` keeps the stored price within the asset's deviation of that
range, whatever the other samples say. -/
theorem rest_price_held_by_majority {L U : ℚ} (hL : 0 < L)
    (hcap : 1 ≤ asset.deviationThresholdBps) (hcap' : asset.deviationThresholdBps ≤ 10000)
    (hlen : 3 ≤ (convertedSamples asset s raw).length)
    (hmajority : (convertedSamples asset s raw).length <
      2 * (exactPrices (convertedSamples asset s raw)).countP (fun a => decide (L ≤ a ∧ a ≤ U)))
    {c : CachedPrice ExtRat} (h : restCached H asset s raw = some c) :
    ∃ p : ℚ, c.priceHuman = .fin p ∧
      L * (1 - asset.deviationThresholdBps / 10000) ≤ p ∧
      p ≤ U * (1 + asset.deviationThresholdBps / 10000) := by
  obtain ⟨-, -, mode, hmedian⟩ := restAggregate_eq_some (restCached_eq_some h).1
  obtain ⟨q, hq, hprice⟩ := weightedMedian_mem hmedian
  have hpriced := (survivingSamples_sublist asset s raw).subset hq
  have hfinite := finitePrices_convertedSamples asset s raw
  obtain ⟨t, ht, htle⟩ := exactThreshold_capped (convertedSamples asset s raw) 3
    (Nat.one_le_iff_ne_zero.mp hcap)
  obtain ⟨hmem, hclose⟩ := (mem_rejectOutliersWithCap hfinite hlen ht).mp hpriced
  have hmaj : Majority (exactPrices (convertedSamples asset s raw)) L U :=
    Majority.of_countP (by simpa [exactPrices] using hmajority)
  obtain ⟨hmed_lo, hmed_hi⟩ := hmaj.median_mem
  have hmed_pos := hL.trans_le hmed_lo
  rw [abs_of_pos hmed_pos] at htle
  refine ⟨q.price.toRat, ?_, ?_⟩
  · rw [← hprice, ExtRat.fin_toRat (hfinite q hmem)]
  · have hratio : (asset.deviationThresholdBps : ℚ) / 10000 ≤ 1 := by
      rw [div_le_one (by norm_num)]
      exact_mod_cast hcap'
    have hnonneg : (0 : ℚ) ≤ asset.deviationThresholdBps / 10000 := by positivity
    obtain ⟨hlo, hhi⟩ := abs_le.mp (hclose.trans htle)
    rw [mul_div_assoc] at hlo hhi
    constructor
    · nlinarith [mul_le_mul_of_nonneg_right hmed_lo (sub_nonneg.mpr hratio)]
    · have hone : (0 : ℚ) ≤ 1 + asset.deviationThresholdBps / 10000 := by linarith
      nlinarith [mul_le_mul_of_nonneg_right hmed_hi hone]

end Majority

/-- Four of the five samples that reach the outlier filter lie in `[100, 102]`. -/
theorem rest_price_held_by_majority_demo :
    ∃ c, restCached blankDigests demoAsset emptyState demoSamples = some c ∧
      ∃ p : ℚ, c.priceHuman = .fin p ∧
        100 * (1 - demoAsset.deviationThresholdBps / 10000) ≤ p ∧
        p ≤ 102 * (1 + demoAsset.deviationThresholdBps / 10000) := by
  obtain ⟨c, hc⟩ := Option.isSome_iff_exists.mp
    (by decide +kernel : (restCached blankDigests demoAsset emptyState demoSamples).isSome = true)
  have hlen : 3 ≤ (convertedSamples demoAsset emptyState demoSamples).length := by decide +kernel
  have hmajority : (convertedSamples demoAsset emptyState demoSamples).length <
      2 * (exactPrices (convertedSamples demoAsset emptyState demoSamples)).countP
        (fun a => decide (100 ≤ a ∧ a ≤ 102)) := by decide +kernel
  exact ⟨c, hc, rest_price_held_by_majority (by norm_num) (by decide) (by decide) hlen hmajority hc⟩

end Nuntius.OracleCycle
