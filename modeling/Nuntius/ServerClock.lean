import Nuntius.Aggregator

/-!
# The clock that the samples agree on

The oracle signs with the median of the sources' own clocks. A strict majority of sources
that agree within the permitted drift holds that median before and after the drift filter.
The average of two middle clocks is taken in `u64`; it is right exactly as long as their sum
fits.
-/

namespace Nuntius.Aggregator
open OrderStatistics

variable {F : Type} {prices : List (PricePoint F)}

/-! ### A majority holds the clock -/

/-- Every middle of times below `2 ^ 63` lies where the majority is. -/
theorem middleTime_mem_of_majority {times : List ℕ} (hlt : ∀ t ∈ times, t < 2 ^ 63) {lo hi : ℕ}
    (h : Majority times lo hi) :
    lo ≤ middleTime (sorted times) ∧ middleTime (sorted times) ≤ hi := by
  have hlen := length_sorted times
  have hpos : 0 < times.length := by
    unfold Majority at h
    omega
  have hlast : times.length / 2 < (sorted times).length := by omega
  unfold middleTime
  rw [hlen, List.getD_eq_getElem _ _ hlast]
  obtain ⟨hlo, hhi⟩ := h.getElem_mem hlast (by omega) (by omega)
  split
  · have hprev : times.length / 2 - 1 < (sorted times).length := by omega
    rw [List.getD_eq_getElem _ _ hprev]
    obtain ⟨hlo', hhi'⟩ := h.getElem_mem hprev (by omega) (by omega)
    have h₁ := hlt _ (mem_sorted.mp (List.getElem_mem hlast))
    have h₂ := hlt _ (mem_sorted.mp (List.getElem_mem hprev))
    rw [Nat.mod_eq_of_lt (by omega)]
    omega
  · exact ⟨hlo, hhi⟩

theorem medianServerTime_of_majority (hlt : ∀ p ∈ prices, p.serverTime < 2 ^ 63) {lo hi : ℕ}
    (h : Majority (prices.map PricePoint.serverTime) lo hi) :
    ∃ t, medianServerTime prices = some t ∧ lo ≤ t ∧ t ≤ hi := by
  have hne : prices ≠ [] := by
    rintro rfl
    exact absurd h (by unfold Majority; simp)
  refine ⟨_, if_neg (by simpa using hne), middleTime_mem_of_majority ?_ h⟩
  intro t ht
  obtain ⟨p, hp, rfl⟩ := List.mem_map.mp ht
  exact hlt p hp

/-- Two clocks within the permitted drift of each other. -/
def WithinDrift (s t : ℕ) : Prop := s ≤ t + maxTimeDriftSecs ∧ t ≤ s + maxTimeDriftSecs

theorem withinDrift_iff {median : ℕ} {p : PricePoint F} :
    withinDrift median p = true ↔ WithinDrift p.serverTime median := by
  unfold withinDrift WithinDrift
  rw [decide_eq_true_eq]
  omega

/-- A strict majority whose clocks agree keeps all its samples and the returned time between
its own clocks, whatever the other clocks say. -/
theorem majority_holds_clock {honest : List (PricePoint F)}
    (hlt : ∀ p ∈ prices, p.serverTime < 2 ^ 63) (hsub : honest.Sublist prices)
    (hmore : prices.length < 2 * honest.length)
    (hagree : ∀ p ∈ honest, ∀ q ∈ honest, WithinDrift p.serverTime q.serverTime) :
    honest.Sublist (rejectTimeOutliers prices).1 ∧
      ∃ t, (rejectTimeOutliers prices).2 = some t ∧
        (∃ p ∈ honest, p.serverTime ≤ t) ∧ ∃ q ∈ honest, t ≤ q.serverTime := by
  obtain ⟨first, hfirst, last, hlast, hrange, hmajority⟩ :=
    exists_majority PricePoint.serverTime hmore
  obtain ⟨m, hm, hfm, hml⟩ := medianServerTime_of_majority hlt (hmajority prices hsub hmore)
  have hagree' := hagree first hfirst last hlast
  -- the first median is among the honest clocks, so none of them is dropped
  have hkept : honest.Sublist (rejectTimeOutliers prices).1 := by
    have hself : honest.filter (withinDrift m) = honest := by
      apply List.filter_eq_self.mpr
      intro p hp
      obtain ⟨hfp, hpl⟩ := hrange p hp
      rw [withinDrift_iff]
      unfold WithinDrift at hagree' ⊢
      omega
    rw [rejectTimeOutliers_fst hm, ← hself]
    exact hsub.filter (withinDrift m)
  refine ⟨hkept, ?_⟩
  have hrest := rejectTimeOutliers_sublist prices
  obtain ⟨t, ht, hft, htl⟩ := medianServerTime_of_majority
    (fun p hp => hlt p (hrest.subset hp))
    (hmajority _ hkept (hrest.length_le.trans_lt hmore))
  exact ⟨t, (rejectTimeOutliers_snd prices).trans ht, ⟨first, hfirst, hft⟩, last, hlast, htl⟩

def clockSample (serverTime : ℕ) : PricePoint ExtRat := ⟨.fin 1, .fin 1, "a", serverTime⟩

/-- Two honest clocks five minutes apart. -/
def twoClocks : List (PricePoint ExtRat) := [clockSample 1700000000, clockSample 1700000300]

/-- The same with one that is years ahead. -/
def threeClocks : List (PricePoint ExtRat) :=
  [clockSample 1700000000, clockSample 1900000000, clockSample 1700000300]

theorem majority_holds_clock_three :
    twoClocks.Sublist (rejectTimeOutliers threeClocks).1 ∧
      ∃ t, (rejectTimeOutliers threeClocks).2 = some t ∧
        (∃ p ∈ twoClocks, p.serverTime ≤ t) ∧ ∃ q ∈ twoClocks, t ≤ q.serverTime :=
  majority_holds_clock (by decide) (by decide) (by decide) (by unfold WithinDrift; decide)

/-! ### The average of two clocks -/

/-- The two middle times of a sorted list of even length, added up. -/
def middleSum (times : List ℕ) : ℕ :=
  times.getD (times.length / 2 - 1) 0 + times.getD (times.length / 2) 0

/-- `middleTime` in a build with overflow checks; `none` is the panic. -/
def checkedMiddleTime (times : List ℕ) : Option ℕ :=
  if times.length % 2 = 0 then
    if middleSum times < 2 ^ 64 then some (middleSum times / 2) else none
  else some (times.getD (times.length / 2) 0)

/-- `medianServerTime` in a build with overflow checks; the outer `none` is the panic. -/
def checkedMedianServerTime (prices : List (PricePoint F)) : Option (Option ℕ) :=
  if prices.isEmpty then some none
  else (checkedMiddleTime (sorted (prices.map PricePoint.serverTime))).map some

/-- An odd number of samples, or two middle clocks whose sum fits in `u64`. -/
def MiddleSumFits (prices : List (PricePoint F)) : Prop :=
  prices.length % 2 = 1 ∨ middleSum (sorted (prices.map PricePoint.serverTime)) < 2 ^ 64

/-- With and without overflow checks the same median is computed, between two of the clocks. -/
def MedianBetween (prices : List (PricePoint F)) : Prop :=
  ∃ t, checkedMedianServerTime prices = some (some t) ∧ medianServerTime prices = some t ∧
    (∃ p ∈ prices, p.serverTime ≤ t) ∧ ∃ q ∈ prices, t ≤ q.serverTime

/-- Clocks that all agree within the permitted drift are all kept. -/
def AgreeingKept (prices : List (PricePoint F)) : Prop :=
  (∀ p ∈ prices, ∀ q ∈ prices, WithinDrift p.serverTime q.serverTime) →
    (rejectTimeOutliers prices).1 = prices

/-- The two middle clocks, in increasing order, are clocks of samples. -/
theorem exists_middle_samples (hne : prices ≠ []) :
    ∃ p ∈ prices, ∃ q ∈ prices,
      middleSum (sorted (prices.map PricePoint.serverTime)) = p.serverTime + q.serverTime ∧
      (sorted (prices.map PricePoint.serverTime)).getD (prices.length / 2) 0 = q.serverTime := by
  have hlen : (sorted (prices.map PricePoint.serverTime)).length = prices.length := by
    rw [length_sorted, List.length_map]
  have hpos := List.length_pos_iff.mpr hne
  have hget : ∀ i, i < prices.length → ∃ p ∈ prices,
      (sorted (prices.map PricePoint.serverTime)).getD i 0 = p.serverTime := by
    intro i hi
    have hmem := List.getElem_mem (by rwa [hlen] : i < (sorted (prices.map
      PricePoint.serverTime)).length)
    rw [mem_sorted, List.mem_map] at hmem
    obtain ⟨p, hp, heq⟩ := hmem
    exact ⟨p, hp, by rw [List.getD_eq_getElem _ _ (by rwa [hlen]), heq]⟩
  obtain ⟨p, hp, hlow⟩ := hget (prices.length / 2 - 1) (by omega)
  obtain ⟨q, hq, hhigh⟩ := hget (prices.length / 2) (by omega)
  exact ⟨p, hp, q, hq, by rw [middleSum, hlen, hlow, hhigh], hhigh⟩

theorem medianServerTime_eq (hne : prices ≠ []) :
    medianServerTime prices = some (if prices.length % 2 = 0 then
      middleSum (sorted (prices.map PricePoint.serverTime)) % 2 ^ 64 / 2
      else (sorted (prices.map PricePoint.serverTime)).getD (prices.length / 2) 0) := by
  unfold medianServerTime middleTime middleSum
  rw [if_neg (by simpa using hne), length_sorted, List.length_map]

theorem checkedMedianServerTime_eq (hne : prices ≠ []) :
    checkedMedianServerTime prices = if prices.length % 2 = 0 then
      if middleSum (sorted (prices.map PricePoint.serverTime)) < 2 ^ 64 then
        some (some (middleSum (sorted (prices.map PricePoint.serverTime)) / 2)) else none
      else some (some
        ((sorted (prices.map PricePoint.serverTime)).getD (prices.length / 2) 0)) := by
  unfold checkedMedianServerTime checkedMiddleTime
  rw [if_neg (by simpa using hne), length_sorted, List.length_map]
  split
  · split <;> rfl
  · rfl

theorem medianBetween_iff (hne : prices ≠ []) : MedianBetween prices ↔ MiddleSumFits prices := by
  obtain ⟨p, hp, q, hq, hsum, hmid⟩ := exists_middle_samples hne
  unfold MedianBetween MiddleSumFits
  rw [medianServerTime_eq hne, checkedMedianServerTime_eq hne]
  by_cases heven : prices.length % 2 = 0
  · rw [if_pos heven, if_pos heven]
    by_cases hfits : middleSum (sorted (prices.map PricePoint.serverTime)) < 2 ^ 64
    · rw [if_pos hfits, Nat.mod_eq_of_lt hfits]
      refine iff_of_true ⟨_, rfl, rfl, ?_, ?_⟩ (.inr hfits)
      · rcases le_total p.serverTime q.serverTime with hle | hle
        · exact ⟨p, hp, by omega⟩
        · exact ⟨q, hq, by omega⟩
      · rcases le_total p.serverTime q.serverTime with hle | hle
        · exact ⟨q, hq, by omega⟩
        · exact ⟨p, hp, by omega⟩
    · rw [if_neg hfits]
      refine iff_of_false ?_ (by omega)
      rintro ⟨t, hnone, -⟩
      cases hnone
  · rw [if_neg heven, if_neg heven]
    exact iff_of_true ⟨_, rfl, rfl, ⟨q, hq, hmid.ge⟩, q, hq, hmid.le⟩ (.inl (by omega))

theorem agreeingKept_of_fits (hne : prices ≠ []) (hfits : MiddleSumFits prices) :
    AgreeingKept prices := by
  obtain ⟨t, -, ht, ⟨p, hp, hpt⟩, q, hq, htq⟩ := (medianBetween_iff hne).mpr hfits
  intro hagree
  rw [rejectTimeOutliers_fst ht]
  apply List.filter_eq_self.mpr
  intro r hr
  have hrp := hagree r hr p hp
  have hrq := hagree r hr q hq
  rw [withinDrift_iff]
  unfold WithinDrift at hrp hrq ⊢
  omega

/-- When the sum wraps, clocks that agree are all dropped. -/
theorem rejectTimeOutliers_of_wrap (hne : prices ≠ [])
    (hu64 : ∀ p ∈ prices, p.serverTime < 2 ^ 64) (hwrap : ¬ MiddleSumFits prices)
    (hagree : ∀ p ∈ prices, ∀ q ∈ prices, WithinDrift p.serverTime q.serverTime) :
    rejectTimeOutliers prices = ([], none) := by
  obtain ⟨p, hp, q, hq, hsum, -⟩ := exists_middle_samples hne
  obtain ⟨heven, hover⟩ := not_or.mp hwrap
  have hmedian := medianServerTime_eq hne
  rw [if_pos (by omega), hsum] at hmedian
  have hkept : (rejectTimeOutliers prices).1 = [] := by
    rw [rejectTimeOutliers_fst hmedian]
    apply List.filter_eq_nil_iff.mpr
    intro r hr
    have hrp := hagree r hr p hp
    have hrq := hagree r hr q hq
    have hpq := hagree p hp q hq
    have hp64 := hu64 p hp
    have hq64 := hu64 q hq
    rw [withinDrift_iff]
    unfold WithinDrift maxTimeDriftSecs at hrp hrq hpq ⊢
    omega
  have htime := rejectTimeOutliers_snd prices
  rw [hkept] at htime
  exact Prod.ext hkept htime

/-- The median clock lies between the sampled clocks, and agreeing clocks are all kept,
exactly when the two middle clocks can be added in `u64`; agreeing clocks alone are kept in no
other case either. -/
theorem median_clock_between_iff (hne : prices ≠ [])
    (hu64 : ∀ p ∈ prices, p.serverTime < 2 ^ 64) :
    (MedianBetween prices ∧ AgreeingKept prices ↔ MiddleSumFits prices) ∧
      ((∀ p ∈ prices, ∀ q ∈ prices, WithinDrift p.serverTime q.serverTime) →
        ((rejectTimeOutliers prices).1 = prices ↔ MiddleSumFits prices)) := by
  constructor
  · constructor
    · intro h
      exact (medianBetween_iff hne).mp h.1
    · intro hfits
      exact ⟨(medianBetween_iff hne).mpr hfits, agreeingKept_of_fits hne hfits⟩
  · intro hagree
    constructor
    · intro hkept
      by_contra hwrap
      rw [rejectTimeOutliers_of_wrap hne hu64 hwrap hagree] at hkept
      exact hne hkept.symm
    · intro hfits
      exact agreeingKept_of_fits hne hfits hagree

theorem median_clock_between_two :
    (MedianBetween twoClocks ∧ AgreeingKept twoClocks ↔ MiddleSumFits twoClocks) ∧
      ((∀ p ∈ twoClocks, ∀ q ∈ twoClocks, WithinDrift p.serverTime q.serverTime) →
        ((rejectTimeOutliers twoClocks).1 = twoClocks ↔ MiddleSumFits twoClocks)) :=
  median_clock_between_iff (by decide) (by decide)

/-- A clock of one second before 1970, cast to `u64`, beside an honest one gives a median below
both; two equal clocks of `2 ^ 63` are both dropped. -/
theorem wrapped_clock_misses :
    ¬ MedianBetween [clockSample 1700000000, clockSample (2 ^ 64 - 1)] ∧
      medianServerTime [clockSample 1700000000, clockSample (2 ^ 64 - 1)] = some 849999999 ∧
      ¬ AgreeingKept [clockSample (2 ^ 63), clockSample (2 ^ 63)] := by
  refine ⟨?_, by decide +kernel, ?_⟩
  · rw [medianBetween_iff (by decide)]
    unfold MiddleSumFits
    decide +kernel
  · intro hkept
    have hempty : (rejectTimeOutliers [clockSample (2 ^ 63), clockSample (2 ^ 63)]).1 = [] := by
      decide +kernel
    rw [hkept (by unfold WithinDrift; decide +kernel)] at hempty
    cases hempty

end Nuntius.Aggregator
