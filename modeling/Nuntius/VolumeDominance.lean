import Nuntius.WeightedMedian

/-!
# One source that reports a large volume

The cap on a volume is five times the median of all volumes, the reporter's own among them.
The median price stays between the other prices as long as the other weights outweigh that
of the reporter, and a reporter can make its weight as large as five times the median of the
volumes with its own on top. So the other volumes decide, and for a small panel the cap
does not suffice.
-/

namespace Nuntius.Aggregator
open OrderStatistics RunningWeights

/-! ### Capped volumes -/

/-- Capping keeps a sum above the cap, if there are two volumes. -/
theorem cap_lt_sum_min {us : List ℚ} {c : ℚ} (hlen : 2 ≤ us.length) (hpos : ∀ u ∈ us, 0 < u)
    (hc : 0 < c) (hsum : c < us.sum) : c < (us.map (min · c)).sum := by
  by_cases hbig : ∃ u ∈ us, c ≤ u
  · -- one volume reaches the cap on its own, another one adds to it
    obtain ⟨u, hu, hcu⟩ := hbig
    have hperm := List.perm_cons_erase hu
    have hrest : 0 < ((us.erase u).map (min · c)).sum := by
      apply List.sum_pos
      · intro x hx
        obtain ⟨v, hv, rfl⟩ := List.mem_map.mp hx
        exact lt_min (hpos v (List.mem_of_mem_erase hv)) hc
      · intro hnil
        have hlength := List.length_erase_of_mem hu
        rw [List.map_eq_nil_iff.mp hnil, List.length_nil] at hlength
        omega
    rw [(hperm.map (min · c)).sum_eq, List.map_cons, List.sum_cons, min_eq_right hcu]
    exact lt_add_of_pos_right c hrest
  · have hsame : us.map (min · c) = us.map id := by
      apply List.map_congr_left
      intro u hu
      apply min_eq_left
      by_contra hcu
      exact hbig ⟨u, hu, (not_le.mp hcu).le⟩
    rwa [hsame, List.map_id]

theorem sum_min_le (us : List ℚ) (c : ℚ) : (us.map (min · c)).sum ≤ us.sum := by
  induction us with
  | nil => exact le_rfl
  | cons u rest ih =>
    rw [List.map_cons, List.sum_cons, List.sum_cons]
    exact add_le_add (min_le_left u c) ih

/-! ### The reporter's weight and that of the others -/

section Panel
variable {before after : List (PricePoint ℚ)} {p : PricePoint ℚ}

/-- The volumes of the others. -/
def otherVolumes (before after : List (PricePoint ℚ)) : List ℚ :=
  (before ++ after).map PricePoint.volume

/-- The cap when `p` is sampled with the others. -/
def capWith (before after : List (PricePoint ℚ)) (p : PricePoint ℚ) : ℚ :=
  5 * median (p.volume :: otherVolumes before after)

/-- The other prices with their capped volumes. -/
def otherWeights (before after : List (PricePoint ℚ)) (p : PricePoint ℚ) : List (ℚ × ℚ) :=
  (before ++ after).map fun q => (q.price, min q.volume (capWith before after p))

theorem weight_otherWeights :
    weight (otherWeights before after p) =
      ((otherVolumes before after).map (min · (capWith before after p))).sum := by
  rw [weight, otherWeights, otherVolumes, List.map_map, List.map_map]
  rfl

variable (hothers : ∀ q ∈ before ++ after, 0 < q.price ∧ 0 < q.volume) (hp : 0 < p.volume)
include hothers hp

theorem positiveVolumes_panel :
    (positiveVolumes (before ++ p :: after)).Perm (p.volume :: otherVolumes before after) := by
  have hperm : (before ++ p :: after).Perm (p :: (before ++ after)) := List.perm_middle
  have hall : (p :: (before ++ after)).filter (fun q => 0 < q.volume) = p :: (before ++ after) := by
    rw [List.filter_eq_self]
    intro q hq
    rcases List.mem_cons.mp hq with rfl | hq
    · simpa using hp
    · simpa using (hothers q hq).2
  have hmap := (hperm.filter (fun q => 0 < q.volume)).map PricePoint.volume
  rwa [hall] at hmap

/-- Everybody reports a volume, so the weights are the capped volumes. -/
theorem weighted_panel :
    (weighted (before ++ p :: after)).Perm
      ((p.price, min p.volume (capWith before after p)) :: otherWeights before after p) := by
  have hvolumes := positiveVolumes_panel hothers hp
  have hquorum : VolumeQuorum (before ++ p :: after) := by
    unfold VolumeQuorum
    rw [hvolumes.length_eq, otherVolumes]
    simp
    omega
  have hweight : ∀ q ∈ p :: (before ++ after),
      (q.price, exactWeight (before ++ p :: after) q) =
        (q.price, min q.volume (capWith before after p)) := by
    intro q hq
    have hq' : 0 < q.volume := by
      rcases List.mem_cons.mp hq with rfl | hq
      · exact hp
      · exact (hothers q hq).2
    rw [exactWeight, if_pos hquorum, if_pos hq', median_eq_of_perm hvolumes]
    rfl
  have hperm : (weighted (before ++ p :: after)).Perm ((p :: (before ++ after)).map fun q =>
      (q.price, exactWeight (before ++ p :: after) q)) := List.perm_middle.map _
  rw [List.map_congr_left hweight] at hperm
  exact hperm

theorem capWith_pos : 0 < capWith before after p := by
  have hmedian : 0 < median (p.volume :: otherVolumes before after) := by
    apply median_pos (List.cons_ne_nil _ _)
    intro v hv
    rcases List.mem_cons.mp hv with rfl | hv
    · exact hp
    · obtain ⟨q, hq, rfl⟩ := List.mem_map.mp hv
      exact (hothers q hq).2
  unfold capWith
  linarith

theorem otherWeights_nonneg : ∀ e ∈ otherWeights before after p, 0 ≤ e.2 := by
  intro e he
  obtain ⟨q, hq, rfl⟩ := List.mem_map.mp he
  exact (lt_min (hothers q hq).2 (capWith_pos hothers hp)).le

/-- The median price and where it stands among the reporter's price and the others. -/
theorem weightedMedian_panel (hlen : 2 ≤ (before ++ after).length) :
    ∃ x mode, weightedMedian ((before ++ p :: after).map PricePoint.lift) = some (.fin x, mode) ∧
      Reaches ((min p.volume (capWith before after p) + weight (otherWeights before after p)) / 2)
        ((p.price, min p.volume (capWith before after p)) :: otherWeights before after p) x := by
  have hlen' : 2 ≤ (before ++ p :: after).length := by
    rw [List.length_append] at hlen
    simp
    omega
  obtain ⟨x, hx, -, hreaches⟩ := weightedMedian_lift hlen'
  have hperm := weighted_panel hothers hp
  rw [weight_eq_of_perm hperm, weight_cons] at hreaches
  exact ⟨x, _, hx, hreaches.perm hperm⟩

/-- Outweighed, the reporter cannot push the median past the other prices. -/
theorem between_of_outweighed {x : ℚ}
    (hlt : min p.volume (capWith before after p) < weight (otherWeights before after p))
    (hx : Reaches
      ((min p.volume (capWith before after p) + weight (otherWeights before after p)) / 2)
      ((p.price, min p.volume (capWith before after p)) :: otherWeights before after p) x) :
    (∃ a ∈ before ++ after, a.price ≤ x) ∧ ∃ b ∈ before ++ after, x ≤ b.price := by
  have hown : 0 < min p.volume (capWith before after p) := lt_min hp (capWith_pos hothers hp)
  have hprice : ∀ e ∈ otherWeights before after p, ∃ q ∈ before ++ after, q.price = e.1 := by
    intro e he
    obtain ⟨q, hq, rfl⟩ := List.mem_map.mp he
    exact ⟨q, hq, rfl⟩
  constructor
  · -- were every other price above `x`, only the reporter would count up to it
    by_contra hnone
    have habove : weightWhere (fun a => decide (a ≤ x)) (otherWeights before after p) = 0 := by
      apply weightWhere_of_forall_not
      intro e he
      obtain ⟨q, hq, heq⟩ := hprice e he
      rw [decide_eq_false_iff_not, ← heq]
      intro hle
      exact hnone ⟨q, hq, hle⟩
    have hupTo := hx.upTo
    have hhead : weightUpTo ((p.price, min p.volume (capWith before after p)) ::
        otherWeights before after p) x ≤ min p.volume (capWith before after p) := by
      rw [weightUpTo, weightWhere_cons, habove, add_zero]
      split
      · exact le_rfl
      · exact hown.le
    linarith
  · by_contra hnone
    have hbelow : weightWhere (fun a => decide (a < x)) (otherWeights before after p) =
        weight (otherWeights before after p) := by
      apply weightWhere_of_forall
      intro e he
      obtain ⟨q, hq, heq⟩ := hprice e he
      rw [decide_eq_true_iff, ← heq]
      by_contra hle
      exact hnone ⟨q, hq, not_lt.mp hle⟩
    have hstrict := hx.below
    rw [weightBelow, weightWhere_cons, hbelow] at hstrict
    have : (0 : ℚ) ≤ if decide (p.price < x) = true then
        min p.volume (capWith before after p) else 0 := by
      split
      · exact hown.le
      · exact le_rfl
    linarith

/-- A reporter below all others that is not outweighed sets the median. -/
theorem captured_of_not_outweighed
    (hle : weight (otherWeights before after p) ≤ min p.volume (capWith before after p))
    (hlow : ∀ q ∈ before ++ after, p.price < q.price) :
    Reaches ((min p.volume (capWith before after p) + weight (otherWeights before after p)) / 2)
      ((p.price, min p.volume (capWith before after p)) :: otherWeights before after p)
      p.price := by
  have hown : 0 < min p.volume (capWith before after p) := lt_min hp (capWith_pos hothers hp)
  have hnonneg := weight_nonneg (otherWeights_nonneg hothers hp)
  have hnotBelow :
      weightWhere (fun a => decide (a < p.price)) (otherWeights before after p) = 0 := by
    apply weightWhere_of_forall_not
    intro e he
    obtain ⟨q, hq, rfl⟩ := List.mem_map.mp he
    simpa using (hlow q hq).le
  have hnotUpTo :
      weightWhere (fun a => decide (a ≤ p.price)) (otherWeights before after p) = 0 := by
    apply weightWhere_of_forall_not
    intro e he
    obtain ⟨q, hq, rfl⟩ := List.mem_map.mp he
    simpa using hlow q hq
  constructor
  · rw [weightBelow, weightWhere_cons, hnotBelow, if_neg (by simp), add_zero]
    linarith
  · rw [weightUpTo, weightWhere_cons, hnotUpTo, if_pos (by simp), add_zero]
    linarith

end Panel

/-! ### What the other volumes must satisfy -/

/-- A price below all others. -/
theorem exists_lower_price {others : List (PricePoint ℚ)} (h : ∀ q ∈ others, 0 < q.price) :
    ∃ price : ℚ, 0 < price ∧ ∀ q ∈ others, price < q.price := by
  induction others with
  | nil => exact ⟨1, one_pos, by simp⟩
  | cons q rest ih =>
    obtain ⟨price, hprice, hlow⟩ := ih fun r hr => h r (List.mem_cons_of_mem _ hr)
    have hq := h q List.mem_cons_self
    refine ⟨min price (q.price / 2), lt_min hprice (half_pos hq), ?_⟩
    intro r hr
    rcases List.mem_cons.mp hr with rfl | hr
    · exact (min_le_right _ _).trans_lt (half_lt_self hq)
    · exact (min_le_left _ _).trans_lt (hlow r hr)

section Threshold
variable {before after : List (PricePoint ℚ)}

theorem otherVolumes_pos (hothers : ∀ q ∈ before ++ after, 0 < q.price ∧ 0 < q.volume) :
    ∀ u ∈ otherVolumes before after, 0 < u := by
  intro u hu
  obtain ⟨q, hq, rfl⟩ := List.mem_map.mp hu
  exact (hothers q hq).2

/-- If the other volumes add up to no more than five times the median with the reporter's volume
on top, some sample below all prices outweighs them. -/
theorem exists_dominating_sample (hlen : 2 ≤ (otherVolumes before after).length)
    (hothers : ∀ q ∈ before ++ after, 0 < q.price ∧ 0 < q.volume)
    (hbig : (otherVolumes before after).sum ≤ 5 * medianBelowTop (otherVolumes before after)) :
    ∃ p : PricePoint ℚ, 0 < p.price ∧ 0 < p.volume ∧ (∀ q ∈ before ++ after, p.price < q.price) ∧
      weight (otherWeights before after p) ≤ min p.volume (capWith before after p) := by
  have hpos := otherVolumes_pos hothers
  have hsum : 0 < (otherVolumes before after).sum := by
    apply List.sum_pos _ hpos
    intro hnil
    rw [hnil] at hlen
    simp at hlen
  obtain ⟨price, hprice, hlow⟩ := exists_lower_price fun q hq => (hothers q hq).1
  -- a volume on top of the others and equal to the cap they then give
  obtain ⟨p, hpPrice, hpVolume⟩ : ∃ p : PricePoint ℚ, p.price = price ∧
      p.volume = 5 * medianBelowTop (otherVolumes before after) :=
    ⟨⟨price, _, "", 0⟩, rfl, rfl⟩
  have htop : ∀ u ∈ otherVolumes before after, u ≤ p.volume := by
    intro u hu
    rw [hpVolume]
    exact (List.single_le_sum (fun v hv => (hpos v hv).le) u hu).trans hbig
  have hcap : capWith before after p = p.volume := by
    rw [capWith, median_cons_top hlen htop, hpVolume]
  refine ⟨p, by rwa [hpPrice], by rw [hpVolume]; exact hsum.trans_le hbig, by rwa [hpPrice], ?_⟩
  rw [weight_otherWeights, hcap, min_self]
  exact (sum_min_le _ _).trans (by rwa [hpVolume])

/-- A sample below all prices that outweighs the others is the median. -/
theorem median_of_dominating {p : PricePoint ℚ}
    (hothers : ∀ q ∈ before ++ after, 0 < q.price ∧ 0 < q.volume)
    (hlen : 2 ≤ (before ++ after).length) (hp : 0 < p.volume)
    (hlow : ∀ q ∈ before ++ after, p.price < q.price)
    (hle : weight (otherWeights before after p) ≤ min p.volume (capWith before after p)) :
    ∃ mode, weightedMedian ((before ++ p :: after).map PricePoint.lift) =
      some (.fin p.price, mode) := by
  obtain ⟨x, mode, hx, hreaches⟩ := weightedMedian_panel hothers hp hlen
  have hnonneg : ∀ e ∈ (p.price, min p.volume (capWith before after p)) ::
      otherWeights before after p, 0 ≤ e.2 := by
    intro e he
    rcases List.mem_cons.mp he with rfl | he
    · exact (lt_min hp (capWith_pos hothers hp)).le
    · exact otherWeights_nonneg hothers hp e he
  obtain rfl : x = p.price :=
    hreaches.unique hnonneg (captured_of_not_outweighed hothers hp hle hlow)
  exact ⟨mode, hx⟩

end Threshold

/-- Whatever positive price and volume one sample reports, the median lies between the prices
of the others: exactly if the other volumes add up to more than five times the median of all
volumes with the reporter's on top. -/
theorem median_not_bought_iff {before after : List (PricePoint ℚ)}
    (hlen : 2 ≤ (before ++ after).length)
    (hothers : ∀ q ∈ before ++ after, 0 < q.price ∧ 0 < q.volume) :
    (∀ p : PricePoint ℚ, 0 < p.price → 0 < p.volume →
      ∃ x mode, weightedMedian ((before ++ p :: after).map PricePoint.lift) = some (.fin x, mode) ∧
        (∃ a ∈ before ++ after, a.price ≤ x) ∧ ∃ b ∈ before ++ after, x ≤ b.price) ↔
      5 * medianBelowTop (otherVolumes before after) < (otherVolumes before after).sum := by
  have hlenVolumes : 2 ≤ (otherVolumes before after).length := by
    rwa [otherVolumes, List.length_map]
  constructor
  · intro hsafe
    by_contra hbig
    obtain ⟨p, hprice, hp, hlow, hle⟩ :=
      exists_dominating_sample hlenVolumes hothers (not_lt.mp hbig)
    obtain ⟨x, mode, hx, ⟨a, ha, hax⟩, -⟩ := hsafe p hprice hp
    obtain ⟨mode', hown⟩ := median_of_dominating hothers hlen hp hlow hle
    rw [hown] at hx
    obtain ⟨rfl, -⟩ : p.price = x ∧ mode' = mode := by simpa using hx
    exact absurd (hlow a ha) (not_lt.mpr hax)
  · intro hsmall p _ hp
    obtain ⟨x, mode, hx, hreaches⟩ := weightedMedian_panel hothers hp hlen
    refine ⟨x, mode, hx, between_of_outweighed hothers hp ?_ hreaches⟩
    have hcap : capWith before after p ≤ 5 * medianBelowTop (otherVolumes before after) := by
      have := median_cons_le p.volume hlenVolumes
      unfold capWith
      linarith
    rw [weight_otherWeights]
    exact (min_le_right _ _).trans_lt (cap_lt_sum_min hlenVolumes (otherVolumes_pos hothers)
      (capWith_pos hothers hp) (hcap.trans_lt hsmall))

def thinPair : List (PricePoint ℚ) := [volumeSample 1 1, volumeSample 2 1]

def thickPair : List (PricePoint ℚ) := [volumeSample 2 1, volumeSample 3 10]

/-- Four others with volumes 1, 1, 1 and 10: the cap is 5 at most, so a fifth one cannot set its
own price. -/
theorem median_not_bought_iff_four :
    5 * medianBelowTop (otherVolumes thinPair thickPair) < (otherVolumes thinPair thickPair).sum ∧
    ∃ x mode, weightedMedian ((thinPair ++ volumeSample 1000 100 :: thickPair).map
        PricePoint.lift) = some (.fin x, mode) ∧
      (∃ a ∈ thinPair ++ thickPair, a.price ≤ x) ∧ ∃ b ∈ thinPair ++ thickPair, x ≤ b.price := by
  refine ⟨by decide +kernel, ?_⟩
  have hsafe := (@median_not_bought_iff thinPair thickPair (by decide)
    (by decide +kernel)).mpr (by decide +kernel)
  exact hsafe (volumeSample 1000 100) (by decide +kernel) (by decide +kernel)

/-- Two samples priced 1 and 2 with volume 1 each: a third one with volume 100 weighs 5 of 7
and sets its own price. -/
theorem third_source_buys_median :
    ∃ p : PricePoint ℚ, p = volumeSample 1000 100 ∧
      weightedMedian ((thinPair ++ p :: []).map PricePoint.lift) =
        some (.fin 1000, .volumeWeighted) ∧
      (∀ b ∈ thinPair, b.price < 1000) ∧
      ¬ 5 * medianBelowTop (otherVolumes thinPair []) < (otherVolumes thinPair []).sum :=
  ⟨_, rfl, by decide +kernel, by decide +kernel, by decide +kernel⟩

/-! ### Large panels -/

/-- In a sorted list the entries from a rank on are no smaller than the one of that rank. -/
theorem take_sum_add_le_sum {s : List ℚ} (hs : s.Pairwise (· ≤ ·)) {i : ℕ} (hi : i < s.length) :
    (s.take i).sum + (s.length - i : ℕ) * s[i] ≤ s.sum := by
  have hhigh : (s.drop i).length • s[i] ≤ (s.drop i).sum := by
    apply List.card_nsmul_le_sum
    intro u hu
    obtain ⟨j, hj, rfl⟩ := List.mem_drop_iff_getElem.mp hu
    rcases Nat.eq_zero_or_pos j with rfl | hj'
    · simp
    · exact List.pairwise_iff_getElem.mp hs i (i + j) hi _ (by omega)
  have hsplit : s.sum = (s.take i).sum + (s.drop i).sum := by
    rw [← List.sum_append, List.take_append_drop]
  rw [List.length_drop, nsmul_eq_mul] at hhigh
  linarith

theorem take_sum_pos {s : List ℚ} (hpos : ∀ u ∈ s, 0 < u) {i : ℕ} (hi : i < s.length)
    (hi' : 0 < i) : 0 < (s.take i).sum := by
  apply List.sum_pos
  · intro u hu
    exact hpos u (List.mem_of_mem_take hu)
  · intro hnil
    have hlength := congrArg List.length hnil
    rw [List.length_take, List.length_nil] at hlength
    omega

/-- With nine others or more the cap suffices whatever their volumes are. -/
theorem large_panel_outweighs {us : List ℚ} (hlen : 9 ≤ us.length) (hpos : ∀ u ∈ us, 0 < u) :
    5 * medianBelowTop us < us.sum := by
  have hs := pairwise_sorted us
  have hpos' : ∀ u ∈ sorted us, 0 < u := fun u hu => hpos u (mem_sorted.mp hu)
  have hlength : (sorted us).length = us.length := length_sorted us
  obtain ⟨k, hk⟩ : ∃ k, (us.length + 1) / 2 = k + 1 := ⟨(us.length + 1) / 2 - 1, by omega⟩
  have hklt : k + 1 < (sorted us).length := by omega
  have hmid : 0 < (sorted us)[k + 1] := hpos' _ (List.getElem_mem hklt)
  have hbound := take_sum_add_le_sum hs hklt
  rw [(sorted_perm us).sum_eq] at hbound
  unfold medianBelowTop
  rw [hk, List.getD_eq_getElem _ _ hklt, Nat.add_sub_cancel,
    List.getD_eq_getElem _ _ (by omega : k < (sorted us).length)]
  split
  · -- one middle entry stands before the other, and at least three entries behind it
    have hfour : (4 : ℚ) ≤ ((sorted us).length - (k + 1) : ℕ) := by
      exact_mod_cast (by omega : 4 ≤ (sorted us).length - (k + 1))
    have hle : (sorted us)[k] ≤ (sorted us)[k + 1] :=
      List.pairwise_iff_getElem.mp hs k (k + 1) _ hklt (by omega)
    have hlow := take_sum_pos hpos' (by omega : k < (sorted us).length) (by omega)
    rw [List.sum_take_succ _ _ (by omega)] at hbound
    nlinarith
  · have hfive : (5 : ℚ) ≤ ((sorted us).length - (k + 1) : ℕ) := by
      exact_mod_cast (by omega : 5 ≤ (sorted us).length - (k + 1))
    have hlow := take_sum_pos hpos' hklt (by omega)
    nlinarith

end Nuntius.Aggregator
