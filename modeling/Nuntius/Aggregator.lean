import Nuntius.FloatModel
import Nuntius.WireFormat

/-!
# The price aggregator

Samples are sanitised, converted to one quote currency, stripped of price and time
outliers, and reduced to a volume-weighted median. Everything here is generic in the
float carrier. The volume-quorum counter and the log lines are not modelled; the
weighting mode that drives them is.
-/

namespace Nuntius.Aggregator
open WireFormat

variable {F : Type} [F64 F]

/-- One observation of a data source. `serverTime` is the source's own clock in
seconds, a `u64`. -/
structure PricePoint (F : Type) where
  price : F
  volume : F
  source : String
  serverTime : ℕ
  deriving DecidableEq

inductive Quote where
  | usd
  | usdt
  deriving DecidableEq

/-- The policy of one asset. `sources` maps a source name to the currency its pair is
denominated in. -/
structure AssetConfig where
  symbol : String
  minSources : ℕ
  deviationThresholdBps : ℕ
  sources : List (String × Quote)

namespace AssetConfig

def quote (asset : AssetConfig) (source : String) : Option Quote := asset.sources.lookup source

def hasUsdtQuotedSource (asset : AssetConfig) : Bool :=
  asset.sources.any (fun m => m.2 = .usdt)

end AssetConfig

inductive WeightingMode where
  | volumeWeighted
  | equalFallback
  deriving DecidableEq

def volumeWeightCapFactor : ℚ := 5

def maxSanePrice : ℚ := 10 ^ 20

def maxTimeDriftSecs : ℕ := 300

/-! ### Sanitising and the trusted clock -/

def isSane (p : PricePoint F) : Bool :=
  F64.isFinite p.price && F64.lt (F64.lit 0) p.price && decide (0 < p.serverTime)

def repairVolume (p : PricePoint F) : PricePoint F :=
  if !F64.isFinite p.volume || F64.lt p.volume (F64.lit 0) then { p with volume := F64.lit 0 }
  else p

def sanitize (prices : List (PricePoint F)) : List (PricePoint F) :=
  (prices.filter isSane).map repairVolume

/-- The middle of sorted `u64` times. The sum of the two middle entries wraps. -/
def middleTime (times : List ℕ) : ℕ :=
  if times.length % 2 = 0 then
    (times.getD (times.length / 2 - 1) 0 + times.getD (times.length / 2) 0) % 2 ^ 64 / 2
  else times.getD (times.length / 2) 0

def medianServerTime (prices : List (PricePoint F)) : Option ℕ :=
  if prices.isEmpty then none
  else some (middleTime (OrderStatistics.sorted (prices.map PricePoint.serverTime)))

def withinDrift (median : ℕ) (p : PricePoint F) : Bool :=
  decide (max p.serverTime median - min p.serverTime median ≤ maxTimeDriftSecs)

/-- One pass around the median clock. Returns the kept samples and their own median. -/
def rejectTimeOutliers (prices : List (PricePoint F)) : List (PricePoint F) × Option ℕ :=
  match medianServerTime prices with
  | none => (prices, none)
  | some median =>
    let kept := prices.filter (withinDrift median)
    (kept, medianServerTime kept)

/-! ### Medians -/

/-- The middle of sorted floats; the source indexes the slice, which is never empty. -/
def middleFloat (values : List F) : F :=
  if values.length % 2 = 0 then
    (values.getD (values.length / 2 - 1) (F64.lit 0) + values.getD (values.length / 2) (F64.lit 0))
      / F64.lit 2
  else values.getD (values.length / 2) (F64.lit 0)

def medianSorted (values : List F) : F := middleFloat (sortFloats values)

/-- Walk the price-sorted weights until the running sum reaches half of the total. -/
def pickAtHalf (half : F) : F → List (F × F) → Option F
  | _, [] => none
  | cumulative, (price, weight) :: rest =>
    if F64.le half (cumulative + weight) then some price
    else pickAtHalf half (cumulative + weight) rest

def useVolume (prices : List (PricePoint F)) : Bool :=
  decide (prices.length < prices.countP (fun p => F64.lt (F64.lit 0) p.volume) * 2)

/-- The cap on a single weight, present only in volume mode. -/
def volumeCap (prices : List (PricePoint F)) : Option F :=
  if useVolume prices then
    some (medianSorted ((prices.filter (fun p => F64.lt (F64.lit 0) p.volume)).map
      PricePoint.volume) * F64.lit volumeWeightCapFactor)
  else none

def sampleWeight (prices : List (PricePoint F)) (p : PricePoint F) : F :=
  match useVolume prices && F64.lt (F64.lit 0) p.volume, volumeCap prices with
  | true, some c => F64.min p.volume c
  | _, _ => F64.lit 1

/-- `(price, weight)` pairs in increasing price order, stably. -/
def weightedSamples (prices : List (PricePoint F)) : List (F × F) :=
  (prices.map (fun p => (p.price, sampleWeight prices p))).insertionSort
    (fun a b => F64.lt b.1 a.1 = false)

def totalWeight (weighted : List (F × F)) : F :=
  weighted.foldl (fun acc pw => acc + pw.2) (F64.lit 0)

def weightedMedian (prices : List (PricePoint F)) : Option (F × WeightingMode) :=
  match prices with
  | [] => none
  | [p] => some (p.price, .volumeWeighted)
  | _ =>
    let mode := if useVolume prices then WeightingMode.volumeWeighted else .equalFallback
    let weighted := weightedSamples prices
    let half := totalWeight weighted / F64.lit 2
    match pickAtHalf half (F64.lit 0) weighted with
    | some price => some (price, mode)
    | none => weighted.getLast?.map (fun pw => (pw.1, mode))

/-! ### Price outliers -/

/-- The largest distance from the median a sample may have, infinite when neither the
deviation nor the cap gives a scale. -/
def outlierThreshold (median mad sigma : F) (capBps : ℕ) : F :=
  let cap := if capBps = 0 then F64.infinity
    else F64.abs median * F64.lit capBps / F64.lit 10000
  let madThreshold := if F64.lt mad (F64.lit 1e-10) then F64.infinity
    else sigma * F64.lit 1.4826 * mad
  F64.min madThreshold cap

def rejectOutliersWithCap (prices : List (PricePoint F)) (sigma : F) (capBps : ℕ) :
    List (PricePoint F) :=
  if prices.length < 3 then prices
  else
    let pricesSorted := sortFloats (prices.map PricePoint.price)
    let median := middleFloat pricesSorted
    let mad := medianSorted (pricesSorted.map (fun p => F64.abs (p - median)))
    let threshold := outlierThreshold median mad sigma capBps
    if F64.isFinite threshold then
      prices.filter (fun p => F64.le (F64.abs (p.price - median)) threshold)
    else prices

def rejectOutliers (prices : List (PricePoint F)) (sigma : F) : List (PricePoint F) :=
  rejectOutliersWithCap prices sigma 0

/-! ### Quote conversion, fixed point and the commitment to the samples -/

def convertQuote (asset : AssetConfig) (usdtUsd : F) (p : PricePoint F) : PricePoint F :=
  if asset.quote p.source = some .usdt then { p with price := p.price * usdtUsd } else p

/-- A rate that is not finite and positive converts nothing. -/
def convertQuotesToUsd (prices : List (PricePoint F)) (asset : AssetConfig) (usdtUsd : F) :
    List (PricePoint F) :=
  if !F64.isFinite usdtUsd || F64.le usdtUsd (F64.lit 0) then prices
  else prices.map (convertQuote asset usdtUsd)

inductive FixedPointError where
  | nonFinite
  | nonPositive
  | aboveMaxSanePrice
  | overflowsU128
  deriving DecidableEq

def toFixedPoint (price : F) (decimals : ℕ) : Except FixedPointError ℕ :=
  if !F64.isFinite price then .error .nonFinite
  else if F64.le price (F64.lit 0) then .error .nonPositive
  else if F64.lt (F64.lit maxSanePrice) price then .error .aboveMaxSanePrice
  else
    let scaled := price * F64.lit (10 ^ decimals)
    if !F64.isFinite scaled || F64.lt scaled (F64.lit 0) ||
        F64.lt (F64.lit (2 ^ 128 - 1)) scaled then .error .overflowsU128
    else .ok (F64.asUnsigned 128 (F64.round scaled))

/-- Keccak-256 and the big-endian bytes of a float, both outside the sources. -/
structure Digests (F : Type) where
  keccak256 : List UInt8 → Bytes 32
  toBeBytes : F → Bytes 8

/-- What the hasher is fed for one sample: name, `|`, price bytes. -/
def Digests.entry (H : Digests F) (p : PricePoint F) : List UInt8 :=
  utf8 p.source ++ 124 :: (H.toBeBytes p.price).val

def sourcesHash (H : Digests F) (prices : List (PricePoint F)) : Bytes 32 :=
  H.keccak256 (prices.flatMap H.entry)

/-! ### Which samples the filters can return -/

omit [F64 F] in
theorem medianServerTime_isSome {prices : List (PricePoint F)} (h : prices ≠ []) :
    ∃ t, medianServerTime prices = some t := by
  unfold medianServerTime
  rw [if_neg (by simpa using h)]
  exact ⟨_, rfl⟩

omit [F64 F] in
theorem rejectTimeOutliers_fst {prices : List (PricePoint F)} {t : ℕ}
    (h : medianServerTime prices = some t) :
    (rejectTimeOutliers prices).1 = prices.filter (withinDrift t) := by
  simp [rejectTimeOutliers, h]

omit [F64 F] in
theorem rejectTimeOutliers_snd (prices : List (PricePoint F)) :
    (rejectTimeOutliers prices).2 = medianServerTime (rejectTimeOutliers prices).1 := by
  unfold rejectTimeOutliers
  split
  · rename_i h
    rw [h]
  · rfl

omit [F64 F] in
theorem rejectTimeOutliers_sublist (prices : List (PricePoint F)) :
    (rejectTimeOutliers prices).1.Sublist prices := by
  unfold rejectTimeOutliers
  split
  · exact List.Sublist.refl _
  · exact List.filter_sublist

theorem rejectOutliersWithCap_sublist (prices : List (PricePoint F)) (sigma : F) (capBps : ℕ) :
    (rejectOutliersWithCap prices sigma capBps).Sublist prices := by
  unfold rejectOutliersWithCap
  dsimp only
  split_ifs
  · exact List.Sublist.refl _
  · exact List.filter_sublist
  · exact List.Sublist.refl _

theorem length_convertQuotesToUsd (prices : List (PricePoint F)) (asset : AssetConfig)
    (usdtUsd : F) : (convertQuotesToUsd prices asset usdtUsd).length = prices.length := by
  unfold convertQuotesToUsd
  split <;> simp

/-- The middle of a non-empty list of times below `2 ^ 63` stays between any bounds of
the list: the sum of two entries does not wrap. -/
theorem middleTime_mem {times : List ℕ} (hne : times ≠ []) (hlt : ∀ t ∈ times, t < 2 ^ 63)
    {lo hi : ℕ} (hlo : ∀ t ∈ times, lo ≤ t) (hhi : ∀ t ∈ times, t ≤ hi) :
    lo ≤ middleTime times ∧ middleTime times ≤ hi := by
  have hpos : 0 < times.length := List.length_pos_iff.mpr hne
  have hget : ∀ i, i < times.length → times.getD i 0 ∈ times := by
    intro i hi
    rw [List.getD_eq_getElem _ _ hi]
    exact List.getElem_mem hi
  have hmid := hget (times.length / 2) (by omega)
  unfold middleTime
  split
  · have hprev := hget (times.length / 2 - 1) (by omega)
    have h₁ := hlt _ hmid
    have h₂ := hlt _ hprev
    have h₃ := hlo _ hmid
    have h₄ := hlo _ hprev
    have h₅ := hhi _ hmid
    have h₆ := hhi _ hprev
    rw [Nat.mod_eq_of_lt (by omega)]
    omega
  · exact ⟨hlo _ hmid, hhi _ hmid⟩

omit [F64 F] in
theorem medianServerTime_mem {prices : List (PricePoint F)} {t lo hi : ℕ}
    (h : medianServerTime prices = some t) (hlt : ∀ p ∈ prices, p.serverTime < 2 ^ 63)
    (hlo : ∀ p ∈ prices, lo ≤ p.serverTime) (hhi : ∀ p ∈ prices, p.serverTime ≤ hi) :
    lo ≤ t ∧ t ≤ hi := by
  unfold medianServerTime at h
  split at h
  · simp at h
  · rename_i hne
    rw [← Option.some.inj h]
    have hmem : ∀ s ∈ OrderStatistics.sorted (prices.map PricePoint.serverTime),
        ∃ p ∈ prices, p.serverTime = s := by
      intro s hs
      exact List.mem_map.mp (OrderStatistics.mem_sorted.mp hs)
    refine middleTime_mem ?_ ?_ ?_ ?_
    · intro hnil
      have hlen := congrArg List.length hnil
      rw [OrderStatistics.length_sorted, List.length_map, List.length_nil] at hlen
      exact hne (by simpa using List.length_eq_zero_iff.mp hlen)
    · intro s hs
      obtain ⟨p, hp, rfl⟩ := hmem s hs
      exact hlt p hp
    · intro s hs
      obtain ⟨p, hp, rfl⟩ := hmem s hs
      exact hlo p hp
    · intro s hs
      obtain ⟨p, hp, rfl⟩ := hmem s hs
      exact hhi p hp

theorem pickAtHalf_mem {half cumulative price : F} {l : List (F × F)}
    (h : pickAtHalf half cumulative l = some price) : ∃ w, (price, w) ∈ l := by
  induction l generalizing cumulative with
  | nil => simp [pickAtHalf] at h
  | cons pw rest ih =>
    obtain ⟨p, w⟩ := pw
    unfold pickAtHalf at h
    split at h
    · rw [Option.some.inj h]
      exact ⟨w, List.mem_cons_self⟩
    · obtain ⟨w', hw'⟩ := ih h
      exact ⟨w', List.mem_cons_of_mem _ hw'⟩

theorem weightedSamples_mem {prices : List (PricePoint F)} {price w : F}
    (h : (price, w) ∈ weightedSamples prices) : ∃ p ∈ prices, p.price = price := by
  have hmem := (List.perm_insertionSort _ _).mem_iff.mp h
  obtain ⟨p, hp, he⟩ := List.mem_map.mp hmem
  exact ⟨p, hp, congrArg Prod.fst he⟩

/-- The weighted median is always the price of one of the samples. -/
theorem weightedMedian_mem {prices : List (PricePoint F)} {price : F} {mode : WeightingMode}
    (h : weightedMedian prices = some (price, mode)) : ∃ p ∈ prices, p.price = price := by
  unfold weightedMedian at h
  split at h
  · simp at h
  · rename_i p
    exact ⟨p, List.mem_singleton_self p, congrArg Prod.fst (Option.some.inj h)⟩
  · dsimp only at h
    split at h
    · rename_i q hq
      rw [Option.some.injEq, Prod.mk.injEq] at h
      obtain ⟨w, hw⟩ := pickAtHalf_mem hq
      exact weightedSamples_mem (h.1 ▸ hw)
    · obtain ⟨pw, hpw, he⟩ := Option.map_eq_some_iff.mp h
      rw [Prod.mk.injEq] at he
      rw [← he.1]
      exact weightedSamples_mem (w := pw.2) (List.mem_of_getLast? hpw)

end Nuntius.Aggregator
