import Nuntius.QuoteRates
import Nuntius.WeightedMedian

/-!
# What the store says about a price

Both paths end in the fixed-point encoder, so the fixed-point form of a stored price is the nearest
integer to it in units of `1e-8`. The encoder refuses prices that are not positive, but it does so
before it rounds: what was fetched below half a unit is stored as zero. Every entry is traced back
to the step that stored it, and the condition is put on what that step was given.
-/

namespace Nuntius.OracleCycle
open WireFormat Aggregator ConsolidatedBook RunningWeights

/-! ### Rounding -/

/-- What the encoder accepts is finite and positive, and rounds without saturating. -/
theorem toFixedPoint_eq_ok {price : ExtRat} {decimals n : ℕ}
    (h : toFixedPoint price decimals = .ok n) :
    ∃ q : ℚ, price = .fin q ∧ 0 < q ∧ (n : ℤ) = roundAway (q * 10 ^ decimals) := by
  cases price with
  | nan => simp [toFixedPoint, F64.isFinite, ExtRat.isFinite] at h
  | negInf => simp [toFixedPoint, F64.isFinite, ExtRat.isFinite] at h
  | posInf => simp [toFixedPoint] at h
  | fin q =>
    simp only [toFixedPoint, ExtRat.fin_isFinite, ExtRat.lit_eq, ExtRat.fin_le, ExtRat.fin_lt,
      ExtRat.fin_mul, ExtRat.fin_round, Bool.not_true, Bool.false_or, Bool.or_eq_true,
      decide_eq_true_eq, Bool.false_eq_true, if_false] at h
    split_ifs at h with hpos hsane hfits
    obtain ⟨hlo, hhi⟩ := not_or.mp hfits
    have hq : 0 < q := not_le.mp hpos
    have hmax : roundAway (q * 10 ^ decimals) ≤ 2 ^ 128 - 1 := by
      have hmono := roundAway_mono (not_lt.mp hhi)
      have hmaxInt : (2 ^ 128 - 1 : ℚ) = ((2 ^ 128 - 1 : ℤ) : ℚ) := by norm_num
      rwa [hmaxInt, roundAway_intCast] at hmono
    have hmin := roundAway_nonneg (not_lt.mp hlo)
    refine ⟨q, rfl, hq, ?_⟩
    rw [← Except.ok.inj h]
    change ((clamp 0 (2 ^ 128 - 1) (truncate (roundAway (q * 10 ^ decimals) : ℚ))).toNat : ℤ) = _
    rw [truncate_intCast, clamp_of_mem hmin hmax, Int.toNat_of_nonneg hmin]

/-! ### The two paths -/

/-- Half a unit of the fixed-point form. -/
def halfUnit : ℚ := 1 / (2 * 10 ^ 8)

/-- The fixed-point form is the nearest number of units, and it is positive exactly for
prices of at least half a unit. -/
def Encodes (price : ExtRat) (priceFixed : ℕ) : Prop :=
  ∃ q : ℚ, price = .fin q ∧ |(priceFixed : ℚ) - q * 10 ^ 8| ≤ 1 / 2 ∧
    (1 ≤ priceFixed ↔ halfUnit ≤ q)

theorem encodes_of_toFixedPoint {price : ExtRat} {priceFixed : ℕ}
    (h : (toFixedPoint price oracleDecimals).toOption = some priceFixed) :
    Encodes price priceFixed := by
  have hok : toFixedPoint price oracleDecimals = .ok priceFixed := by
    cases hfixed : toFixedPoint price oracleDecimals with
    | error e => simp [hfixed, Except.toOption] at h
    | ok n => simpa [hfixed, Except.toOption] using h
  obtain ⟨q, hprice, hq, hfixed⟩ := toFixedPoint_eq_ok hok
  have hunits : (0 : ℚ) ≤ q * 10 ^ 8 := by positivity
  have hround : roundAway (q * 10 ^ 8) = (priceFixed : ℤ) := hfixed.symm
  refine ⟨q, hprice, ?_, ?_⟩
  · have hcast : (priceFixed : ℚ) = (roundAway (q * 10 ^ 8) : ℚ) := by exact_mod_cast hfixed
    rw [hcast]
    exact abs_roundAway_sub_le _
  · have hhalf : halfUnit ≤ q ↔ 1 / 2 ≤ q * 10 ^ 8 := by
      rw [halfUnit, div_le_iff₀ (by norm_num)]
      constructor <;> intro h <;> linarith
    rw [hhalf, ← one_le_roundAway hunits, hround]
    omega

/-- The survivors priced below half a unit weigh less than half of all. -/
def SamplesReach (asset : AssetConfig) (s : CycleState ExtRat) (raw : List (PricePoint ExtRat)) :
    Prop :=
  let weights := weighted ((survivingSamples asset s raw).map PricePoint.exact)
  weightBelow weights halfUnit < weight weights / 2

/-- The consolidated price, converted with the rate, is half a unit or more. -/
def BooksReach (asset : AssetConfig) (s : CycleState ExtRat)
    (books : List (OrderBookSnapshot ExtRat)) : Prop :=
  ∃ fair ts mid rate, gatedConsolidatedOrderBook books asset.minSources = some fair ∧
    cobSignedTs books = some ts ∧ fair.price = .fin mid ∧
    usdtRate s.usdtUsd s.store ts usdtRateMaxAgeSecs = .fin rate ∧ halfUnit ≤ mid * rate

/-- What was fetched for an asset reaches half a unit, on the path that prices it. -/
def FetchedReach (H : Digests ExtRat) (asset : AssetConfig) (s : CycleState ExtRat)
    (input : AssetInput ExtRat) : Prop :=
  if (input.books.bind (cobCached H asset s)).isSome then
    ∃ books, input.books = some books ∧ BooksReach asset s books
  else SamplesReach asset s input.raw

section Paths
variable {H : Digests ExtRat} {asset : AssetConfig} {s : CycleState ExtRat}
  {c : CachedPrice ExtRat}

theorem fin_of_mul {x y : ExtRat} {q : ℚ} (h : x * y = .fin q) :
    ∃ a b, x = .fin a ∧ y = .fin b ∧ q = a * b := by
  have hsigned : ∀ a : ℚ, ExtRat.signedInf a ≠ .fin q := by
    intro a
    unfold ExtRat.signedInf
    split_ifs <;> simp
  cases x <;> cases y
  case fin.fin a b => exact ⟨a, b, rfl, rfl, (ExtRat.fin.inj h).symm⟩
  all_goals first | cases h | exact absurd h (hsigned _)

theorem cobCached_positive_iff {books : List (OrderBookSnapshot ExtRat)}
    (h : cobCached H asset s books = some c) :
    Encodes c.priceHuman c.priceFixed ∧ (1 ≤ c.priceFixed ↔ BooksReach asset s books) := by
  obtain ⟨raw, hraw, hmap⟩ := Option.bind_eq_some_iff.mp h
  obtain ⟨priceFixed, hfixed, rfl⟩ := Option.map_eq_some_iff.mp hmap
  obtain ⟨fair, hfair, hdated⟩ := Option.bind_eq_some_iff.mp hraw
  obtain ⟨ts, hts, rfl⟩ := Option.map_eq_some_iff.mp hdated
  have hencodes := encodes_of_toFixedPoint hfixed
  refine ⟨hencodes, ?_⟩
  obtain ⟨q, hq, -, hpositive⟩ := hencodes
  obtain ⟨mid, rate, hmid, hrate, rfl⟩ := fin_of_mul hq
  refine hpositive.trans ⟨fun hle => ⟨fair, ts, mid, rate, hfair, hts, hmid, hrate, hle⟩, ?_⟩
  rintro ⟨fair', ts', mid', rate', hfair', hts', hmid', hrate', hle⟩
  obtain rfl := Option.some.inj (hfair.symm.trans hfair')
  obtain rfl := Option.some.inj (hts.symm.trans hts')
  rwa [ExtRat.fin.inj (hmid.symm.trans hmid'), ExtRat.fin.inj (hrate.symm.trans hrate')]

/-- The survivors are exact samples. -/
theorem lift_exact_survivors (raw : List (PricePoint ExtRat)) :
    ((survivingSamples asset s raw).map PricePoint.exact).map PricePoint.lift =
      survivingSamples asset s raw := by
  rw [List.map_map]
  conv_rhs => rw [← List.map_id (survivingSamples asset s raw)]
  apply List.map_congr_left
  intro p hp
  have hconverted := (pricedSamples_sublist asset s raw).subset
    ((survivingSamples_sublist asset s raw).subset hp)
  exact PricePoint.lift_exact (finitePrices_convertedSamples asset s raw p hconverted)
    (finite_volume_convertedSamples hconverted)

theorem restCached_positive_iff {raw : List (PricePoint ExtRat)}
    (h : restCached H asset s raw = some c) :
    Encodes c.priceHuman c.priceFixed ∧ (1 ≤ c.priceFixed ↔ SamplesReach asset s raw) := by
  obtain ⟨-, -, mode, hmedian⟩ := restAggregate_eq_some (restCached_eq_some h).1
  obtain ⟨agg, -, hmap⟩ := Option.bind_eq_some_iff.mp h
  obtain ⟨priceFixed, hfixed, rfl⟩ := Option.map_eq_some_iff.mp hmap
  have hencodes := encodes_of_toFixedPoint hfixed
  refine ⟨hencodes, ?_⟩
  obtain ⟨q, hq, -, hpositive⟩ := hencodes
  rw [← lift_exact_survivors] at hmedian
  obtain ⟨x, hx, hreaches⟩ := reaches_of_weightedMedian hmedian
  obtain rfl := ExtRat.fin.inj (hq.symm.trans hx)
  exact hpositive.trans (hreaches.le_iff (fun e he => (weighted_pos he).le) halfUnit)

theorem assetPrice_positive_iff {input : AssetInput ExtRat}
    (h : assetPrice H asset s input = some c) :
    Encodes c.priceHuman c.priceFixed ∧ (1 ≤ c.priceFixed ↔ FetchedReach H asset s input) := by
  unfold assetPrice at h
  unfold FetchedReach
  cases hcob : input.books.bind (cobCached H asset s) with
  | none =>
    rw [hcob, Option.none_or] at h
    exact restCached_positive_iff h
  | some c' =>
    rw [hcob, Option.some_or] at h
    obtain rfl := Option.some.inj h
    obtain ⟨books, hbooks, hc⟩ := Option.bind_eq_some_iff.mp hcob
    obtain ⟨hencodes, hpositive⟩ := cobCached_positive_iff hc
    refine ⟨hencodes, hpositive.trans ⟨fun hreach => ⟨books, hbooks, hreach⟩, ?_⟩⟩
    rintro ⟨books', hbooks', hreach⟩
    rwa [Option.some.inj (hbooks.symm.trans hbooks')]

end Paths

/-! ### Every cycle -/

/-- The store after a number of cycles, each with its own assets and inputs. -/
def storeAfter (H : Digests ExtRat)
    (cycles : List (List AssetConfig × (AssetConfig → AssetInput ExtRat))) : PriceStore ExtRat :=
  cycles.foldl (fun store c => cycle H c.1 c.2 store) (fun _ => none)

/-- In one of the cycles the loop came to the asset in the state `s` and was given the input. -/
def Reached (H : Digests ExtRat)
    (cycles : List (List AssetConfig × (AssetConfig → AssetInput ExtRat))) (asset : AssetConfig)
    (s : CycleState ExtRat) (input : AssetInput ExtRat) : Prop :=
  ∃ earlier now later before after, cycles = earlier ++ now :: later ∧
    orderedAssets now.1 = before ++ asset :: after ∧
    s = steps H now.2 ⟨storeAfter H earlier, none⟩ before ∧ input = now.2 asset

section Origin
variable {H : Digests ExtRat} {symbol : String} {c : CachedPrice ExtRat}

/-- An entry was there before the assets, or one of them stored it. -/
theorem steps_entry {inputs : AssetConfig → AssetInput ExtRat} {assets : List AssetConfig}
    {s : CycleState ExtRat} (h : (steps H inputs s assets).store symbol = some c) :
    s.store symbol = some c ∨ ∃ before asset after, assets = before ++ asset :: after ∧
      asset.symbol = symbol ∧
      assetPrice H asset (steps H inputs s before) (inputs asset) = some c := by
  induction assets generalizing s with
  | nil => exact .inl h
  | cons asset rest ih =>
    obtain hthere | ⟨before, later, after, rfl, hsymbol, hprice⟩ := ih h
    · rw [assetStep_store] at hthere
      split at hthere
      · rename_i hsymbol
        cases hprice : assetPrice H asset s (inputs asset) with
        | none =>
          rw [hprice, Option.none_or] at hthere
          exact .inl hthere
        | some c' =>
          rw [hprice, Option.some_or] at hthere
          exact .inr ⟨[], asset, rest, rfl, hsymbol.symm, hprice.trans hthere⟩
      · exact .inl hthere
    · exact .inr ⟨asset :: before, later, after, rfl, hsymbol, hprice⟩

theorem storeAfter_concat
    (cycles : List (List AssetConfig × (AssetConfig → AssetInput ExtRat)))
    (now : List AssetConfig × (AssetConfig → AssetInput ExtRat)) :
    storeAfter H (cycles ++ [now]) =
      (steps H now.2 ⟨storeAfter H cycles, none⟩ (orderedAssets now.1)).store := by
  simp [storeAfter, cycle, steps]

/-- Every entry of the store was stored by a step of one of the cycles. -/
theorem storeAfter_entry
    {cycles : List (List AssetConfig × (AssetConfig → AssetInput ExtRat))}
    (h : storeAfter H cycles symbol = some c) :
    ∃ asset s input, Reached H cycles asset s input ∧ asset.symbol = symbol ∧
      assetPrice H asset s input = some c := by
  induction cycles using List.reverseRecOn with
  | nil => cases h
  | append_singleton cycles now ih =>
    rw [storeAfter_concat] at h
    obtain hthere | ⟨before, asset, after, hassets, hsymbol, hprice⟩ := steps_entry h
    · obtain ⟨asset, s, input, ⟨earlier, now', later, before, after, rfl, hreached⟩, hstored⟩ :=
        ih hthere
      exact ⟨asset, s, input, ⟨earlier, now', later ++ [now], before, after, by simp, hreached⟩,
        hstored⟩
    · exact ⟨asset, _, _, ⟨cycles, now, [], before, after, rfl, hassets, rfl, rfl⟩, hsymbol,
        hprice⟩

end Origin

/-- Whatever was fetched in whatever cycles, a stored price is within half a unit of its
fixed-point form. It was stored by a step of one of the cycles, and the form is positive exactly
if what that step was given reaches half a unit: of the samples that survived, those below weigh
less than half; on the other path, the consolidated price times the rate is not below. -/
theorem stored_positive_iff (H : Digests ExtRat)
    (cycles : List (List AssetConfig × (AssetConfig → AssetInput ExtRat))) (symbol : String)
    (c : CachedPrice ExtRat) (h : storeAfter H cycles symbol = some c) :
    (∃ q : ℚ, c.priceHuman = .fin q ∧ |(c.priceFixed : ℚ) - q * 10 ^ 8| ≤ 1 / 2) ∧
    ∃ asset s input, Reached H cycles asset s input ∧ asset.symbol = symbol ∧
      assetPrice H asset s input = some c ∧
      (1 ≤ c.priceFixed ↔ FetchedReach H asset s input) := by
  obtain ⟨asset, s, input, hreached, hsymbol, hprice⟩ := storeAfter_entry h
  obtain ⟨⟨q, hq, hclose, -⟩, hpositive⟩ := assetPrice_positive_iff hprice
  exact ⟨⟨q, hq, hclose⟩, asset, s, input, hreached, hsymbol, hprice, hpositive⟩

/-- The agreeing samples of the demonstration are stored, and they reach half a unit. -/
theorem stored_positive_demo :
    ∃ c, storeAfter blankDigests [([demoAsset], fun _ => ⟨none, demoSamples⟩)] "KAS/USD" = some c ∧
      (∃ q : ℚ, c.priceHuman = .fin q ∧ |(c.priceFixed : ℚ) - q * 10 ^ 8| ≤ 1 / 2) ∧
      ∃ asset s input, Reached blankDigests [([demoAsset], fun _ => ⟨none, demoSamples⟩)]
          asset s input ∧ asset.symbol = "KAS/USD" ∧
        assetPrice blankDigests asset s input = some c ∧
        (1 ≤ c.priceFixed ↔ FetchedReach blankDigests asset s input) := by
  obtain ⟨c, hc⟩ := Option.isSome_iff_exists.mp (by decide +kernel :
    (storeAfter blankDigests [([demoAsset], fun _ => ⟨none, demoSamples⟩)]
      "KAS/USD").isSome = true)
  exact ⟨c, hc, stored_positive_iff blankDigests _ "KAS/USD" c hc⟩

/-- An asset that trades at a billionth of a dollar, with three agreeing sources. -/
def dustAsset : AssetConfig := ⟨"DUST/USD", 3, 500, [("a", .usd), ("b", .usd), ("c", .usd)]⟩

def dustSamples : List (PricePoint ExtRat) :=
  [⟨.fin (1 / 10 ^ 9), .fin 1, "a", 1700000000⟩, ⟨.fin (1 / 10 ^ 9), .fin 1, "b", 1700000000⟩,
    ⟨.fin (1 / 10 ^ 9), .fin 1, "c", 1700000000⟩]

/-- Its positive price passes every check and is stored as zero. -/
theorem dust_stored_as_zero :
    (storeAfter blankDigests [([dustAsset], fun _ => ⟨none, dustSamples⟩)] "DUST/USD").map
      (fun c => (c.priceHuman, c.priceFixed)) = some (.fin (1 / 10 ^ 9), 0) := by
  decide +kernel

end Nuntius.OracleCycle
