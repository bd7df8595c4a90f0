import Nuntius.RestPath

/-!
# One rate a cycle

Most samples are quoted in USDT and converted with the USDT/USD rate, which is itself one of the
assets. The configuration is refused at the start if that asset were to be converted with its own
rate, and the loop prices it first. So its price takes no rate at all, every other asset of a
cycle is converted with the same one, and apart from that no asset has anything to do with
another: the order in which the configuration lists them is of no consequence.
-/

namespace Nuntius.OracleCycle
open WireFormat Aggregator ConsolidatedBook

/-! ### The configuration -/

structure SourceMapping where
  pair : String
  quote : Quote

/-- An asset of `config/assets.json`. -/
structure AssetEntry where
  symbol : String
  minSources : ℕ
  deviationThresholdBps : ℕ
  sources : List (String × SourceMapping)

/-- What the loop needs of an asset. -/
def AssetEntry.policy (a : AssetEntry) : AssetConfig :=
  ⟨a.symbol, a.minSources, a.deviationThresholdBps, a.sources.map fun m => (m.1, m.2.quote)⟩

structure AssetsConfig where
  exchangeHostnames : List String
  assets : List AssetEntry

/-- The assets as the loop has them. -/
def AssetsConfig.policies (config : AssetsConfig) : List AssetConfig :=
  config.assets.map AssetEntry.policy

/-- `debug` quotes a text in a message. -/
def checkHostname (debug : String → String) (h : String) : Except String Unit :=
  if h.isEmpty || h.toList.contains '/' || h.toList.contains ' ' then
    .error ("assets.json: invalid exchange_hostname " ++ debug h)
  else .ok ()

def checkMapping (symbol : String) (m : String × SourceMapping) : Except String Unit :=
  if m.2.pair.isEmpty then
    .error ("asset " ++ symbol ++ ": source " ++ m.1 ++ " has an empty pair")
  else .ok ()

def checkAsset (a : AssetEntry) : Except String Unit :=
  if a.minSources = 0 then .error ("asset " ++ a.symbol ++ ": min_sources == 0")
  else if a.sources.length < a.minSources then
    .error ("asset " ++ a.symbol ++ ": " ++ toString a.sources.length ++
      " source mappings < min_sources " ++ toString a.minSources)
  else if 10000 < a.deviationThresholdBps then
    .error ("asset " ++ a.symbol ++ ": deviation_threshold_bps " ++
      toString a.deviationThresholdBps ++ " > 100 %")
  else a.sources.forM (checkMapping a.symbol)

/-- The rate must exist if it is needed, and must not be converted with itself. -/
def checkUsdt (assets : List AssetEntry) : Except String Unit :=
  match assets.find? fun a => a.symbol = usdtUsdSymbol with
  | none =>
    if assets.any fun a => a.policy.hasUsdtQuotedSource then
      .error ("assets.json has USDT-quoted sources but no " ++ usdtUsdSymbol ++ " asset")
    else .ok ()
  | some a =>
    if a.policy.hasUsdtQuotedSource then
      .error (usdtUsdSymbol ++ " must be quoted in USD only — it IS the conversion rate")
    else .ok ()

/-- The checks of `load_assets` on what was parsed. -/
def loadAssets (debug : String → String) (parsed : AssetsConfig) : Except String AssetsConfig :=
  if parsed.assets.isEmpty then .error "assets.json has zero assets — refusing to start"
  else if parsed.exchangeHostnames.isEmpty then
    .error "assets.json has no exchange_hostnames — refusing to start"
  else do
    parsed.exchangeHostnames.forM (checkHostname debug)
    parsed.assets.forM checkAsset
    checkUsdt parsed.assets
    return parsed

/-- The base of an asset that has books, empty for the others. -/
def assetToCollectorSymbol (symbol : String) : String :=
  match symbol with
  | "BTC/USD" => "BTC"
  | "ETH/USD" => "ETH"
  | "KAS/USD" => "KAS"
  | "USDC/USD" => "USDC"
  | "TAO/USD" => "TAO"
  | _ => ""

def isCobAsset (asset : AssetConfig) : Bool := !(assetToCollectorSymbol asset.symbol).isEmpty

/-- What the outside supplies in a cycle: books only for the assets that have them. -/
structure CycleInputs (F : Type) where
  of : AssetConfig → AssetInput F
  books : ∀ {asset}, ((of asset).books).isSome → isCobAsset asset = true

variable {F : Type}

theorem loadAssets_eq_ok {debug : String → String} {parsed config : AssetsConfig}
    (h : loadAssets debug parsed = .ok config) :
    parsed = config ∧ checkUsdt config.assets = .ok () := by
  unfold loadAssets at h
  split at h
  · cases h
  split at h
  · cases h
  obtain ⟨-, -, h⟩ := bind_eq_ok.mp h
  obtain ⟨-, -, h⟩ := bind_eq_ok.mp h
  obtain ⟨⟨⟩, husdt, h⟩ := bind_eq_ok.mp h
  cases h
  exact ⟨rfl, husdt⟩

/-- The symbols of the assets are distinct, and the rate is not converted. -/
structure Sound (assets : List AssetConfig) : Prop where
  distinct : (assets.map AssetConfig.symbol).Nodup
  usdOnly : ∀ a ∈ assets, a.symbol = usdtUsdSymbol → a.hasUsdtQuotedSource = false

theorem eq_of_symbol {assets : List AssetConfig} (distinct : (assets.map AssetConfig.symbol).Nodup)
    {a b : AssetConfig} (ha : a ∈ assets) (hb : b ∈ assets) (h : a.symbol = b.symbol) : a = b :=
  List.inj_on_of_nodup_map distinct ha hb h

theorem sound_of_loadAssets {debug : String → String} {parsed config : AssetsConfig}
    (h : loadAssets debug parsed = .ok config)
    (distinct : (config.policies.map AssetConfig.symbol).Nodup) : Sound config.policies := by
  refine ⟨distinct, ?_⟩
  obtain ⟨-, husdt⟩ := loadAssets_eq_ok h
  intro a ha hsymbol
  obtain ⟨entry, hentry, rfl⟩ := List.mem_map.mp ha
  unfold checkUsdt at husdt
  split at husdt
  · rename_i hnone
    have hno := List.find?_eq_none.mp hnone entry hentry
    exact absurd (decide_eq_true hsymbol) hno
  · rename_i found hfound
    have hmem := List.mem_of_find?_eq_some hfound
    have hfoundSymbol : found.symbol = usdtUsdSymbol := by simpa using List.find?_some hfound
    have hsame : entry.policy = found.policy :=
      eq_of_symbol distinct ha (List.mem_map_of_mem hmem) (hsymbol.trans hfoundSymbol.symm)
    split at husdt
    · cases husdt
    · rename_i hquoted
      rw [hsame]
      exact Bool.eq_false_iff.mpr hquoted

/-! ### One asset -/

variable [F64 F]

/-- The price that a step stores, if any. -/
def assetPrice (H : Digests F) (asset : AssetConfig) (s : CycleState F) (input : AssetInput F) :
    Option (CachedPrice F) :=
  (input.books.bind (cobCached H asset s)).or (restCached H asset s input.raw)

/-- The states convert alike. -/
structure SameRate (s s' : CycleState F) : Prop where
  cycle : s.usdtUsd = s'.usdtUsd
  stored : s.store usdtUsdSymbol = s'.store usdtUsdSymbol

section Step
variable {H : Digests F} {asset : AssetConfig} {s s' : CycleState F} {input : AssetInput F}

theorem SameRate.usdtRate_eq (h : SameRate s s') (refTs maxAgeSecs : ℕ) :
    usdtRate s.usdtUsd s.store refTs maxAgeSecs =
      usdtRate s'.usdtUsd s'.store refTs maxAgeSecs := by
  unfold usdtRate
  rw [h.cycle, h.stored]

theorem SameRate.convertedSamples_eq (h : SameRate s s') (raw : List (PricePoint F)) :
    convertedSamples asset s raw = convertedSamples asset s' raw := by
  unfold convertedSamples
  simp only [h.usdtRate_eq]

/-- An asset without USDT-quoted sources is priced without a rate. -/
theorem convertedSamples_of_usdOnly (h : asset.hasUsdtQuotedSource = false) (s s' : CycleState F)
    (raw : List (PricePoint F)) : convertedSamples asset s raw = convertedSamples asset s' raw := by
  simp [convertedSamples, h]

theorem survivingSamples_congr {raw : List (PricePoint F)}
    (h : convertedSamples asset s raw = convertedSamples asset s' raw) :
    survivingSamples asset s raw = survivingSamples asset s' raw := by
  rw [survivingSamples, survivingSamples, pricedSamples, pricedSamples, h]

theorem restAggregate_congr {raw : List (PricePoint F)}
    (h : convertedSamples asset s raw = convertedSamples asset s' raw) :
    restAggregate asset s raw = restAggregate asset s' raw := by
  unfold restAggregate
  rw [survivingSamples_congr h, pricedSamples, pricedSamples, h]

theorem restCached_congr {raw : List (PricePoint F)}
    (h : convertedSamples asset s raw = convertedSamples asset s' raw) :
    restCached H asset s raw = restCached H asset s' raw := by
  unfold restCached
  rw [restAggregate_congr h, survivingSamples_congr h]

theorem SameRate.assetPrice_eq (h : SameRate s s') :
    assetPrice H asset s input = assetPrice H asset s' input := by
  unfold assetPrice
  rw [restCached_congr (h.convertedSamples_eq input.raw)]
  have hcob : cobCached H asset s = cobCached H asset s' := by
    funext books
    simp only [cobCached, h.usdtRate_eq]
  rw [hcob]

theorem assetSymbol_of_cobCached {books : List (OrderBookSnapshot F)} {c : CachedPrice F}
    (h : cobCached H asset s books = some c) : c.assetSymbol = asset.symbol := by
  obtain ⟨raw, -, hmap⟩ := Option.bind_eq_some_iff.mp h
  obtain ⟨priceFixed, -, rfl⟩ := Option.map_eq_some_iff.mp hmap
  rfl

/-- A step writes the entry of its asset and no other. -/
theorem assetStep_store (symbol : String) :
    (assetStep H asset s input).store symbol =
      if symbol = asset.symbol then (assetPrice H asset s input).or (s.store symbol)
      else s.store symbol := by
  unfold assetStep assetPrice
  cases hcob : input.books.bind (cobCached H asset s) with
  | some c =>
    obtain ⟨books, -, hc⟩ := Option.bind_eq_some_iff.mp hcob
    simp only [CycleState.insert, assetSymbol_of_cobCached hc, Option.some_or]
    exact Function.update_apply s.store asset.symbol (some c) symbol
  | none =>
    change (restStep H asset s input.raw).store symbol = _
    rw [restStep_store]
    cases hrest : restCached H asset s input.raw with
    | some c => exact Function.update_apply s.store asset.symbol (some c) symbol
    | none => simp

/-- Only USDT/USD sets the rate of the cycle. -/
theorem assetStep_usdtUsd (h : asset.symbol ≠ usdtUsdSymbol) :
    (assetStep H asset s input).usdtUsd = s.usdtUsd := by
  have hnoted : ∀ agg, (s.noteRate asset agg).usdtUsd = s.usdtUsd := by
    intro agg
    cases agg with
    | none => rfl
    | some m => simp [CycleState.noteRate, h]
  unfold assetStep
  split
  · rfl
  · unfold restStep
    split
    · exact hnoted _
    · exact hnoted _

theorem assetStep_sameRate (h : asset.symbol ≠ usdtUsdSymbol) :
    SameRate (assetStep H asset s input) s := by
  refine ⟨assetStep_usdtUsd h, ?_⟩
  rw [assetStep_store, if_neg (Ne.symm h)]

/-- USDT/USD sets it to the median of its samples, which take no rate. -/
theorem assetStep_rate (hsymbol : asset.symbol = usdtUsdSymbol) (hbooks : input.books = none)
    (hfresh : s.usdtUsd = none) :
    (assetStep H asset s input).usdtUsd = (restAggregate asset s input.raw).map Prod.fst := by
  have hnoted : (s.noteRate asset (restAggregate asset s input.raw)).usdtUsd =
      (restAggregate asset s input.raw).map Prod.fst := by
    cases restAggregate asset s input.raw with
    | none => exact hfresh
    | some m => simp [CycleState.noteRate, hsymbol]
  simp only [assetStep, hbooks, Option.bind_none, restStep]
  split
  · exact hnoted
  · exact hnoted

end Step

/-! ### One cycle -/

/-- The state after some assets in a row. -/
def steps (H : Digests F) (inputs : AssetConfig → AssetInput F) (s : CycleState F)
    (assets : List AssetConfig) : CycleState F :=
  assets.foldl (fun s asset => assetStep H asset s (inputs asset)) s

/-- The assets other than the rate are priced each for itself. -/
theorem steps_others (H : Digests F) (inputs : AssetConfig → AssetInput F)
    {rest : List AssetConfig} (others : ∀ a ∈ rest, a.symbol ≠ usdtUsdSymbol)
    (distinct : (rest.map AssetConfig.symbol).Nodup) (s : CycleState F) :
    SameRate (steps H inputs s rest) s ∧
      (∀ a ∈ rest, (steps H inputs s rest).store a.symbol =
        (assetPrice H a s (inputs a)).or (s.store a.symbol)) ∧
      ∀ symbol, symbol ∉ rest.map AssetConfig.symbol →
        (steps H inputs s rest).store symbol = s.store symbol := by
  induction rest generalizing s with
  | nil => exact ⟨⟨rfl, rfl⟩, by simp, fun _ _ => rfl⟩
  | cons a rest ih =>
    obtain ⟨hnew, hdistinct⟩ := List.nodup_cons.mp distinct
    have ha := others a List.mem_cons_self
    have hsame : SameRate (assetStep H a s (inputs a)) s := assetStep_sameRate ha
    obtain ⟨hrate, hprices, hframe⟩ := ih (fun b hb => others b (List.mem_cons_of_mem a hb))
      hdistinct (assetStep H a s (inputs a))
    refine ⟨⟨hrate.cycle.trans hsame.cycle, hrate.stored.trans hsame.stored⟩, ?_, ?_⟩
    · intro b hb
      obtain rfl | hb := List.mem_cons.mp hb
      · exact (hframe b.symbol hnew).trans ((assetStep_store b.symbol).trans (if_pos rfl))
      · have hne : b.symbol ≠ a.symbol := by
          intro heq
          exact hnew (heq ▸ List.mem_map_of_mem hb)
        have hprice := hprices b hb
        rw [hsame.assetPrice_eq, assetStep_store, if_neg hne] at hprice
        exact hprice
    · intro symbol hsymbol
      rw [List.map_cons, List.mem_cons, not_or] at hsymbol
      exact (hframe symbol hsymbol.2).trans ((assetStep_store symbol).trans (if_neg hsymbol.1))

/-- The rate of a cycle: the median of the samples of USDT/USD, if there is one. -/
def rateOf (assets : List AssetConfig) (inputs : AssetConfig → AssetInput F) : Option F :=
  (assets.find? fun a => a.symbol = usdtUsdSymbol).bind fun usdt =>
    (restAggregate usdt ⟨fun _ => none, none⟩ (inputs usdt).raw).map Prod.fst

/-- The state in which the assets other than the rate find the loop. -/
def rated (H : Digests F) (assets : List AssetConfig) (inputs : AssetConfig → AssetInput F)
    (store : PriceStore F) : CycleState F :=
  steps H inputs ⟨store, none⟩ (assets.filter fun a => a.symbol = usdtUsdSymbol)

theorem filter_usdt {assets : List AssetConfig}
    (distinct : (assets.map AssetConfig.symbol).Nodup) :
    (assets.filter fun a => a.symbol = usdtUsdSymbol) =
      (assets.find? fun a => a.symbol = usdtUsdSymbol).toList := by
  induction assets with
  | nil => rfl
  | cons a assets ih =>
    obtain ⟨hnew, hdistinct⟩ := List.nodup_cons.mp distinct
    by_cases h : a.symbol = usdtUsdSymbol
    · have hnone : (assets.filter fun a => decide (a.symbol = usdtUsdSymbol)) = [] := by
        rw [List.filter_eq_nil_iff]
        intro b hb hsymbol
        rw [decide_eq_true_eq] at hsymbol
        exact hnew ((h.trans hsymbol.symm) ▸ List.mem_map_of_mem hb)
      simp [h, hnone]
    · simp [h, ih hdistinct]

omit [F64 F] in
theorem books_usdt (inputs : CycleInputs F) {a : AssetConfig} (h : a.symbol = usdtUsdSymbol) :
    (inputs.of a).books = none := by
  cases hbooks : (inputs.of a).books with
  | none => rfl
  | some books =>
    have hcob := inputs.books (Option.isSome_of_mem hbooks)
    rw [isCobAsset, h] at hcob
    exact absurd hcob (by decide)

section Cycle
variable (H : Digests F) {assets : List AssetConfig} (inputs : CycleInputs F)
  (store : PriceStore F)

/-- Pricing USDT/USD sets the rate and writes its own entry only. -/
theorem rated_spec (sound : Sound assets) :
    (rated H assets inputs.of store).usdtUsd = rateOf assets inputs.of ∧
      (∀ a ∈ assets, a.symbol = usdtUsdSymbol → ∀ s,
        (rated H assets inputs.of store).store usdtUsdSymbol =
          (restCached H a s (inputs.of a).raw).or (store usdtUsdSymbol)) ∧
      ∀ symbol, symbol ≠ usdtUsdSymbol →
        (rated H assets inputs.of store).store symbol = store symbol := by
  unfold rated rateOf
  rw [filter_usdt sound.distinct]
  cases hfind : assets.find? fun a => a.symbol = usdtUsdSymbol with
  | none =>
    refine ⟨rfl, ?_, fun _ _ => rfl⟩
    intro a ha hsymbol
    exact absurd (decide_eq_true hsymbol) (List.find?_eq_none.mp hfind a ha)
  | some usdt =>
    have hmem := List.mem_of_find?_eq_some hfind
    have husdt : usdt.symbol = usdtUsdSymbol := by simpa using List.find?_some hfind
    have hbooks := books_usdt inputs husdt
    have husd := sound.usdOnly usdt hmem husdt
    have hsteps : steps H inputs.of ⟨store, none⟩ (some usdt).toList =
        assetStep H usdt ⟨store, none⟩ (inputs.of usdt) := rfl
    rw [hsteps]
    refine ⟨?_, ?_, ?_⟩
    · rw [assetStep_rate husdt hbooks rfl,
        restAggregate_congr (convertedSamples_of_usdOnly husd _ ⟨fun _ => none, none⟩ _)]
      rfl
    · intro a ha hsymbol s
      obtain rfl := eq_of_symbol sound.distinct ha hmem (hsymbol.trans husdt.symm)
      rw [assetStep_store, if_pos husdt.symm, assetPrice, hbooks, Option.bind_none, Option.none_or,
        restCached_congr (convertedSamples_of_usdOnly husd _ s _)]
    · intro symbol hsymbol
      rw [assetStep_store, if_neg (by rw [husdt]; exact hsymbol)]

theorem cycle_eq_steps :
    cycle H assets inputs.of store = (steps H inputs.of (rated H assets inputs.of store)
      (assets.filter fun a => a.symbol ≠ usdtUsdSymbol)).store := by
  unfold cycle orderedAssets rated steps
  rw [List.foldl_append]

/-- The assets other than the rate, with what is known of them. -/
theorem steps_rest (sound : Sound assets) (s : CycleState F) :
    SameRate (steps H inputs.of s (assets.filter fun a => a.symbol ≠ usdtUsdSymbol)) s ∧
      (∀ a ∈ assets, a.symbol ≠ usdtUsdSymbol →
        (steps H inputs.of s (assets.filter fun a => a.symbol ≠ usdtUsdSymbol)).store a.symbol =
          (assetPrice H a s (inputs.of a)).or (s.store a.symbol)) ∧
      ∀ symbol, (∀ a ∈ assets, a.symbol ≠ usdtUsdSymbol → symbol ≠ a.symbol) →
        (steps H inputs.of s (assets.filter fun a => a.symbol ≠ usdtUsdSymbol)).store symbol =
          s.store symbol := by
  have hothers : ∀ a ∈ assets.filter fun a => decide (a.symbol ≠ usdtUsdSymbol),
      a.symbol ≠ usdtUsdSymbol := by
    intro a ha
    simpa using (List.mem_filter.mp ha).2
  have hdistinct : ((assets.filter fun a => decide (a.symbol ≠ usdtUsdSymbol)).map
      AssetConfig.symbol).Nodup := sound.distinct.sublist (List.filter_sublist.map _)
  obtain ⟨hrate, hprices, hframe⟩ := steps_others H inputs.of hothers hdistinct s
  refine ⟨hrate, ?_, ?_⟩
  · intro a ha hsymbol
    exact hprices a (List.mem_filter.mpr ⟨ha, decide_eq_true hsymbol⟩)
  · intro symbol hsymbol
    apply hframe
    intro hmem
    obtain ⟨a, ha, rfl⟩ := List.mem_map.mp hmem
    exact hsymbol a (List.mem_filter.mp ha).1 (hothers a ha) rfl

/-- What a cycle does to the entry of an asset: a price that depends on the asset's own input and
on the rate of the cycle, or nothing. -/
theorem cycle_entry (sound : Sound assets) {a : AssetConfig} (ha : a ∈ assets) :
    ∃ price : Option (CachedPrice F),
      cycle H assets inputs.of store a.symbol = price.or (store a.symbol) ∧
      (a.symbol = usdtUsdSymbol → ∀ s, price = restCached H a s (inputs.of a).raw) ∧
      (a.symbol ≠ usdtUsdSymbol → ∀ s : CycleState F, s.usdtUsd = rateOf assets inputs.of →
        s.store usdtUsdSymbol = cycle H assets inputs.of store usdtUsdSymbol →
        price = assetPrice H a s (inputs.of a)) := by
  obtain ⟨hrate, hentry, hkept⟩ := rated_spec H inputs store sound
  obtain ⟨hsame, hprices, hframe⟩ := steps_rest H inputs sound (rated H assets inputs.of store)
  rw [cycle_eq_steps]
  by_cases hsymbol : a.symbol = usdtUsdSymbol
  · refine ⟨restCached H a ⟨fun _ => none, none⟩ (inputs.of a).raw, ?_, ?_, ?_⟩
    · rw [hframe a.symbol (fun b _ hb heq => hb (heq.symm.trans hsymbol)), hsymbol]
      exact hentry a ha hsymbol _
    · intro _ s
      exact restCached_congr
        (convertedSamples_of_usdOnly (sound.usdOnly a ha hsymbol) ⟨fun _ => none, none⟩ s _)
    · exact fun hne => absurd hsymbol hne
  · refine ⟨assetPrice H a (rated H assets inputs.of store) (inputs.of a), ?_, ?_, ?_⟩
    · rw [hprices a ha hsymbol, hkept a.symbol hsymbol]
    · exact fun heq => absurd heq hsymbol
    · intro _ s hcycle hstored
      refine SameRate.assetPrice_eq ⟨hrate.trans hcycle.symm, ?_⟩
      rw [hstored]
      exact hsame.stored.symm

theorem cycle_frame (sound : Sound assets) {symbol : String}
    (h : ∀ a ∈ assets, symbol ≠ a.symbol) :
    cycle H assets inputs.of store symbol = store symbol := by
  obtain ⟨-, -, hkept⟩ := rated_spec H inputs store sound
  obtain ⟨hsame, -, hframe⟩ := steps_rest H inputs sound (rated H assets inputs.of store)
  rw [cycle_eq_steps, hframe symbol fun a ha _ => h a ha]
  by_cases hsymbol : symbol = usdtUsdSymbol
  · have hnone : assets.filter (fun a => decide (a.symbol = usdtUsdSymbol)) = [] := by
      rw [List.filter_eq_nil_iff]
      intro a ha hfound
      rw [decide_eq_true_eq] at hfound
      exact h a ha (hsymbol.trans hfound.symm)
    rw [rated, hnone]
    rfl
  · exact hkept symbol hsymbol

end Cycle

/-! ### Runs -/

/-- The store after a number of cycles. -/
def storeAfterCycles (H : Digests F) (assets : List AssetConfig) (cycles : List (CycleInputs F)) :
    PriceStore F :=
  cycles.foldl (fun store inputs => cycle H assets inputs.of store) fun _ => none

theorem storeAfterCycles_concat (H : Digests F) (assets : List AssetConfig)
    (older : List (CycleInputs F)) (inputs : CycleInputs F) :
    storeAfterCycles H assets (older ++ [inputs]) =
      cycle H assets inputs.of (storeAfterCycles H assets older) := by
  simp [storeAfterCycles]

/-- A stored price is that of the last cycle in which its asset could be priced. That of USDT/USD
took no rate; that of any other asset took the rate of USDT/USD in the same cycle, or else the
entry of USDT/USD at the end of it. -/
theorem stored_prices_share_a_rate (H : Digests F) {debug : String → String}
    {parsed config : AssetsConfig} (loaded : loadAssets debug parsed = .ok config)
    (distinct : (config.policies.map AssetConfig.symbol).Nodup) (cycles : List (CycleInputs F))
    {a : AssetConfig} (ha : a ∈ config.policies) {c : CachedPrice F}
    (h : storeAfterCycles H config.policies cycles a.symbol = some c) :
    ∃ older inputs newer, cycles = older ++ inputs :: newer ∧
      (∀ between, between <+: newer →
        storeAfterCycles H config.policies (older ++ inputs :: between) a.symbol = some c) ∧
      (a.symbol = usdtUsdSymbol → ∀ s, restCached H a s (inputs.of a).raw = some c) ∧
      (a.symbol ≠ usdtUsdSymbol → ∀ s : CycleState F,
        s.usdtUsd = rateOf config.policies inputs.of →
        s.store usdtUsdSymbol =
          storeAfterCycles H config.policies (older ++ [inputs]) usdtUsdSymbol →
        assetPrice H a s (inputs.of a) = some c) := by
  have sound := sound_of_loadAssets loaded distinct
  induction cycles using List.reverseRecOn with
  | nil => cases h
  | append_singleton cycles last ih =>
    obtain ⟨price, hentry, husdt, hother⟩ := cycle_entry H last
      (storeAfterCycles H config.policies cycles) sound ha
    rw [storeAfterCycles_concat, hentry] at h
    cases hprice : price with
    | some found =>
      rw [hprice, Option.some_or] at h
      obtain rfl := Option.some.inj h
      refine ⟨cycles, last, [], rfl, ?_, ?_, ?_⟩
      · intro between hbetween
        rw [List.prefix_nil.mp hbetween, storeAfterCycles_concat, hentry, hprice]
        rfl
      · exact fun hsymbol s => (husdt hsymbol s).symm.trans hprice
      · intro hsymbol s hcycle hstored
        rw [storeAfterCycles_concat] at hstored
        exact (hother hsymbol s hcycle hstored).symm.trans hprice
    | none =>
      -- the last cycle found no price, so the entry is an older one
      rw [hprice, Option.none_or] at h
      obtain ⟨older, inputs, newer, rfl, hkept, hrest⟩ := ih h
      refine ⟨older, inputs, newer ++ [last], by simp, ?_, hrest⟩
      intro between hbetween
      obtain hsame | hshort := List.prefix_concat_iff.mp hbetween
      · rw [hsame, ← List.cons_append, ← List.append_assoc, storeAfterCycles_concat, hentry, hprice,
          Option.none_or]
        exact h
      · exact hkept between hshort

/-- The rate and one asset that is converted with it. -/
def twoAssets : AssetsConfig where
  exchangeHostnames := ["api.kraken.com", "api.mexc.com"]
  assets := [⟨"IGRA/USD", 1, 300, [("mexc", ⟨"IGRAUSDT", .usdt⟩)]⟩,
    ⟨"USDT/USD", 1, 50, [("kraken", ⟨"USDTUSD", .usd⟩)]⟩]

def fetchedOnce : CycleInputs ExtRat where
  of asset :=
    if asset.symbol = "USDT/USD" then ⟨none, [⟨.fin (1 / 2), .fin 1, "kraken", 1000⟩]⟩
    else ⟨none, [⟨.fin 3, .fin 1, "mexc", 1000⟩]⟩
  books := by
    intro asset h
    split at h
    · cases h
    · cases h

theorem loadAssets_twoAssets : loadAssets id twoAssets = .ok twoAssets := by rfl

theorem distinct_twoAssets : (twoAssets.policies.map AssetConfig.symbol).Nodup := by decide

theorem stored_prices_share_a_rate_once : ∃ a c,
    storeAfterCycles blankDigests twoAssets.policies [fetchedOnce] "IGRA/USD" = some c ∧
      assetPrice blankDigests a
        ⟨storeAfterCycles blankDigests twoAssets.policies [fetchedOnce], some (.fin (1 / 2))⟩
        (fetchedOnce.of a) = some c := by
  obtain ⟨c, hc⟩ := Option.isSome_iff_exists.mp (by decide +kernel :
    (storeAfterCycles blankDigests twoAssets.policies [fetchedOnce] "IGRA/USD").isSome = true)
  have hrate : rateOf twoAssets.policies fetchedOnce.of = some (.fin (1 / 2)) := by decide +kernel
  obtain ⟨older, inputs, newer, heq, -, -, hother⟩ := stored_prices_share_a_rate blankDigests
    loadAssets_twoAssets distinct_twoAssets [fetchedOnce] (List.mem_cons_self : _ ∈ _ :: _) hc
  cases older with
  | nil =>
    obtain ⟨rfl, rfl⟩ := List.cons.inj heq
    exact ⟨_, c, hc, hother (by decide) _ hrate.symm rfl⟩
  | cons first older =>
    have hlength := congrArg List.length heq
    simp at hlength

section Order
variable {H : Digests F} {assets assets' : List AssetConfig} {inputs : CycleInputs F}
  {store : PriceStore F}

theorem Sound.perm (sound : Sound assets) (hperm : assets.Perm assets') : Sound assets' :=
  ⟨(hperm.map _).nodup_iff.mp sound.distinct, fun a ha => sound.usdOnly a (hperm.mem_iff.mpr ha)⟩

theorem find_usdt (distinct : (assets.map AssetConfig.symbol).Nodup) {a : AssetConfig} :
    (assets.find? fun a => a.symbol = usdtUsdSymbol) = some a ↔
      a ∈ assets ∧ a.symbol = usdtUsdSymbol := by
  rw [← Option.mem_toList, ← filter_usdt distinct, List.mem_filter, decide_eq_true_eq]

theorem rateOf_perm (sound : Sound assets) (hperm : assets.Perm assets')
    (inputs : AssetConfig → AssetInput F) : rateOf assets inputs = rateOf assets' inputs := by
  have hfind : (assets.find? fun a => a.symbol = usdtUsdSymbol) =
      assets'.find? fun a => a.symbol = usdtUsdSymbol := by
    ext a
    rw [find_usdt sound.distinct, find_usdt (sound.perm hperm).distinct, hperm.mem_iff]
  rw [rateOf, rateOf, hfind]

/-- The entry of USDT/USD takes nothing from the other assets. -/
theorem cycle_usdt_perm (sound : Sound assets) (hperm : assets.Perm assets') :
    cycle H assets inputs.of store usdtUsdSymbol =
      cycle H assets' inputs.of store usdtUsdSymbol := by
  have sound' := sound.perm hperm
  by_cases hfound : ∃ a ∈ assets, a.symbol = usdtUsdSymbol
  · obtain ⟨a, ha, hsymbol⟩ := hfound
    obtain ⟨price, hentry, husdt, -⟩ := cycle_entry H inputs store sound ha
    obtain ⟨price', hentry', husdt', -⟩ :=
      cycle_entry H inputs store sound' (hperm.mem_iff.mp ha)
    rw [← hsymbol, hentry, hentry', husdt hsymbol ⟨store, none⟩, husdt' hsymbol ⟨store, none⟩]
  · have hne : ∀ a ∈ assets, usdtUsdSymbol ≠ a.symbol :=
      fun a ha heq => hfound ⟨a, ha, heq.symm⟩
    rw [cycle_frame H inputs store sound hne,
      cycle_frame H inputs store sound' fun a ha => hne a (hperm.mem_iff.mpr ha)]

theorem cycle_perm (sound : Sound assets) (hperm : assets.Perm assets') :
    cycle H assets inputs.of store = cycle H assets' inputs.of store := by
  have sound' := sound.perm hperm
  funext symbol
  by_cases hfound : ∃ a ∈ assets, a.symbol = symbol
  · obtain ⟨a, ha, rfl⟩ := hfound
    by_cases hsymbol : a.symbol = usdtUsdSymbol
    · rw [hsymbol]
      exact cycle_usdt_perm sound hperm
    · obtain ⟨price, hentry, -, hother⟩ := cycle_entry H inputs store sound ha
      obtain ⟨price', hentry', -, hother'⟩ :=
        cycle_entry H inputs store sound' (hperm.mem_iff.mp ha)
      have hprice := hother hsymbol
        ⟨cycle H assets inputs.of store, rateOf assets inputs.of⟩ rfl rfl
      have hprice' := hother' hsymbol ⟨cycle H assets inputs.of store, rateOf assets inputs.of⟩
        (rateOf_perm sound hperm inputs.of) (cycle_usdt_perm sound hperm)
      rw [hentry, hentry', hprice, hprice']
  · have hne : ∀ a ∈ assets, symbol ≠ a.symbol := fun a ha heq => hfound ⟨a, ha, heq.symm⟩
    rw [cycle_frame H inputs store sound hne,
      cycle_frame H inputs store sound' fun a ha => hne a (hperm.mem_iff.mpr ha)]

end Order

/-- The order in which an accepted configuration lists its assets never shows in the store. -/
theorem asset_order_unobservable (H : Digests F) {debug : String → String}
    {parsed config : AssetsConfig} (loaded : loadAssets debug parsed = .ok config)
    (distinct : (config.policies.map AssetConfig.symbol).Nodup) {assets : List AssetConfig}
    (hperm : config.policies.Perm assets) (cycles : List (CycleInputs F)) :
    storeAfterCycles H config.policies cycles = storeAfterCycles H assets cycles := by
  have sound := sound_of_loadAssets loaded distinct
  induction cycles using List.reverseRecOn with
  | nil => rfl
  | append_singleton cycles inputs ih =>
    rw [storeAfterCycles_concat, storeAfterCycles_concat, ih]
    exact cycle_perm sound hperm

theorem asset_order_unobservable_once :
    storeAfterCycles blankDigests twoAssets.policies [fetchedOnce] =
      storeAfterCycles blankDigests twoAssets.policies.reverse [fetchedOnce] :=
  asset_order_unobservable blankDigests loadAssets_twoAssets distinct_twoAssets
    (List.reverse_perm _).symm [fetchedOnce]

end Nuntius.OracleCycle
