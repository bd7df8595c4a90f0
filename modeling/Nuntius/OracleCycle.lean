import Nuntius.ConsolidatedBook

/-!
# The main oracle loop

For every asset the loop first tries the consolidated order book and otherwise
aggregates the fetched samples. What either path produces is stored under the asset's
symbol and is what the price server signs. Fetching, reading the book state, logging and
counters are outside; their results are the inputs of a step.
-/

namespace Nuntius.OracleCycle
open WireFormat Aggregator ConsolidatedBook

structure CachedPrice (F : Type) where
  assetSymbol : String
  assetId : Bytes 32
  priceFixed : ℕ
  priceHuman : F
  numSources : ℕ
  sourcesHash : Bytes 32
  signedTimestamp : ℕ

abbrev PriceStore (F : Type) := String → Option (CachedPrice F)

/-- The store, and the USDT/USD rate of the running cycle. -/
structure CycleState (F : Type) where
  store : PriceStore F
  usdtUsd : Option F

def oracleDecimals : ℕ := 8

def usdtUsdSymbol : String := "USDT/USD"

def usdtRateMaxAgeSecs : ℕ := 900

variable {F : Type} [F64 F]

def assetId (H : Digests F) (asset : AssetConfig) : Bytes 32 := H.keccak256 (utf8 asset.symbol)

/-- This cycle's rate, else a cached one that is young enough, else `1.0`. -/
def usdtRate (cycle : Option F) (store : PriceStore F) (refTs maxAgeSecs : ℕ) : F :=
  match cycle with
  | some r => r
  | none =>
    match store usdtUsdSymbol with
    | some c =>
      if refTs - c.signedTimestamp ≤ maxAgeSecs ∧ F64.isFinite c.priceHuman = true ∧
          F64.lt (F64.lit 0) c.priceHuman = true then c.priceHuman
      else F64.lit 1
    | none => F64.lit 1

/-! ### The consolidated path -/

/-- The upper middle of the positive timestamps, in seconds. -/
def cobSignedTs (books : List (OrderBookSnapshot F)) : Option ℕ :=
  let tsMs := (books.map OrderBookSnapshot.exchangeTimestampMs).filter (fun t => decide (0 < t))
  if tsMs.isEmpty then none
  else some (max ((OrderStatistics.sorted tsMs).getD (tsMs.length / 2) 0 |>.tdiv 1000) 0).toNat

/-- The samples that the commitment covers: each book's best bid. -/
def hashPoints (ts : ℕ) (books : List (OrderBookSnapshot F)) : List (PricePoint F) :=
  books.map fun b => {
    price := (b.bids.head?.map Level.price).getD (F64.lit 0)
    volume := F64.lit 0
    source := b.source
    serverTime := ts }

structure CobRaw (F : Type) where
  midUsdt : F
  signedTs : ℕ
  numSources : ℕ
  points : List (PricePoint F)

def cobRaw (minSources : ℕ) (books : List (OrderBookSnapshot F)) : Option (CobRaw F) :=
  (gatedConsolidatedOrderBook books minSources).bind fun fair =>
    (cobSignedTs books).map fun ts => ⟨fair.price, ts, fair.numSources, hashPoints ts books⟩

/-- The price that the consolidated path stores. `as u8` keeps the low byte. -/
def cobCached (H : Digests F) (asset : AssetConfig) (s : CycleState F)
    (books : List (OrderBookSnapshot F)) : Option (CachedPrice F) :=
  (cobRaw asset.minSources books).bind fun raw =>
    let mid := raw.midUsdt * usdtRate s.usdtUsd s.store raw.signedTs usdtRateMaxAgeSecs
    (toFixedPoint mid oracleDecimals).toOption.map fun priceFixed => {
      assetSymbol := asset.symbol
      assetId := assetId H asset
      priceFixed := priceFixed
      priceHuman := mid
      numSources := raw.numSources % 256
      sourcesHash := sourcesHash H raw.points
      signedTimestamp := raw.signedTs }

/-! ### The REST path -/

/-- The samples after sanitising and conversion. -/
def convertedSamples (asset : AssetConfig) (s : CycleState F) (raw : List (PricePoint F)) :
    List (PricePoint F) :=
  let prices := sanitize raw
  if asset.hasUsdtQuotedSource then
    convertQuotesToUsd prices asset
      (usdtRate s.usdtUsd s.store ((medianServerTime prices).getD 0) usdtRateMaxAgeSecs)
  else prices

/-- The samples that enter the time filter. -/
def pricedSamples (asset : AssetConfig) (s : CycleState F) (raw : List (PricePoint F)) :
    List (PricePoint F) :=
  rejectOutliersWithCap (convertedSamples asset s raw) (F64.lit 3) asset.deviationThresholdBps

/-- The samples that leave it. -/
def survivingSamples (asset : AssetConfig) (s : CycleState F) (raw : List (PricePoint F)) :
    List (PricePoint F) := (rejectTimeOutliers (pricedSamples asset s raw)).1

/-- The median of the survivors with the signed time, or `none` where the loop continues
with the next asset. -/
def restAggregate (asset : AssetConfig) (s : CycleState F) (raw : List (PricePoint F)) :
    Option (F × ℕ) :=
  if (convertedSamples asset s raw).length < asset.minSources then none
  else
    match (rejectTimeOutliers (pricedSamples asset s raw)).2 with
    | none => none
    | some signedTs =>
      if (survivingSamples asset s raw).length < asset.minSources then none
      else (weightedMedian (survivingSamples asset s raw)).map fun m => (m.1, signedTs)

/-- The price that the REST path stores. -/
def restCached (H : Digests F) (asset : AssetConfig) (s : CycleState F)
    (raw : List (PricePoint F)) : Option (CachedPrice F) :=
  (restAggregate asset s raw).bind fun agg =>
    (toFixedPoint agg.1 oracleDecimals).toOption.map fun priceFixed => {
      assetSymbol := asset.symbol
      assetId := assetId H asset
      priceFixed := priceFixed
      priceHuman := agg.1
      numSources := (survivingSamples asset s raw).length % 256
      sourcesHash := sourcesHash H (survivingSamples asset s raw)
      signedTimestamp := agg.2 }

/-! ### Steps and cycles -/

def CycleState.insert (s : CycleState F) (symbol : String) (c : CachedPrice F) : CycleState F :=
  { s with store := Function.update s.store symbol (some c) }

/-- The rate of the cycle is set before the fixed-point check can refuse the price. -/
def CycleState.noteRate (s : CycleState F) (asset : AssetConfig) (agg : Option (F × ℕ)) :
    CycleState F :=
  match agg with
  | some (median, _) =>
    if asset.symbol = usdtUsdSymbol then { s with usdtUsd := some median } else s
  | none => s

def restStep (H : Digests F) (asset : AssetConfig) (s : CycleState F)
    (raw : List (PricePoint F)) : CycleState F :=
  let noted := s.noteRate asset (restAggregate asset s raw)
  match restCached H asset s raw with
  | some c => noted.insert asset.symbol c
  | none => noted

/-- What the outside supplies for one asset: its books, if it has any, and the samples that
would be fetched. -/
structure AssetInput (F : Type) where
  books : Option (List (OrderBookSnapshot F))
  raw : List (PricePoint F)

def assetStep (H : Digests F) (asset : AssetConfig) (s : CycleState F) (input : AssetInput F) :
    CycleState F :=
  match input.books.bind (cobCached H asset s) with
  | some c => s.insert c.assetSymbol c
  | none => restStep H asset s input.raw

/-- Assets in the order of the loop, the conversion rate first. -/
def orderedAssets (assets : List AssetConfig) : List AssetConfig :=
  assets.filter (fun a => a.symbol = usdtUsdSymbol) ++
    assets.filter (fun a => a.symbol ≠ usdtUsdSymbol)

/-- One turn of the main loop. -/
def cycle (H : Digests F) (assets : List AssetConfig) (inputs : AssetConfig → AssetInput F)
    (store : PriceStore F) : PriceStore F :=
  ((orderedAssets assets).foldl (fun s asset => assetStep H asset s (inputs asset))
    ⟨store, none⟩).store

omit [F64 F] in
@[simp] theorem noteRate_store (s : CycleState F) (asset : AssetConfig) (agg : Option (F × ℕ)) :
    (s.noteRate asset agg).store = s.store := by
  cases agg with
  | none => rfl
  | some m =>
    simp only [CycleState.noteRate]
    split <;> rfl

/-- The REST path writes at most its own asset's entry. -/
theorem restStep_store (H : Digests F) (asset : AssetConfig) (s : CycleState F)
    (raw : List (PricePoint F)) :
    (restStep H asset s raw).store =
      match restCached H asset s raw with
      | some c => Function.update s.store asset.symbol (some c)
      | none => s.store := by
  unfold restStep
  cases restCached H asset s raw with
  | none => exact noteRate_store s asset _
  | some c => simp [CycleState.insert]

end Nuntius.OracleCycle
