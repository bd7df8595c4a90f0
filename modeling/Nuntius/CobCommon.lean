import Nuntius.SignedIntegers

/-!
# Types shared by the collectors and the consolidated book

Timestamps are `i64` and their arithmetic wraps. A book that a collector hands over carries the
time the venue stated, brought to milliseconds, and a latency estimate.
-/

namespace Nuntius.CobCommon

/-! ### The latency tracker -/

structure LatencyTracker where
  minDelta : I64
  baseRttMs : I64
  sampleCount : I64
  recalibrateEvery : I64

namespace LatencyTracker

def defaultRecalibrateEvery : I64 := I64.wrap 3000

def new (baseRttMs : I64) : LatencyTracker :=
  ⟨I64.max, baseRttMs, I64.wrap 0, defaultRecalibrateEvery⟩

/-- Seconds, milliseconds or microseconds to milliseconds. -/
def normalizeTimestampMs (ts : I64) : Option I64 :=
  if ts.val ≤ 0 then none
  else if ts.val < 1000000000000 then some (I64.wrap (ts.val * 1000))
  else if 1000000000000000 < ts.val then some (I64.wrap (ts.val.tdiv 1000))
  else some ts

/-- The latency, and the tracker after the call. One book is only ever updated by the session
that owns it, so the compare-and-swap loop succeeds at once. -/
def calculate (t : LatencyTracker) (exchangeTsMs receivedAtMs : I64) : I64 × LatencyTracker :=
  if exchangeTsMs.val ≤ 0 then (I64.wrap (-1), t)
  else
    let currentDelta := receivedAtMs.sub exchangeTsMs
    let recalibrate := decide (0 < t.sampleCount.val) &&
      decide (t.sampleCount.val.tmod t.recalibrateEvery.val = 0)
    let known := if recalibrate then I64.max else t.minDelta
    let min := if known ≤ currentDelta then known else currentDelta
    let t' := { t with minDelta := min, sampleCount := t.sampleCount.add (I64.wrap 1) }
    if min = I64.max then (t.baseRttMs, t')
    else
      let relative := currentDelta.sub min
      (if relative.val < 0 then t.baseRttMs else relative.add t.baseRttMs, t')

/-- The normalized timestamp with the latency; `none` when the venue states no usable time. -/
def process (t : LatencyTracker) (rawTs receivedAtMs : I64) :
    Option ((I64 × I64) × LatencyTracker) :=
  (normalizeTimestampMs rawTs).map fun ts =>
    ((ts, (t.calculate ts receivedAtMs).1), (t.calculate ts receivedAtMs).2)

end LatencyTracker

/-! ### Books on the data bus -/

structure PriceLevel (F : Type) where
  price : F
  quantity : F
  deriving DecidableEq

structure OrderBookData (F : Type) where
  exchangeId : String
  symbol : String
  exchangeTimestamp : I64
  latency : I64
  bids : List (PriceLevel F)
  asks : List (PriceLevel F)
  deriving DecidableEq

/-! ### The base asset of a symbol -/

/-- `str::strip_suffix`, when something is left. -/
def stripQuote (s : List Char) (quote : String) : Option (List Char) :=
  if quote.toList.isSuffixOf s && quote.length < s.length then
    some (s.take (s.length - quote.length))
  else none

/-- Everything before a separator, or before a quote currency. The separators are tried one
after the other, not by position. -/
def extractBaseAsset (toUppercase : String → String) (symbol : String) : String :=
  let s := (toUppercase symbol).toList
  match ['/', '_', '-', ':'].find? (s.contains ·) with
  | some sep => String.ofList (s.takeWhile (· != sep))
  | none =>
    match ["USDT", "USDC", "BUSD", "TUSD", "UST", "USD"].findSome? (stripQuote s) with
    | some base => String.ofList base
    | none => String.ofList s

end Nuntius.CobCommon
