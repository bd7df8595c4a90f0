import Nuntius.Aggregator
import Nuntius.SortedLadder

/-!
# The consolidated order book

Every venue's levels are projected onto the common price grid, crossing volume is
cleared as an arbitrageur would clear it, and the fair value is the middle of what
remains. The gated entry point first runs the venues' own middles through the
aggregator's filters.
-/

namespace Nuntius.ConsolidatedBook
open Aggregator

variable {F : Type} [F64 F]

structure Level (F : Type) where
  price : F
  quantity : F
  deriving DecidableEq

structure OrderBookSnapshot (F : Type) where
  source : String
  baseAsset : String
  bids : List (Level F)
  asks : List (Level F)
  tickSize : F
  exchangeTimestampMs : ℤ
  deriving DecidableEq

structure FairValue (F : Type) where
  price : F
  bestBid : F
  bestAsk : F
  spreadBps : F
  numSources : ℕ
  deriving DecidableEq

/-! ### The common grid -/

def gcdU64 (a b : ℕ) : ℕ :=
  if _h : b = 0 then a else gcdU64 b (a % b)
termination_by b
decreasing_by exact Nat.mod_lt _ (Nat.pos_of_ne_zero _h)

/-- Greatest common divisor in units of `1e-10`. -/
def gcdF64 (a b : F) : F :=
  let ia := F64.asUnsigned 64 (F64.round (a * F64.lit 1e10))
  let ib := F64.asUnsigned 64 (F64.round (b * F64.lit 1e10))
  F64.lit (gcdU64 ia ib) / F64.lit 1e10

/-- One turn of the grid loop; `g == 0.0` is tested from both sides. -/
def gridStep (g : F) (book : OrderBookSnapshot F) : F :=
  if F64.le book.tickSize (F64.lit 0) then g
  else if F64.le g (F64.lit 0) && F64.le (F64.lit 0) g then book.tickSize
  else gcdF64 g book.tickSize

def computeCommonGrid (books : List (OrderBookSnapshot F)) : F :=
  let g := books.foldl gridStep (F64.lit 0)
  if F64.le g (F64.lit 0) then F64.lit 0.0001 else g

/-! ### Projection -/

/-- The two global maps from grid key to volume. -/
structure Sides (F : Type) where
  bids : Ladder ℤ F
  asks : Ladder ℤ F

def gridKey (invGrid price : F) : ℤ := F64.asI64 (F64.round (price * invGrid))

def skipped (level : Level F) : Bool :=
  F64.le level.price (F64.lit 0) || F64.le level.quantity (F64.lit 0) || F64.isNan level.price

def addLevel (invGrid : F) (side : Ladder ℤ F) (level : Level F) : Ladder ℤ F :=
  if skipped level then side
  else side.upsert (gridKey invGrid level.price) (fun old => old.getD (F64.lit 0) + level.quantity)

def addBook (invGrid : F) (s : Sides F) (book : OrderBookSnapshot F) : Sides F :=
  ⟨book.bids.foldl (addLevel invGrid) s.bids, book.asks.foldl (addLevel invGrid) s.asks⟩

def project (invGrid : F) (books : List (OrderBookSnapshot F)) : Sides F :=
  books.foldl (addBook invGrid) ⟨.empty, .empty⟩

/-! ### Clearing -/

/-- Take `v` from the level at `k`, dropping the level when less than `1e-15` remains. -/
def takeVolume (side : Ladder ℤ F) (k : ℤ) (volume v : F) : Ladder ℤ F :=
  if F64.lt (F64.abs (volume - v)) (F64.lit 1e-15) then side.erase k
  else side.modify k (fun old => old - v)

/-- One turn of the crossing loop; `none` is the `break`. -/
def clearStep (s : Sides F) : Option (Sides F) :=
  match s.bids.greatest?, s.asks.least? with
  | some (kb, vb), some (ka, va) =>
    if ka ≤ kb then
      let v := F64.min vb va
      some ⟨takeVolume s.bids kb vb v, takeVolume s.asks ka va v⟩
    else none
  | _, _ => none

/-- The crossing loop. `none` means that the given number of turns did not reach the
`break`. -/
def clearLoop : ℕ → Sides F → Option (Sides F)
  | 0, s => if (clearStep s).isNone then some s else none
  | fuel + 1, s =>
    match clearStep s with
    | none => some s
    | some s' => clearLoop fuel s'

/-- Positive finite volumes make every turn drop a level, so a turn per level is
enough; a loop that runs longer never returns in the source either. -/
def clearCrossing (s : Sides F) : Option (Sides F) := clearLoop (s.bids.length + s.asks.length) s

/-! ### The fair value -/

def fairValue (grid : F) (numSources : ℕ) (s : Sides F) : Option (FairValue F) :=
  match s.bids.greatest?, s.asks.least? with
  | some (kb, _), some (ka, _) =>
    let bestBid := F64.lit kb * grid
    let bestAsk := F64.lit ka * grid
    let mid := (bestBid + bestAsk) / F64.lit 2
    let spreadBps := if F64.lt (F64.lit 0) mid then (bestAsk - bestBid) / mid * F64.lit 10000
      else F64.lit 0
    some ⟨mid, bestBid, bestAsk, spreadBps, numSources⟩
  | _, _ => none

def consolidatedOrderBook (books : List (OrderBookSnapshot F)) : Option (FairValue F) :=
  if books.isEmpty then none
  else
    let grid := computeCommonGrid books
    if F64.le grid (F64.lit 0) then none
    else (clearCrossing (project (F64.lit 1 / grid) books)).bind (fairValue grid books.length)

/-! ### The per-venue gate -/

def cobMidOutlierSigma : ℚ := 3

/-- A book's middle as a sample. Integer division drops the milliseconds. -/
def midPoint (book : OrderBookSnapshot F) : Option (PricePoint F) := do
  let bid ← book.bids.head?
  let ask ← book.asks.head?
  some {
    price := (bid.price + ask.price) / F64.lit 2
    volume := F64.lit 0
    source := book.source
    serverTime := (max (book.exchangeTimestampMs.tdiv 1000) 0).toNat }

/-- The samples that pass the sanity and deviation filters. -/
def cleanedMids (books : List (OrderBookSnapshot F)) : List (PricePoint F) :=
  rejectOutliers (sanitize (books.filterMap midPoint)) (F64.lit cobMidOutlierSigma)

/-- The books whose source survived. -/
def survivingBooks (books : List (OrderBookSnapshot F)) : List (OrderBookSnapshot F) :=
  books.filter (fun b => b.source ∈ (cleanedMids books).map PricePoint.source)

def gatedConsolidatedOrderBook (books : List (OrderBookSnapshot F)) (minSources : ℕ) :
    Option (FairValue F) :=
  if books.length < minSources then none
  else if (cleanedMids books).length < minSources then none
  else consolidatedOrderBook (survivingBooks books)

theorem fairValue_numSources {grid : F} {n : ℕ} {s : Sides F} {fv : FairValue F}
    (h : fairValue grid n s = some fv) : fv.numSources = n := by
  unfold fairValue at h
  split at h
  · rw [← Option.some.inj h]
  · simp at h

/-- The count of a gated fair value is the number of books that passed. -/
theorem numSources_of_gated {books : List (OrderBookSnapshot F)} {minSources : ℕ} {fv : FairValue F}
    (h : gatedConsolidatedOrderBook books minSources = some fv) :
    fv.numSources = (survivingBooks books).length := by
  unfold gatedConsolidatedOrderBook consolidatedOrderBook at h
  dsimp only at h
  split_ifs at h
  obtain ⟨s, -, hfair⟩ := Option.bind_eq_some_iff.mp h
  exact fairValue_numSources hfair

/-! ### The per-book sanity filter -/

def minBookDepth : ℕ := 3

def maxSpreadBpsFor (base : String) : ℚ :=
  if base = "BTC" ∨ base = "ETH" then 30
  else if base = "USDC" then 20
  else if base = "KAS" ∨ base = "TAO" then 100
  else 500

def isBookUsable (book : OrderBookSnapshot F) : Bool :=
  match book.bids, book.asks with
  | bid :: _, ask :: _ =>
    if book.bids.length < minBookDepth || book.asks.length < minBookDepth then false
    else if !(F64.lt (F64.lit 0) bid.price && F64.lt (F64.lit 0) ask.price) then false
    else if F64.le ask.price bid.price then false
    else
      let mid := (bid.price + ask.price) / F64.lit 2
      let spreadBps := (ask.price - bid.price) / mid * F64.lit 10000
      !F64.lt (F64.lit (maxSpreadBpsFor book.baseAsset)) spreadBps
  | _, _ => false

end Nuntius.ConsolidatedBook
