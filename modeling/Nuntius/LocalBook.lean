import Mathlib.Data.Prod.Lex
import Nuntius.CobCommon
import Nuntius.SortedLadder

/-!
# The book a collector keeps

Each side is an ordered map from price to quantity; the order of the keys is that of
`OrderedFloat`, the checks on prices and quantities are those of `f64`. Snapshots replace the
book, deltas change single levels, and the best levels of each side are handed over.
-/

namespace Nuntius.Collectors
open CobCommon

variable {F : Type} [F64 F] [LinearOrder F]

/-- Infinities around the finite values, NaN above all. -/
def exactOrder : ExtRat → ℕ ×ₗ ℚ
  | .negInf => toLex (0, 0)
  | .fin q => toLex (1, q)
  | .posInf => toLex (2, 0)
  | .nan => toLex (3, 0)

/-- `OrderedFloat` on exact values. -/
instance : LinearOrder ExtRat := LinearOrder.lift' exactOrder (by
  intro a b h
  cases a <;> cases b <;> simp_all [exactOrder])

/-- The number of levels handed over per side. -/
def topN : ℕ := 25

structure LocalBook (F : Type) [LinearOrder F] where
  exchangeId : String
  symbol : String
  bids : Ladder F F
  asks : Ladder F F
  seq : Option UInt64
  latency : LatencyTracker

/-! ### Levels -/

/-- `q == 0.0`. -/
def isZero (q : F) : Bool := F64.le q (F64.lit 0) && F64.le (F64.lit 0) q

def snapshotLevel (side : Ladder F F) (level : F × F) : Ladder F F :=
  if F64.lt (F64.lit 0) level.1 && F64.lt (F64.lit 0) level.2 && F64.isFinite level.1 &&
    F64.isFinite level.2 then side.insert level.1 level.2 else side

def deltaLevel (side : Ladder F F) (level : F × F) : Ladder F F :=
  if !F64.isFinite level.1 || !F64.isFinite level.2 || F64.le level.1 (F64.lit 0) then side
  else if F64.lt level.2 (F64.lit 0) then side
  else if isZero level.2 then side.erase level.1
  else side.insert level.1 level.2

def snapshotSide (levels : List (F × F)) : Ladder F F := levels.foldl snapshotLevel .empty

def deltaSide (side : Ladder F F) (levels : List (F × F)) : Ladder F F :=
  levels.foldl deltaLevel side

/-! ### The book -/

namespace LocalBook

def new (exchangeId symbol : String) : LocalBook F :=
  ⟨exchangeId, symbol, .empty, .empty, none, LatencyTracker.new (I64.wrap 0)⟩

def isReady (book : LocalBook F) : Bool :=
  book.seq.isSome && (!book.bids.entries.isEmpty || !book.asks.entries.isEmpty)

def clear (book : LocalBook F) : LocalBook F :=
  { book with bids := .empty, asks := .empty, seq := none }

def applySnapshot (book : LocalBook F) (bids asks : List (F × F)) (seq : Option UInt64) :
    LocalBook F :=
  { book with bids := snapshotSide bids, asks := snapshotSide asks, seq := seq }

def applyDeltas (book : LocalBook F) (bids asks : List (F × F)) (newSeq : Option UInt64) :
    LocalBook F :=
  { book with
    bids := deltaSide book.bids bids
    asks := deltaSide book.asks asks
    seq := newSeq.or book.seq }

/-- The best bid reaches the best ask. -/
def isCrossed (book : LocalBook F) : Bool :=
  match book.bids.greatest?, book.asks.least? with
  | some (b, _), some (a, _) => F64.le a b
  | _, _ => false

end LocalBook

def toLevel (e : F × F) : PriceLevel F := ⟨e.1, e.2⟩

/-- The highest bids, best first. -/
def topBids (n : ℕ) (bids : Ladder F F) : List (PriceLevel F) :=
  (bids.entries.reverse.take n).map toLevel

/-- The lowest asks, best first. -/
def topAsks (n : ℕ) (asks : Ladder F F) : List (PriceLevel F) := (asks.entries.take n).map toLevel

/-- The message for the data bus, and the book with its latency tracker moved on; `none` when
the venue stated no usable time. -/
def LocalBook.toOrderbookData (book : LocalBook F) (exchangeTsMs receivedAtMs : I64) :
    Option (OrderBookData F × LocalBook F) :=
  (book.latency.process exchangeTsMs receivedAtMs).map fun r =>
    ({ exchangeId := book.exchangeId
       symbol := book.symbol
       exchangeTimestamp := r.1.1
       latency := r.1.2
       bids := topBids topN book.bids
       asks := topAsks topN book.asks },
     { book with latency := r.2 })

/-! ### What the operations keep -/

section Fields
variable (book : LocalBook F) (bids asks : List (F × F)) (seq : Option UInt64)

@[simp] theorem applyDeltas_bids :
    (book.applyDeltas bids asks seq).bids = deltaSide book.bids bids := rfl

@[simp] theorem applyDeltas_asks :
    (book.applyDeltas bids asks seq).asks = deltaSide book.asks asks := rfl

end Fields

omit [F64 F] in
/-- Handing a book over changes its latency tracker only. -/
theorem toOrderbookData_eq_some {book book' : LocalBook F} {ts received : I64} {d : OrderBookData F}
    (h : book.toOrderbookData ts received = some (d, book')) :
    d.symbol = book.symbol ∧ d.bids = topBids topN book.bids ∧
      d.asks = topAsks topN book.asks ∧ book'.bids = book.bids ∧ book'.asks = book.asks ∧
      book'.seq = book.seq ∧ book'.symbol = book.symbol := by
  obtain ⟨r, -, hr⟩ := Option.map_eq_some_iff.mp h
  obtain ⟨rfl, rfl⟩ := Prod.mk.inj hr
  exact ⟨rfl, rfl, rfl, rfl, rfl, rfl, rfl⟩

end Nuntius.Collectors
