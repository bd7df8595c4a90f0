import Nuntius.JsonTrees
import Nuntius.LocalBook
import Nuntius.WireFormat

/-!
# Reading venue messages

What all collectors share: numbers that venues send as JSON numbers or as strings, rows of
price and quantity, and the map of books of a session. Parsing of JSON and of float literals
and the case mapping of strings are parameters.
-/

namespace Nuntius.Collectors
open JsonTrees WireFormat

structure TextReader (F : Type) where
  fromStr : String → Option (JsonTree F)
  parseFloat : String → Option F
  toUppercase : String → String
  toLowercase : String → String

variable {F : Type} [F64 F]

/-! ### Numbers -/

def parseF64 (r : TextReader F) (v : JsonTree F) : Option F :=
  v.asF64.or (v.asStr.bind r.parseFloat)

/-- `str::parse::<u64>`. -/
def readU64 (s : String) : Option UInt64 := (fromStrRadix 10 s.toList).map UInt64.ofNat

/-- `str::parse::<i64>`. -/
def readI64 (s : String) : Option I64 :=
  match s.toList with
  | '-' :: digits =>
    if digits.isEmpty then none
    else ((readDigits 10 0 digits).filter (· ≤ 2 ^ 63)).map (fun n => I64.wrap (-n))
  | cs =>
    if (stripPlus cs).isEmpty then none
    else ((readDigits 10 0 (stripPlus cs)).filter (· < 2 ^ 63)).map (fun n => I64.wrap n)

def parseU64 (v : JsonTree F) : Option UInt64 := v.asU64.or (v.asStr.bind readU64)

def parseI64 (v : JsonTree F) : Option I64 := v.asI64.or (v.asStr.bind readI64)

/-- The time a venue states, 0 if it states none. -/
def parseExchTs (v : Option (JsonTree F)) : I64 :=
  ((v.bind parseU64).map I64.ofU64).getD (I64.wrap 0)

/-! ### Levels -/

def parseRow (r : TextReader F) (row : JsonTree F) : Option (F × F) := do
  let cells ← row.asArray
  let p ← parseF64 r (← cells[0]?)
  let q ← parseF64 r (← cells[1]?)
  some (p, q)

/-- Rows that do not parse are skipped, and anything but a list has no rows. -/
def parseLevels (r : TextReader F) (v : Option (JsonTree F)) : List (F × F) :=
  match v.bind JsonTree.asArray with
  | none => []
  | some rows => rows.filterMap (parseRow r)

/-! ### The books of a session -/

/-- What a session keeps for each instrument. -/
abbrev Instruments (α : Type) := String → Option α

/-- Replace the entry of one instrument. -/
def Instruments.set {α : Type} (entries : Instruments α) (symbol : String) (a : α) :
    Instruments α :=
  Function.update entries symbol (some a)

section Instruments
variable {α : Type} (entries : Instruments α) {symbol other : String}

@[simp] theorem Instruments.set_same (a : α) : entries.set symbol a symbol = some a :=
  Function.update_self ..

theorem Instruments.set_of_ne (h : other ≠ symbol) (a : α) :
    entries.set symbol a other = entries other :=
  Function.update_of_ne h ..

variable {entries}

theorem Instruments.eq_of_set_same {a a' : α} (h : entries.set symbol a symbol = some a') :
    a = a' := by
  rw [Instruments.set_same] at h
  exact Option.some.inj h

end Instruments

abbrev Books (F : Type) [LinearOrder F] := Instruments (LocalBook F)

/-! ### Handing a book over -/

section Deliver
variable [LinearOrder F]

/-- Hand a book over unless it is crossed or undated. -/
def deliver (book : LocalBook F) (exchTs receivedAt : I64) :
    LocalBook F × Option (CobCommon.OrderBookData F) :=
  if book.isCrossed then (book, none)
  else
    match book.toOrderbookData exchTs receivedAt with
    | some (d, book') => (book', some d)
    | none => (book, none)

/-- A book that differs from another one in its latency tracker only. -/
structure SameBook (book book' : LocalBook F) : Prop where
  symbol : book'.symbol = book.symbol
  bids : book'.bids = book.bids
  asks : book'.asks = book.asks
  seq : book'.seq = book.seq

omit [F64 F] in
theorem SameBook.refl (book : LocalBook F) : SameBook book book := ⟨rfl, rfl, rfl, rfl⟩

omit [F64 F] in
theorem SameBook.trans {a b c : LocalBook F} (h : SameBook a b) (h' : SameBook b c) :
    SameBook a c :=
  ⟨h'.symbol.trans h.symbol, h'.bids.trans h.bids, h'.asks.trans h.asks, h'.seq.trans h.seq⟩

/-- The message is the top of the book. -/
structure TopOf (book : LocalBook F) (d : CobCommon.OrderBookData F) : Prop where
  symbol : d.symbol = book.symbol
  bids : d.bids = topBids topN book.bids
  asks : d.asks = topAsks topN book.asks

/-- Handing over moves the latency tracker on and emits the top of the book, if anything. -/
theorem deliver_spec (book : LocalBook F) (exchTs receivedAt : I64) :
    SameBook book (deliver book exchTs receivedAt).1 ∧
      ∀ d, (deliver book exchTs receivedAt).2 = some d → TopOf book d := by
  unfold deliver
  split
  · refine ⟨SameBook.refl book, ?_⟩
    intro d hd
    cases hd
  · split
    · rename_i d book' hdata
      obtain ⟨hsymbol, hbids, hasks, hb, ha, hseq, hsym⟩ := toOrderbookData_eq_some hdata
      refine ⟨⟨hsym, hb, ha, hseq⟩, ?_⟩
      intro d' hd'
      obtain rfl := Option.some.inj hd'
      exact ⟨hsymbol, hbids, hasks⟩
    · refine ⟨SameBook.refl book, ?_⟩
      intro d hd
      cases hd

end Deliver

end Nuntius.Collectors
