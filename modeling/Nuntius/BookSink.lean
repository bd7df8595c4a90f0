import Nuntius.VenueLog
import Nuntius.VenueFrames

/-!
# What reaches the pricing code

Whatever a venue sends, a local book stores finite positive levels only, and each level is what
the last accepted entry for its price says. The sink forwards a book if it is valid and its
turn has come, so that the pricing code sees ordered and uncrossed sides dated by the venue.
-/

namespace Nuntius.CobCommon

variable {F : Type} [F64 F]

/-- A level on at least one side, positive best prices, and a spread. -/
def OrderBookData.isValid (d : OrderBookData F) : Bool :=
  match d.bids.head?, d.asks.head? with
  | some bid, some ask =>
    F64.lt (F64.lit 0) bid.price && F64.lt (F64.lit 0) ask.price && F64.lt bid.price ask.price
  | none, none => false
  | some bid, none => F64.lt (F64.lit 0) bid.price
  | none, some ask => F64.lt (F64.lit 0) ask.price

end Nuntius.CobCommon

namespace Nuntius.Collectors
open CobCommon

variable {F : Type} [F64 F]

/-! ### The sink -/

def defaultEmitIntervalMs : ℕ := 50

/-- The time of the last emission per book, by `exchange:symbol`. -/
abbrev EmitTimes := String → Option ℕ

/-- Times are nanoseconds of the monotonic clock. -/
structure BookSink where
  tx : Bool
  throttle : Option EmitTimes
  interval : ℕ

namespace BookSink

/-- A sink with or without a channel; `env` is `COLLECTOR_EMIT_INTERVAL_MS`. -/
def new (tx : Bool) (env : Option String) : BookSink :=
  let intervalMs := ((env.bind readU64).map UInt64.toNat).getD defaultEmitIntervalMs
  ⟨tx, if 0 < intervalMs then some fun _ => none else none, intervalMs * 1000000⟩

def emitKey (d : OrderBookData F) : String := d.exchangeId ++ ":" ++ d.symbol

/-- Less than the interval has passed since the last emission. -/
def throttled (sink : BookSink) (times : EmitTimes) (key : String) (now : ℕ) : Bool :=
  match times key with
  | some last => decide (now - last < sink.interval)
  | none => false

/-- The sink after the call, and the book if it is sent. -/
def emit (sink : BookSink) (d : OrderBookData F) (now : ℕ) : BookSink × Option (OrderBookData F) :=
  if !d.isValid then (sink, none)
  else
    match sink.throttle with
    | some times =>
      if sink.throttled times (emitKey d) now then (sink, none)
      else
        ({ sink with throttle := some (Function.update times (emitKey d) (some now)) },
          if sink.tx then some d else none)
    | none => (sink, if sink.tx then some d else none)

/-- What is sent is the book as it was handed over, and it is valid. -/
theorem emit_eq_some {sink : BookSink} {d sent : OrderBookData F} {now : ℕ}
    (h : (sink.emit d now).2 = some sent) : sent = d ∧ d.isValid = true := by
  unfold emit at h
  cases hvalid : d.isValid with
  | false => simp [hvalid] at h
  | true =>
    refine ⟨?_, rfl⟩
    rw [hvalid] at h
    simp only [Bool.not_true, Bool.false_eq_true, if_false] at h
    split at h
    · split_ifs at h
      exact (Option.some.inj h).symm
    · split_ifs at h
      exact (Option.some.inj h).symm

end BookSink

/-! ### Operations on a book -/

section Operations
variable [LinearOrder F]

/-- A call on a local book. -/
inductive BookOp (F : Type) where
  | snapshot (bids asks : List (F × F)) (seq : Option UInt64)
  | deltas (bids asks : List (F × F)) (newSeq : Option UInt64)
  | clear
  | data (exchangeTsMs receivedAtMs : I64)

namespace LocalBook

def apply (book : LocalBook F) : BookOp F → LocalBook F
  | .snapshot bids asks seq => book.applySnapshot bids asks seq
  | .deltas bids asks newSeq => book.applyDeltas bids asks newSeq
  | .clear => book.clear
  | .data exchangeTsMs receivedAtMs =>
    match book.toOrderbookData exchangeTsMs receivedAtMs with
    | some (_, book') => book'
    | none => book

def applyAll (book : LocalBook F) (ops : List (BookOp F)) : LocalBook F := ops.foldl apply book

def levels (book : LocalBook F) : BookSide → Ladder F F
  | .bid => book.bids
  | .ask => book.asks

end LocalBook

end Operations

/-! ### Accepted entries -/

/-- The entry in exact numbers, if it is accepted: the price is positive and the quantity is
positive, or zero where zero means removal. -/
def readEntry (removal : Bool) : ExtRat × ExtRat → Option (ℚ × ℚ)
  | (.fin p, .fin q) => if 0 < p ∧ (0 < q ∨ removal = true ∧ q = 0) then some (p, q) else none
  | _ => none

def BookSide.pick {α : Type} (bids asks : α) : BookSide → α
  | .bid => bids
  | .ask => asks

/-- The entries accepted on one side since the last snapshot or clear. -/
def acceptedAfter (side : BookSide) (entries : List (ℚ × ℚ)) : BookOp ExtRat → List (ℚ × ℚ)
  | .snapshot bids asks _ => (side.pick bids asks).filterMap (readEntry false)
  | .deltas bids asks _ => entries ++ (side.pick bids asks).filterMap (readEntry true)
  | .clear => []
  | .data _ _ => entries

def acceptedEntries (side : BookSide) (ops : List (BookOp ExtRat)) : List (ℚ × ℚ) :=
  ops.foldl (acceptedAfter side) []

/-- What the last entry for the price says, nothing if that is zero. -/
def quantityAt (entries : List (ℚ × ℚ)) (p : ℚ) : Option ℚ :=
  ((entries.reverse.find? (fun e => e.1 = p)).map Prod.snd).filter (fun q => q ≠ 0)

def finite? : ExtRat → Option ℚ
  | .fin q => some q
  | _ => none

/-- The side holds at each price what the last entry for it says. -/
def Shows (levels : Ladder ExtRat ExtRat) (entries : List (ℚ × ℚ)) : Prop :=
  ∀ x, levels.get? x = ((finite? x).bind (quantityAt entries)).map ExtRat.fin

/-- A price and a quantity that the pricing code can divide by. -/
structure ProperLevel (p q : ExtRat) : Prop where
  price : ∃ r : ℚ, 0 < r ∧ p = .fin r
  quantity : ∃ r : ℚ, 0 < r ∧ q = .fin r

theorem quantityAt_concat (entries : List (ℚ × ℚ)) (e : ℚ × ℚ) (p : ℚ) :
    quantityAt (entries ++ [e]) p =
      if e.1 = p then (if e.2 = 0 then none else some e.2) else quantityAt entries p := by
  unfold quantityAt
  rw [List.reverse_append, List.reverse_singleton, List.singleton_append, List.find?_cons]
  by_cases hp : e.1 = p
  · by_cases hq : e.2 = 0
    · simp [hp, hq]
    · simp [hp, hq]
  · simp [hp]

theorem mem_of_quantityAt {entries : List (ℚ × ℚ)} {p q : ℚ} (h : quantityAt entries p = some q) :
    (p, q) ∈ entries ∧ q ≠ 0 := by
  obtain ⟨hlast, hne⟩ := Option.filter_eq_some_iff.mp h
  obtain ⟨e, hfind, rfl⟩ := Option.map_eq_some_iff.mp hlast
  have hp : e.1 = p := by simpa using List.find?_some hfind
  have hmem : e ∈ entries := List.mem_reverse.mp (List.mem_of_find?_eq_some hfind)
  rw [← hp]
  exact ⟨hmem, by simpa using hne⟩

/-- An accepted entry is made of finite numbers in range. -/
theorem readEntry_eq_some {removal : Bool} {row : ExtRat × ExtRat} {e : ℚ × ℚ}
    (h : readEntry removal row = some e) :
    row = (.fin e.1, .fin e.2) ∧ 0 < e.1 ∧ (0 < e.2 ∨ removal = true ∧ e.2 = 0) := by
  unfold readEntry at h
  split at h
  · split_ifs at h with hrange
    obtain rfl := Option.some.inj h
    exact ⟨rfl, hrange⟩
  · cases h

/-! ### What a level's entry does -/

def writeEntry (levels : Ladder ExtRat ExtRat) (e : ℚ × ℚ) : Ladder ExtRat ExtRat :=
  if e.2 = 0 then levels.erase (.fin e.1) else levels.insert (.fin e.1) (.fin e.2)

theorem eq_fin_of_isFinite {x : ExtRat} (h : F64.isFinite x = true) : ∃ q, x = .fin q := by
  cases x with
  | fin q => exact ⟨q, rfl⟩
  | nan => cases h
  | posInf => cases h
  | negInf => cases h

/-- A row of numbers is a row of rationals. -/
theorem row_of_finite {row : ExtRat × ExtRat}
    (h : (F64.isFinite row.1 && F64.isFinite row.2) = true) : ∃ p q, row = (.fin p, .fin q) := by
  obtain ⟨hp, hq⟩ := Bool.and_eq_true_iff.mp h
  obtain ⟨p, hp⟩ := eq_fin_of_isFinite hp
  obtain ⟨q, hq⟩ := eq_fin_of_isFinite hq
  exact ⟨p, q, Prod.ext hp hq⟩

theorem readEntry_of_not_finite {removal : Bool} {row : ExtRat × ExtRat}
    (h : (F64.isFinite row.1 && F64.isFinite row.2) = false) : readEntry removal row = none := by
  rw [Option.eq_none_iff_forall_ne_some]
  intro e he
  rw [(readEntry_eq_some he).1] at h
  cases h

theorem snapshotLevel_eq (levels : Ladder ExtRat ExtRat) (row : ExtRat × ExtRat) :
    snapshotLevel levels row = ((readEntry false row).map (writeEntry levels)).getD levels := by
  unfold snapshotLevel
  cases hfinite : F64.isFinite row.1 && F64.isFinite row.2 with
  | false =>
    rw [readEntry_of_not_finite hfinite, Bool.and_assoc, hfinite, Bool.and_false]
    rfl
  | true =>
    obtain ⟨p, q, rfl⟩ := row_of_finite hfinite
    by_cases h : 0 < p ∧ 0 < q
    · simp [readEntry, writeEntry, h.1, h.2, h.2.ne']
    · have hnone : readEntry false (.fin p, .fin q) = none := by simpa [readEntry] using h
      rw [hnone]
      simpa using fun hp hq => absurd ⟨hp, hq⟩ h

theorem deltaLevel_eq (levels : Ladder ExtRat ExtRat) (row : ExtRat × ExtRat) :
    deltaLevel levels row = ((readEntry true row).map (writeEntry levels)).getD levels := by
  unfold deltaLevel
  cases hfinite : F64.isFinite row.1 && F64.isFinite row.2 with
  | false =>
    rw [readEntry_of_not_finite hfinite, ← Bool.not_and, hfinite]
    rfl
  | true =>
    obtain ⟨p, q, rfl⟩ := row_of_finite hfinite
    rcases le_or_gt p 0 with hneg | hpos
    · simp [readEntry, hneg, not_lt.mpr hneg]
    · rcases lt_trichotomy q 0 with hneg | rfl | hmore
      · simp [readEntry, hneg, not_lt.mpr hneg.le, hneg.ne]
      · simp [readEntry, writeEntry, isZero, hpos, not_le.mpr hpos]
      · simp [readEntry, writeEntry, isZero, hpos, hmore, hmore.ne', not_lt.mpr hmore.le,
          not_le.mpr hmore, not_le.mpr hpos]

/-! ### What a book holds -/

section Shows
variable {levels : Ladder ExtRat ExtRat} {entries : List (ℚ × ℚ)}

theorem shows_empty : Shows .empty [] := by
  intro x
  cases x <;> rfl

theorem Shows.write (h : Shows levels entries) (e : ℚ × ℚ) :
    Shows (writeEntry levels e) (entries ++ [e]) := by
  intro x
  have hget : (writeEntry levels e).get? x =
      if x = .fin e.1 then (if e.2 = 0 then none else some (.fin e.2)) else levels.get? x := by
    unfold writeEntry
    split_ifs with hq hx hx
    · rw [Ladder.get?_erase, if_pos hx]
    · rw [Ladder.get?_erase, if_neg hx]
    · rw [Ladder.get?_insert, if_pos hx]
    · rw [Ladder.get?_insert, if_neg hx]
  rw [hget, h x]
  cases x with
  | fin p =>
    simp only [finite?, Option.bind_some, quantityAt_concat, ExtRat.fin_inj, eq_comm (a := p)]
    split_ifs <;> rfl
  | nan => simp [finite?]
  | posInf => simp [finite?]
  | negInf => simp [finite?]

/-- Working off rows writes the accepted ones in order. -/
theorem Shows.foldl {step : Ladder ExtRat ExtRat → ExtRat × ExtRat → Ladder ExtRat ExtRat}
    {removal : Bool}
    (hstep : ∀ levels row,
      step levels row = ((readEntry removal row).map (writeEntry levels)).getD levels)
    (h : Shows levels entries) (rows : List (ExtRat × ExtRat)) :
    Shows (rows.foldl step levels) (entries ++ rows.filterMap (readEntry removal)) := by
  induction rows generalizing levels entries with
  | nil => simpa using h
  | cons row rest ih =>
    rw [List.foldl_cons, hstep]
    cases hread : readEntry removal row with
    | none =>
      rw [List.filterMap_cons_none hread]
      exact ih h
    | some e =>
      rw [List.filterMap_cons_some hread, ← List.singleton_append, ← List.append_assoc]
      exact ih (h.write e)

theorem Shows.deltaSide (h : Shows levels entries) (rows : List (ExtRat × ExtRat)) :
    Shows (deltaSide levels rows) (entries ++ rows.filterMap (readEntry true)) :=
  h.foldl deltaLevel_eq rows

theorem shows_snapshotSide (rows : List (ExtRat × ExtRat)) :
    Shows (snapshotSide rows) (rows.filterMap (readEntry false)) :=
  shows_empty.foldl snapshotLevel_eq rows

end Shows

/-- A call on the book changes what is accepted and what is shown alike. -/
theorem Shows.apply {book : LocalBook ExtRat} {side : BookSide} {entries : List (ℚ × ℚ)}
    (h : Shows (book.levels side) entries) (op : BookOp ExtRat) :
    Shows ((book.apply op).levels side) (acceptedAfter side entries op) := by
  cases op with
  | snapshot bids asks seq =>
    cases side with
    | bid => exact shows_snapshotSide bids
    | ask => exact shows_snapshotSide asks
  | deltas bids asks newSeq =>
    cases side with
    | bid => exact h.deltaSide bids
    | ask => exact h.deltaSide asks
  | clear =>
    cases side with
    | bid => exact shows_empty
    | ask => exact shows_empty
  | data ts received =>
    unfold LocalBook.apply
    dsimp only
    split
    · rename_i d book' hdata
      obtain ⟨-, -, -, hbids, hasks, -⟩ := toOrderbookData_eq_some hdata
      cases side with
      | bid =>
        rw [LocalBook.levels, hbids]
        exact h
      | ask =>
        rw [LocalBook.levels, hasks]
        exact h
    · exact h

theorem shows_applyAll (exchangeId symbol : String) (ops : List (BookOp ExtRat)) (side : BookSide) :
    Shows (((LocalBook.new exchangeId symbol).applyAll ops).levels side)
      (acceptedEntries side ops) := by
  have hrun : ∀ (ops : List (BookOp ExtRat)) (book : LocalBook ExtRat) (entries : List (ℚ × ℚ)),
      Shows (book.levels side) entries →
        Shows ((book.applyAll ops).levels side) (ops.foldl (acceptedAfter side) entries) := by
    intro ops
    induction ops with
    | nil =>
      intro book entries h
      exact h
    | cons op rest ih =>
      intro book entries h
      exact ih _ _ (h.apply op)
  apply hrun
  cases side with
  | bid => exact shows_empty
  | ask => exact shows_empty

/-! ### Accepted entries are in range -/

def InRange (e : ℚ × ℚ) : Prop := 0 < e.1 ∧ 0 ≤ e.2

theorem inRange_of_readEntry {removal : Bool} {row : ExtRat × ExtRat} {e : ℚ × ℚ}
    (h : readEntry removal row = some e) : InRange e := by
  obtain ⟨-, hprice, hquantity⟩ := readEntry_eq_some h
  refine ⟨hprice, ?_⟩
  rcases hquantity with hpos | ⟨-, hzero⟩
  · exact hpos.le
  · exact hzero.ge

theorem inRange_filterMap {removal : Bool} {rows : List (ExtRat × ExtRat)} {e : ℚ × ℚ}
    (h : e ∈ rows.filterMap (readEntry removal)) : InRange e := by
  obtain ⟨row, -, hread⟩ := List.mem_filterMap.mp h
  exact inRange_of_readEntry hread

theorem inRange_acceptedAfter {side : BookSide} {entries : List (ℚ × ℚ)}
    (h : ∀ e ∈ entries, InRange e) (op : BookOp ExtRat) :
    ∀ e ∈ acceptedAfter side entries op, InRange e := by
  intro e he
  cases op with
  | snapshot bids asks seq => exact inRange_filterMap he
  | deltas bids asks newSeq =>
    rcases List.mem_append.mp he with he | he
    · exact h e he
    · exact inRange_filterMap he
  | clear => cases he
  | data ts received => exact h e he

theorem inRange_acceptedEntries (side : BookSide) (ops : List (BookOp ExtRat)) :
    ∀ e ∈ acceptedEntries side ops, InRange e := by
  unfold acceptedEntries
  apply List.foldlRecOn (motive := fun entries => ∀ e ∈ entries, InRange e)
  · intro e he
    cases he
  · intro entries h op _
    exact inRange_acceptedAfter h op

/-- What a side shows is proper if the entries are in range. -/
theorem Shows.proper {levels : Ladder ExtRat ExtRat} {entries : List (ℚ × ℚ)}
    (h : Shows levels entries) (hrange : ∀ e ∈ entries, InRange e) {x y : ExtRat}
    (hget : levels.get? x = some y) : ProperLevel x y := by
  rw [h x] at hget
  obtain ⟨q, hq, rfl⟩ := Option.map_eq_some_iff.mp hget
  obtain ⟨p, hp, hquantity⟩ := Option.bind_eq_some_iff.mp hq
  cases x with
  | fin r =>
    obtain rfl := Option.some.inj hp
    obtain ⟨hmem, hne⟩ := mem_of_quantityAt hquantity
    obtain ⟨hprice, hpos⟩ := hrange _ hmem
    exact ⟨⟨r, hprice, rfl⟩, ⟨q, lt_of_le_of_ne hpos (Ne.symm hne), rfl⟩⟩
  | nan => cases hp
  | posInf => cases hp
  | negInf => cases hp

/-! ### What is handed over -/

/-- The shown levels are the first ones of the side in the given order. -/
structure BestOf (before : ExtRat → ExtRat → Prop) (levels : Ladder ExtRat ExtRat)
    (shown : List (PriceLevel ExtRat)) : Prop where
  few : shown.length ≤ 25
  sorted : shown.Pairwise (fun a b => before a.price b.price)
  held : ∀ l ∈ shown, levels.get? l.price = some l.quantity
  best : ∀ p q, levels.get? p = some q →
    ⟨p, q⟩ ∈ shown ∨ (shown.length = 25 ∧ ∀ l ∈ shown, before l.price p)

theorem bestOf_take {before : ExtRat → ExtRat → Prop} {levels : Ladder ExtRat ExtRat}
    {es : List (ExtRat × ExtRat)} (hmem : ∀ e, e ∈ es ↔ e ∈ levels.entries)
    (hsorted : es.Pairwise (fun a b => before a.1 b.1)) :
    BestOf before levels ((es.take topN).map toLevel) where
  few := by
    rw [List.length_map]
    exact List.length_take_le topN es
  sorted := List.pairwise_map.mpr (hsorted.sublist (List.take_sublist _ _))
  held := by
    intro l hl
    obtain ⟨e, he, rfl⟩ := List.mem_map.mp hl
    exact Ladder.get?_eq_some.mpr ((hmem e).mp (List.mem_of_mem_take he))
  best := by
    intro p q hget
    have hentry : (p, q) ∈ es := (hmem (p, q)).mpr (Ladder.get?_eq_some.mp hget)
    rcases Ladder.mem_take_or_after hsorted topN hentry with htake | ⟨hlen, hafter⟩
    · exact .inl (List.mem_map.mpr ⟨(p, q), htake, rfl⟩)
    · refine .inr ⟨by rw [List.length_map, hlen]; rfl, ?_⟩
      intro l hl
      obtain ⟨e, he, rfl⟩ := List.mem_map.mp hl
      exact hafter e he

theorem f64_lt_of_lt {x y : ExtRat} (hx : ∃ r : ℚ, 0 < r ∧ x = .fin r)
    (hy : ∃ r : ℚ, 0 < r ∧ y = .fin r) (h : x < y) : F64.lt x y = true := by
  obtain ⟨a, -, rfl⟩ := hx
  obtain ⟨b, -, rfl⟩ := hy
  have hlex : toLex ((1 : ℕ), a) < toLex ((1 : ℕ), b) := h
  simpa [Prod.Lex.toLex_lt_toLex] using hlex

section Top
variable {levels : Ladder ExtRat ExtRat}

/-- On proper levels the order of the keys is that of the numbers. -/
theorem ascending_f64 (h : ∀ x y, levels.get? x = some y → ProperLevel x y) :
    levels.entries.Pairwise (fun a b => F64.lt a.1 b.1 = true) := by
  apply levels.ascending.imp_of_mem
  intro a b ha hb hlt
  have ha := h a.1 a.2 (Ladder.get?_eq_some.mpr ha)
  have hb := h b.1 b.2 (Ladder.get?_eq_some.mpr hb)
  exact f64_lt_of_lt ha.price hb.price hlt

theorem bestOf_topBids (h : ∀ x y, levels.get? x = some y → ProperLevel x y) :
    BestOf (fun a b => F64.lt b a = true) levels (topBids topN levels) := by
  apply bestOf_take
  · intro e
    exact List.mem_reverse
  · exact List.pairwise_reverse.mpr (ascending_f64 h)

theorem bestOf_topAsks (h : ∀ x y, levels.get? x = some y → ProperLevel x y) :
    BestOf (fun a b => F64.lt a b = true) levels (topAsks topN levels) :=
  bestOf_take (fun _ => Iff.rfl) (ascending_f64 h)

end Top

/-- What the pricing code may rely on: the best levels in order, a spread, and a date that
depends on the venue's timestamp alone. -/
structure WellFormed (book : LocalBook ExtRat) (exchangeTsMs : I64) (d : OrderBookData ExtRat) :
    Prop where
  bids : BestOf (fun a b => F64.lt b a = true) book.bids d.bids
  asks : BestOf (fun a b => F64.lt a b = true) book.asks d.asks
  spread : ∀ bid ask, d.bids.head? = some bid → d.asks.head? = some ask →
    F64.lt bid.price ask.price = true
  timestamp : LatencyTracker.normalizeTimestampMs exchangeTsMs = some d.exchangeTimestamp
  timestamp_pos : 0 < d.exchangeTimestamp.val

theorem normalizeTimestampMs_pos {ts ms : I64}
    (h : LatencyTracker.normalizeTimestampMs ts = some ms) : 0 < ms.val := by
  have hmax := ts.upper
  unfold LatencyTracker.normalizeTimestampMs at h
  split_ifs at h with hneg hseconds hmicros
  · obtain rfl := Option.some.inj h
    rw [I64.wrap_val (by unfold i64Min; omega) (by unfold i64Max; omega)]
    omega
  · obtain rfl := Option.some.inj h
    rw [Int.tdiv_eq_ediv_of_nonneg (by omega),
      I64.wrap_val (by unfold i64Min; omega) (by omega)]
    omega
  · obtain rfl := Option.some.inj h
    omega

/-- A valid book has a spread. -/
theorem spread_of_isValid {d : OrderBookData ExtRat} (h : d.isValid = true)
    {bid ask : PriceLevel ExtRat} (hbid : d.bids.head? = some bid)
    (hask : d.asks.head? = some ask) : F64.lt bid.price ask.price = true := by
  unfold OrderBookData.isValid at h
  rw [hbid, hask] at h
  exact (Bool.and_eq_true_iff.mp h).2

omit [F64 F] in
/-- The date of a book is the venue's timestamp in milliseconds, whatever the local clock says. -/
theorem toOrderbookData_timestamp [LinearOrder F] {book book' : LocalBook F} {ts received : I64}
    {d : OrderBookData F} (h : book.toOrderbookData ts received = some (d, book')) :
    LatencyTracker.normalizeTimestampMs ts = some d.exchangeTimestamp := by
  obtain ⟨r, hprocess, hr⟩ := Option.map_eq_some_iff.mp h
  obtain ⟨ms, hms, rfl⟩ := Option.map_eq_some_iff.mp hprocess
  obtain ⟨rfl, -⟩ := Prod.mk.inj hr
  exact hms

/-- Whatever calls were made on a book, its sides show the entries accepted since the last
snapshot or clear, all stored levels are proper, and a forwarded book is well formed. -/
theorem forwarded_well_formed (exchangeId symbol : String) (ops : List (BookOp ExtRat)) :
    (∀ side, Shows (((LocalBook.new exchangeId symbol).applyAll ops).levels side)
        (acceptedEntries side ops)) ∧
      (∀ side x y, (((LocalBook.new exchangeId symbol).applyAll ops).levels side).get? x = some y →
        ProperLevel x y) ∧
      ∀ ts received d book' sink now sent,
        ((LocalBook.new exchangeId symbol).applyAll ops).toOrderbookData ts received =
          some (d, book') →
        (BookSink.emit sink d now).2 = some sent →
          sent = d ∧ WellFormed ((LocalBook.new exchangeId symbol).applyAll ops) ts sent := by
  have hshows := shows_applyAll exchangeId symbol ops
  have hproper : ∀ side x y,
      (((LocalBook.new exchangeId symbol).applyAll ops).levels side).get? x = some y →
        ProperLevel x y :=
    fun side x y => (hshows side).proper (inRange_acceptedEntries side ops)
  refine ⟨hshows, hproper, ?_⟩
  intro ts received d book' sink now sent hdata hsent
  obtain ⟨rfl, hvalid⟩ := BookSink.emit_eq_some hsent
  obtain ⟨-, hbids, hasks, -⟩ := toOrderbookData_eq_some hdata
  have htime := toOrderbookData_timestamp hdata
  refine ⟨rfl, ?_, ?_, ?_, htime, normalizeTimestampMs_pos htime⟩
  · rw [hbids]
    exact bestOf_topBids (hproper .bid)
  · rw [hasks]
    exact bestOf_topAsks (hproper .ask)
  · intro bid ask
    exact spread_of_isValid hvalid

section Example

/-- A snapshot dated in seconds, a removed level, and rows that are not accepted. -/
def demoOps : List (BookOp ExtRat) :=
  [.snapshot [(.fin 100, .fin 1), (.fin 99, .fin 2)] [(.fin 101, .fin 3), (.nan, .fin 1)] (some 1),
    .deltas [(.fin 100, .fin 0), (.fin 98, .posInf)] [] (some 2)]

def demoBook : LocalBook ExtRat := (LocalBook.new "test" "BTC/USDT").applyAll demoOps

def demoTs : I64 := I64.wrap 1700000000

def demoReceived : I64 := I64.wrap 1700000000500

theorem forwarded_well_formed_demo :
    ∃ d book' sent, demoBook.toOrderbookData demoTs demoReceived = some (d, book') ∧
      ((BookSink.new true none).emit d 0).2 = some sent ∧ WellFormed demoBook demoTs sent := by
  have hsends : ((demoBook.toOrderbookData demoTs demoReceived).map
      fun r => ((BookSink.new true none).emit r.1 0).2.isSome) = some true := by decide +kernel
  obtain ⟨⟨d, book'⟩, hdata, hsome⟩ := Option.map_eq_some_iff.mp hsends
  obtain ⟨sent, hsent⟩ := Option.isSome_iff_exists.mp hsome
  obtain ⟨-, -, hforward⟩ := forwarded_well_formed "test" "BTC/USDT" demoOps
  exact ⟨d, book', sent, hdata, hsent, (hforward _ _ _ _ _ _ _ hdata hsent).2⟩

end Example

end Nuntius.Collectors
