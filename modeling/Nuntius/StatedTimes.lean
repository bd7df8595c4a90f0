import Nuntius.PushedVenues

/-!
# The times of pushed books

A book is handed over with the time its venue states, brought to milliseconds, and not at all if
there is none. Coinstore's messages and those of Bitfinex, which pushes single levels over
channels it assigns at subscription, are read without times.
-/

namespace Nuntius.PushedSessions
open Collectors CobCommon JsonTrees LabelledRuns

variable {F : Type} [F64 F]

/-! ### Bitfinex -/

namespace Bitfinex
variable (r : TextReader F)

/-- `tBTCUSD` is the symbol `BTCUSD`. -/
def stripBitfinexTPrefix (symbol : String) : String :=
  match symbol.toList with
  | 't' :: c :: rest => if 'A' ≤ c ∧ c ≤ 'Z' then String.ofList (c :: rest) else symbol
  | _ => symbol

/-- Price, number of orders and amount, which is negative on the ask side. -/
structure Entry (F : Type) where
  price : F
  count : ℤ
  amount : F

def readTriple (cells : List (JsonTree F)) : Option (Entry F) := do
  let price ← parseF64 r (← cells[0]?)
  let count ← cells[1]?
  let amount ← parseF64 r (← cells[2]?)
  some ⟨price, (count.asI64.map I64.val).getD 0, amount⟩

def Entry.bid (e : Entry F) : Option (F × F) :=
  if F64.lt (F64.lit 0) e.amount then some (e.price, e.amount) else none

def Entry.ask (e : Entry F) : Option (F × F) :=
  if F64.lt (F64.lit 0) e.amount then none
  else if F64.lt e.amount (F64.lit 0) then some (e.price, F64.abs e.amount)
  else none

def splitLevels (entries : List (JsonTree F)) : List (F × F) × List (F × F) :=
  let kept := (entries.filterMap fun e => e.asArray.bind (readTriple r)).filter (0 < ·.count)
  (kept.filterMap Entry.bid, kept.filterMap Entry.ask)

/-- Changed bids, changed asks, and prices that go. -/
def singleDelta (triple : List (JsonTree F)) : List (F × F) × List (F × F) × List F :=
  match readTriple r triple with
  | none => ([], [], [])
  | some e => if e.count = 0 then ([], [], [e.price]) else (e.bid.toList, e.ask.toList, [])

variable [LinearOrder F]

structure State (F : Type) [LinearOrder F] where
  channels : I64 → Option String
  books : Books F
  tick : UInt64

def start (pairs : List String) : State F where
  channels _ := none
  books symbol :=
    if symbol ∈ pairs then some (LocalBook.new "bitfinex" (stripBitfinexTPrefix symbol)) else none
  tick := 0

/-- The answer to a subscription assigns the channel. -/
def onEvent (s : State F) (v : JsonTree F) : State F :=
  match (v.get "event").bind JsonTree.asStr, (v.get "chanId").bind JsonTree.asI64,
    (v.get "symbol").bind JsonTree.asStr with
  | some "subscribed", some chan, some symbol =>
    { s with channels := Function.update s.channels chan (some symbol) }
  | _, _, _ => s

/-- A price without orders goes from both sides. -/
def applyDelta (tick : UInt64) (book : LocalBook F) (triple : List (JsonTree F)) : LocalBook F :=
  let (bids, asks, removed) := singleDelta r triple
  let zeros := removed.map fun p => (p, F64.lit 0)
  let cleared := if removed.isEmpty then book else book.applyDeltas zeros zeros (some tick)
  cleared.applyDeltas bids asks (some tick)

/-- A list of entries is a snapshot, a single entry a change. -/
def applyPayload (tick : UInt64) (book : LocalBook F) (payload : List (JsonTree F)) :
    LocalBook F × UInt64 :=
  if (payload.head?.bind JsonTree.asArray).isSome then
    (book.applySnapshot (splitLevels r payload).1 (splitLevels r payload).2 (some (tick + 1)),
      tick + 1)
  else if payload.length = 3 then (applyDelta r (tick + 1) book payload, tick + 1)
  else (book, tick)

def onPayload (s : State F) (symbol : String) (book : LocalBook F)
    (payload : List (JsonTree F)) (receivedAt : I64) : State F × Option (OrderBookData F) :=
  if payload.isEmpty then (s, none)
  else
    let (book', tick) := applyPayload r s.tick book payload
    let handed := if book'.isReady then deliver book' (I64.wrap 0) receivedAt else (book', none)
    ({ s with books := s.books.set symbol handed.1, tick := tick }, handed.2)

def onData (s : State F) (cells : List (JsonTree F)) (receivedAt : I64) :
    State F × Option (OrderBookData F) :=
  match ((cells[0]?).bind JsonTree.asI64).bind s.channels, (cells[1]?).bind JsonTree.asArray with
  | some symbol, some payload =>
    match s.books symbol with
    | none => (s, none)
    | some book => onPayload r s symbol book payload receivedAt
  | _, _ => (s, none)

def onText (s : State F) (text : String) (receivedAt : I64) :
    State F × Option (OrderBookData F) :=
  match r.fromStr text with
  | some (.obj fields) => (onEvent s (.obj fields), none)
  | some (.arr cells) => onData r s cells receivedAt
  | _ => (s, none)

/-- One turn of the loop; the session ends with the connection. -/
def Step (s : State F) (l : Input String × Option (OrderBookData F)) (s' : State F) : Prop :=
  match l.1 with
  | .message text receivedAt => onText r s text receivedAt = (s', l.2)
  | .quiet => s' = s ∧ l.2 = none
  | .lost _ => False

end Bitfinex

/-! ### The times of books -/

section Times
variable [LinearOrder F] {ι : Type}

/-- A usable time stays positive in milliseconds. -/
theorem normalizeTimestampMs_pos {raw ts : I64}
    (h : LatencyTracker.normalizeTimestampMs raw = some ts) : 0 < ts.val := by
  have hupper := raw.upper
  unfold LatencyTracker.normalizeTimestampMs at h
  unfold i64Max at hupper
  split_ifs at h with hpos hseconds hmicros
  · obtain rfl := Option.some.inj h
    rw [I64.wrap_val (by unfold i64Min; omega) (by unfold i64Max; omega)]
    omega
  · obtain rfl := Option.some.inj h
    have hdiv : raw.val.tdiv 1000 = raw.val / 1000 := Int.tdiv_eq_ediv_of_nonneg (by omega)
    rw [I64.wrap_val (by unfold i64Min; omega) (by unfold i64Max; omega), hdiv]
    omega
  · obtain rfl := Option.some.inj h
    omega

/-- A book is handed over with the time the venue states. -/
theorem deliver_time {book : LocalBook F} {exchTs receivedAt : I64} {d : OrderBookData F}
    (h : (deliver book exchTs receivedAt).2 = some d) :
    LatencyTracker.normalizeTimestampMs exchTs = some d.exchangeTimestamp := by
  unfold deliver at h
  split at h
  · cases h
  · split at h
    · rename_i d' book' hdata
      obtain rfl := Option.some.inj h
      obtain ⟨result, hprocess, hd⟩ := Option.map_eq_some_iff.mp hdata
      obtain ⟨ts, hts, rfl⟩ := Option.map_eq_some_iff.mp hprocess
      obtain ⟨rfl, -⟩ := Prod.mk.inj hd
      exact hts
    · cases h

/-- Without a time nothing is handed over. -/
theorem deliver_untimed (book : LocalBook F) (receivedAt : I64) :
    (deliver book (I64.wrap 0) receivedAt).2 = none := by
  rw [Option.eq_none_iff_forall_ne_some]
  intro d hd
  cases deliver_time hd

theorem onPush_time {V : Venue ι F} {s s' : Session F} {p : Push F} {receivedAt : I64}
    {out : Option (OrderBookData F)} (h : onPush V receivedAt s p = .ok (s', out)) :
    ∀ d ∈ out.toList, LatencyTracker.normalizeTimestampMs p.exchTs = some d.exchangeTimestamp := by
  rcases onPush_cases h with ⟨-, rfl, -⟩ | ⟨book, book', -, -, heq⟩
  · simp
  · obtain ⟨rfl, rfl⟩ := Prod.mk.inj heq
    intro d hd
    have hhanded : (handOver V book' p receivedAt).2 = some d := Option.mem_toList.mp hd
    unfold handOver at hhanded
    split_ifs at hhanded
    exact deliver_time hhanded

theorem onPushes_times (V : Venue ι F) (receivedAt : I64) (s : Session F) (list : List (Push F)) :
    ∀ d ∈ (onPushes V receivedAt s list).1, ∃ p ∈ list,
      LatencyTracker.normalizeTimestampMs p.exchTs = some d.exchangeTimestamp := by
  induction list generalizing s with
  | nil => simp [onPushes]
  | cons p rest ih =>
    rw [onPushes]
    cases hpush : onPush V receivedAt s p with
    | error reason => simp
    | ok result =>
      intro d hd
      rcases List.mem_append.mp hd with hd | hd
      · exact ⟨p, List.mem_cons_self, onPush_time hpush d hd⟩
      · obtain ⟨q, hq, htime⟩ := ih result.1 d hd
        exact ⟨q, List.mem_cons_of_mem _ hq, htime⟩

theorem step_times (V : Venue ι F) (s : Session F) (input : Input ι) :
    ∀ d ∈ (step V s input).1, ∃ p ∈ pushesOf V input,
      LatencyTracker.normalizeTimestampMs p.exchTs = some d.exchangeTimestamp := by
  cases input with
  | quiet => simp [step]
  | lost reason => simp [step]
  | message m receivedAt =>
    simp only [step, pushesOf]
    cases V.read m with
    | rejected reason => simp [onMessage]
    | pushes outer list =>
      rw [onMessage]
      cases V.numbering.onMessage V.exchangeId s.counter outer with
      | error reason => simp
      | ok counter => exact onPushes_times V receivedAt _ list

/-- Every book of a session carries a time that its message states. -/
theorem run_times {V : Venue ι F} {pairs : List String}
    {labels : List (Input ι × List (OrderBookData F))} {state : Except String (Session F)}
    (run : Run (.ok (start V pairs)) (Step V) labels state) :
    ∀ l ∈ labels, ∀ d ∈ l.2, ∃ p ∈ pushesOf V l.1,
      LatencyTracker.normalizeTimestampMs p.exchTs = some d.exchangeTimestamp := by
  induction run with
  | start => simp
  | @step _ _ l _ before now ih =>
    obtain ⟨s, -, hstep⟩ := now
    intro l' hl'
    rcases List.mem_cons.mp hl' with rfl | hl'
    · have htimes := step_times V s l'.1
      rw [hstep] at htimes
      exact htimes
    · exact ih l' hl'

omit [LinearOrder F] in
theorem coinstore_untimed {r : TextReader F} {idToSym : I64 → Option String} {text : String}
    {p : Push F} (h : Coinstore.readPush r idToSym text = some p) : p.exchTs = I64.wrap 0 := by
  simp only [Coinstore.readPush, Option.bind_eq_bind, Option.bind_eq_some_iff,
    Option.some.injEq] at h
  obtain ⟨v, -, -, -, channel, -, i, -, symbol, -, rfl⟩ := h
  rfl

theorem bitfinex_silent (r : TextReader F) (s : Bitfinex.State F) (text : String)
    (receivedAt : I64) : (Bitfinex.onText r s text receivedAt).2 = none := by
  unfold Bitfinex.onText
  split
  · rfl
  · unfold Bitfinex.onData
    split
    · split
      · rfl
      · unfold Bitfinex.onPayload
        split_ifs with hempty
        · rfl
        · dsimp only
          split_ifs
          · exact deliver_untimed _ _
          · rfl
    · rfl
  · rfl

/-- In every session with a venue that pushes its books, a book that is handed over carries the
time its own message states, in milliseconds and positive. Coinstore and Bitfinex are read
without times, so their sessions never hand over a book. -/
theorem books_carry_stated_times (r : TextReader F) (idToSym : I64 → Option String)
    (pairs : List String) :
    (∀ (ι : Type) (V : Venue ι F) (labels : List (Input ι × List (OrderBookData F)))
      (state : Except String (Session F)),
      Run (.ok (start V pairs)) (Step V) labels state →
      ∀ l ∈ labels, ∀ d ∈ l.2, 0 < d.exchangeTimestamp.val ∧ ∃ p ∈ pushesOf V l.1,
        LatencyTracker.normalizeTimestampMs p.exchTs = some d.exchangeTimestamp) ∧
    (∀ (labels : List (Input String × List (OrderBookData F))) (state : Except String (Session F)),
      Run (.ok (start (Coinstore.venue r idToSym) pairs)) (Step (Coinstore.venue r idToSym))
        labels state → ∀ l ∈ labels, l.2 = []) ∧
    ∀ (labels : List (Input String × Option (OrderBookData F))) (s : Bitfinex.State F),
      Run (Bitfinex.start pairs) (Bitfinex.Step r) labels s → ∀ l ∈ labels, l.2 = none := by
  refine ⟨?_, ?_, ?_⟩
  · intro ι V labels state run l hl d hd
    obtain ⟨p, hp, htime⟩ := run_times run l hl d hd
    exact ⟨normalizeTimestampMs_pos htime, p, hp, htime⟩
  · intro labels state run l hl
    rw [List.eq_nil_iff_forall_not_mem]
    intro d hd
    obtain ⟨p, hp, htime⟩ := run_times run l hl d hd
    obtain ⟨input, outs⟩ := l
    cases input with
    | quiet => cases hp
    | lost reason => cases hp
    | message text receivedAt =>
      have hread : Coinstore.readPush r idToSym text = some p := Option.mem_toList.mp hp
      rw [coinstore_untimed hread] at htime
      cases htime
  · intro labels s run
    induction run with
    | start => simp
    | @step _ s l _ before now ih =>
      intro l' hl'
      rcases List.mem_cons.mp hl' with rfl | hl'
      · unfold Bitfinex.Step at now
        split at now
        · rename_i text receivedAt hinput
          rw [← bitfinex_silent r s text receivedAt, now]
        · exact now.2
        · exact now.elim
      · exact ih l' hl'

/-- The book that Bitget's update brings carries the time of the update. -/
theorem books_carry_stated_times_bitget :
    ∃ out s, Run (.ok (start (Bitget.venue demoReader) ["BTCUSDT"]))
        (Step (Bitget.venue demoReader))
        [(demoMessage "update", [out]), (demoMessage "snapshot", [])] (.ok s) ∧
      0 < out.exchangeTimestamp.val ∧
      ∃ p ∈ pushesOf (Bitget.venue demoReader) (demoMessage "update"),
        LatencyTracker.normalizeTimestampMs p.exchTs = some out.exchangeTimestamp := by
  obtain ⟨out, hupdate⟩ := demo_step
  have run : Run (.ok (start (Bitget.venue demoReader) ["BTCUSDT"]))
      (Step (Bitget.venue demoReader))
      [(demoMessage "update", [out]), (demoMessage "snapshot", [])] (.ok demoStored.1) :=
    .step (s := .ok demoSession) (.step .start ⟨_, rfl, rfl⟩) ⟨_, rfl, hupdate⟩
  have htimes := (books_carry_stated_times demoReader (fun _ => none) ["BTCUSDT"]).1
  exact ⟨out, _, run, htimes _ _ _ _ run _ List.mem_cons_self out List.mem_cons_self⟩

end Times

end Nuntius.PushedSessions
