import Nuntius.Bootstrap
import Nuntius.LabelledRuns
import Nuntius.VenueFrames
import Nuntius.VenueLog

/-!
# The Binance live loop

Events carry a range of update numbers. One that ends at or before the local number is dropped,
one that starts beyond the next number makes the loop fetch a snapshot, and every other one is
applied. Whatever arrives, in whatever order, the local book stays equal to the venue's book
after the local number, or is cleared.
-/

namespace Nuntius.Binance
open Collectors JsonTrees CobCommon LabelledRuns SequenceChains

variable {F : Type} [F64 F] [LinearOrder F]

structure DepthEvent (F : Type) where
  firstId : UInt64
  finalId : UInt64
  eventTime : Option I64
  bids : List (F × F)
  asks : List (F × F)

/-! ### The collector -/

def symbolFromBinanceStream (r : TextReader F) (stream : String) : String :=
  r.toUppercase (String.ofList (stream.toList.takeWhile (· != '@')))

/-- The stream key and the event object, with or without the combined-stream wrapper. -/
def streamAndData (r : TextReader F) (v : JsonTree F) : Option (String × JsonTree F) :=
  match (v.get "stream").bind JsonTree.asStr with
  | some s => (v.get "data").map fun data => (s, data)
  | none => ((v.get "s").bind JsonTree.asStr).map fun s => (r.toLowercase s ++ "@depth", v)

def parseCombinedEvent (r : TextReader F) (text : String) : Option (String × DepthEvent F) := do
  let v ← r.fromStr text
  let (streamKey, data) ← streamAndData r v
  let firstId ← (data.get "U").bind parseU64
  let finalId ← (data.get "u").bind parseU64
  some (symbolFromBinanceStream r streamKey,
    { firstId, finalId
      eventTime := ((data.get "E").bind parseU64).map I64.ofU64
      bids := parseLevels r (data.get "b")
      asks := parseLevels r (data.get "a") })

/-- What the loop does with an event; `fetched` is the answer a snapshot request would get,
`none` if it fails. -/
def liveEvent (books : Books F) (symbol : String) (ev : DepthEvent F) (receivedAt : I64)
    (fetched : Option (RestSnapshot F)) : Books F × Option (OrderBookData F) :=
  match books symbol with
  | none => (books, none)
  | some book =>
    match book.seq with
    | none => (books, none)
    | some seq =>
      if ev.finalId ≤ seq then (books, none)
      else if seq + 1 < ev.firstId then
        match fetched with
        | some snap => (books.set symbol
            (book.clear.applySnapshot snap.bids snap.asks (some snap.sequence)), none)
        | none => (books.set symbol book.clear, none)
      else
        let delivered := deliver (book.applyDeltas ev.bids ev.asks (some ev.finalId))
          (ev.eventTime.getD (I64.wrap 0)) receivedAt
        (books.set symbol delivered.1, delivered.2)

/-- What reaches the loop: a text frame, another frame or a timer that leaves the books alone,
or something that ends the session. -/
inductive LiveInput (F : Type) where
  | text (text : String) (receivedAt : I64) (fetched : Option (RestSnapshot F))
  | quiet
  | lost

def liveStep (r : TextReader F) (books : Books F) :
    LiveInput F → Option (Books F × Option (OrderBookData F))
  | .text text receivedAt fetched =>
    match parseCombinedEvent r text with
    | none => some (books, none)
    | some (symbol, ev) => some (liveEvent books symbol ev receivedAt fetched)
  | .quiet => some (books, none)
  | .lost => none

/-- Everything an event can lead to. -/
theorem liveEvent_cases (books : Books F) (symbol : String) (ev : DepthEvent F) (receivedAt : I64)
    (fetched : Option (RestSnapshot F)) :
    liveEvent books symbol ev receivedAt fetched = (books, none) ∨
      ∃ book seq, books symbol = some book ∧ book.seq = some seq ∧ ¬ ev.finalId ≤ seq ∧
        ((seq + 1 < ev.firstId ∧ fetched = none ∧
            liveEvent books symbol ev receivedAt fetched = (books.set symbol book.clear, none)) ∨
          (seq + 1 < ev.firstId ∧ ∃ snap, fetched = some snap ∧
            liveEvent books symbol ev receivedAt fetched = (books.set symbol
              (book.clear.applySnapshot snap.bids snap.asks (some snap.sequence)), none)) ∨
          (¬ seq + 1 < ev.firstId ∧
            liveEvent books symbol ev receivedAt fetched =
              (books.set symbol (deliver (book.applyDeltas ev.bids ev.asks (some ev.finalId))
                (ev.eventTime.getD (I64.wrap 0)) receivedAt).1,
              (deliver (book.applyDeltas ev.bids ev.asks (some ev.finalId))
                (ev.eventTime.getD (I64.wrap 0)) receivedAt).2))) := by
  unfold liveEvent
  split
  · exact .inl rfl
  · rename_i book hbook
    split
    · exact .inl rfl
    · rename_i seq hseq
      split_ifs with hstale hgap
      · exact .inl rfl
      · refine .inr ⟨book, seq, hbook, hseq, hstale, ?_⟩
        cases fetched with
        | none => exact .inl ⟨hgap, rfl, rfl⟩
        | some snap => exact .inr (.inl ⟨hgap, snap, rfl, rfl⟩)
      · exact .inr ⟨book, seq, hbook, hseq, hstale, .inr (.inr ⟨hgap, rfl⟩)⟩

/-- A step of the loop, labelled with its input and what it emits. -/
def LiveStep (r : TextReader F) (books : Books F) (l : LiveInput F × Option (OrderBookData F))
    (books' : Books F) : Prop := liveStep r books l.1 = some (books', l.2)

/-! ### The venue's messages -/

/-- The rows of one side. -/
def DepthEvent.rows (ev : DepthEvent F) : BookSide → List (F × F)
  | .bid => ev.bids
  | .ask => ev.asks

def snapshotRows (snap : RestSnapshot F) : BookSide → List (F × F)
  | .bid => snap.bids
  | .ask => snap.asks

/-- The event states, for every level changed by the updates of its range, the quantity after
the last of them. -/
structure TrueEvent (log : VenueLog F) (ev : DepthEvent F) : Prop where
  rows_true : ∀ side, ∀ row ∈ ev.rows side, TrueRow (log.after side ev.finalId.toNat) row
  covers : ∀ side p, log.Changed side ev.firstId.toNat ev.finalId.toNat p →
    ∃ q, (p, q) ∈ ev.rows side

/-- The snapshot is the full book after its number. -/
def TrueSnapshot (log : VenueLog F) (snap : RestSnapshot F) : Prop :=
  ∀ side p q, (p, q) ∈ snapshotRows snap side ↔
    (log.after side snap.sequence.toNat).get? p = some q

/-- For the given pair, events and snapshots are true. -/
def TrueInput (r : TextReader F) (log : VenueLog F) (pair : String) : LiveInput F → Prop
  | .text text _ fetched => ∀ ev, parseCombinedEvent r text = some (pair, ev) →
      TrueEvent log ev ∧ ∀ snap, fetched = some snap → TrueSnapshot log snap
  | _ => True

/-! ### The local book follows the venue -/

/-- The book equals the venue's book after its number, if it has one. -/
def Tracks (log : VenueLog F) (book : LocalBook F) : Prop :=
  ∀ n, book.seq = some n →
    book.bids = log.after .bid n.toNat ∧ book.asks = log.after .ask n.toNat

theorem Tracks.same {log : VenueLog F} {book book' : LocalBook F} (h : Tracks log book)
    (hsame : SameBook book book') : Tracks log book' := by
  intro n hn
  rw [hsame.bids, hsame.asks]
  exact h n (hsame.seq ▸ hn)

theorem tracks_clear (log : VenueLog F) (book : LocalBook F) : Tracks log book.clear := by
  intro n hn
  cases hn

theorem tracks_snapshot {log : VenueLog F} {snap : RestSnapshot F} (h : TrueSnapshot log snap)
    (book : LocalBook F) :
    Tracks log (book.applySnapshot snap.bids snap.asks (some snap.sequence)) := by
  intro n hn
  obtain rfl := Option.some.inj hn
  exact ⟨snapshotSide_eq (log.after_storable _ _) (h .bid),
    snapshotSide_eq (log.after_storable _ _) (h .ask)⟩

/-- An event that reaches back to the next update brings a side to its last update. -/
theorem deltaSide_of_event {log : VenueLog F} {ev : DepthEvent F} (h : TrueEvent log ev) {n : ℕ}
    (hfirst : ev.firstId.toNat ≤ n + 1) (hlast : n ≤ ev.finalId.toNat) (side : BookSide) :
    deltaSide (log.after side n) (ev.rows side) = log.after side ev.finalId.toNat := by
  apply deltaSide_eq (log.after_storable _ _) (h.rows_true side)
  intro p
  by_cases hchanged : log.Changed side (n + 1) ev.finalId.toNat p
  · right
    apply h.covers side p
    obtain ⟨k, hk, hk', hc⟩ := hchanged
    exact ⟨k, by omega, hk', hc⟩
  · left
    exact (VenueLog.get?_after_of_unchanged hlast hchanged).symm

omit [F64 F] [LinearOrder F] in
/-- Behind the test for stale events the next number does not wrap. -/
theorem firstId_le_succ {seq : UInt64} {ev : DepthEvent F} (hstale : ¬ ev.finalId ≤ seq)
    (hgap : ¬ seq + 1 < ev.firstId) :
    ev.firstId.toNat ≤ seq.toNat + 1 ∧ seq.toNat ≤ ev.finalId.toNat := by
  have hbound := ev.finalId.toNat_lt
  rw [UInt64.le_iff_toNat_le] at hstale
  have hnext : HasNext seq := by
    unfold HasNext
    omega
  rw [UInt64.lt_iff_toNat_lt, toNat_succ hnext] at hgap
  omega

theorem tracks_event {log : VenueLog F} {book : LocalBook F} (h : Tracks log book) {seq : UInt64}
    (hseq : book.seq = some seq) {ev : DepthEvent F} (hev : TrueEvent log ev)
    (hstale : ¬ ev.finalId ≤ seq) (hgap : ¬ seq + 1 < ev.firstId) :
    Tracks log (book.applyDeltas ev.bids ev.asks (some ev.finalId)) := by
  intro n hn
  obtain rfl := Option.some.inj hn
  obtain ⟨hfirst, hlast⟩ := firstId_le_succ hstale hgap
  obtain ⟨hbids, hasks⟩ := h seq hseq
  rw [applyDeltas_bids, applyDeltas_asks, hbids, hasks]
  exact ⟨deltaSide_of_event hev hfirst hlast .bid, deltaSide_of_event hev hfirst hlast .ask⟩

/-- The message holds the best levels of the venue's book after an update. -/
def TopOfVenue (log : VenueLog F) (n : ℕ) (d : OrderBookData F) : Prop :=
  d.bids = topBids topN (log.after .bid n) ∧ d.asks = topAsks topN (log.after .ask n)

/-! ### Runs -/

/-- Every book stands under its own symbol, and that of the pair follows the venue. -/
structure SessionOk (log : VenueLog F) (pair : String) (books : Books F) : Prop where
  symbols : ∀ s book, books s = some book → book.symbol = s
  tracks : ∀ book, books pair = some book → Tracks log book

/-- Storing a book under its symbol keeps the session in order, if it follows the venue. -/
theorem SessionOk.set {log : VenueLog F} {pair : String} {books : Books F}
    (h : SessionOk log pair books) {symbol : String} {book : LocalBook F}
    (hsymbol : book.symbol = symbol) (htracks : symbol = pair → Tracks log book) :
    SessionOk log pair (books.set symbol book) where
  symbols s b hb := by
    by_cases hs : s = symbol
    · subst hs
      rw [Instruments.set_same] at hb
      obtain rfl := Option.some.inj hb
      exact hsymbol
    · rw [Instruments.set_of_ne _ hs] at hb
      exact h.symbols s b hb
  tracks b hb := by
    by_cases hs : pair = symbol
    · subst hs
      rw [Instruments.set_same] at hb
      obtain rfl := Option.some.inj hb
      exact htracks rfl
    · rw [Instruments.set_of_ne _ hs] at hb
      exact h.tracks b hb

/-- One event: the session stays in order, and what is emitted for the pair is the top of the
venue's book after the event's last update. -/
theorem liveEvent_ok {log : VenueLog F} {pair symbol : String} {books : Books F}
    (h : SessionOk log pair books) {ev : DepthEvent F} {fetched : Option (RestSnapshot F)}
    (hev : symbol = pair → TrueEvent log ev ∧ ∀ snap, fetched = some snap → TrueSnapshot log snap)
    (receivedAt : I64) :
    SessionOk log pair (liveEvent books symbol ev receivedAt fetched).1 ∧
      ∀ d, (liveEvent books symbol ev receivedAt fetched).2 = some d →
        d.symbol = symbol ∧ (symbol = pair → TopOfVenue log ev.finalId.toNat d) := by
  have hquiet : ∀ d : OrderBookData F, (none : Option (OrderBookData F)) = some d →
      d.symbol = symbol ∧ (symbol = pair → TopOfVenue log ev.finalId.toNat d) := by
    intro d hd
    cases hd
  rcases liveEvent_cases books symbol ev receivedAt fetched with
    heq | ⟨book, seq, hbook, hseq, hstale, hcase⟩
  · rw [heq]
    exact ⟨h, hquiet⟩
  have hsym := h.symbols symbol book hbook
  rcases hcase with ⟨-, -, heq⟩ | ⟨-, snap, hfetched, heq⟩ | ⟨hgap, heq⟩
  · rw [heq]
    exact ⟨h.set hsym fun _ => tracks_clear log book, hquiet⟩
  · rw [heq]
    exact ⟨h.set hsym fun hp => tracks_snapshot ((hev hp).2 snap hfetched) _, hquiet⟩
  · have hnew : symbol = pair →
        Tracks log (book.applyDeltas ev.bids ev.asks (some ev.finalId)) := by
      rintro rfl
      exact tracks_event (h.tracks book hbook) hseq (hev rfl).1 hstale hgap
    obtain ⟨hsame, hout⟩ := deliver_spec (book.applyDeltas ev.bids ev.asks (some ev.finalId))
      (ev.eventTime.getD (I64.wrap 0)) receivedAt
    rw [heq]
    refine ⟨h.set (hsame.symbol.trans hsym) fun hp => (hnew hp).same hsame, ?_⟩
    intro d hd
    have htop := hout d hd
    refine ⟨htop.symbol.trans hsym, fun hp => ?_⟩
    obtain ⟨hb, ha⟩ := hnew hp ev.finalId rfl
    exact ⟨by rw [htop.bids, hb], by rw [htop.asks, ha]⟩

/-- What a label says: a book emitted for the pair is the top of the venue's book after the last
update of the event just applied. -/
def LabelOk (r : TextReader F) (log : VenueLog F) (pair : String)
    (l : LiveInput F × Option (OrderBookData F)) : Prop :=
  ∀ d, l.2 = some d → d.symbol = pair →
    ∃ text receivedAt fetched ev, l.1 = .text text receivedAt fetched ∧
      parseCombinedEvent r text = some (pair, ev) ∧ TopOfVenue log ev.finalId.toNat d

theorem liveStep_ok {r : TextReader F} {log : VenueLog F} {pair : String} {books books' : Books F}
    {l : LiveInput F × Option (OrderBookData F)} (h : SessionOk log pair books)
    (htrue : TrueInput r log pair l.1) (hstep : LiveStep r books l books') :
    SessionOk log pair books' ∧ LabelOk r log pair l := by
  obtain ⟨input, out⟩ := l
  have hquiet : out = none → LabelOk r log pair (input, out) := by
    rintro rfl d hd
    cases hd
  cases input with
  | quiet =>
    obtain ⟨rfl, hout⟩ := Prod.mk.inj (Option.some.inj hstep)
    exact ⟨h, hquiet hout.symm⟩
  | lost => cases hstep
  | text text receivedAt fetched =>
    unfold LiveStep liveStep at hstep
    dsimp only at hstep
    cases hparse : parseCombinedEvent r text with
    | none =>
      rw [hparse] at hstep
      obtain ⟨rfl, hout⟩ := Prod.mk.inj (Option.some.inj hstep)
      exact ⟨h, hquiet hout.symm⟩
    | some parsed =>
      obtain ⟨symbol, ev⟩ := parsed
      rw [hparse] at hstep
      have hev : symbol = pair →
          TrueEvent log ev ∧ ∀ snap, fetched = some snap → TrueSnapshot log snap := by
        rintro rfl
        exact htrue ev hparse
      obtain ⟨hok, hemit⟩ := liveEvent_ok h hev receivedAt
      have hresult := Option.some.inj hstep
      rw [hresult] at hok hemit
      refine ⟨hok, ?_⟩
      intro d hd hpair
      obtain ⟨hdsym, htop⟩ := hemit d hd
      obtain rfl := hdsym.symm.trans hpair
      exact ⟨text, receivedAt, fetched, ev, rfl, hparse, htop rfl⟩

/-- Whatever events arrive, stale, overlapping, out of order or with gaps, and whatever snapshot
requests answer: every book emitted for the pair is the top of the venue's book after the event
just applied, and the local book equals the venue's book after its number. -/
theorem binance_tracks_venue {r : TextReader F} {log : VenueLog F} {pair : String}
    {start books : Books F} (hstart : SessionOk log pair start)
    {labels : List (LiveInput F × Option (OrderBookData F))}
    (run : Run start (LiveStep r) labels books)
    (htrue : ∀ l ∈ labels, TrueInput r log pair l.1) :
    (∀ l ∈ labels, LabelOk r log pair l) ∧
      ∀ book, books pair = some book → Tracks log book := by
  have hinv : (∀ l ∈ labels, LabelOk r log pair l) ∧ SessionOk log pair books := by
    induction run with
    | start => exact ⟨by simp, hstart⟩
    | step before now ih =>
      obtain ⟨hlabels, hok⟩ := ih fun l hl => htrue l (List.mem_cons_of_mem _ hl)
      obtain ⟨hok', hlabel⟩ := liveStep_ok hok (htrue _ List.mem_cons_self) now
      refine ⟨?_, hok'⟩
      intro l hl
      rcases List.mem_cons.mp hl with rfl | hl
      · exact hlabel
      · exact hlabels l hl
  exact ⟨hinv.1, hinv.2.tracks⟩

section Example

def demoChange (side : BookSide) (price quantity : ℚ) (hprice : 0 < price)
    (hquantity : 0 < quantity) : LevelChange ExtRat :=
  ⟨side, .fin price, .fin quantity, positiveFloat_fin hprice, .inl (positiveFloat_fin hquantity)⟩

/-- Update 1 opens the book, each of the next three changes its bid. -/
def demoLog : VenueLog ExtRat where
  changes
    | 1 => [demoChange .bid 99 1 (by norm_num) (by norm_num),
        demoChange .ask 101 1 (by norm_num) (by norm_num)]
    | 2 => [demoChange .bid 99 2 (by norm_num) (by norm_num)]
    | 3 => [demoChange .bid 99 3 (by norm_num) (by norm_num)]
    | 4 => [demoChange .bid 99 4 (by norm_num) (by norm_num)]
    | _ => []

/-- The update that a text is about. -/
def demoNumber (text : String) : UInt64 :=
  if text = "fourth" then 4 else if text = "third" then 3 else 2

def demoReader : TextReader ExtRat where
  fromStr text := some (.obj [("stream", .str "btcusdt@depth@100ms"), ("data", .obj [
    ("E", .posInt 1672515782136), ("U", .posInt (demoNumber text)),
    ("u", .posInt (demoNumber text)),
    ("b", .arr [.arr [.posInt 99, .posInt (demoNumber text)]]), ("a", .arr [])])])
  parseFloat _ := none
  toUppercase _ := "BTCUSDT"
  toLowercase := id

def demoStart : Books ExtRat := fun s =>
  if s = "BTCUSDT" then
    some ((LocalBook.new "binance" "BTCUSDT").applySnapshot [(.fin 99, .fin 1)]
      [(.fin 101, .fin 1)] (some 1))
  else none

def demoEvent (n : UInt64) : DepthEvent ExtRat :=
  ⟨n, n, some (I64.ofU64 1672515782136), [(.fin 99, .fin n.toNat)], []⟩

theorem parse_demo (text : String) :
    parseCombinedEvent demoReader text = some ("BTCUSDT", demoEvent (demoNumber text)) := rfl

theorem demoNumber_cases (text : String) :
    demoNumber text = 2 ∨ demoNumber text = 3 ∨ demoNumber text = 4 := by
  unfold demoNumber
  split_ifs <;> simp

theorem demoStart_ok : SessionOk demoLog "BTCUSDT" demoStart where
  symbols s book h := by
    unfold demoStart at h
    split_ifs at h with hs
    rw [← Option.some.inj h, hs]
    rfl
  tracks book h := by
    obtain rfl := Option.some.inj h
    intro n hn
    obtain rfl := Option.some.inj hn
    exact ⟨Ladder.ext_entries (by decide +kernel), Ladder.ext_entries (by decide +kernel)⟩

theorem demoEvent_true {n : UInt64} (hn : n = 2 ∨ n = 3 ∨ n = 4) :
    TrueEvent demoLog (demoEvent n) where
  rows_true side row hrow := by
    cases side with
    | bid =>
      obtain rfl := List.mem_singleton.mp hrow
      obtain rfl | rfl | rfl := hn <;>
        exact ⟨positiveFloat_fin (by decide), .inl (by decide +kernel)⟩
    | ask => cases hrow
  covers side p h := by
    obtain ⟨m, hlo, hhi, c, hc, hside, rfl⟩ := h
    obtain rfl : m = n.toNat := le_antisymm hhi hlo
    obtain rfl | rfl | rfl := hn <;>
      (obtain rfl := List.mem_singleton.mp hc
       subst hside
       exact ⟨_, List.mem_singleton_self _⟩)

/-- What the loop makes of a text. -/
def demoLive (books : Books ExtRat) (text : String) :
    Books ExtRat × Option (OrderBookData ExtRat) :=
  liveEvent books "BTCUSDT" (demoEvent (demoNumber text)) (I64.wrap 1672515782200) none

def demoInput (text : String) : LiveInput ExtRat := .text text (I64.wrap 1672515782200) none

theorem demo_step (books : Books ExtRat) (text : String) :
    LiveStep demoReader books (demoInput text, (demoLive books text).2) (demoLive books text).1 :=
  rfl

/-- The book starts at update 1; updates 2 and 3 arrive, and update 2 once more. -/
theorem binance_tracks_venue_demo :
    ∃ d d' books, Run demoStart (LiveStep demoReader) [(demoInput "second", none),
        (demoInput "third", some d'), (demoInput "second", some d)] books ∧
      LabelOk demoReader demoLog "BTCUSDT" (demoInput "third", some d') ∧
      LabelOk demoReader demoLog "BTCUSDT" (demoInput "second", some d) ∧
      ∀ book, books "BTCUSDT" = some book → Tracks demoLog book := by
  let second := demoLive demoStart "second"
  let third := demoLive second.1 "third"
  obtain ⟨d, hd⟩ := Option.isSome_iff_exists.mp (by decide +kernel : second.2.isSome = true)
  obtain ⟨d', hd'⟩ := Option.isSome_iff_exists.mp (by decide +kernel : third.2.isSome = true)
  have hstale : (demoLive third.1 "second").2 = none :=
    Option.isNone_iff_eq_none.mp (by decide +kernel)
  have run := ((Run.start.step (demo_step demoStart "second")).step
    (demo_step second.1 "third")).step (demo_step third.1 "second")
  rw [hstale, show (demoLive second.1 "third").2 = some d' from hd',
    show (demoLive demoStart "second").2 = some d from hd] at run
  have htrue : ∀ text, TrueInput demoReader demoLog "BTCUSDT" (demoInput text) := by
    intro text ev hev
    rw [parse_demo] at hev
    rw [← (Prod.mk.inj (Option.some.inj hev)).2]
    exact ⟨demoEvent_true (demoNumber_cases text), by simp⟩
  obtain ⟨hlabels, htracks⟩ := binance_tracks_venue demoStart_ok run (by simp [htrue])
  exact ⟨d, d', _, run, hlabels _ (by simp), hlabels _ (by simp), htracks⟩

end Example

end Nuntius.Binance
