import Nuntius.BinanceFeed
import Nuntius.OrderedDicts

/-!
# Sessions that start from REST snapshots

Binance, KuCoin, XT, MEXC and OrangeX push deltas only. A session first buffers deltas, then
fetches a snapshot for one pair after the other and reconciles the buffer with it, and then goes
on live; messages that arrive while snapshots are fetched wait in the socket. The venues differ
in how they spell a delta and in what the live loop does with one that does not follow.

Over a whole session the local book equals the venue's book after its number, whatever is lost,
repeated or swapped on the way, as long as the buffer was unbroken behind its snapshot.
-/

namespace Nuntius.SnapshotSessions
open Collectors CobCommon JsonTrees LabelledRuns OrderedDicts SequenceChains
open Binance (DepthEvent TrueEvent TrueSnapshot Tracks TopOfVenue SessionOk)

variable {F : Type} [F64 F] [LinearOrder F]
variable {ι δ : Type}

/-! ### The session -/

/-- What the live loop does with a delta for a book at some number. -/
inductive Verdict where
  | skip
  | gap
  | refetch
  | apply
  deriving DecidableEq

/-- What sets one collector apart from another: how pairs are spelled, how a message is read
(with the time it states), and the rules for its deltas. -/
structure Venue (ι δ F : Type) where
  exchangeId : String
  key : String → String
  preludeBufferMin : ℕ
  read : ι → Option (String × δ × I64)
  fields : DeltaFields δ F
  refetchesAtBootstrap : Bool
  verdict : UInt64 → δ → Verdict

abbrev Prelude (δ : Type) := OrderedDict String (List δ)

/-- `prelude.entry(sym).or_default().push_back(d)`. -/
def Prelude.push (prelude : Prelude δ) (symbol : String) (d : δ) : Prelude δ :=
  prelude.insert symbol ((prelude.lookup symbol).getD [] ++ [d])

inductive Phase where
  | buffering
  | bootstrapping (pair : String) (rest : List String)
  | live
  deriving DecidableEq

structure Session (δ F : Type) [LinearOrder F] where
  phase : Phase
  books : Books F
  prelude : Prelude δ

/-- What the session waits for: a message (with the answer a snapshot request would get while it
is handled), another frame or a timer, the deadline of the buffering, the answers to the
requests for the snapshot of a pair, or something that ends the session. -/
inductive Input (ι F : Type) where
  | message (m : ι) (receivedAt : I64) (fetched : Option (RestSnapshot F))
  | quiet
  | deadline
  | snapshots (asked : String) (fetched refetched : Option (RestSnapshot F))
  | lost
  | pingFailed

inductive SessionEnd where
  | lost
  | pingFailed
  | bootstrapFailed (pair : String)
  | gap (pair : String)
  deriving DecidableEq

section Steps
variable (V : Venue ι δ F)

/-- The pair whose snapshot is next. -/
def nextPair : List String → Phase
  | [] => .live
  | pair :: rest => .bootstrapping pair rest

/-- Every buffer is long enough. -/
def full (prelude : Prelude δ) : Bool :=
  prelude.entries.all fun e => decide (V.preludeBufferMin ≤ e.2.length)

/-- The head of the buffering loop. -/
def settle (pairs : List String) (s : Session δ F) : Session δ F :=
  if full V s.prelude then { s with phase := nextPair (pairs.map V.key) } else s

def startBooks (pairs : List String) : Books F := fun symbol =>
  if symbol ∈ pairs.map V.key then some (LocalBook.new V.exchangeId symbol) else none

def startPrelude (pairs : List String) : Prelude δ :=
  (pairs.map V.key).foldl (fun prelude symbol => prelude.insert symbol []) ∅

def start (pairs : List String) : Session δ F :=
  settle V pairs ⟨.buffering, startBooks V pairs, startPrelude V pairs⟩

def bufferMessage (pairs : List String) (s : Session δ F) (m : ι) : Session δ F :=
  match V.read m with
  | none => s
  | some (symbol, d, _) => settle V pairs { s with prelude := s.prelude.push symbol d }

/-- The snapshot of one pair. A venue that does not ask again gives up at the first gap. -/
def bootstrapNext (s : Session δ F) (pair : String) (rest : List String)
    (fetched refetched : Option (RestSnapshot F)) : Except SessionEnd (Session δ F) :=
  let again := if V.refetchesAtBootstrap then refetched else none
  let buffered := (s.prelude.lookup pair).getD []
  match (s.books pair).bind fun book => bootstrapPair V.fields fetched again book buffered with
  | none => .error (.bootstrapFailed pair)
  | some (book, _) =>
    .ok ⟨nextPair rest, s.books.set pair book, s.prelude.insert pair []⟩

/-- What the live loop does with a delta. -/
def liveDelta (books : Books F) (symbol : String) (d : δ) (time receivedAt : I64)
    (fetched : Option (RestSnapshot F)) :
    Except SessionEnd (Books F × Option (OrderBookData F)) :=
  match books symbol with
  | none => .ok (books, none)
  | some book =>
    match book.seq with
    | none => .ok (books, none)
    | some localSeq =>
      match V.verdict localSeq d with
      | .skip => .ok (books, none)
      | .gap => .error (.gap symbol)
      | .refetch =>
        match fetched with
        | some snap => .ok (books.set symbol
            (book.clear.applySnapshot snap.bids snap.asks (some snap.sequence)), none)
        | none => .ok (books.set symbol book.clear, none)
      | .apply =>
        let delivered := deliver (applyDelta V.fields book d) time receivedAt
        .ok (books.set symbol delivered.1, delivered.2)

def liveMessage (s : Session δ F) (m : ι) (receivedAt : I64) (fetched : Option (RestSnapshot F)) :
    Except SessionEnd (Session δ F × Option (OrderBookData F)) :=
  match V.read m with
  | none => .ok (s, none)
  | some (symbol, d, time) =>
    (liveDelta V s.books symbol d time receivedAt fetched).map fun r =>
      ({ s with books := r.1 }, r.2)

/-- One step of `run_session`; `none` for an input that the session does not wait for. -/
def step (pairs : List String) (s : Session δ F) (input : Input ι F) :
    Option (Except SessionEnd (Session δ F × Option (OrderBookData F))) :=
  match s.phase, input with
  | .buffering, .message m _ _ => some (.ok (bufferMessage V pairs s m, none))
  | .buffering, .quiet => some (.ok (s, none))
  | .buffering, .deadline => some (.ok ({ s with phase := nextPair (pairs.map V.key) }, none))
  | .buffering, .lost => some (.error .lost)
  | .bootstrapping pair rest, .snapshots asked fetched refetched =>
    if asked = pair then
      some ((bootstrapNext V s pair rest fetched refetched).map fun s' => (s', none))
    else none
  | .live, .message m receivedAt fetched => some (liveMessage V s m receivedAt fetched)
  | .live, .quiet => some (.ok (s, none))
  | .live, .lost => some (.error .lost)
  | .live, .pingFailed => some (.error .pingFailed)
  | _, _ => none

/-- A step of the session, labelled with its input and what it emits. -/
def Step (pairs : List String) (s : Session δ F) (l : Input ι F × Option (OrderBookData F))
    (s' : Session δ F) : Prop := step V pairs s l.1 = some (.ok (s', l.2))

end Steps

/-! ### The venues -/

/-- The rest of a text behind a fixed start. -/
def stripStart (head text : String) : Option String :=
  if head.toList.isPrefixOf text.toList then some (String.ofList (text.toList.drop head.length))
  else none

/-- A time that venues send as a JSON number or as a string, 0 if it is missing. -/
def timeMs (v : Option (JsonTree F)) : I64 := (v.bind parseI64).getD (I64.wrap 0)

section Venues
variable (r : TextReader F)

/-- Stale deltas are dropped, and every other one must start right behind the local number. -/
def strictVerdict (v : DeltaFields δ F) (localSeq : UInt64) (d : δ) : Verdict :=
  if v.last d ≤ localSeq then .skip
  else if v.first d ≠ localSeq + 1 then .gap
  else .apply

namespace Kucoin

def parseL2Message (text : String) : Option (String × KucoinUpdate F × I64) := do
  let v ← r.fromStr text
  guard ((v.get "type").bind JsonTree.asStr = some "message")
  let topic ← (v.get "topic").bind JsonTree.asStr
  let symbol ← stripStart "/market/level2:" topic
  let data ← v.get "data"
  let sequenceStart ← (data.get "sequenceStart").bind parseU64
  let sequenceEnd ← (data.get "sequenceEnd").bind parseU64
  let time := timeMs (data.get "time")
  let changes ← data.get "changes"
  some (symbol,
    { sequenceStart, sequenceEnd
      bids := parseLevels r (changes.get "bids")
      asks := parseLevels r (changes.get "asks") }, time)

def venue : Venue String (KucoinUpdate F) F where
  exchangeId := "kucoin"
  key := id
  preludeBufferMin := 5
  read := parseL2Message r
  fields := kucoin
  refetchesAtBootstrap := true
  verdict := strictVerdict kucoin

end Kucoin

namespace Xt

structure XtDelta (F : Type) where
  firstId : UInt64
  lastId : UInt64
  bids : List (F × F)
  asks : List (F × F)

def xt : DeltaFields (XtDelta F) F where
  first := XtDelta.firstId
  last := XtDelta.lastId
  bids := XtDelta.bids
  asks := XtDelta.asks

def parseDelta (text : String) : Option (String × XtDelta F × I64) := do
  let v ← r.fromStr text
  guard ((← (v.get "topic").bind JsonTree.asStr) = "depth_update")
  let data ← v.get "data"
  let symbol ← (data.get "s").bind JsonTree.asStr
  let firstId ← (data.get "fi").bind parseU64
  let lastId ← (data.get "i").bind parseU64
  some (r.toLowercase symbol,
    { firstId, lastId
      bids := parseLevels r (data.get "b")
      asks := parseLevels r (data.get "a") }, timeMs (data.get "t"))

def venue : Venue String (XtDelta F) F where
  exchangeId := "xt"
  key := r.toLowercase
  preludeBufferMin := 5
  read := parseDelta r
  fields := xt
  refetchesAtBootstrap := false
  verdict := strictVerdict xt

end Xt

namespace Mexc

structure AggreDepths where
  bids : List (String × String)
  asks : List (String × String)
  fromVersion : String
  toVersion : String

/-- The protobuf message, as far as the collector reads it. -/
structure PushDataV3ApiWrapper where
  channel : String
  publicAggreDepths : Option AggreDepths
  symbol : Option String
  sendTime : Option I64

/-- Levels whose price or quantity does not parse are skipped. -/
def depthLevels (items : List (String × String)) : List (F × F) :=
  items.filterMap fun i => do some (← r.parseFloat i.1, ← r.parseFloat i.2)

/-- What stands behind the last `@`. -/
def channelSymbol (channel : String) : String :=
  String.ofList (channel.toList.reverse.takeWhile (· != '@')).reverse

/-- The symbol is that of the message or, if there is none, the end of the channel's name. -/
def decodeWrapper (decode : List UInt8 → Option PushDataV3ApiWrapper) (bytes : List UInt8) :
    Option (String × MexcDelta F × I64) := do
  let w ← decode bytes
  let depths ← w.publicAggreDepths
  let fromVersion ← readU64 depths.fromVersion
  let toVersion ← readU64 depths.toVersion
  let symbol := r.toUppercase (w.symbol.getD "")
  some (if symbol.isEmpty then r.toUppercase (channelSymbol w.channel) else symbol,
    { fromVersion, toVersion
      bids := depthLevels r depths.bids
      asks := depthLevels r depths.asks }, w.sendTime.getD (I64.wrap 0))

/-- MEXC goes by the start of a delta: one that starts at or before the local number is dropped
even if it ends behind it. -/
def verdict (localSeq : UInt64) (d : MexcDelta F) : Verdict :=
  if d.fromVersion ≤ localSeq then .skip
  else if localSeq + 1 < d.fromVersion then .gap
  else .apply

def venue (decode : List UInt8 → Option PushDataV3ApiWrapper) :
    Venue (List UInt8) (MexcDelta F) F where
  exchangeId := "mexc"
  key := r.toUppercase
  preludeBufferMin := 5
  read := decodeWrapper r decode
  fields := mexc
  refetchesAtBootstrap := true
  verdict := verdict

end Mexc

namespace Orangex

/-- `[action, price, size]`; a deleted level has size 0. -/
def parseActionRow (row : JsonTree F) : Option (F × F) := do
  let cells ← row.asArray
  let action ← (← cells[0]?).asStr
  let price ← parseF64 r (← cells[1]?)
  let size ← parseF64 r (← cells[2]?)
  some (price, if action = "delete" then F64.lit 0 else size)

def parseActionLevels (v : Option (JsonTree F)) : List (F × F) :=
  match v.bind JsonTree.asArray with
  | none => []
  | some rows => rows.filterMap (parseActionRow r)

def parseBookEvent (text : String) : Option (String × OrangeDelta F × I64) := do
  let v ← r.fromStr text
  guard ((← (v.get "method").bind JsonTree.asStr) = "subscription")
  let params ← v.get "params"
  let data ← params.get "data"
  let symbol ← (data.get "instrument_name").bind JsonTree.asStr
  let changeId ← (data.get "change_id").bind parseU64
  some (r.toUppercase symbol,
    { changeId
      bids := parseActionLevels r (data.get "bids")
      asks := parseActionLevels r (data.get "asks") },
    ((data.get "timestamp").bind JsonTree.asI64).getD (I64.wrap 0))

def venue : Venue String (OrangeDelta F) F where
  exchangeId := "orangex"
  key := r.toUppercase
  preludeBufferMin := 3
  read := parseBookEvent r
  fields := orangex
  refetchesAtBootstrap := true
  verdict := strictVerdict orangex

end Orangex

namespace BinanceDepth

def fields : DeltaFields (DepthEvent F) F where
  first := DepthEvent.firstId
  last := DepthEvent.finalId
  bids := DepthEvent.bids
  asks := DepthEvent.asks

/-- A gap makes the live loop fetch a snapshot. -/
def verdict (localSeq : UInt64) (ev : DepthEvent F) : Verdict :=
  if ev.finalId ≤ localSeq then .skip
  else if localSeq + 1 < ev.firstId then .refetch
  else .apply

def venue : Venue String (DepthEvent F) F where
  exchangeId := "binance"
  key := r.toUppercase
  preludeBufferMin := 5
  read text := (Binance.parseCombinedEvent r text).map fun p =>
    (p.1, p.2, p.2.eventTime.getD (I64.wrap 0))
  fields := fields
  refetchesAtBootstrap := true
  verdict := verdict

end BinanceDepth

end Venues

/-! ### Messages that are true of the venue's log -/

section Truth
variable (V : Venue ι δ F)

/-- The delta as an event with a range of update numbers. -/
def eventOf (v : DeltaFields δ F) (d : δ) : DepthEvent F :=
  ⟨v.first d, v.last d, none, v.bids d, v.asks d⟩

/-- A range that is not empty, with the quantities after its last update. -/
structure TrueDelta (log : VenueLog F) (v : DeltaFields δ F) (d : δ) : Prop where
  ordered : v.first d ≤ v.last d
  event : TrueEvent log (eventOf v d)

/-- What the session is told about the pair is true of the log, and a snapshot it reconciles
the buffer with finds it unbroken. -/
def TrueStep (log : VenueLog F) (pair : String) (s : Session δ F) : Input ι F → Prop
  | .message m _ fetched => ∀ d time, V.read m = some (pair, d, time) →
      TrueDelta log V.fields d ∧ ∀ snap, fetched = some snap → TrueSnapshot log snap
  | .snapshots asked fetched refetched => asked = pair →
      (∀ snap, fetched = some snap → TrueSnapshot log snap ∧
        Unbroken V.fields snap.sequence ((s.prelude.lookup pair).getD [])) ∧
      ∀ snap, refetched = some snap → TrueSnapshot log snap
  | _ => True

/-- A book emitted for the pair is the top of the venue's book after the last update of the
delta just applied. -/
def LabelOk (log : VenueLog F) (pair : String) (l : Input ι F × Option (OrderBookData F)) :
    Prop :=
  ∀ out, l.2 = some out → out.symbol = pair →
    ∃ m receivedAt fetched d time, l.1 = .message m receivedAt fetched ∧
      V.read m = some (pair, d, time) ∧ TopOfVenue log (V.fields.last d).toNat out

/-- Along every session whose messages about a pair are true, what is emitted for the pair is
the top of the venue's book and the local book equals the venue's book after its number. -/
def TracksVenue : Prop :=
  ∀ (log : VenueLog F) (pair : String) (pairs : List String)
    (labels : List (Input ι F × Option (OrderBookData F))) (s : Session δ F),
    Always (start V pairs) (Step V pairs) (fun s l _ => TrueStep V log pair s l.1) labels s →
    (∀ l ∈ labels, LabelOk V log pair l) ∧ ∀ book, s.books pair = some book → Tracks log book

end Truth

/-! ### Following the venue -/

section Proofs
variable {V : Venue ι δ F} {v : DeltaFields δ F} {log : VenueLog F} {pair : String}
  {pairs : List String}

/-- A delta that continues the local number brings the book to the delta's last update. -/
theorem tracks_applyDelta {book : LocalBook F} (h : Tracks log book) {seq : UInt64}
    (hseq : book.seq = some seq) {d : δ} (hd : TrueEvent log (eventOf v d))
    (hcont : RangeContinues v seq d) : Tracks log (applyDelta v book d) := by
  intro n hn
  obtain rfl := Option.some.inj hn
  obtain ⟨hbids, hasks⟩ := h seq hseq
  obtain ⟨hfirst, hlast⟩ := hcont
  have hreach : seq.toNat ≤ (v.last d).toNat := by omega
  change deltaSide book.bids (v.bids d) = _ ∧ deltaSide book.asks (v.asks d) = _
  rw [hbids, hasks]
  exact ⟨Binance.deltaSide_of_event hd hfirst hreach .bid,
    Binance.deltaSide_of_event hd hfirst hreach .ask⟩

/-- A chain of deltas keeps the book equal to the venue's. -/
theorem tracks_foldl {book : LocalBook F} (h : Tracks log book) {seq : UInt64}
    (hseq : book.seq = some seq) {ds : List δ} (htrue : ∀ d ∈ ds, TrueEvent log (eventOf v d))
    (hchain : ChainFrom (RangeContinues v) v.last seq ds) :
    Tracks log (ds.foldl (applyDelta v) book) := by
  induction ds generalizing book seq with
  | nil => exact h
  | cons d ds ih =>
    obtain ⟨hcont, hrest⟩ := hchain
    rw [List.foldl_cons]
    exact ih (tracks_applyDelta h hseq (htrue d List.mem_cons_self) hcont) rfl
      (fun d' hd' => htrue d' (List.mem_cons_of_mem _ hd')) hrest

/-- Reconciling an unbroken buffer with a snapshot. -/
theorem tracks_anchorAndDrain {book book' : LocalBook F} {snap : RestSnapshot F}
    {buffered applied : List δ} (hsnap : TrueSnapshot log snap)
    (htrue : ∀ d ∈ buffered, TrueEvent log (eventOf v d))
    (hunbroken : Unbroken v snap.sequence buffered)
    (h : anchorAndDrain v book snap buffered = (book', .ok applied)) : Tracks log book' := by
  obtain ⟨happlied, hbook, -⟩ := drainPrelude_ok h
  have hchain := ((anchorAndDrain_iff h).mpr hunbroken).1
  rw [List.nil_append] at happlied
  rw [hbook, ← happlied]
  refine tracks_foldl (Binance.tracks_snapshot hsnap book) rfl ?_ hchain
  intro d hd
  rw [happlied] at hd
  exact htrue d (List.mem_of_mem_filter hd)

omit [F64 F] [LinearOrder F] in
theorem unbroken_nil (anchor : UInt64) : Unbroken v anchor [] := List.IsChain.nil

/-- The bootstrap of one pair, with the second snapshot or without. -/
theorem tracks_bootstrapPair {fetched refetched : Option (RestSnapshot F)}
    {book book' : LocalBook F} {buffered applied : List δ}
    (hfetched : ∀ snap, fetched = some snap →
      TrueSnapshot log snap ∧ Unbroken v snap.sequence buffered)
    (hrefetched : ∀ snap, refetched = some snap → TrueSnapshot log snap)
    (htrue : ∀ d ∈ buffered, TrueEvent log (eventOf v d))
    (h : bootstrapPair v fetched refetched book buffered = some (book', applied)) :
    Tracks log book' := by
  obtain ⟨snap, hsnap, h⟩ := Option.bind_eq_some_iff.mp h
  obtain ⟨htruth, hunbroken⟩ := hfetched snap hsnap
  split at h
  · rename_i book₁ applied₁ hdrain
    obtain ⟨rfl, rfl⟩ := Prod.mk.inj (Option.some.inj h)
    exact tracks_anchorAndDrain htruth htrue hunbroken hdrain
  · obtain ⟨snap', hsnap', h⟩ := Option.bind_eq_some_iff.mp h
    split at h
    · rename_i book₂ applied₂ hdrain
      obtain ⟨rfl, rfl⟩ := Prod.mk.inj (Option.some.inj h)
      exact tracks_anchorAndDrain (hrefetched snap' hsnap') (by simp) (unbroken_nil _) hdrain
    · cases h

theorem drainPrelude_symbol (anchor : UInt64) (applied : List δ) (book : LocalBook F)
    (buffered : List δ) : (drainPrelude v anchor applied book buffered).1.symbol = book.symbol := by
  induction buffered generalizing applied book with
  | nil => rfl
  | cons d rest ih =>
    unfold drainPrelude
    split_ifs
    · exact ih applied book
    · rfl
    · exact ih _ _

theorem bootstrapPair_symbol {fetched refetched : Option (RestSnapshot F)}
    {book book' : LocalBook F} {buffered applied : List δ}
    (h : bootstrapPair v fetched refetched book buffered = some (book', applied)) :
    book'.symbol = book.symbol := by
  obtain ⟨snap, -, h⟩ := Option.bind_eq_some_iff.mp h
  have hfirst := drainPrelude_symbol (v := v) snap.sequence []
    (book.applySnapshot snap.bids snap.asks (some snap.sequence)) buffered
  change (anchorAndDrain v book snap buffered).1.symbol = book.symbol at hfirst
  split at h
  · rename_i book₁ applied₁ hdrain
    obtain ⟨rfl, -⟩ := Prod.mk.inj (Option.some.inj h)
    rwa [hdrain] at hfirst
  · rename_i book₁ gap hdrain
    rw [hdrain] at hfirst
    obtain ⟨snap', -, h⟩ := Option.bind_eq_some_iff.mp h
    have hsecond := drainPrelude_symbol (v := v) snap'.sequence []
      (book₁.applySnapshot snap'.bids snap'.asks (some snap'.sequence)) []
    change (anchorAndDrain v book₁ snap' []).1.symbol = book₁.symbol at hsecond
    split at h
    · rename_i book₂ applied₂ hdrain'
      obtain ⟨rfl, -⟩ := Prod.mk.inj (Option.some.inj h)
      rw [hdrain'] at hsecond
      exact hsecond.trans hfirst
    · cases h

/-! ### What the phases keep -/

/-- What is buffered for the pair is true. -/
def TrueBuffer (v : DeltaFields δ F) (log : VenueLog F) (pair : String) (prelude : Prelude δ) :
    Prop := ∀ d ∈ (prelude.lookup pair).getD [], TrueEvent log (eventOf v d)

structure SessionTracks (V : Venue ι δ F) (log : VenueLog F) (pair : String) (s : Session δ F) :
    Prop where
  books : SessionOk log pair s.books
  buffer : TrueBuffer V.fields log pair s.prelude

theorem TrueBuffer.insert_of_ne {prelude : Prelude δ} (h : TrueBuffer v log pair prelude)
    {symbol : String} (hne : symbol ≠ pair) (ds : List δ) :
    TrueBuffer v log pair (prelude.insert symbol ds) := by
  intro d hd
  rw [AList.lookup_insert_ne (Ne.symm hne)] at hd
  exact h d hd

theorem TrueBuffer.push {prelude : Prelude δ} (h : TrueBuffer v log pair prelude)
    {symbol : String} {d : δ} (hd : symbol = pair → TrueEvent log (eventOf v d)) :
    TrueBuffer v log pair (prelude.push symbol d) := by
  by_cases hsym : symbol = pair
  · subst hsym
    intro d' hd'
    rw [Prelude.push, AList.lookup_insert, Option.getD_some, List.mem_append,
      List.mem_singleton] at hd'
    obtain hd' | rfl := hd'
    · exact h d' hd'
    · exact hd rfl
  · exact h.insert_of_ne hsym _

theorem TrueBuffer.drained {prelude : Prelude δ} (h : TrueBuffer v log pair prelude)
    (symbol : String) : TrueBuffer v log pair (prelude.insert symbol []) := by
  by_cases hsym : symbol = pair
  · subst hsym
    intro d hd
    rw [AList.lookup_insert, Option.getD_some] at hd
    cases hd
  · exact h.insert_of_ne hsym _

/-- The phase does not matter. -/
theorem SessionTracks.phase {s : Session δ F} (h : SessionTracks V log pair s) (phase : Phase) :
    SessionTracks V log pair { s with phase := phase } := ⟨h.books, h.buffer⟩

theorem SessionTracks.settle {s : Session δ F} (h : SessionTracks V log pair s) :
    SessionTracks V log pair (settle V pairs s) := by
  unfold SnapshotSessions.settle
  split
  · exact h.phase _
  · exact h

omit [F64 F] [LinearOrder F] in
theorem lookup_startPrelude (symbols : List String) (prelude : Prelude δ)
    (h : ∀ symbol, (prelude.lookup symbol).getD [] = []) (symbol : String) :
    ((symbols.foldl (fun prelude symbol => prelude.insert symbol []) prelude).lookup
      symbol).getD [] = [] := by
  induction symbols generalizing prelude with
  | nil => exact h symbol
  | cons first rest ih =>
    apply ih
    intro other
    by_cases hsym : other = first
    · rw [hsym, AList.lookup_insert, Option.getD_some]
    · rw [AList.lookup_insert_ne hsym]
      exact h other

theorem start_tracks : SessionTracks V log pair (start V pairs) := by
  apply SessionTracks.settle
  refine ⟨⟨?_, ?_⟩, ?_⟩
  · intro symbol book hbook
    dsimp only [startBooks] at hbook
    split_ifs at hbook
    rw [← Option.some.inj hbook]
    rfl
  · intro book hbook n hn
    dsimp only [startBooks] at hbook
    split_ifs at hbook
    rw [← Option.some.inj hbook] at hn
    cases hn
  · intro d hd
    dsimp only at hd
    rw [startPrelude, lookup_startPrelude _ _ (fun _ => rfl)] at hd
    cases hd

theorem bufferMessage_tracks {s : Session δ F} (h : SessionTracks V log pair s) {m : ι}
    (hm : ∀ d time, V.read m = some (pair, d, time) → TrueEvent log (eventOf V.fields d)) :
    SessionTracks V log pair (bufferMessage V pairs s m) := by
  unfold bufferMessage
  split
  · exact h
  · rename_i symbol d time hread
    apply SessionTracks.settle
    refine ⟨h.books, h.buffer.push ?_⟩
    rintro rfl
    exact hm d time hread

theorem bootstrapNext_tracks {s s' : Session δ F} (h : SessionTracks V log pair s)
    {next : String} {rest : List String} {fetched refetched : Option (RestSnapshot F)}
    (htrue : next = pair →
      (∀ snap, fetched = some snap → TrueSnapshot log snap ∧
        Unbroken V.fields snap.sequence ((s.prelude.lookup pair).getD [])) ∧
      ∀ snap, refetched = some snap → TrueSnapshot log snap)
    (hstep : bootstrapNext V s next rest fetched refetched = .ok s') :
    SessionTracks V log pair s' := by
  unfold bootstrapNext at hstep
  dsimp only at hstep
  split at hstep
  · cases hstep
  · rename_i book applied hboot
    obtain ⟨before, hbefore, hboot⟩ := Option.bind_eq_some_iff.mp hboot
    obtain rfl := Except.ok.inj hstep
    have hsymbol := (bootstrapPair_symbol hboot).trans (h.books.symbols next before hbefore)
    refine ⟨h.books.set hsymbol ?_, h.buffer.drained next⟩
    rintro rfl
    obtain ⟨hfetched, hrefetched⟩ := htrue rfl
    refine tracks_bootstrapPair hfetched ?_ h.buffer hboot
    intro snap hsnap
    split_ifs at hsnap
    exact hrefetched snap hsnap

/-- The verdict to apply a delta with a range is right: the range contains the next number. -/
def SoundVerdict (V : Venue ι δ F) : Prop :=
  ∀ localSeq d, V.verdict localSeq d = .apply → V.fields.first d ≤ V.fields.last d →
    RangeContinues V.fields localSeq d

/-- One live delta: the books stay in order, and what is emitted for the pair is the top of the
venue's book after the delta. -/
theorem liveDelta_tracks (hV : SoundVerdict V) {books books' : Books F}
    (h : SessionOk log pair books) {symbol : String} {d : δ} {time receivedAt : I64}
    {fetched : Option (RestSnapshot F)} {out : Option (OrderBookData F)}
    (htrue : symbol = pair →
      TrueDelta log V.fields d ∧ ∀ snap, fetched = some snap → TrueSnapshot log snap)
    (hstep : liveDelta V books symbol d time receivedAt fetched = .ok (books', out)) :
    SessionOk log pair books' ∧ ∀ data, out = some data →
      data.symbol = symbol ∧ (symbol = pair → TopOfVenue log (V.fields.last d).toNat data) := by
  unfold liveDelta at hstep
  split at hstep
  · obtain ⟨rfl, rfl⟩ := Prod.mk.inj (Except.ok.inj hstep)
    exact ⟨h, by simp⟩
  · rename_i book hbook
    have hsym := h.symbols symbol book hbook
    split at hstep
    · obtain ⟨rfl, rfl⟩ := Prod.mk.inj (Except.ok.inj hstep)
      exact ⟨h, by simp⟩
    · rename_i localSeq hseq
      split at hstep
      · obtain ⟨rfl, rfl⟩ := Prod.mk.inj (Except.ok.inj hstep)
        exact ⟨h, by simp⟩
      · cases hstep
      · split at hstep
        · rename_i snap
          obtain ⟨rfl, rfl⟩ := Prod.mk.inj (Except.ok.inj hstep)
          refine ⟨h.set hsym fun hp => ?_, by simp⟩
          exact Binance.tracks_snapshot ((htrue hp).2 snap rfl) _
        · obtain ⟨rfl, rfl⟩ := Prod.mk.inj (Except.ok.inj hstep)
          exact ⟨h.set hsym fun _ => Binance.tracks_clear log book, by simp⟩
      · rename_i hverdict
        obtain ⟨rfl, rfl⟩ := Prod.mk.inj (Except.ok.inj hstep)
        have hnew : symbol = pair → Tracks log (applyDelta V.fields book d) := by
          rintro rfl
          obtain ⟨hdelta, -⟩ := htrue rfl
          exact tracks_applyDelta (h.tracks book hbook) hseq hdelta.event
            (hV localSeq d hverdict hdelta.ordered)
        obtain ⟨hsame, hout⟩ := deliver_spec (applyDelta V.fields book d) time receivedAt
        refine ⟨h.set (hsame.symbol.trans hsym) fun hp => (hnew hp).same hsame, ?_⟩
        intro data hdata
        have htop := hout data hdata
        refine ⟨htop.symbol.trans hsym, fun hp => ?_⟩
        obtain ⟨hb, ha⟩ := hnew hp (V.fields.last d) rfl
        exact ⟨by rw [htop.bids, hb], by rw [htop.asks, ha]⟩

theorem labelOk_none (log : VenueLog F) (input : Input ι F) : LabelOk V log pair (input, none) := by
  intro out hout
  cases hout

theorem liveMessage_tracks (hV : SoundVerdict V) {s s' : Session δ F}
    (h : SessionTracks V log pair s) {m : ι} {receivedAt : I64}
    {fetched : Option (RestSnapshot F)} {out : Option (OrderBookData F)}
    (htrue : ∀ d time, V.read m = some (pair, d, time) →
      TrueDelta log V.fields d ∧ ∀ snap, fetched = some snap → TrueSnapshot log snap)
    (hstep : liveMessage V s m receivedAt fetched = .ok (s', out)) :
    SessionTracks V log pair s' ∧ LabelOk V log pair (.message m receivedAt fetched, out) := by
  unfold liveMessage at hstep
  split at hstep
  · obtain ⟨rfl, rfl⟩ := Prod.mk.inj (Except.ok.inj hstep)
    exact ⟨h, labelOk_none log _⟩
  · rename_i symbol d time hread
    cases hlive : liveDelta V s.books symbol d time receivedAt fetched with
    | error e =>
      rw [hlive] at hstep
      cases hstep
    | ok result =>
      obtain ⟨books', out'⟩ := result
      rw [hlive] at hstep
      obtain ⟨rfl, rfl⟩ := Prod.mk.inj (Except.ok.inj hstep)
      have hdelta : symbol = pair →
          TrueDelta log V.fields d ∧ ∀ snap, fetched = some snap → TrueSnapshot log snap := by
        rintro rfl
        exact htrue d time hread
      obtain ⟨hbooks, hemit⟩ := liveDelta_tracks hV h.books hdelta hlive
      refine ⟨⟨hbooks, h.buffer⟩, ?_⟩
      intro data hdata hpair
      obtain ⟨hsym, htop⟩ := hemit data hdata
      obtain rfl := hsym.symm.trans hpair
      exact ⟨m, receivedAt, fetched, d, time, rfl, hread, htop rfl⟩

/-- One step of the session. -/
theorem step_tracks (hV : SoundVerdict V) {s s' : Session δ F}
    {l : Input ι F × Option (OrderBookData F)} (h : SessionTracks V log pair s)
    (hstep : Step V pairs s l s') (htrue : TrueStep V log pair s l.1) :
    SessionTracks V log pair s' ∧ LabelOk V log pair l := by
  obtain ⟨input, out⟩ := l
  unfold Step step at hstep
  dsimp only at hstep htrue
  split at hstep
  · obtain ⟨rfl, rfl⟩ := Prod.mk.inj (Except.ok.inj (Option.some.inj hstep))
    refine ⟨bufferMessage_tracks h ?_, labelOk_none log _⟩
    intro d time hread
    exact (htrue d time hread).1.event
  · obtain ⟨rfl, rfl⟩ := Prod.mk.inj (Except.ok.inj (Option.some.inj hstep))
    exact ⟨h, labelOk_none log _⟩
  · obtain ⟨rfl, rfl⟩ := Prod.mk.inj (Except.ok.inj (Option.some.inj hstep))
    exact ⟨h.phase _, labelOk_none log _⟩
  · cases Option.some.inj hstep
  · rename_i next rest asked fetched refetched hphase
    split_ifs at hstep with hasked
    cases hboot : bootstrapNext V s next rest fetched refetched with
    | error e =>
      rw [hboot] at hstep
      cases Option.some.inj hstep
    | ok s₁ =>
      rw [hboot] at hstep
      obtain ⟨rfl, rfl⟩ := Prod.mk.inj (Except.ok.inj (Option.some.inj hstep))
      exact ⟨bootstrapNext_tracks h (fun hnext => htrue (hasked.trans hnext)) hboot,
        labelOk_none log _⟩
  · exact liveMessage_tracks hV h htrue (Option.some.inj hstep)
  · obtain ⟨rfl, rfl⟩ := Prod.mk.inj (Except.ok.inj (Option.some.inj hstep))
    exact ⟨h, labelOk_none log _⟩
  · cases Option.some.inj hstep
  · cases Option.some.inj hstep
  · cases hstep

/-- A collector with sound verdicts follows the venue over whole sessions. -/
theorem tracksVenue_of_sound (hV : SoundVerdict V) : TracksVenue V := by
  intro log pair pairs labels s run
  have hinv : (∀ l ∈ labels, LabelOk V log pair l) ∧ SessionTracks V log pair s := by
    induction run with
    | start => exact ⟨by simp, start_tracks⟩
    | step before now ih =>
      obtain ⟨hlabels, hok⟩ := ih
      obtain ⟨hok', hlabel⟩ := step_tracks hV hok now.1 now.2
      refine ⟨?_, hok'⟩
      intro l hl
      rcases List.mem_cons.mp hl with rfl | hl
      · exact hlabel
      · exact hlabels l hl
  exact ⟨hinv.1, hinv.2.books.tracks⟩

/-! ### The five venues -/

omit [F64 F] [LinearOrder F] in
/-- A range that starts right behind a number and is not empty contains the next one. -/
theorem rangeContinues_of_next {localSeq : UInt64} {d : δ} (hnext : HasNext localSeq)
    (hfirst : v.first d = localSeq + 1) (hordered : v.first d ≤ v.last d) :
    RangeContinues v localSeq d := by
  have hstart : (v.first d).toNat = localSeq.toNat + 1 := by rw [hfirst, toNat_succ hnext]
  rw [UInt64.le_iff_toNat_le] at hordered
  exact ⟨hstart.le, by omega⟩

omit [F64 F] [LinearOrder F] in
theorem hasNext_of_lt {n m : UInt64} (h : ¬ m ≤ n) : HasNext n := by
  have hbound := m.toNat_lt
  rw [UInt64.le_iff_toNat_le] at h
  unfold HasNext
  omega

omit [F64 F] [LinearOrder F] in
theorem strictVerdict_apply {localSeq : UInt64} {d : δ}
    (h : strictVerdict v localSeq d = .apply) :
    ¬ v.last d ≤ localSeq ∧ v.first d = localSeq + 1 := by
  unfold strictVerdict at h
  split_ifs at h with hstale hgap
  exact ⟨hstale, not_not.mp hgap⟩

omit [F64 F] [LinearOrder F] in
theorem strictVerdict_sound (hverdict : V.verdict = strictVerdict V.fields) : SoundVerdict V := by
  intro localSeq d happly hordered
  rw [hverdict] at happly
  obtain ⟨hstale, hfirst⟩ := strictVerdict_apply happly
  exact rangeContinues_of_next (hasNext_of_lt hstale) hfirst hordered

omit [F64 F] [LinearOrder F] in
theorem mexc_sound (r : TextReader F) (decode : List UInt8 → Option Mexc.PushDataV3ApiWrapper) :
    SoundVerdict (Mexc.venue r decode) := by
  intro localSeq d happly hordered
  change Mexc.verdict localSeq d = .apply at happly
  unfold Mexc.verdict at happly
  split_ifs at happly with hstale hgap
  have hnext := hasNext_of_lt hstale
  refine rangeContinues_of_next hnext ?_ hordered
  change d.fromVersion = localSeq + 1
  apply UInt64.toNat_inj.mp
  rw [UInt64.le_iff_toNat_le] at hstale
  rw [UInt64.lt_iff_toNat_lt] at hgap
  rw [toNat_succ hnext] at hgap ⊢
  omega

omit [LinearOrder F] in
theorem binance_sound (r : TextReader F) : SoundVerdict (BinanceDepth.venue r) := by
  intro localSeq d happly _
  change BinanceDepth.verdict localSeq d = .apply at happly
  unfold BinanceDepth.verdict at happly
  split_ifs at happly with hstale hgap
  exact rangeContinues_of_first (v := BinanceDepth.fields) hstale hgap

end Proofs

/-- Whole sessions of the five collectors, from the first buffered delta on. Whatever is lost,
repeated or swapped, and however often snapshots fail or have to be fetched again: if what the
venue says about a pair is true and each snapshot finds the buffer unbroken behind it, every
book emitted for the pair is the top of the venue's book after the delta just applied, and the
local book equals the venue's book after its number. -/
theorem snapshot_sessions_track_venue (r : TextReader F)
    (decode : List UInt8 → Option Mexc.PushDataV3ApiWrapper) :
    TracksVenue (Kucoin.venue r) ∧ TracksVenue (Xt.venue r) ∧
      TracksVenue (Mexc.venue r decode) ∧ TracksVenue (Orangex.venue r) ∧
      TracksVenue (BinanceDepth.venue r) :=
  ⟨tracksVenue_of_sound (strictVerdict_sound rfl), tracksVenue_of_sound (strictVerdict_sound rfl),
    tracksVenue_of_sound (mexc_sound r decode), tracksVenue_of_sound (strictVerdict_sound rfl),
    tracksVenue_of_sound (binance_sound r)⟩

section Example

def demoReader : TextReader ExtRat where
  fromStr text := some (.obj [("type", .str "message"), ("topic", .str "/market/level2:BTC-USDT"),
    ("data", .obj [("sequenceStart", .posInt (Binance.demoNumber text)),
      ("sequenceEnd", .posInt (Binance.demoNumber text)),
      ("time", .posInt 1672515782136), ("changes", .obj [
        ("bids", .arr [.arr [.posInt 99, .posInt (Binance.demoNumber text)]]),
        ("asks", .arr [])])])])
  parseFloat _ := none
  toUppercase := id
  toLowercase := id

def demoDelta (n : UInt64) : KucoinUpdate ExtRat := ⟨n, n, [(.fin 99, .fin n.toNat)], []⟩

theorem parse_demo (text : String) : (Kucoin.venue demoReader).read text =
    some ("BTC-USDT", demoDelta (Binance.demoNumber text), I64.wrap 1672515782136) := rfl

def demoSnapshot : RestSnapshot ExtRat := ⟨1, [(.fin 99, .fin 1)], [(.fin 101, .fin 1)]⟩

theorem demoSnapshot_true : TrueSnapshot Binance.demoLog demoSnapshot := by
  intro side p q
  rw [Ladder.get?_eq_some]
  cases side with
  | bid =>
    have hentries : (Binance.demoLog.after .bid 1).entries = [(.fin 99, .fin 1)] := by
      decide +kernel
    exact (Iff.of_eq (congrArg ((p, q) ∈ ·) hentries)).symm
  | ask =>
    have hentries : (Binance.demoLog.after .ask 1).entries = [(.fin 101, .fin 1)] := by
      decide +kernel
    exact (Iff.of_eq (congrArg ((p, q) ∈ ·) hentries)).symm

def demoMessage (text : String) : Input String ExtRat :=
  .message text (I64.wrap 1672515782200) none

/-- Two deltas are buffered until the time is up, and the snapshot is the book before them. -/
def demoInputs : List (Input String ExtRat × Option (OrderBookData ExtRat)) :=
  [(.snapshots "BTC-USDT" (some demoSnapshot) none, none), (.deadline, none),
    (demoMessage "third", none), (demoMessage "second", none)]

def demoPrelude : Prelude (KucoinUpdate ExtRat) :=
  ((startPrelude (Kucoin.venue demoReader) ["BTC-USDT"]).push "BTC-USDT" (demoDelta 2)).push
    "BTC-USDT" (demoDelta 3)

/-- The session after its snapshot. -/
def demoSession : Session (KucoinUpdate ExtRat) ExtRat where
  phase := .live
  books := (startBooks (Kucoin.venue demoReader) ["BTC-USDT"]).set "BTC-USDT"
    (applyDelta kucoin (applyDelta kucoin ((LocalBook.new "kucoin" "BTC-USDT").applySnapshot
      demoSnapshot.bids demoSnapshot.asks (some 1)) (demoDelta 2)) (demoDelta 3))
  prelude := demoPrelude.insert "BTC-USDT" []

theorem demo_message_true (s : Session (KucoinUpdate ExtRat) ExtRat) (text : String) :
    TrueStep (Kucoin.venue demoReader) Binance.demoLog "BTC-USDT" s (demoMessage text) := by
  intro d time hread
  rw [parse_demo] at hread
  obtain ⟨-, hd⟩ := Prod.mk.inj (Option.some.inj hread)
  rw [← (Prod.mk.inj hd).1]
  have htrue := Binance.demoEvent_true (Binance.demoNumber_cases text)
  exact ⟨⟨UInt64.le_refl _, htrue.rows_true, htrue.covers⟩, by simp⟩

theorem demo_run : Always (start (Kucoin.venue demoReader) ["BTC-USDT"])
    (Step (Kucoin.venue demoReader) ["BTC-USDT"])
    (fun s l _ => TrueStep (Kucoin.venue demoReader) Binance.demoLog "BTC-USDT" s l.1)
    demoInputs demoSession := by
  refine .step (.step (.step (.step .start ⟨rfl, demo_message_true _ _⟩)
    ⟨rfl, demo_message_true _ _⟩) ⟨rfl, trivial⟩) ⟨rfl, ?_⟩
  intro _
  refine ⟨?_, by simp⟩
  rintro snap hsnap
  obtain rfl := Option.some.inj hsnap
  have hbuffer : (demoPrelude.lookup "BTC-USDT").getD [] = [demoDelta 2, demoDelta 3] := rfl
  refine ⟨demoSnapshot_true, ?_⟩
  change Unbroken kucoin 1 ((demoPrelude.lookup "BTC-USDT").getD [])
  rw [hbuffer]
  exact .cons_cons ⟨by decide, by decide⟩ (.singleton _)

/-- A live delta brings update 4 behind the buffered ones. -/
theorem snapshot_sessions_track_venue_demo :
    ∃ out s, Always (start (Kucoin.venue demoReader) ["BTC-USDT"])
        (Step (Kucoin.venue demoReader) ["BTC-USDT"])
        (fun s l _ => TrueStep (Kucoin.venue demoReader) Binance.demoLog "BTC-USDT" s l.1)
        ((demoMessage "fourth", some out) :: demoInputs) s ∧
      LabelOk (Kucoin.venue demoReader) Binance.demoLog "BTC-USDT"
        (demoMessage "fourth", some out) ∧
      ∀ book, s.books "BTC-USDT" = some book → Tracks Binance.demoLog book := by
  have hemits : (deliver (applyDelta kucoin (applyDelta kucoin (applyDelta kucoin
      ((LocalBook.new "kucoin" "BTC-USDT").applySnapshot demoSnapshot.bids demoSnapshot.asks
        (some 1)) (demoDelta 2)) (demoDelta 3)) (demoDelta 4)) (I64.wrap 1672515782136)
      (I64.wrap 1672515782200)).2.isSome = true := by decide +kernel
  obtain ⟨out, hout⟩ := Option.isSome_iff_exists.mp hemits
  have hlive : ∃ s, liveMessage (Kucoin.venue demoReader) demoSession "fourth"
      (I64.wrap 1672515782200) none = .ok (s, some out) := ⟨_, by rw [← hout]; rfl⟩
  obtain ⟨s, hs⟩ := hlive
  have run := demo_run.step (l := (demoMessage "fourth", some out))
    ⟨congrArg some hs, demo_message_true _ _⟩
  obtain ⟨hlabels, htracks⟩ := (snapshot_sessions_track_venue demoReader fun _ => none).1
    Binance.demoLog "BTC-USDT" ["BTC-USDT"] _ s run
  exact ⟨out, s, run, hlabels _ List.mem_cons_self, htracks⟩

end Example

end Nuntius.SnapshotSessions
