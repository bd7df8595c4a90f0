import Mathlib.Data.List.Perm.Subperm
import Nuntius.PushedFeeds

/-!
# The BitMart session

A text carries several items, each a snapshot or an update of one instrument. Updates that
arrive before the first snapshot are buffered and applied behind it. The numbers are
consecutive; on a gap the session ends. The loop works through the items of a text before it
takes the next one, so an item is a step of its own.
-/

namespace Nuntius.Bitmart
open Collectors JsonTrees CobCommon LabelledRuns SequenceChains

variable {F : Type} [F64 F] [LinearOrder F]

inductive Kind where
  | snapshot
  | update
  | other
  deriving DecidableEq

/-- How a session ends. -/
inductive Fault where
  | failed (reason : String)
  | panicked

/-! ### The collector -/

def readKind : String → Kind
  | "snapshot" => .snapshot
  | "update" => .update
  | _ => .other

/-- The items of a text, none for texts of another kind. -/
def itemsOf (r : TextReader F) (text : String) : List (JsonTree F) :=
  if text = "pong" then []
  else
    match r.fromStr text with
    | none => []
    | some v =>
      if (v.get "table").bind JsonTree.asStr = some "spot/depth/increase100" then
        ((v.get "data").bind JsonTree.asArray).getD []
      else []

def parseItem (r : TextReader F) (d : JsonTree F) : Option (Received F Kind) := do
  let symbol ← (d.get "symbol").bind JsonTree.asStr
  let version ← (d.get "version").bind parseU64
  some
    { instrument := r.toUppercase symbol
      exchTs := parseExchTs (d.get "ms_t")
      frame :=
        { tag := readKind (((d.get "type").bind JsonTree.asStr).getD "")
          seq := version
          bids := parseLevels r (d.get "bids")
          asks := parseLevels r (d.get "asks") } }

/-- The number after `n`; a build with overflow checks panics at the largest one. -/
def succVersion (checks : Bool) (n : UInt64) : Except Fault UInt64 :=
  if checks && n.toNat == 2 ^ 64 - 1 then .error .panicked else .ok (n + 1)

/-- `seq.unwrap()`. -/
def unwrapSeq : Option UInt64 → Except Fault UInt64
  | some s => .ok s
  | none => .error .panicked

/-- Apply what was buffered before the snapshot with the number `version`. -/
def drain (checks : Bool) (version : UInt64) :
    Feed F Kind → List (BookFrame F Kind) → Except Fault (Feed F Kind)
  | feed, [] => .ok feed
  | feed, u :: pending =>
    if u.seq ≤ version then drain checks version feed pending
    else do
      let next ← (unwrapSeq feed.book.seq).bind (succVersion checks)
      if u.seq ≠ next then .error (.failed "bitmart bootstrap gap")
      else drain checks version (feed.extend u) pending

/-- The books, and the updates buffered for each instrument. -/
structure Desk (F : Type) [LinearOrder F] where
  feeds : Feeds F Kind
  buf : String → List (BookFrame F Kind)

/-- Store the book of an instrument and hand it over once it is ready. -/
def Desk.publish (desk : Desk F) (m : Received F Kind) (receivedAt : I64) (feed : Feed F Kind) :
    Desk F × Option (OrderBookData F) :=
  if feed.book.isReady then
    let delivered := feed.deliver m.exchTs receivedAt
    ({ desk with feeds := desk.feeds.set m.instrument delivered.1 }, delivered.2)
  else ({ desk with feeds := desk.feeds.set m.instrument feed }, none)

def Desk.buffer (desk : Desk F) (symbol : String) (pending : List (BookFrame F Kind)) : Desk F :=
  { desk with buf := Function.update desk.buf symbol pending }

omit [F64 F] in
@[simp] theorem buffer_buf_same (desk : Desk F) (symbol : String)
    (pending : List (BookFrame F Kind)) : (desk.buffer symbol pending).buf symbol = pending :=
  Function.update_self (β := fun _ => List (BookFrame F Kind)) symbol pending desk.buf

omit [F64 F] in
theorem buffer_buf_of_ne (desk : Desk F) {symbol other : String} (h : other ≠ symbol)
    (pending : List (BookFrame F Kind)) :
    (desk.buffer symbol pending).buf other = desk.buf other :=
  Function.update_of_ne (β := fun _ => List (BookFrame F Kind)) h pending desk.buf

def onItem (checks : Bool) (desk : Desk F) (m : Received F Kind) (receivedAt : I64) :
    Except Fault (Desk F × Option (OrderBookData F)) :=
  match desk.feeds m.instrument with
  | none => .ok (desk, none)
  | some feed =>
    match m.frame.tag with
    | .snapshot => do
      let drained ← drain checks m.frame.seq (feed.anchor m.frame) (desk.buf m.instrument)
      .ok ((desk.buffer m.instrument []).publish m receivedAt drained)
    | .update =>
      match feed.book.seq with
      | none => .ok (desk.buffer m.instrument (desk.buf m.instrument ++ [m.frame]), none)
      | some localSeq =>
        if m.frame.seq ≤ localSeq then .ok (desk, none)
        else do
          let next ← succVersion checks localSeq
          if m.frame.seq ≠ next then .error (.failed "bitmart gap")
          else .ok (desk.publish m receivedAt (feed.extend m.frame))
    | .other => .ok (desk, none)

/-- The desk with the items of the current text that are still to be worked off. -/
structure Session (F : Type) [LinearOrder F] where
  desk : Desk F
  items : List (JsonTree F)
  receivedAt : I64

/-- What the session does next: take a text, work off an item, see something that leaves the
books alone, or end. -/
inductive Input (F : Type) where
  | text (text : String) (receivedAt : I64)
  | item (d : JsonTree F)
  | quiet
  | closed
  | broken (error : String)
  | pingFailed

/-- Items come from the current text, in their order; everything else waits for them. -/
def Input.Ready (session : Session F) : Input F → Prop
  | .item d => session.items.head? = some d
  | _ => session.items = []

def sessionStep (r : TextReader F) (checks : Bool) (session : Session F) :
    Input F → Except Fault (Session F × Option (OrderBookData F))
  | .text text receivedAt => .ok (⟨session.desk, itemsOf r text, receivedAt⟩, none)
  | .item d =>
    match parseItem r d with
    | none => .ok ({ session with items := session.items.tail }, none)
    | some m => do
      let (desk, out) ← onItem checks session.desk m session.receivedAt
      .ok ({ session with desk, items := session.items.tail }, out)
  | .quiet => .ok (session, none)
  | .closed => .error (.failed "WS closed")
  | .broken error => .error (.failed ("WS error: " ++ error))
  | .pingFailed => .error (.failed "ping send failed")

/-- A step of the session, labelled with its input and what it emits. -/
structure SessionStep (r : TextReader F) (checks : Bool) (session : Session F)
    (l : Input F × Option (OrderBookData F)) (session' : Session F) : Prop where
  ready : l.1.Ready session
  result : sessionStep r checks session l.1 = .ok (session', l.2)

def startSession (r : TextReader F) (pairs : List String) : Session F :=
  ⟨⟨startFeeds "bitmart" (pairs.map r.toUppercase), fun _ => []⟩, [], I64.wrap 0⟩

/-- A session with the venue, from subscribing on. -/
abbrev SessionRun (r : TextReader F) (checks : Bool) (pairs : List String) :=
  Run (startSession r pairs) (SessionStep r checks)

/-- The frame in an input. -/
def Input.read (r : TextReader F) : Input F → Option (Received F Kind)
  | .item d => parseItem r d
  | _ => none

/-! ### Chains -/

/-- Updates are numbered consecutively. -/
def rule : FeedRule F Kind where
  isAnchor f := f.tag = .snapshot
  continues s f := f.tag = .update ∧ f.seq.toNat = s.toNat + 1

theorem succVersion_of_hasNext {checks : Bool} {n : UInt64} (h : HasNext n) :
    succVersion checks n = .ok (n + 1) := by
  have hne : (n.toNat == 2 ^ 64 - 1) = false := beq_false_of_ne h.ne
  rw [succVersion, hne, Bool.and_false]
  rfl

/-- Draining, step by step: behind an anchor there is a local number with a successor. -/
theorem drain_cons {checks : Bool} {version s : UInt64} {feed : Feed F Kind}
    (hseq : feed.book.seq = some s) (hs : HasNext s) (u : BookFrame F Kind)
    (pending : List (BookFrame F Kind)) :
    drain checks version feed (u :: pending) =
      if u.seq ≤ version then drain checks version feed pending
      else if u.seq ≠ s + 1 then .error (.failed "bitmart bootstrap gap")
      else drain checks version (feed.extend u) pending := by
  rw [drain, hseq, unwrapSeq, Except.bind, succVersion_of_hasNext hs]
  rfl

/-- The result of draining: some of the buffered updates extend the chain, in their order. -/
structure Drained (feed : Feed F Kind) (pending : List (BookFrame F Kind)) (feed' : Feed F Kind) :
    Prop where
  symbol : feed'.book.symbol = feed.book.symbol
  chained : feed'.Chained rule
  ready : ∃ s, feed'.book.seq = some s
  applied : ∃ used, used.Sublist pending ∧ feed'.applied = feed.applied ++ used

theorem drain_spec {checks : Bool} {version s : UInt64} {feed : Feed F Kind}
    {pending : List (BookFrame F Kind)} (hchained : feed.Chained rule)
    (hseq : feed.book.seq = some s) (hs : HasNext s) (htags : ∀ u ∈ pending, u.tag = .update)
    (hnext : ∀ u ∈ pending, HasNext u.seq) :
    drain checks version feed pending = .error (.failed "bitmart bootstrap gap") ∨
      ∃ feed', drain checks version feed pending = .ok feed' ∧ Drained feed pending feed' := by
  induction pending generalizing feed s with
  | nil => exact .inr ⟨feed, rfl, rfl, hchained, ⟨s, hseq⟩, [], List.Sublist.refl _, by simp⟩
  | cons u pending ih =>
    have htags' : ∀ v ∈ pending, v.tag = .update := fun v hv => htags v (List.mem_cons_of_mem u hv)
    have hnext' : ∀ v ∈ pending, HasNext v.seq := fun v hv => hnext v (List.mem_cons_of_mem u hv)
    rw [drain_cons hseq hs]
    split_ifs with hstale hgap
    · rcases ih hchained hseq hs htags' hnext' with hfail | ⟨feed', hok, hdrained⟩
      · exact .inl hfail
      · obtain ⟨used, hused, happlied⟩ := hdrained.applied
        exact .inr ⟨feed', hok, hdrained.symbol, hdrained.chained, hdrained.ready, used,
          hused.cons u, happlied⟩
    · exact .inl rfl
    · have hu : rule.continues s u :=
        ⟨htags u List.mem_cons_self, by rw [not_not.mp hgap, toNat_succ hs]⟩
      rcases ih (hchained.extend hseq hu) rfl (hnext u List.mem_cons_self) htags' hnext' with
        hfail | ⟨feed', hok, hdrained⟩
      · exact .inl hfail
      · obtain ⟨used, hused, happlied⟩ := hdrained.applied
        refine .inr ⟨feed', hok, hdrained.symbol, hdrained.chained, hdrained.ready, u :: used,
          hused.cons_cons u, ?_⟩
        rw [happlied, Feed.extend, List.append_assoc, List.singleton_append]

/-- A feed in order with its buffer: what is on record and what is buffered are different
receptions. -/
structure FeedOk (received pending : List (BookFrame F Kind)) (symbol : String)
    (feed : Feed F Kind) : Prop where
  symbol : feed.book.symbol = symbol
  chained : feed.Chained rule
  buffered : ∀ u ∈ pending, u.tag = .update
  recorded : (feed.applied ++ pending).Subperm received

section Steps
variable {received pending : List (BookFrame F Kind)} {symbol : String} {feed : Feed F Kind}

theorem FeedOk.receive (h : FeedOk received pending symbol feed)
    (more : List (BookFrame F Kind)) : FeedOk (received ++ more) pending symbol feed :=
  ⟨h.symbol, h.chained, h.buffered,
    h.recorded.trans (List.sublist_append_left _ _).subperm⟩

/-- The local number has a successor if all received numbers have. -/
theorem FeedOk.hasNext (h : FeedOk received pending symbol feed)
    (hlegal : ∀ f ∈ received, HasNext f.seq) {s : UInt64} (hseq : feed.book.seq = some s) :
    HasNext s := by
  obtain ⟨f, hf, rfl⟩ := h.chained.exists_seq hseq
  exact hlegal f (h.recorded.subset (List.mem_append_left _ hf))

theorem FeedOk.pending_hasNext (h : FeedOk received pending symbol feed)
    (hlegal : ∀ f ∈ received, HasNext f.seq) : ∀ u ∈ pending, HasNext u.seq :=
  fun u hu => hlegal u (h.recorded.subset (List.mem_append_right _ hu))

/-- An update is buffered. -/
theorem FeedOk.push (h : FeedOk received pending symbol feed) {f : BookFrame F Kind}
    (htag : f.tag = .update) : FeedOk (received ++ [f]) (pending ++ [f]) symbol feed where
  symbol := h.symbol
  chained := h.chained
  buffered u hu := by
    rcases List.mem_append.mp hu with hu | hu
    · exact h.buffered u hu
    · rwa [List.mem_singleton.mp hu]
  recorded := by
    rw [← List.append_assoc]
    exact h.recorded.append (List.Subperm.refl [f])

/-- An update extends the chain. -/
theorem FeedOk.extend (h : FeedOk received pending symbol feed) {s : UInt64}
    (hseq : feed.book.seq = some s) {f : BookFrame F Kind} (hf : rule.continues s f) :
    FeedOk (received ++ [f]) pending symbol (feed.extend f) where
  symbol := h.symbol
  chained := h.chained.extend hseq hf
  buffered := h.buffered
  recorded := by
    have happend := h.recorded.append (List.Subperm.refl [f])
    have hperm : (feed.applied ++ [f] ++ pending).Perm (feed.applied ++ pending ++ [f]) := by
      rw [List.append_assoc, List.append_assoc]
      exact List.perm_append_comm.append_left feed.applied
    exact hperm.subperm.trans happend

/-- A snapshot and what was buffered before it. -/
theorem FeedOk.drained (h : FeedOk received pending symbol feed) {f : BookFrame F Kind}
    {feed' : Feed F Kind} (hd : Drained (feed.anchor f) pending feed') :
    FeedOk (received ++ [f]) [] symbol feed' where
  symbol := hd.symbol.trans h.symbol
  chained := hd.chained
  buffered u hu := by cases hu
  recorded := by
    obtain ⟨used, hused, happlied⟩ := hd.applied
    have hreceived : used.Subperm received :=
      hused.subperm.trans ((List.sublist_append_right _ _).subperm.trans h.recorded)
    have happend := hreceived.append (List.Subperm.refl [f])
    rw [List.append_nil, happlied]
    have hcomm : ([f] ++ used).Perm (used ++ [f]) := List.perm_append_comm
    exact hcomm.subperm.trans happend

/-! ### Items -/

/-- What an item does to the feed and the buffer of its instrument, and what it emits. -/
structure ItemOutcome (received : List (BookFrame F Kind)) (symbol : String) (desk desk' : Desk F)
    (out : Option (OrderBookData F)) : Prop where
  otherFeeds : ∀ s, s ≠ symbol → desk'.feeds s = desk.feeds s
  otherBuffers : ∀ s, s ≠ symbol → desk'.buf s = desk.buf s
  own : ∀ feed, desk'.feeds symbol = some feed → FeedOk received (desk'.buf symbol) symbol feed
  emitted : ∀ d, out = some d → d.symbol = symbol ∧
    ∃ feed a ds, desk'.feeds symbol = some feed ∧ feed.applied = a :: ds ∧ FromChain rule a ds d

variable {desk desk' : Desk F} {out : Option (OrderBookData F)}

/-- Nothing is done with the item. -/
theorem itemOutcome_keep
    (hok : ∀ feed, desk.feeds symbol = some feed → FeedOk received (desk.buf symbol) symbol feed)
    (f : BookFrame F Kind) : ItemOutcome (received ++ [f]) symbol desk desk none where
  otherFeeds _ _ := rfl
  otherBuffers _ _ := rfl
  own feed hfeed := (hok feed hfeed).receive [f]
  emitted d hd := by cases hd

/-- The buffer of the instrument may be changed before. -/
theorem ItemOutcome.of_buffer {p : List (BookFrame F Kind)}
    (h : ItemOutcome received symbol (desk.buffer symbol p) desk' out) :
    ItemOutcome received symbol desk desk' out where
  otherFeeds := h.otherFeeds
  otherBuffers s hs := (h.otherBuffers s hs).trans (buffer_buf_of_ne desk hs p)
  own := h.own
  emitted := h.emitted

/-- A book that is ready is handed over from its chain. -/
theorem publish_outcome {m : Received F Kind}
    (h : FeedOk received (desk.buf m.instrument) m.instrument feed) {s : UInt64}
    (hseq : feed.book.seq = some s) (receivedAt : I64) :
    ItemOutcome received m.instrument desk (desk.publish m receivedAt feed).1
      (desk.publish m receivedAt feed).2 := by
  have hsame := (deliver_spec feed.book m.exchTs receivedAt).1
  unfold Desk.publish
  split_ifs with hready
  · refine ⟨fun t ht => Instruments.set_of_ne _ ht _, fun _ _ => rfl, ?_, ?_⟩
    · intro feed' hfeed'
      obtain rfl := Instruments.eq_of_set_same hfeed'
      exact ⟨hsame.symbol.trans h.symbol, h.chained.deliver _ _, h.buffered, h.recorded⟩
    · intro d hd
      obtain ⟨hsym, hchain⟩ := deliver_emits h.chained hseq hd desk.feeds m.instrument
      exact ⟨hsym.trans h.symbol, hchain⟩
  · refine ⟨fun t ht => Instruments.set_of_ne _ ht _, fun _ _ => rfl, ?_, by simp⟩
    intro feed' hfeed'
    obtain rfl := Instruments.eq_of_set_same hfeed'
    exact h

/-- The item fails the session without a panic, or leaves the desk in order. -/
def ItemSafe (received : List (BookFrame F Kind)) (checks : Bool) (desk : Desk F)
    (m : Received F Kind) (receivedAt : I64) : Prop :=
  (∃ reason, onItem checks desk m receivedAt = .error (.failed reason)) ∨
    ∃ desk' out, onItem checks desk m receivedAt = .ok (desk', out) ∧
      ItemOutcome (received ++ [m.frame]) m.instrument desk desk' out

variable {checks : Bool} {m : Received F Kind} {receivedAt : I64}

/-- A snapshot with what was buffered before it. -/
theorem onItem_snapshot (hfeed : desk.feeds m.instrument = some feed)
    (htag : m.frame.tag = .snapshot)
    (h : FeedOk received (desk.buf m.instrument) m.instrument feed)
    (hlegal : ∀ f ∈ received, HasNext f.seq) (hnext : HasNext m.frame.seq) :
    ItemSafe received checks desk m receivedAt := by
  have hanchor : (feed.anchor m.frame).Chained rule := chained_anchor htag
  have hitem : onItem checks desk m receivedAt =
      (drain checks m.frame.seq (feed.anchor m.frame) (desk.buf m.instrument)).bind
        fun drained => .ok ((desk.buffer m.instrument []).publish m receivedAt drained) := by
    unfold onItem
    rw [hfeed]
    dsimp only
    rw [htag]
    rfl
  rcases drain_spec hanchor rfl hnext h.buffered (h.pending_hasNext hlegal) with
    hfail | ⟨feed', hok, hdrained⟩
  · rw [ItemSafe, hitem, hfail]
    exact .inl ⟨_, rfl⟩
  · rw [ItemSafe, hitem, hok]
    obtain ⟨s, hseq⟩ := hdrained.ready
    have hnew : FeedOk (received ++ [m.frame]) ((desk.buffer m.instrument []).buf m.instrument)
        m.instrument feed' := by
      rw [buffer_buf_same]
      exact h.drained hdrained
    exact .inr ⟨_, _, rfl, (publish_outcome hnew hseq receivedAt).of_buffer⟩

/-- An update before the first snapshot is buffered, a stale one skipped, any other one must be
the next. -/
theorem onItem_update (hfeed : desk.feeds m.instrument = some feed) (htag : m.frame.tag = .update)
    (hok : ∀ feed, desk.feeds m.instrument = some feed →
      FeedOk received (desk.buf m.instrument) m.instrument feed)
    (hlegal : ∀ f ∈ received, HasNext f.seq) :
    ItemSafe received checks desk m receivedAt := by
  have h := hok feed hfeed
  unfold ItemSafe onItem
  rw [hfeed]
  dsimp only
  rw [htag]
  dsimp only
  split
  · refine .inr ⟨_, _, rfl, fun _ _ => rfl, fun s hs => buffer_buf_of_ne desk hs _, ?_, by simp⟩
    intro feed' hfeed'
    obtain rfl : feed = feed' := Option.some.inj (hfeed.symm.trans hfeed')
    rw [buffer_buf_same]
    exact h.push htag
  · rename_i localSeq hseq
    have hs := h.hasNext hlegal hseq
    split_ifs with hstale
    · exact .inr ⟨_, _, rfl, itemOutcome_keep hok m.frame⟩
    · rw [succVersion_of_hasNext hs]
      by_cases hgap : m.frame.seq = localSeq + 1
      · have hcontinues : rule.continues localSeq m.frame := ⟨htag, by rw [hgap, toNat_succ hs]⟩
        refine .inr ⟨_, _, if_neg (not_not.mpr hgap), ?_⟩
        exact publish_outcome (h.extend hseq hcontinues) rfl receivedAt
      · exact .inl ⟨_, if_pos hgap⟩

theorem onItem_outcome (hok : ∀ feed, desk.feeds m.instrument = some feed →
      FeedOk received (desk.buf m.instrument) m.instrument feed)
    (hlegal : ∀ f ∈ received ++ [m.frame], HasNext f.seq) :
    ItemSafe received checks desk m receivedAt := by
  have hlegal' : ∀ f ∈ received, HasNext f.seq := fun f hf => hlegal f (List.mem_append_left _ hf)
  cases hfeed : desk.feeds m.instrument with
  | none =>
    refine .inr ⟨desk, none, ?_, itemOutcome_keep hok m.frame⟩
    unfold onItem
    rw [hfeed]
  | some feed =>
    cases htag : m.frame.tag with
    | snapshot => exact onItem_snapshot hfeed htag (hok feed hfeed) hlegal' (hlegal _ (by simp))
    | update => exact onItem_update hfeed htag hok hlegal'
    | other =>
      refine .inr ⟨desk, none, ?_, itemOutcome_keep hok m.frame⟩
      unfold onItem
      rw [hfeed]
      dsimp only
      rw [htag]

end Steps

/-! ### Sessions -/

/-- Every feed of the session is in order. -/
def SessionOk (r : TextReader F) (labels : List (Input F × Option (OrderBookData F)))
    (session : Session F) : Prop :=
  ∀ symbol feed, session.desk.feeds symbol = some feed →
    FeedOk (receivedFrames (Input.read r) symbol labels) (session.desk.buf symbol) symbol feed

/-- The message was emitted for its instrument from the chain on record, which consists of
frames received for the instrument, each once. Those buffered before the snapshot stand behind
it. -/
def EmittedFromChain (r : TextReader F) (labels : List (Input F × Option (OrderBookData F)))
    (session : Session F) (d : OrderBookData F) : Prop :=
  ∃ feed a ds, session.desk.feeds d.symbol = some feed ∧ feed.applied = a :: ds ∧
    FromChain rule a ds d ∧ (a :: ds).Subperm (receivedFrames (Input.read r) d.symbol labels)

section SessionProofs
variable {r : TextReader F} {checks : Bool} {session : Session F}
  {older : List (Input F × Option (OrderBookData F))}

/-- A step with a frame in its input is that of the item, any other step leaves the desk alone
or ends the session. -/
theorem sessionStep_cases (input : Input F) :
    (∃ reason, sessionStep r checks session input = .error (.failed reason)) ∨
      (Input.read r input = none ∧ ∃ session', sessionStep r checks session input =
        .ok (session', none) ∧ session'.desk = session.desk) ∨
      ∃ m, Input.read r input = some m ∧ sessionStep r checks session input =
        (onItem checks session.desk m session.receivedAt).bind fun p =>
          .ok ({ session with desk := p.1, items := session.items.tail }, p.2) := by
  cases input with
  | text text receivedAt => exact .inr (.inl ⟨rfl, _, rfl, rfl⟩)
  | item d =>
    cases hparse : parseItem r d with
    | none =>
      refine .inr (.inl ⟨hparse, { session with items := session.items.tail }, ?_, rfl⟩)
      unfold sessionStep
      dsimp only
      rw [hparse]
    | some m =>
      refine .inr (.inr ⟨m, hparse, ?_⟩)
      unfold sessionStep
      dsimp only
      rw [hparse]
      rfl
  | quiet => exact .inr (.inl ⟨rfl, session, rfl, rfl⟩)
  | closed => exact .inl ⟨_, rfl⟩
  | broken error => exact .inl ⟨_, rfl⟩
  | pingFailed => exact .inl ⟨_, rfl⟩

/-- A step fails without a panic, or keeps the session in order and emits from a chain. -/
theorem sessionStep_outcome {input : Input F} (hok : SessionOk r older session)
    (hlegal : LegalNumbers (Input.read r) HasNext ((input, none) :: older)) :
    (∃ reason, sessionStep r checks session input = .error (.failed reason)) ∨
      ∃ session' out, sessionStep r checks session input = .ok (session', out) ∧
        SessionOk r ((input, out) :: older) session' ∧
        ∀ d, out = some d → EmittedFromChain r ((input, out) :: older) session' d := by
  rcases sessionStep_cases input with hfail | ⟨hread, session', hstep, hdesk⟩ | ⟨m, hread, hstep⟩
  · exact .inl hfail
  · refine .inr ⟨session', none, hstep, ?_, by simp⟩
    intro symbol feed hfeed
    rw [hdesk] at hfeed ⊢
    rw [receivedFrames_cons_none hread]
    exact hok symbol feed hfeed
  · have hlegalOwn := hlegal m.instrument
    rw [receivedFrames_cons_own hread] at hlegalOwn
    rcases onItem_outcome (hok m.instrument) hlegalOwn with
      ⟨reason, hfail⟩ | ⟨desk', out, hitem, houtcome⟩
    · rw [hstep, hfail]
      exact .inl ⟨reason, rfl⟩
    · rw [hstep, hitem]
      refine .inr ⟨_, out, rfl, ?_, ?_⟩
      · intro symbol feed hfeed
        by_cases hs : symbol = m.instrument
        · subst hs
          rw [receivedFrames_cons_own hread]
          exact houtcome.own feed hfeed
        · rw [receivedFrames_cons_other hread hs]
          dsimp only at hfeed ⊢
          rw [houtcome.otherFeeds symbol hs] at hfeed
          rw [houtcome.otherBuffers symbol hs]
          exact hok symbol feed hfeed
      · intro d hd
        obtain ⟨hsym, feed, a, ds, hfeed, happlied, hfrom⟩ := houtcome.emitted d hd
        have hrecorded := (houtcome.own feed hfeed).recorded
        rw [happlied] at hrecorded
        refine ⟨feed, a, ds, hsym ▸ hfeed, happlied, hfrom, ?_⟩
        rw [hsym, receivedFrames_cons_own hread]
        exact (List.sublist_append_left _ _).subperm.trans hrecorded

theorem startSession_ok (pairs : List String) : SessionOk r [] (startSession r pairs) := by
  intro symbol feed hfeed
  obtain rfl := startFeeds_eq_some hfeed
  exact ⟨rfl, chained_new _ _, by simp [startSession], List.Subperm.refl _⟩

/-- What a successful step leads to. -/
theorem SessionStep.outcome {session' : Session F} {l : Input F × Option (OrderBookData F)}
    (h : SessionStep r checks session l session') (hok : SessionOk r older session)
    (hlegal : LegalNumbers (Input.read r) HasNext (l :: older)) :
    SessionOk r (l :: older) session' ∧
      ∀ d, l.2 = some d → EmittedFromChain r (l :: older) session' d := by
  rcases sessionStep_outcome hok hlegal with
    ⟨reason, hfail⟩ | ⟨session'', out, hstep, hkept⟩
  · rw [h.result] at hfail
    cases hfail
  · rw [h.result] at hstep
    obtain ⟨rfl, rfl⟩ := Prod.mk.inj (Except.ok.inj hstep)
    exact hkept

/-- After every run the feeds are in order. -/
theorem run_ok {pairs : List String} {labels : List (Input F × Option (OrderBookData F))}
    (run : SessionRun r checks pairs labels session)
    (hlegal : LegalNumbers (Input.read r) HasNext labels) : SessionOk r labels session := by
  induction run with
  | start => exact startSession_ok pairs
  | step before now ih => exact (now.outcome (ih hlegal.older) hlegal).1

/-- Every message a run emits comes from an unbroken chain. -/
theorem emitted_from_chain {pairs : List String} {input : Input F} {d : OrderBookData F}
    (run : SessionRun r checks pairs ((input, some d) :: older) session)
    (hlegal : LegalNumbers (Input.read r) HasNext ((input, some d) :: older)) :
    EmittedFromChain r ((input, some d) :: older) session d := by
  cases run with
  | step before now => exact (now.outcome (run_ok before hlegal.older) hlegal).2 d rfl

/-- Nothing the venue sends makes the session panic. -/
theorem never_panics {pairs : List String} {input : Input F} (out : Option (OrderBookData F))
    (run : SessionRun r checks pairs older session)
    (hlegal : LegalNumbers (Input.read r) HasNext ((input, out) :: older)) :
    sessionStep r checks session input ≠ .error .panicked := by
  rcases sessionStep_outcome (run_ok run hlegal.older) hlegal with
    ⟨reason, hfail⟩ | ⟨session', out, hstep, -⟩
  · rw [hfail]
    simp
  · rw [hstep]
    simp

end SessionProofs

end Nuntius.Bitmart

/-! ### The venues that push their snapshots -/

namespace Nuntius.Collectors
open CobCommon LabelledRuns SequenceChains

variable {F : Type} [F64 F] [LinearOrder F]

/-- In every session each emitted book is the replay of an anchor and an unbroken chain of
deltas, all received for the instrument and none used twice, and BitMart sessions do not panic,
in builds with overflow checks or without. -/
theorem pushed_books_unbroken (r : TextReader F) (checks : Bool) (pairs : List String) :
    (∀ input d older feeds, Okx.SessionRun r pairs ((input, some d) :: older) feeds →
      EmittedFromChain Okx.rule (Okx.parseFrame r) ((input, some d) :: older) feeds d) ∧
    (∀ input d older feeds, Bybit.SessionRun r pairs ((input, some d) :: older) feeds →
      LegalNumbers (SessionInput.read (Bybit.parseFrame r)) HasNext older →
      EmittedFromChain Bybit.rule (Bybit.parseFrame r) ((input, some d) :: older) feeds d) ∧
    (∀ input d older session,
      Bitmart.SessionRun r checks pairs ((input, some d) :: older) session →
      LegalNumbers (Bitmart.Input.read r) HasNext ((input, some d) :: older) →
      Bitmart.EmittedFromChain r ((input, some d) :: older) session d) ∧
    ∀ input out older session, Bitmart.SessionRun r checks pairs older session →
      LegalNumbers (Bitmart.Input.read r) HasNext ((input, out) :: older) →
      Bitmart.sessionStep r checks session input ≠ .error .panicked := by
  refine ⟨?_, ?_, ?_, ?_⟩
  · intro input d older feeds run
    exact emitted_from_chain Okx.react_sound run (fun _ _ _ => trivial)
  · intro input d older feeds run hlegal
    exact emitted_from_chain Bybit.react_sound run hlegal
  · intro input d older session run hlegal
    exact Bitmart.emitted_from_chain run hlegal
  · intro input out older session run hlegal
    exact Bitmart.never_panics out run hlegal

section Example

def demoRows (price quantity : UInt64) : JsonTrees.JsonTree ExtRat :=
  .arr [.arr [.posInt price, .posInt quantity]]

def demoOkx (action : String) (seqId : UInt64) (prevSeqId : JsonTrees.JsonTree ExtRat) :
    JsonTrees.JsonTree ExtRat :=
  .obj [("arg", .obj [("instId", .str "BTC-USDT")]), ("action", .str action),
    ("data", .arr [.obj [("ts", .posInt 1695716059516), ("seqId", .posInt seqId),
      ("prevSeqId", prevSeqId), ("bids", demoRows 99 1), ("asks", demoRows 101 1)]])]

def demoBybit (type : String) (u : UInt64) : JsonTrees.JsonTree ExtRat :=
  .obj [("topic", .str "orderbook.200.BTCUSDT"), ("type", .str type), ("ts", .posInt 1695716059516),
    ("data", .obj [("u", .posInt u), ("b", demoRows 99 1), ("a", demoRows 101 1)])]

def demoItem (type : String) (version : UInt64) : JsonTrees.JsonTree ExtRat :=
  .obj [("symbol", .str "BTC_USDT"), ("type", .str type), ("version", .posInt version),
    ("ms_t", .posInt 1695716059516), ("bids", demoRows 99 1), ("asks", demoRows 101 1)]

/-- A reader of a few texts; BitMart sends an update and then the snapshot before it. -/
def demoReader : TextReader ExtRat where
  fromStr
    | "okx snapshot" => some (demoOkx "snapshot" 1 (.negInt (I64.wrap (-1))))
    | "okx update" => some (demoOkx "update" 2 (.posInt 1))
    | "bybit snapshot" => some (demoBybit "snapshot" 1)
    | "bybit delta" => some (demoBybit "delta" 2)
    | "bitmart" => some (.obj [("table", .str "spot/depth/increase100"),
        ("data", .arr [demoItem "update" 2, demoItem "snapshot" 1])])
    | _ => none
  parseFloat _ := none
  toUppercase := id
  toLowercase := id

def demoNow : I64 := I64.wrap 1695716059600

def demoFrame {τ : Type} (tag : τ) (seq : UInt64) : BookFrame ExtRat τ :=
  ⟨tag, seq, [(.fin 99, .fin 1)], [(.fin 101, .fin 1)]⟩

/-- The step emits. -/
def emits {ε S O : Type} : Except ε (S × Option O) → Bool
  | .ok (_, some _) => true
  | _ => false

theorem exists_of_emits {ε S O : Type} {x : Except ε (S × Option O)} (h : emits x = true) :
    ∃ s o, x = .ok (s, some o) := by
  unfold emits at h
  split at h
  · exact ⟨_, _, rfl⟩
  · cases h

/-- A first snapshot, handed over. -/
def demoAnchor {τ : Type} (exchangeId symbol : String) (f : BookFrame ExtRat τ) :
    Feed ExtRat τ × Option (OrderBookData ExtRat) :=
  ((Feed.new exchangeId symbol).anchor f).deliver (I64.ofU64 1695716059516) demoNow

def demoFeeds {τ : Type} (exchangeId symbol : String) (f : BookFrame ExtRat τ) : Feeds ExtRat τ :=
  (startFeeds exchangeId [symbol]).set symbol (demoAnchor exchangeId symbol f).1

/-- A first frame, and a second one that emits. -/
theorem exists_emission {τ : Type} {parse : String → Option (Received ExtRat τ)}
    {react : Option UInt64 → Received ExtRat τ → Reaction} {start feeds : Feeds ExtRat τ}
    {l : SessionInput × Option (OrderBookData ExtRat)} {input : SessionInput}
    (hfirst : FeedStep parse react start l feeds)
    (hemits : emits (feedStep parse react feeds input) = true) :
    ∃ d feeds', Run start (FeedStep parse react) [(input, some d), l] feeds' := by
  obtain ⟨feeds', d, hstep⟩ := exists_of_emits hemits
  exact ⟨d, feeds', .step (.step .start hfirst) hstep⟩

theorem demo_okx : FeedStep (Okx.parseFrame demoReader) Okx.react (startFeeds "okx" ["BTC-USDT"])
    (.text "okx snapshot" demoNow,
      (demoAnchor "okx" "BTC-USDT" (demoFrame Okx.Action.snapshot 1)).2)
    (demoFeeds "okx" "BTC-USDT" (demoFrame .snapshot 1)) := rfl

theorem demo_bybit : FeedStep (Bybit.parseFrame demoReader) Bybit.react
    (startFeeds "bybit" ["BTCUSDT"])
    (.text "bybit snapshot" demoNow,
      (demoAnchor "bybit" "BTCUSDT" (demoFrame Bybit.Kind.snapshot 1)).2)
    (demoFeeds "bybit" "BTCUSDT" (demoFrame .snapshot 1)) := rfl

def demoDesk : Bitmart.Desk ExtRat := (Bitmart.startSession demoReader ["BTC_USDT"]).desk

/-- The labels of a BitMart session in which an update is buffered before the snapshot. -/
def demoLabels (d : OrderBookData ExtRat) :
    List (Bitmart.Input ExtRat × Option (OrderBookData ExtRat)) :=
  [(.item (demoItem "snapshot" 1), some d), (.item (demoItem "update" 2), none),
    (.text "bitmart" demoNow, none)]

theorem demo_bitmart :
    ∃ d session, Bitmart.SessionRun demoReader true ["BTC_USDT"] (demoLabels d) session := by
  have htext : Bitmart.SessionStep demoReader true (Bitmart.startSession demoReader ["BTC_USDT"])
      (.text "bitmart" demoNow, none)
      ⟨demoDesk, [demoItem "update" 2, demoItem "snapshot" 1], demoNow⟩ := ⟨rfl, rfl⟩
  have hupdate : Bitmart.SessionStep demoReader true
      ⟨demoDesk, [demoItem "update" 2, demoItem "snapshot" 1], demoNow⟩
      (.item (demoItem "update" 2), none)
      ⟨demoDesk.buffer "BTC_USDT" [demoFrame .update 2], [demoItem "snapshot" 1], demoNow⟩ :=
    ⟨rfl, rfl⟩
  have hemits : emits (Bitmart.sessionStep demoReader true
      ⟨demoDesk.buffer "BTC_USDT" [demoFrame .update 2], [demoItem "snapshot" 1], demoNow⟩
      (.item (demoItem "snapshot" 1))) = true := by decide +kernel
  obtain ⟨session, d, hstep⟩ := exists_of_emits hemits
  exact ⟨d, session, .step (.step (.step .start htext) hupdate) ⟨rfl, hstep⟩⟩

theorem demoLabels_legal (d : OrderBookData ExtRat) (version : UInt64) (h : HasNext version) :
    LegalNumbers (Bitmart.Input.read demoReader) HasNext
      ((.item (demoItem "update" version), none) :: demoLabels d) := by
  apply legalNumbers_of_reads
  intro l hl m hm
  simp only [demoLabels, List.mem_cons, List.not_mem_nil, or_false] at hl
  rcases hl with rfl | rfl | rfl | rfl
  · obtain rfl := Option.some.inj hm
    exact h
  · obtain rfl := Option.some.inj hm
    decide
  · obtain rfl := Option.some.inj hm
    decide
  · cases hm

/-- OKX and Bybit send a snapshot and a delta, BitMart an update before its snapshot and then
one out of order. -/
theorem pushed_books_unbroken_demo :
    (∃ d older feeds,
      Okx.SessionRun demoReader ["BTC-USDT"] ((.text "okx update" demoNow, some d) :: older) feeds ∧
      EmittedFromChain Okx.rule (Okx.parseFrame demoReader)
        ((.text "okx update" demoNow, some d) :: older) feeds d) ∧
    (∃ d older feeds,
      Bybit.SessionRun demoReader ["BTCUSDT"] ((.text "bybit delta" demoNow, some d) :: older)
        feeds ∧
      EmittedFromChain Bybit.rule (Bybit.parseFrame demoReader)
        ((.text "bybit delta" demoNow, some d) :: older) feeds d) ∧
    ∃ d session, Bitmart.SessionRun demoReader true ["BTC_USDT"] (demoLabels d) session ∧
      Bitmart.EmittedFromChain demoReader (demoLabels d) session d ∧
      Bitmart.sessionStep demoReader true session (.item (demoItem "update" 7)) ≠
        .error .panicked := by
  refine ⟨?_, ?_, ?_⟩
  · obtain ⟨d, feeds, run⟩ := @exists_emission _ _ _ _ _ _ (.text "okx update" demoNow) demo_okx
      (by decide +kernel)
    obtain ⟨hemitted, -⟩ := pushed_books_unbroken demoReader true ["BTC-USDT"]
    exact ⟨d, _, feeds, run, hemitted _ _ _ _ run⟩
  · obtain ⟨d, feeds, run⟩ := @exists_emission _ _ _ _ _ _ (.text "bybit delta" demoNow) demo_bybit
      (by decide +kernel)
    have hlegal : LegalNumbers (SessionInput.read (Bybit.parseFrame demoReader)) HasNext
        [(.text "bybit snapshot" demoNow,
          (demoAnchor "bybit" "BTCUSDT" (demoFrame Bybit.Kind.snapshot 1)).2)] := by
      apply legalNumbers_of_reads
      intro l hl m hm
      obtain rfl := List.mem_singleton.mp hl
      obtain rfl := Option.some.inj hm
      decide
    obtain ⟨-, hemitted, -⟩ := pushed_books_unbroken demoReader true ["BTCUSDT"]
    exact ⟨d, _, feeds, run, hemitted _ _ _ _ run hlegal⟩
  · obtain ⟨d, session, run⟩ := demo_bitmart
    have hlegal := demoLabels_legal d 7 (by decide)
    obtain ⟨-, -, hemitted, hpanics⟩ := pushed_books_unbroken demoReader true ["BTC_USDT"]
    exact ⟨d, session, run, hemitted _ _ _ _ run hlegal.older, hpanics _ _ _ _ run hlegal⟩

end Example

end Nuntius.Collectors
