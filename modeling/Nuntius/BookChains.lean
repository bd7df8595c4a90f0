import Nuntius.LabelledRuns
import Nuntius.SequenceChains
import Nuntius.VenueFrames

/-!
# Books built from chains of pushed frames

A venue that pushes its snapshots sends frames: anchors, on which a book is built afresh, and
deltas, which must continue the frame before. A feed is a local book with the record of the
frames it was built from. What a collector may do with a frame is one of five reactions; if its
anchors are anchors and its extensions continue the local number, every book it hands over is
the replay of an unbroken chain of received frames.
-/

namespace Nuntius.Collectors
open SequenceChains LabelledRuns CobCommon

variable {F τ : Type} [F64 F] [LinearOrder F]

/-- A parsed frame; the tag says what kind of frame it is. -/
structure BookFrame (F τ : Type) where
  tag : τ
  seq : UInt64
  bids : List (F × F)
  asks : List (F × F)

/-! ### Feeds -/

/-- A book with the frames applied to it since it was last empty, the anchor first. -/
structure Feed (F τ : Type) [LinearOrder F] where
  book : LocalBook F
  applied : List (BookFrame F τ)

namespace Feed

def new (exchangeId symbol : String) : Feed F τ := ⟨.new exchangeId symbol, []⟩

def anchor (feed : Feed F τ) (f : BookFrame F τ) : Feed F τ :=
  ⟨feed.book.applySnapshot f.bids f.asks (some f.seq), [f]⟩

def extend (feed : Feed F τ) (f : BookFrame F τ) : Feed F τ :=
  ⟨feed.book.applyDeltas f.bids f.asks (some f.seq), feed.applied ++ [f]⟩

def reset (feed : Feed F τ) : Feed F τ := ⟨feed.book.clear, []⟩

/-- Hand the book over. -/
def deliver (feed : Feed F τ) (exchTs receivedAt : I64) :
    Feed F τ × Option (OrderBookData F) :=
  let delivered := Collectors.deliver feed.book exchTs receivedAt
  (⟨delivered.1, feed.applied⟩, delivered.2)

end Feed

/-! ### Chains -/

/-- Which frames anchor a book, and which continue a sequence number. -/
structure FeedRule (F τ : Type) where
  isAnchor : BookFrame F τ → Prop
  continues : UInt64 → BookFrame F τ → Prop

def replayBids (a : BookFrame F τ) (ds : List (BookFrame F τ)) : Ladder F F :=
  ds.foldl (fun side d => deltaSide side d.bids) (snapshotSide a.bids)

def replayAsks (a : BookFrame F τ) (ds : List (BookFrame F τ)) : Ladder F F :=
  ds.foldl (fun side d => deltaSide side d.asks) (snapshotSide a.asks)

/-- The book is the replay of an anchor and an unbroken chain of deltas. -/
structure ChainOf (rule : FeedRule F τ) (a : BookFrame F τ) (ds : List (BookFrame F τ))
    (book : LocalBook F) : Prop where
  anchor : rule.isAnchor a
  chain : ChainFrom rule.continues BookFrame.seq a.seq ds
  seq : book.seq = some (endFrom BookFrame.seq a.seq ds)
  bids : book.bids = replayBids a ds
  asks : book.asks = replayAsks a ds

/-- The record is empty and so is the book, or the record is the chain the book replays. -/
def Feed.Chained (rule : FeedRule F τ) (feed : Feed F τ) : Prop :=
  (feed.applied = [] ∧ feed.book.seq = none) ∨
    ∃ a ds, feed.applied = a :: ds ∧ ChainOf rule a ds feed.book

section Chained
variable {rule : FeedRule F τ} {feed : Feed F τ}

theorem chained_new (exchangeId symbol : String) :
    (Feed.new exchangeId symbol : Feed F τ).Chained rule := .inl ⟨rfl, rfl⟩

theorem chained_reset : feed.reset.Chained rule := .inl ⟨rfl, rfl⟩

theorem chained_anchor {f : BookFrame F τ} (h : rule.isAnchor f) : (feed.anchor f).Chained rule :=
  .inr ⟨f, [], rfl, h, trivial, rfl, rfl, rfl⟩

/-- A delta that continues the local number extends the chain. -/
theorem Feed.Chained.extend (h : feed.Chained rule) {s : UInt64} (hseq : feed.book.seq = some s)
    {f : BookFrame F τ} (hf : rule.continues s f) : (feed.extend f).Chained rule := by
  rcases h with ⟨-, hnone⟩ | ⟨a, ds, happlied, hchain⟩
  · rw [hnone] at hseq
    cases hseq
  · have hend : endFrom BookFrame.seq a.seq ds = s := by
      rw [hchain.seq] at hseq
      exact Option.some.inj hseq
    refine .inr ⟨a, ds ++ [f], ?_, hchain.anchor, hchain.chain.concat (hend ▸ hf), ?_, ?_, ?_⟩
    · rw [Feed.extend, happlied, List.cons_append]
    · rw [endFrom_concat]
      rfl
    · rw [Feed.extend, applyDeltas_bids, hchain.bids, replayBids, replayBids, List.foldl_append]
      rfl
    · rw [Feed.extend, applyDeltas_asks, hchain.asks, replayAsks, replayAsks, List.foldl_append]
      rfl

theorem Feed.Chained.deliver (h : feed.Chained rule) (exchTs receivedAt : I64) :
    (feed.deliver exchTs receivedAt).1.Chained rule := by
  obtain ⟨hsame, -⟩ := deliver_spec feed.book exchTs receivedAt
  rcases h with ⟨happlied, hnone⟩ | ⟨a, ds, happlied, hchain⟩
  · exact .inl ⟨happlied, hsame.seq.trans hnone⟩
  · exact .inr ⟨a, ds, happlied, hchain.anchor, hchain.chain, hsame.seq.trans hchain.seq,
      hsame.bids.trans hchain.bids, hsame.asks.trans hchain.asks⟩

/-- The local number is that of a frame on record. -/
theorem Feed.Chained.exists_seq (h : feed.Chained rule) {s : UInt64}
    (hseq : feed.book.seq = some s) : ∃ f ∈ feed.applied, f.seq = s := by
  rcases h with ⟨-, hnone⟩ | ⟨a, ds, happlied, hchain⟩
  · rw [hnone] at hseq
    cases hseq
  · rw [hchain.seq] at hseq
    obtain rfl := Option.some.inj hseq
    rw [happlied]
    rcases List.eq_nil_or_concat ds with rfl | ⟨init, last, rfl⟩
    · exact ⟨a, List.mem_cons_self, rfl⟩
    · refine ⟨last, by simp, ?_⟩
      rw [List.concat_eq_append, endFrom_concat]

end Chained

/-- A message that was handed over: the top of a replayed chain. -/
structure FromChain (rule : FeedRule F τ) (a : BookFrame F τ) (ds : List (BookFrame F τ))
    (d : OrderBookData F) : Prop where
  anchor : rule.isAnchor a
  chain : ChainFrom rule.continues BookFrame.seq a.seq ds
  bids : d.bids = topBids topN (replayBids a ds)
  asks : d.asks = topAsks topN (replayAsks a ds)

/-- What a feed with a chain on record hands over comes from that chain. -/
theorem Feed.Chained.fromChain {rule : FeedRule F τ} {feed : Feed F τ} (h : feed.Chained rule)
    {s : UInt64} (hseq : feed.book.seq = some s) {exchTs receivedAt : I64} {d : OrderBookData F}
    (hd : (feed.deliver exchTs receivedAt).2 = some d) :
    ∃ a ds, feed.applied = a :: ds ∧ FromChain rule a ds d := by
  obtain ⟨-, hout⟩ := deliver_spec feed.book exchTs receivedAt
  have htop := hout d hd
  rcases h with ⟨-, hnone⟩ | ⟨a, ds, happlied, hchain⟩
  · rw [hnone] at hseq
    cases hseq
  · exact ⟨a, ds, happlied, hchain.anchor, hchain.chain, by rw [htop.bids, hchain.bids],
      by rw [htop.asks, hchain.asks]⟩

/-! ### Sessions -/

abbrev Feeds (F τ : Type) [LinearOrder F] := Instruments (Feed F τ)

/-- An empty book for every configured instrument. -/
def startFeeds (exchangeId : String) (keys : List String) : Feeds F τ := fun s =>
  if s ∈ keys then some (Feed.new exchangeId s) else none

omit [F64 F] in
theorem startFeeds_eq_some {exchangeId symbol : String} {keys : List String} {feed : Feed F τ}
    (h : startFeeds exchangeId keys symbol = some feed) : Feed.new exchangeId symbol = feed := by
  unfold startFeeds at h
  split_ifs at h
  exact Option.some.inj h

/-- Storing a feed that was handed over leaves the chain of the message on record. -/
theorem deliver_emits {rule : FeedRule F τ} {feed : Feed F τ} (hchained : feed.Chained rule)
    {s : UInt64} (hseq : feed.book.seq = some s) {exchTs receivedAt : I64} {d : OrderBookData F}
    (hd : (feed.deliver exchTs receivedAt).2 = some d) (feeds : Feeds F τ) (symbol : String) :
    d.symbol = feed.book.symbol ∧ ∃ feed' a ds,
      feeds.set symbol (feed.deliver exchTs receivedAt).1 symbol = some feed' ∧
        feed'.applied = a :: ds ∧ FromChain rule a ds d := by
  have htop := (deliver_spec feed.book exchTs receivedAt).2 d hd
  obtain ⟨a, ds, happlied, hfrom⟩ := hchained.fromChain hseq hd
  exact ⟨htop.symbol, _, a, ds, Instruments.set_same _ _, happlied, hfrom⟩

/-- A frame with its instrument and the time the venue states. -/
structure Received (F τ : Type) where
  instrument : String
  exchTs : I64
  frame : BookFrame F τ

section Receipts
variable {ι : Type} (read : ι → Option (Received F τ))

/-- The frame for an instrument in an input. -/
def framesIn (symbol : String) (input : ι) : List (BookFrame F τ) :=
  match read input with
  | none => []
  | some m => if m.instrument = symbol then [m.frame] else []

/-- The frames received for an instrument, the oldest first. -/
def receivedFrames (symbol : String) :
    List (ι × Option (OrderBookData F)) → List (BookFrame F τ)
  | [] => []
  | l :: older => receivedFrames symbol older ++ framesIn read symbol l.1

/-- Only numbers that the venue may use were received. -/
def LegalNumbers (legal : UInt64 → Prop) (labels : List (ι × Option (OrderBookData F))) : Prop :=
  ∀ symbol, ∀ f ∈ receivedFrames read symbol labels, legal f.seq

variable {read}

omit [F64 F] [LinearOrder F] in
theorem receivedFrames_cons_none {symbol : String} {l : ι × Option (OrderBookData F)}
    {older : List (ι × Option (OrderBookData F))} (h : read l.1 = none) :
    receivedFrames read symbol (l :: older) = receivedFrames read symbol older := by
  simp [receivedFrames, framesIn, h]

omit [F64 F] [LinearOrder F] in
theorem receivedFrames_cons_own {l : ι × Option (OrderBookData F)} {m : Received F τ}
    {older : List (ι × Option (OrderBookData F))} (h : read l.1 = some m) :
    receivedFrames read m.instrument (l :: older) =
      receivedFrames read m.instrument older ++ [m.frame] := by
  simp [receivedFrames, framesIn, h]

omit [F64 F] [LinearOrder F] in
theorem receivedFrames_cons_other {symbol : String} {l : ι × Option (OrderBookData F)}
    {m : Received F τ} {older : List (ι × Option (OrderBookData F))} (h : read l.1 = some m)
    (hne : symbol ≠ m.instrument) :
    receivedFrames read symbol (l :: older) = receivedFrames read symbol older := by
  simp [receivedFrames, framesIn, h, hne.symm]

omit [F64 F] [LinearOrder F] in
theorem LegalNumbers.older {legal : UInt64 → Prop} {l : ι × Option (OrderBookData F)}
    {older : List (ι × Option (OrderBookData F))} (h : LegalNumbers read legal (l :: older)) :
    LegalNumbers read legal older :=
  fun symbol f hf => h symbol f (List.mem_append_left _ hf)

omit [F64 F] [LinearOrder F] in
theorem legalNumbers_of_reads {legal : UInt64 → Prop}
    {labels : List (ι × Option (OrderBookData F))}
    (h : ∀ l ∈ labels, ∀ m, read l.1 = some m → legal m.frame.seq) :
    LegalNumbers read legal labels := by
  intro symbol
  induction labels with
  | nil => simp [receivedFrames]
  | cons l older ih =>
    intro f hf
    rcases List.mem_append.mp hf with hf | hf
    · exact ih (fun l' hl' => h l' (List.mem_cons_of_mem l hl')) f hf
    · unfold framesIn at hf
      cases hread : read l.1 with
      | none => simp [hread] at hf
      | some m =>
        rw [hread] at hf
        dsimp only at hf
        split_ifs at hf
        · obtain rfl := List.mem_singleton.mp hf
          exact h l List.mem_cons_self m hread
        · cases hf

end Receipts

/-- What a collector does with a frame for a book it knows. -/
inductive Reaction where
  | ignore
  | fail (reason : String)
  | reset
  | anchor
  | extend

/-- What reaches the session: a text frame, something that leaves the books alone (a ping, a
timer), or what ends the session. -/
inductive SessionInput where
  | text (text : String) (receivedAt : I64)
  | quiet
  | closed
  | broken (error : String)
  | pingFailed

section Session
variable (parse : String → Option (Received F τ))
  (react : Option UInt64 → Received F τ → Reaction)

/-- The reaction carried out on the feed of the instrument. -/
def feedFrame (feeds : Feeds F τ) (m : Received F τ) (receivedAt : I64) :
    Except String (Feeds F τ × Option (OrderBookData F)) :=
  match feeds m.instrument with
  | none => .ok (feeds, none)
  | some feed =>
    match react feed.book.seq m with
    | .ignore => .ok (feeds, none)
    | .fail reason => .error reason
    | .reset => .ok (feeds.set m.instrument feed.reset, none)
    | .anchor =>
      let delivered := (feed.anchor m.frame).deliver m.exchTs receivedAt
      .ok (feeds.set m.instrument delivered.1, delivered.2)
    | .extend =>
      let delivered := (feed.extend m.frame).deliver m.exchTs receivedAt
      .ok (feeds.set m.instrument delivered.1, delivered.2)

def feedStep (feeds : Feeds F τ) :
    SessionInput → Except String (Feeds F τ × Option (OrderBookData F))
  | .text text receivedAt =>
    match parse text with
    | none => .ok (feeds, none)
    | some m => feedFrame react feeds m receivedAt
  | .quiet => .ok (feeds, none)
  | .closed => .error "WS closed"
  | .broken error => .error ("WS error: " ++ error)
  | .pingFailed => .error "ping send failed"

/-- A step of the session, labelled with its input and what it emits. -/
def FeedStep (feeds : Feeds F τ) (l : SessionInput × Option (OrderBookData F))
    (feeds' : Feeds F τ) : Prop := feedStep parse react feeds l.1 = .ok (feeds', l.2)

/-- The frame in an input. -/
def SessionInput.read : SessionInput → Option (Received F τ)
  | .text s _ => parse s
  | _ => none

end Session

/-- Anchors anchor, and what extends a book continues its number, as long as that number is one
the venue may use. -/
structure SoundReaction (rule : FeedRule F τ) (legal : UInt64 → Prop)
    (react : Option UInt64 → Received F τ → Reaction) : Prop where
  anchor : ∀ seq m, react seq m = .anchor → rule.isAnchor m.frame
  extend : ∀ seq m, react seq m = .extend →
    ∃ s, seq = some s ∧ (legal s → rule.continues s m.frame)

/-- A feed in order: under its own symbol, chained, and on record only received frames, each
once and in their order. -/
structure FeedOk (rule : FeedRule F τ) (received : List (BookFrame F τ)) (symbol : String)
    (feed : Feed F τ) : Prop where
  symbol : feed.book.symbol = symbol
  chained : feed.Chained rule
  recorded : feed.applied.Sublist received

/-- Every feed of the session is in order. -/
def SessionChained (rule : FeedRule F τ) (parse : String → Option (Received F τ))
    (labels : List (SessionInput × Option (OrderBookData F))) (feeds : Feeds F τ) : Prop :=
  ∀ symbol feed, feeds symbol = some feed →
    FeedOk rule (receivedFrames (SessionInput.read parse) symbol labels) symbol feed

/-- The message was emitted for its instrument from the chain on record, which consists of
frames received for the instrument, in their order and each once. -/
def EmittedFromChain (rule : FeedRule F τ) (parse : String → Option (Received F τ))
    (labels : List (SessionInput × Option (OrderBookData F))) (feeds : Feeds F τ)
    (d : OrderBookData F) : Prop :=
  ∃ feed a ds, feeds d.symbol = some feed ∧ feed.applied = a :: ds ∧ FromChain rule a ds d ∧
    (a :: ds).Sublist (receivedFrames (SessionInput.read parse) d.symbol labels)

section SessionProofs
variable {parse : String → Option (Received F τ)}
  {react : Option UInt64 → Received F τ → Reaction} {rule : FeedRule F τ} {legal : UInt64 → Prop}
  {received : List (BookFrame F τ)} {symbol : String} {feed : Feed F τ} {feeds feeds' : Feeds F τ}

/-- A feed stays in order when more is received. -/
theorem FeedOk.receive (h : FeedOk rule received symbol feed) (more : List (BookFrame F τ)) :
    FeedOk rule (received ++ more) symbol feed :=
  ⟨h.symbol, h.chained, h.recorded.trans (List.sublist_append_left _ _)⟩

theorem FeedOk.deliver (h : FeedOk rule received symbol feed) (exchTs receivedAt : I64) :
    FeedOk rule received symbol (feed.deliver exchTs receivedAt).1 :=
  ⟨(deliver_spec feed.book exchTs receivedAt).1.symbol.trans h.symbol,
    h.chained.deliver exchTs receivedAt, h.recorded⟩

/-- What a frame does to the feed of its instrument, and what it emits. -/
structure FrameOutcome (rule : FeedRule F τ) (received : List (BookFrame F τ)) (symbol : String)
    (feeds feeds' : Feeds F τ) (out : Option (OrderBookData F)) : Prop where
  others : ∀ s, s ≠ symbol → feeds' s = feeds s
  own : ∀ feed, feeds' symbol = some feed → FeedOk rule received symbol feed
  emitted : ∀ d, out = some d → d.symbol = symbol ∧
    ∃ feed a ds, feeds' symbol = some feed ∧ feed.applied = a :: ds ∧ FromChain rule a ds d

/-- Storing a feed that was handed over. -/
theorem frameOutcome_deliver (h : FeedOk rule received symbol feed) {s : UInt64}
    (hseq : feed.book.seq = some s) (feeds : Feeds F τ) (exchTs receivedAt : I64) :
    FrameOutcome rule received symbol feeds
      (feeds.set symbol (feed.deliver exchTs receivedAt).1) (feed.deliver exchTs receivedAt).2 where
  others t ht := Instruments.set_of_ne feeds ht _
  own feed' hfeed' := by
    obtain rfl := Instruments.eq_of_set_same hfeed'
    exact h.deliver exchTs receivedAt
  emitted d hd := by
    obtain ⟨hsym, hchain⟩ := deliver_emits h.chained hseq hd feeds symbol
    exact ⟨hsym.trans h.symbol, hchain⟩

theorem feedFrame_outcome (hsound : SoundReaction rule legal react) {m : Received F τ}
    {receivedAt : I64} {out : Option (OrderBookData F)}
    (hok : ∀ feed, feeds m.instrument = some feed → FeedOk rule received m.instrument feed)
    (hlegal : ∀ f ∈ received, legal f.seq)
    (h : feedFrame react feeds m receivedAt = .ok (feeds', out)) :
    FrameOutcome rule (received ++ [m.frame]) m.instrument feeds feeds' out := by
  have hkeep : FrameOutcome rule (received ++ [m.frame]) m.instrument feeds feeds none :=
    ⟨fun _ _ => rfl, fun feed hfeed => (hok feed hfeed).receive _, by simp⟩
  unfold feedFrame at h
  split at h
  · obtain ⟨rfl, rfl⟩ := Prod.mk.inj (Except.ok.inj h)
    exact hkeep
  · rename_i feed hfeed
    have hfeedOk := hok feed hfeed
    split at h
    · obtain ⟨rfl, rfl⟩ := Prod.mk.inj (Except.ok.inj h)
      exact hkeep
    · cases h
    · obtain ⟨rfl, rfl⟩ := Prod.mk.inj (Except.ok.inj h)
      refine ⟨fun s hs => Instruments.set_of_ne _ hs _, ?_, by simp⟩
      intro feed' hfeed'
      obtain rfl := Instruments.eq_of_set_same hfeed'
      exact ⟨hfeedOk.symbol, chained_reset, List.nil_sublist _⟩
    · rename_i hreact
      obtain ⟨rfl, rfl⟩ := Prod.mk.inj (Except.ok.inj h)
      have hnew : FeedOk rule (received ++ [m.frame]) m.instrument (feed.anchor m.frame) :=
        ⟨hfeedOk.symbol, chained_anchor (hsound.anchor _ _ hreact),
          List.sublist_append_right _ _⟩
      exact frameOutcome_deliver hnew rfl feeds m.exchTs receivedAt
    · rename_i hreact
      obtain ⟨rfl, rfl⟩ := Prod.mk.inj (Except.ok.inj h)
      obtain ⟨s, hseq, hcontinues⟩ := hsound.extend _ _ hreact
      -- the local number is that of a received frame, so it is a legal one
      obtain ⟨f, hf, hfs⟩ := hfeedOk.chained.exists_seq hseq
      have hs : legal s := hfs ▸ hlegal f (hfeedOk.recorded.subset hf)
      have hnew : FeedOk rule (received ++ [m.frame]) m.instrument (feed.extend m.frame) :=
        ⟨hfeedOk.symbol, hfeedOk.chained.extend hseq (hcontinues hs),
          hfeedOk.recorded.append_right [m.frame]⟩
      exact frameOutcome_deliver hnew rfl feeds m.exchTs receivedAt

/-- A step with a frame in its input is that of the frame, any other step changes nothing. -/
theorem feedStep_cases {l : SessionInput × Option (OrderBookData F)}
    (h : FeedStep parse react feeds l feeds') :
    (SessionInput.read parse l.1 = none ∧ feeds' = feeds ∧ l.2 = none) ∨
      ∃ m receivedAt, SessionInput.read parse l.1 = some m ∧
        feedFrame react feeds m receivedAt = .ok (feeds', l.2) := by
  obtain ⟨input, out⟩ := l
  cases input with
  | text text receivedAt =>
    unfold FeedStep feedStep at h
    dsimp only at h
    cases hparse : parse text with
    | none =>
      rw [hparse] at h
      obtain ⟨hfeeds, hout⟩ := Prod.mk.inj (Except.ok.inj h)
      exact .inl ⟨hparse, hfeeds.symm, hout.symm⟩
    | some m =>
      rw [hparse] at h
      exact .inr ⟨m, receivedAt, hparse, h⟩
  | quiet =>
    obtain ⟨hfeeds, hout⟩ := Prod.mk.inj (Except.ok.inj h)
    exact .inl ⟨rfl, hfeeds.symm, hout.symm⟩
  | closed => cases h
  | broken error => cases h
  | pingFailed => cases h

theorem feedStep_chained (hsound : SoundReaction rule legal react)
    {l : SessionInput × Option (OrderBookData F)}
    {older : List (SessionInput × Option (OrderBookData F))}
    (hok : SessionChained rule parse older feeds)
    (hlegal : LegalNumbers (SessionInput.read parse) legal older)
    (h : FeedStep parse react feeds l feeds') :
    SessionChained rule parse (l :: older) feeds' ∧
      ∀ d, l.2 = some d → EmittedFromChain rule parse (l :: older) feeds' d := by
  rcases feedStep_cases h with ⟨hread, rfl, hout⟩ | ⟨m, receivedAt, hread, hframe⟩
  · constructor
    · intro symbol feed hfeed
      rw [receivedFrames_cons_none hread]
      exact hok symbol feed hfeed
    · intro d hd
      rw [hout] at hd
      cases hd
  · have houtcome := feedFrame_outcome hsound (hok m.instrument) (hlegal m.instrument) hframe
    rw [← receivedFrames_cons_own hread] at houtcome
    constructor
    · intro symbol feed hfeed
      by_cases hs : symbol = m.instrument
      · subst hs
        exact houtcome.own feed hfeed
      · rw [houtcome.others symbol hs] at hfeed
        rw [receivedFrames_cons_other hread hs]
        exact hok symbol feed hfeed
    · intro d hd
      obtain ⟨hsym, feed, a, ds, hfeed, happlied, hfrom⟩ := houtcome.emitted d hd
      rw [← hsym] at hfeed houtcome
      exact ⟨feed, a, ds, hfeed, happlied, hfrom, happlied ▸ (houtcome.own feed hfeed).recorded⟩

theorem startFeeds_chained (exchangeId : String) (keys : List String) :
    SessionChained rule parse [] (startFeeds exchangeId keys) := by
  intro symbol feed hfeed
  obtain rfl := startFeeds_eq_some hfeed
  exact ⟨rfl, chained_new _ _, List.nil_sublist _⟩

/-- After every run the feeds are in order. -/
theorem session_chained (hsound : SoundReaction rule legal react) {exchangeId : String}
    {keys : List String} {labels : List (SessionInput × Option (OrderBookData F))}
    (run : Run (startFeeds exchangeId keys) (FeedStep parse react) labels feeds)
    (hlegal : LegalNumbers (SessionInput.read parse) legal labels) :
    SessionChained rule parse labels feeds := by
  induction run with
  | start => exact startFeeds_chained exchangeId keys
  | step before now ih => exact (feedStep_chained hsound (ih hlegal.older) hlegal.older now).1

/-- Every message a run emits comes from an unbroken chain. -/
theorem emitted_from_chain (hsound : SoundReaction rule legal react) {exchangeId : String}
    {keys : List String} {input : SessionInput} {d : OrderBookData F}
    {older : List (SessionInput × Option (OrderBookData F))}
    (run : Run (startFeeds exchangeId keys) (FeedStep parse react) ((input, some d) :: older) feeds)
    (hlegal : LegalNumbers (SessionInput.read parse) legal older) :
    EmittedFromChain rule parse ((input, some d) :: older) feeds d := by
  cases run with
  | step before now =>
    have hok := session_chained hsound before hlegal
    exact (feedStep_chained hsound hok hlegal now).2 d rfl

end SessionProofs

end Nuntius.Collectors
