import Nuntius.BookChains

/-!
# The Gate.io session

A full frame replaces the book, any other frame is a delta with the range of updates it covers.
A delta that ends at or before the local number is skipped, and one whose range does not start
right behind it ends the session. A delta that states no start is applied unchecked, so the
books are built from unbroken chains exactly as long as no such delta arrives.
-/

namespace Nuntius.Gate
open Collectors JsonTrees CobCommon LabelledRuns SequenceChains

variable {F : Type} [F64 F] [LinearOrder F]

/-! ### Frames -/

/-- A frame with the fields it carries: `U` is `first`, `u` is `last`. -/
structure Frame (F : Type) where
  full : Bool
  first : Option UInt64
  last : Option UInt64
  exchTs : I64
  bids : List (F × F)
  asks : List (F × F)

/-- The pair in `ob.<PAIR>.<depth>`, or the whole text. -/
def pairFromObuSymbol (s : String) : String :=
  match (s.toList.splitOn '.')[1]? with
  | some part => String.ofList part
  | none => s

def parseFrame (r : TextReader F) (text : String) : Option (String × Frame F) := do
  let v ← r.fromStr text
  let result ← (v.get "result").filter fun result => !result.isNull
  let s ← (result.get "s").bind JsonTree.asStr
  some (r.toUppercase (pairFromObuSymbol s),
    { full := ((result.get "full").bind JsonTree.asBool).getD false
      first := (result.get "U").bind parseU64
      last := (result.get "u").bind parseU64
      exchTs := parseExchTs (result.get "t")
      bids := parseLevels r (result.get "b")
      asks := parseLevels r (result.get "a") })

/-- What the session does with a frame when its book is at the number `seq`. -/
def react (seq : Option UInt64) (f : Frame F) : Reaction :=
  if f.full then .anchor
  else
    match seq, f.last with
    | some localSeq, some u =>
      if u ≤ localSeq then .ignore
      else
        match f.first with
        | some bigU => if bigU ≠ localSeq + 1 then .fail "gate gap" else .extend
        | none => .extend
    | _, _ => .ignore

/-! ### Sessions -/

/-- A book with the frames applied to it since the last full one, which comes first. -/
structure Tracked (F : Type) [LinearOrder F] where
  book : LocalBook F
  applied : List (Frame F)

namespace Tracked

def new (symbol : String) : Tracked F := ⟨.new "gate" symbol, []⟩

def anchor (t : Tracked F) (f : Frame F) : Tracked F :=
  ⟨t.book.applySnapshot f.bids f.asks f.last, [f]⟩

def extend (t : Tracked F) (f : Frame F) : Tracked F :=
  ⟨t.book.applyDeltas f.bids f.asks f.last, t.applied ++ [f]⟩

def deliver (t : Tracked F) (f : Frame F) (receivedAt : I64) :
    Tracked F × Option (OrderBookData F) :=
  let delivered := Collectors.deliver t.book f.exchTs receivedAt
  (⟨delivered.1, t.applied⟩, delivered.2)

end Tracked

def onFrame (feeds : Instruments (Tracked F)) (symbol : String) (f : Frame F) (receivedAt : I64) :
    Except String (Instruments (Tracked F) × Option (OrderBookData F)) :=
  match feeds symbol with
  | none => .ok (feeds, none)
  | some t =>
    match react t.book.seq f with
    | .anchor =>
      let delivered := (t.anchor f).deliver f receivedAt
      .ok (feeds.set symbol delivered.1, delivered.2)
    | .extend =>
      let delivered := (t.extend f).deliver f receivedAt
      .ok (feeds.set symbol delivered.1, delivered.2)
    | .fail reason => .error reason
    | .ignore | .reset => .ok (feeds, none)

def sessionStep (r : TextReader F) (feeds : Instruments (Tracked F)) :
    SessionInput → Except String (Instruments (Tracked F) × Option (OrderBookData F))
  | .text text receivedAt =>
    match parseFrame r text with
    | none => .ok (feeds, none)
    | some (symbol, f) => onFrame feeds symbol f receivedAt
  | .quiet => .ok (feeds, none)
  | .closed => .error "WS closed"
  | .broken error => .error ("WS error: " ++ error)
  | .pingFailed => .error "ping send failed"

/-- A step of the session, labelled with its input and what it emits. -/
def Step (r : TextReader F) (feeds : Instruments (Tracked F))
    (l : SessionInput × Option (OrderBookData F)) (feeds' : Instruments (Tracked F)) : Prop :=
  sessionStep r feeds l.1 = .ok (feeds', l.2)

def startFeeds (r : TextReader F) (pairs : List String) : Instruments (Tracked F) := fun s =>
  if s ∈ pairs.map r.toUppercase then some (.new s) else none

/-- The frame in an input. -/
def frameIn (r : TextReader F) : SessionInput → Option (String × Frame F)
  | .text s _ => parseFrame r s
  | _ => none

/-! ### Chains -/

/-- A delta that covers exactly the updates behind the number: its range starts right behind it
and does not end before it starts. -/
def Covers (seq : Option UInt64) (d : Frame F) : Prop :=
  d.full = false ∧ ∃ n first last, seq = some n ∧ d.first = some first ∧ d.last = some last ∧
    first.toNat = n.toNat + 1 ∧ first ≤ last

def replay (rows : Frame F → List (F × F)) (a : Frame F) (ds : List (Frame F)) : Ladder F F :=
  ds.foldl (fun side d => deltaSide side (rows d)) (snapshotSide (rows a))

/-- The book is the replay of a full frame and an unbroken chain of deltas. -/
structure ChainOf (a : Frame F) (ds : List (Frame F)) (book : LocalBook F) : Prop where
  full : a.full = true
  chain : ChainFrom Covers Frame.last a.last ds
  seq : book.seq = endFrom Frame.last a.last ds
  bids : book.bids = replay Frame.bids a ds
  asks : book.asks = replay Frame.asks a ds

/-- The record is the chain the book replays, if there is a record. -/
def Tracked.Chained (t : Tracked F) : Prop :=
  (t.applied = [] ∧ t.book.seq = none) ∨ ∃ a ds, t.applied = a :: ds ∧ ChainOf a ds t.book

/-- A message that shows the top of a replayed chain. -/
structure FromChain (a : Frame F) (ds : List (Frame F)) (d : OrderBookData F) : Prop where
  full : a.full = true
  chain : ChainFrom Covers Frame.last a.last ds
  bids : d.bids = topBids topN (replay Frame.bids a ds)
  asks : d.asks = topAsks topN (replay Frame.asks a ds)

/-- What a step must not do: every delta it applies covers the updates behind the local number,
and what it emits is a full frame followed by such deltas. -/
structure StepCovers (r : TextReader F) (feeds : Instruments (Tracked F))
    (l : SessionInput × Option (OrderBookData F)) (feeds' : Instruments (Tracked F)) : Prop where
  applied : ∀ symbol f t, frameIn r l.1 = some (symbol, f) → feeds symbol = some t →
    react t.book.seq f = .extend → Covers t.book.seq f
  emitted : ∀ d, l.2 = some d → ∃ t a ds, feeds' d.symbol = some t ∧ t.applied = a :: ds ∧
    FromChain a ds d

/-- A delta that goes beyond the local number states where it starts. -/
def StatesFirst (r : TextReader F) (feeds : Instruments (Tracked F))
    (l : SessionInput × Option (OrderBookData F)) (_ : Instruments (Tracked F)) : Prop :=
  ∀ symbol f t n u, frameIn r l.1 = some (symbol, f) → feeds symbol = some t → f.full = false →
    t.book.seq = some n → f.last = some u → n < u → f.first ≠ none

section Reactions
omit [F64 F] [LinearOrder F]
variable {seq : Option UInt64} {f : Frame F}

theorem react_anchor (h : react seq f = .anchor) : f.full = true := by
  unfold react at h
  split at h
  · assumption
  · split at h
    · split_ifs at h
      split at h
      · split_ifs at h
      · cases h
    · cases h

/-- What it takes to be applied: a number beyond the local one, and the right start if one is
stated. -/
theorem react_extend (h : react seq f = .extend) :
    f.full = false ∧ ∃ n u, seq = some n ∧ f.last = some u ∧ n < u ∧
      ∀ first, f.first = some first → first = n + 1 := by
  unfold react at h
  split at h
  · cases h
  · rename_i hfull
    split at h
    · rename_i n u hlast
      split_ifs at h with hstale
      refine ⟨Bool.eq_false_of_not_eq_true hfull, n, u, rfl, hlast, ?_, ?_⟩
      · exact UInt64.not_le.mp hstale
      · intro first hfirst
        rw [hfirst] at h
        dsimp only at h
        split_ifs at h with hgap
        exact not_not.mp hgap
    · cases h

theorem react_extend_of_missing {n u : UInt64} (hfull : f.full = false) (hseq : seq = some n)
    (hlast : f.last = some u) (hlt : n < u) (hfirst : f.first = none) :
    react seq f = .extend := by
  unfold react
  rw [hfull, hseq, hlast, hfirst]
  simp [UInt64.not_le.mpr hlt]

/-- An applied delta that states its start covers the next updates. -/
theorem covers_of_extend (h : react seq f = .extend) (hfirst : f.first ≠ none) :
    Covers seq f := by
  obtain ⟨hfull, n, u, hseq, hlast, hlt, hstart⟩ := react_extend h
  obtain ⟨first, hsome⟩ := Option.ne_none_iff_exists'.mp hfirst
  have hnext : HasNext n := by
    have hbound := u.toNat_lt
    rw [UInt64.lt_iff_toNat_lt] at hlt
    unfold HasNext
    omega
  refine ⟨hfull, n, first, u, hseq, hsome, hlast, ?_, ?_⟩
  · rw [hstart first hsome, toNat_succ hnext]
  · rw [UInt64.le_iff_toNat_le, hstart first hsome, toNat_succ hnext]
    exact UInt64.lt_iff_toNat_lt.mp hlt

end Reactions

section Chained
variable {t : Tracked F} {f : Frame F}

theorem chained_anchor (h : f.full = true) : (t.anchor f).Chained :=
  .inr ⟨f, [], rfl, h, trivial, rfl, rfl, rfl⟩

/-- A delta that covers the updates behind the local number extends the chain. -/
theorem Tracked.Chained.extend (h : t.Chained) (hf : Covers t.book.seq f) :
    (t.extend f).Chained := by
  obtain ⟨-, n, first, last, hseq, -, hlast, -⟩ := id hf
  rcases h with ⟨-, hnone⟩ | ⟨a, ds, happlied, hchain⟩
  · rw [hnone] at hseq
    cases hseq
  · rw [hchain.seq] at hf
    refine .inr ⟨a, ds ++ [f], ?_, hchain.full, hchain.chain.concat hf, ?_, ?_, ?_⟩
    · rw [Tracked.extend, happlied, List.cons_append]
    · rw [endFrom_concat, Tracked.extend, hlast]
      rfl
    · rw [Tracked.extend, applyDeltas_bids, hchain.bids, replay, replay, List.foldl_append]
      rfl
    · rw [Tracked.extend, applyDeltas_asks, hchain.asks, replay, replay, List.foldl_append]
      rfl

theorem Tracked.Chained.deliver (h : t.Chained) (g : Frame F) (receivedAt : I64) :
    (t.deliver g receivedAt).1.Chained := by
  obtain ⟨hsame, -⟩ := deliver_spec t.book g.exchTs receivedAt
  rcases h with ⟨happlied, hnone⟩ | ⟨a, ds, happlied, hchain⟩
  · exact .inl ⟨happlied, hsame.seq.trans hnone⟩
  · exact .inr ⟨a, ds, happlied, hchain.full, hchain.chain, hsame.seq.trans hchain.seq,
      hsame.bids.trans hchain.bids, hsame.asks.trans hchain.asks⟩

/-- What a book with a record hands over shows the chain on record. -/
theorem Tracked.Chained.fromChain (h : t.Chained) (hne : t.applied ≠ []) {g : Frame F}
    {receivedAt : I64} {d : OrderBookData F} (hd : (t.deliver g receivedAt).2 = some d) :
    ∃ a ds, t.applied = a :: ds ∧ FromChain a ds d := by
  have htop := (deliver_spec t.book g.exchTs receivedAt).2 d hd
  rcases h with ⟨hnil, -⟩ | ⟨a, ds, happlied, hchain⟩
  · exact absurd hnil hne
  · exact ⟨a, ds, happlied, hchain.full, hchain.chain, by rw [htop.bids, hchain.bids],
      by rw [htop.asks, hchain.asks]⟩

end Chained

/-- Every book stands under its own symbol and replays the chain on record. -/
def FeedsOk (feeds : Instruments (Tracked F)) : Prop :=
  ∀ symbol t, feeds symbol = some t → t.book.symbol = symbol ∧ t.Chained

theorem startFeeds_ok (r : TextReader F) (pairs : List String) : FeedsOk (startFeeds r pairs) := by
  intro symbol t h
  unfold startFeeds at h
  split_ifs at h
  obtain rfl := Option.some.inj h
  exact ⟨rfl, .inl ⟨rfl, rfl⟩⟩

section Steps
variable {r : TextReader F} {feeds feeds' : Instruments (Tracked F)}

theorem FeedsOk.set (h : FeedsOk feeds) {symbol : String} {t : Tracked F}
    (hsymbol : t.book.symbol = symbol) (hchained : t.Chained) : FeedsOk (feeds.set symbol t) := by
  intro s t' ht'
  by_cases hs : s = symbol
  · subst hs
    obtain rfl := Instruments.eq_of_set_same ht'
    exact ⟨hsymbol, hchained⟩
  · rw [Instruments.set_of_ne _ hs] at ht'
    exact h s t' ht'

/-- A book that was changed and handed over. -/
theorem FeedsOk.delivered (h : FeedsOk feeds) {symbol : String} {t : Tracked F}
    (hsymbol : t.book.symbol = symbol) (hchained : t.Chained) (hne : t.applied ≠ []) (f : Frame F)
    (receivedAt : I64) :
    FeedsOk (feeds.set symbol (t.deliver f receivedAt).1) ∧
      ∀ d, (t.deliver f receivedAt).2 = some d →
        ∃ t' a ds, feeds.set symbol (t.deliver f receivedAt).1 d.symbol = some t' ∧
          t'.applied = a :: ds ∧ FromChain a ds d := by
  obtain ⟨hsame, hout⟩ := deliver_spec t.book f.exchTs receivedAt
  refine ⟨h.set (hsame.symbol.trans hsymbol) (hchained.deliver f receivedAt), ?_⟩
  intro d hd
  obtain ⟨a, ds, happlied, hfrom⟩ := hchained.fromChain hne hd
  have hdsymbol : d.symbol = symbol := (hout d hd).symbol.trans hsymbol
  refine ⟨(t.deliver f receivedAt).1, a, ds, ?_, happlied, hfrom⟩
  rw [hdsymbol, Instruments.set_same]

/-- Everything a frame can lead to. -/
theorem onFrame_cases {symbol : String} {f : Frame F} {receivedAt : I64}
    {out : Option (OrderBookData F)} (h : onFrame feeds symbol f receivedAt = .ok (feeds', out)) :
    (feeds' = feeds ∧ out = none) ∨ ∃ t, feeds symbol = some t ∧
      ((react t.book.seq f = .anchor ∧
          feeds' = feeds.set symbol ((t.anchor f).deliver f receivedAt).1 ∧
          out = ((t.anchor f).deliver f receivedAt).2) ∨
        (react t.book.seq f = .extend ∧
          feeds' = feeds.set symbol ((t.extend f).deliver f receivedAt).1 ∧
          out = ((t.extend f).deliver f receivedAt).2)) := by
  unfold onFrame at h
  split at h
  · obtain ⟨rfl, rfl⟩ := Prod.mk.inj (Except.ok.inj h)
    exact .inl ⟨rfl, rfl⟩
  · rename_i t ht
    split at h
    · rename_i hreact
      obtain ⟨rfl, rfl⟩ := Prod.mk.inj (Except.ok.inj h)
      exact .inr ⟨t, ht, .inl ⟨hreact, rfl, rfl⟩⟩
    · rename_i hreact
      obtain ⟨rfl, rfl⟩ := Prod.mk.inj (Except.ok.inj h)
      exact .inr ⟨t, ht, .inr ⟨hreact, rfl, rfl⟩⟩
    · cases h
    · obtain ⟨rfl, rfl⟩ := Prod.mk.inj (Except.ok.inj h)
      exact .inl ⟨rfl, rfl⟩
    · obtain ⟨rfl, rfl⟩ := Prod.mk.inj (Except.ok.inj h)
      exact .inl ⟨rfl, rfl⟩

/-- A step with a frame in its input is that of the frame, any other step changes nothing. -/
theorem step_cases {l : SessionInput × Option (OrderBookData F)} (h : Step r feeds l feeds') :
    (frameIn r l.1 = none ∧ feeds' = feeds ∧ l.2 = none) ∨
      ∃ symbol f receivedAt, frameIn r l.1 = some (symbol, f) ∧
        onFrame feeds symbol f receivedAt = .ok (feeds', l.2) := by
  obtain ⟨input, out⟩ := l
  cases input with
  | text text receivedAt =>
    unfold Step sessionStep at h
    dsimp only at h
    cases hparse : parseFrame r text with
    | none =>
      rw [hparse] at h
      obtain ⟨hfeeds, hout⟩ := Prod.mk.inj (Except.ok.inj h)
      exact .inl ⟨hparse, hfeeds.symm, hout.symm⟩
    | some m =>
      rw [hparse] at h
      exact .inr ⟨m.1, m.2, receivedAt, hparse, h⟩
  | quiet =>
    obtain ⟨hfeeds, hout⟩ := Prod.mk.inj (Except.ok.inj h)
    exact .inl ⟨rfl, hfeeds.symm, hout.symm⟩
  | closed => cases h
  | broken error => cases h
  | pingFailed => cases h

/-- One step keeps the books in order if its delta states where it starts. -/
theorem step_covers {l : SessionInput × Option (OrderBookData F)} (hok : FeedsOk feeds)
    (h : Step r feeds l feeds') (hfirst : StatesFirst r feeds l feeds') :
    FeedsOk feeds' ∧ StepCovers r feeds l feeds' := by
  have happlied : ∀ symbol f t, frameIn r l.1 = some (symbol, f) → feeds symbol = some t →
      react t.book.seq f = .extend → Covers t.book.seq f := by
    intro symbol f t hframe ht hextend
    obtain ⟨hfull, n, u, hseq, hlast, hlt, -⟩ := react_extend hextend
    exact covers_of_extend hextend (hfirst symbol f t n u hframe ht hfull hseq hlast hlt)
  have hquiet : feeds' = feeds → l.2 = none → FeedsOk feeds' ∧ StepCovers r feeds l feeds' := by
    rintro rfl hout
    refine ⟨hok, happlied, ?_⟩
    intro d hd
    rw [hout] at hd
    cases hd
  rcases step_cases h with ⟨-, hfeeds, hout⟩ | ⟨symbol, f, receivedAt, hframe, hstep⟩
  · exact hquiet hfeeds hout
  · rcases onFrame_cases hstep with ⟨hfeeds, hout⟩ | ⟨t, ht, hcase⟩
    · exact hquiet hfeeds hout
    · obtain ⟨hsymbol, hchained⟩ := hok symbol t ht
      rcases hcase with ⟨hanchor, rfl, hout⟩ | ⟨hextend, rfl, hout⟩
      · obtain ⟨hkept, hemitted⟩ := hok.delivered (t := t.anchor f) hsymbol
          (chained_anchor (react_anchor hanchor)) (by simp [Tracked.anchor]) f receivedAt
        exact ⟨hkept, happlied, fun d hd => hemitted d (hout.symm.trans hd)⟩
      · have hcovers := happlied symbol f t hframe ht hextend
        obtain ⟨hkept, hemitted⟩ := hok.delivered (t := t.extend f) hsymbol
          (hchained.extend hcovers) (by simp [Tracked.extend]) f receivedAt
        exact ⟨hkept, happlied, fun d hd => hemitted d (hout.symm.trans hd)⟩

/-- A step that covers the next updates had a start to compare. -/
theorem StepCovers.statesFirst {l : SessionInput × Option (OrderBookData F)}
    (h : StepCovers r feeds l feeds') : StatesFirst r feeds l feeds' := by
  intro symbol f t n u hframe ht hfull hseq hlast hlt hfirst
  have hextend := react_extend_of_missing hfull hseq hlast hlt hfirst
  obtain ⟨-, _, first, _, -, hsome, -⟩ := h.applied symbol f t hframe ht hextend
  rw [hfirst] at hsome
  cases hsome

end Steps

/-- The sessions in which no delta crosses a gap are exactly those in which every delta that goes
beyond the local number states where it starts. -/
theorem deltas_cover_iff (r : TextReader F) (pairs : List String)
    (labels : List (SessionInput × Option (OrderBookData F))) (feeds : Instruments (Tracked F)) :
    Always (startFeeds r pairs) (Step r) (StepCovers r) labels feeds ↔
      Always (startFeeds r pairs) (Step r) (StatesFirst r) labels feeds := by
  constructor
  · exact Always.mono fun _ h => h.statesFirst
  · apply Always.of_invariant FeedsOk (startFeeds_ok r pairs)
    intro s l s' hok hstep hfirst
    exact step_covers hok hstep hfirst

section Example

def demoText (fields : List (String × JsonTree ExtRat)) : JsonTree ExtRat :=
  .obj [("result", .obj ([("s", .str "ob.BTC_USDT.400"), ("t", .posInt 1695716059516)] ++ fields))]

def demoRow (price quantity : UInt64) : JsonTree ExtRat :=
  .arr [.arr [.posInt price, .posInt quantity]]

/-- A snapshot at number 1, and a delta up to number 5 without a start. -/
def demoReader : TextReader ExtRat where
  fromStr
    | "full" => some (demoText [("full", .bool true), ("u", .posInt 1), ("b", demoRow 99 1),
        ("a", demoRow 101 1)])
    | "delta" => some (demoText [("u", .posInt 5), ("b", demoRow 98 1)])
    | _ => none
  parseFloat _ := none
  toUppercase := id
  toLowercase := id

def demoNow : I64 := I64.wrap 1695716059600

def demoFull : Frame ExtRat :=
  ⟨true, none, some 1, I64.ofU64 1695716059516, [(.fin 99, .fin 1)], [(.fin 101, .fin 1)]⟩

def demoDelta : Frame ExtRat :=
  ⟨false, none, some 5, I64.ofU64 1695716059516, [(.fin 98, .fin 1)], []⟩

def demoFirst : Tracked ExtRat × Option (OrderBookData ExtRat) :=
  ((Tracked.new "BTC_USDT").anchor demoFull).deliver demoFull demoNow

def demoSecond : Tracked ExtRat × Option (OrderBookData ExtRat) :=
  (demoFirst.1.extend demoDelta).deliver demoDelta demoNow

/-- The updates 2, 3 and 4 are missing, and the book is emitted at number 5. -/
theorem delta_without_start_crosses_gap :
    ∃ feeds, Run (startFeeds demoReader ["BTC_USDT"]) (Step demoReader)
        [(.text "delta" demoNow, demoSecond.2), (.text "full" demoNow, demoFirst.2)] feeds ∧
      feeds "BTC_USDT" = some demoSecond.1 ∧ demoSecond.1.applied = [demoFull, demoDelta] ∧
      demoSecond.1.book.seq = some 5 ∧ demoSecond.2.isSome = true ∧
      ¬ Covers (some 1) demoDelta := by
  have hfull : Step demoReader (startFeeds demoReader ["BTC_USDT"])
      (.text "full" demoNow, demoFirst.2)
      ((startFeeds demoReader ["BTC_USDT"]).set "BTC_USDT" demoFirst.1) := rfl
  have hdelta : Step demoReader
      ((startFeeds demoReader ["BTC_USDT"]).set "BTC_USDT" demoFirst.1)
      (.text "delta" demoNow, demoSecond.2)
      (((startFeeds demoReader ["BTC_USDT"]).set "BTC_USDT" demoFirst.1).set "BTC_USDT"
        demoSecond.1) := rfl
  refine ⟨_, .step (.step .start hfull) hdelta, Instruments.set_same _ _, rfl, by decide +kernel,
    by decide +kernel, ?_⟩
  rintro ⟨-, _, _, _, -, hfirst, -⟩
  cases hfirst

end Example

end Nuntius.Gate
