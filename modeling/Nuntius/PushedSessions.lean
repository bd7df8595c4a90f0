import Nuntius.BinanceFeed

/-!
# Sessions whose venues push their snapshots

After subscribing, most venues push everything: whole books, and changes that continue them. A
message may say something about several books. The collectors differ in how they read messages,
in the number they keep with a book (the one the venue states with the push, the one of the
message, or a counter of their own) and in which changes they take; the loop is the same.

A collector that checks numbers has the venue's book whatever is lost, repeated or swapped on
the way. One that does not has it as long as messages arrive as the venue sends them.
-/

namespace Nuntius.PushedSessions
open Collectors CobCommon LabelledRuns SequenceChains
open Binance (Tracks TopOfVenue SessionOk)

variable {F : Type} [F64 F] [LinearOrder F] {ι : Type}

/-! ### Messages -/

inductive Kind where
  | snapshot
  | update
  | other
  deriving DecidableEq

/-- What a message says about one book. -/
structure Push (F : Type) where
  instrument : String
  kind : Kind
  previous : Option UInt64
  number : Option UInt64
  exchTs : I64
  bids : List (F × F)
  asks : List (F × F)

/-- A refusal that ends the session, or what is said about books together with the number of
the message itself. -/
inductive Reading (F : Type) where
  | rejected (reason : String)
  | pushes (outer : Option UInt64) (list : List (Push F))

/-- A message that is about one book, or about none. -/
def Reading.single (p : Option (Push F)) : Reading F := .pushes none p.toList

/-- What a collector does with a push. -/
inductive Verdict where
  | skip
  | fail (reason : String)
  | replace
  | extend
  deriving DecidableEq

/-! ### The number kept with a book -/

inductive Numbering where
  | stated
  | outer
  | counted
  deriving DecidableEq

namespace Numbering

/-- The counter of a new session. -/
def start : Numbering → Option UInt64
  | counted => some 0
  | _ => none

/-- Numbers of messages have to be consecutive. -/
def onMessage (exchangeId : String) (counter : Option UInt64) :
    Numbering → Option UInt64 → Except String (Option UInt64)
  | outer, some seq =>
    match counter with
    | some last =>
      if seq ≠ last + 1 then .error (exchangeId ++ " sequence gap") else .ok (some seq)
    | none => .ok (some seq)
  | _, _ => .ok counter

/-- The counter after a push for a book of the session. -/
def onPush (counter : Option UInt64) : Numbering → Option UInt64
  | counted => counter.map (· + 1)
  | _ => counter

def number (counter : Option UInt64) (p : Push F) : Numbering → Option UInt64
  | stated => p.number
  | _ => counter

end Numbering

/-! ### The session -/

/-- What sets one collector apart from another. -/
structure Venue (ι F : Type) [LinearOrder F] where
  exchangeId : String
  key : String → String
  read : ι → Reading F
  numbering : Numbering
  verdict : LocalBook F → Push F → Verdict
  needsReady : Bool

structure Session (F : Type) [LinearOrder F] where
  books : Books F
  counter : Option UInt64

/-- A message with the time of its receipt, another frame or a timer, or an end of the connection
with what the session reports then. -/
inductive Input (ι : Type) where
  | message (m : ι) (receivedAt : I64)
  | quiet
  | lost (reason : String)

section Steps
variable (V : Venue ι F)

def start (pairs : List String) : Session F where
  books symbol :=
    if symbol ∈ pairs.map V.key then some (LocalBook.new V.exchangeId symbol) else none
  counter := V.numbering.start

def handOver (book : LocalBook F) (p : Push F) (receivedAt : I64) :
    LocalBook F × Option (OrderBookData F) :=
  if V.needsReady && !book.isReady then (book, none) else deliver book p.exchTs receivedAt

/-- Hand a changed book over and keep it. -/
def store (receivedAt : I64) (s : Session F) (p : Push F) (book : LocalBook F) :
    Session F × Option (OrderBookData F) :=
  let handed := handOver V book p receivedAt
  (⟨s.books.set p.instrument handed.1, V.numbering.onPush s.counter⟩, handed.2)

/-- The number that is kept with a book the push changes. -/
def keptNumber (s : Session F) (p : Push F) : Option UInt64 :=
  V.numbering.number (V.numbering.onPush s.counter) p

def onPush (receivedAt : I64) (s : Session F) (p : Push F) :
    Except String (Session F × Option (OrderBookData F)) :=
  match s.books p.instrument with
  | none => .ok (s, none)
  | some book =>
    match V.verdict book p with
    | .skip => .ok ({ s with counter := V.numbering.onPush s.counter }, none)
    | .fail reason => .error reason
    | .replace =>
      .ok (store V receivedAt s p (book.applySnapshot p.bids p.asks (keptNumber V s p)))
    | .extend =>
      .ok (store V receivedAt s p (book.applyDeltas p.bids p.asks (keptNumber V s p)))

/-- What one message emits, and the session after it. The pushes before the one that ends the
session have been handed over. -/
def onPushes (receivedAt : I64) (s : Session F) :
    List (Push F) → List (OrderBookData F) × Except String (Session F)
  | [] => ([], .ok s)
  | p :: rest =>
    match onPush V receivedAt s p with
    | .error reason => ([], .error reason)
    | .ok (s', out) =>
      let later := onPushes receivedAt s' rest
      (out.toList ++ later.1, later.2)

def onMessage (receivedAt : I64) (s : Session F) :
    Reading F → List (OrderBookData F) × Except String (Session F)
  | .rejected reason => ([], .error reason)
  | .pushes outer list =>
    match V.numbering.onMessage V.exchangeId s.counter outer with
    | .error reason => ([], .error reason)
    | .ok counter => onPushes V receivedAt { s with counter := counter } list

/-- One turn of the loop of `run_session`. -/
def step (s : Session F) : Input ι → List (OrderBookData F) × Except String (Session F)
  | .message m receivedAt => onMessage V receivedAt s (V.read m)
  | .quiet => ([], .ok s)
  | .lost reason => ([], .error reason)

/-- A turn of a session that has not ended, labelled with its input and what it emits. -/
def Step (state : Except String (Session F)) (l : Input ι × List (OrderBookData F))
    (state' : Except String (Session F)) : Prop :=
  ∃ s, state = .ok s ∧ step V s l.1 = (l.2, state')

end Steps

/-! ### What a push does -/

/-- Every book stands under its own symbol. -/
def OwnSymbols (books : Books F) : Prop :=
  ∀ symbol book, books symbol = some book → book.symbol = symbol

omit [F64 F] in
theorem OwnSymbols.set {books : Books F} (h : OwnSymbols books) {symbol : String}
    {book : LocalBook F} (hbook : book.symbol = symbol) : OwnSymbols (books.set symbol book) := by
  intro other b hb
  by_cases hs : other = symbol
  · subst hs
    obtain rfl := Instruments.eq_of_set_same hb
    exact hbook
  · rw [Instruments.set_of_ne _ hs] at hb
    exact h other b hb

section Cases
variable {V : Venue ι F} {receivedAt : I64} {s s' : Session F} {p : Push F}

/-- The book a push leaves. -/
inductive Changed (V : Venue ι F) (s : Session F) (p : Push F) (book : LocalBook F) :
    LocalBook F → Prop
  | replaced (verdict : V.verdict book p = .replace) :
      Changed V s p book (book.applySnapshot p.bids p.asks (keptNumber V s p))
  | extended (verdict : V.verdict book p = .extend) :
      Changed V s p book (book.applyDeltas p.bids p.asks (keptNumber V s p))

/-- A push changes no book, because it is about none of the session or is skipped, or it changes
its book, which is handed over. -/
theorem onPush_cases {out : Option (OrderBookData F)}
    (h : onPush V receivedAt s p = .ok (s', out)) :
    (s'.books = s.books ∧ out = none ∧
      ∀ book, s.books p.instrument = some book → V.verdict book p = .skip) ∨
    ∃ book book', s.books p.instrument = some book ∧ Changed V s p book book' ∧
      (s', out) = store V receivedAt s p book' := by
  unfold onPush at h
  split at h
  · rename_i hnone
    obtain ⟨rfl, rfl⟩ := Prod.mk.inj (Except.ok.inj h)
    refine .inl ⟨rfl, rfl, ?_⟩
    intro book hbook
    rw [hnone] at hbook
    cases hbook
  · rename_i book hbook
    split at h
    · rename_i hskip
      obtain ⟨rfl, rfl⟩ := Prod.mk.inj (Except.ok.inj h)
      refine .inl ⟨rfl, rfl, ?_⟩
      intro book' hbook'
      obtain rfl := Option.some.inj (hbook.symm.trans hbook')
      exact hskip
    · cases h
    · rename_i hreplace
      exact .inr ⟨book, _, hbook, .replaced hreplace, (Except.ok.inj h).symm⟩
    · rename_i hextend
      exact .inr ⟨book, _, hbook, .extended hextend, (Except.ok.inj h).symm⟩

theorem Changed.symbol {book book' : LocalBook F} (h : Changed V s p book book') :
    book'.symbol = book.symbol := by
  cases h <;> rfl

theorem handOver_spec (V : Venue ι F) (book : LocalBook F) (p : Push F) (receivedAt : I64) :
    SameBook book (handOver V book p receivedAt).1 ∧
      ∀ d, (handOver V book p receivedAt).2 = some d → TopOf book d := by
  unfold handOver
  split_ifs with hready
  · exact ⟨SameBook.refl book, by simp⟩
  · exact deliver_spec book p.exchTs receivedAt

end Cases

/-! ### What a venue may say -/

def Push.rows (p : Push F) : BookSide → List (F × F)
  | .bid => p.bids
  | .ask => p.asks

/-- The push is the full book after an update. -/
def IsBook (log : VenueLog F) (n : ℕ) (p : Push F) : Prop :=
  ∀ side price q, (price, q) ∈ p.rows side ↔ (log.after side n).get? price = some q

/-- The push states, for every level that changes behind update `m` and up to update `n`, what
it is after `n`. -/
structure Brings (log : VenueLog F) (m n : ℕ) (p : Push F) : Prop where
  forward : m ≤ n
  rows_true : ∀ side, ∀ row ∈ p.rows side, TrueRow (log.after side n) row
  covers : ∀ side price, log.Changed side (m + 1) n price → ∃ q, (price, q) ∈ p.rows side

/-- The book is the venue's after an update. -/
def AtUpdate (log : VenueLog F) (n : ℕ) (book : LocalBook F) : Prop :=
  book.bids = log.after .bid n ∧ book.asks = log.after .ask n

section Truth
variable {log : VenueLog F} {m n : ℕ} {p : Push F} {book book' : LocalBook F}

theorem AtUpdate.same (h : AtUpdate log n book) (hsame : SameBook book book') :
    AtUpdate log n book' :=
  ⟨hsame.bids.trans h.1, hsame.asks.trans h.2⟩

theorem AtUpdate.top (h : AtUpdate log n book) {d : OrderBookData F} (hd : TopOf book d) :
    TopOfVenue log n d :=
  ⟨by rw [hd.bids, h.1], by rw [hd.asks, h.2]⟩

/-- Nothing changes the venue's book in between. -/
theorem AtUpdate.idle (h : AtUpdate log n book)
    (hidle : ∀ side price, ¬ log.Changed side (n + 1) (n + 1) price) :
    AtUpdate log (n + 1) book := by
  have hsame : ∀ side, log.after side (n + 1) = log.after side n := by
    intro side
    apply Ladder.ext_get?
    intro price
    exact VenueLog.get?_after_of_unchanged (Nat.le_succ n) (hidle side price)
  exact ⟨h.1.trans (hsame .bid).symm, h.2.trans (hsame .ask).symm⟩

theorem atUpdate_snapshot (h : IsBook log n p) (book : LocalBook F) (number : Option UInt64) :
    AtUpdate log n (book.applySnapshot p.bids p.asks number) :=
  ⟨snapshotSide_eq (log.after_storable _ _) (h .bid),
    snapshotSide_eq (log.after_storable _ _) (h .ask)⟩

/-- Rows that bring a book from `m` to `n` also bring one in between to `n`. -/
theorem deltaSide_brings (h : Brings log m n p) {k : ℕ} (hm : m ≤ k) (hn : k ≤ n)
    (side : BookSide) : deltaSide (log.after side k) (p.rows side) = log.after side n := by
  apply deltaSide_eq (log.after_storable _ _) (h.rows_true side)
  intro price
  by_cases hchanged : log.Changed side (k + 1) n price
  · right
    apply h.covers side price
    obtain ⟨j, hj, hjn, hc⟩ := hchanged
    exact ⟨j, by omega, hjn, hc⟩
  · left
    exact (VenueLog.get?_after_of_unchanged hn hchanged).symm

theorem AtUpdate.deltas {k : ℕ} (hbook : AtUpdate log k book) (h : Brings log m n p)
    (hm : m ≤ k) (hn : k ≤ n) (number : Option UInt64) :
    AtUpdate log n (book.applyDeltas p.bids p.asks number) := by
  obtain ⟨hbids, hasks⟩ := hbook
  constructor
  · rw [applyDeltas_bids, hbids]
    exact deltaSide_brings h hm hn .bid
  · rw [applyDeltas_asks, hasks]
    exact deltaSide_brings h hm hn .ask

end Truth

/-! ### Collectors that check the numbers of pushes -/

section Numbers
variable (V : Venue ι F)

/-- The push carries this number, if it carries one. -/
def States (p : Push F) (n : ℕ) : Prop := ∀ k, p.number = some k → k.toNat = n

/-- A snapshot is the full book after some update, and an update brings a book from the number
it continues to its own, where `links` says which these are. -/
def TruePush (links : Push F → ℕ → ℕ → Prop) (log : VenueLog F) (p : Push F) : Prop :=
  match p.kind with
  | .snapshot => ∃ n, States p n ∧ IsBook log n p
  | .update => ∃ m n, links p m n ∧ Brings log m n p
  | .other => True

/-- What a message says about the pair is true. -/
def TrueInput (links : Push F → ℕ → ℕ → Prop) (log : VenueLog F) (pair : String) :
    Input ι → Prop
  | .message m _ => ∀ outer list, V.read m = .pushes outer list →
      ∀ p ∈ list, p.instrument = pair → TruePush links log p
  | _ => True

/-- A book emitted for the pair is the top of the venue's book after an update that the message
states. -/
def LabelOk (log : VenueLog F) (pair : String) (l : Input ι × List (OrderBookData F)) : Prop :=
  ∀ d ∈ l.2, d.symbol = pair →
    ∃ m receivedAt outer list p n, l.1 = .message m receivedAt ∧ V.read m = .pushes outer list ∧
      p ∈ list ∧ p.instrument = pair ∧ States p n ∧ TopOfVenue log n d

/-- Along every session whose messages about a pair are true, in whatever order and however
often they arrive, what is emitted for the pair is the top of the venue's book, and the local
book is the venue's after its number. -/
def FollowsNumbers (links : Push F → ℕ → ℕ → Prop) : Prop :=
  ∀ (log : VenueLog F) (pair : String) (pairs : List String)
    (labels : List (Input ι × List (OrderBookData F))) (state : Except String (Session F)),
    Always (.ok (start V pairs)) (Step V) (fun _ l _ => TrueInput V links log pair l.1)
      labels state →
    (∀ l ∈ labels, LabelOk V log pair l) ∧
      ∀ s book, state = .ok s → s.books pair = some book → Tracks log book

/-- Snapshots alone replace a book, and updates are taken only by a book at the number they
continue. -/
structure SoundVerdict (links : Push F → ℕ → ℕ → Prop) : Prop where
  stated : V.numbering = .stated
  replace : ∀ book p, V.verdict book p = .replace → p.kind = .snapshot
  extend : ∀ book p, V.verdict book p = .extend → p.kind = .update ∧
    ∀ m n, links p m n →
      ∃ j k, book.seq = some j ∧ j.toNat = m ∧ p.number = some k ∧ k.toNat = n

end Numbers

section FollowingNumbers
variable {V : Venue ι F} {links : Push F → ℕ → ℕ → Prop} {log : VenueLog F} {pair : String}
  {s s' : Session F} {p : Push F} {receivedAt : I64}

omit [F64 F] in
theorem start_book {V : Venue ι F} {pairs : List String} {symbol : String} {book : LocalBook F}
    (h : (start V pairs).books symbol = some book) : LocalBook.new V.exchangeId symbol = book := by
  unfold start at h
  dsimp only at h
  split_ifs at h
  exact Option.some.inj h

theorem start_ok (V : Venue ι F) (log : VenueLog F) (pair : String) (pairs : List String) :
    SessionOk log pair (start V pairs).books where
  symbols symbol book h := by
    obtain rfl := start_book h
    rfl
  tracks book h := by
    obtain rfl := start_book h
    intro n hn
    cases hn

/-- A changed book is the venue's after an update that the push states, and so is its number. -/
theorem Changed.tracks (hV : SoundVerdict V links) {book book' : LocalBook F}
    (h : Changed V s p book book') (hbook : Tracks log book) (hp : TruePush links log p) :
    ∃ n, States p n ∧ AtUpdate log n book' ∧ Tracks log book' := by
  have hnumber : keptNumber V s p = p.number := by
    rw [keptNumber, hV.stated]
    rfl
  unfold TruePush at hp
  cases h with
  | replaced hverdict =>
    rw [hV.replace book p hverdict] at hp
    obtain ⟨n, hstates, hfull⟩ := hp
    have hat := atUpdate_snapshot hfull book (keptNumber V s p)
    refine ⟨n, hstates, hat, ?_⟩
    intro k hk
    rw [hstates k (hnumber ▸ hk)]
    exact hat
  | extended hverdict =>
    obtain ⟨hkind, hlinks⟩ := hV.extend book p hverdict
    rw [hkind] at hp
    obtain ⟨m, n, hlink, hbrings⟩ := hp
    obtain ⟨j, k, hseq, rfl, hstated, rfl⟩ := hlinks m n hlink
    have hat := AtUpdate.deltas (hbook j hseq) hbrings le_rfl hbrings.forward (keptNumber V s p)
    refine ⟨k.toNat, ?_, hat, ?_⟩
    · intro k' hk'
      rw [Option.some.inj (hstated.symm.trans hk')]
    · intro k' hk'
      change (keptNumber V s p).or book.seq = some k' at hk'
      rw [hnumber, hstated, Option.some_or] at hk'
      obtain rfl := Option.some.inj hk'
      exact hat

theorem onPush_tracks (hV : SoundVerdict V links) (h : SessionOk log pair s.books)
    (hp : p.instrument = pair → TruePush links log p) {out : Option (OrderBookData F)}
    (hstep : onPush V receivedAt s p = .ok (s', out)) :
    SessionOk log pair s'.books ∧ ∀ d ∈ out.toList, d.symbol = pair →
      p.instrument = pair ∧ ∃ n, States p n ∧ TopOfVenue log n d := by
  rcases onPush_cases hstep with ⟨hbooks, rfl, -⟩ | ⟨book, book', hbook, hchanged, heq⟩
  · rw [hbooks]
    exact ⟨h, by simp⟩
  · obtain ⟨rfl, rfl⟩ := Prod.mk.inj heq
    obtain ⟨hsame, htop⟩ := handOver_spec V book' p receivedAt
    have hsymbol : book'.symbol = p.instrument :=
      hchanged.symbol.trans (h.symbols _ _ hbook)
    have htracks : p.instrument = pair →
        ∃ n, States p n ∧ AtUpdate log n book' ∧ Tracks log book' := by
      intro hpair
      exact hchanged.tracks hV (h.tracks book (hpair ▸ hbook)) (hp hpair)
    constructor
    · apply h.set (hsame.symbol.trans hsymbol)
      intro hpair
      obtain ⟨n, -, -, hnew⟩ := htracks hpair
      exact hnew.same hsame
    · intro d hd hpair
      have hdtop := htop d (Option.mem_toList.mp hd)
      have hinstrument : p.instrument = pair := by
        rw [← hsymbol, ← hdtop.symbol]
        exact hpair
      obtain ⟨n, hstates, hat, -⟩ := htracks hinstrument
      exact ⟨hinstrument, n, hstates, hat.top hdtop⟩

/-- The pushes of one message, one after the other. -/
theorem onPushes_tracks (receivedAt : I64) (hV : SoundVerdict V links) {list : List (Push F)}
    (h : SessionOk log pair s.books)
    (htrue : ∀ p ∈ list, p.instrument = pair → TruePush links log p) :
    (∀ d ∈ (onPushes V receivedAt s list).1, d.symbol = pair →
      ∃ p ∈ list, p.instrument = pair ∧ ∃ n, States p n ∧ TopOfVenue log n d) ∧
    ∀ s', (onPushes V receivedAt s list).2 = .ok s' → SessionOk log pair s'.books := by
  induction list generalizing s with
  | nil =>
    refine ⟨by simp [onPushes], ?_⟩
    intro s' hs'
    obtain rfl := Except.ok.inj hs'
    exact h
  | cons p rest ih =>
    rw [onPushes]
    cases hpush : onPush V receivedAt s p with
    | error reason => exact ⟨by simp, by simp⟩
    | ok result =>
      obtain ⟨s₁, out⟩ := result
      obtain ⟨hs₁, hout⟩ := onPush_tracks hV h (htrue p List.mem_cons_self) hpush
      obtain ⟨hlater, hend⟩ := ih hs₁ fun q hq => htrue q (List.mem_cons_of_mem _ hq)
      refine ⟨?_, hend⟩
      intro d hd hpair
      rcases List.mem_append.mp hd with hd | hd
      · exact ⟨p, List.mem_cons_self, hout d hd hpair⟩
      · obtain ⟨q, hq, hfound⟩ := hlater d hd hpair
        exact ⟨q, List.mem_cons_of_mem _ hq, hfound⟩

theorem step_tracks (hV : SoundVerdict V links) {input : Input ι}
    (h : SessionOk log pair s.books) (htrue : TrueInput V links log pair input) :
    LabelOk V log pair (input, (step V s input).1) ∧
      ∀ s', (step V s input).2 = .ok s' → SessionOk log pair s'.books := by
  cases input with
  | quiet =>
    refine ⟨by simp [LabelOk, step], ?_⟩
    intro s' hs'
    obtain rfl := Except.ok.inj hs'
    exact h
  | lost reason => exact ⟨by simp [LabelOk, step], by simp [step]⟩
  | message m receivedAt =>
    cases hread : V.read m with
    | rejected reason => exact ⟨by simp [LabelOk, step, hread, onMessage],
        by simp [step, hread, onMessage]⟩
    | pushes outer list =>
      have hcounter : V.numbering.onMessage V.exchangeId s.counter outer = .ok s.counter := by
        rw [hV.stated]
        rfl
      have hstep : step V s (.message m receivedAt) = onPushes V receivedAt s list := by
        simp only [step, hread, onMessage, hcounter]
      obtain ⟨hout, hend⟩ := onPushes_tracks receivedAt hV h (htrue outer list hread)
      rw [hstep]
      refine ⟨?_, hend⟩
      intro d hd hpair
      obtain ⟨p, hp, hinstrument, n, hstates, htop⟩ := hout d hd hpair
      exact ⟨m, receivedAt, outer, list, p, n, rfl, hread, hp, hinstrument, hstates, htop⟩

theorem followsNumbers_of_sound (hV : SoundVerdict V links) : FollowsNumbers V links := by
  intro log pair pairs labels state run
  have hinv : (∀ l ∈ labels, LabelOk V log pair l) ∧
      ∀ s, state = .ok s → SessionOk log pair s.books := by
    induction run with
    | start =>
      refine ⟨by simp, ?_⟩
      intro s hs
      obtain rfl := Except.ok.inj hs
      exact start_ok V log pair pairs
    | @step _ _ l _ before now ih =>
      obtain ⟨hlabels, hok⟩ := ih
      obtain ⟨⟨s, rfl, hstep⟩, htrue⟩ := now
      obtain ⟨hlabel, hend⟩ := step_tracks hV (hok s rfl) htrue
      rw [hstep] at hlabel hend
      refine ⟨?_, hend⟩
      intro l' hl'
      rcases List.mem_cons.mp hl' with rfl | hl'
      · exact hlabel
      · exact hlabels l' hl'
  refine ⟨hinv.1, ?_⟩
  intro s book hs hbook
  exact (hinv.2 s hs).tracks book hbook

end FollowingNumbers

/-! ### Collectors that take updates as they come -/

/-- While the venue goes from one update to the next, a message says everything about a pair: a
snapshot is the full book after it, an update contains all changes, and if there is neither then
nothing changes. -/
structure TrueStep (log : VenueLog F) (pair : String) (n : ℕ) (list : List (Push F)) : Prop where
  snapshot : ∀ p ∈ list, p.instrument = pair → p.kind = .snapshot → IsBook log (n + 1) p
  update : ∀ p ∈ list, p.instrument = pair → p.kind = .update → Brings log n (n + 1) p
  silent : (∀ p ∈ list, p.instrument = pair → p.kind = .other) →
    ∀ side price, ¬ log.Changed side (n + 1) (n + 1) price

/-- Every snapshot replaces the book, and every update is taken by a book that is ready. -/
structure ReadyVerdict (V : Venue ι F) : Prop where
  replace : ∀ book p, V.verdict book p = .replace → p.kind = .snapshot
  extend : ∀ book p, V.verdict book p = .extend → p.kind = .update ∧ book.isReady = true
  skip : ∀ book p, V.verdict book p = .skip → p.kind = .other ∨ book.isReady = false

/-- Every book stands under its own symbol, and that of the pair is the venue's after an update,
if it is ready. -/
structure Follows (log : VenueLog F) (pair : String) (n : ℕ) (s : Session F) : Prop where
  symbols : OwnSymbols s.books
  ready : ∀ book, s.books pair = some book → book.isReady = true → AtUpdate log n book

section FollowingReady
variable {V : Venue ι F} {log : VenueLog F} {pair : String} {n : ℕ} {s s' : Session F}
  {p : Push F} {receivedAt : I64}

/-- In the middle of a message the book of the pair may still be the venue's before it, while a
push for the pair is left. -/
structure Catching (log : VenueLog F) (pair : String) (n : ℕ) (left : List (Push F))
    (s : Session F) : Prop where
  symbols : OwnSymbols s.books
  ready : ∀ book, s.books pair = some book → book.isReady = true →
    AtUpdate log (n + 1) book ∨
      AtUpdate log n book ∧ ∃ p ∈ left, p.instrument = pair ∧ p.kind ≠ .other

theorem Follows.catching (h : Follows log pair n s) {list : List (Push F)}
    (htrue : TrueStep log pair n list) : Catching log pair n list s where
  symbols := h.symbols
  ready book hbook hready := by
    have hat := h.ready book hbook hready
    by_cases hsilent : ∀ p ∈ list, p.instrument = pair → p.kind = .other
    · exact .inl (hat.idle (htrue.silent hsilent))
    · push Not at hsilent
      exact .inr ⟨hat, hsilent⟩

theorem Catching.follows (h : Catching log pair n [] s) : Follows log pair (n + 1) s where
  symbols := h.symbols
  ready book hbook hready := by
    rcases h.ready book hbook hready with hat | ⟨-, p, hp, -⟩
    · exact hat
    · cases hp

/-- A book that takes a push for the pair is the venue's after it. -/
theorem Changed.catches (hV : ReadyVerdict V) {list : List (Push F)}
    (htrue : TrueStep log pair n list) (hp : p ∈ list) (hpair : p.instrument = pair)
    {book book' : LocalBook F} (h : Changed V s p book book')
    (hbook : book.isReady = true → AtUpdate log n book ∨ AtUpdate log (n + 1) book) :
    AtUpdate log (n + 1) book' := by
  cases h with
  | replaced hverdict =>
    exact atUpdate_snapshot (htrue.snapshot p hp hpair (hV.replace book p hverdict)) _ _
  | extended hverdict =>
    obtain ⟨hkind, hready⟩ := hV.extend book p hverdict
    have hbrings := htrue.update p hp hpair hkind
    rcases hbook hready with hat | hat
    · exact hat.deltas hbrings le_rfl (Nat.le_succ n) _
    · exact hat.deltas hbrings (Nat.le_succ n) le_rfl _

theorem onPush_catching (hV : ReadyVerdict V) {list rest : List (Push F)}
    (htrue : TrueStep log pair n list) (hp : p ∈ list) (h : Catching log pair n (p :: rest) s)
    {out : Option (OrderBookData F)} (hstep : onPush V receivedAt s p = .ok (s', out)) :
    Catching log pair n rest s' ∧
      ∀ d ∈ out.toList, d.symbol = pair → TopOfVenue log (n + 1) d := by
  rcases onPush_cases hstep with ⟨hbooks, rfl, hskip⟩ | ⟨book, book', hbook, hchanged, heq⟩
  · refine ⟨⟨by rw [hbooks]; exact h.symbols, ?_⟩, by simp⟩
    intro book hbook hready
    rw [hbooks] at hbook
    rcases h.ready book hbook hready with hat | ⟨hat, q, hq, hqpair, hqkind⟩
    · exact .inl hat
    · rcases List.mem_cons.mp hq with rfl | hq
      · rcases hV.skip book q (hskip book (hqpair ▸ hbook)) with hother | hunready
        · exact absurd hother hqkind
        · rw [hready] at hunready
          cases hunready
      · exact .inr ⟨hat, q, hq, hqpair, hqkind⟩
  · obtain ⟨rfl, rfl⟩ := Prod.mk.inj heq
    obtain ⟨hsame, htop⟩ := handOver_spec V book' p receivedAt
    have hsymbol : book'.symbol = p.instrument := hchanged.symbol.trans (h.symbols _ _ hbook)
    have hat : p.instrument = pair → AtUpdate log (n + 1) book' := by
      intro hpair
      apply hchanged.catches hV htrue hp hpair
      intro hready
      rcases h.ready book (hpair ▸ hbook) hready with hlater | ⟨hnow, -⟩
      · exact .inr hlater
      · exact .inl hnow
    constructor
    · refine ⟨h.symbols.set (hsame.symbol.trans hsymbol), ?_⟩
      intro b hb hready
      by_cases hs : pair = p.instrument
      · subst hs
        obtain rfl := Instruments.eq_of_set_same hb
        exact .inl ((hat rfl).same hsame)
      · have hold : s.books pair = some b := (Instruments.set_of_ne _ hs _).symm.trans hb
        rcases h.ready b hold hready with hlater | ⟨hnow, q, hq, hqpair, hqkind⟩
        · exact .inl hlater
        · rcases List.mem_cons.mp hq with rfl | hq
          · exact absurd hqpair.symm hs
          · exact .inr ⟨hnow, q, hq, hqpair, hqkind⟩
    · intro d hd hpair
      have hdtop := htop d (Option.mem_toList.mp hd)
      exact (hat (by rw [← hsymbol, ← hdtop.symbol, hpair])).top hdtop

theorem onPushes_catching (hV : ReadyVerdict V) {list left : List (Push F)}
    (htrue : TrueStep log pair n list) (hleft : ∀ p ∈ left, p ∈ list)
    (h : Catching log pair n left s) :
    (∀ d ∈ (onPushes V receivedAt s left).1, d.symbol = pair → TopOfVenue log (n + 1) d) ∧
      ∀ s', (onPushes V receivedAt s left).2 = .ok s' → Follows log pair (n + 1) s' := by
  induction left generalizing s with
  | nil =>
    refine ⟨by simp [onPushes], ?_⟩
    intro s' hs'
    obtain rfl := Except.ok.inj hs'
    exact h.follows
  | cons p rest ih =>
    rw [onPushes]
    cases hpush : onPush V receivedAt s p with
    | error reason => exact ⟨by simp, by simp⟩
    | ok result =>
      obtain ⟨s₁, out⟩ := result
      obtain ⟨hs₁, hout⟩ := onPush_catching hV htrue (hleft p List.mem_cons_self) h hpush
      obtain ⟨hlater, hend⟩ := ih (fun q hq => hleft q (List.mem_cons_of_mem _ hq)) hs₁
      refine ⟨?_, hend⟩
      intro d hd hpair
      rcases List.mem_append.mp hd with hd | hd
      · exact hout d hd hpair
      · exact hlater d hd hpair

/-- One message that says everything about the step of the venue. -/
theorem onPushes_follows (receivedAt : I64) (hV : ReadyVerdict V) {list : List (Push F)}
    (htrue : TrueStep log pair n list) (h : Follows log pair n s) :
    (∀ d ∈ (onPushes V receivedAt s list).1, d.symbol = pair → TopOfVenue log (n + 1) d) ∧
      ∀ s', (onPushes V receivedAt s list).2 = .ok s' → Follows log pair (n + 1) s' :=
  onPushes_catching hV htrue (fun _ hp => hp) (h.catching htrue)

theorem start_follows (V : Venue ι F) (log : VenueLog F) (pair : String) (pairs : List String)
    (n : ℕ) : Follows log pair n (start V pairs) where
  symbols := (start_ok V log pair pairs).symbols
  ready book hbook hready := by
    obtain rfl := start_book hbook
    cases hready

/-! ### Messages in the order of the venue -/

/-- What an input says about books. -/
def pushesOf (V : Venue ι F) : Input ι → List (Push F)
  | .message m _ =>
    match V.read m with
    | .pushes _ list => list
    | .rejected _ => []
  | _ => []

/-- The inputs, the oldest last, say what the venue does from one update to the next. -/
def TrueStream (V : Venue ι F) (log : VenueLog F) (pair : String) :
    List (Input ι × List (OrderBookData F)) → Prop
  | [] => True
  | l :: older => TrueStep log pair older.length (pushesOf V l.1) ∧ TrueStream V log pair older

/-- What is emitted for the pair with each input is the top of the venue's book at its place. -/
def EmittedInOrder (log : VenueLog F) (pair : String) :
    List (Input ι × List (OrderBookData F)) → Prop
  | [] => True
  | l :: older => (∀ d ∈ l.2, d.symbol = pair → TopOfVenue log (older.length + 1) d) ∧
      EmittedInOrder log pair older

/-- If everything the venue sends arrives, and in order, then what is emitted for a pair is the
top of the venue's book at that moment, and a book that is ready is the venue's. -/
def FollowsInOrder (V : Venue ι F) : Prop :=
  ∀ (log : VenueLog F) (pair : String) (pairs : List String)
    (labels : List (Input ι × List (OrderBookData F))) (state : Except String (Session F)),
    Run (.ok (start V pairs)) (Step V) labels state → TrueStream V log pair labels →
    EmittedInOrder log pair labels ∧
      ∀ s book, state = .ok s → s.books pair = some book → book.isReady = true →
        AtUpdate log labels.length book

theorem step_inOrder (hV : ReadyVerdict V) {input : Input ι} (h : Follows log pair n s)
    (htrue : TrueStep log pair n (pushesOf V input)) :
    (∀ d ∈ (step V s input).1, d.symbol = pair → TopOfVenue log (n + 1) d) ∧
      ∀ s', (step V s input).2 = .ok s' → Follows log pair (n + 1) s' := by
  cases input with
  | quiet =>
    refine ⟨by simp [step], ?_⟩
    intro s' hs'
    obtain rfl := Except.ok.inj hs'
    exact (h.catching htrue).follows
  | lost reason => exact ⟨by simp [step], by simp [step]⟩
  | message m receivedAt =>
    simp only [step, pushesOf] at htrue ⊢
    cases hread : V.read m with
    | rejected reason => exact ⟨by simp [onMessage], by simp [onMessage]⟩
    | pushes outer list =>
      rw [hread] at htrue
      rw [onMessage]
      cases V.numbering.onMessage V.exchangeId s.counter outer with
      | error reason => exact ⟨by simp, by simp⟩
      | ok counter => exact onPushes_follows receivedAt hV htrue ⟨h.symbols, h.ready⟩

theorem followsInOrder_of_ready (hV : ReadyVerdict V) : FollowsInOrder V := by
  intro log pair pairs labels state run
  have hinv : TrueStream V log pair labels → EmittedInOrder log pair labels ∧
      ∀ s, state = .ok s → Follows log pair labels.length s := by
    induction run with
    | start =>
      intro _
      refine ⟨trivial, ?_⟩
      intro s hs
      obtain rfl := Except.ok.inj hs
      exact start_follows V log pair pairs 0
    | @step _ _ l _ before now ih =>
      rintro ⟨htrue, holder⟩
      obtain ⟨hemitted, hfollows⟩ := ih holder
      obtain ⟨s, rfl, hstep⟩ := now
      obtain ⟨hout, hend⟩ := step_inOrder hV (hfollows s rfl) htrue
      rw [hstep] at hout hend
      exact ⟨⟨hout, hemitted⟩, hend⟩
  intro htrue
  obtain ⟨hemitted, hfollows⟩ := hinv htrue
  exact ⟨hemitted, fun s book hs hbook hready => (hfollows s hs).ready book hbook hready⟩

/-! ### Messages with numbers of their own -/

/-- The message with number `k` says what the venue does from update `k` to the next one, and
only messages with a number say something about the pair. -/
def TrueMessage (log : VenueLog F) (pair : String) (s : Session F) (outer : Option UInt64)
    (list : List (Push F)) : Prop :=
  match outer with
  | some k => (∀ last, s.counter = some last → HasNext last) ∧ TrueStep log pair k.toNat list
  | none => ∀ p ∈ list, p.instrument ≠ pair

def TrueNumbered (V : Venue ι F) (log : VenueLog F) (pair : String)
    (state : Except String (Session F)) : Input ι → Prop
  | .message m _ => ∀ s outer list, state = .ok s → V.read m = .pushes outer list →
      TrueMessage log pair s outer list
  | _ => True

/-- A book emitted for the pair is the top of the venue's book after the message with it. -/
def NumberedOk (V : Venue ι F) (log : VenueLog F) (pair : String)
    (l : Input ι × List (OrderBookData F)) : Prop :=
  ∀ d ∈ l.2, d.symbol = pair →
    ∃ m receivedAt k list, l.1 = .message m receivedAt ∧ V.read m = .pushes (some k) list ∧
      TopOfVenue log (k.toNat + 1) d

/-- Along every session whose messages are true, in whatever order and however often they
arrive, what is emitted for a pair is the top of the venue's book after the message, and a book
that is ready is the venue's after the last message taken. -/
def FollowsMessages (V : Venue ι F) : Prop :=
  ∀ (log : VenueLog F) (pair : String) (pairs : List String)
    (labels : List (Input ι × List (OrderBookData F))) (state : Except String (Session F)),
    Always (.ok (start V pairs)) (Step V) (fun state l _ => TrueNumbered V log pair state l.1)
      labels state →
    (∀ l ∈ labels, NumberedOk V log pair l) ∧
      ∀ s book, state = .ok s → s.books pair = some book → book.isReady = true →
        ∃ last, s.counter = some last ∧ AtUpdate log (last.toNat + 1) book

/-- The counter is the number of the last message, and ready books are the venue's after it. -/
structure Numbered (log : VenueLog F) (pair : String) (s : Session F) : Prop where
  symbols : OwnSymbols s.books
  ready : ∀ book, s.books pair = some book → book.isReady = true →
    ∃ last, s.counter = some last ∧ AtUpdate log (last.toNat + 1) book

/-- The counter changes with messages only. -/
theorem onPush_counter (hV : V.numbering = .outer) {out : Option (OrderBookData F)}
    (hstep : onPush V receivedAt s p = .ok (s', out)) : s'.counter = s.counter := by
  unfold onPush store at hstep
  rw [hV] at hstep
  split at hstep
  · obtain ⟨rfl, -⟩ := Prod.mk.inj (Except.ok.inj hstep)
    rfl
  · split at hstep
    · obtain ⟨rfl, -⟩ := Prod.mk.inj (Except.ok.inj hstep)
      rfl
    · cases hstep
    · obtain ⟨rfl, -⟩ := Prod.mk.inj (Except.ok.inj hstep)
      rfl
    · obtain ⟨rfl, -⟩ := Prod.mk.inj (Except.ok.inj hstep)
      rfl

theorem onPushes_counter (hV : V.numbering = .outer) {list : List (Push F)}
    (hend : (onPushes V receivedAt s list).2 = .ok s') : s'.counter = s.counter := by
  induction list generalizing s with
  | nil =>
    obtain rfl := Except.ok.inj hend
    rfl
  | cons p rest ih =>
    rw [onPushes] at hend
    cases hpush : onPush V receivedAt s p with
    | error reason =>
      rw [hpush] at hend
      cases hend
    | ok result =>
      obtain ⟨s₁, out⟩ := result
      rw [hpush] at hend
      exact (ih hend).trans (onPush_counter hV hpush)

/-- A message without a word about the pair leaves its book alone. -/
theorem onPushes_elsewhere (V : Venue ι F) (receivedAt : I64) {list : List (Push F)}
    (hlist : ∀ p ∈ list, p.instrument ≠ pair)
    (hsymbols : OwnSymbols s.books) :
    (∀ d ∈ (onPushes V receivedAt s list).1, d.symbol ≠ pair) ∧
      ∀ s', (onPushes V receivedAt s list).2 = .ok s' →
        s'.books pair = s.books pair ∧ OwnSymbols s'.books := by
  induction list generalizing s with
  | nil =>
    refine ⟨by simp [onPushes], ?_⟩
    intro s' hs'
    obtain rfl := Except.ok.inj hs'
    exact ⟨rfl, hsymbols⟩
  | cons p rest ih =>
    rw [onPushes]
    have hrest : ∀ q ∈ rest, q.instrument ≠ pair := fun q hq => hlist q (List.mem_cons_of_mem _ hq)
    cases hpush : onPush V receivedAt s p with
    | error reason => exact ⟨by simp, by simp⟩
    | ok result =>
      obtain ⟨s₁, out⟩ := result
      rcases onPush_cases hpush with ⟨hbooks, rfl, -⟩ | ⟨book, book', hbook, hchanged, heq⟩
      · obtain ⟨hlater, hend⟩ := ih (s := s₁) hrest (by rw [hbooks]; exact hsymbols)
        rw [hbooks] at hend
        exact ⟨by simpa using hlater, hend⟩
      · obtain ⟨rfl, rfl⟩ := Prod.mk.inj heq
        obtain ⟨hsame, htop⟩ := handOver_spec V book' p receivedAt
        have hsymbol : book'.symbol = p.instrument := hchanged.symbol.trans (hsymbols _ _ hbook)
        obtain ⟨hlater, hend⟩ := ih (s := (store V receivedAt s p book').1) hrest
          (hsymbols.set (hsame.symbol.trans hsymbol))
        constructor
        · intro d hd
          rcases List.mem_append.mp hd with hd | hd
          · rw [(htop d (Option.mem_toList.mp hd)).symbol, hsymbol]
            exact hlist p List.mem_cons_self
          · exact hlater d hd
        · intro s' hs'
          obtain ⟨hpair, hsym⟩ := hend s' hs'
          refine ⟨hpair.trans ?_, hsym⟩
          exact Instruments.set_of_ne _ (hlist p List.mem_cons_self).symm _

/-- The number a message brings is the next one, if there was one before. -/
theorem onMessage_outer {exchangeId : String} {counter counter' : Option UInt64} {k : UInt64}
    (h : Numbering.onMessage exchangeId counter .outer (some k) = .ok counter') :
    counter' = some k ∧ ∀ last, counter = some last → k = last + 1 := by
  unfold Numbering.onMessage at h
  cases counter with
  | none =>
    obtain rfl := Except.ok.inj h
    exact ⟨rfl, by simp⟩
  | some last =>
    dsimp only at h
    split_ifs at h with hgap
    obtain rfl := Except.ok.inj h
    refine ⟨rfl, ?_⟩
    intro last' hlast
    obtain rfl := Option.some.inj hlast
    exact not_not.mp hgap

theorem message_numbered (receivedAt : I64) (hV : ReadyVerdict V) (hnum : V.numbering = .outer)
    (h : Numbered log pair s) {outer : Option UInt64} {list : List (Push F)}
    (htrue : TrueMessage log pair s outer list) :
    (∀ d ∈ (onMessage V receivedAt s (.pushes outer list)).1, d.symbol = pair →
      ∃ k, outer = some k ∧ TopOfVenue log (k.toNat + 1) d) ∧
    ∀ s', (onMessage V receivedAt s (.pushes outer list)).2 = .ok s' → Numbered log pair s' := by
  rw [onMessage]
  cases hcounter : V.numbering.onMessage V.exchangeId s.counter outer with
  | error reason => exact ⟨by simp, by simp⟩
  | ok counter =>
    rw [hnum] at hcounter
    cases outer with
    | none =>
      obtain rfl := Except.ok.inj hcounter
      obtain ⟨hout, hend⟩ := onPushes_elsewhere V receivedAt htrue h.symbols
      refine ⟨fun d hd hpair => absurd hpair (hout d hd), ?_⟩
      intro s' hs'
      obtain ⟨hpair, hsymbols⟩ := hend s' hs'
      refine ⟨hsymbols, ?_⟩
      intro book hbook hready
      rw [hpair] at hbook
      rw [onPushes_counter hnum hs']
      exact h.ready book hbook hready
    | some k =>
      obtain ⟨rfl, hnext⟩ := onMessage_outer hcounter
      obtain ⟨hbound, hstep⟩ := htrue
      have hfollows : Follows log pair k.toNat { s with counter := some k } := by
        refine ⟨h.symbols, ?_⟩
        intro book hbook hready
        obtain ⟨last, hlast, hat⟩ := h.ready book hbook hready
        rw [hnext last hlast, toNat_succ (hbound last hlast)]
        exact hat
      obtain ⟨hout, hend⟩ := onPushes_follows receivedAt hV hstep hfollows
      refine ⟨fun d hd hpair => ⟨k, rfl, hout d hd hpair⟩, ?_⟩
      intro s' hs'
      have hs := hend s' hs'
      refine ⟨hs.symbols, ?_⟩
      intro book hbook hready
      exact ⟨k, onPushes_counter hnum hs', hs.ready book hbook hready⟩

theorem step_numbered (hV : ReadyVerdict V) (hnum : V.numbering = .outer) {input : Input ι}
    (h : Numbered log pair s) (htrue : TrueNumbered V log pair (.ok s) input) :
    NumberedOk V log pair (input, (step V s input).1) ∧
      ∀ s', (step V s input).2 = .ok s' → Numbered log pair s' := by
  cases input with
  | quiet =>
    refine ⟨by simp [NumberedOk, step], ?_⟩
    intro s' hs'
    obtain rfl := Except.ok.inj hs'
    exact h
  | lost reason => exact ⟨by simp [NumberedOk, step], by simp [step]⟩
  | message m receivedAt =>
    simp only [step]
    cases hread : V.read m with
    | rejected reason => exact ⟨by simp [NumberedOk, onMessage], by simp [onMessage]⟩
    | pushes outer list =>
      obtain ⟨hout, hend⟩ := message_numbered receivedAt hV hnum h (htrue s outer list rfl hread)
      refine ⟨?_, hend⟩
      intro d hd hpair
      obtain ⟨k, rfl, htop⟩ := hout d hd hpair
      exact ⟨m, receivedAt, k, list, rfl, hread, htop⟩

theorem followsMessages_of_ready (hV : ReadyVerdict V) (hnum : V.numbering = .outer) :
    FollowsMessages V := by
  intro log pair pairs labels state run
  have hinv : (∀ l ∈ labels, NumberedOk V log pair l) ∧
      ∀ s, state = .ok s → Numbered log pair s := by
    induction run with
    | start =>
      refine ⟨by simp, ?_⟩
      intro s hs
      obtain rfl := Except.ok.inj hs
      refine ⟨(start_ok V log pair pairs).symbols, ?_⟩
      intro book hbook hready
      obtain rfl := start_book hbook
      cases hready
    | @step _ _ l _ before now ih =>
      obtain ⟨hlabels, hok⟩ := ih
      obtain ⟨⟨s, rfl, hstep⟩, htrue⟩ := now
      obtain ⟨hlabel, hend⟩ := step_numbered hV hnum (hok s rfl) htrue
      rw [hstep] at hlabel hend
      refine ⟨?_, hend⟩
      intro l' hl'
      rcases List.mem_cons.mp hl' with rfl | hl'
      · exact hlabel
      · exact hlabels l' hl'
  exact ⟨hinv.1, fun s book hs hbook hready => (hinv.2 s hs).ready book hbook hready⟩

end FollowingReady

end Nuntius.PushedSessions
