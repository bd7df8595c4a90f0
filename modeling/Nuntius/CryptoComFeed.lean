import Mathlib.Data.List.TakeWhile
import Nuntius.SequenceChains
import Nuntius.VenueFrames

/-!
# The Crypto.com session

A message carries several items. A `book` message replaces the book with each of its items, a
`book.update` message carries deltas, each of which names the number it continues. The loop over
the deltas compares every one of them with the number the book had before the message, so a
chain of two deltas ends the session and a second delta from the same number is applied.
-/

namespace Nuntius.CryptoCom
open Collectors JsonTrees CobCommon SequenceChains

variable {F : Type} [F64 F] [LinearOrder F]

/-! ### Messages -/

inductive Channel where
  | book
  | bookUpdate
  | other
  deriving DecidableEq

def readChannel : String → Channel
  | "book" => .book
  | "book.update" => .bookUpdate
  | _ => .other

structure Message (F : Type) where
  channel : Channel
  symbol : String
  items : List (JsonTree F)

/-- Heartbeats are answered, and like texts of another kind they leave the books alone. -/
def parseMessage (r : TextReader F) (text : String) : Option (Message F) := do
  let v ← r.fromStr text
  guard ((v.get "method").bind JsonTree.asStr ≠ some "public/heartbeat")
  let result ← v.get "result"
  let symbol ← (result.get "instrument_name").bind JsonTree.asStr
  let items ← (result.get "data").bind JsonTree.asArray
  some
    { channel := readChannel (((result.get "channel").bind JsonTree.asStr).getD "")
      symbol := r.toUppercase symbol
      items }

/-- A delta with the number it continues and the number it ends at. -/
structure Update (F : Type) where
  pu : UInt64
  u : UInt64
  exchTs : I64
  bids : List (F × F)
  asks : List (F × F)

def readUpdate (r : TextReader F) (item : JsonTree F) (pu u : UInt64) : Update F :=
  let upd := (item.get "update").getD item
  { pu, u
    exchTs := parseExchTs (item.get "t")
    bids := parseLevels r (upd.get "bids")
    asks := parseLevels r (upd.get "asks") }

/-- An item that carries both numbers. -/
def parseUpdate (r : TextReader F) (item : JsonTree F) : Option (Update F) := do
  let pu ← (item.get "pu").bind parseU64
  let u ← (item.get "u").bind parseU64
  some (readUpdate r item pu u)

/-! ### The session -/

def applyUpdate (book : LocalBook F) (d : Update F) : LocalBook F :=
  book.applyDeltas d.bids d.asks (some d.u)

/-- How far the loop over the items of a message is: the book, the deltas applied so far and
the messages emitted, the oldest first. -/
structure Progress (F : Type) [LinearOrder F] where
  book : LocalBook F
  applied : List (Update F)
  emitted : List (OrderBookData F)

def Progress.apply (p : Progress F) (d : Update F) (receivedAt : I64) : Progress F :=
  let delivered := deliver (applyUpdate p.book d) d.exchTs receivedAt
  ⟨delivered.1, p.applied ++ [d], p.emitted ++ delivered.2.toList⟩

def snapshotItems (r : TextReader F) (receivedAt : I64) :
    Progress F → List (JsonTree F) → Progress F
  | p, [] => p
  | p, item :: items =>
    let book := p.book.applySnapshot (parseLevels r (item.get "bids"))
      (parseLevels r (item.get "asks")) ((item.get "u").bind parseU64)
    let delivered := deliver book (parseExchTs (item.get "t")) receivedAt
    snapshotItems r receivedAt ⟨delivered.1, p.applied, p.emitted ++ delivered.2.toList⟩ items

/-- `localSeq` is read once, before the loop. -/
def updateItems (r : TextReader F) (localSeq : UInt64) (receivedAt : I64) :
    Progress F → List (JsonTree F) → Progress F × Except String Unit
  | p, [] => (p, .ok ())
  | p, item :: items =>
    match (item.get "pu").bind parseU64 with
    | none => updateItems r localSeq receivedAt p items
    | some pu =>
      if pu ≠ localSeq then (p, .error "cryptocom gap")
      else
        match (item.get "u").bind parseU64 with
        | none => updateItems r localSeq receivedAt p items
        | some u =>
          updateItems r localSeq receivedAt (p.apply (readUpdate r item pu u) receivedAt) items

/-- What a text leads to: the books, the deltas applied and the messages emitted for its
instrument, and whether the session goes on. -/
structure Outcome (F : Type) [LinearOrder F] where
  books : Books F
  applied : List (Update F)
  emitted : List (OrderBookData F)
  result : Except String Unit

def Outcome.idle (books : Books F) : Outcome F := ⟨books, [], [], .ok ()⟩

def Outcome.of (books : Books F) (symbol : String) (p : Progress F) (result : Except String Unit) :
    Outcome F :=
  ⟨books.set symbol p.book, p.applied, p.emitted, result⟩

def onMessage (r : TextReader F) (books : Books F) (m : Message F) (receivedAt : I64) :
    Outcome F :=
  match books m.symbol with
  | none => .idle books
  | some book =>
    match m.channel with
    | .book => .of books m.symbol (snapshotItems r receivedAt ⟨book, [], []⟩ m.items) (.ok ())
    | .bookUpdate =>
      match book.seq with
      | none => .idle books
      | some localSeq =>
        let batch := updateItems r localSeq receivedAt ⟨book, [], []⟩ m.items
        .of books m.symbol batch.1 batch.2
    | .other => .idle books

def onText (r : TextReader F) (books : Books F) (text : String) (receivedAt : I64) : Outcome F :=
  match parseMessage r text with
  | none => .idle books
  | some m => onMessage r books m receivedAt

/-! ### Chains of deltas -/

section Chains
omit [F64 F] [LinearOrder F]

/-- Each delta continues the end of the one before, the first one the number `s`. -/
def Linked (s : UInt64) (ds : List (Update F)) : Prop :=
  ChainFrom (fun s d => d.pu = s) Update.u s ds

instance (s : UInt64) (ds : List (Update F)) : Decidable (Linked s ds) :=
  inferInstanceAs (Decidable (ChainFrom _ _ _ _))

/-- The deltas at the front that continue the number `s` itself. -/
def leading (s : UInt64) (ds : List (Update F)) : List (Update F) := ds.takeWhile (·.pu = s)

/-- Deltas that all continue one number are a chain if all but the last stay at it. -/
theorem linked_iff_of_all {s : UInt64} {ds : List (Update F)} (h : ∀ d ∈ ds, d.pu = s) :
    Linked s ds ↔ ∀ d ∈ ds.dropLast, d.u = s := by
  induction ds with
  | nil => simp [Linked, ChainFrom]
  | cons d ds ih =>
    have hd := h d List.mem_cons_self
    have ih' := ih fun e he => h e (List.mem_cons_of_mem d he)
    cases ds with
    | nil => simp [Linked, ChainFrom, hd]
    | cons e ds =>
      have he := h e (by simp)
      rw [List.dropLast_cons_cons, List.forall_mem_cons, ← ih']
      constructor
      · rintro ⟨-, hnext, hrest⟩
        have hu : d.u = s := hnext.symm.trans he
        exact ⟨hu, he, hrest⟩
      · rintro ⟨hu, hrest⟩
        refine ⟨hd, ?_⟩
        rw [hu]
        exact hrest

theorem leading_all (s : UInt64) (ds : List (Update F)) : ∀ d ∈ leading s ds, d.pu = s := by
  intro d hd
  simpa using List.mem_takeWhile_imp hd

theorem leading_eq_self {s : UInt64} {ds : List (Update F)} (h : ∀ d ∈ ds, d.pu = s) :
    leading s ds = ds := by
  rw [leading, List.takeWhile_eq_self_iff]
  simpa using h

theorem leading_cons_of_eq {s : UInt64} {d : Update F} (h : d.pu = s) (ds : List (Update F)) :
    leading s (d :: ds) = d :: leading s ds :=
  List.takeWhile_cons_of_pos (by simpa using h)

theorem leading_cons_of_ne {s : UInt64} {d : Update F} (h : d.pu ≠ s) (ds : List (Update F)) :
    leading s (d :: ds) = [] :=
  List.takeWhile_cons_of_neg (by simpa using h)

theorem leading_isPrefix (s : UInt64) (ds : List (Update F)) : leading s ds <+: ds :=
  List.takeWhile_prefix _

/-- When comparing with one number comes to the same as following the chain: the deltas at the
front that continue it stay at it, all but the last, and a chain consists of nothing else. -/
structure StaleSafe (s : UInt64) (ds : List (Update F)) : Prop where
  stays : ∀ d ∈ (leading s ds).dropLast, d.u = s
  whole : Linked s ds → ∀ d ∈ ds, d.pu = s

end Chains

/-! ### What the loop does -/

def Progress.applyAll (p : Progress F) (receivedAt : I64) (ds : List (Update F)) : Progress F :=
  ds.foldl (fun p d => p.apply d receivedAt) p

theorem updateItems_eq {r : TextReader F} {s : UInt64} {receivedAt : I64} {p : Progress F}
    {items : List (JsonTree F)} {ds : List (Update F)}
    (h : items.map (parseUpdate r) = ds.map some) :
    updateItems r s receivedAt p items =
      (p.applyAll receivedAt (leading s ds),
        if ∀ d ∈ ds, d.pu = s then .ok () else .error "cryptocom gap") := by
  induction ds generalizing items p with
  | nil =>
    obtain rfl := List.map_eq_nil_iff.mp h
    rfl
  | cons d ds ih =>
    cases items with
    | nil => cases h
    | cons item items =>
      rw [List.map_cons, List.map_cons, List.cons.injEq] at h
      obtain ⟨hitem, hitems⟩ := h
      obtain ⟨pu, hpu, hitem⟩ := Option.bind_eq_some_iff.mp hitem
      obtain ⟨u, hu, hitem⟩ := Option.bind_eq_some_iff.mp hitem
      obtain rfl := Option.some.inj hitem
      rw [updateItems, hpu]
      dsimp only
      by_cases hs : pu = s
      · rw [if_neg (not_not.mpr hs), hu]
        dsimp only
        rw [ih hitems, leading_cons_of_eq hs]
        simp [Progress.applyAll, readUpdate, hs]
      · rw [if_pos hs, leading_cons_of_ne hs]
        simp [Progress.applyAll, readUpdate, hs]

theorem applyAll_applied (p : Progress F) (receivedAt : I64) (ds : List (Update F)) :
    (p.applyAll receivedAt ds).applied = p.applied ++ ds := by
  induction ds generalizing p with
  | nil => exact (List.append_nil _).symm
  | cons d ds ih =>
    rw [Progress.applyAll, List.foldl_cons]
    refine (ih (p.apply d receivedAt)).trans ?_
    rw [Progress.apply, List.append_assoc, List.singleton_append]

/-- Handing the book over between two deltas does not touch its levels. -/
theorem applyAll_book (p : Progress F) (receivedAt : I64) (ds : List (Update F)) :
    SameBook (ds.foldl applyUpdate p.book) (p.applyAll receivedAt ds).book := by
  have hstep : ∀ (ds : List (Update F)) {a b : LocalBook F}, SameBook a b →
      SameBook (ds.foldl applyUpdate a) (ds.foldl applyUpdate b) := by
    intro ds
    induction ds with
    | nil => exact id
    | cons d ds ih =>
      intro a b h
      apply ih
      exact ⟨h.symbol, by rw [applyUpdate, applyUpdate, applyDeltas_bids, applyDeltas_bids, h.bids],
        by rw [applyUpdate, applyUpdate, applyDeltas_asks, applyDeltas_asks, h.asks], rfl⟩
  induction ds generalizing p with
  | nil => exact SameBook.refl p.book
  | cons d ds ih =>
    have hdeliver := (deliver_spec (applyUpdate p.book d) d.exchTs receivedAt).1
    exact (hstep ds hdeliver).trans (ih (p.apply d receivedAt))

theorem foldl_applyUpdate_seq {s : UInt64} {book : LocalBook F} (h : book.seq = some s)
    (ds : List (Update F)) : (ds.foldl applyUpdate book).seq = some (endFrom Update.u s ds) := by
  induction ds generalizing s book with
  | nil => exact h
  | cons d ds ih => exact ih rfl

/-- An update message for a book with a number: the deltas at the front that continue it are
applied. -/
theorem onText_update {r : TextReader F} {books : Books F} {text : String} {receivedAt : I64}
    {m : Message F} {book : LocalBook F} {s : UInt64} {ds : List (Update F)}
    (hparse : parseMessage r text = some m) (hchannel : m.channel = .bookUpdate)
    (hbook : books m.symbol = some book) (hseq : book.seq = some s)
    (hitems : m.items.map (parseUpdate r) = ds.map some) :
    onText r books text receivedAt =
      .of books m.symbol (Progress.applyAll ⟨book, [], []⟩ receivedAt (leading s ds))
        (if ∀ d ∈ ds, d.pu = s then .ok () else .error "cryptocom gap") := by
  unfold onText
  rw [hparse]
  dsimp only
  unfold onMessage
  rw [hbook]
  dsimp only
  rw [hchannel]
  dsimp only
  rw [hseq]
  dsimp only
  rw [updateItems_eq hitems]

/-! ### Link by link -/

/-- A message is checked link by link: a chain is applied as a whole, and anything else ends the
session before a delta is applied that does not continue the one before. -/
structure LinkByLink (s : UInt64) (ds : List (Update F)) (start : LocalBook F) (symbol : String)
    (o : Outcome F) : Prop where
  chain : Linked s ds → o.result = .ok () ∧ o.applied = ds ∧
    ∃ book, o.books symbol = some book ∧ SameBook (ds.foldl applyUpdate start) book ∧
      book.seq = some (endFrom Update.u s ds)
  gap : ¬ Linked s ds → o.result = .error "cryptocom gap" ∧ o.applied <+: ds ∧ Linked s o.applied

/-- Of the messages whose items all carry both numbers, exactly those are checked link by link
for which it makes no difference that the number is read only once. -/
theorem updates_linked_iff {r : TextReader F} {books : Books F} {text : String} {receivedAt : I64}
    {m : Message F} {book : LocalBook F} {s : UInt64} {ds : List (Update F)}
    (hparse : parseMessage r text = some m) (hchannel : m.channel = .bookUpdate)
    (hbook : books m.symbol = some book) (hseq : book.seq = some s)
    (hitems : m.items.map (parseUpdate r) = ds.map some) :
    LinkByLink s ds book m.symbol (onText r books text receivedAt) ↔ StaleSafe s ds := by
  rw [onText_update hparse hchannel hbook hseq hitems]
  have happlied : (Progress.applyAll ⟨book, [], []⟩ receivedAt (leading s ds)).applied =
      leading s ds := applyAll_applied _ _ _
  have hleading := linked_iff_of_all (leading_all s ds)
  constructor
  · intro h
    by_cases hlinked : Linked s ds
    · have hall : ∀ d ∈ ds, d.pu = s := by
        by_contra hne
        have hresult := (h.chain hlinked).1
        rw [Outcome.of, if_neg hne] at hresult
        cases hresult
      refine ⟨hleading.mp ?_, fun _ => hall⟩
      rwa [leading_eq_self hall]
    · have hsafe := (h.gap hlinked).2.2
      rw [Outcome.of, happlied] at hsafe
      exact ⟨hleading.mp hsafe, fun h => absurd h hlinked⟩
  · intro h
    constructor
    · intro hlinked
      have hall := h.whole hlinked
      refine ⟨if_pos hall, happlied.trans (leading_eq_self hall), _, Instruments.set_same _ _, ?_⟩
      rw [leading_eq_self hall]
      have hsame := applyAll_book ⟨book, [], []⟩ receivedAt ds
      exact ⟨hsame, hsame.seq.trans (foldl_applyUpdate_seq hseq ds)⟩
    · intro hgap
      have hsafe := hleading.mpr h.stays
      have hne : ¬ ∀ d ∈ ds, d.pu = s := by
        intro hall
        rw [leading_eq_self hall] at hsafe
        exact hgap hsafe
      refine ⟨if_neg hne, ?_, ?_⟩
      · rw [Outcome.of, happlied]
        exact leading_isPrefix s ds
      · rwa [Outcome.of, happlied]

section Example

def demoItem (pu u : UInt64) : JsonTree ExtRat :=
  .obj [("pu", .posInt pu), ("u", .posInt u), ("t", .posInt 1647917463000),
    ("update", .obj [("bids", .arr [.arr [.posInt 99, .posInt 1]]), ("asks", .arr [])])]

def demoText (items : List (JsonTree ExtRat)) : JsonTree ExtRat :=
  .obj [("result", .obj [("channel", .str "book.update"), ("instrument_name", .str "BTC_USDT"),
    ("data", .arr items)])]

/-- Messages for a book at number 1: one delta, a chain of two, and two from the same number. -/
def demoReader : TextReader ExtRat where
  fromStr
    | "one" => some (demoText [demoItem 1 2])
    | "chain" => some (demoText [demoItem 1 2, demoItem 2 3])
    | "twice" => some (demoText [demoItem 1 2, demoItem 1 3])
    | _ => none
  parseFloat _ := none
  toUppercase := id
  toLowercase := id

def demoBook : LocalBook ExtRat :=
  (LocalBook.new "cryptocom" "BTC_USDT").applySnapshot [] [(.fin 101, .fin 1)] (some 1)

def demoBooks : Books ExtRat := fun s => if s = "BTC_USDT" then some demoBook else none

def demoUpdate (pu u : UInt64) : Update ExtRat :=
  ⟨pu, u, I64.ofU64 1647917463000, [(.fin 99, .fin 1)], []⟩

def demoNow : I64 := I64.wrap 1647917463050

theorem updates_linked_iff_one :
    LinkByLink 1 [demoUpdate 1 2] demoBook "BTC_USDT"
      (onText demoReader demoBooks "one" demoNow) := by
  have hiff := @updates_linked_iff ExtRat _ _ demoReader demoBooks "one" demoNow
    ⟨.bookUpdate, "BTC_USDT", [demoItem 1 2]⟩ demoBook 1 [demoUpdate 1 2] rfl rfl rfl rfl rfl
  exact hiff.mpr ⟨by decide, by decide⟩

/-- The second delta of a chain ends the session, and a second delta from the same number is
applied. -/
theorem stale_number_misses_link :
    Linked 1 [demoUpdate 1 2, demoUpdate 2 3] ∧
      (onText demoReader demoBooks "chain" demoNow).applied = [demoUpdate 1 2] ∧
      (onText demoReader demoBooks "chain" demoNow).result = .error "cryptocom gap" ∧
    ¬ Linked 1 [demoUpdate 1 2, demoUpdate 1 3] ∧
      (onText demoReader demoBooks "twice" demoNow).applied = [demoUpdate 1 2, demoUpdate 1 3] ∧
      (onText demoReader demoBooks "twice" demoNow).result = .ok () :=
  ⟨by decide, rfl, rfl, by decide, rfl, rfl⟩

end Example

end Nuntius.CryptoCom
