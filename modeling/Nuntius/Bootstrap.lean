import Nuntius.LocalBook
import Nuntius.SequenceChains

/-!
# Reconciling buffered deltas with a snapshot

While a collector waits for its REST snapshot it buffers deltas. Reconciliation drops those the
snapshot already contains and applies the others. Only the first one applied is checked against
the snapshot, or none at all, so a gap or a swap further on in the buffer goes into the book:
the applied deltas are a chain exactly if the buffer was one behind its first fresh delta.
-/

namespace Nuntius.Collectors
open SequenceChains

variable {F : Type} [F64 F] [LinearOrder F]

structure RestSnapshot (F : Type) where
  sequence : UInt64
  bids : List (F × F)
  asks : List (F × F)

structure BootstrapGap where
  firstSeen : UInt64

/-! ### KuCoin, MEXC and OrangeX -/

/-- What reconciliation reads of a buffered delta: its range of update numbers and its
levels. -/
structure DeltaFields (δ F : Type) where
  first : δ → UInt64
  last : δ → UInt64
  bids : δ → List (F × F)
  asks : δ → List (F × F)

section Reconcile
variable {δ : Type} (v : DeltaFields δ F)

def applyDelta (book : LocalBook F) (d : δ) : LocalBook F :=
  book.applyDeltas (v.bids d) (v.asks d) (some (v.last d))

/-- The loop of `reconcile_prelude`. The source counts the deltas it applied; here they are
listed. -/
def drainPrelude (snapAnchor : UInt64) :
    List δ → LocalBook F → List δ → LocalBook F × Except BootstrapGap (List δ)
  | applied, book, [] => (book, .ok applied)
  | applied, book, u :: prelude =>
    if v.last u ≤ snapAnchor then drainPrelude snapAnchor applied book prelude
    else if applied.isEmpty && decide (snapAnchor + 1 < v.first u) then
      (book.clear, .error ⟨v.first u⟩)
    else drainPrelude snapAnchor (applied ++ [u]) (applyDelta v book u) prelude

def reconcilePrelude (book : LocalBook F) (snapAnchor : UInt64) (prelude : List δ) :
    LocalBook F × Except BootstrapGap ℕ :=
  let drained := drainPrelude v snapAnchor [] book prelude
  (drained.1, drained.2.map List.length)

/-- Anchor the book at a snapshot and reconcile. -/
def anchorAndDrain (book : LocalBook F) (snap : RestSnapshot F) (prelude : List δ) :
    LocalBook F × Except BootstrapGap (List δ) :=
  drainPrelude v snap.sequence [] (book.applySnapshot snap.bids snap.asks (some snap.sequence))
    prelude

/-- The bootstrap of one pair: at a gap the snapshot is fetched once more, and the buffer has
been taken by then. The answers of the two requests are given; `none` is a failed request, and
the session ends with it or with a second gap. -/
def bootstrapPair (fetched refetched : Option (RestSnapshot F)) (book : LocalBook F)
    (prelude : List δ) : Option (LocalBook F × List δ) := do
  let snap ← fetched
  match anchorAndDrain v book snap prelude with
  | (book', .ok applied) => some (book', applied)
  | (book', .error _) =>
    let snap' ← refetched
    match anchorAndDrain v book' snap' [] with
    | (book'', .ok applied) => some (book'', applied)
    | (_, .error _) => none

/-- The deltas the snapshot does not contain. -/
def fresh (anchor : UInt64) (prelude : List δ) : List δ :=
  prelude.filter (fun d => anchor < v.last d)

/-- The range of a delta contains the number after `s`. -/
def RangeContinues (s : UInt64) (d : δ) : Prop :=
  (v.first d).toNat ≤ s.toNat + 1 ∧ s.toNat + 1 ≤ (v.last d).toNat

instance (s : UInt64) (d : δ) : Decidable (RangeContinues v s d) :=
  inferInstanceAs (Decidable (_ ∧ _))

/-- Behind its first fresh delta the buffer has no gap and no swap. -/
def Unbroken (anchor : UInt64) (prelude : List δ) : Prop :=
  (fresh v anchor prelude).IsChain (fun d d' => RangeContinues v (v.last d) d')

variable {v}

omit [F64 F] [LinearOrder F] in
theorem fresh_cons_of_stale {anchor : UInt64} {d : δ} (h : v.last d ≤ anchor) (prelude : List δ) :
    fresh v anchor (d :: prelude) = fresh v anchor prelude :=
  List.filter_cons_of_neg (by simpa using h)

omit [F64 F] [LinearOrder F] in
theorem fresh_cons {anchor : UInt64} {d : δ} (h : ¬ v.last d ≤ anchor) (prelude : List δ) :
    fresh v anchor (d :: prelude) = d :: fresh v anchor prelude :=
  List.filter_cons_of_pos (by simpa using h)

omit [F64 F] [LinearOrder F] in
/-- A delta that passes the test of the first one continues the anchor. -/
theorem rangeContinues_of_first {anchor : UInt64} {d : δ} (hfresh : ¬ v.last d ≤ anchor)
    (hfirst : ¬ anchor + 1 < v.first d) : RangeContinues v anchor d := by
  have hlt : anchor.toNat < (v.last d).toNat := by
    rw [UInt64.le_iff_toNat_le] at hfresh
    omega
  have hbound := (v.last d).toNat_lt
  have hnext : HasNext anchor := by
    unfold HasNext
    omega
  rw [UInt64.lt_iff_toNat_lt, toNat_succ hnext] at hfirst
  exact ⟨by omega, by omega⟩

/-- Everything reconciliation does when it finds no gap. -/
theorem drainPrelude_ok {anchor : UInt64} {applied out : List δ} {book book' : LocalBook F}
    {prelude : List δ} (h : drainPrelude v anchor applied book prelude = (book', .ok out)) :
    out = applied ++ fresh v anchor prelude ∧
      book' = (fresh v anchor prelude).foldl (applyDelta v) book ∧
      (applied = [] → ∀ d ∈ (fresh v anchor prelude).head?, RangeContinues v anchor d) := by
  induction prelude generalizing applied book with
  | nil =>
    obtain ⟨rfl, hout⟩ := Prod.mk.inj h
    obtain rfl := Except.ok.inj hout
    simp [fresh]
  | cons u rest ih =>
    unfold drainPrelude at h
    split_ifs at h with hstale hgap
    · rw [fresh_cons_of_stale hstale]
      exact ih h
    · cases (Prod.mk.inj h).2
    · obtain ⟨hout, hbook, -⟩ := ih h
      rw [fresh_cons hstale]
      refine ⟨by simpa using hout, hbook, ?_⟩
      rintro rfl d hd
      obtain rfl : u = d := Option.some.inj hd
      exact rangeContinues_of_first hstale (by simpa using hgap)

/-- The sequence number follows the applied deltas. -/
theorem foldl_applyDelta_seq {s : UInt64} {book : LocalBook F} (h : book.seq = some s)
    (ds : List δ) : (ds.foldl (applyDelta v) book).seq = some (endFrom v.last s ds) := by
  induction ds generalizing s book with
  | nil => exact h
  | cons d ds ih => exact ih rfl

/-- Without a gap at the first delta: the applied deltas are a chain from the snapshot, which
the book's sequence number follows, exactly if the buffer is unbroken. -/
theorem anchorAndDrain_iff {book book' : LocalBook F} {snap : RestSnapshot F}
    {prelude applied : List δ} (h : anchorAndDrain v book snap prelude = (book', .ok applied)) :
    (ChainFrom (RangeContinues v) v.last snap.sequence applied ∧
      book'.seq = some (endFrom v.last snap.sequence applied)) ↔
      Unbroken v snap.sequence prelude := by
  obtain ⟨hout, hbook, hfirst⟩ := drainPrelude_ok h
  rw [List.nil_append] at hout
  have hseq : book'.seq = some (endFrom v.last snap.sequence applied) := by
    rw [hbook, hout]
    exact foldl_applyDelta_seq rfl _
  rw [and_iff_left hseq, hout, chainFrom_iff_isChain (hfirst rfl)]
  rfl

end Reconcile

structure KucoinUpdate (F : Type) where
  sequenceStart : UInt64
  sequenceEnd : UInt64
  bids : List (F × F)
  asks : List (F × F)

structure MexcDelta (F : Type) where
  fromVersion : UInt64
  toVersion : UInt64
  bids : List (F × F)
  asks : List (F × F)

/-- OrangeX numbers each delta instead of giving a range. -/
structure OrangeDelta (F : Type) where
  changeId : UInt64
  bids : List (F × F)
  asks : List (F × F)

def kucoin : DeltaFields (KucoinUpdate F) F where
  first := KucoinUpdate.sequenceStart
  last := KucoinUpdate.sequenceEnd
  bids := KucoinUpdate.bids
  asks := KucoinUpdate.asks

def mexc : DeltaFields (MexcDelta F) F where
  first := MexcDelta.fromVersion
  last := MexcDelta.toVersion
  bids := MexcDelta.bids
  asks := MexcDelta.asks

def orangex : DeltaFields (OrangeDelta F) F where
  first := OrangeDelta.changeId
  last := OrangeDelta.changeId
  bids := OrangeDelta.bids
  asks := OrangeDelta.asks

def OrangeContinues (s : UInt64) (d : OrangeDelta F) : Prop := d.changeId.toNat = s.toNat + 1

omit [F64 F] [LinearOrder F] in
/-- The range of a single number contains the next one exactly if it is the next one. -/
theorem rangeContinues_orangex (s : UInt64) (d : OrangeDelta F) :
    RangeContinues orangex s d ↔ OrangeContinues s d := by
  unfold RangeContinues OrangeContinues
  exact ⟨fun h => le_antisymm h.1 h.2, fun h => ⟨h.le, h.ge⟩⟩

/-! ### HTX -/

structure HtxDelta (F : Type) where
  seqNum : UInt64
  prevSeqNum : UInt64
  bids : List (F × F)
  asks : List (F × F)

def htx : DeltaFields (HtxDelta F) F where
  first := HtxDelta.prevSeqNum
  last := HtxDelta.seqNum
  bids := HtxDelta.bids
  asks := HtxDelta.asks

/-- HTX applies whatever the snapshot does not contain, without any check. -/
def drainHtx (version : UInt64) : List (HtxDelta F) → LocalBook F → List (HtxDelta F) →
    LocalBook F × List (HtxDelta F)
  | applied, book, [] => (book, applied)
  | applied, book, d :: buf =>
    if d.seqNum ≤ version then drainHtx version applied book buf
    else drainHtx version (applied ++ [d]) (applyDelta htx book d) buf

/-- Phase 2 of the session for one pair; a book that comes out crossed is replaced by a second
snapshot. The flag says whether that happened. -/
def bootstrapHtx (fetched refetched : Option (RestSnapshot F)) (book : LocalBook F)
    (buf : List (HtxDelta F)) : Option (LocalBook F × List (HtxDelta F) × Bool) := do
  let snap ← fetched
  let drained := drainHtx snap.sequence []
    (book.applySnapshot snap.bids snap.asks (some snap.sequence)) buf
  if drained.1.isCrossed then
    let snap₂ ← refetched
    some (drained.1.applySnapshot snap₂.bids snap₂.asks (some snap₂.sequence), drained.2, true)
  else some (drained.1, drained.2, false)

/-- The delta follows the number `s`, or its range contains the one after. -/
def HtxContinues (s : UInt64) (d : HtxDelta F) : Prop :=
  d.prevSeqNum = s ∨ (d.prevSeqNum.toNat + 1 ≤ s.toNat + 1 ∧ s.toNat + 1 ≤ d.seqNum.toNat)

instance (s : UInt64) (d : HtxDelta F) : Decidable (HtxContinues s d) :=
  inferInstanceAs (Decidable (_ ∨ _))

/-- The buffer has no gap and no swap behind the snapshot. -/
def HtxUnbroken (version : UInt64) (buf : List (HtxDelta F)) : Prop :=
  ChainFrom HtxContinues HtxDelta.seqNum version (fresh htx version buf)

theorem drainHtx_eq (version : UInt64) (applied : List (HtxDelta F)) (book : LocalBook F)
    (buf : List (HtxDelta F)) :
    drainHtx version applied book buf =
      ((fresh htx version buf).foldl (applyDelta htx) book, applied ++ fresh htx version buf) := by
  induction buf generalizing applied book with
  | nil => simp [drainHtx, fresh]
  | cons d rest ih =>
    unfold drainHtx
    split_ifs with hstale
    · rw [ih, fresh_cons_of_stale hstale]
    · rw [ih, fresh_cons hstale, List.foldl_cons, List.append_assoc, List.singleton_append]

theorem bootstrapHtx_iff {refetched : Option (RestSnapshot F)} {snap : RestSnapshot F}
    {book book' : LocalBook F} {buf applied : List (HtxDelta F)}
    (h : bootstrapHtx (some snap) refetched book buf = some (book', applied, false)) :
    (ChainFrom HtxContinues HtxDelta.seqNum snap.sequence applied ∧
      book'.seq = some (endFrom HtxDelta.seqNum snap.sequence applied)) ↔
      HtxUnbroken snap.sequence buf := by
  simp only [bootstrapHtx, Option.bind_eq_bind, Option.bind_some, drainHtx_eq] at h
  split_ifs at h with hcrossed
  · -- a second snapshot raises the flag
    obtain ⟨snap₂, -, h⟩ := Option.bind_eq_some_iff.mp h
    simp at h
  · obtain ⟨rfl, hrest⟩ := Prod.mk.inj (Option.some.inj h)
    obtain ⟨rfl, -⟩ := Prod.mk.inj hrest
    rw [List.nil_append]
    exact and_iff_left (foldl_applyDelta_seq (v := htx) rfl _)

/-! ### All four venues -/

/-- When a bootstrap keeps its first snapshot, the deltas it applied are an unbroken chain from
the snapshot that the book's sequence number follows, exactly if the buffer was unbroken. -/
theorem bootstrap_unbroken_iff (snap : RestSnapshot F) (book book' : LocalBook F) :
    (∀ prelude applied, anchorAndDrain kucoin book snap prelude = (book', .ok applied) →
      ((ChainFrom (RangeContinues kucoin) KucoinUpdate.sequenceEnd snap.sequence applied ∧
        book'.seq = some (endFrom KucoinUpdate.sequenceEnd snap.sequence applied)) ↔
        Unbroken kucoin snap.sequence prelude)) ∧
    (∀ prelude applied, anchorAndDrain mexc book snap prelude = (book', .ok applied) →
      ((ChainFrom (RangeContinues mexc) MexcDelta.toVersion snap.sequence applied ∧
        book'.seq = some (endFrom MexcDelta.toVersion snap.sequence applied)) ↔
        Unbroken mexc snap.sequence prelude)) ∧
    (∀ prelude applied, anchorAndDrain orangex book snap prelude = (book', .ok applied) →
      ((ChainFrom OrangeContinues OrangeDelta.changeId snap.sequence applied ∧
        book'.seq = some (endFrom OrangeDelta.changeId snap.sequence applied)) ↔
        Unbroken orangex snap.sequence prelude)) ∧
    (∀ refetched buf applied,
      bootstrapHtx (some snap) refetched book buf = some (book', applied, false) →
      ((ChainFrom HtxContinues HtxDelta.seqNum snap.sequence applied ∧
        book'.seq = some (endFrom HtxDelta.seqNum snap.sequence applied)) ↔
        HtxUnbroken snap.sequence buf)) := by
  refine ⟨?_, ?_, ?_, ?_⟩
  · intro prelude applied h
    exact anchorAndDrain_iff h
  · intro prelude applied h
    exact anchorAndDrain_iff h
  · intro prelude applied h
    have hrule : (OrangeContinues : UInt64 → OrangeDelta F → Prop) = RangeContinues orangex := by
      funext s d
      exact (propext (rangeContinues_orangex s d)).symm
    rw [hrule]
    exact anchorAndDrain_iff h
  · intro refetched buf applied h
    exact bootstrapHtx_iff h

section Example

def anchorSnapshot : RestSnapshot ExtRat := ⟨100, [(.fin 99, .fin 1)], [(.fin 101, .fin 1)]⟩

def emptyBook : LocalBook ExtRat := .new "venue" "BTC-USDT"

/-- The book at the snapshot with a later sequence number. -/
def bookAt (seq : UInt64) : LocalBook ExtRat :=
  { emptyBook.applySnapshot anchorSnapshot.bids anchorSnapshot.asks none with seq := some seq }

/-- A stale delta, one that straddles the anchor and one that continues it. -/
theorem bootstrap_unbroken_iff_straddling :
    (ChainFrom (RangeContinues kucoin) KucoinUpdate.sequenceEnd 100
        [(⟨95, 105, [], []⟩ : KucoinUpdate ExtRat), ⟨106, 106, [], []⟩] ∧
      (bookAt 106).seq = some (endFrom KucoinUpdate.sequenceEnd 100
        [(⟨95, 105, [], []⟩ : KucoinUpdate ExtRat), ⟨106, 106, [], []⟩])) ↔
      Unbroken kucoin 100 [(⟨80, 99, [], []⟩ : KucoinUpdate ExtRat), ⟨95, 105, [], []⟩,
        ⟨106, 106, [], []⟩] :=
  (bootstrap_unbroken_iff anchorSnapshot emptyBook (bookAt 106)).1 _ _ rfl

/-- Anchor 100 and deltas that end at 105 and start again at 110: every venue applies both and
reports success, with nothing between. -/
theorem bootstrap_hides_gap :
    (anchorAndDrain kucoin emptyBook anchorSnapshot [⟨101, 105, [], []⟩, ⟨110, 112, [], []⟩] =
        (bookAt 112, .ok [⟨101, 105, [], []⟩, ⟨110, 112, [], []⟩]) ∧
      ¬ ChainFrom (RangeContinues kucoin) KucoinUpdate.sequenceEnd 100
        [(⟨101, 105, [], []⟩ : KucoinUpdate ExtRat), ⟨110, 112, [], []⟩]) ∧
    (anchorAndDrain mexc emptyBook anchorSnapshot [⟨101, 105, [], []⟩, ⟨110, 112, [], []⟩] =
        (bookAt 112, .ok [⟨101, 105, [], []⟩, ⟨110, 112, [], []⟩]) ∧
      ¬ ChainFrom (RangeContinues mexc) MexcDelta.toVersion 100
        [(⟨101, 105, [], []⟩ : MexcDelta ExtRat), ⟨110, 112, [], []⟩]) ∧
    (anchorAndDrain orangex emptyBook anchorSnapshot [⟨101, [], []⟩, ⟨110, [], []⟩] =
        (bookAt 110, .ok [⟨101, [], []⟩, ⟨110, [], []⟩]) ∧
      ¬ ChainFrom (RangeContinues orangex) OrangeDelta.changeId 100
        [(⟨101, [], []⟩ : OrangeDelta ExtRat), ⟨110, [], []⟩]) ∧
    bootstrapHtx (some anchorSnapshot) none emptyBook [⟨112, 109, [], []⟩] =
        some (bookAt 112, [⟨112, 109, [], []⟩], false) ∧
      ¬ ChainFrom HtxContinues HtxDelta.seqNum 100 [(⟨112, 109, [], []⟩ : HtxDelta ExtRat)] := by
  refine ⟨⟨rfl, by decide⟩, ⟨rfl, by decide⟩, ⟨rfl, by decide⟩, rfl, by decide⟩

end Example

end Nuntius.Collectors
