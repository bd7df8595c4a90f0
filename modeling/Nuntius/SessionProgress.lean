import Nuntius.SnapshotSessions

/-!
# Sessions on a stream without loss

When the deltas for a pair arrive consecutively and its snapshot falls into what is buffered or
on the end of a delta, a session never gives up on the pair: bootstrap finds no gap, and in the
live loop the local number is the end of a delta that is not older than the last one received.
A snapshot between the ends of a live delta is different: three of the venues reconnect then.
-/

namespace Nuntius.SnapshotSessions
open Binance (DepthEvent)
open Collectors CobCommon LabelledRuns SequenceChains

variable {F : Type} [F64 F] [LinearOrder F] {ι δ : Type}

/-! ### Consecutive deltas -/

section Stream
variable (v : DeltaFields δ F)

/-- The delta starts right behind a number and has a range. -/
def Follows (n : UInt64) (d : δ) : Prop :=
  (v.first d).toNat = n.toNat + 1 ∧ v.first d ≤ v.last d

def Consecutive (base : UInt64) (deltas : List δ) : Prop :=
  ChainFrom (Follows v) v.last base deltas

/-- The number after the first deltas. -/
def endAt (base : UInt64) (deltas : List δ) (i : ℕ) : UInt64 :=
  endFrom v.last base (deltas.take i)

variable {v} {base anchor : UInt64} {deltas : List δ}

omit [F64 F] [LinearOrder F] in
theorem Follows.lt {n : UInt64} {d : δ} (h : Follows v n d) : n < v.last d := by
  obtain ⟨hfirst, hordered⟩ := h
  rw [UInt64.le_iff_toNat_le] at hordered
  rw [UInt64.lt_iff_toNat_lt]
  omega

omit [F64 F] [LinearOrder F] in
theorem Consecutive.le_endFrom (h : Consecutive v base deltas) :
    base ≤ endFrom v.last base deltas := by
  induction deltas generalizing base with
  | nil => exact UInt64.le_refl base
  | cons d rest ih => exact UInt64.le_trans (UInt64.le_of_lt h.1.lt) (ih h.2)

omit [F64 F] [LinearOrder F] in
theorem Consecutive.take (h : Consecutive v base deltas) (i : ℕ) :
    Consecutive v base (deltas.take i) := by
  unfold Consecutive at h ⊢
  rw [← List.take_append_drop i deltas, chainFrom_append] at h
  exact h.1

omit [F64 F] [LinearOrder F] in
/-- The delta at a position follows the end before it and ends at the one behind it. -/
theorem Consecutive.follows (h : Consecutive v base deltas) {i : ℕ} {d : δ}
    (hd : deltas[i]? = some d) :
    Follows v (endAt v base deltas i) d ∧ endAt v base deltas (i + 1) = v.last d := by
  have hsplit : deltas.take (i + 1) = deltas.take i ++ [d] := by
    rw [List.take_add_one, hd, Option.toList_some]
  have hchain := h.take (i + 1)
  unfold Consecutive at hchain
  rw [hsplit, chainFrom_append] at hchain
  refine ⟨hchain.2.1, ?_⟩
  rw [endAt, hsplit, endFrom_concat]

omit [F64 F] [LinearOrder F] in
theorem Consecutive.endAt_le (h : Consecutive v base deltas) {i j : ℕ} (hij : i ≤ j)
    (hj : j ≤ deltas.length) : endAt v base deltas i ≤ endAt v base deltas j := by
  induction j, hij using Nat.le_induction with
  | base => exact UInt64.le_refl _
  | succ j hij ih =>
    obtain ⟨hfollows, hend⟩ := h.follows (List.getElem?_eq_getElem (by omega : j < deltas.length))
    rw [hend]
    exact UInt64.le_trans (ih (by omega)) (UInt64.le_of_lt hfollows.lt)

/-! ### Reconciling a consecutive buffer -/

omit [F64 F] [LinearOrder F] in
/-- Behind a number past the anchor everything is fresh. -/
theorem fresh_of_lt (h : Consecutive v base deltas) (hanchor : anchor < base) :
    fresh v anchor deltas = deltas := by
  induction deltas generalizing base with
  | nil => rfl
  | cons d rest ih =>
    have hlt : anchor < v.last d := UInt64.lt_trans hanchor h.1.lt
    rw [fresh_cons (UInt64.not_le.mpr hlt), ih h.2 hlt]

omit [F64 F] [LinearOrder F] in
/-- The end of what is fresh is the later one of the anchor and the end of the buffer. -/
theorem endFrom_fresh (h : Consecutive v base deltas) (hbase : base ≤ anchor) :
    endFrom v.last anchor (fresh v anchor deltas) =
      if anchor < endFrom v.last base deltas then endFrom v.last base deltas else anchor := by
  induction deltas generalizing base with
  | nil =>
    rw [endFrom_nil, if_neg (UInt64.not_lt.mpr hbase)]
    rfl
  | cons d rest ih =>
    rw [endFrom_cons]
    by_cases hstale : v.last d ≤ anchor
    · rw [fresh_cons_of_stale hstale]
      exact ih h.2 hstale
    · have hlt := UInt64.not_le.mp hstale
      rw [fresh_cons hstale, fresh_of_lt h.2 hlt, endFrom_cons,
        if_pos (UInt64.lt_of_lt_of_le hlt (Consecutive.le_endFrom h.2))]

/-- With a consecutive buffer that reaches back to the anchor there is no gap. -/
theorem drainPrelude_consecutive (h : Consecutive v base deltas) (applied : List δ)
    (book : LocalBook F) (hstart : base ≤ anchor ∨ applied ≠ []) :
    ∃ book' out, drainPrelude v anchor applied book deltas = (book', .ok out) := by
  induction deltas generalizing base applied book with
  | nil => exact ⟨book, applied, rfl⟩
  | cons d rest ih =>
    unfold drainPrelude
    split_ifs with hstale hgap
    · exact ih h.2 applied book (.inl hstale)
    · exfalso
      obtain ⟨hempty, hfar⟩ := (Bool.and_eq_true _ _).mp hgap
      have hbase := hstart.resolve_right (not_not.mpr (List.isEmpty_iff.mp hempty))
      rw [decide_eq_true_eq, UInt64.lt_iff_toNat_lt, toNat_succ (hasNext_of_lt hstale)] at hfar
      rw [UInt64.le_iff_toNat_le] at hbase
      have hfirst := h.1.1
      omega
    · exact ih h.2 _ _ (.inr (by simp))

/-- A snapshot that falls into what is buffered, or on an end that is not older. -/
def Meets (v : DeltaFields δ F) (base : UInt64) (deltas : List δ) (k : ℕ) (n : UInt64) : Prop :=
  (base ≤ n ∧ n < endAt v base deltas k) ∨
    ∃ i, k ≤ i ∧ i ≤ deltas.length ∧ n = endAt v base deltas i

/-- The number is the end of a delta that is not older than the first `k`. -/
def UpToDate (v : DeltaFields δ F) (base : UInt64) (deltas : List δ) (k : ℕ)
    (book : LocalBook F) : Prop :=
  ∃ i, k ≤ i ∧ i ≤ deltas.length ∧ book.seq = some (endAt v base deltas i)

/-- Bootstrap keeps its first snapshot and ends up to date. -/
theorem bootstrapPair_consecutive (h : Consecutive v base deltas) {k : ℕ}
    (hk : k ≤ deltas.length) {snap : RestSnapshot F} (hmeets : Meets v base deltas k snap.sequence)
    (refetched : Option (RestSnapshot F)) (book : LocalBook F) :
    ∃ book' applied, bootstrapPair v (some snap) refetched book (deltas.take k) =
      some (book', applied) ∧ UpToDate v base deltas k book' := by
  have hbase : base ≤ snap.sequence := by
    rcases hmeets with ⟨hbase, -⟩ | ⟨i, -, hi, heq⟩
    · exact hbase
    · rw [heq]
      exact h.endAt_le (Nat.zero_le i) hi
  obtain ⟨book', out, hdrain⟩ := drainPrelude_consecutive (h.take k) []
    (book.applySnapshot snap.bids snap.asks (some snap.sequence)) (.inl hbase)
  obtain ⟨-, hbook, -⟩ := drainPrelude_ok hdrain
  have hseq : book'.seq =
      some (endFrom v.last snap.sequence (fresh v snap.sequence (deltas.take k))) := by
    rw [hbook]
    exact foldl_applyDelta_seq rfl _
  rw [endFrom_fresh (h.take k) hbase] at hseq
  refine ⟨book', out, ?_, ?_⟩
  · simp only [bootstrapPair, anchorAndDrain, Option.bind_eq_bind, Option.bind_some, hdrain]
  · split_ifs at hseq with hlt
    · exact ⟨k, le_rfl, hk, hseq⟩
    · rcases hmeets with ⟨-, hinside⟩ | ⟨i, hki, hi, heq⟩
      · exact absurd hinside hlt
      · exact ⟨i, hki, hi, heq ▸ hseq⟩

end Stream

/-! ### Inputs without loss -/

section Inputs
variable (V : Venue ι δ F) (pair : String)

/-- The delta for the pair in an input. -/
def deltaFor : Input ι F → Option δ
  | .message m _ _ => (V.read m).bind fun p => if p.1 = pair then some p.2.1 else none
  | _ => none

/-- The number of deltas for the pair. -/
def received (inputs : List (Input ι F)) : ℕ := (inputs.filterMap (deltaFor V pair)).length

/-- The input carries the next delta of the stream, if any, and the snapshot of the pair arrives
and meets what was received. -/
def InStream (base : UInt64) (deltas : List δ) (k : ℕ) (input : Input ι F) : Prop :=
  (∀ d, deltaFor V pair input = some d → deltas[k]? = some d) ∧
    ∀ fetched refetched, input = .snapshots pair fetched refetched →
      ∃ snap, fetched = some snap ∧ Meets V.fields base deltas k snap.sequence

/-- Inputs, the newest first, that carry the deltas of the stream one after the other. -/
def Lossless (base : UInt64) (deltas : List δ) : List (Input ι F) → Prop
  | [] => True
  | input :: older => Lossless base deltas older ∧
      InStream V pair base deltas (received V pair older) input

end Inputs

/-! ### Going on -/

/-- The session ends for the pair's sake. -/
def SessionEnd.GivesUpOn (pair : String) : SessionEnd → Prop
  | .gap p => p = pair
  | .bootstrapFailed p => p = pair
  | .lost => False
  | .pingFailed => False

/-- The session does not end for the pair's sake, and what it goes on with has a property. -/
def Continues {α : Type} (pair : String) (P : α → Prop) : Except SessionEnd α → Prop
  | .ok a => P a
  | .error e => ¬ e.GivesUpOn pair

theorem Continues.map {α β : Type} {pair : String} {P : α → Prop} {Q : β → Prop} {f : α → β}
    {r : Except SessionEnd α} (h : Continues pair P r) (hf : ∀ a, P a → Q (f a)) :
    Continues pair Q (r.map f) := by
  cases r with
  | error e => exact h
  | ok a => exact hf a h

section Venue
variable (V : Venue ι δ F)

/-- On a consecutive stream without loss no step gives up on the pair, and a live session is
never behind what it received. -/
def GoesOn : Prop :=
  ∀ (pair : String) (pairs : List String) (base : UInt64) (deltas : List δ)
    (labels : List (Input ι F × Option (OrderBookData F))) (s : Session δ F) (input : Input ι F),
    Run (start V pairs) (Step V pairs) labels s → (pairs.map V.key).Nodup →
    pair ∈ pairs.map V.key → Consecutive V.fields base deltas →
    Lossless V pair base deltas (input :: labels.map Prod.fst) →
    (∀ e, step V pairs s input = some (.error e) → ¬ e.GivesUpOn pair) ∧
    (s.phase = .live → ∃ book, s.books pair = some book ∧
      UpToDate V.fields base deltas (received V pair (labels.map Prod.fst)) book)

/-- The next delta is applied and a delta of the past is skipped. -/
structure Progressive : Prop where
  next : ∀ n d, Follows V.fields n d → V.verdict n d = .apply
  past : ∀ n d, V.fields.first d ≤ V.fields.last d → V.fields.last d ≤ n → V.verdict n d = .skip

end Venue

/-! ### What the phases keep -/

/-- The pairs whose snapshots are still to come. -/
def Phase.remaining (keys : List String) : Phase → List String
  | .buffering => keys
  | .bootstrapping pair rest => pair :: rest
  | .live => []

@[simp] theorem remaining_nextPair (keys rest : List String) :
    (nextPair rest).remaining keys = rest := by
  cases rest with
  | nil => rfl
  | cons pair rest => rfl

/-- After `k` deltas: until its snapshot everything is buffered, then the book is up to date. -/
structure Progress (V : Venue ι δ F) (pair : String) (pairs : List String) (base : UInt64)
    (deltas : List δ) (k : ℕ) (s : Session δ F) : Prop where
  bound : k ≤ deltas.length
  nodup : (s.phase.remaining (pairs.map V.key)).Nodup
  waiting : pair ∈ s.phase.remaining (pairs.map V.key) →
    (s.prelude.lookup pair).getD [] = deltas.take k ∧ (s.books pair).isSome
  running : pair ∉ s.phase.remaining (pairs.map V.key) →
    ∃ book, s.books pair = some book ∧ UpToDate V.fields base deltas k book

section Proofs
variable {V : Venue ι δ F} {pair : String} {pairs : List String} {base : UInt64}
  {deltas : List δ} {k : ℕ} {s s' : Session δ F}

omit [F64 F] in
/-- Only what remains, the pair's buffer and the pair's book count. -/
theorem Progress.congr (h : Progress V pair pairs base deltas k s)
    (hphase : s'.phase.remaining (pairs.map V.key) = s.phase.remaining (pairs.map V.key))
    (hprelude : s'.prelude.lookup pair = s.prelude.lookup pair)
    (hbook : s'.books pair = s.books pair) : Progress V pair pairs base deltas k s' where
  bound := h.bound
  nodup := hphase ▸ h.nodup
  waiting hmem := by
    rw [hprelude, hbook]
    exact h.waiting (hphase ▸ hmem)
  running hmem := by
    rw [hbook]
    exact h.running (hphase ▸ hmem)

omit [F64 F] in
theorem Progress.settle (h : Progress V pair pairs base deltas k s)
    (hphase : s.phase = .buffering) :
    Progress V pair pairs base deltas k (settle V pairs s) := by
  unfold SnapshotSessions.settle
  split
  · exact h.congr (by rw [remaining_nextPair, hphase]; rfl) rfl rfl
  · exact h

omit [F64 F] in
theorem start_progress (hnodup : (pairs.map V.key).Nodup) (hpair : pair ∈ pairs.map V.key) :
    Progress V pair pairs base deltas 0 (start V pairs) := by
  refine Progress.settle ⟨Nat.zero_le _, hnodup, ?_, ?_⟩ rfl
  · intro _
    refine ⟨lookup_startPrelude _ _ (fun _ => rfl) pair, ?_⟩
    simp [startBooks, hpair]
  · intro hmem
    exact absurd hpair hmem

omit [F64 F] [LinearOrder F] in
theorem deltaFor_message {m : ι} {receivedAt : I64} {fetched : Option (RestSnapshot F)}
    {symbol : String} {d : δ} {time : I64} (hread : V.read m = some (symbol, d, time)) :
    deltaFor V pair (.message m receivedAt fetched) = if symbol = pair then some d else none := by
  simp [deltaFor, hread]

/-- The number of deltas once an input has arrived. -/
def countAfter (V : Venue ι δ F) (pair : String) (k : ℕ) (input : Input ι F) : ℕ :=
  match deltaFor V pair input with
  | none => k
  | some _ => k + 1

omit [F64 F] [LinearOrder F] in
theorem countAfter_none {input : Input ι F} (h : deltaFor V pair input = none) :
    countAfter V pair k input = k := by simp only [countAfter, h]

omit [F64 F] [LinearOrder F] in
theorem countAfter_some {input : Input ι F} {d : δ} (h : deltaFor V pair input = some d) :
    countAfter V pair k input = k + 1 := by simp only [countAfter, h]

omit [F64 F] [LinearOrder F] in
theorem received_cons (input : Input ι F) (older : List (Input ι F)) :
    received V pair (input :: older) = countAfter V pair (received V pair older) input := by
  unfold received
  cases h : deltaFor V pair input with
  | none => rw [countAfter_none h, List.filterMap_cons_none h]
  | some d => rw [countAfter_some h, List.filterMap_cons_some h, List.length_cons]

omit [F64 F] in
theorem bufferMessage_progress (h : Progress V pair pairs base deltas k s)
    (hphase : s.phase = .buffering) (hpair : pair ∈ pairs.map V.key) {m : ι} {receivedAt : I64}
    {fetched : Option (RestSnapshot F)}
    (hin : InStream V pair base deltas k (.message m receivedAt fetched)) :
    Progress V pair pairs base deltas (countAfter V pair k (.message m receivedAt fetched))
      (bufferMessage V pairs s m) := by
  unfold bufferMessage
  split
  · rename_i hread
    have hnone : deltaFor V pair (.message m receivedAt fetched) = none := by
      simp [deltaFor, hread]
    rwa [countAfter_none hnone]
  · rename_i symbol d time hread
    have hdelta : deltaFor V pair (.message m receivedAt fetched) =
        if symbol = pair then some d else none := deltaFor_message hread
    refine Progress.settle (s := { s with prelude := s.prelude.push symbol d }) ?_ hphase
    by_cases hsym : symbol = pair
    · subst hsym
      rw [if_pos rfl] at hdelta
      have hnext := hin.1 d hdelta
      have hmem : symbol ∈ s.phase.remaining (pairs.map V.key) := by rwa [hphase]
      obtain ⟨hbuffered, hbook⟩ := h.waiting hmem
      have hlt : k < deltas.length := (List.getElem?_eq_some_iff.mp hnext).1
      rw [countAfter_some hdelta]
      refine ⟨hlt, h.nodup, fun _ => ⟨?_, hbook⟩, fun hnot => absurd hmem hnot⟩
      change ((s.prelude.insert symbol _).lookup symbol).getD [] = _
      rw [AList.lookup_insert, Option.getD_some, hbuffered, List.take_add_one, hnext,
        Option.toList_some]
    · rw [if_neg hsym] at hdelta
      rw [countAfter_none hdelta]
      exact h.congr rfl (AList.lookup_insert_ne (Ne.symm hsym)) rfl

/-- The snapshot of a pair: the pair's own succeeds, and another one's changes nothing here. -/
theorem bootstrapNext_progress (hcons : Consecutive V.fields base deltas)
    (h : Progress V pair pairs base deltas k s) {next : String} {rest : List String}
    (hphase : s.phase = .bootstrapping next rest) {fetched refetched : Option (RestSnapshot F)}
    (hin : InStream V pair base deltas k (.snapshots next fetched refetched)) :
    Continues pair (Progress V pair pairs base deltas k)
      (bootstrapNext V s next rest fetched refetched) := by
  have hremaining : s.phase.remaining (pairs.map V.key) = next :: rest := by rw [hphase]; rfl
  have hnodup := List.nodup_cons.mp (hremaining ▸ h.nodup)
  unfold bootstrapNext
  dsimp only
  by_cases hnext : next = pair
  · subst hnext
    obtain ⟨hbuffered, hbook⟩ := h.waiting (hremaining ▸ List.mem_cons_self)
    obtain ⟨book, hbook⟩ := Option.isSome_iff_exists.mp hbook
    obtain ⟨snap, hfetched, hmeets⟩ := hin.2 fetched refetched rfl
    obtain ⟨book', applied, hboot, hdate⟩ := bootstrapPair_consecutive hcons h.bound hmeets
      (if V.refetchesAtBootstrap then refetched else none) book
    rw [hbook, Option.bind_some, hfetched, hbuffered, hboot]
    refine ⟨h.bound, ?_, ?_, ?_⟩
    · rw [remaining_nextPair]
      exact hnodup.2
    · intro hmem
      rw [remaining_nextPair] at hmem
      exact absurd hmem hnodup.1
    · intro _
      exact ⟨book', Instruments.set_same _ _, hdate⟩
  · split
    · exact hnext
    · rename_i book applied hboot
      have hbooks : s.books.set next book pair = s.books pair :=
        Instruments.set_of_ne _ (Ne.symm hnext) _
      have hprelude : (s.prelude.insert next []).lookup pair = s.prelude.lookup pair :=
        AList.lookup_insert_ne (Ne.symm hnext)
      have hmem : pair ∈ rest ↔ pair ∈ s.phase.remaining (pairs.map V.key) := by
        rw [hremaining, List.mem_cons, or_iff_right (Ne.symm hnext)]
      refine ⟨h.bound, ?_, ?_, ?_⟩
      · rw [remaining_nextPair]
        exact hnodup.2
      · intro hpair
        rw [remaining_nextPair] at hpair
        dsimp only
        rw [hprelude, hbooks]
        exact h.waiting (hmem.mp hpair)
      · intro hpair
        rw [remaining_nextPair] at hpair
        dsimp only
        rw [hbooks]
        exact h.running fun hother => hpair (hmem.mpr hother)

/-- A live delta of another pair leaves the pair's book alone. -/
theorem liveDelta_other {symbol : String} (hne : symbol ≠ pair) (books : Books F) (d : δ)
    (time receivedAt : I64) (fetched : Option (RestSnapshot F)) :
    Continues pair (fun r => r.1 pair = books pair)
      (liveDelta V books symbol d time receivedAt fetched) := by
  have hset : ∀ book, books.set symbol book pair = books pair := fun book =>
    Instruments.set_of_ne books (Ne.symm hne) book
  unfold liveDelta
  split
  · rfl
  · split
    · rfl
    · split
      · rfl
      · exact hne
      · split
        · exact hset _
        · exact hset _
      · exact hset _

/-- The next delta of the stream is applied, or skipped where the book is ahead. -/
theorem liveDelta_next (hV : Progressive V) (hcons : Consecutive V.fields base deltas)
    {books : Books F} {book : LocalBook F} (hbook : books pair = some book)
    (hdate : UpToDate V.fields base deltas k book) {d : δ} (hd : deltas[k]? = some d)
    (time receivedAt : I64) (fetched : Option (RestSnapshot F)) :
    ∃ books' out book', liveDelta V books pair d time receivedAt fetched = .ok (books', out) ∧
      books' pair = some book' ∧ UpToDate V.fields base deltas (k + 1) book' := by
  obtain ⟨i, hki, hi, hseq⟩ := hdate
  obtain ⟨hfollows, hend⟩ := hcons.follows hd
  have hlt : k < deltas.length := (List.getElem?_eq_some_iff.mp hd).1
  unfold liveDelta
  rw [hbook]
  dsimp only
  rw [hseq]
  dsimp only
  rcases hki.eq_or_lt with rfl | hahead
  · rw [hV.next _ _ hfollows]
    obtain ⟨hsame, -⟩ := deliver_spec (applyDelta V.fields book d) time receivedAt
    refine ⟨_, _, _, rfl, Instruments.set_same _ _, k + 1, le_rfl, hlt, ?_⟩
    rw [hsame.seq, hend]
    rfl
  · have hpast : V.fields.last d ≤ endAt V.fields base deltas i := by
      rw [← hend]
      exact hcons.endAt_le hahead hi
    rw [hV.past _ _ hfollows.2 hpast]
    exact ⟨books, none, book, rfl, hbook, i, hahead, hi, hseq⟩

theorem liveMessage_progress (hV : Progressive V) (hcons : Consecutive V.fields base deltas)
    (h : Progress V pair pairs base deltas k s) (hphase : s.phase = .live) {m : ι}
    {receivedAt : I64} {fetched : Option (RestSnapshot F)}
    (hin : InStream V pair base deltas k (.message m receivedAt fetched)) :
    Continues pair (fun r => Progress V pair pairs base deltas
        (countAfter V pair k (.message m receivedAt fetched)) r.1)
      (liveMessage V s m receivedAt fetched) := by
  have hremaining : s.phase.remaining (pairs.map V.key) = [] := by rw [hphase]; rfl
  obtain ⟨book, hbook, hdate⟩ := h.running (hremaining ▸ List.not_mem_nil)
  unfold liveMessage
  cases hread : V.read m with
  | none =>
    have hnone : deltaFor V pair (.message m receivedAt fetched) = none := by
      simp [deltaFor, hread]
    rw [countAfter_none hnone]
    exact h
  | some parsed =>
    obtain ⟨symbol, d, time⟩ := parsed
    have hdelta : deltaFor V pair (.message m receivedAt fetched) =
        if symbol = pair then some d else none := deltaFor_message hread
    dsimp only
    by_cases hsym : symbol = pair
    · subst hsym
      rw [if_pos rfl] at hdelta
      have hnext := hin.1 d hdelta
      obtain ⟨books', out, book', hlive, hbook', hdate'⟩ :=
        liveDelta_next hV hcons hbook hdate hnext time receivedAt fetched
      have hlt : k < deltas.length := (List.getElem?_eq_some_iff.mp hnext).1
      rw [hlive, countAfter_some hdelta]
      refine ⟨hlt, h.nodup, ?_, fun _ => ⟨book', hbook', hdate'⟩⟩
      intro hmem
      rw [hremaining] at hmem
      cases hmem
    · rw [if_neg hsym] at hdelta
      rw [countAfter_none hdelta]
      exact (liveDelta_other hsym s.books d time receivedAt fetched).map fun r hr =>
        h.congr rfl rfl hr

/-- One step goes on, and what it leaves is in order. -/
theorem step_progress (hV : Progressive V) (hcons : Consecutive V.fields base deltas)
    (hpair : pair ∈ pairs.map V.key) (h : Progress V pair pairs base deltas k s)
    {input : Input ι F} (hin : InStream V pair base deltas k input)
    {r : Except SessionEnd (Session δ F × Option (OrderBookData F))}
    (hstep : step V pairs s input = some r) :
    Continues pair (fun r => Progress V pair pairs base deltas (countAfter V pair k input) r.1)
      r := by
  unfold step at hstep
  split at hstep
  · rename_i hphase
    obtain rfl := Option.some.inj hstep
    exact bufferMessage_progress h hphase hpair hin
  · obtain rfl := Option.some.inj hstep
    exact h
  · rename_i hphase
    obtain rfl := Option.some.inj hstep
    exact h.congr (by rw [remaining_nextPair, hphase]; rfl) rfl rfl
  · obtain rfl := Option.some.inj hstep
    exact id
  · rename_i hphase
    split_ifs at hstep with hasked
    subst hasked
    obtain rfl := Option.some.inj hstep
    exact (bootstrapNext_progress hcons h hphase hin).map fun s' hs' => hs'
  · rename_i hphase
    obtain rfl := Option.some.inj hstep
    exact liveMessage_progress hV hcons h hphase hin
  · obtain rfl := Option.some.inj hstep
    exact h
  · obtain rfl := Option.some.inj hstep
    exact id
  · obtain rfl := Option.some.inj hstep
    exact id
  · cases hstep

/-- Whole sessions: induction on the run, with the number of deltas received so far. -/
theorem run_progress (hV : Progressive V) (hcons : Consecutive V.fields base deltas)
    (hnodup : (pairs.map V.key).Nodup) (hpair : pair ∈ pairs.map V.key)
    {labels : List (Input ι F × Option (OrderBookData F))}
    (run : Run (start V pairs) (Step V pairs) labels s)
    (hlossless : Lossless V pair base deltas (labels.map Prod.fst)) :
    Progress V pair pairs base deltas (received V pair (labels.map Prod.fst)) s := by
  induction run with
  | start => exact start_progress hnodup hpair
  | step before now ih =>
    obtain ⟨hbefore, hin⟩ := hlossless
    rw [List.map_cons, received_cons]
    exact step_progress hV hcons hpair (ih hbefore) hin now

theorem goesOn_of_progressive (hV : Progressive V) : GoesOn V := by
  intro pair pairs base deltas labels s input run hnodup hpair hcons hlossless
  obtain ⟨hbefore, hin⟩ := hlossless
  have hprogress := run_progress hV hcons hnodup hpair run hbefore
  refine ⟨?_, ?_⟩
  · intro e he
    exact step_progress hV hcons hpair hprogress hin he
  · intro hphase
    exact hprogress.running (by rw [hphase]; exact List.not_mem_nil)

/-! ### The five venues -/

omit [F64 F] [LinearOrder F] in
theorem Follows.first_eq {v : DeltaFields δ F} {n : UInt64} {d : δ} (h : Follows v n d) :
    v.first d = n + 1 := by
  apply UInt64.toNat_inj.mp
  rw [toNat_succ (hasNext_of_lt (UInt64.not_le.mpr h.lt))]
  exact h.1

omit [F64 F] [LinearOrder F] in
theorem strictVerdict_progressive (hverdict : V.verdict = strictVerdict V.fields) :
    Progressive V where
  next n d h := by
    rw [hverdict, strictVerdict, if_neg (UInt64.not_le.mpr h.lt), if_neg (not_not.mpr h.first_eq)]
  past n d _ h := by rw [hverdict, strictVerdict, if_pos h]

omit [F64 F] [LinearOrder F] in
theorem mexc_progressive (r : TextReader F)
    (decode : List UInt8 → Option Mexc.PushDataV3ApiWrapper) :
    Progressive (Mexc.venue r decode) where
  next n d h := by
    change Mexc.verdict n d = .apply
    have hfirst : d.fromVersion = n + 1 := h.first_eq
    have hlt : n < n + 1 := by
      rw [UInt64.lt_iff_toNat_lt, toNat_succ (hasNext_of_lt (UInt64.not_le.mpr h.lt))]
      omega
    rw [Mexc.verdict, hfirst, if_neg (UInt64.not_le.mpr hlt), if_neg (UInt64.lt_irrefl _)]
  past n d hordered h := by
    change Mexc.verdict n d = .skip
    have hfirst : d.fromVersion ≤ n := UInt64.le_trans hordered h
    rw [Mexc.verdict, if_pos hfirst]

omit [LinearOrder F] in
theorem binance_progressive (r : TextReader F) : Progressive (BinanceDepth.venue r) where
  next n d h := by
    change BinanceDepth.verdict n d = .apply
    have hfirst : d.firstId = n + 1 := h.first_eq
    have hlast : ¬ d.finalId ≤ n := UInt64.not_le.mpr h.lt
    rw [BinanceDepth.verdict, if_neg hlast, hfirst, if_neg (UInt64.lt_irrefl _)]
  past n d _ h := by
    change BinanceDepth.verdict n d = .skip
    have hlast : d.finalId ≤ n := h
    rw [BinanceDepth.verdict, if_pos hlast]

end Proofs

/-- Whole sessions of the five collectors on a consecutive stream: if the deltas for a configured
pair arrive one after the other and its snapshot falls into the buffered ones or on the end of a
later one, then no step ends the session because of the pair, and once the session is live the
pair's number is the end of a delta that is not older than the last one received. -/
theorem snapshot_sessions_go_on (r : TextReader F)
    (decode : List UInt8 → Option Mexc.PushDataV3ApiWrapper) :
    GoesOn (Kucoin.venue r) ∧ GoesOn (Xt.venue r) ∧ GoesOn (Mexc.venue r decode) ∧
      GoesOn (Orangex.venue r) ∧ GoesOn (BinanceDepth.venue r) :=
  ⟨goesOn_of_progressive (strictVerdict_progressive rfl),
    goesOn_of_progressive (strictVerdict_progressive rfl),
    goesOn_of_progressive (mexc_progressive r decode),
    goesOn_of_progressive (strictVerdict_progressive rfl),
    goesOn_of_progressive (binance_progressive r)⟩

section Example

/-- The snapshot is at update 1, in front of the two deltas that are buffered; a third one is
next. -/
theorem snapshot_sessions_go_on_demo :
    (∀ e, step (Kucoin.venue demoReader) ["BTC-USDT"] demoSession (demoMessage "fourth") =
      some (.error e) → ¬ e.GivesUpOn "BTC-USDT") ∧
    ∃ book, demoSession.books "BTC-USDT" = some book ∧
      UpToDate kucoin 1 [demoDelta 2, demoDelta 3, demoDelta 4] 2 book := by
  have hstream : Lossless (Kucoin.venue demoReader) "BTC-USDT" 1
      [demoDelta 2, demoDelta 3, demoDelta 4]
      (demoMessage "fourth" :: demoInputs.map Prod.fst) := by
    refine ⟨⟨⟨⟨⟨trivial, fun d hd => hd, ?_⟩, fun d hd => hd, ?_⟩, ?_, ?_⟩, ?_, ?_⟩,
      fun d hd => hd, ?_⟩
    case refine_5 =>
      intro d hd
      cases hd
    case refine_6 =>
      intro fetched refetched hinput
      obtain ⟨-, rfl, -⟩ := Input.snapshots.inj hinput
      exact ⟨demoSnapshot, rfl, .inl ⟨UInt64.le_refl _, by decide⟩⟩
    all_goals simp [demoMessage, deltaFor]
  obtain ⟨hgoes, hlive⟩ := (snapshot_sessions_go_on demoReader fun _ => none).1 "BTC-USDT"
    ["BTC-USDT"] 1 [demoDelta 2, demoDelta 3, demoDelta 4] demoInputs demoSession
    (demoMessage "fourth") (Run.mono And.left demo_run) (List.nodup_singleton _)
    (List.mem_singleton_self _)
    ⟨⟨rfl, UInt64.le_refl _⟩, ⟨rfl, UInt64.le_refl _⟩, ⟨rfl, UInt64.le_refl _⟩, trivial⟩ hstream
  exact ⟨hgoes, hlive rfl⟩

end Example

end Nuntius.SnapshotSessions
