import Mathlib.Data.List.Range
import Nuntius.ServedRequests

/-!
# Random bytes from the security module

Two generators hand out bytes of the Nitro security module's `GetRandom` through a buffer. One
fills its buffer from as many replies as it takes, the other takes what one reply has. The bytes
are of any type, so that they can carry their position in the module's output; a generator cannot
tell.
-/

namespace Nuntius.NsmRandom
open ServedRequests

variable {α β : Type}

/-! ### Replies -/

/-- What the driver answers to `GetRandom`; errors and other responses print as texts. -/
inductive Reply (α : Type) where
  | random (bytes : List α)
  | error (text : String)
  | other (text : String)

def Reply.bytes : Reply α → List α
  | .random bytes => bytes
  | _ => []

def Reply.map (f : α → β) : Reply α → Reply β
  | .random bytes => .random (bytes.map f)
  | .error text => .error text
  | .other text => .other text

/-- All bytes of the replies, in order. -/
def output (replies : List (Reply α)) : List α := replies.flatMap Reply.bytes

/-- One request to the driver. A driver without replies is closed. -/
def nsmProcessRequest : List (Reply α) → Reply α × List (Reply α)
  | [] => (.error "InternalError", [])
  | reply :: replies => (reply, replies)

def emptyText : String := "NSM GetRandom returned empty buffer"

/-! ### The generators -/

def refillBuf : ℕ := 256

/-- `stop` is `end` in the sources. -/
structure NsmRng (α : Type) where
  buf : List α
  pos : ℕ
  stop : ℕ

def NsmRng.new (zero : α) : NsmRng α := ⟨List.replicate refillBuf zero, 0, 0⟩

/-- `Nsm::get_random` for as many more bytes, after those it has. -/
def getRandom :
    (need : ℕ) → (got : List α) → List (Reply α) → Except String (List α) × List (Reply α)
  | 0, got, replies => (.ok got, replies)
  | _ + 1, _, [] => (.error "NSM GetRandom error: InternalError", [])
  | need + 1, got, .random bytes :: replies =>
    if bytes.isEmpty then (.error emptyText, replies)
    else
      let take := min (need + 1) bytes.length
      getRandom (need + 1 - take) (got ++ bytes.take take) replies
  | _ + 1, _, .error text :: replies => (.error ("NSM GetRandom error: " ++ text), replies)
  | _ + 1, _, .other text :: replies =>
    (.error ("NSM GetRandom unexpected response: " ++ text), replies)

/-- The generator of the shared crate: a whole slot, or nothing. -/
def refillSlot (rng : NsmRng α) (replies : List (Reply α)) :
    Except String (NsmRng α) × List (Reply α) :=
  match getRandom refillBuf [] replies with
  | (.ok slot, rest) => (.ok { rng with buf := slot, pos := 0, stop := refillBuf }, rest)
  | (.error e, rest) => (.error e, rest)

/-- The generator of the oracle: as much of one reply as there is room for. -/
def refillReply (rng : NsmRng α) (replies : List (Reply α)) :
    Except String (NsmRng α) × List (Reply α) :=
  match nsmProcessRequest replies with
  | (.random bytes, rest) =>
    if bytes.isEmpty then (.error emptyText, rest)
    else
      let n := min bytes.length rng.buf.length
      (.ok { rng with buf := bytes.take n ++ rng.buf.drop n, pos := 0, stop := n }, rest)
  | (.error text, rest) => (.error ("NSM GetRandom error: " ++ text), rest)
  | (.other text, rest) => (.error ("NSM GetRandom unexpected response: " ++ text), rest)

inductive Generator where
  | nitroCommon
  | oracle

def Generator.refill : Generator → NsmRng α → List (Reply α) →
    Except String (NsmRng α) × List (Reply α)
  | .nitroCommon => refillSlot
  | .oracle => refillReply

structure State (α : Type) where
  rng : NsmRng α
  replies : List (Reply α)

/-- How a request ended, `none` if the loop was cut off, and what the destination got. -/
structure Filled (α : Type) where
  result : Option (Except String Unit)
  delivered : List α

variable (g : Generator)

/-- The buffer with something in it, if need be after a refill. -/
def ready (s : State α) : Except String (NsmRng α) × List (Reply α) :=
  if s.rng.stop ≤ s.rng.pos then g.refill s.rng s.replies else (.ok s.rng, s.replies)

/-- The loop of `try_fill_bytes`, cut off after as many rounds. -/
def fillLoop : (rounds need : ℕ) → State α → Filled α × State α
  | _, 0, s => (⟨some (.ok ()), []⟩, s)
  | 0, _ + 1, s => (⟨none, []⟩, s)
  | rounds + 1, need + 1, s =>
    match ready g s with
    | (.error e, replies) => (⟨some (.error e), []⟩, { s with replies := replies })
    | (.ok rng, replies) =>
      let take := min (need + 1) (rng.stop - rng.pos)
      let piece := (rng.buf.drop rng.pos).take take
      let (filled, s') :=
        fillLoop rounds (need + 1 - take) ⟨{ rng with pos := rng.pos + take }, replies⟩
      ({ filled with delivered := piece ++ filled.delivered }, s')

/-- Every round takes a byte at least, so the size of the destination is enough rounds. -/
def tryFillBytes (s : State α) (size : ℕ) : Filled α × State α := fillLoop g size size s

/-! ### Refilling -/

structure NsmRng.Valid (rng : NsmRng α) : Prop where
  length : rng.buf.length = refillBuf
  pos_le : rng.pos ≤ rng.stop
  stop_le : rng.stop ≤ refillBuf

/-- The bytes in the buffer that were not handed out. -/
def NsmRng.pending (rng : NsmRng α) : List α := (rng.buf.drop rng.pos).take (rng.stop - rng.pos)

/-- A buffer that was just filled. -/
theorem pending_fresh {front : List α} {n : ℕ} (h : front.length = n) (stale : List α) :
    (⟨front ++ stale, 0, n⟩ : NsmRng α).pending = front := by
  rw [NsmRng.pending, ← h]
  simp

@[simp] theorem output_cons (reply : Reply α) (replies : List (Reply α)) :
    output (reply :: replies) = reply.bytes ++ output replies := rfl

theorem getRandom_rest (need : ℕ) (got : List α) (replies : List (Reply α)) :
    (output (getRandom need got replies).2).Sublist (output replies) := by
  fun_induction getRandom need got replies with
  | case1 => exact List.Sublist.refl _
  | case2 => exact List.Sublist.refl _
  | case3 => exact List.sublist_append_right _ _
  | case4 need got bytes replies _ take ih => exact ih.trans (List.sublist_append_right _ _)
  | case5 => exact List.sublist_append_right _ _
  | case6 => exact List.sublist_append_right _ _

/-- A slot is filled from the replies that it used up, in order. -/
theorem getRandom_ok {need : ℕ} {got slot : List α} {replies rest : List (Reply α)}
    (h : getRandom need got replies = (.ok slot, rest)) :
    ∃ more, slot = got ++ more ∧ more.length = need ∧
      (more ++ output rest).Sublist (output replies) := by
  fun_induction getRandom need got replies with
  | case1 got replies =>
    cases h
    exact ⟨[], by simp, rfl, List.Sublist.refl _⟩
  | case2 => cases h
  | case3 => cases h
  | case4 need got bytes replies _ take ih =>
    obtain ⟨more, hslot, hlength, hsub⟩ := ih h
    have htake : (bytes.take take).length = take := by
      rw [List.length_take]
      exact Nat.min_eq_left (Nat.min_le_right _ _)
    have htake_le : take ≤ need + 1 := Nat.min_le_left _ _
    refine ⟨bytes.take take ++ more, by rw [hslot, List.append_assoc], ?_, ?_⟩
    · rw [List.length_append, hlength, htake]
      omega
    · rw [List.append_assoc, output_cons]
      exact (List.take_sublist _ _).append hsub
  | case5 => cases h
  | case6 => cases h

/-- The buffer has bytes, of the replies that were used up. -/
structure Refilled (rng : NsmRng α) (replies rest : List (Reply α)) : Prop where
  valid : rng.Valid
  some_left : rng.pos < rng.stop
  from_replies : (rng.pending ++ output rest).Sublist (output replies)

theorem refillSlot_ok (rng : NsmRng α) {rng' : NsmRng α} {replies rest : List (Reply α)}
    (h : refillSlot rng replies = (.ok rng', rest)) : Refilled rng' replies rest := by
  unfold refillSlot at h
  split at h
  · next slot rest' hslot =>
    obtain ⟨more, hmore, hlength, hsub⟩ := getRandom_ok hslot
    rw [List.nil_append] at hmore
    cases h
    rw [← hmore] at hsub hlength
    have hpending := pending_fresh hlength []
    rw [List.append_nil] at hpending
    refine ⟨⟨hlength, Nat.zero_le _, le_rfl⟩, (by decide : 0 < refillBuf), ?_⟩
    rwa [hpending]
  · cases h

/-- One reply overwrites the front of the buffer. -/
theorem refilled_of_reply {rng : NsmRng α} (valid : rng.Valid) {bytes : List α}
    (hbytes : bytes ≠ []) (replies : List (Reply α)) :
    Refilled ⟨bytes.take (min bytes.length rng.buf.length) ++
        rng.buf.drop (min bytes.length rng.buf.length), 0, min bytes.length rng.buf.length⟩
      (.random bytes :: replies) replies := by
  have hpos := List.length_pos_iff.mpr hbytes
  have hroom : rng.buf.length = 256 := valid.length
  have hfront : (bytes.take (min bytes.length rng.buf.length)).length =
      min bytes.length rng.buf.length := by
    rw [List.length_take]
    omega
  refine ⟨⟨?_, Nat.zero_le _, (Nat.min_le_right _ _).trans valid.length.le⟩, ?_, ?_⟩
  · rw [List.length_append, hfront, List.length_drop, ← valid.length]
    omega
  · dsimp only
    omega
  · rw [pending_fresh hfront, output_cons]
    exact (List.take_sublist _ _).append_right _

theorem refillReply_ok {rng rng' : NsmRng α} {replies rest : List (Reply α)} (valid : rng.Valid)
    (h : refillReply rng replies = (.ok rng', rest)) : Refilled rng' replies rest := by
  unfold refillReply at h
  cases replies with
  | nil => cases h
  | cons reply replies =>
    cases reply with
    | error text => cases h
    | other text => cases h
    | random bytes =>
      simp only [nsmProcessRequest] at h
      split at h
      · cases h
      · next hbytes =>
        cases h
        exact refilled_of_reply valid (by simpa using hbytes) _

/-- A refill that succeeds leaves the buffer with bytes of the replies that it used up. -/
theorem refill_ok {rng rng' : NsmRng α} {replies rest : List (Reply α)} (valid : rng.Valid)
    (h : g.refill rng replies = (.ok rng', rest)) : Refilled rng' replies rest := by
  cases g with
  | nitroCommon => exact refillSlot_ok rng h
  | oracle => exact refillReply_ok valid h

theorem refill_rest (rng : NsmRng α) (replies : List (Reply α)) :
    (output (g.refill rng replies).2).Sublist (output replies) := by
  cases g with
  | nitroCommon =>
    have hrest := getRandom_rest refillBuf [] replies
    simp only [Generator.refill, refillSlot]
    split
    · next heq =>
      rw [heq] at hrest
      exact hrest
    · next heq =>
      rw [heq] at hrest
      exact hrest
  | oracle =>
    simp only [Generator.refill, refillReply]
    cases replies with
    | nil => exact List.Sublist.refl _
    | cons reply replies =>
      have hrest := List.sublist_append_right reply.bytes (output replies)
      cases reply with
      | error text => exact hrest
      | other text => exact hrest
      | random bytes =>
        simp only [nsmProcessRequest]
        split
        · exact hrest
        · exact hrest

/-! ### Filling -/

variable {g}

theorem ready_ok {s : State α} {rng : NsmRng α} {replies : List (Reply α)} (valid : s.rng.Valid)
    (h : ready g s = (.ok rng, replies)) :
    rng.Valid ∧ rng.pos < rng.stop ∧
      (rng.pending ++ output replies).Sublist (s.rng.pending ++ output s.replies) := by
  unfold ready at h
  split at h
  · obtain ⟨hvalid, hpos, hsub⟩ := refill_ok g valid h
    exact ⟨hvalid, hpos, hsub.trans (List.sublist_append_right _ _)⟩
  · next hpos =>
    cases h
    exact ⟨valid, by omega, List.Sublist.refl _⟩

theorem ready_rest (s : State α) :
    (output (ready g s).2).Sublist (output s.replies) := by
  unfold ready
  split
  · exact refill_rest g s.rng s.replies
  · exact List.Sublist.refl _

/-- The piece of a round and what is left of the buffer are what was in it. -/
theorem pending_eq {rng : NsmRng α} {take : ℕ} (h : take ≤ rng.stop - rng.pos) :
    (rng.buf.drop rng.pos).take take ++ ({ rng with pos := rng.pos + take } : NsmRng α).pending =
      rng.pending := by
  unfold NsmRng.pending
  dsimp only
  rw [← List.drop_drop]
  have hsplit : rng.stop - rng.pos = take + (rng.stop - (rng.pos + take)) := by omega
  rw [hsplit, List.take_add]

/-- What a request delivers, and then what is in the buffer and what is still to come, are in this
order among what was in the buffer and to come before. -/
structure Delivers (s : State α) (size : ℕ) (filled : Filled α) (s' : State α) : Prop where
  valid : s'.rng.Valid
  inOrder : (filled.delivered ++ (s'.rng.pending ++ output s'.replies)).Sublist
    (s.rng.pending ++ output s.replies)
  finished : filled.result ≠ none
  whole : filled.result = some (.ok ()) → filled.delivered.length = size

/-- One round, and the rounds after it. -/
theorem Delivers.round {s s' : State α} {need take : ℕ} {rng : NsmRng α}
    {replies : List (Reply α)} {filled : Filled α} (valid : rng.Valid)
    (sub : (rng.pending ++ output replies).Sublist (s.rng.pending ++ output s.replies))
    (htake : take ≤ rng.stop - rng.pos) (hneed : take ≤ need)
    (rest : Delivers ⟨{ rng with pos := rng.pos + take }, replies⟩ (need - take) filled s') :
    Delivers s need
      { filled with delivered := (rng.buf.drop rng.pos).take take ++ filled.delivered } s' where
  valid := rest.valid
  inOrder := by
    refine List.Sublist.trans ?_ sub
    rw [← pending_eq htake, List.append_assoc, List.append_assoc]
    exact rest.inOrder.append_left _
  finished := rest.finished
  whole := by
    intro hok
    have hpiece : ((rng.buf.drop rng.pos).take take).length = take := by
      have hstop := valid.stop_le
      rw [List.length_take, List.length_drop, valid.length]
      omega
    rw [List.length_append, hpiece, rest.whole hok]
    omega

theorem fillLoop_delivers {rounds need : ℕ} (enough : need ≤ rounds) {s : State α}
    (valid : s.rng.Valid) :
    Delivers s need (fillLoop g rounds need s).1 (fillLoop g rounds need s).2 := by
  induction rounds generalizing need s with
  | zero =>
    obtain rfl : need = 0 := by omega
    exact ⟨valid, List.Sublist.refl _, by simp [fillLoop], fun _ => rfl⟩
  | succ rounds ih =>
    cases need with
    | zero => exact ⟨valid, List.Sublist.refl _, by simp [fillLoop], fun _ => rfl⟩
    | succ need =>
      rw [fillLoop]
      cases hready : ready g s with
      | mk ok replies =>
        cases ok with
        | error e =>
          have hrest := ready_rest (g := g) s
          rw [hready] at hrest
          exact ⟨valid, hrest.append_left _, by simp, by simp⟩
        | ok rng =>
          obtain ⟨hvalid, hpos, hsub⟩ := ready_ok valid hready
          have hadvanced : ({ rng with
              pos := rng.pos + min (need + 1) (rng.stop - rng.pos) } : NsmRng α).Valid := by
            refine ⟨hvalid.length, ?_, hvalid.stop_le⟩
            dsimp only
            omega
          exact .round hvalid hsub (Nat.min_le_right _ _) (Nat.min_le_left _ _)
            (ih (by omega) hadvanced)

theorem tryFillBytes_delivers {s : State α} (valid : s.rng.Valid) (size : ℕ) :
    Delivers s size (tryFillBytes g s size).1 (tryFillBytes g s size).2 :=
  fillLoop_delivers le_rfl valid

/-! ### Requests one after the other -/

theorem valid_after {s : State α} (valid : s.rng.Valid) (sizes : List ℕ) :
    (after (tryFillBytes g) s sizes).rng.Valid := by
  induction sizes using List.reverseRecOn with
  | nil => exact valid
  | append_singleton sizes size ih =>
    rw [after_concat]
    exact (tryFillBytes_delivers ih size).valid

theorem answers_inOrder {s : State α} (valid : s.rng.Valid) (sizes : List ℕ) :
    ((answers (tryFillBytes g) s sizes).flatMap Filled.delivered).Sublist
      (s.rng.pending ++ output s.replies) := by
  induction sizes generalizing s with
  | nil => exact List.nil_sublist _
  | cons size sizes ih =>
    have hfirst := tryFillBytes_delivers (g := g) valid size
    rw [answers, List.flatMap_cons]
    exact ((ih hfirst.valid).append_left _).trans hfirst.inOrder

/-! ### The generators do not look at the bytes -/

def NsmRng.map (f : α → β) (rng : NsmRng α) : NsmRng β := ⟨rng.buf.map f, rng.pos, rng.stop⟩

def State.map (f : α → β) (s : State α) : State β := ⟨s.rng.map f, s.replies.map (Reply.map f)⟩

def Filled.map (f : α → β) (filled : Filled α) : Filled β :=
  ⟨filled.result, filled.delivered.map f⟩

/-- Both parts of what a refill gives. -/
def mapRefilled {γ δ : Type} (f : α → β) (h : γ → δ) (x : Except String γ × List (Reply α)) :
    Except String δ × List (Reply β) :=
  (x.1.map h, x.2.map (Reply.map f))

theorem getRandom_map (f : α → β) (need : ℕ) (got : List α) (replies : List (Reply α)) :
    getRandom need (got.map f) (replies.map (Reply.map f)) =
      mapRefilled f (List.map f) (getRandom need got replies) := by
  fun_induction getRandom need got replies with
  | case1 got replies => simp [getRandom, mapRefilled, Except.map]
  | case2 => rfl
  | case3 need got bytes replies hempty =>
    rw [List.map_cons, Reply.map, getRandom, if_pos (by simpa using hempty)]
    rfl
  | case4 need got bytes replies hsome take ih =>
    rw [List.map_cons, Reply.map, getRandom, if_neg (by simpa using hsome), List.length_map]
    dsimp only
    rw [← List.map_take, ← List.map_append]
    exact ih
  | case5 => rfl
  | case6 => rfl

theorem refill_map (f : α → β) (rng : NsmRng α) (replies : List (Reply α)) :
    g.refill (rng.map f) (replies.map (Reply.map f)) =
      mapRefilled f (NsmRng.map f) (g.refill rng replies) := by
  cases g with
  | nitroCommon =>
    have hslot := getRandom_map f refillBuf [] replies
    simp only [Generator.refill, refillSlot]
    rw [List.map_nil] at hslot
    rw [hslot]
    cases getRandom refillBuf [] replies with
    | mk slot rest =>
      cases slot with
      | ok slot => rfl
      | error e => rfl
  | oracle =>
    simp only [Generator.refill, refillReply]
    cases replies with
    | nil => rfl
    | cons reply replies =>
      cases reply with
      | error text => rfl
      | other text => rfl
      | random bytes =>
        simp only [List.map_cons, Reply.map, nsmProcessRequest, List.isEmpty_map]
        split
        · rfl
        · simp [mapRefilled, Except.map, NsmRng.map]

theorem ready_map (f : α → β) (s : State α) :
    ready g (s.map f) = mapRefilled f (NsmRng.map f) (ready g s) := by
  unfold ready
  change (if s.rng.stop ≤ s.rng.pos then _ else _) = _
  split
  · exact refill_map f s.rng s.replies
  · rfl

theorem fillLoop_map (f : α → β) (rounds need : ℕ) (s : State α) :
    fillLoop g rounds need (s.map f) =
      ((fillLoop g rounds need s).1.map f, (fillLoop g rounds need s).2.map f) := by
  induction rounds generalizing need s with
  | zero =>
    cases need with
    | zero => rfl
    | succ need => rfl
  | succ rounds ih =>
    cases need with
    | zero => rfl
    | succ need =>
      rw [fillLoop, fillLoop, ready_map]
      cases hready : ready g s with
      | mk ok replies =>
        cases ok with
        | error e => rfl
        | ok rng =>
          have hrest := ih (need + 1 - min (need + 1) (rng.stop - rng.pos))
            ⟨{ rng with pos := rng.pos + min (need + 1) (rng.stop - rng.pos) }, replies⟩
          simp only [State.map, NsmRng.map] at hrest
          simp only [mapRefilled, Except.map, State.map, NsmRng.map, hrest, Filled.map,
            List.map_append, List.map_take, List.map_drop]

theorem answers_map (f : α → β) (sizes : List ℕ) (s : State α) :
    answers (tryFillBytes g) (s.map f) sizes =
      (answers (tryFillBytes g) s sizes).map (Filled.map f) := by
  induction sizes generalizing s with
  | nil => rfl
  | cons size sizes ih =>
    rw [answers, answers, List.map_cons]
    have hfirst : tryFillBytes g (s.map f) size =
        ((tryFillBytes g s size).1.map f, (tryFillBytes g s size).2.map f) :=
      fillLoop_map f size size s
    rw [hfirst, ih]

/-! ### Positions in the output -/

/-- The replies with each byte's position in their output, from `n` on. -/
def numberFrom : ℕ → List (Reply α) → List (Reply (α × ℕ))
  | _, [] => []
  | n, .random bytes :: replies =>
    .random (bytes.zipIdx n) :: numberFrom (n + bytes.length) replies
  | n, .error text :: replies => .error text :: numberFrom n replies
  | n, .other text :: replies => .other text :: numberFrom n replies

theorem output_numberFrom (n : ℕ) (replies : List (Reply α)) :
    output (numberFrom n replies) = (output replies).zipIdx n := by
  fun_induction numberFrom n replies with
  | case1 => rfl
  | case2 n bytes replies ih =>
    rw [output_cons, output_cons, ih]
    exact List.zipIdx_append.symm
  | case3 n text replies ih => exact ih
  | case4 n text replies ih => exact ih

theorem numberFrom_map_fst (n : ℕ) (replies : List (Reply α)) :
    (numberFrom n replies).map (Reply.map Prod.fst) = replies := by
  fun_induction numberFrom n replies with
  | case1 => rfl
  | case2 n bytes replies ih => simp [Reply.map, ih]
  | case3 n text replies ih => simp [Reply.map, ih]
  | case4 n text replies ih => simp [Reply.map, ih]

/-- The generator before the first request, with the replies it is going to get. -/
def State.start (zero : α) (replies : List (Reply α)) : State α := ⟨.new zero, replies⟩

theorem valid_new (zero : α) : (NsmRng.new zero).Valid :=
  ⟨List.length_replicate, le_rfl, Nat.zero_le _⟩

/-- With the bytes of the module's output numbered, the numbers that both generators hand out over
all requests increase strictly, so no byte is handed out twice. Every byte handed out is the one
with that number in the output, and without the numbers the requests end and deliver the same.
Every request ends, one that reports success filled its destination, and after every one the
cursors are within the buffer. -/
theorem entropy_handed_out_once (g : Generator) (replies : List (Reply UInt8)) (sizes : List ℕ) :
    let numbered := answers (tryFillBytes g) (.start (0, 0) (numberFrom 0 replies)) sizes
    ((numbered.flatMap Filled.delivered).map Prod.snd).Pairwise (· < ·) ∧
    (∀ b ∈ numbered.flatMap Filled.delivered, (output replies)[b.2]? = some b.1) ∧
    answers (tryFillBytes g) (.start 0 replies) sizes = numbered.map (Filled.map Prod.fst) ∧
    EachTime (fun older size =>
      let s := after (tryFillBytes g) (.start 0 replies) older
      (tryFillBytes g s size).1.result ≠ none ∧
      ((tryFillBytes g s size).1.result = some (.ok ()) →
        (tryFillBytes g s size).1.delivered.length = size) ∧
      (tryFillBytes g s size).2.rng.pos ≤ (tryFillBytes g s size).2.rng.stop ∧
      (tryFillBytes g s size).2.rng.stop ≤ 256) sizes := by
  intro numbered
  have hsub : (numbered.flatMap Filled.delivered).Sublist ((output replies).zipIdx 0) := by
    have h := answers_inOrder (g := g) (s := .start (0, 0) (numberFrom 0 replies))
      (valid_new (0, 0)) sizes
    rw [← output_numberFrom]
    exact h
  refine ⟨?_, ?_, ?_, ?_⟩
  · have hsnd := hsub.map Prod.snd
    rw [List.zipIdx_map_snd] at hsnd
    exact List.Pairwise.sublist hsnd List.pairwise_lt_range'
  · intro b hb
    exact List.mem_zipIdx_iff_getElem?.mp (hsub.subset hb)
  · have hmap := answers_map (g := g) Prod.fst sizes (.start (0, 0) (numberFrom 0 replies))
    have hstart : (State.start (0, 0) (numberFrom 0 replies)).map Prod.fst =
        State.start 0 replies := by
      rw [State.start, State.start, State.map, numberFrom_map_fst, NsmRng.map, NsmRng.new,
        NsmRng.new, List.map_replicate]
    rw [← hmap, hstart]
  · intro older size newer _
    have h := tryFillBytes_delivers (g := g)
      (valid_after (g := g) (s := .start 0 replies) (valid_new 0) older) size
    exact ⟨h.finished, h.whole, h.valid.pos_le, h.valid.stop_le⟩

end Nuntius.NsmRandom
