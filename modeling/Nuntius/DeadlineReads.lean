import Nuntius.TimedSockets
import Nuntius.VsockFrames

/-!
# Requests read against a deadline

The price server and the bridge read a request from a blocking socket with one deadline for all of
it: before every read the timeout is set to what is left. So a peer that sends byte by byte does
not hold the connection any longer than a silent one, and a peer that sends its request in time
gets it read, in whatever pieces and at whatever times they come.

Times are in nanoseconds.
-/

namespace Nuntius.DeadlineReads
open WireFormat ByteSources FramedStreams InteractivePrograms TimedSockets VsockFrames

/-! ### The readers -/

/-- Why a read gave up. -/
inductive Cause where
  | deadlineExceeded
  | closed
  | timedOut
  | broken
deriving DecidableEq, Repr

/-- The bytes one turn of the loop adds. -/
abbrev Piece (room : ℕ) := { got : List UInt8 // 0 < got.length ∧ got.length ≤ room }

/-- What a turn makes of the answer to its read; a read of nothing is a closed connection. -/
def pieceOf {room : ℕ} : Except ReadFault (Chunk room) → Except Cause (Piece room)
  | .ok got =>
    if h : got.val = [] then .error .closed
    else .ok ⟨got.val, List.length_pos_iff.mpr h, got.property⟩
  | .error .timedOut => .error .timedOut
  | .error .other => .error .broken

/-- One turn of the loop in `read_exact_deadline` and `read_exact_with_deadline`. -/
def readTurn (deadline room : ℕ) : Prog Answer (Except Cause (Piece room)) :=
  .ask .now fun now =>
    if deadline ≤ now then .ret (.error .deadlineExceeded)
    else .ask (.setReadTimeout (deadline - now)) fun set =>
      if set then .ask (.read room) fun answer => .ret (pieceOf answer)
      else .ret (.error .broken)

theorem room_shrinks {room : ℕ} (got : Piece room) : room - got.val.length < room :=
  Nat.sub_lt_of_pos_le got.property.1 got.property.2

/-- `filled` is what the buffer holds so far, `room` what is missing. -/
def readExactDeadline (deadline : ℕ) (filled : List UInt8) (room : ℕ) :
    Prog Answer (Except Cause (List UInt8)) :=
  if room = 0 then .ret (.ok filled)
  else readTurn deadline room >>= fun
    | .error cause => .ret (.error cause)
    | .ok got => readExactDeadline deadline (filled ++ got.val) (room - got.val.length)
termination_by room
decreasing_by exact room_shrinks got

/-- The texts in which the two servers' readers differ. -/
structure Wording where
  deadlineExceeded : String
  timedOut : String
  tooLarge : ℕ → String

def Wording.error (words : Wording) : Cause → FrameError
  | .deadlineExceeded => .report words.deadlineExceeded
  | .closed => .report "connection closed mid-read"
  | .timedOut => .report words.timedOut
  | .broken => .read .broken

def readFrameWith (words : Wording) (maxFrame deadline : ℕ) :
    Prog Answer (Except FrameError (List UInt8)) :=
  readExactDeadline deadline [] 4 >>= fun
    | .error cause => .ret (.error (words.error cause))
    | .ok lenBuf =>
      if maxFrame < beNat lenBuf then .ret (.error (.report (words.tooLarge (beNat lenBuf))))
      else readExactDeadline deadline [] (beNat lenBuf) >>= fun
        | .error cause => .ret (.error (words.error cause))
        | .ok buf => .ret (.ok buf)

def frameWording (maxFrame : ℕ) : Wording where
  deadlineExceeded := "frame read deadline exceeded"
  timedOut := "frame read timed out"
  tooLarge len := frameTooLarge len maxFrame

/-- The bridge's reader; the price server has the same in its own words. -/
def readFrameDeadline (maxFrame deadline : ℕ) : Prog Answer (Except FrameError (List UInt8)) :=
  readFrameWith (frameWording maxFrame) maxFrame deadline

def requestWording : Wording where
  deadlineExceeded := "request read deadline exceeded"
  timedOut := "request read timed out"
  tooLarge len := s!"request too large: {len} bytes"

/-- The two servers that read their requests this way. -/
inductive Server where
  | price
  | bridge
deriving DecidableEq, Repr

def Server.maxFrame : Server → ℕ
  | .price => 1024 * 64
  | .bridge => 64 * 1024

def Server.wording : Server → Wording
  | .price => requestWording
  | .bridge => frameWording Server.bridge.maxFrame

def Server.readRequest (deadline : ℕ) : Server → Prog Answer (Except FrameError (List UInt8))
  | .price => readFrameWith requestWording Server.price.maxFrame deadline
  | .bridge => readFrameDeadline Server.bridge.maxFrame deadline

theorem Server.readRequest_eq (server : Server) (deadline : ℕ) :
    server.readRequest deadline = readFrameWith server.wording server.maxFrame deadline := by
  cases server <;> rfl

def requestDeadline : ℕ := 15_000_000_000
def writeTimeout : ℕ := 10_000_000_000

/-- The beginning of `handle_connection`, up to the bytes of the request. -/
def receive (server : Server) : Prog Answer (Except FrameError (List UInt8)) :=
  .ask .now fun now =>
    .ask (.setWriteTimeout writeTimeout) fun set =>
      if set then server.readRequest (now + requestDeadline)
      else .ret (.error (.read .broken))

/-! ### One turn -/

section Loop
variable {p : Peer} {lag deadline : ℕ}

/-- What stands behind a read that gave up with `want` bytes of the stream still to be taken. -/
def Explains (p : Peer) (lag deadline want : ℕ) (w w' : Moment) : Cause → Prop
  | .deadlineExceeded =>
    deadline ≤ w'.now ∧ ∀ t, p.Has want t → deadline ≤ max w.now (t + 3 * lag) + 3 * lag
  | .closed => p.closed w'.now ∧ ¬ p.Has want w'.now
  | .timedOut => deadline ≤ w'.now ∧ ∀ t, t < deadline → ¬ p.Has want t
  | .broken => ∃ t, w.now ≤ t ∧ t ≤ w'.now ∧ p.fails t

/-- A turn ends soon after the deadline and soon after the next byte has come, and it takes
all that had come when it began. -/
def Turned (p : Peer) (lag deadline room : ℕ) (w : Moment) :
    Except Cause (Piece room) → Moment → Prop
  | .ok got, w' => w.now ≤ w'.now ∧ w'.now ≤ deadline + 2 * lag ∧
    got.val <+: (p.received w'.now).drop w.taken ∧ w'.taken = w.taken + got.val.length ∧
    (∀ t, p.Has (w.taken + 1) t → w'.now ≤ max t (w.now + 2 * lag) + lag) ∧
    (got.val.length = room ∨ ¬ p.Has (w.taken + got.val.length + 1) w.now)
  | .error cause, w' => w.now ≤ w'.now ∧ w'.now ≤ max w.now (deadline + 2 * lag) + lag ∧
    Explains p lag deadline (w.taken + room) w w' cause

/-- The read of a turn: the clock showed `now` before it, and it is called at `c`. -/
theorem turned_of_read {room now c : ℕ} (hroom : 0 < room) {w w' : Moment} (hnow : AtOnce lag w now)
    (hlt : now < deadline) (hc : AtOnce lag { w with now := now } c)
    {answer : Except ReadFault (Chunk room)}
    (h : serve p lag { w with now := c, timeout := some (deadline - now) } (.read room) answer w') :
    Turned p lag deadline room w (pieceOf answer) w' := by
  obtain ⟨hnow, hnowlag⟩ := hnow
  obtain ⟨hc, hclag⟩ := hc
  dsimp only at hc hclag
  have hbound : ∀ {t}, Prompt p lag { w with now := c, timeout := some (deadline - now) } t →
      t ≤ deadline + 2 * lag := by
    intro t hprompt
    have hexpired := hprompt.expired _ rfl
    dsimp only at hexpired
    omega
  match answer with
  | .ok got =>
    obtain ⟨t, hprompt, ⟨s, hs, hst, hhas, hgot, rfl⟩ | ⟨hclosed, hnot, hgot, rfl⟩⟩ := h
    · have hafter := hprompt.after
      dsimp only at hs hhas hgot hafter
      have hlen : got.val.length = min room ((p.received s).length - w.taken) := by
        rw [hgot, List.length_take, List.length_drop]
      have hne : got.val ≠ [] := by
        rw [← List.length_pos_iff, hlen]
        rw [Peer.Has] at hhas
        omega
      rw [pieceOf, dif_neg hne]
      refine ⟨by dsimp only; omega, hbound hprompt, ?_, rfl, ?_, ?_⟩
      · rw [hgot]
        exact (List.take_prefix _ _).trans (Peer.prefix_drop hst _)
      · intro t' ht'
        have hready := hprompt.ready (max t' c) (Nat.le_max_right _ _)
          ((ht'.mono (Nat.le_max_left _ _)).ready (Nat.lt_succ_self _))
        dsimp only
        omega
      · by_cases hfull : got.val.length = room
        · exact .inl hfull
        · right
          intro hmore
          have hmore : p.Has (w.taken + got.val.length + 1) s := hmore.mono (by omega)
          rw [Peer.Has] at hmore
          omega
    · rw [pieceOf, dif_pos hgot]
      have hafter := hprompt.after
      have htime := hbound hprompt
      dsimp only at hafter hnot ⊢
      refine ⟨by dsimp only; omega, by dsimp only; omega, hclosed, ?_⟩
      intro hhas
      exact hnot (Nat.le_trans (by omega) hhas)
  | .error .timedOut =>
    obtain ⟨t, hprompt, rfl, wait, hwait, hexpired, hquiet⟩ := h
    cases hwait
    have hafter := hprompt.after
    have htime := hbound hprompt
    dsimp only at hafter hexpired hquiet
    refine ⟨by dsimp only; omega, by dsimp only; omega, by dsimp only; omega, ?_⟩
    intro t' ht' hhas
    have hready : p.Ready w.taken (max t' c) :=
      (hhas.mono (Nat.le_max_left _ _)).ready (by omega)
    exact hquiet _ (Nat.le_max_right _ _) (by omega) hready
  | .error .other =>
    obtain ⟨t, hprompt, hfails, rfl⟩ := h
    have hafter := hprompt.after
    have htime := hbound hprompt
    dsimp only at hafter
    exact ⟨by dsimp only; omega, by dsimp only; omega, t, by omega, Nat.le_refl _, hfails⟩

theorem readTurn_returns {room : ℕ} (hroom : 0 < room) (w : Moment) :
    Returns (serve p lag) (Turned p lag deadline room w) (readTurn deadline room) w := by
  refine ⟨⟨w.now, w, atOnce_now lag w, rfl⟩, ?_⟩
  rintro now w₁ ⟨hnow, rfl⟩
  have ⟨hafter, hsoon⟩ := hnow
  by_cases hlate : deadline ≤ now
  · simp only [hlate, if_true]
    refine ⟨hafter, ?_, hlate, ?_⟩
    · dsimp only
      omega
    · intro t _
      omega
  simp only [hlate, if_false]
  have hwait : 0 < deadline - now := by omega
  refine ⟨⟨true, _, hwait, now, atOnce_now lag _, rfl⟩, ?_⟩
  intro set w₂ hset
  cases set with
  | false =>
    obtain ⟨t, ⟨ht, htlag⟩, hfault, rfl⟩ := hset
    dsimp only at ht htlag
    refine ⟨Nat.le_trans hafter ht, ?_, t, Nat.le_trans hafter ht, Nat.le_refl _, ?_⟩
    · dsimp only
      omega
    · exact hfault.resolve_left (Nat.ne_of_gt hwait)
  | true =>
    obtain ⟨-, c, hc, rfl⟩ := hset
    refine ⟨serve_read rfl room, fun answer w₃ hread => ?_⟩
    exact turned_of_read hroom hnow (Nat.not_le.mp hlate) hc hread

/-! ### The loop -/

/-- Like a turn, for all the missing bytes. -/
def Filled (p : Peer) (lag deadline : ℕ) (filled : List UInt8) (room : ℕ) (w : Moment) :
    Except Cause (List UInt8) → Moment → Prop
  | .ok buf, w' => w.now ≤ w'.now ∧ w'.now ≤ max w.now (deadline + 2 * lag) ∧
    w'.taken = w.taken + room ∧
    (∃ more, buf = filled ++ more ∧ more.length = room ∧
      more <+: (p.received w'.now).drop w.taken) ∧
    (room = 0 → w'.now = w.now) ∧
    ∀ t, p.Has (w.taken + room) t → w'.now ≤ max w.now (t + 3 * lag) + 3 * lag
  | .error cause, w' => w.now ≤ w'.now ∧ w'.now ≤ max w.now (deadline + 2 * lag) + lag ∧
    0 < room ∧ Explains p lag deadline (w.taken + room) w w' cause

theorem append_prefix_of_drop {got more bytes : List UInt8} (hgot : got <+: bytes)
    (hmore : more <+: bytes.drop got.length) : got ++ more <+: bytes := by
  obtain ⟨rest, rfl⟩ := hgot
  rw [List.drop_left] at hmore
  exact (List.prefix_append_right_inj got).mpr hmore

/-- A turn that leaves room began before the bytes it left had come, so it ended soon after
them. -/
theorem Turned.soon {room : ℕ} {w w₁ : Moment} {got : Piece room}
    (h : Turned p lag deadline room w (.ok got) w₁) (hroom : got.val.length < room) {t : ℕ}
    (ht : p.Has (w.taken + room) t) : w₁.now ≤ t + 3 * lag := by
  obtain ⟨-, -, -, -, hprompt, hall⟩ := h
  have hnot := hall.resolve_left (Nat.ne_of_lt hroom)
  have hlt : w.now < t := by
    by_contra hle
    exact hnot (Nat.le_trans (by omega) (ht.mono (Nat.not_lt.mp hle)))
  have htime := hprompt t (Nat.le_trans (by omega) ht)
  omega

theorem Filled.of_turn {filled : List UInt8} {room : ℕ} {w w₁ w' : Moment} {got : Piece room}
    (hturn : Turned p lag deadline room w (.ok got) w₁) {r : Except Cause (List UInt8)}
    (h : Filled p lag deadline (filled ++ got.val) (room - got.val.length) w₁ r w') :
    Filled p lag deadline filled room w r w' := by
  have ⟨hpos, hle⟩ := got.property
  have ⟨hafter, hbound, hpre, htaken, hprompt, _⟩ := hturn
  have hwant : w₁.taken + (room - got.val.length) = w.taken + room := by omega
  cases r with
  | ok buf =>
    obtain ⟨hafter', hbound', htaken', ⟨more, rfl, hlen, hmore⟩, hstay, hsoon⟩ := h
    rw [hwant] at hsoon
    refine ⟨by omega, by omega, by omega, ⟨got.val ++ more, by simp, ?_, ?_⟩, by omega, ?_⟩
    · rw [List.length_append, hlen]
      omega
    · apply append_prefix_of_drop (hpre.trans (Peer.prefix_drop hafter' _))
      rw [List.drop_drop, ← htaken]
      exact hmore
    · intro t ht
      rcases Nat.lt_or_ge got.val.length room with hlt | hge
      · have hfirst := hturn.soon hlt ht
        have hlast := hsoon t ht
        omega
      · have hfirst := hprompt t (Nat.le_trans (by omega) ht)
        have hlast := hstay (by omega)
        omega
  | error cause =>
    obtain ⟨hafter', hbound', hroom, hcause⟩ := h
    rw [hwant] at hcause
    refine ⟨by omega, by omega, by omega, ?_⟩
    cases cause with
    | deadlineExceeded =>
      refine ⟨hcause.1, fun t ht => ?_⟩
      have hfirst := hturn.soon (by omega) ht
      have hlast := hcause.2 t ht
      omega
    | closed => exact hcause
    | timedOut => exact hcause
    | broken =>
      obtain ⟨t, ht, ht', hfails⟩ := hcause
      exact ⟨t, by omega, ht', hfails⟩

theorem readExactDeadline_returns (filled : List UInt8) (room : ℕ) (w : Moment) :
    Returns (serve p lag) (Filled p lag deadline filled room w)
      (readExactDeadline deadline filled room) w := by
  induction room using Nat.strongRecOn generalizing filled w with
  | ind room ih =>
    rw [readExactDeadline]
    by_cases hroom : room = 0
    · rw [if_pos hroom]
      refine ⟨Nat.le_refl _, Nat.le_max_left _ _, by omega, ⟨[], by simp, hroom.symm, ?_⟩,
        fun _ => rfl, fun t _ => by omega⟩
      exact List.nil_prefix
    · rw [if_neg hroom]
      apply (readTurn_returns (Nat.pos_of_ne_zero hroom) w).bind
      intro r w₁ hturn
      cases r with
      | error cause => exact ⟨hturn.1, hturn.2.1, Nat.pos_of_ne_zero hroom, hturn.2.2⟩
      | ok got => exact (ih _ (room_shrinks got) _ w₁).mono fun r w' h => h.of_turn hturn

/-! ### Frames -/

/-- By `t` a frame that the limit allows has come, behind the bytes already taken. -/
structure FrameBy (p : Peer) (maxFrame taken t : ℕ) (payload : List UInt8) : Prop where
  fits : Fits payload
  le_max : payload.length ≤ maxFrame
  come : frameBytes payload <+: (p.received t).drop taken

variable {maxFrame taken s t : ℕ} {payload payload' : List UInt8}

theorem FrameBy.has (h : FrameBy p maxFrame taken t payload) :
    p.Has (taken + 4 + payload.length) t := by
  have hlen := h.come.length_le
  rw [frameBytes, List.length_append, length_beBytes, List.length_drop] at hlen
  rw [Peer.Has]
  omega

/-- Both are the beginning of what comes behind the bytes taken. -/
theorem prefix_or_prefix {l l' : List UInt8} (h : l <+: (p.received s).drop taken)
    (h' : l' <+: (p.received t).drop taken) : l <+: l' ∨ l' <+: l :=
  List.prefix_or_prefix_of_prefix (h.trans (Peer.prefix_drop (Nat.le_max_left s t) taken))
    (h'.trans (Peer.prefix_drop (Nat.le_max_right s t) taken))

/-- The header that was read is the header of the frame. -/
theorem FrameBy.header_eq (h : FrameBy p maxFrame taken t payload) {header : List UInt8}
    (hheader : header.length = 4) (hread : header <+: (p.received s).drop taken) :
    beNat header = payload.length := by
  have hprefix : beBytes 4 payload.length <+: (p.received t).drop taken :=
    (List.prefix_append _ _).trans h.come
  have hlen : header.length = (beBytes 4 payload.length).length := by
    rw [hheader, length_beBytes]
  have heq : header = beBytes 4 payload.length := by
    obtain hpre | hpre := prefix_or_prefix hread hprefix
    · exact hpre.eq_of_length hlen
    · exact (hpre.eq_of_length hlen.symm).symm
  rw [heq]
  exact beNat_beBytes h.fits

theorem FrameBy.unique (h : FrameBy p maxFrame taken s payload)
    (h' : FrameBy p maxFrame taken t payload') : payload = payload' := by
  have hlen : payload.length = payload'.length := by
    have hannounced : beNat (beBytes 4 payload.length) = payload.length := beNat_beBytes h.fits
    rw [← hannounced]
    exact h'.header_eq (length_beBytes 4 _) ((List.prefix_append _ _).trans h.come)
  have hframes : (frameBytes payload).length = (frameBytes payload').length := by
    rw [frameBytes, frameBytes, List.length_append, List.length_append, hlen]
  have heq : frameBytes payload = frameBytes payload' := by
    obtain hpre | hpre := prefix_or_prefix h.come h'.come
    · exact hpre.eq_of_length hframes
    · exact (hpre.eq_of_length hframes.symm).symm
  rw [frameBytes, frameBytes, hlen] at heq
  exact List.append_cancel_left heq

/-- A frame has come when the plain reader would read one off what has come. -/
theorem FrameBy.of_readFrame {r : Source} (hbytes : r.bytes = (p.received t).drop taken)
    (h : (readFrame r maxFrame).1 = .ok payload) : FrameBy p maxFrame taken t payload := by
  obtain ⟨hle, hfits, hsplit⟩ := readFrame_ok h
  exact ⟨hfits, hle, _, hbytes ▸ hsplit.symm⟩

theorem FrameBy.readFrame_eq (h : FrameBy p maxFrame taken t payload) {r : Source}
    (hbytes : r.bytes = (p.received t).drop taken) : (readFrame r maxFrame).1 = .ok payload := by
  obtain ⟨rest, hrest⟩ := h.come
  exact (readFrame_frame h.fits h.le_max (hbytes.trans hrest.symm)).1

/-- What stands behind a request that was not read: it was due at `due`, and a whole one would
have been read within `slack` of its coming. -/
def Missed (p : Peer) (maxFrame due slack : ℕ) (w w' : Moment) : Cause → Prop
  | .deadlineExceeded => due ≤ w'.now ∧
    ∀ t payload, FrameBy p maxFrame w.taken t payload → due ≤ max w.now t + slack
  | .closed => p.closed w'.now ∧ ∀ t payload, ¬ FrameBy p maxFrame w.taken t payload
  | .timedOut => due ≤ w'.now ∧ ∀ t payload, FrameBy p maxFrame w.taken t payload → due ≤ t
  | .broken => ∃ t, w.now ≤ t ∧ t ≤ w'.now ∧ p.fails t

/-- The outcome of reading a frame: the first one that comes, a header that announces too much
and nothing behind it, or a cause. -/
def FrameRead (words : Wording) (p : Peer) (maxFrame due slack : ℕ) (w : Moment) :
    Except FrameError (List UInt8) → Moment → Prop
  | .ok payload, w' => FrameBy p maxFrame w.taken w'.now payload ∧
    w'.taken = w.taken + (frameBytes payload).length ∧
    ∀ t, FrameBy p maxFrame w.taken t payload → w'.now ≤ max w.now t + slack
  | .error e, w' =>
    (∃ header, header.length = 4 ∧ header <+: (p.received w'.now).drop w.taken ∧
      maxFrame < beNat header ∧ e = .report (words.tooLarge (beNat header)) ∧
      w'.taken = w.taken + 4) ∨
    ∃ cause, e = words.error cause ∧ Missed p maxFrame due slack w w' cause

/-- `want` bytes are part of every frame that can still come. -/
theorem Explains.missed {want : ℕ} {w w₁ w' : Moment} {cause : Cause}
    (h : Explains p lag deadline want w₁ w' cause) (hafter : w.now ≤ w₁.now)
    (hwant : ∀ t payload, FrameBy p maxFrame w.taken t payload → p.Has want t)
    (hsoon : ∀ t payload, FrameBy p maxFrame w.taken t payload →
      w₁.now ≤ max w.now (t + 3 * lag) + 3 * lag) :
    Missed p maxFrame deadline (9 * lag) w w' cause := by
  cases cause with
  | deadlineExceeded =>
    refine ⟨h.1, fun t payload hframe => ?_⟩
    have hlast := h.2 t (hwant t payload hframe)
    have hfirst := hsoon t payload hframe
    omega
  | closed =>
    exact ⟨h.1, fun t payload hframe => Peer.not_has_of_closed h.1 h.2 (hwant t payload hframe)⟩
  | timedOut =>
    refine ⟨h.1, fun t payload hframe => ?_⟩
    by_contra hlt
    exact h.2 t (Nat.not_le.mp hlt) (hwant t payload hframe)
  | broken =>
    obtain ⟨t, ht, ht', hfails⟩ := h
    exact ⟨t, Nat.le_trans hafter ht, ht', hfails⟩

theorem readFrameWith_returns (words : Wording) (maxFrame : ℕ) (w : Moment) :
    Returns (serve p lag)
      (fun r w' => w.now ≤ w'.now ∧ w'.now ≤ max w.now (deadline + 2 * lag) + lag ∧
        FrameRead words p maxFrame deadline (9 * lag) w r w')
      (readFrameWith words maxFrame deadline) w := by
  apply (readExactDeadline_returns [] 4 w).bind
  intro r w₁ hheader
  cases r with
  | error cause =>
    obtain ⟨hafter, hbound, -, hcause⟩ := hheader
    refine ⟨hafter, hbound, .inr ⟨cause, rfl, hcause.missed (Nat.le_refl _) ?_ ?_⟩⟩
    · intro t payload hframe
      exact Nat.le_trans (Nat.le_add_right _ _) hframe.has
    · intro t payload _
      omega
  | ok header =>
    obtain ⟨hafter, hbound, htaken, ⟨_, rfl, hlen, hcome⟩, -, hsoon⟩ := hheader
    have hfirst : ∀ t payload, FrameBy p maxFrame w.taken t payload →
        w₁.now ≤ max w.now (t + 3 * lag) + 3 * lag := by
      intro t payload hframe
      exact hsoon t (Nat.le_trans (Nat.le_add_right _ _) hframe.has)
    by_cases hlarge : maxFrame < beNat header
    · simp only [hlarge, if_true]
      exact ⟨hafter, by omega, .inl ⟨header, hlen, hcome, hlarge, rfl, htaken⟩⟩
    simp only [hlarge, if_false]
    apply (readExactDeadline_returns [] (beNat header) w₁).bind
    intro r w₂ hbody
    cases r with
    | error cause =>
      obtain ⟨hafter', hbound', -, hcause⟩ := hbody
      refine ⟨by omega, by omega, .inr ⟨cause, rfl, hcause.missed hafter ?_ hfirst⟩⟩
      intro t payload hframe
      rw [hframe.header_eq hlen hcome, htaken]
      exact hframe.has
    | ok payload =>
      obtain ⟨hafter', hbound', htaken', ⟨_, rfl, hpayload, hcome'⟩, -, hsoon'⟩ := hbody
      have hbytes : beBytes 4 (beNat header) = header := hlen ▸ beBytes_beNat header
      have hframe : FrameBy p maxFrame w.taken w₂.now payload := by
        refine ⟨?_, by omega, ?_⟩
        · have hlt := beNat_lt header
          rw [hlen] at hlt
          exact Nat.lt_of_le_of_lt (Nat.le_of_eq hpayload) hlt
        · rw [frameBytes, hpayload, hbytes]
          apply append_prefix_of_drop (hcome.trans (Peer.prefix_drop hafter' _))
          rw [List.drop_drop, hlen, ← htaken]
          exact hcome'
      refine ⟨by omega, by omega, hframe, ?_, ?_⟩
      · rw [htaken', htaken, frameBytes, List.length_append, length_beBytes, hpayload]
        omega
      · intro t ht
        have hlast := hsoon' t (by rw [htaken, ← hpayload]; exact ht.has)
        have hfirst := hfirst t payload ht
        omega

/-- The same outcome, seen from an earlier moment and with an earlier due time. -/
theorem FrameRead.of_later {words : Wording} {due due' slack slack' : ℕ} {w w₁ w' : Moment}
    {r : Except FrameError (List UInt8)} (h : FrameRead words p maxFrame due' slack' w₁ r w')
    (htaken : w₁.taken = w.taken) (hafter : w.now ≤ w₁.now) (hdue : due ≤ due')
    (hslack : ∀ t, max w₁.now t + slack' ≤ max w.now t + slack) :
    FrameRead words p maxFrame due slack w r w' := by
  cases r with
  | ok payload =>
    obtain ⟨hframe, htaken', hsoon⟩ := h
    rw [htaken] at hframe htaken' hsoon
    exact ⟨hframe, htaken', fun t ht => Nat.le_trans (hsoon t ht) (hslack t)⟩
  | error e =>
    obtain ⟨header, hlen, hcome, hlarge, he, htaken'⟩ | ⟨cause, he, hcause⟩ := h
    · rw [htaken] at hcome htaken'
      exact .inl ⟨header, hlen, hcome, hlarge, he, htaken'⟩
    · refine .inr ⟨cause, he, ?_⟩
      cases cause with
      | deadlineExceeded =>
        refine ⟨Nat.le_trans hdue hcause.1, fun t payload hframe => ?_⟩
        have hlate := hcause.2 t payload (htaken ▸ hframe)
        have hshift := hslack t
        omega
      | closed => exact ⟨hcause.1, fun t payload hframe => hcause.2 t payload (htaken ▸ hframe)⟩
      | timedOut =>
        refine ⟨Nat.le_trans hdue hcause.1, fun t payload hframe => ?_⟩
        exact Nat.le_trans hdue (hcause.2 t payload (htaken ▸ hframe))
      | broken =>
        obtain ⟨t, ht, ht', hfails⟩ := hcause
        exact ⟨t, Nat.le_trans hafter ht, ht', hfails⟩

end Loop

/-! ### The servers -/

section Servers
variable {p : Peer} {lag : ℕ}

theorem receive_returns (server : Server) (w : Moment) :
    Returns (serve p lag)
      (fun r w' => w'.now ≤ w.now + requestDeadline + 4 * lag ∧
        FrameRead server.wording p server.maxFrame (w.now + requestDeadline) (11 * lag) w r w')
      (receive server) w := by
  refine ⟨⟨w.now, w, atOnce_now lag w, rfl⟩, ?_⟩
  rintro now w₁ ⟨⟨hnow, hnowlag⟩, rfl⟩
  refine ⟨⟨true, _, by decide, now, atOnce_now lag _, rfl⟩, ?_⟩
  intro set w₂ hset
  cases set with
  | false =>
    obtain ⟨t, ⟨ht, htlag⟩, hfault, rfl⟩ := hset
    dsimp only at ht htlag
    refine ⟨by dsimp only; omega, .inr ⟨.broken, rfl, t, by omega, Nat.le_refl _, ?_⟩⟩
    exact hfault.resolve_left (by decide)
  | true =>
    obtain ⟨-, c, ⟨hc, hclag⟩, rfl⟩ := hset
    dsimp only at hc hclag
    simp only [if_true, server.readRequest_eq]
    apply (readFrameWith_returns server.wording server.maxFrame _).mono
    rintro r w' ⟨-, hbound, hread⟩
    dsimp only at hbound
    refine ⟨by omega, hread.of_later rfl (by dsimp only; omega) (by omega) ?_⟩
    intro t
    dsimp only
    omega

/-- Whatever the peer sends and when, the server has done with it soon after its deadline. It has
the request the plain reader would read off what has come, or it says why it has none. -/
theorem requests_end_by_deadline (server : Server) (p : Peer) (lag : ℕ) (w : Moment) :
    Returns (serve p lag)
      (fun r w' => w'.now ≤ w.now + requestDeadline + 4 * lag ∧
        FrameRead server.wording p server.maxFrame (w.now + requestDeadline) (11 * lag) w r w' ∧
        ∀ payload, r = .ok payload → ∀ plain : Source,
          plain.bytes = (p.received w'.now).drop w.taken →
          (readFrame plain server.maxFrame).1 = .ok payload)
      (receive server) w := by
  apply (receive_returns server w).mono
  rintro r w' ⟨hbound, hread⟩
  refine ⟨hbound, hread, ?_⟩
  rintro payload rfl plain hbytes
  exact hread.1.readFrame_eq hbytes

/-- A request that has come whole some way before the deadline is read, whatever the times and
pieces in which it came. -/
theorem timely_requests_are_read (server : Server) (w : Moment) {t : ℕ} {plain : Source}
    {payload : List UInt8} (sound : ∀ s, ¬ p.fails s)
    (come : plain.bytes = (p.received t).drop w.taken)
    (reads : (readFrame plain server.maxFrame).1 = .ok payload)
    (early : max w.now t + 11 * lag < w.now + requestDeadline) :
    Returns (serve p lag)
      (fun r w' => r = .ok payload ∧ w'.now ≤ max w.now t + 11 * lag ∧
        w'.taken = w.taken + (frameBytes payload).length)
      (receive server) w := by
  have hframe := FrameBy.of_readFrame come reads
  apply (receive_returns server w).mono
  rintro r w' ⟨-, hread⟩
  cases r with
  | ok payload' =>
    obtain ⟨hframe', htaken, hsoon⟩ := hread
    obtain rfl := hframe.unique hframe'
    exact ⟨rfl, hsoon t hframe, htaken⟩
  | error e =>
    exfalso
    obtain ⟨header, hlen, hcome, hlarge, -, -⟩ | ⟨cause, -, hcause⟩ := hread
    · have hle := hframe.le_max
      rw [hframe.header_eq hlen hcome] at hlarge
      omega
    · cases cause with
      | deadlineExceeded =>
        have hlate := hcause.2 t payload hframe
        omega
      | closed => exact hcause.2 t payload hframe
      | timedOut =>
        have hlate := hcause.2 t payload hframe
        omega
      | broken =>
        obtain ⟨s, -, -, hfails⟩ := hcause
        exact sound s hfails

/-- One byte at a time. -/
def drip (bytes : List UInt8) : Peer where
  received t := bytes.take t
  closed _ := False
  fails _ := False
  grows h := List.take_prefix_take_left h
  final _ h := h.elim

theorem timely_requests_are_read_drip :
    Returns (serve (drip (frameBytes [7])) 1)
      (fun r w' => r = .ok [7] ∧ w'.now ≤ 16 ∧ w'.taken = 5) (receive .price) ⟨0, 0, none⟩ :=
  timely_requests_are_read .price ⟨0, 0, none⟩ (fun _ h => h)
    (rfl : (⟨[frameBytes [7]], .silent⟩ : Source).bytes =
      ((drip (frameBytes [7])).received 5).drop 0)
    (readFrame_frame (by decide) (by decide) rfl).1 (by decide)

end Servers

end Nuntius.DeadlineReads
