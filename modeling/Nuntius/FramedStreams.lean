import Nuntius.CancellableTasks
import Nuntius.LabelledRuns
import Nuntius.SelfDelimiting
import Nuntius.WireFormat

/-!
# Length-prefixed frames over byte streams that can be cut

A side writes byte strings, flushes, and reads a given number of bytes; what it does besides
is left open. Two sides are joined by a pipe in each direction. A pipe delivers in order and
may be cut after any byte, by the environment or by a write that fails midway. What one side
has read is then a prefix of what the other has offered, whatever the interleaving, and a
stream of frames can be read back frame by frame from any prefix.
-/

namespace Nuntius.FramedStreams
open WireFormat InteractivePrograms CancellableTasks LabelledRuns SelfDelimiting

/-! ### Frames -/

/-- A frame: the length of the payload in four bytes, then the payload. -/
def frameBytes (payload : List UInt8) : List UInt8 := beBytes 4 payload.length ++ payload

/-- The length of the payload can be announced. -/
def Fits (payload : List UInt8) : Prop := payload.length < 2 ^ 32

instance (payload : List UInt8) : Decidable (Fits payload) :=
  inferInstanceAs (Decidable (payload.length < 2 ^ 32))

/-- The bytes of a sequence of frames. -/
def stream (payloads : List (List UInt8)) : List UInt8 := payloads.flatMap frameBytes

@[simp] theorem stream_nil : stream [] = [] := rfl

@[simp] theorem stream_cons (p : List UInt8) (ps : List (List UInt8)) :
    stream (p :: ps) = frameBytes p ++ stream ps := rfl

@[simp] theorem stream_append (ps qs : List (List UInt8)) :
    stream (ps ++ qs) = stream ps ++ stream qs := List.flatMap_append

/-- The header tells how long the first frame of a stream is. -/
theorem delimits_frameBytes : Delimits frameBytes Fits := by
  intro p p' rest rest' hp hp' h
  simp only [frameBytes, List.append_assoc] at h
  obtain ⟨hheader, htail⟩ := List.append_inj h (by simp)
  have hlength : p.length = p'.length := by
    rw [← beNat_beBytes (w := 4) hp, ← beNat_beBytes (w := 4) hp', hheader]
  exact List.append_inj htail hlength

theorem frameBytes_ne_nil (p : List UInt8) : frameBytes p ≠ [] := by
  apply List.ne_nil_of_length_pos
  rw [frameBytes, List.length_append, length_beBytes]
  omega

/-- A stream that is a prefix of another carries a prefix of its frames. -/
theorem stream_cancel {ps qs : List (List UInt8)} (hps : ∀ p ∈ ps, Fits p)
    (hqs : ∀ q ∈ qs, Fits q) (h : stream ps <+: stream qs) : ps <+: qs :=
  delimits_frameBytes.prefix_of_flatMap (fun p _ => frameBytes_ne_nil p) hps hqs h

/-! ### Operations on a stream -/

/-- `put` is `write_all`, `take` is `read_exact`; `other` stands for whatever else a side
asks. -/
inductive StreamQuery (Q : Type) where
  | put (bytes : List UInt8)
  | flush
  | take (n : ℕ)
  | other (q : Q)

abbrev StreamAnswer {Q : Type} (A : Q → Type) : StreamQuery Q → Type
  | .put _ => Bool
  | .flush => Bool
  | .take n => Option (Bytes n)
  | .other q => A q

variable {Q : Type} {A : Q → Type}

def putFrame (payload : List UInt8) : Prog (StreamAnswer A) Bool :=
  if Fits payload then do
    let announced ← Prog.query (StreamQuery.put (beBytes 4 payload.length))
    if announced = true then do
      let sent ← Prog.query (StreamQuery.put payload)
      if sent = true then Prog.query StreamQuery.flush else pure false
    else pure false
  else pure false

/-- What reading a frame comes to. -/
inductive Received where
  | failed
  | tooLong (length : ℕ)
  | payload (bytes : List UInt8)

def takeFrame (limit : ℕ) : Prog (StreamAnswer A) Received := do
  let header ← Prog.query (StreamQuery.take 4)
  match header with
  | none => pure .failed
  | some header =>
    if limit < beNat header.val then pure (.tooLong (beNat header.val))
    else do
      let body ← Prog.query (StreamQuery.take (beNat header.val))
      match body with
      | none => pure .failed
      | some body => pure (.payload body.val)

/-! ### What a side has offered and taken -/

/-- The bytes offered to the stream; a failed write is the last one that can deliver. -/
def offered : Transcript (StreamAnswer A) → List UInt8
  | [] => []
  | ⟨.put bytes, true⟩ :: t => bytes ++ offered t
  | ⟨.put bytes, false⟩ :: _ => bytes
  | ⟨.flush, _⟩ :: t => offered t
  | ⟨.take _, _⟩ :: t => offered t
  | ⟨.other _, _⟩ :: t => offered t

/-- Some write has failed. -/
def stalled : Transcript (StreamAnswer A) → Bool
  | [] => false
  | ⟨.put _, true⟩ :: t => stalled t
  | ⟨.put _, false⟩ :: _ => true
  | ⟨.flush, _⟩ :: t => stalled t
  | ⟨.take _, _⟩ :: t => stalled t
  | ⟨.other _, _⟩ :: t => stalled t

/-- The bytes read. -/
def taken : Transcript (StreamAnswer A) → List UInt8
  | [] => []
  | ⟨.put _, _⟩ :: t => taken t
  | ⟨.flush, _⟩ :: t => taken t
  | ⟨.take _, some bytes⟩ :: t => bytes.val ++ taken t
  | ⟨.take _, none⟩ :: t => taken t
  | ⟨.other _, _⟩ :: t => taken t

theorem offered_append {t : Transcript (StreamAnswer A)} (h : stalled t = false)
    (u : Transcript (StreamAnswer A)) : offered (t ++ u) = offered t ++ offered u := by
  induction t using offered.induct with
  | case1 => rfl
  | case2 bytes t ih => simpa [offered] using ih h
  | case3 bytes t => cases h
  | case4 ok t ih => exact ih h
  | case5 n got t ih => exact ih h
  | case6 q a t ih => exact ih h

theorem offered_append_of_stalled {t : Transcript (StreamAnswer A)} (h : stalled t = true)
    (u : Transcript (StreamAnswer A)) : offered (t ++ u) = offered t := by
  induction t using offered.induct with
  | case1 => cases h
  | case2 bytes t ih => simpa [offered] using ih h
  | case3 bytes t => rfl
  | case4 ok t ih => exact ih h
  | case5 n got t ih => exact ih h
  | case6 q a t ih => exact ih h

theorem stalled_append (t u : Transcript (StreamAnswer A)) :
    stalled (t ++ u) = (stalled t || stalled u) := by
  induction t using offered.induct with
  | case1 => simp [stalled]
  | case2 bytes t ih => simp [stalled, ih]
  | case3 bytes t => simp [stalled]
  | case4 ok t ih => simp [stalled, ih]
  | case5 n got t ih => simp [stalled, ih]
  | case6 q a t ih => simp [stalled, ih]

theorem taken_append (t u : Transcript (StreamAnswer A)) :
    taken (t ++ u) = taken t ++ taken u := by
  induction t using taken.induct with
  | case1 => rfl
  | case2 bytes ok t ih => simp [taken, ih]
  | case3 ok t ih => simp [taken, ih]
  | case4 n bytes t ih => simp [taken, ih]
  | case5 n t ih => simp [taken, ih]
  | case6 q a t ih => simp [taken, ih]

/-- A side that writes nothing offers nothing. -/
theorem offered_of_reads {t : Transcript (StreamAnswer A)}
    (h : ∀ e ∈ t, ∀ bytes, e.1 ≠ .put bytes) :
    offered t = [] ∧ stalled t = false := by
  induction t using offered.induct with
  | case1 => exact ⟨rfl, rfl⟩
  | case2 bytes t ih => exact absurd rfl (h _ List.mem_cons_self bytes)
  | case3 bytes t => exact absurd rfl (h _ List.mem_cons_self bytes)
  | case4 ok t ih => exact ih fun e he => h e (List.mem_cons_of_mem _ he)
  | case5 n got t ih => exact ih fun e he => h e (List.mem_cons_of_mem _ he)
  | case6 q a t ih => exact ih fun e he => h e (List.mem_cons_of_mem _ he)

theorem taken_of_writes {t : Transcript (StreamAnswer A)} (h : ∀ e ∈ t, ∀ n, e.1 ≠ .take n) :
    taken t = [] := by
  induction t using taken.induct with
  | case1 => rfl
  | case2 bytes ok t ih => exact ih fun e he => h e (List.mem_cons_of_mem _ he)
  | case3 ok t ih => exact ih fun e he => h e (List.mem_cons_of_mem _ he)
  | case4 n bytes t ih => exact absurd rfl (h _ List.mem_cons_self n)
  | case5 n t ih => exact absurd rfl (h _ List.mem_cons_self n)
  | case6 q a t ih => exact ih fun e he => h e (List.mem_cons_of_mem _ he)

/-! ### Frames on a stream -/

/-- The frames that writing a payload can put on the stream. -/
def framed (payload : List UInt8) : List (List UInt8) := if Fits payload then [payload] else []

theorem fits_of_mem_framed {payload p : List UInt8} (h : p ∈ framed payload) : Fits p := by
  unfold framed at h
  split at h
  · rename_i hfits
    rwa [List.mem_singleton.mp h]
  · cases h

/-- At every moment of writing a frame a prefix of it has been offered, and all of it once the
program has returned without a failed write. -/
theorem putFrame_offered {payload : List UInt8} {u : Transcript (StreamAnswer A)}
    {x : Prog (StreamAnswer A) Bool} (h : After (putFrame payload) u x) :
    offered u <+: stream (framed payload) ∧
      ∀ r, x = .ret r → stalled u = false → offered u = stream (framed payload) := by
  unfold putFrame at h
  unfold framed
  split at h
  · rename_i hfits
    rw [if_pos hfits, stream_cons, stream_nil, List.append_nil, frameBytes]
    obtain ⟨rfl, rfl⟩ | ⟨announced, u₁, rfl, rest₁⟩ := after_ask h
    · exact ⟨List.nil_prefix, by rintro r ⟨⟩⟩
    cases announced with
    | false =>
      obtain ⟨rfl, rfl⟩ := after_ret rest₁
      exact ⟨List.prefix_append _ _, by rintro r - ⟨⟩⟩
    | true =>
      obtain ⟨rfl, rfl⟩ | ⟨sent, u₂, rfl, rest₂⟩ := after_ask rest₁
      · exact ⟨by simp [offered], by rintro r ⟨⟩⟩
      cases sent with
      | false =>
        obtain ⟨rfl, rfl⟩ := after_ret rest₂
        exact ⟨by simp [offered], by rintro r - ⟨⟩⟩
      | true =>
        obtain ⟨rfl, rfl⟩ | ⟨ok, u₃, rfl, rest₃⟩ := after_ask rest₂
        · exact ⟨by simp [offered], by rintro r ⟨⟩⟩
        obtain ⟨rfl, rfl⟩ := after_ret rest₃
        exact ⟨by simp [offered], fun _ _ _ => by simp [offered]⟩
  · rename_i hlong
    obtain ⟨rfl, rfl⟩ := after_ret h
    rw [if_neg hlong]
    exact ⟨List.nil_prefix, fun _ _ _ => rfl⟩

theorem putFrame_only (payload : List UInt8) :
    Prog.Only (fun q => ∀ n, q ≠ .take n) (putFrame payload : Prog (StreamAnswer A) Bool) := by
  unfold putFrame
  split
  · refine ⟨nofun, fun announced => ?_⟩
    cases announced with
    | false => trivial
    | true =>
      refine ⟨nofun, fun sent => ?_⟩
      cases sent with
      | false => trivial
      | true => exact ⟨nofun, fun _ => trivial⟩
  · trivial

theorem takeFrame_only (limit : ℕ) :
    Prog.Only (fun q => ∀ bytes, q ≠ .put bytes)
      (takeFrame limit : Prog (StreamAnswer A) Received) := by
  refine ⟨nofun, fun header => ?_⟩
  cases header with
  | none => trivial
  | some header =>
    change Prog.Only _ (if limit < beNat header.val then _ else _)
    split
    · trivial
    · refine ⟨nofun, fun body => ?_⟩
      cases body <;> trivial

/-- The ways in which reading a frame ends: a read fails, the length is beyond the limit, or the
announced bytes are there. -/
theorem takeFrame_cases {limit : ℕ} {u : Transcript (StreamAnswer A)} {r : Received}
    (h : Prog.Runs (takeFrame limit) u r) :
    r = .failed ∨ (∃ n, limit < n ∧ r = .tooLong n) ∨
      ∃ (header : Bytes 4) (body : Bytes (beNat header.val)), beNat header.val ≤ limit ∧
        u = [⟨.take 4, some header⟩, ⟨.take (beNat header.val), some body⟩] ∧
        r = .payload body.val := by
  obtain ⟨header, u₁, rfl, rest₁⟩ := Prog.runs_ask.mp h
  cases header with
  | none => exact .inl (Prog.runs_ret.mp rest₁).2
  | some header =>
    change Prog.Runs (if limit < beNat header.val then _ else _) u₁ _ at rest₁
    split at rest₁
    · rename_i hlong
      exact .inr (.inl ⟨_, hlong, (Prog.runs_ret.mp rest₁).2⟩)
    · rename_i hlimit
      obtain ⟨body, u₂, rfl, rest₂⟩ := Prog.runs_ask.mp rest₁
      cases body with
      | none => exact .inl (Prog.runs_ret.mp rest₂).2
      | some body =>
        obtain ⟨rfl, hr⟩ := Prog.runs_ret.mp rest₂
        exact .inr (.inr ⟨header, body, Nat.le_of_not_lt hlimit, rfl, hr⟩)

/-- A frame that was read is what was taken from the stream. -/
theorem takeFrame_taken {limit : ℕ} {u : Transcript (StreamAnswer A)} {p : List UInt8}
    (h : Prog.Runs (takeFrame limit) u (.payload p)) :
    taken u = frameBytes p ∧ p.length ≤ limit := by
  rcases takeFrame_cases h with hr | ⟨n, -, hr⟩ | ⟨header, body, hlimit, rfl, hr⟩
  · cases hr
  · cases hr
  · obtain rfl := Received.payload.inj hr
    have hheader : beBytes 4 body.val.length = header.val := by
      have hvalue := beBytes_beNat header.val
      rwa [header.property, ← body.property] at hvalue
    refine ⟨by simp [taken, frameBytes, hheader], ?_⟩
    rw [body.property]
    exact hlimit

theorem takeFrame_tooLong {limit n : ℕ} {u : Transcript (StreamAnswer A)}
    (h : Prog.Runs (takeFrame limit) u (.tooLong n)) : limit < n := by
  rcases takeFrame_cases h with hr | ⟨m, hlong, hr⟩ | ⟨header, body, -, -, hr⟩
  · cases hr
  · obtain rfl := Received.tooLong.inj hr
    exact hlong
  · cases hr

/-! ### Programs whose queries are served over a stream -/

section Served
variable {Q' : Type} {B : Q' → Type} {R : Type}
  (serve : (q : Q') → Prog (StreamAnswer A) (B q)) (sends : Q' → List (List UInt8))

/-- Serving a query offers the frames it sends: a prefix at every moment, and all of them at
the end unless a write has failed. -/
def Carries : Prop :=
  ∀ q u x, After (serve q) u x → offered u <+: stream (sends q) ∧
    ∀ r, x = .ret r → stalled u = false → offered u = stream (sends q)

/-- The frames of the queries that were served. -/
def sent (t : Transcript B) : List (List UInt8) := t.flatMap (fun e => sends e.1)

/-- The frames of the query being served. -/
def pending : Prog B R → List (List UInt8)
  | .ret _ => []
  | .ask q _ => sends q

variable {serve sends}

/-- A program interrupted anywhere has offered a prefix of the frames it has sent so far. -/
theorem Carries.interp (hserve : Carries serve sends) {p : Prog B R}
    {u : Transcript (StreamAnswer A)} {x : Prog (StreamAnswer A) R}
    (h : After (Prog.interp serve p) u x) :
    ∃ t u₁ u₂ p', u = u₁ ++ u₂ ∧ Prog.Realizes serve t u₁ ∧ After p t p' ∧
      offered u <+: stream (sent sends t ++ pending sends p') ∧ ∀ r, x = .ret r → p' = .ret r := by
  induction p generalizing u with
  | ret r =>
    obtain ⟨rfl, rfl⟩ := after_ret h
    refine ⟨[], [], [], .ret r, rfl, .nil, .now _, List.nil_prefix, ?_⟩
    intro r' hr
    cases hr
    rfl
  | ask q k ih =>
    obtain ⟨q', k', hpart, rfl⟩ | ⟨v, w, a, rfl, hrun, hrest⟩ := after_bind h
    · refine ⟨[], [], u, .ask q k, rfl, .nil, .now _, ?_, by rintro r ⟨⟩⟩
      exact (hserve q u _ hpart).1
    · obtain ⟨t, w₁, w₂, p', rfl, hreal, hafter, hprefix, hend⟩ := ih a hrest
      have hdone : After (serve q) v (.ret a) := After.of_runs hrun
      obtain ⟨hpart, hwhole⟩ := hserve q v _ hdone
      refine ⟨⟨q, a⟩ :: t, v ++ w₁, w₂, p', (List.append_assoc v w₁ w₂).symm,
        .cons hrun hreal, .later a hafter, ?_, hend⟩
      have hframes : sent sends (⟨q, a⟩ :: t) ++ pending sends p' =
          sends q ++ (sent sends t ++ pending sends p') := by simp [sent]
      rw [hframes, stream_append]
      cases hstalled : stalled v with
      | false =>
        rw [offered_append hstalled, hwhole a rfl hstalled]
        exact (List.prefix_append_right_inj _).mpr hprefix
      | true =>
        rw [offered_append_of_stalled hstalled]
        exact hpart.trans (List.prefix_append _ _)

end Served

/-! ### Two sides and the pipes between them -/

/-- The bytes under way, and whether anything further will get through. -/
structure Pipe where
  inFlight : List UInt8
  cut : Bool

def Pipe.fresh : Pipe := ⟨[], false⟩

/-- One operation of a side with its outgoing and incoming pipe. A failed write has delivered
some prefix and cuts the pipe; on a cut pipe writes vanish, whatever they report. A failed
read loses what was under way. -/
inductive Operates : (q : StreamQuery Q) → StreamAnswer A q → Pipe → Pipe → Pipe → Pipe → Prop where
  | put {bytes out inc} (live : out.cut = false) :
      Operates (.put bytes) true out inc ⟨out.inFlight ++ bytes, false⟩ inc
  | putFailed {bytes out inc} (through : List UInt8) (live : out.cut = false)
      (some : through <+: bytes) :
      Operates (.put bytes) false out inc ⟨out.inFlight ++ through, true⟩ inc
  | putLost {bytes out inc} (ok : Bool) (dead : out.cut = true) :
      Operates (.put bytes) ok out inc out inc
  | flush {out inc} (ok : Bool) : Operates .flush ok out inc out inc
  | take {n out inc rest} (bytes : Bytes n) (there : inc.inFlight = bytes.val ++ rest) :
      Operates (.take n) (some bytes) out inc out ⟨rest, inc.cut⟩
  | takeFailed {n out inc} : Operates (.take n) none out inc out ⟨[], true⟩
  | other {q out inc} (a : A q) : Operates (.other q) a out inc out inc

structure Duplex (A : Q → Type) (L R : Type) where
  left : Prog (StreamAnswer A) L
  right : Prog (StreamAnswer A) R
  rightward : Pipe
  leftward : Pipe

/-- Who did what. -/
inductive Label (A : Q → Type) where
  | left (e : (q : StreamQuery Q) × StreamAnswer A q)
  | right (e : (q : StreamQuery Q) × StreamAnswer A q)
  | cut

variable {L R : Type}

/-- Either side takes its next operation, or the environment cuts a pipe after some of the
bytes under way. -/
inductive Step : Duplex A L R → Label A → Duplex A L R → Prop where
  | left {q k a right rightward leftward rightward' leftward'}
      (op : Operates q a rightward leftward rightward' leftward') :
      Step ⟨.ask q k, right, rightward, leftward⟩ (.left ⟨q, a⟩)
        ⟨k a, right, rightward', leftward'⟩
  | right {q k a left rightward leftward rightward' leftward'}
      (op : Operates q a leftward rightward leftward' rightward') :
      Step ⟨left, .ask q k, rightward, leftward⟩ (.right ⟨q, a⟩)
        ⟨left, k a, rightward', leftward'⟩
  | cutRightward {s : Duplex A L R} (kept : List UInt8) (some : kept <+: s.rightward.inFlight) :
      Step s .cut { s with rightward := ⟨kept, true⟩ }
  | cutLeftward {s : Duplex A L R} (kept : List UInt8) (some : kept <+: s.leftward.inFlight) :
      Step s .cut { s with leftward := ⟨kept, true⟩ }

/-- The two sides before anything was sent. -/
def Duplex.start (left : Prog (StreamAnswer A) L) (right : Prog (StreamAnswer A) R) :
    Duplex A L R := ⟨left, right, .fresh, .fresh⟩

/-- What one side has done, oldest first. -/
def leftTranscript : List (Label A) → Transcript (StreamAnswer A)
  | [] => []
  | .left e :: older => leftTranscript older ++ [e]
  | _ :: older => leftTranscript older

def rightTranscript : List (Label A) → Transcript (StreamAnswer A)
  | [] => []
  | .right e :: older => rightTranscript older ++ [e]
  | _ :: older => rightTranscript older

/-- A pipe between a writer and a reader. -/
structure Linked (pipe : Pipe) (writer reader : Transcript (StreamAnswer A)) : Prop where
  delivered : taken reader ++ pipe.inFlight <+: offered writer
  whole : pipe.cut = false →
    stalled writer = false ∧ taken reader ++ pipe.inFlight = offered writer

variable {writer reader : Transcript (StreamAnswer A)} {pipe : Pipe}

theorem linked_fresh : Linked Pipe.fresh ([] : Transcript (StreamAnswer A)) [] :=
  ⟨List.nil_prefix, fun _ => ⟨rfl, rfl⟩⟩

theorem offered_mono (t u : Transcript (StreamAnswer A)) : offered t <+: offered (t ++ u) := by
  cases h : stalled t with
  | false =>
    rw [offered_append h]
    exact List.prefix_append _ _
  | true =>
    refine ⟨[], ?_⟩
    rw [List.append_nil, offered_append_of_stalled h]

/-- A cut keeps a link. -/
theorem Linked.of_cut (h : Linked pipe writer reader) {kept : List UInt8}
    (some : kept <+: pipe.inFlight) : Linked ⟨kept, true⟩ writer reader where
  delivered := ((List.prefix_append_right_inj _).mpr some).trans h.delivered
  whole := nofun

/-- The writer's operations keep a link. -/
theorem Linked.write (h : Linked pipe writer reader) {q : StreamQuery Q} {a : StreamAnswer A q}
    {inc pipe' inc' : Pipe} (op : Operates q a pipe inc pipe' inc') :
    Linked pipe' (writer ++ [⟨q, a⟩]) reader := by
  have hsame : ∀ {e : (q : StreamQuery Q) × StreamAnswer A q}, offered [e] = [] →
      stalled [e] = false → Linked pipe (writer ++ [e]) reader := by
    intro e hoffered hstalled
    refine ⟨h.delivered.trans (offered_mono _ _), fun hcut => ?_⟩
    obtain ⟨hlive, hwhole⟩ := h.whole hcut
    rw [stalled_append, hlive, hstalled, offered_append hlive, hoffered, List.append_nil]
    exact ⟨rfl, hwhole⟩
  cases op with
  | @put bytes _ _ live =>
    obtain ⟨hlive, hwhole⟩ := h.whole live
    have hall : taken reader ++ (pipe.inFlight ++ bytes) =
        offered (writer ++ [⟨.put bytes, true⟩]) := by
      rw [offered_append hlive, ← List.append_assoc, hwhole]
      simp [offered]
    refine ⟨hall ▸ List.prefix_rfl, fun _ => ⟨?_, hall⟩⟩
    rw [stalled_append, hlive]
    rfl
  | @putFailed bytes _ _ through live some =>
    obtain ⟨hlive, hwhole⟩ := h.whole live
    refine ⟨?_, nofun⟩
    rw [offered_append hlive, ← List.append_assoc, hwhole]
    exact (List.prefix_append_right_inj _).mpr (by simpa [offered] using some)
  | putLost ok dead =>
    refine ⟨h.delivered.trans (offered_mono _ _), fun hcut => ?_⟩
    rw [dead] at hcut
    cases hcut
  | flush ok => exact hsame rfl rfl
  | take bytes there => exact hsame rfl rfl
  | takeFailed => exact hsame rfl rfl
  | other a => exact hsame rfl rfl

/-- The reader's operations keep a link. -/
theorem Linked.read (h : Linked pipe writer reader) {q : StreamQuery Q} {a : StreamAnswer A q}
    {out pipe' out' : Pipe} (op : Operates q a out pipe out' pipe') :
    Linked pipe' writer (reader ++ [⟨q, a⟩]) := by
  have hsame : ∀ {e : (q : StreamQuery Q) × StreamAnswer A q}, taken [e] = [] →
      Linked pipe writer (reader ++ [e]) := by
    intro e htaken
    have heq : taken (reader ++ [e]) = taken reader := by
      rw [taken_append, htaken, List.append_nil]
    exact ⟨by rw [heq]; exact h.delivered, fun hcut => by rw [heq]; exact h.whole hcut⟩
  cases op with
  | put live => exact hsame rfl
  | putFailed through live some => exact hsame rfl
  | putLost ok dead => exact hsame rfl
  | flush ok => exact hsame rfl
  | @take n _ _ rest bytes there =>
    have heq : taken (reader ++ [⟨.take n, some bytes⟩]) ++ rest =
        taken reader ++ pipe.inFlight := by
      rw [taken_append, there]
      simp [taken]
    exact ⟨by rw [heq]; exact h.delivered, fun hcut => by rw [heq]; exact h.whole hcut⟩
  | takeFailed =>
    refine ⟨?_, nofun⟩
    rw [taken_append, List.append_nil]
    simpa [taken] using (List.prefix_append _ _).trans h.delivered
  | other a => exact hsame rfl

/-- Whatever the interleaving and the cuts, each side has run its own program, and has read a
prefix of what the other has offered. -/
structure Joined (left : Prog (StreamAnswer A) L) (right : Prog (StreamAnswer A) R)
    (labels : List (Label A)) (s : Duplex A L R) : Prop where
  left : After left (leftTranscript labels) s.left
  right : After right (rightTranscript labels) s.right
  rightward : Linked s.rightward (leftTranscript labels) (rightTranscript labels)
  leftward : Linked s.leftward (rightTranscript labels) (leftTranscript labels)

theorem Joined.step {left : Prog (StreamAnswer A) L} {right : Prog (StreamAnswer A) R}
    {labels : List (Label A)} {s s' : Duplex A L R} {l : Label A}
    (h : Joined left right labels s) (now : Step s l s') :
    Joined left right (l :: labels) s' := by
  cases now with
  | left op =>
    exact ⟨h.left.trans (.later _ (.now _)), h.right, h.rightward.write op, h.leftward.read op⟩
  | right op =>
    exact ⟨h.left, h.right.trans (.later _ (.now _)), h.rightward.read op, h.leftward.write op⟩
  | cutRightward kept some => exact ⟨h.left, h.right, h.rightward.of_cut some, h.leftward⟩
  | cutLeftward kept some => exact ⟨h.left, h.right, h.rightward, h.leftward.of_cut some⟩

theorem joined_of_run {left : Prog (StreamAnswer A) L} {right : Prog (StreamAnswer A) R}
    {labels : List (Label A)} {s : Duplex A L R} (run : Run (.start left right) Step labels s) :
    Joined left right labels s := by
  apply run.invariant (Joined left right)
  · exact ⟨.now left, .now right, linked_fresh, linked_fresh⟩
  · intro older s l s' _ h now
    exact h.step now

/-! ### Schedules without loss -/

/-- The side's next operation when nothing is lost: writes go through, reads wait until
enough bytes are there. -/
def operate (answer : (q : Q) → A q) (q : StreamQuery Q) (out inc : Pipe) :
    Option (StreamAnswer A q × Pipe × Pipe) :=
  match q with
  | .put bytes => if out.cut then none else some (true, ⟨out.inFlight ++ bytes, false⟩, inc)
  | .flush => some (true, out, inc)
  | .take n => (toFixed n (inc.inFlight.take n)).map fun bytes =>
      (some bytes, out, ⟨inc.inFlight.drop n, inc.cut⟩)
  | .other q => some (answer q, out, inc)

theorem operates_of_operate {answer : (q : Q) → A q} {q : StreamQuery Q} {out inc : Pipe}
    {a : StreamAnswer A q} {out' inc' : Pipe}
    (h : operate answer q out inc = some (a, out', inc')) :
    Operates q a out inc out' inc' := by
  cases q with
  | put bytes =>
    rw [operate] at h
    split at h
    · cases h
    · rename_i hlive
      cases h
      exact .put (Bool.eq_false_iff.mpr hlive)
  | flush =>
    cases h
    exact .flush true
  | take n =>
    obtain ⟨bytes, hbytes, heq⟩ := Option.map_eq_some_iff.mp h
    cases heq
    refine .take bytes ?_
    rw [toFixed_eq_some.mp hbytes, List.take_append_drop]
  | other q =>
    cases h
    exact .other _

/-- One turn of the side named, if it can move. -/
def turn (answer : (q : Q) → A q) (goLeft : Bool) (s : Duplex A L R) :
    Option (Label A × Duplex A L R) :=
  if goLeft then
    match s.left with
    | .ret _ => none
    | .ask q k => (operate answer q s.rightward s.leftward).map fun r =>
        (.left ⟨q, r.1⟩, ⟨k r.1, s.right, r.2.1, r.2.2⟩)
  else
    match s.right with
    | .ret _ => none
    | .ask q k => (operate answer q s.leftward s.rightward).map fun r =>
        (.right ⟨q, r.1⟩, ⟨s.left, k r.1, r.2.2, r.2.1⟩)

theorem step_of_turn {answer : (q : Q) → A q} {goLeft : Bool} {s s' : Duplex A L R} {l : Label A}
    (h : turn answer goLeft s = some (l, s')) : Step s l s' := by
  obtain ⟨left, right, rightward, leftward⟩ := s
  cases goLeft with
  | true =>
    cases left with
    | ret r => cases h
    | ask q k =>
      obtain ⟨⟨a, out, inc⟩, hop, heq⟩ := Option.map_eq_some_iff.mp h
      cases heq
      exact .left (operates_of_operate hop)
  | false =>
    cases right with
    | ret r => cases h
    | ask q k =>
      obtain ⟨⟨a, out, inc⟩, hop, heq⟩ := Option.map_eq_some_iff.mp h
      cases heq
      exact .right (operates_of_operate hop)

/-- Let the sides move in a given order; a turn that cannot be taken is passed over. -/
def schedule (answer : (q : Q) → A q) : List Bool → List (Label A) × Duplex A L R →
    List (Label A) × Duplex A L R
  | [], run => run
  | goLeft :: rest, (labels, s) =>
    match turn answer goLeft s with
    | none => schedule answer rest (labels, s)
    | some (l, s') => schedule answer rest (l :: labels, s')

theorem run_schedule {answer : (q : Q) → A q} {init : Duplex A L R} (order : List Bool)
    {run : List (Label A) × Duplex A L R} (h : Run init Step run.1 run.2) :
    Run init Step (schedule answer order run).1 (schedule answer order run).2 := by
  induction order generalizing run with
  | nil => exact h
  | cons goLeft rest ih =>
    obtain ⟨labels, s⟩ := run
    rw [schedule]
    split
    · exact ih h
    · rename_i l s' hturn
      exact ih (.step h (step_of_turn hturn))

/-- The result of a side that has returned. -/
def result {T : Type} : Prog (StreamAnswer A) T → Option T
  | .ret r => some r
  | .ask _ _ => none

theorem result_eq_some {T : Type} {p : Prog (StreamAnswer A) T} {r : T} (h : result p = some r) :
    p = .ret r := by
  cases p with
  | ret r' =>
    cases h
    rfl
  | ask q k => cases h

theorem Joined.read_of_left {left : Prog (StreamAnswer A) L} {right : Prog (StreamAnswer A) R}
    {labels : List (Label A)} {s : Duplex A L R} (h : Joined left right labels s) :
    taken (rightTranscript labels) <+: offered (leftTranscript labels) :=
  (List.prefix_append _ _).trans h.rightward.delivered

end Nuntius.FramedStreams
