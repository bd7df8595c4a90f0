import Nuntius.ByteSources
import Nuntius.FramedStreams

/-!
# The frames of the enclave's VSOCK interface

`write_frame` and `read_frame` over a stream that may be delivered in any pieces and cut after any
byte. The reader takes a frame exactly when the stream begins with one, so from the beginning of
a written stream it recovers the beginning of the list of payloads, and then stops.
-/

namespace Nuntius.VsockFrames
open WireFormat ByteSources FramedStreams

/-- The stream failed under the call, or the call reports an error of its own. -/
inductive FrameError where
  | read (ending : Ending)
  | write
  | report (text : String)
deriving DecidableEq, Repr

def frameTooLarge (len maxFrame : ℕ) : String := s!"frame too large: {len} bytes (max {maxFrame})"

/-- The length is announced as a `u32`: `beBytes 4` keeps its low four bytes. -/
def writeFrame (w : Sink) (payload : List UInt8) (maxFrame : ℕ) : Except FrameError Unit × Sink :=
  if maxFrame < payload.length then
    (.error (.report (frameTooLarge payload.length maxFrame)), w)
  else
    match w.writeAll (beBytes 4 payload.length) with
    | (false, w) => (.error .write, w)
    | (true, w) =>
      match w.writeAll payload with
      | (false, w) => (.error .write, w)
      | (true, w) => (if w.flushes then .ok () else .error .write, w)

def readFrame (r : Source) (maxFrame : ℕ) : Except FrameError (List UInt8) × Source :=
  match r.readExact 4 with
  | (.error e, r) => (.error (.read e), r)
  | (.ok lenBuf, r) =>
    if maxFrame < beNat lenBuf then
      (.error (.report (frameTooLarge (beNat lenBuf) maxFrame)), r)
    else
      match r.readExact (beNat lenBuf) with
      | (.error e, r) => (.error (.read e), r)
      | (.ok buf, r) => (.ok buf, r)

/-! ### Reading one frame -/

section Reading
variable {r : Source} {maxFrame : ℕ}

theorem readFrame_of_short (h : r.bytes.length < 4) :
    (readFrame r maxFrame).1 = .error (.read r.ending) := by
  rw [readFrame, Source.readExact_of_lt h]

section Header
variable {header body : List UInt8} (hheader : header.length = 4) (h : r.bytes = header ++ body)
include hheader h

theorem readExact_header : r.readExact 4 = (.ok header, (r.readExact 4).2) := by
  have hlen : 4 ≤ r.bytes.length := by
    rw [h, List.length_append, hheader]
    omega
  have htake : r.bytes.take 4 = header := by
    rw [h, ← hheader, List.take_left]
  rw [← htake]
  exact Source.readExact_of_le hlen

theorem readExact_header_bytes : (r.readExact 4).2.bytes = body := by
  rw [Source.readExact_bytes, h, ← hheader, List.drop_left]

theorem readFrame_of_large (hlarge : maxFrame < beNat header) :
    (readFrame r maxFrame).1 = .error (.report (frameTooLarge (beNat header) maxFrame)) := by
  rw [readFrame, readExact_header hheader h]
  dsimp only
  rw [if_pos hlarge]

theorem readFrame_of_cut (hmax : beNat header ≤ maxFrame) (hcut : body.length < beNat header) :
    (readFrame r maxFrame).1 = .error (.read r.ending) := by
  have hbody := readExact_header_bytes hheader h
  rw [readFrame, readExact_header hheader h]
  dsimp only
  rw [if_neg (Nat.not_lt.mpr hmax), Source.readExact_of_lt (by rw [hbody]; exact hcut),
    Source.readExact_ending]

theorem readFrame_of_whole (hmax : beNat header ≤ maxFrame) (hwhole : beNat header ≤ body.length) :
    (readFrame r maxFrame).1 = .ok (body.take (beNat header)) ∧
      (readFrame r maxFrame).2.bytes = body.drop (beNat header) ∧
      (readFrame r maxFrame).2.ending = r.ending := by
  have hbody := readExact_header_bytes hheader h
  rw [readFrame, readExact_header hheader h]
  dsimp only
  rw [if_neg (Nat.not_lt.mpr hmax), Source.readExact_of_le (by rw [hbody]; exact hwhole)]
  dsimp only
  rw [hbody, Source.readExact_bytes (beNat header), hbody, Source.readExact_ending,
    Source.readExact_ending]
  exact ⟨rfl, rfl, rfl⟩

end Header

/-- A frame at the head of the stream is read, and nothing behind it. -/
theorem readFrame_frame {payload rest : List UInt8} (hfits : Fits payload)
    (hmax : payload.length ≤ maxFrame) (h : r.bytes = frameBytes payload ++ rest) :
    (readFrame r maxFrame).1 = .ok payload ∧ (readFrame r maxFrame).2.bytes = rest ∧
      (readFrame r maxFrame).2.ending = r.ending := by
  have hannounced : beNat (beBytes 4 payload.length) = payload.length := beNat_beBytes hfits
  rw [frameBytes, List.append_assoc] at h
  have hread := @readFrame_of_whole r maxFrame _ _ (length_beBytes 4 _) h
  rw [hannounced, List.take_left, List.drop_left, List.length_append] at hread
  exact hread hmax (Nat.le_add_right _ _)

/-- Only a frame at the head of the stream is read. -/
theorem readFrame_ok {payload : List UInt8} (h : (readFrame r maxFrame).1 = .ok payload) :
    payload.length ≤ maxFrame ∧ Fits payload ∧
      r.bytes = frameBytes payload ++ (readFrame r maxFrame).2.bytes := by
  by_cases hshort : r.bytes.length < 4
  · rw [readFrame_of_short hshort] at h
    cases h
  have hheader : (r.bytes.take 4).length = 4 := List.length_take_of_le (Nat.not_lt.mp hshort)
  have hsplit : r.bytes = r.bytes.take 4 ++ r.bytes.drop 4 := (List.take_append_drop 4 _).symm
  generalize r.bytes.take 4 = header at hheader hsplit
  generalize r.bytes.drop 4 = body at hsplit
  rcases Nat.lt_or_ge maxFrame (beNat header) with hlarge | hmax
  · rw [readFrame_of_large hheader hsplit hlarge] at h
    cases h
  rcases Nat.lt_or_ge body.length (beNat header) with hcut | hwhole
  · rw [readFrame_of_cut hheader hsplit hmax hcut] at h
    cases h
  obtain ⟨hread, hrest, -⟩ := readFrame_of_whole hheader hsplit hmax hwhole
  obtain rfl := Except.ok.inj (hread.symm.trans h)
  have hlen : (body.take (beNat header)).length = beNat header := List.length_take_of_le hwhole
  have hbytes : beBytes 4 (beNat header) = header := hheader ▸ beBytes_beNat header
  refine ⟨Nat.le_trans (Nat.le_of_eq hlen) hmax, ?_, ?_⟩
  · have hlt := beNat_lt header
    rw [hheader] at hlt
    exact Nat.lt_of_le_of_lt (Nat.le_of_eq hlen) hlt
  · rw [hrest, frameBytes, hlen, hbytes, List.append_assoc, List.take_append_drop]
    exact hsplit

/-- A frame takes at least its header. -/
theorem readFrame_shrinks {payload : List UInt8} (h : (readFrame r maxFrame).1 = .ok payload) :
    (readFrame r maxFrame).2.bytes.length < r.bytes.length := by
  have hbytes := congrArg List.length (readFrame_ok h).2.2
  rw [List.length_append, frameBytes, List.length_append, length_beBytes] at hbytes
  omega

end Reading

/-! ### Streams of frames -/

/-- Write one frame after the other, up to the first failure. -/
def writeFrames (maxFrame : ℕ) : List (List UInt8) → Sink → Except FrameError Unit × Sink
  | [], w => (.ok (), w)
  | payload :: payloads, w =>
    match writeFrame w payload maxFrame with
    | (.error e, w) => (.error e, w)
    | (.ok (), w) => writeFrames maxFrame payloads w

/-- Read one frame after the other, up to the first failure, which is returned as well. -/
def readFrames (maxFrame : ℕ) (r : Source) : List (List UInt8) × FrameError :=
  match _h : (readFrame r maxFrame).1 with
  | .error e => ([], e)
  | .ok payload =>
    (payload :: (readFrames maxFrame (readFrame r maxFrame).2).1,
      (readFrames maxFrame (readFrame r maxFrame).2).2)
termination_by r.bytes.length
decreasing_by all_goals exact readFrame_shrinks _h

section Streams
variable {maxFrame : ℕ}

theorem readFrames_of_error {r : Source} {e : FrameError}
    (h : (readFrame r maxFrame).1 = .error e) : readFrames maxFrame r = ([], e) := by
  rw [readFrames]
  split
  · rename_i e' he
    rw [Except.error.inj (he.symm.trans h)]
  · rename_i payload hpayload
    cases hpayload.symm.trans h

theorem readFrames_of_ok {r : Source} {payload : List UInt8}
    (h : (readFrame r maxFrame).1 = .ok payload) :
    readFrames maxFrame r = (payload :: (readFrames maxFrame (readFrame r maxFrame).2).1,
      (readFrames maxFrame (readFrame r maxFrame).2).2) := by
  rw [readFrames]
  split
  · rename_i e he
    cases he.symm.trans h
  · rename_i payload' hpayload
    obtain rfl := Except.ok.inj (hpayload.symm.trans h)
    rfl

/-- A stream that ends inside its first frame fails at the end: in the header or in the body. -/
theorem readFrame_of_strict {r : Source} {payload : List UInt8} (hfits : Fits payload)
    (hmax : payload.length ≤ maxFrame) (h : r.bytes <+: frameBytes payload)
    (hne : r.bytes ≠ frameBytes payload) :
    (readFrame r maxFrame).1 = .error (.read r.ending) := by
  by_cases hshort : r.bytes.length < 4
  · exact readFrame_of_short hshort
  have hannounced : beNat (beBytes 4 payload.length) = payload.length := beNat_beBytes hfits
  obtain ⟨cut, hcut⟩ := h
  have hheader : beBytes 4 payload.length <+: r.bytes := by
    apply List.prefix_of_prefix_length_le (List.prefix_append _ payload) (⟨cut, hcut⟩)
    rw [length_beBytes]
    exact Nat.not_lt.mp hshort
  obtain ⟨body, hbody⟩ := hheader
  have hpayload : body ++ cut = payload := by
    rw [← hbody, frameBytes, List.append_assoc] at hcut
    exact List.append_cancel_left hcut
  apply readFrame_of_cut (length_beBytes 4 _) hbody.symm
  · exact Nat.le_trans (Nat.le_of_eq hannounced) hmax
  · have hcut_ne : cut ≠ [] := by
      rintro rfl
      exact hne (by rw [← hcut, List.append_nil])
    have hlen := congrArg List.length hpayload
    have hpos := List.length_pos_iff.mpr hcut_ne
    rw [List.length_append] at hlen
    rw [hannounced]
    omega

/-- The reader gets the first payloads, all of them exactly from the whole stream, and fails at its
end. -/
def Recovers (maxFrame : ℕ) (payloads : List (List UInt8)) (r : Source) : Prop :=
  ∃ n, readFrames maxFrame r = (payloads.take n, .read r.ending) ∧
    (r.bytes = stream payloads → payloads.length ≤ n) ∧
    (r.bytes ≠ stream payloads → n < payloads.length)

/-- A whole frame in front is one more payload. -/
theorem recovers_of_frame {payload rest : List UInt8} {payloads : List (List UInt8)} {r : Source}
    (hfits : Fits payload) (hmax : payload.length ≤ maxFrame)
    (hr : frameBytes payload ++ rest = r.bytes)
    (h : Recovers maxFrame payloads (readFrame r maxFrame).2) :
    Recovers maxFrame (payload :: payloads) r := by
  obtain ⟨hread, hbytes, hending⟩ := readFrame_frame hfits hmax hr.symm
  obtain ⟨n, hn, hall, hsome⟩ := h
  have hwhole : r.bytes = stream (payload :: payloads) ↔ rest = stream payloads := by
    rw [← hr, stream_cons, List.append_cancel_left_eq]
  rw [hbytes] at hall hsome
  refine ⟨n + 1, ?_, ?_, ?_⟩
  · rw [readFrames_of_ok hread, hn, hending]
    rfl
  · intro heq
    exact Nat.succ_le_succ (hall (hwhole.mp heq))
  · intro hne
    exact Nat.succ_lt_succ (hsome fun heq => hne (hwhole.mpr heq))

/-- A stream that ends inside its first frame gives nothing. -/
theorem recovers_of_strict {payload : List UInt8} {payloads : List (List UInt8)} {r : Source}
    (hfits : Fits payload) (hmax : payload.length ≤ maxFrame)
    (hcut : r.bytes <+: frameBytes payload) (hwhole : ¬frameBytes payload <+: r.bytes) :
    Recovers maxFrame (payload :: payloads) r := by
  have hne : r.bytes ≠ frameBytes payload := by
    intro heq
    exact hwhole ⟨[], by rw [heq, List.append_nil]⟩
  refine ⟨0, readFrames_of_error (readFrame_of_strict hfits hmax hcut hne), ?_, ?_⟩
  · intro heq
    exact absurd ⟨_, heq.symm⟩ hwhole
  · intro _
    exact Nat.succ_pos _

/-- From the beginning of a stream of frames the reader recovers the frames that are whole. -/
theorem recovers_of_cut {payloads : List (List UInt8)} (hfits : ∀ p ∈ payloads, Fits p)
    (hmax : ∀ p ∈ payloads, p.length ≤ maxFrame) {r : Source} (h : r.bytes <+: stream payloads) :
    Recovers maxFrame payloads r := by
  induction payloads generalizing r with
  | nil =>
    have hnil : r.bytes = [] := List.prefix_nil.mp h
    have hshort : r.bytes.length < 4 := by
      rw [hnil, List.length_nil]
      omega
    refine ⟨0, readFrames_of_error (readFrame_of_short hshort), fun _ => Nat.le_refl 0, ?_⟩
    intro hne
    exact absurd hnil hne
  | cons payload payloads ih =>
    rw [List.forall_mem_cons] at hfits hmax
    rw [stream_cons] at h
    by_cases hwhole : frameBytes payload <+: r.bytes
    · obtain ⟨rest, hrest⟩ := hwhole
      rw [← hrest, List.prefix_append_right_inj] at h
      have hbytes := (readFrame_frame hfits.1 hmax.1 hrest.symm).2.1
      exact recovers_of_frame hfits.1 hmax.1 hrest (ih hfits.2 hmax.2 (hbytes.symm ▸ h))
    · have hcut := (List.prefix_or_prefix_of_prefix h (List.prefix_append _ _)).resolve_right hwhole
      exact recovers_of_strict hfits.1 hmax.1 hcut hwhole

/-- What a frame leaves in the sink: all of it after a success, the beginning of it otherwise. -/
theorem writeFrame_written (w : Sink) (payload : List UInt8) :
    ∃ sent, sent <+: frameBytes payload ∧
      (writeFrame w payload maxFrame).2.written = w.written ++ sent ∧
      ((writeFrame w payload maxFrame).1 = .ok () → sent = frameBytes payload) := by
  unfold writeFrame
  split_ifs
  · exact ⟨[], List.nil_prefix, (List.append_nil _).symm, fun h => by cases h⟩
  obtain ⟨head, hhead, hwritten⟩ := Sink.writeAll_written (beBytes 4 payload.length) w
  rcases hannounce : w.writeAll (beBytes 4 payload.length) with ⟨announced, w₁⟩
  rw [hannounce] at hwritten
  cases announced with
  | false => exact ⟨head, hhead.trans (List.prefix_append _ _), hwritten, fun h => by cases h⟩
  | true =>
    have hwhole : w₁.written = w.written ++ beBytes 4 payload.length := by
      have := Sink.writeAll_true (congrArg Prod.fst hannounce)
      rwa [hannounce] at this
    obtain ⟨body, hbody, hwritten'⟩ := Sink.writeAll_written payload w₁
    dsimp only
    rcases hsend : w₁.writeAll payload with ⟨sent, w₂⟩
    rw [hsend, hwhole, List.append_assoc] at hwritten'
    cases sent with
    | false =>
      exact ⟨_, (List.prefix_append_right_inj _).mpr hbody, hwritten', fun h => by cases h⟩
    | true =>
      have hall := Sink.writeAll_true (congrArg Prod.fst hsend)
      rw [hsend, hwhole, List.append_assoc] at hall
      exact ⟨frameBytes payload, List.prefix_rfl, hall, fun _ => rfl⟩

theorem writeFrames_written (payloads : List (List UInt8)) (w : Sink) :
    ∃ sent, sent <+: stream payloads ∧
      (writeFrames maxFrame payloads w).2.written = w.written ++ sent ∧
      ((writeFrames maxFrame payloads w).1 = .ok () → sent = stream payloads) := by
  induction payloads generalizing w with
  | nil => exact ⟨[], List.nil_prefix, (List.append_nil _).symm, fun _ => rfl⟩
  | cons payload payloads ih =>
    obtain ⟨head, hhead, hwritten, hok⟩ := @writeFrame_written maxFrame w payload
    unfold writeFrames
    rcases hframe : writeFrame w payload maxFrame with ⟨result, w₁⟩
    rw [hframe] at hwritten hok
    cases result with
    | error e => exact ⟨head, hhead.trans (List.prefix_append _ _), hwritten, fun h => by cases h⟩
    | ok u =>
      obtain ⟨tail, htail, hrest, hall⟩ := ih w₁
      rw [hwritten, hok rfl, List.append_assoc] at hrest
      refine ⟨_, (List.prefix_append_right_inj _).mpr htail, hrest, ?_⟩
      intro h
      rw [hall h, stream_cons]

theorem writeFrame_unbounded {w : Sink} (hroom : w.room = none) (hflush : w.flushes = true)
    {payload : List UInt8} (hmax : payload.length ≤ maxFrame) :
    ∃ w', writeFrame w payload maxFrame = (.ok (), w') ∧ w'.room = none ∧ w'.flushes = true := by
  obtain ⟨written, room, flushes⟩ := w
  obtain rfl : room = none := hroom
  obtain rfl : flushes = true := hflush
  exact ⟨_, by rw [writeFrame, if_neg (Nat.not_lt.mpr hmax)]; rfl, rfl, rfl⟩

theorem writeFrames_unbounded {payloads : List (List UInt8)}
    (hmax : ∀ p ∈ payloads, p.length ≤ maxFrame) {w : Sink} (hroom : w.room = none)
    (hflush : w.flushes = true) : (writeFrames maxFrame payloads w).1 = .ok () := by
  induction payloads generalizing w with
  | nil => rfl
  | cons payload payloads ih =>
    obtain ⟨w', hframe, hroom', hflush'⟩ :=
      writeFrame_unbounded hroom hflush (hmax payload List.mem_cons_self)
    rw [writeFrames, hframe]
    exact ih (fun p hp => hmax p (List.mem_cons_of_mem payload hp)) hroom' hflush'

end Streams

/-- Frames written and read with one limit: the whole stream gives back the list, a part of it
only the payloads that are whole, and no payload exceeds the limit. -/
theorem frames_round_trip (maxFrame : ℕ) :
    (maxFrame < 2 ^ 32 → ∀ payloads : List (List UInt8), (∀ p ∈ payloads, p.length ≤ maxFrame) →
      ∃ w, writeFrames maxFrame payloads .unbounded = (.ok (), w) ∧
        (∀ r : Source, r.bytes = w.written → readFrames maxFrame r = (payloads, .read r.ending)) ∧
        (∀ r : Source, r.bytes <+: w.written → r.bytes ≠ w.written →
          ∃ n < payloads.length, readFrames maxFrame r = (payloads.take n, .read r.ending))) ∧
    (∀ (r : Source) (payload : List UInt8), (readFrame r maxFrame).1 = .ok payload →
      payload.length ≤ maxFrame) := by
  refine ⟨?_, fun r payload h => (readFrame_ok h).1⟩
  intro hbound payloads hmax
  have hfits : ∀ p ∈ payloads, Fits p := fun p hp => Nat.lt_of_le_of_lt (hmax p hp) hbound
  have hok := @writeFrames_unbounded maxFrame payloads hmax .unbounded rfl rfl
  obtain ⟨sent, -, hwritten, hsent⟩ := @writeFrames_written maxFrame payloads .unbounded
  have hstream : (writeFrames maxFrame payloads .unbounded).2.written = stream payloads := by
    rw [hwritten, hsent hok]
    rfl
  refine ⟨_, Prod.ext hok rfl, ?_, ?_⟩
  · intro r hr
    rw [hstream] at hr
    obtain ⟨n, hn, hall, -⟩ := recovers_of_cut hfits hmax ⟨[], (List.append_nil _).trans hr⟩
    rw [hn, List.take_of_length_le (hall hr)]
  · intro r hr hne
    rw [hstream] at hr hne
    obtain ⟨n, hn, -, hsome⟩ := recovers_of_cut hfits hmax hr
    exact ⟨n, hsome hne, hn⟩

end Nuntius.VsockFrames
