import Nuntius.AttestedExchange
import Nuntius.FramedStreams

/-!
# Agreement on the transferred key

The exchange on the wire: every frame becomes a length and a payload on a byte stream, and the
two sides are joined by pipes that may be cut after any byte. A server that fails early sends
its decline in place of its document, and a client may take it for one; but the third frame
that the client can ever read is the third frame that the server has offered, and that is a
grant only when the server has decided to hand the key over.
-/

namespace Nuntius.AttestedExchange
open WireFormat HandoverPolicy InteractivePrograms CancellableTasks FramedStreams LabelledRuns

/-! ### The exchange on a byte stream -/

/-- Beside the stream a side asks its security module for attestations. -/
abbrev AttestAnswer (_ : Bytes 32 × List UInt8) : Type := Option (List UInt8)

/-- A frame that is announced too long is refused on its length alone. -/
def receivedFrame : Received → Option (List UInt8)
  | .failed => none
  | .tooLong length => some (List.replicate length 0)
  | .payload bytes => some bytes

/-- The channel operations as stream operations. -/
def byteIo : (q : ChannelQuery) → Prog (StreamAnswer AttestAnswer) (ChannelAnswer q)
  | .write frame => putFrame frame.payload
  | .read => do
    let got ← takeFrame maxFrame
    pure (receivedFrame got)
  | .attest nonce point => Prog.query (StreamQuery.other (nonce, point))

/-- The frames an operation puts on the stream. -/
def sends : ChannelQuery → List (List UInt8)
  | .write frame => framed frame.payload
  | .read => []
  | .attest _ _ => []

theorem fits_of_mem_sends {q : ChannelQuery} {p : List UInt8} (h : p ∈ sends q) : Fits p := by
  cases q with
  | write frame => exact fits_of_mem_framed h
  | read => cases h
  | attest nonce point => cases h

theorem readIo_only :
    Prog.Only (fun q => ∀ bytes, q ≠ .put bytes) (byteIo .read) :=
  (takeFrame_only maxFrame).bind fun _ => trivial

theorem attestIo_only (nonce : Bytes 32) (point : List UInt8) :
    Prog.Only (fun q => (∀ bytes, q ≠ .put bytes) ∧ ∀ n, q ≠ .take n)
      (byteIo (.attest nonce point)) :=
  ⟨⟨nofun, nofun⟩, fun _ => trivial⟩

theorem carries_byteIo : Carries byteIo sends := by
  intro q u x h
  -- an operation that writes nothing offers nothing
  have hsilent : (∀ e ∈ u, ∀ bytes, e.1 ≠ .put bytes) →
      offered u <+: stream [] ∧ ∀ r, x = .ret r → stalled u = false → offered u = stream [] := by
    intro hreads
    rw [(offered_of_reads hreads).1]
    exact ⟨List.nil_prefix, fun _ _ _ => rfl⟩
  cases q with
  | write frame => exact putFrame_offered h
  | read => exact hsilent (h.only readIo_only)
  | attest nonce point => exact hsilent fun e he => (h.only (attestIo_only nonce point) e he).1

/-- A frame that is not too long was taken from the stream as it stands. -/
theorem readIo_taken {u : Transcript (StreamAnswer AttestAnswer)} {p : List UInt8}
    (h : Prog.Runs (byteIo .read) u (some p)) (hfits : p.length ≤ maxFrame) :
    taken u = frameBytes p := by
  obtain ⟨u₁, u₂, got, rfl, hgot, hret⟩ := Prog.runs_bind.mp h
  obtain ⟨rfl, hp⟩ := Prog.runs_pure.mp hret
  rw [List.append_nil]
  cases got with
  | failed => cases hp
  | tooLong length =>
    have hlong := takeFrame_tooLong hgot
    have hlength : p.length = length := by
      rw [Option.some.inj hp, List.length_replicate]
    omega
  | payload bytes =>
    cases hp
    exact (takeFrame_taken hgot).1

/-- What a side has taken from the stream is the frames it has read. -/
theorem taken_realizes {t : Transcript ChannelAnswer} {u : Transcript (StreamAnswer AttestAnswer)}
    (h : Prog.Realizes byteIo t u)
    (hread : ∀ answer, ⟨.read, answer⟩ ∈ t → ∃ p, answer = some p ∧ p.length ≤ maxFrame) :
    taken u = stream (reads t) := by
  induction h with
  | nil => rfl
  | @cons q a t u v run rest ih =>
    have htail := ih fun answer hmem => hread answer (List.mem_cons_of_mem _ hmem)
    rw [taken_append, htail]
    cases q with
    | write frame =>
      rw [taken_of_writes ((After.of_runs run).only (putFrame_only _))]
      rfl
    | read =>
      obtain ⟨p, rfl, hfits⟩ := hread a List.mem_cons_self
      rw [readIo_taken run hfits]
      rfl
    | attest nonce point =>
      have honly := (After.of_runs run).only (attestIo_only nonce point)
      rw [taken_of_writes fun e he => (honly e he).2]
      rfl

/-- After the byte exchanges `u` the side sets out to write the frame. -/
def Writes {ε R : Type} (side : Fallible ChannelAnswer ε R)
    (u : Transcript (StreamAnswer AttestAnswer)) (frame : Frame) : Prop :=
  ∃ t, Prog.Realizes byteIo t u ∧ Fallible.Asks side t (.write frame)

variable {ch : Channel} {inputs : HandoverInputs}
  {deriveChild : TransferKey → ChildLabel → TransferKey} {ownKey : TransferKey}

/-- The bytes taken in a first phase in which everything arrived. -/
theorem taken_fullExchange {peerNonce : Bytes 32} {myDoc peerDoc : List UInt8}
    (hfits : peerDoc.length ≤ maxFrame) (later : List (List UInt8))
    (hlater : ∀ p ∈ later, p.length ≤ maxFrame) {u : Transcript (StreamAnswer AttestAnswer)}
    (h : Prog.Realizes byteIo (fullExchange ch peerNonce myDoc peerDoc ++
      later.map fun p => ⟨.read, some p⟩) u) :
    taken u = stream (peerNonce.val :: peerDoc :: later) := by
  rw [taken_realizes h, reads_append]
  · have hreads : reads (later.map fun p => ⟨.read, some p⟩) = later := by
      simp [reads, List.filterMap_map]
    rw [hreads]
    rfl
  · intro answer hmem
    rcases List.mem_append.mp hmem with hfirst | hrest
    · have hnonce : peerNonce.val.length ≤ maxFrame := by
        rw [peerNonce.property]
        decide
      simp only [fullExchange, List.mem_cons, List.not_mem_nil, or_false, reduceCtorEq,
        Sigma.mk.injEq, false_and, heq_eq_eq, true_and, false_or] at hfirst
      obtain rfl | rfl := hfirst
      · exact ⟨_, rfl, hnonce⟩
      · exact ⟨_, rfl, hfits⟩
    · obtain ⟨p, hp, heq⟩ := List.mem_map.mp hrest
      cases heq
      exact ⟨p, rfl, hlater p hp⟩

/-! ### The order of the server's frames -/

/-- What the server can have set out to write, oldest first. -/
inductive Script (ch : Channel) : List Frame → Prop where
  | silent : Script ch []
  | nonce : Script ch [.nonce ch.myNonce]
  | early : Script ch [.nonce ch.myNonce, .decline]
  | document (doc : List UInt8) : Script ch [.nonce ch.myNonce, .document doc]
  | declined (doc : List UInt8) : Script ch [.nonce ch.myNonce, .document doc, .decline]
  | granted (doc : List UInt8) (key : TransferKey) :
      Script ch [.nonce ch.myNonce, .document doc, .grant key]

/-- The record of the frames written. -/
def noteFrame (frames : List Frame) : ChannelQuery → List Frame
  | .write frame => frames ++ [frame]
  | .read => frames
  | .attest _ _ => frames

/-- The next query continues the script. -/
def OnScript (ch : Channel) (frames : List Frame) (q : ChannelQuery) : Prop :=
  Script ch (noteFrame frames q)

/-- A stretch of the exchange that follows the script. -/
abbrev Follows {R : Type} (ch : Channel) (frames : List Frame) (p : Exchange R)
    (post : Except ChannelFault R → List Frame → Prop) : Prop :=
  Prog.Obeys (OnScript ch) noteFrame post frames p.run

theorem follows_writeFrame {frames : List Frame} {frame : Frame}
    (h : Script ch (frames ++ [frame])) :
    Follows ch frames (writeFrame frame) fun _ after => after = frames ++ [frame] := by
  refine ⟨h, fun written => ?_⟩
  cases written <;> rfl

theorem follows_writeDecline {frames : List Frame} (h : Script ch (frames ++ [.decline])) :
    Follows ch frames writeDecline fun _ after => after = frames ++ [.decline] :=
  ⟨h, fun _ => rfl⟩

theorem follows_readFrame {frames : List Frame} (h : Script ch frames) :
    Follows ch frames readFrame fun _ after => after = frames := by
  refine ⟨h, fun got => ?_⟩
  cases got with
  | none => rfl
  | some payload =>
    change Prog.Obeys _ _ _ _ (if maxFrame < payload.length then _ else _ : Exchange _).run
    split <;> rfl

theorem follows_ofExcept {R : Type} {frames : List Frame} (e : Except ChannelFault R) :
    Follows ch frames (Fallible.ofExcept e) fun r after => r = e ∧ after = frames :=
  ⟨rfl, rfl⟩

theorem follows_attest {frames : List Frame} (h : Script ch frames) (nonce : Bytes 32)
    (point : List UInt8) :
    Follows ch frames (Fallible.query (.attest nonce point)) fun _ after => after = frames :=
  ⟨h, fun _ => rfl⟩

/-- The first phase writes the nonce and, unless it fails before that, the document. -/
theorem follows_nonceAndDocExchange :
    Follows ch [] (nonceAndDocExchange ch) fun r after =>
      (∃ doc, after = [.nonce ch.myNonce, .document doc]) ∨
        after = [.nonce ch.myNonce] ∧ ∃ fault, r = .error fault := by
  refine Fallible.Obeys.bind (follows_writeFrame .nonce) ?_ ?_
  · rintro fault _ rfl
    exact .inr ⟨rfl, fault, rfl⟩
  rintro _ _ rfl
  refine Fallible.Obeys.bind (follows_readFrame .nonce) ?_ ?_
  · rintro fault _ rfl
    exact .inr ⟨rfl, fault, rfl⟩
  rintro peerNonceBytes _ rfl
  refine Fallible.Obeys.bind (follows_ofExcept _) ?_ ?_
  · rintro fault _ ⟨-, rfl⟩
    exact .inr ⟨rfl, fault, rfl⟩
  rintro peerNonce _ ⟨-, rfl⟩
  refine Fallible.Obeys.bind (follows_attest .nonce _ _) ?_ ?_
  · rintro fault _ rfl
    exact .inr ⟨rfl, fault, rfl⟩
  rintro attested _ rfl
  refine Fallible.Obeys.bind (follows_ofExcept _) ?_ ?_
  · rintro fault _ ⟨-, rfl⟩
    exact .inr ⟨rfl, fault, rfl⟩
  rintro myDoc _ ⟨-, rfl⟩
  refine Fallible.Obeys.bind (follows_writeFrame (.document myDoc)) ?_ ?_
  · rintro fault _ rfl
    exact .inl ⟨myDoc, rfl⟩
  rintro _ _ rfl
  refine Fallible.Obeys.bind (follows_readFrame (.document myDoc)) ?_ ?_
  · rintro fault _ rfl
    exact .inl ⟨myDoc, rfl⟩
  rintro peerDoc _ rfl
  exact .inl ⟨myDoc, rfl⟩

/-- A server that refuses has written no key. -/
def Refuses (r : Except ChannelFault ServerExchange) (frames : List Frame) : Prop :=
  ∀ reason, r = .ok (.refused reason) → ∀ key, Frame.grant key ∉ frames

theorem follows_decline {frames : List Frame} (h : Script ch (frames ++ [.decline]))
    (hnone : ∀ key, Frame.grant key ∉ frames) (outcome : ServerExchange) :
    Follows ch frames (do writeDecline; pure outcome) Refuses := by
  refine Fallible.Obeys.bind (follows_writeDecline h) ?_ ?_
  · rintro fault _ rfl reason ⟨⟩
  · rintro _ _ rfl reason - key
    simpa using hnone key

theorem follows_grant (doc : List UInt8) (key : TransferKey) {outcome : ServerExchange}
    (hgrant : ∀ reason, outcome ≠ .refused reason) :
    Follows ch [.nonce ch.myNonce, .document doc] (do writeFrame (.grant key); pure outcome)
      Refuses := by
  refine Fallible.Obeys.bind (follows_writeFrame (.granted doc key)) ?_ ?_
  · rintro fault _ rfl reason ⟨⟩
  · rintro _ _ rfl reason heq
    exact absurd (Except.ok.inj heq) (hgrant reason)

theorem follows_serverExchange :
    Follows ch [] (serverExchange ch inputs deriveChild ownKey) Refuses := by
  refine Fallible.Obeys.bind (Fallible.Obeys.attempt follows_nonceAndDocExchange) ?_ ?_
  · rintro fault _ ⟨e, ⟨⟩, -⟩
  rintro exchanged frames ⟨_, ⟨⟩, hphase⟩
  -- a decline fits wherever the first phase ended
  have hdecline : ∀ outcome, Follows ch frames (do writeDecline; pure outcome) Refuses := by
    intro outcome
    obtain ⟨doc, rfl⟩ | ⟨rfl, -⟩ := hphase
    · exact follows_decline (.declined doc) (by simp) outcome
    · exact follows_decline .early (by simp) outcome
  cases exchanged with
  | error fault => exact hdecline _
  | ok exchanged =>
    obtain ⟨peerNonce, peerDoc⟩ := exchanged
    obtain ⟨doc, rfl⟩ | ⟨-, _, ⟨⟩⟩ := hphase
    dsimp only
    cases evaluatePeer ch peerDoc with
    | error reason => exact hdecline _
    | ok peer =>
      change Follows ch _ (handOver deriveChild ownKey _) Refuses
      cases decideHandover inputs.own inputs.role peer.pcr0 inputs.ownKeyIsCandidate
          inputs.approvals with
      | ownKey => exact follows_grant doc _ (by simp)
      | child label => exact follows_grant doc _ (by simp)
      | refuse reason => exact hdecline _

/-! ### The third frame -/

/-- The frames written after a transcript. -/
abbrev framesOf (t : Transcript ChannelAnswer) : List Frame := Prog.record noteFrame [] t

/-- The bytes of the frames that fit. -/
def payloads (frames : List Frame) : List (List UInt8) :=
  frames.flatMap fun frame => framed frame.payload

@[simp] theorem payloads_noteFrame (frames : List Frame) (q : ChannelQuery) :
    payloads (noteFrame frames q) = payloads frames ++ sends q := by
  cases q <;> simp [payloads, noteFrame, sends]

theorem payloads_record (frames : List Frame) (t : Transcript ChannelAnswer) :
    payloads (Prog.record noteFrame frames t) = payloads frames ++ sent sends t := by
  induction t generalizing frames with
  | nil => simp [Prog.record, sent]
  | cons e t ih =>
    change payloads (Prog.record noteFrame (noteFrame frames e.1) t) = _
    rw [ih, payloads_noteFrame]
    simp [sent]

theorem length_payloads_le (frames : List Frame) : (payloads frames).length ≤ frames.length := by
  induction frames with
  | nil => exact Nat.le_refl _
  | cons frame frames ih =>
    have hframed : (framed frame.payload).length ≤ 1 := by
      unfold framed
      split <;> simp
    change (framed frame.payload ++ payloads frames).length ≤ _
    rw [List.length_append, List.length_cons]
    omega

/-- Three payloads that put three frames on the stream all fit. -/
theorem framed_three {a b c : List UInt8} (h : 3 ≤ (framed a ++ (framed b ++ framed c)).length) :
    framed a ++ (framed b ++ framed c) = [a, b, c] := by
  unfold framed at h ⊢
  by_cases ha : Fits a <;> by_cases hb : Fits b <;> by_cases hc : Fits c <;> simp_all

/-- A script whose third frame reads as a grant is one that granted this key. -/
theorem Script.granted_of_third {frames : List Frame} (h : Script ch frames) {a b : List UInt8}
    {key : TransferKey} (hthird : [a, b, (Frame.grant key).payload] <+: payloads frames) :
    Frame.grant key ∈ frames := by
  have hlength : 3 ≤ (payloads frames).length := hthird.length_le
  have hshort : 3 ≤ frames.length := Nat.le_trans hlength (length_payloads_le frames)
  -- with three frames sent, each of them fits, so the third is the third of the script
  have hlast : ∀ doc last, frames = [.nonce ch.myNonce, .document doc, last] →
      last.payload = (Frame.grant key).payload := by
    rintro doc last rfl
    have hall : payloads [.nonce ch.myNonce, .document doc, last] =
        framed ch.myNonce.val ++ (framed doc ++ framed last.payload) := by
      simp [payloads, Frame.payload]
    rw [hall] at hlength
    rw [hall, framed_three hlength] at hthird
    have heq := hthird.eq_of_length rfl
    simp only [List.cons.injEq, and_true] at heq
    exact heq.2.2.symm
  cases h with
  | silent => simp at hshort
  | nonce => simp at hshort
  | early => simp at hshort
  | document doc => simp at hshort
  | declined doc =>
    have hpayload := congrArg List.length (hlast doc .decline rfl)
    simp [Frame.payload, key.property] at hpayload
  | granted doc key' =>
    have hpayload := hlast doc (.grant key') rfl
    simp only [Frame.payload, List.cons.injEq, true_and] at hpayload
    simp [Subtype.ext hpayload]

theorem mem_record_split {frames : List Frame} {t : Transcript ChannelAnswer} {frame : Frame}
    (h : frame ∈ Prog.record noteFrame frames t) :
    frame ∈ frames ∨ ∃ t₁ ok t₂, t = t₁ ++ ⟨.write frame, ok⟩ :: t₂ := by
  induction t generalizing frames with
  | nil => exact .inl h
  | cons e t ih =>
    obtain h' | ⟨t₁, ok, t₂, rfl⟩ := @ih (noteFrame frames e.1) h
    · obtain ⟨q, a⟩ := e
      cases q with
      | write frame' =>
        rcases List.mem_append.mp h' with hold | hnew
        · exact .inl hold
        · obtain rfl := List.mem_singleton.mp hnew
          exact .inr ⟨[], a, t, rfl⟩
      | read => exact .inl h'
      | attest nonce point => exact .inl h'
    · exact .inr ⟨e :: t₁, ok, t₂, rfl⟩

/-- What a side has written stays on the script. -/
theorem script_of_after {t : Transcript ChannelAnswer}
    {p : Prog ChannelAnswer (Except ChannelFault ServerExchange)}
    (h : After (serverExchange ch inputs deriveChild ownKey).run t p) : Script ch (framesOf t) := by
  obtain rfl | ⟨t', ⟨q, a⟩, rfl⟩ := List.eq_nil_or_concat t
  · exact .silent
  · rw [List.concat_eq_append] at h ⊢
    have hnext := follows_serverExchange.of_asks h.asks_of_split
    simpa [framesOf, Prog.record, OnScript] using hnext

/-- A server whose frames begin with two frames and a grant has set out to write that grant. -/
theorem grant_of_third {t : Transcript ChannelAnswer}
    {p : Prog ChannelAnswer (Except ChannelFault ServerExchange)}
    (h : After (serverExchange ch inputs deriveChild ownKey).run t p) {a b : List UInt8}
    {key : TransferKey}
    (hthird : [a, b, (Frame.grant key).payload] <+: sent sends t ++ pending sends p) :
    (∃ t' t'', t = t' ++ t'' ∧ Fallible.Asks (serverExchange ch inputs deriveChild ownKey) t'
      (.write (.grant key))) ∧ ∀ reason, p ≠ .ret (.ok (.refused reason)) := by
  have hwritten : Frame.grant key ∈ framesOf t → ∃ t' t'', t = t' ++ t'' ∧
      Fallible.Asks (serverExchange ch inputs deriveChild ownKey) t' (.write (.grant key)) := by
    intro hmem
    obtain hmem | ⟨t₁, ok, t₂, rfl⟩ := mem_record_split hmem
    · cases hmem
    · exact ⟨t₁, _, rfl, h.asks_of_split⟩
  have hsent : payloads (framesOf t) = sent sends t := payloads_record [] t
  cases p with
  | ret r =>
    rw [pending, List.append_nil, ← hsent] at hthird
    have hmem := (script_of_after h).granted_of_third hthird
    refine ⟨hwritten hmem, ?_⟩
    rintro reason ⟨⟩
    exact follows_serverExchange.of_runs h.runs reason rfl key hmem
  | ask q k =>
    refine ⟨?_, nofun⟩
    rw [pending, ← hsent, ← payloads_noteFrame] at hthird
    have hmem := Script.granted_of_third (follows_serverExchange.of_asks h.asks) hthird
    cases q with
    | write frame =>
      rcases List.mem_append.mp hmem with hold | hnew
      · exact hwritten hold
      · obtain rfl := List.mem_singleton.mp hnew
        exact ⟨t, [], (List.append_nil t).symm, h.asks⟩
    | read => exact hwritten hmem
    | attest nonce point => exact hwritten hmem

/-! ### Agreement -/

/-- The decision about the peer hands over this key. -/
def Decides (inputs : HandoverInputs) (deriveChild : TransferKey → ChildLabel → TransferKey)
    (ownKey : TransferKey) (peer : VerifiedPeer) (key : TransferKey) : Prop :=
  let decision := decideHandover inputs.own inputs.role peer.pcr0 inputs.ownKeyIsCandidate
    inputs.approvals
  (decision = .ownKey ∧ key = ownKey) ∨
    ∃ label, decision = .child label ∧ key = deriveChild ownKey label

theorem decides_of_released {peer : VerifiedPeer} {key : TransferKey}
    (h : released deriveChild ownKey (decideHandover inputs.own inputs.role peer.pcr0
      inputs.ownKeyIsCandidate inputs.approvals) = some key) :
    Decides inputs deriveChild ownKey peer key := by
  unfold Decides
  dsimp only
  cases hdecision : decideHandover inputs.own inputs.role peer.pcr0 inputs.ownKeyIsCandidate
      inputs.approvals with
  | ownKey =>
    rw [hdecision] at h
    exact .inl ⟨rfl, (Option.some.inj h).symm⟩
  | child label =>
    rw [hdecision] at h
    exact .inr ⟨label, rfl, (Option.some.inj h).symm⟩
  | refuse reason =>
    rw [hdecision] at h
    cases h

/-- The document verified and is bound to this channel: it carries exactly this side's nonce
and attests exactly the other side's channel key, which is not empty. -/
structure Bound (ch : Channel) (doc : List UInt8) (peer : VerifiedPeer) : Prop where
  verified : ch.verify doc ch.myNonce = some peer
  nonce : peer.nonce = some ch.myNonce.val
  point : peer.publicKey = ch.peerPoint
  nonempty : ch.peerPoint ≠ []

theorem bound_of_evaluatePeer {doc : List UInt8} {peer : VerifiedPeer}
    (h : evaluatePeer ch doc = .ok peer) : Bound ch doc peer := by
  obtain ⟨verified, nonce, point, nonempty⟩ := evaluatePeer_eq_ok h
  exact ⟨verified, nonce, point, nonempty⟩

/-- The server has read a nonce and a document that is bound to its channel, and its decision
about that peer hands over this key. -/
def GrantedTo (ch : Channel) (inputs : HandoverInputs)
    (deriveChild : TransferKey → ChildLabel → TransferKey) (ownKey : TransferKey)
    (u : Transcript (StreamAnswer AttestAnswer)) (key : TransferKey) : Prop :=
  ∃ (peerNonce : Bytes 32) (doc : List UInt8) (peer : VerifiedPeer),
    taken u = stream [peerNonce.val, doc] ∧ Bound ch doc peer ∧
      Decides inputs deriveChild ownKey peer key

theorem grantedTo_of_writes {u : Transcript (StreamAnswer AttestAnswer)} {key : TransferKey}
    (h : Writes (serverExchange ch inputs deriveChild ownKey) u (.grant key)) :
    GrantedTo ch inputs deriveChild ownKey u key := by
  obtain ⟨t, hreal, hasks⟩ := h
  obtain ⟨peerNonce, myDoc, doc, peer, rfl, hfits, heval, hkey⟩ := serverExchange_grant_after hasks
  refine ⟨peerNonce, doc, peer, ?_, bound_of_evaluatePeer heval, decides_of_released hkey⟩
  exact taken_fullExchange hfits [] (by simp) (by simpa using hreal)

/-- The client has read a nonce, a document that is bound to its channel, of a server it
accepts, and next the grant of this key: the tag and the 32 bytes. -/
def InstalledFrom (ch : Channel) (accepts : AcceptInputs)
    (u : Transcript (StreamAnswer AttestAnswer)) (key : TransferKey) : Prop :=
  ∃ (peerNonce : Bytes 32) (doc : List UInt8) (peer : VerifiedPeer),
    taken u = stream [peerNonce.val, doc, tagGrant :: key.val] ∧ doc.length ≤ maxFrame ∧
      Bound ch doc peer ∧
      clientAcceptsServer accepts.kind accepts.ownPcr0 peer.pcr0 accepts.bakedAncestors = .accept

theorem installedFrom_of_runs {accepts : AcceptInputs}
    {u : Transcript (StreamAnswer AttestAnswer)} {key : TransferKey}
    (h : Prog.Runs (Prog.interp byteIo (clientExchange ch accepts).run) u (.ok (.installed key))) :
    InstalledFrom ch accepts u key := by
  obtain ⟨t, hrun, hreal⟩ := Prog.runs_interp h
  obtain ⟨peerNonce, myDoc, doc, peer, rfl, hfits, heval, haccept⟩ :=
    clientExchange_installed_after hrun
  have hgrant : (Frame.grant key).payload.length ≤ maxFrame := by
    simp [Frame.payload, key.property, maxFrame]
  refine ⟨peerNonce, doc, peer, ?_, hfits, bound_of_evaluatePeer heval, haccept⟩
  exact taken_fullExchange hfits [(Frame.grant key).payload] (by simpa using hgrant) hreal

/-- The exchange on both sides, joined by pipes. -/
def exchangeStart (server client : Channel) (inputs : HandoverInputs)
    (deriveChild : TransferKey → ChildLabel → TransferKey) (ownKey : TransferKey)
    (accepts : AcceptInputs) :
    Duplex AttestAnswer (Except ChannelFault ServerExchange) (Except ChannelFault ClientExchange) :=
  .start (Prog.interp byteIo (serverExchange server inputs deriveChild ownKey).run)
    (Prog.interp byteIo (clientExchange client accepts).run)

/-- A server writes key material only to a client that is bound to its channel and that its
policy grants the key; a client installs only the key in the frame after the document of an
accepted server bound to its channel. When both run, in every interleaving and whatever is cut,
an installed key is the one the server decided to hand over, and a server that refused has not
given any. -/
theorem key_transfer_agreed (server client : Channel) (inputs : HandoverInputs)
    (deriveChild : TransferKey → ChildLabel → TransferKey) (ownKey : TransferKey)
    (accepts : AcceptInputs) :
    (∀ u key, Writes (serverExchange server inputs deriveChild ownKey) u (.grant key) →
      GrantedTo server inputs deriveChild ownKey u key) ∧
    (∀ u key, Prog.Runs (Prog.interp byteIo (clientExchange client accepts).run) u
        (.ok (.installed key)) → InstalledFrom client accepts u key) ∧
    (∀ labels s, Run (exchangeStart server client inputs deriveChild ownKey accepts) Step labels s →
      ∀ key, s.right = .ret (.ok (.installed key)) →
        (∃ u, u <+: leftTranscript labels ∧
          Writes (serverExchange server inputs deriveChild ownKey) u (.grant key) ∧
          GrantedTo server inputs deriveChild ownKey u key) ∧
        ∀ reason, s.left ≠ .ret (.ok (.refused reason))) := by
  refine ⟨fun _ _ => grantedTo_of_writes, fun _ _ => installedFrom_of_runs, ?_⟩
  intro labels s run key hinstalled
  have joined := joined_of_run run
  have hclient := joined.right
  rw [hinstalled] at hclient
  obtain ⟨peerNonce, doc, -, htaken, hfits, -, -⟩ := installedFrom_of_runs hclient.runs
  -- what the client has read is a prefix of the frames the server has sent
  obtain ⟨t, u₁, u₂, p, hsplit, hreal, hafter, hoffered, hend⟩ := carries_byteIo.interp joined.left
  have hread : stream [peerNonce.val, doc, (Frame.grant key).payload] <+:
      stream (sent sends t ++ pending sends p) := by
    have hprefix := joined.read_of_left.trans hoffered
    rwa [htaken] at hprefix
  have hframes : ∀ x ∈ sent sends t ++ pending sends p, Fits x := by
    intro x hx
    rcases List.mem_append.mp hx with hsent | hpending
    · obtain ⟨e, -, hx⟩ := List.mem_flatMap.mp hsent
      exact fits_of_mem_sends hx
    · cases p with
      | ret r => cases hpending
      | ask q k => exact fits_of_mem_sends hpending
  have hsmall : ∀ x ∈ [peerNonce.val, doc, (Frame.grant key).payload], Fits x := by
    simp only [List.mem_cons, List.not_mem_nil, or_false, Fits]
    rintro x (rfl | rfl | rfl)
    · rw [peerNonce.property]
      decide
    · exact Nat.lt_of_le_of_lt hfits (by decide)
    · simp [Frame.payload, key.property]
  obtain ⟨⟨t', t'', rfl, hasks⟩, hrefused⟩ :=
    grant_of_third hafter (stream_cancel hsmall hframes hread)
  obtain ⟨v, w, rfl, hv, -⟩ := hreal.of_append
  refine ⟨⟨v, ?_, ⟨t', hv, hasks⟩, grantedTo_of_writes ⟨t', hv, hasks⟩⟩, ?_⟩
  · rw [hsplit, List.append_assoc]
    exact List.prefix_append _ _
  · intro reason hleft
    exact hrefused reason (hend _ hleft)

/-- Two enclaves of one image whose documents are their own channel keys. -/
def mateChannel (nonce : UInt8) (myPoint peerPoint : List UInt8) : Channel where
  myNonce := filled 32 nonce
  myPoint := myPoint
  peerPoint := peerPoint
  verify doc n := some ⟨filled 48 7, some n.val, doc⟩

def mateInputs : HandoverInputs := ⟨⟨filled 48 7, 1⟩, .oracle, false, []⟩

def mateAccepts : AcceptInputs := ⟨.rootFromRoot, filled 48 7, []⟩

/-- Both sides in turn, nothing lost. -/
def mateRun :=
  schedule (fun q => some q.2) (List.replicate 40 [true, false]).flatten
    ([], exchangeStart (mateChannel 1 [10] [20]) (mateChannel 2 [20] [10]) mateInputs
      (fun key _ => key) (filled 32 9) mateAccepts)

theorem mateRun_run :
    Run (exchangeStart (mateChannel 1 [10] [20]) (mateChannel 2 [20] [10]) mateInputs
      (fun key _ => key) (filled 32 9) mateAccepts) Step mateRun.1 mateRun.2 :=
  run_schedule _ .start

theorem mateRun_installs : mateRun.2.right = .ret (.ok (.installed (filled 32 9))) :=
  result_eq_some (by decide +kernel)

/-- The client of that run installs the key that the server handed over. -/
theorem key_transfer_agreed_mates :
    (∃ u, u <+: leftTranscript mateRun.1 ∧ GrantedTo (mateChannel 1 [10] [20]) mateInputs
      (fun key _ => key) (filled 32 9) u (filled 32 9)) ∧
    InstalledFrom (mateChannel 2 [20] [10]) mateAccepts (rightTranscript mateRun.1) (filled 32 9) ∧
    ∀ reason, mateRun.2.left ≠ .ret (.ok (.refused reason)) := by
  obtain ⟨hserver, hclient, hboth⟩ := key_transfer_agreed (mateChannel 1 [10] [20])
    (mateChannel 2 [20] [10]) mateInputs (fun key _ => key) (filled 32 9) mateAccepts
  obtain ⟨⟨u, hu, hwrites, -⟩, hleft⟩ := hboth _ _ mateRun_run _ mateRun_installs
  have hright := (joined_of_run mateRun_run).right
  rw [mateRun_installs] at hright
  exact ⟨⟨u, hu, hserver u _ hwrites⟩, hclient _ _ hright.runs, hleft⟩

end Nuntius.AttestedExchange
