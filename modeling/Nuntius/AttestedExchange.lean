import Nuntius.HandoverPolicy
import Nuntius.InteractivePrograms

/-!
# The exchange over an attested channel

After the handshake both sides send a nonce, answer the other's nonce with an attestation
of their own channel key, and judge the other's document. The server then frames a key or
declines; the client reads that frame. The channel and the security module answer
arbitrarily, and the verification of a document is an arbitrary function.
-/

namespace Nuntius.AttestedExchange
open WireFormat HandoverPolicy InteractivePrograms

abbrev TransferKey := Bytes 32

/-- The fields of a verified document that bind it to a channel. -/
structure VerifiedPeer where
  pcr0 : Pcr0
  nonce : Option (List UInt8)
  publicKey : List UInt8

/-! ### Channel binding -/

inductive BindingFault where
  | nonceMismatch
  | noNonce
  | emptyKey
  | keyMismatch
deriving DecidableEq, Repr

/-- Equality in constant time: the differences are collected, not branched on. -/
def ctEq (a b : List UInt8) : Bool :=
  if a.length ≠ b.length then false
  else (List.zipWith (fun x y => x ^^^ y) a b).foldl (fun diff d => diff ||| d) 0 == 0

theorem foldl_xor_eq_zero {a b : List UInt8} (hlength : a.length = b.length) (acc : UInt8) :
    (List.zipWith (fun x y => x ^^^ y) a b).foldl (fun diff d => diff ||| d) acc = 0 ↔
      acc = 0 ∧ a = b := by
  induction a generalizing b acc with
  | nil =>
    obtain rfl := List.length_eq_zero_iff.mp hlength.symm
    simp
  | cons x a ih =>
    cases b with
    | nil => simp at hlength
    | cons y b =>
      rw [List.zipWith_cons_cons, List.foldl_cons, ih (by simpa using hlength),
        UInt8.or_eq_zero_iff, UInt8.xor_eq_zero_iff, List.cons.injEq, and_assoc]

/-- The comparison without branches is equality. -/
theorem ctEq_eq_true {a b : List UInt8} : ctEq a b = true ↔ a = b := by
  unfold ctEq
  split
  · rename_i hlength
    constructor
    · intro h
      cases h
    · intro h
      exact absurd (congrArg List.length h) hlength
  · rename_i hlength
    rw [beq_iff_eq, foldl_xor_eq_zero (not_not.mp hlength)]
    simp

def checkNonce (peer : VerifiedPeer) (expectedNonce : List UInt8) : Except BindingFault Unit :=
  match peer.nonce with
  | some n => if ctEq n expectedNonce then .ok () else .error .nonceMismatch
  | none => .error .noNonce

/-- Two empty keys compare equal, so emptiness is refused first. -/
def checkPeerKey (peer : VerifiedPeer) (expectedKey : List UInt8) : Except BindingFault Unit :=
  if peer.publicKey.isEmpty || expectedKey.isEmpty then .error .emptyKey
  else if ctEq peer.publicKey expectedKey then .ok ()
  else .error .keyMismatch

/-! ### The channel -/

inductive ExchangeRefusal where
  | attestationInvalid
  | nonceMismatch
  | keyMismatch
  | policyRefused (reason : HandoffRefusal)
  | serverDeclined
  | clientRejected (reason : ClientRefusal)
  | protocol
deriving DecidableEq, Repr

inductive ServerExchange where
  | handedOwnKey
  | handedChild
  | refused (reason : ExchangeRefusal)
deriving DecidableEq, Repr

inductive ClientExchange where
  | installed (key : TransferKey)
  | refused (reason : ExchangeRefusal)
deriving DecidableEq

/-- What either side writes. -/
inductive Frame where
  | nonce (n : Bytes 32)
  | document (doc : List UInt8)
  | grant (key : TransferKey)
  | decline

def tagDecline : UInt8 := 0
def tagGrant : UInt8 := 1

def Frame.payload : Frame → List UInt8
  | .nonce n => n.val
  | .document doc => doc
  | .grant key => tagGrant :: key.val
  | .decline => [tagDecline]

inductive ChannelQuery where
  | write (frame : Frame)
  | read
  | attest (nonce : Bytes 32) (point : List UInt8)

/-- A write succeeds or not, a read brings a frame or fails, an attestation a document. -/
abbrev ChannelAnswer : ChannelQuery → Type
  | .write _ => Bool
  | .read => Option (List UInt8)
  | .attest _ _ => Option (List UInt8)

inductive ChannelFault where
  | io
  | frameTooLarge (length : ℕ)
  | nonceLength
  | attestation
deriving DecidableEq, Repr

abbrev Exchange := Fallible ChannelAnswer ChannelFault

def maxFrame : ℕ := 64 * 1024

def writeFrame (frame : Frame) : Exchange Unit := do
  let written ← Fallible.query (.write frame)
  if written = true then pure () else throw .io

/-- A decline is sent as far as the channel still carries it. -/
def writeDecline : Exchange Unit := do
  let _ ← Fallible.query (.write .decline)
  pure ()

def readFrame : Exchange (List UInt8) := do
  let got ← Fallible.query .read
  let payload ← Fallible.ofExcept (okOr got .io)
  if maxFrame < payload.length then throw (.frameTooLarge payload.length) else pure payload

/-- The fixed facts of one channel. -/
structure Channel where
  myNonce : Bytes 32
  myPoint : List UInt8
  peerPoint : List UInt8
  verify : List UInt8 → Bytes 32 → Option VerifiedPeer

variable (ch : Channel)

def nonceAndDocExchange : Exchange (Bytes 32 × List UInt8) := do
  writeFrame (.nonce ch.myNonce)
  let peerNonceBytes ← readFrame
  let peerNonce ← Fallible.ofExcept (okOr (toFixed 32 peerNonceBytes) .nonceLength)
  let attested ← Fallible.query (.attest peerNonce ch.myPoint)
  let myDoc ← Fallible.ofExcept (okOr attested .attestation)
  writeFrame (.document myDoc)
  let peerDoc ← readFrame
  pure (peerNonce, peerDoc)

def evaluatePeer (peerDoc : List UInt8) : Except ExchangeRefusal VerifiedPeer :=
  match ch.verify peerDoc ch.myNonce with
  | none => .error .attestationInvalid
  | some verified =>
    match checkNonce verified ch.myNonce.val with
    | .error _ => .error .nonceMismatch
    | .ok () =>
      match checkPeerKey verified ch.peerPoint with
      | .error _ => .error .keyMismatch
      | .ok () => .ok verified

/-- A peer that passes carries exactly this side's nonce and its own channel key. -/
theorem evaluatePeer_eq_ok {ch : Channel} {peerDoc : List UInt8} {peer : VerifiedPeer}
    (h : evaluatePeer ch peerDoc = .ok peer) :
    ch.verify peerDoc ch.myNonce = some peer ∧ peer.nonce = some ch.myNonce.val ∧
      peer.publicKey = ch.peerPoint ∧ ch.peerPoint ≠ [] := by
  unfold evaluatePeer at h
  split at h
  · cases h
  rename_i verified hverify
  split at h
  · cases h
  rename_i hnonce
  split at h
  · cases h
  rename_i hkey
  cases h
  refine ⟨hverify, ?_, ?_⟩
  · unfold checkNonce at hnonce
    split at hnonce
    · rename_i n hn
      split at hnonce
      · rename_i heq
        rw [hn, ctEq_eq_true.mp heq]
      · cases hnonce
    · cases hnonce
  · unfold checkPeerKey at hkey
    split at hkey
    · cases hkey
    · rename_i hempty
      split at hkey
      · rename_i heq
        refine ⟨ctEq_eq_true.mp heq, ?_⟩
        rintro hpoint
        simp [hpoint] at hempty
      · cases hkey

/-! ### The server -/

structure HandoverInputs where
  own : ImageIdentity
  role : EnclaveRole
  ownKeyIsCandidate : Bool
  approvals : List VerifiedApproval

variable (inputs : HandoverInputs) (deriveChild : TransferKey → ChildLabel → TransferKey)
  (ownKey : TransferKey)

/-- Act on the decision about a verified peer. -/
def handOver : KeyDecision → Exchange ServerExchange
  | .ownKey => do
    writeFrame (.grant ownKey)
    pure .handedOwnKey
  | .child label => do
    writeFrame (.grant (deriveChild ownKey label))
    pure .handedChild
  | .refuse reason => do
    writeDecline
    pure (.refused (.policyRefused reason))

def serverExchange : Exchange ServerExchange := do
  let exchanged ← Fallible.attempt (nonceAndDocExchange ch)
  match exchanged with
  | .error _ => do
    writeDecline
    pure (.refused .protocol)
  | .ok (_, peerDoc) =>
    match evaluatePeer ch peerDoc with
    | .error reason => do
      writeDecline
      pure (.refused reason)
    | .ok verified =>
      handOver deriveChild ownKey
        (decideHandover inputs.own inputs.role verified.pcr0 inputs.ownKeyIsCandidate
          inputs.approvals)

/-! ### The client -/

structure AcceptInputs where
  kind : FetchKind
  ownPcr0 : Pcr0
  bakedAncestors : List Pcr0

/-- Read a grant frame: the tag and exactly one key. -/
def readGrant : List UInt8 → Option TransferKey
  | [] => none
  | tag :: rest => if tag = tagGrant then toFixed 32 rest else none

def clientExchange (inputs : AcceptInputs) : Exchange ClientExchange := do
  let (_, peerDoc) ← nonceAndDocExchange ch
  match evaluatePeer ch peerDoc with
  | .error reason => do
    let _ ← Fallible.attempt readFrame
    pure (.refused reason)
  | .ok verified => do
    let decision := clientAcceptsServer inputs.kind inputs.ownPcr0 verified.pcr0
      inputs.bakedAncestors
    let frame ← readFrame
    match readGrant frame with
    | none => pure (.refused .serverDeclined)
    | some key =>
      match decision with
      | .reject reason => pure (.refused (.clientRejected reason))
      | .accept => pure (.installed key)

/-! ### What is framed, and on what grounds -/

/-- The frames a side has read, in order. -/
def reads (t : Transcript ChannelAnswer) : List (List UInt8) :=
  t.filterMap fun
    | ⟨.read, answer⟩ => answer
    | _ => none

/-- The document the peer presented: the second frame read, after its nonce. -/
def presentedDoc (t : Transcript ChannelAnswer) : Option (List UInt8) := (reads t)[1]?

/-- The peer as this side verified it. -/
def verifiedPeer (t : Transcript ChannelAnswer) : Option VerifiedPeer :=
  (presentedDoc t).bind fun doc => (evaluatePeer ch doc).toOption

/-- The key a decision releases. -/
def released : KeyDecision → Option TransferKey
  | .ownKey => some ownKey
  | .child label => some (deriveChild ownKey label)
  | .refuse _ => none

variable {ch inputs deriveChild ownKey}
variable {t : Transcript ChannelAnswer} {q : ChannelQuery} {key : TransferKey}

@[simp] theorem runs_writeFrame {frame : Frame} :
    Fallible.Runs (writeFrame frame) t (.ok ()) ↔ t = [⟨.write frame, true⟩] := by
  rw [writeFrame, Fallible.runs_bind_ok]
  constructor
  · rintro ⟨t₁, t₂, written, rfl, hq, hw⟩
    cases written with
    | false => exact absurd hw Fallible.runs_throw_ok
    | true =>
      rw [Fallible.runs_query_ok.mp hq, (Fallible.runs_pure_ok.mp hw).1]
      rfl
  · rintro rfl
    exact ⟨[⟨.write frame, true⟩], [], true, rfl, Fallible.runs_query_ok.mpr rfl,
      Fallible.runs_pure_ok.mpr ⟨rfl, rfl⟩⟩

@[simp] theorem asks_writeFrame {frame : Frame} :
    Fallible.Asks (writeFrame frame) t q ↔ t = [] ∧ q = .write frame := by
  rw [writeFrame, Fallible.asks_bind, Fallible.asks_query]
  constructor
  · rintro (h | ⟨t₁, t₂, written, rfl, hq, hw⟩)
    · exact h
    · cases written with
      | false => exact absurd hw Fallible.asks_throw
      | true => exact absurd hw Fallible.asks_pure
  · exact .inl

theorem asks_writeDecline : Fallible.Asks writeDecline t q ↔ t = [] ∧ q = .write .decline := by
  rw [writeDecline, Fallible.asks_bind, Fallible.asks_query]
  constructor
  · rintro (h | ⟨t₁, t₂, written, rfl, hq, hw⟩)
    · exact h
    · exact absurd hw Fallible.asks_pure
  · exact .inl

theorem runs_readFrame {payload : List UInt8} :
    Fallible.Runs readFrame t (.ok payload) ↔
      t = [⟨.read, some payload⟩] ∧ payload.length ≤ maxFrame := by
  rw [readFrame, Fallible.runs_bind_ok]
  constructor
  · rintro ⟨t₁, t₂, got, rfl, hq, hrest⟩
    obtain ⟨t₃, t₄, p, rfl, hp, hsize⟩ := Fallible.runs_bind_ok.mp hrest
    obtain ⟨rfl, hgot⟩ := Fallible.runs_ofExcept_ok.mp hp
    rw [okOr_eq_ok] at hgot
    subst hgot
    split at hsize
    · exact absurd hsize Fallible.runs_throw_ok
    · rename_i hfits
      obtain ⟨rfl, rfl⟩ := Fallible.runs_pure_ok.mp hsize
      rw [Fallible.runs_query_ok.mp hq]
      exact ⟨rfl, Nat.le_of_not_lt hfits⟩
  · rintro ⟨rfl, hfits⟩
    refine ⟨[⟨.read, some payload⟩], [], some payload, rfl, Fallible.runs_query_ok.mpr rfl,
      Fallible.runs_bind_ok.mpr ⟨[], [], payload, rfl,
        Fallible.runs_ofExcept_ok.mpr ⟨rfl, rfl⟩, ?_⟩⟩
    rw [if_neg (Nat.not_lt.mpr hfits)]
    exact Fallible.runs_pure_ok.mpr ⟨rfl, rfl⟩

theorem asks_readFrame (h : Fallible.Asks readFrame t q) : q = .read := by
  rw [readFrame, Fallible.asks_bind, Fallible.asks_query] at h
  obtain ⟨-, rfl⟩ | ⟨t₁, t₂, got, rfl, hq, h⟩ := h
  · rfl
  · obtain h | ⟨t₃, t₄, p, rfl, hp, h⟩ := Fallible.asks_bind.mp h
    · exact absurd h Fallible.asks_ofExcept
    · split at h
      · exact absurd h Fallible.asks_throw
      · exact absurd h Fallible.asks_pure

theorem reads_append (t u : Transcript ChannelAnswer) : reads (t ++ u) = reads t ++ reads u :=
  List.filterMap_append

/-- The transcript of a first phase in which everything arrives. -/
def fullExchange (ch : Channel) (peerNonce : Bytes 32) (myDoc peerDoc : List UInt8) :
    Transcript ChannelAnswer :=
  [⟨.write (.nonce ch.myNonce), true⟩, ⟨.read, some peerNonce.val⟩,
    ⟨.attest peerNonce ch.myPoint, some myDoc⟩, ⟨.write (.document myDoc), true⟩,
    ⟨.read, some peerDoc⟩]

/-- A first phase that succeeds is one in which everything arrived. -/
theorem nonceAndDocExchange_ok {peerNonce : Bytes 32} {peerDoc : List UInt8}
    (h : Fallible.Runs (nonceAndDocExchange ch) t (.ok (peerNonce, peerDoc))) :
    ∃ myDoc, t = fullExchange ch peerNonce myDoc peerDoc ∧ peerDoc.length ≤ maxFrame := by
  rw [nonceAndDocExchange, Fallible.runs_bind_ok] at h
  obtain ⟨_, _, _, rfl, hwrite, h⟩ := h
  obtain ⟨_, _, nonceBytes, rfl, hread, h⟩ := Fallible.runs_bind_ok.mp h
  obtain ⟨_, _, nonce, rfl, hfixed, h⟩ := Fallible.runs_bind_ok.mp h
  obtain ⟨_, _, attested, rfl, hattest, h⟩ := Fallible.runs_bind_ok.mp h
  obtain ⟨_, _, myDoc, rfl, hdoc, h⟩ := Fallible.runs_bind_ok.mp h
  obtain ⟨_, _, _, rfl, hwrite', h⟩ := Fallible.runs_bind_ok.mp h
  obtain ⟨_, _, _, rfl, hread', h⟩ := Fallible.runs_bind_ok.mp h
  obtain ⟨rfl, hret⟩ := Fallible.runs_pure_ok.mp h
  cases hret
  obtain ⟨rfl, hnonce⟩ := Fallible.runs_ofExcept_ok.mp hfixed
  obtain ⟨rfl, hsome⟩ := Fallible.runs_ofExcept_ok.mp hdoc
  obtain ⟨rfl, hsize⟩ := runs_readFrame.mp hread'
  rw [runs_writeFrame.mp hwrite, (runs_readFrame.mp hread).1, Fallible.runs_query_ok.mp hattest,
    runs_writeFrame.mp hwrite', okOr_eq_ok.mp hsome,
    ← toFixed_eq_some.mp (okOr_eq_ok.mp hnonce)]
  exact ⟨myDoc, rfl, hsize⟩

/-- No key is framed before the documents are exchanged. -/
theorem nonceAndDocExchange_asks (h : Fallible.Asks (nonceAndDocExchange ch) t q) :
    q ≠ .write (.grant key) := by
  rintro rfl
  rw [nonceAndDocExchange] at h
  obtain h | ⟨_, _, _, rfl, -, h⟩ := Fallible.asks_bind.mp h
  · cases (asks_writeFrame.mp h).2
  obtain h | ⟨_, _, _, rfl, -, h⟩ := Fallible.asks_bind.mp h
  · cases asks_readFrame h
  obtain h | ⟨_, _, _, rfl, -, h⟩ := Fallible.asks_bind.mp h
  · exact Fallible.asks_ofExcept h
  obtain h | ⟨_, _, _, rfl, -, h⟩ := Fallible.asks_bind.mp h
  · cases (Fallible.asks_query.mp h).2
  obtain h | ⟨_, _, _, rfl, -, h⟩ := Fallible.asks_bind.mp h
  · exact Fallible.asks_ofExcept h
  obtain h | ⟨_, _, _, rfl, -, h⟩ := Fallible.asks_bind.mp h
  · cases (asks_writeFrame.mp h).2
  obtain h | ⟨_, _, _, rfl, -, h⟩ := Fallible.asks_bind.mp h
  · cases asks_readFrame h
  · exact Fallible.asks_pure h

/-- A decline writes no key. -/
theorem decline_asks {outcome : ServerExchange} :
    ¬ Fallible.Asks (do writeDecline; pure outcome) t (.write (.grant key)) := by
  intro h
  obtain h | ⟨_, _, _, rfl, -, h⟩ := Fallible.asks_bind.mp h
  · cases (asks_writeDecline.mp h).2
  · exact Fallible.asks_pure h

/-- Framing a key writes that key and nothing before it. -/
theorem grant_asks {framed : TransferKey} {outcome : ServerExchange} :
    Fallible.Asks (do writeFrame (.grant framed); pure outcome) t (.write (.grant key)) ↔
      t = [] ∧ framed = key := by
  rw [Fallible.asks_bind, asks_writeFrame]
  constructor
  · rintro (⟨ht, hq⟩ | ⟨_, _, _, rfl, -, h⟩)
    · cases hq
      exact ⟨ht, rfl⟩
    · exact absurd h Fallible.asks_pure
  · rintro ⟨rfl, rfl⟩
    exact .inl ⟨rfl, rfl⟩

theorem handOver_asks {decision : KeyDecision}
    (h : Fallible.Asks (handOver deriveChild ownKey decision) t (.write (.grant key))) :
    t = [] ∧ released deriveChild ownKey decision = some key := by
  cases decision with
  | ownKey =>
    obtain ⟨ht, rfl⟩ := grant_asks.mp h
    exact ⟨ht, rfl⟩
  | child label =>
    obtain ⟨ht, rfl⟩ := grant_asks.mp h
    exact ⟨ht, rfl⟩
  | refuse reason => exact absurd h decline_asks

/-- A key is framed only after a first phase in which everything arrived, to a peer whose
document passed, and it is the one the decision about that peer releases. -/
theorem serverExchange_grant_after
    (h : Fallible.Asks (serverExchange ch inputs deriveChild ownKey) t (.write (.grant key))) :
    ∃ peerNonce myDoc peerDoc peer, t = fullExchange ch peerNonce myDoc peerDoc ∧
      peerDoc.length ≤ maxFrame ∧ evaluatePeer ch peerDoc = .ok peer ∧
      released deriveChild ownKey (decideHandover inputs.own inputs.role peer.pcr0
        inputs.ownKeyIsCandidate inputs.approvals) = some key := by
  rw [serverExchange] at h
  obtain h | ⟨t₁, t₂, exchanged, rfl, hrun, h⟩ := Fallible.asks_bind.mp h
  · exact absurd rfl (nonceAndDocExchange_asks (Fallible.asks_attempt.mp h))
  · rw [Fallible.runs_attempt_ok] at hrun
    cases exchanged with
    | error fault => exact absurd h decline_asks
    | ok exchanged =>
      obtain ⟨peerNonce, peerDoc⟩ := exchanged
      dsimp only at h
      cases heval : evaluatePeer ch peerDoc with
      | error reason =>
        rw [heval] at h
        exact absurd h decline_asks
      | ok peer =>
        rw [heval] at h
        obtain ⟨rfl, hkey⟩ := handOver_asks h
        obtain ⟨myDoc, rfl, hsize⟩ := nonceAndDocExchange_ok hrun
        exact ⟨peerNonce, myDoc, peerDoc, peer, List.append_nil _, hsize, heval, hkey⟩

/-- A key is framed only to a verified peer, and it is the one the decision about that peer
releases. -/
theorem serverExchange_grant
    (h : Fallible.Asks (serverExchange ch inputs deriveChild ownKey) t (.write (.grant key))) :
    ∃ peer, verifiedPeer ch t = some peer ∧
      released deriveChild ownKey (decideHandover inputs.own inputs.role peer.pcr0
        inputs.ownKeyIsCandidate inputs.approvals) = some key := by
  obtain ⟨peerNonce, myDoc, peerDoc, peer, rfl, -, heval, hkey⟩ := serverExchange_grant_after h
  refine ⟨peer, ?_, hkey⟩
  change (evaluatePeer ch peerDoc).toOption = some peer
  rw [heval]
  rfl

theorem readGrant_eq_some {frame : List UInt8} (h : readGrant frame = some key) :
    frame = (Frame.grant key).payload := by
  cases frame with
  | nil => cases h
  | cons tag rest =>
    rw [readGrant] at h
    split at h
    · rename_i htag
      rw [htag, ← toFixed_eq_some.mp h]
      rfl
    · cases h

/-- A client installs only after a first phase in which everything arrived, from a server whose
document passed and was accepted, and only the key of the next frame. -/
theorem clientExchange_installed_after {accepts : AcceptInputs}
    (h : Fallible.Runs (clientExchange ch accepts) t (.ok (.installed key))) :
    ∃ peerNonce myDoc peerDoc peer,
      t = fullExchange ch peerNonce myDoc peerDoc ++
        [⟨.read, some (Frame.grant key).payload⟩] ∧
      peerDoc.length ≤ maxFrame ∧ evaluatePeer ch peerDoc = .ok peer ∧
      clientAcceptsServer accepts.kind accepts.ownPcr0 peer.pcr0 accepts.bakedAncestors =
        .accept := by
  obtain ⟨t₁, t₂, ⟨peerNonce, peerDoc⟩, rfl, hfirst, rest₁⟩ := Fallible.runs_bind_ok.mp h
  obtain ⟨myDoc, rfl, hsize⟩ := nonceAndDocExchange_ok hfirst
  dsimp only at rest₁
  cases heval : evaluatePeer ch peerDoc with
  | error reason =>
    rw [heval] at rest₁
    obtain ⟨_, _, _, rfl, -, hret⟩ := Fallible.runs_bind_ok.mp rest₁
    cases (Fallible.runs_pure_ok.mp hret).2
  | ok peer =>
    rw [heval] at rest₁
    obtain ⟨t₃, t₄, frame, rfl, hframe, rest₂⟩ := Fallible.runs_bind_ok.mp rest₁
    cases hgrant : readGrant frame with
    | none =>
      rw [hgrant] at rest₂
      cases (Fallible.runs_pure_ok.mp rest₂).2
    | some granted =>
      rw [hgrant] at rest₂
      dsimp only at rest₂
      cases hdecision : clientAcceptsServer accepts.kind accepts.ownPcr0 peer.pcr0
          accepts.bakedAncestors with
      | reject reason =>
        rw [hdecision] at rest₂
        cases (Fallible.runs_pure_ok.mp rest₂).2
      | accept =>
        rw [hdecision] at rest₂
        obtain ⟨rfl, hkey⟩ := Fallible.runs_pure_ok.mp rest₂
        cases hkey
        refine ⟨peerNonce, myDoc, peerDoc, peer, ?_, hsize, heval, hdecision⟩
        rw [List.append_nil, (runs_readFrame.mp hframe).1, readGrant_eq_some hgrant]

/-- A client installs only what a verified and accepted server granted. -/
theorem clientExchange_installed {accepts : AcceptInputs}
    (h : Fallible.Runs (clientExchange ch accepts) t (.ok (.installed key))) :
    ∃ peer, verifiedPeer ch t = some peer ∧
      clientAcceptsServer accepts.kind accepts.ownPcr0 peer.pcr0 accepts.bakedAncestors =
        .accept ∧
      (reads t)[2]? = some (Frame.grant key).payload := by
  obtain ⟨peerNonce, myDoc, peerDoc, peer, rfl, -, heval, haccept⟩ :=
    clientExchange_installed_after h
  refine ⟨peer, ?_, haccept, rfl⟩
  change (evaluatePeer ch peerDoc).toOption = some peer
  rw [heval]
  rfl

theorem nonceAndDocExchange_runs (peerNonce : Bytes 32) (myDoc : List UInt8)
    {peerDoc : List UInt8} (hfits : peerDoc.length ≤ maxFrame) :
    Fallible.Runs (nonceAndDocExchange ch) (fullExchange ch peerNonce myDoc peerDoc)
      (.ok (peerNonce, peerDoc)) := by
  have hnonce : peerNonce.val.length ≤ maxFrame := by
    rw [peerNonce.property]
    decide
  refine Fallible.runs_bind_ok.mpr ⟨[_], _, (), rfl, runs_writeFrame.mpr rfl, ?_⟩
  refine Fallible.runs_bind_ok.mpr ⟨[_], _, _, rfl, runs_readFrame.mpr ⟨rfl, hnonce⟩, ?_⟩
  refine Fallible.runs_bind_ok.mpr ⟨[], _, peerNonce, rfl, Fallible.runs_ofExcept_ok.mpr
    ⟨rfl, okOr_eq_ok.mpr (toFixed_eq_some.mpr rfl)⟩, ?_⟩
  refine Fallible.runs_bind_ok.mpr ⟨[_], _, some myDoc, rfl, Fallible.runs_query_ok.mpr rfl, ?_⟩
  refine Fallible.runs_bind_ok.mpr ⟨[], _, myDoc, rfl,
    Fallible.runs_ofExcept_ok.mpr ⟨rfl, rfl⟩, ?_⟩
  refine Fallible.runs_bind_ok.mpr ⟨[_], _, (), rfl, runs_writeFrame.mpr rfl, ?_⟩
  refine Fallible.runs_bind_ok.mpr ⟨[_], [], peerDoc, rfl, runs_readFrame.mpr ⟨rfl, hfits⟩, ?_⟩
  exact Fallible.runs_pure_ok.mpr ⟨rfl, rfl⟩

theorem handOver_grants {decision : KeyDecision}
    (h : released deriveChild ownKey decision = some key) :
    Fallible.Asks (handOver deriveChild ownKey decision) [] (.write (.grant key)) := by
  cases decision with
  | ownKey => exact grant_asks.mpr ⟨rfl, Option.some.inj h⟩
  | child label => exact grant_asks.mpr ⟨rfl, Option.some.inj h⟩
  | refuse reason => cases h

/-- Conversely, a peer that verifies and is granted a key has it framed. -/
theorem serverExchange_frames (peerNonce : Bytes 32) (myDoc : List UInt8) {peerDoc : List UInt8}
    {peer : VerifiedPeer} (hfits : peerDoc.length ≤ maxFrame)
    (heval : evaluatePeer ch peerDoc = .ok peer)
    (hkey : released deriveChild ownKey (decideHandover inputs.own inputs.role peer.pcr0
      inputs.ownKeyIsCandidate inputs.approvals) = some key) :
    Fallible.Asks (serverExchange ch inputs deriveChild ownKey)
      (fullExchange ch peerNonce myDoc peerDoc) (.write (.grant key)) := by
  refine Fallible.asks_bind.mpr (.inr ⟨_, [], .ok (peerNonce, peerDoc),
    (List.append_nil _).symm, ?_, ?_⟩)
  · exact Fallible.runs_attempt_ok.mpr (nonceAndDocExchange_runs peerNonce myDoc hfits)
  · dsimp only
    rw [heval]
    exact handOver_grants hkey

end Nuntius.AttestedExchange
