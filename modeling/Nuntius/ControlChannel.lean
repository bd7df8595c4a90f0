import Nuntius.OwnerApprovals

/-!
# The oracle's key state and its control channel

The state behind the lock holds the boot progress, the installed root key, the accepted
approvals and the peer hints. A control request reads or changes it once, under the lock.
What a request learns from outside, the NSM clock, the live quorum and an attestation
document, comes with it as its surroundings.
-/

namespace Nuntius.ControlChannel
open WireFormat HandoverPolicy OwnerApprovals DistinctLists

abbrev Key := Bytes 32

inductive BootState where
  | ready
  | fetching
  | waitingRegistration
deriving DecidableEq, Repr

inductive KeySource where
  | peer
  | genesis
deriving DecidableEq, Repr

/-- What the image carries: its identity, its baked configuration and the functions it
takes from libraries. -/
structure OracleImage where
  pcr0 : Pcr0
  version : ℕ
  owners : List Address
  threshold : ℕ
  chainId : ℕ
  registry : Address
  peers : List String
  scheme : SignatureScheme
  parseAddress : List Char → Option Address
  normalizePeer : String → Option String
  deriveChild : Key → ChildLabel → Key
  addressFromKey : Key → Address
  publicPoint : Key → List UInt8
  debugOwners : List Address → String

def OracleImage.identity (img : OracleImage) : ImageIdentity := ⟨img.pcr0, img.version⟩

/-! ### The state -/

structure OracleKeyexState where
  bootState : BootState
  source : KeySource
  signerAddr : Option Address
  signerPubkey : Option (List UInt8)
  rootKey : Option Key
  approvals : List VerifiedApproval
  oraclePeers : List String
deriving DecidableEq

def maxBootPeers : ℕ := 16

/-- The loop over the peers: unreadable and repeated ones are skipped, and it stops at the
bound. -/
def boundedPeersFrom (normalizePeer : String → Option String) :
    List String → List String → List String
  | out, [] => out
  | out, p :: ps =>
    match normalizePeer p with
    | none => boundedPeersFrom normalizePeer out ps
    | some q =>
      if q ∈ out then boundedPeersFrom normalizePeer out ps
      else if (out ++ [q]).length = maxBootPeers then out ++ [q]
      else boundedPeersFrom normalizePeer (out ++ [q]) ps

def boundedPeers (normalizePeer : String → Option String) (peers : List String) : List String :=
  boundedPeersFrom normalizePeer [] peers

namespace OracleKeyexState

def new : OracleKeyexState where
  bootState := .fetching
  source := .genesis
  signerAddr := none
  signerPubkey := none
  rootKey := none
  approvals := []
  oraclePeers := []

def publishCandidate (st : OracleKeyexState) (addr : Address) (pubkey : List UInt8) :
    OracleKeyexState :=
  { st with
    signerAddr := some addr
    signerPubkey := some pubkey
    source := .genesis
    bootState := .waitingRegistration }

def installKey (st : OracleKeyexState) (rootBytes : Key) (addr : Address)
    (pubkey : List UInt8) (source : KeySource) : OracleKeyexState :=
  { st with
    rootKey := some rootBytes
    signerAddr := some addr
    signerPubkey := some pubkey
    source := source
    bootState := .ready }

def addApproval (st : OracleKeyexState) (va : VerifiedApproval) : OracleKeyexState :=
  { st with approvals := pushNew st.approvals va }

def setPeerHints (img : OracleImage) (st : OracleKeyexState) (oraclePeers : List String) :
    OracleKeyexState :=
  { st with oraclePeers := boundedPeers img.normalizePeer oraclePeers }

def peerSnapshot (img : OracleImage) (st : OracleKeyexState) : List String :=
  boundedPeers img.normalizePeer (img.peers ++ st.oraclePeers)

end OracleKeyexState

/-! ### Reading an approval -/

def domainName : String := "Kaskad Keyex"
def domainVersion : String := "1"

def parseU64Flexible : Option Json → Except String ℕ
  | some (.num n) => okOr (Json.asU64 n) "number is not a u64"
  | some (.str s) =>
    match strip0x (trim s.toList) with
    | some hexpart => okOr (fromStrRadix 16 hexpart) "bad hex u64"
    | none => okOr (fromStrRadix 10 (trim s.toList)) "bad decimal u64"
  | _ => .error "missing or non-numeric field"

def parseU8Flexible (v : Option Json) : Except String ℕ := do
  let n ← parseU64Flexible v
  if n < 256 then .ok n else .error "value out of u8 range"

def parseHexBytes (n : ℕ) (v : Option Json) : Except String (Bytes n) := do
  let s ← okOr (v.bind Json.asStr) "missing hex field"
  let bytes ← okOr (hexDecode (trimStart0x (trim s.toList))) "field is not hex"
  okOr (toFixed n bytes) s!"field is not {n} bytes"

/-- The domain has to be the baked one. -/
def checkDomain (domain : Json) (expectedChainId : ℕ) : Except String Unit := do
  if (domain.get "name").bind Json.asStr ≠ some domainName then
    .error "approval domain name mismatch"
  else if (domain.get "version").bind Json.asStr ≠ some domainVersion then
    .error "approval domain version mismatch"
  else do
    let cid ← parseU64Flexible (domain.get "chainId")
    if cid ≠ expectedChainId then
      .error s!"approval chainId {cid} != baked {expectedChainId}"
    else .ok ()

def parseMessage (msg : Json) (expectedChainId : ℕ) : Except String ApprovalRequest := do
  let pcr0 ← parseHexBytes 48 (msg.get "pcr0")
  let version ← parseU64Flexible (msg.get "version")
  let modeU8 ← parseU8Flexible (msg.get "mode")
  let mode ← okOr (ApprovalMode.tryFrom modeU8) s!"invalid approval mode {modeU8}"
  let label ← parseHexBytes 32 (msg.get "label")
  let roleU8 ← parseU8Flexible (msg.get "role")
  let role ← okOr (EnclaveRole.tryFrom roleU8) s!"invalid approval role {roleU8}"
  let expiry ← parseU64Flexible (msg.get "expiry")
  let nonce ← parseHexBytes 32 (msg.get "nonce")
  .ok
    { pcr0 := pcr0, version := version, mode := mode, label := label, role := role,
      expiry := expiry, nonce := nonce, chainId := expectedChainId }

def parseApprovalRequest (td : Json) (expectedChainId : ℕ) : Except String ApprovalRequest := do
  let domain ← okOr (td.get "domain") "typedData has no domain"
  checkDomain domain expectedChainId
  let msg ← okOr (td.get "message") "typedData has no message"
  parseMessage msg expectedChainId

/-- Signatures that are not 65 bytes of hexadecimal are dropped. -/
def decodeSignatures (sigsHex : List String) : List (Bytes 65) :=
  sigsHex.filterMap fun s =>
    let t := trim s.toList
    (hexDecode ((strip0x t).getD t)).bind (toFixed 65)

variable (img : OracleImage)

/-- An approval that names this image has to name its version. -/
def checkOwnVersion (req : ApprovalRequest) : Except String Unit :=
  if req.pcr0 = img.pcr0 ∧ ¬ approvalVersionMatchesNewImage req.version img.version = true then
    .error (s!"approval names own pcr0 at version {req.version} " ++
      s!"but this image is version {img.version}")
  else .ok ()

def processApproval (td : Json) (sigsHex : List String) (owners : List Address)
    (threshold nowUnixSecs : ℕ) : Except String VerifiedApproval := do
  let req ← parseApprovalRequest td img.chainId
  checkOwnVersion img req
  match verifyApprovals img.scheme req (decodeSignatures sigsHex) owners threshold
      nowUnixSecs with
  | .error e => .error (e.message img.debugOwners)
  | .ok () => .ok (VerifiedApproval.fromRequest req)

/-- A failed live reading is a refusal, never a fallback to the baked ceiling. -/
def resolveQuorum (live : Except String (List Address × ℕ)) :
    Except String (List Address × ℕ) := do
  let (liveOwners, liveThreshold) ← live
  match effectiveQuorum img.owners img.threshold liveOwners liveThreshold with
  | .error e => .error e.message
  | .ok quorum => .ok quorum

/-! ### Requests -/

inductive OracleRequest where
  | configure (registry : String) (rhRpcs oraclePeers : List String)
  | approval (typedData : Json) (signatures : List String)
  | getAttestation (nonce : Option String)
  | keyexHealth

inductive Reply where
  | ack (ok : Bool)
  | approvalResult (accepted : Bool) (reason : Option String)
  | attestation (doc : List UInt8) (signer : Address) (pcr0 : Pcr0)
  | health (state : BootState) (source : KeySource) (signer : Option Address) (version : ℕ)
      (pcr0 : Pcr0)
  | error (code : String)
deriving DecidableEq

/-- The security module, when it can be opened: its clock and its attestations. -/
structure Nsm where
  nowUnixSecs : Option ℕ
  attestation : Option (List UInt8) → List UInt8 → Option (List UInt8)

/-- What a request meets outside the state. -/
structure Surroundings where
  nsm : Option Nsm
  liveQuorum : Except String (List Address × ℕ)

def Surroundings.clock (env : Surroundings) : Option ℕ := env.nsm.bind Nsm.nowUnixSecs

variable (env : Surroundings) (st : OracleKeyexState)

def approvalReply (typedData : Json) (signatures : List String) (now : ℕ) :
    Reply × OracleKeyexState :=
  match resolveQuorum img env.liveQuorum with
  | .error reason => (.approvalResult false (some reason), st)
  | .ok (owners, threshold) =>
    match processApproval img typedData signatures owners threshold now with
    | .ok va => (.approvalResult true none, st.addApproval va)
    | .error reason => (.approvalResult false (some reason), st)

def attestationReply (nonce : Option String) : Reply :=
  match st.signerPubkey, st.signerAddr with
  | some pubkey, some addr =>
    match nonce.map (fun s => hexDecode (trimStart0x (trim s.toList))) with
    | some none => .error "bad_nonce"
    | nonceBytes =>
      match env.nsm with
      | none => .error "nsm_unavailable"
      | some nsm =>
        match nsm.attestation nonceBytes.join pubkey with
        | some doc => .attestation doc addr img.pcr0
        | none => .error "attestation_failed"
  | _, _ => .error "not_ready"

def healthReply : Reply := .health st.bootState st.source st.signerAddr img.version img.pcr0

def handleOracleRequest : OracleRequest → Reply × OracleKeyexState
  | .configure registry _ oraclePeers =>
    if img.parseAddress (trim registry.toList) = some img.registry then
      (.ack true, st.setPeerHints img oraclePeers)
    else (.ack false, st)
  | .approval typedData signatures =>
    match env.clock with
    | some now => approvalReply img env st typedData signatures now
    | none => (.approvalResult false (some "nsm_clock_unavailable"), st)
  | .getAttestation nonce => (attestationReply img env st nonce, st)
  | .keyexHealth => (healthReply img st, st)

/-- One connection; a body that is no request changes nothing. -/
def handleControlConnection : Option OracleRequest → Reply × OracleKeyexState
  | some req => handleOracleRequest img env st req
  | none => (.error "bad_request", st)

/-! ### What a request can do -/

variable {img env st}

theorem parseMessage_chainId {msg : Json} {chainId : ℕ} {req : ApprovalRequest}
    (h : parseMessage msg chainId = .ok req) : req.chainId = chainId := by
  simp only [parseMessage, bind_eq_ok] at h
  obtain ⟨_, _, _, _, _, _, _, _, _, _, _, _, _, _, _, _, _, _, h⟩ := h
  cases h
  rfl

/-- The chain of an accepted request is the baked one. -/
theorem parseApprovalRequest_chainId {td : Json} {chainId : ℕ} {req : ApprovalRequest}
    (h : parseApprovalRequest td chainId = .ok req) : req.chainId = chainId := by
  simp only [parseApprovalRequest, bind_eq_ok] at h
  obtain ⟨_, _, _, _, _, _, h⟩ := h
  exact parseMessage_chainId h

theorem processApproval_ok {td : Json} {sigsHex : List String} {owners : List Address}
    {threshold now : ℕ} {va : VerifiedApproval}
    (h : processApproval img td sigsHex owners threshold now = .ok va) :
    ∃ req, parseApprovalRequest td img.chainId = .ok req ∧
      verifyApprovals img.scheme req (decodeSignatures sigsHex) owners threshold now = .ok () ∧
      va = VerifiedApproval.fromRequest req := by
  simp only [processApproval, bind_eq_ok] at h
  obtain ⟨req, hparse, _, _, h⟩ := h
  split at h
  · cases h
  · rename_i hverify
    cases h
    exact ⟨req, hparse, hverify, rfl⟩

theorem resolveQuorum_ok {live : Except String (List Address × ℕ)} {owners : List Address}
    {threshold : ℕ} (h : resolveQuorum img live = .ok (owners, threshold)) :
    ∃ liveOwners liveThreshold, live = .ok (liveOwners, liveThreshold) ∧
      effectiveQuorum img.owners img.threshold liveOwners liveThreshold =
        .ok (owners, threshold) := by
  simp only [resolveQuorum, bind_eq_ok] at h
  obtain ⟨⟨liveOwners, liveThreshold⟩, hlive, h⟩ := h
  dsimp only at h
  split at h
  · cases h
  · rename_i hquorum
    cases h
    exact ⟨liveOwners, liveThreshold, hlive, hquorum⟩

/-- The request `typedData` with its signatures was good enough in its surroundings to be
stored as `va`: it reads as an approval on the baked chain, signed by a quorum in time. -/
structure AcceptedAs (img : OracleImage) (env : Surroundings) (typedData : Json)
    (signatures : List String) (va : VerifiedApproval) : Prop where
  evidence : ∃ req now liveOwners liveThreshold,
    parseApprovalRequest typedData img.chainId = .ok req ∧ req.chainId = img.chainId ∧
    va = VerifiedApproval.fromRequest req ∧ env.clock = some now ∧
    env.liveQuorum = .ok (liveOwners, liveThreshold) ∧
    QuorumSigned img.scheme req (decodeSignatures signatures) img.owners img.threshold
      liveOwners liveThreshold now

/-- Everything an approval request can do: nothing, or store what it was accepted as. -/
theorem approval_cases (typedData : Json) (signatures : List String) :
    (∃ reason, handleOracleRequest img env st (.approval typedData signatures) =
      (.approvalResult false (some reason), st)) ∨
    ∃ va, handleOracleRequest img env st (.approval typedData signatures) =
      (.approvalResult true none, st.addApproval va) ∧
      AcceptedAs img env typedData signatures va := by
  simp only [handleOracleRequest]
  cases hclock : env.clock with
  | none => exact .inl ⟨_, rfl⟩
  | some now =>
    simp only [approvalReply]
    cases hquorum : resolveQuorum img env.liveQuorum with
    | error reason => exact .inl ⟨reason, rfl⟩
    | ok quorum =>
      obtain ⟨owners, threshold⟩ := quorum
      dsimp only
      cases hva : processApproval img typedData signatures owners threshold now with
      | error reason => exact .inl ⟨reason, rfl⟩
      | ok va =>
        obtain ⟨req, hparse, hverify, rfl⟩ := processApproval_ok hva
        obtain ⟨liveOwners, liveThreshold, hlive, heff⟩ := resolveQuorum_ok hquorum
        exact .inr ⟨_, rfl, req, now, liveOwners, liveThreshold, hparse,
          parseApprovalRequest_chainId hparse, rfl, hclock, hlive,
          quorumSigned_of_verified heff hverify⟩

variable (img env st) in
/-- Everything a connection can do to the state: nothing, new peer hints, or one accepted
approval. -/
theorem handleControlConnection_cases (body : Option OracleRequest) :
    (handleControlConnection img env st body).2 = st ∨
    (∃ hints, (handleControlConnection img env st body).2 = st.setPeerHints img hints) ∨
    ∃ typedData signatures va, body = some (.approval typedData signatures) ∧
      handleControlConnection img env st body =
        (.approvalResult true none, st.addApproval va) ∧
      AcceptedAs img env typedData signatures va := by
  cases body with
  | none => exact .inl rfl
  | some req =>
    cases req with
    | configure registry rhRpcs oraclePeers =>
      simp only [handleControlConnection, handleOracleRequest]
      split
      · exact .inr (.inl ⟨oraclePeers, rfl⟩)
      · exact .inl rfl
    | approval typedData signatures =>
      obtain ⟨reason, h⟩ | ⟨va, h, accepted⟩ := approval_cases typedData signatures
      · exact .inl (congrArg Prod.snd h)
      · exact .inr (.inr ⟨typedData, signatures, va, rfl, h, accepted⟩)
    | getAttestation nonce => exact .inl rfl
    | keyexHealth => exact .inl rfl

end Nuntius.ControlChannel
