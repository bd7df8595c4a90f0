import Nuntius.ApprovalText
import Nuntius.ClaimFlow
import Nuntius.HandoverSafety
import Nuntius.SignedUpdates
import Nuntius.TypedData

/-!
# What a signature is a signature of

Three kinds of messages are signed in this system: prices under the Ethereum prefix, owner
approvals and bridge claims as typed records under two different domains. The digests keep the
kinds and all fields apart, so what one key signed as one message never counts as another.

With it the quorum checks of the oracle reach back to the owners: a key handed over to another
image was handed over on an approval that a quorum of owners signed, field by field.
-/

namespace Nuntius.SignedMessages
open WireFormat HandoverPolicy OwnerApprovals ControlChannel ClaimFlow BootRules SignedUpdates
open TypedData OracleRuns AttestedExchange InteractivePrograms

/-! ### Digests -/

/-- `Eip712Domain` without a salt. -/
def eip712Domain (name version : String) (chainId : ℕ) (verifyingContract : Option Address) :
    Record where
  name := "EIP712Domain"
  members := [("name", .string name), ("version", .string version), ("chainId", .uint 256 chainId)]
    ++ (verifyingContract.map fun entry => ("verifyingContract", Member.address entry)).toList

def approvalDomain (chainId : ℕ) : Record := eip712Domain "Kaskad Keyex" "1" chainId none

def approvalRecord (req : ApprovalRequest) : Record where
  name := "Approval"
  members :=
    [("pcr0", .bytes req.pcr0.val), ("version", .uint 64 req.version),
      ("mode", .uint 8 req.mode.toU8), ("label", .bytes32 req.label),
      ("role", .uint 8 req.role.toU8), ("expiry", .uint 64 req.expiry),
      ("nonce", .bytes32 req.nonce)]

def claimDomain (chainId : ℕ) (entry : Address) : Record :=
  eip712Domain "Pontifex" "1" chainId (some entry)

def claimRecord (req : ClaimRequest) : Record where
  name := "Claim"
  members :=
    [("recipient", .address req.recipient), ("cumulativeBurned", .uint 256 req.cumulativeBurned),
      ("deadline", .uint 256 req.deadline)]

section Digests
variable {keccak256 : List UInt8 → Bytes 32} (sol : SolTypes keccak256)

def approvalDigest (req : ApprovalRequest) : Bytes 32 :=
  sol.eip712SigningHash (approvalDomain req.chainId) (approvalRecord req)

def claimDigest (req : ClaimRequest) : Bytes 32 :=
  sol.eip712SigningHash (claimDomain req.chainId req.entry) (claimRecord req)

end Digests

/-! ### Signatures -/

/-- What the code takes from `k256`: signatures with their normal form, recovery of the public
point for a recovery id of zero or one, and signing. `display` is the text of an address. -/
structure Secp256k1 (σ : Type) where
  fromSlice : Bytes 64 → Except String σ
  toBytes : σ → Bytes 64
  highS : σ → Bool
  recoverFromPrehash : Bytes 32 → σ → Bool → Except String (Bytes 65)
  signPrehashRecoverable : SigningKey → Bytes 32 → Except String (σ × UInt8)
  verifyingKey : SigningKey → Bytes 65
  display : Address → String

section Signatures
variable {σ : Type} (curve : Secp256k1 σ) (keccak256 : List UInt8 → Bytes 32)

/-- The last 20 bytes of the hash of the point without its tag. -/
def addressFromKey (point : Bytes 65) : Address :=
  ⟨(keccak256 (point.val.drop 1)).val.drop 12, by rw [List.length_drop, (keccak256 _).property]⟩

def recoveryId : UInt8 → Option Bool
  | 27 => some false
  | 28 => some true
  | _ => none

def sigBody (sig : Bytes 65) : Bytes 64 :=
  ⟨sig.val.take 64, by rw [List.length_take, sig.property]; rfl⟩

def sigV (sig : Bytes 65) : UInt8 := sig.val.getD 64 0

def sigBytes (body : Bytes 64) (v : UInt8) : Bytes 65 :=
  ⟨body.val ++ [v], by rw [List.length_append, body.property]; rfl⟩

def recover (digest : Bytes 32) (sig : Bytes 65) : Except String Address :=
  match curve.fromSlice (sigBody sig) with
  | .error e => .error ("bad signature bytes: " ++ e)
  | .ok signature =>
    if curve.highS signature then .error "high-s signature rejected (EIP-2)"
    else
      match recoveryId (sigV sig) with
      | none =>
        .error s!"non-canonical recovery id: {(sigV sig).toNat} (expected 27 or 28)"
      | some rec =>
        match curve.recoverFromPrehash digest signature rec with
        | .error e => .error ("recovery failed: " ++ e)
        | .ok point => .ok (addressFromKey keccak256 point)

/-- The signature is read back before it is handed out. -/
def signRecoverable (sk : SigningKey) (digest : Bytes 32) : Except String (Bytes 65) :=
  match curve.signPrehashRecoverable sk digest with
  | .error e => .error ("signing failed: " ++ e)
  | .ok (sig, rec) =>
    if curve.highS sig then .error "signer emitted high-s (EIP-2 violation)"
    else
      let out := sigBytes (curve.toBytes sig) (27 + rec)
      match recover curve keccak256 digest out with
      | .error e => .error ("signing self-check recover failed: " ++ e)
      | .ok got =>
        let expect := addressFromKey keccak256 (curve.verifyingKey sk)
        if got ≠ expect then
          .error ("signing self-check failed: recovered " ++ curve.display got ++ " != signer " ++
            curve.display expect)
        else .ok out

theorem signRecoverable_ok {sk : SigningKey} {digest : Bytes 32} {sig : Bytes 65}
    (h : signRecoverable curve keccak256 sk digest = .ok sig) :
    recover curve keccak256 digest sig =
      .ok (addressFromKey keccak256 (curve.verifyingKey sk)) := by
  unfold signRecoverable at h
  split at h
  · cases h
  · split at h
    · cases h
    · dsimp only at h
      split at h
      · cases h
      · rename_i got hrecover
        split at h
        · cases h
        · rename_i hgot
          cases h
          rw [hrecover, not_not.mp hgot]

variable {keccak256} in
/-- The approval check of the keyex crate. -/
def keyexScheme (sol : SolTypes keccak256) : SignatureScheme where
  approvalDigest := approvalDigest sol
  recover digest sig := (recover curve keccak256 digest sig).toOption

end Signatures

/-! ### The messages -/

inductive Message where
  | price (fields : PriceFields)
  | approval (req : ApprovalRequest)
  | claim (req : ClaimRequest)

namespace Message

/-- The numbers fit the integers they are encoded as. -/
def Fits : Message → Prop
  | .price fields => fields.InRange
  | .approval req => req.version < wordBound ∧ req.expiry < wordBound ∧ req.chainId < wordBound
  | .claim req =>
    req.cumulativeBurned < wordBound ∧ req.deadline < wordBound ∧ req.chainId < wordBound

section
variable (keccak256 : List UInt8 → Bytes 32)

variable {keccak256} in
def digest (sol : SolTypes keccak256) : Message → Bytes 32
  | .price fields => ethHash keccak256 (keccak256 fields.payload)
  | .approval req => approvalDigest sol req
  | .claim req => claimDigest sol req

/-- What is hashed for the digest. -/
def hashed : Message → Set (List UInt8)
  | .price fields => {fields.payload, ethMessage (keccak256 fields.payload)}
  | .approval req => signingHashed keccak256 (approvalDomain req.chainId) (approvalRecord req)
  | .claim req => signingHashed keccak256 (claimDomain req.chainId req.entry) (claimRecord req)

end

end Message

section Binding
variable {keccak256 : List UInt8 → Bytes 32} {sol : SolTypes keccak256}
  {inputs : Set (List UInt8)}

theorem toU8_mode_inj {m m' : ApprovalMode} (h : m.toU8 = m'.toU8) : m = m' := by
  cases m <;> cases m' <;> first | rfl | cases h

theorem toU8_role_inj {r r' : EnclaveRole} (h : r.toU8 = r'.toU8) : r = r' := by
  cases r <;> cases r' <;> first | rfl | cases h

theorem ethMessage_ne_signingMessage (digest : Bytes 32) (domain r : Record) :
    ethMessage digest ≠ signingMessage keccak256 domain r := by
  intro h
  have hsecond := congrArg (fun l => l[1]?) h
  have heth : (utf8 "\x19Ethereum Signed Message:\n32")[1]? = some 0x45 := by decide +kernel
  have hlt : 1 < (utf8 "\x19Ethereum Signed Message:\n32").length := by decide +kernel
  simp only [ethMessage, signingMessage] at hsecond
  rw [List.getElem?_append_left hlt, heth] at hsecond
  cases hsecond

/-- A domain with a contract has another type text than one without. -/
theorem encodeType_domains (chainId chainId' : ℕ) (entry : Address) :
    encodeType (approvalDomain chainId) ≠ encodeType (claimDomain chainId' entry) := by
  have happroval : encodeType (approvalDomain chainId) =
      "EIP712Domain(string name,string version,uint256 chainId)" := by rfl
  have hclaim : encodeType (claimDomain chainId' entry) =
      "EIP712Domain(string name,string version,uint256 chainId,address verifyingContract)" := by
    rfl
  rw [happroval, hclaim]
  decide

theorem domain_hashed {domain r : Record} (h : signingHashed keccak256 domain r ⊆ inputs) :
    domain.hashed keccak256 ⊆ inputs := fun _ hbytes => h (.inl hbytes)

theorem record_hashed {domain r : Record} (h : signingHashed keccak256 domain r ⊆ inputs) :
    r.hashed keccak256 ⊆ inputs := fun _ hbytes => h (.inr (.inl hbytes))

theorem approvalRecord_fits {req : ApprovalRequest} (fits : (Message.approval req).Fits) :
    ∀ m ∈ (approvalRecord req).members, m.2.Fits := by
  obtain ⟨hversion, hexpiry, -⟩ := fits
  have hmode : req.mode.toU8 < wordBound := by cases req.mode <;> decide
  have hrole : req.role.toU8 < wordBound := by cases req.role <;> decide
  simp [approvalRecord, Member.Fits, hversion, hexpiry, hmode, hrole]

section Collisions
variable (collisionFree : Set.InjOn keccak256 inputs)
include collisionFree

/-- Typed messages of one digest have domains of one hash and records of one hash. -/
theorem hashRecords_of_signingHash {domain domain' r r' : Record}
    (hm : signingHashed keccak256 domain r ⊆ inputs)
    (hm' : signingHashed keccak256 domain' r' ⊆ inputs)
    (h : sol.eip712SigningHash domain r = sol.eip712SigningHash domain' r') :
    hashRecord keccak256 domain = hashRecord keccak256 domain' ∧
      hashRecord keccak256 r = hashRecord keccak256 r' := by
  rw [sol.eip712SigningHash_eq, sol.eip712SigningHash_eq] at h
  exact signingMessage_inj (collisionFree (hm (.inr (.inr rfl))) (hm' (.inr (.inr rfl))) h)

/-- Records with members of the same types in the same places are told apart by their hash. -/
theorem record_inj {r r' : Record}
    (hr : r.hashed keccak256 ⊆ inputs) (hr' : r'.hashed keccak256 ⊆ inputs)
    (same : List.Forall₂ (fun m m' => m.1 = m'.1 ∧ m.2.SameType m'.2) r.members r'.members)
    (fits : ∀ m ∈ r.members, m.2.Fits) (fits' : ∀ m ∈ r'.members, m.2.Fits)
    (h : hashRecord keccak256 r = hashRecord keccak256 r') : r.members = r'.members :=
  members_inj collisionFree same fits fits' (Record.member_inputs hr) (Record.member_inputs hr')
    (body_of_hashRecord collisionFree hr hr' h).2

/-- Domains of one protocol have members of the same types in the same places. -/
theorem domain_members_inj {name version : String} {chainId chainId' : ℕ}
    {entry entry' : Option Address} (hentry : entry.isSome = entry'.isSome)
    (hd : (eip712Domain name version chainId entry).hashed keccak256 ⊆ inputs)
    (hd' : (eip712Domain name version chainId' entry').hashed keccak256 ⊆ inputs)
    (fits : chainId < wordBound) (fits' : chainId' < wordBound)
    (h : hashRecord keccak256 (eip712Domain name version chainId entry) =
      hashRecord keccak256 (eip712Domain name version chainId' entry')) :
    chainId = chainId' ∧ entry = entry' := by
  have hmembers := record_inj collisionFree hd hd'
    (by cases entry <;> cases entry' <;> simp_all [eip712Domain, Member.SameType])
    (by cases entry <;> simp [eip712Domain, Member.Fits, fits])
    (by cases entry' <;> simp [eip712Domain, Member.Fits, fits']) h
  cases entry <;> cases entry' <;> simp_all [eip712Domain]

theorem approvalDigest_inj {req req' : ApprovalRequest}
    (hm : (Message.approval req).hashed keccak256 ⊆ inputs)
    (hm' : (Message.approval req').hashed keccak256 ⊆ inputs)
    (fits : (Message.approval req).Fits) (fits' : (Message.approval req').Fits)
    (h : approvalDigest sol req = approvalDigest sol req') : req = req' := by
  obtain ⟨hdomain, hrecord⟩ := hashRecords_of_signingHash collisionFree hm hm' h
  obtain ⟨hchain, -⟩ := domain_members_inj collisionFree rfl (domain_hashed hm) (domain_hashed hm')
    fits.2.2 fits'.2.2 hdomain
  have hmembers := record_inj collisionFree (record_hashed hm) (record_hashed hm')
    (by simp [approvalRecord, Member.SameType]) (approvalRecord_fits fits)
    (approvalRecord_fits fits') hrecord
  simp only [approvalRecord, List.cons.injEq, Prod.mk.injEq, Member.bytes.injEq,
    Member.uint.injEq, Member.bytes32.injEq, true_and, and_true] at hmembers
  obtain ⟨hpcr0, hversion, hmode, hlabel, hrole, hexpiry, hnonce⟩ := hmembers
  obtain ⟨pcr0, version, mode, label, role, expiry, nonce, chainId⟩ := req
  obtain ⟨pcr0', version', mode', label', role', expiry', nonce', chainId'⟩ := req'
  dsimp only at hpcr0 hversion hmode hlabel hrole hexpiry hnonce hchain
  rw [Subtype.ext hpcr0, hversion, toU8_mode_inj hmode, hlabel, toU8_role_inj hrole, hexpiry,
    hnonce, hchain]

theorem claimDigest_inj {req req' : ClaimRequest}
    (hm : (Message.claim req).hashed keccak256 ⊆ inputs)
    (hm' : (Message.claim req').hashed keccak256 ⊆ inputs)
    (fits : (Message.claim req).Fits) (fits' : (Message.claim req').Fits)
    (h : claimDigest sol req = claimDigest sol req') : req = req' := by
  obtain ⟨hdomain, hrecord⟩ := hashRecords_of_signingHash collisionFree hm hm' h
  obtain ⟨hburned, hdeadline, hchain⟩ := fits
  obtain ⟨hburned', hdeadline', hchain'⟩ := fits'
  have hcontracts : (some req.entry).isSome = (some req'.entry).isSome := rfl
  obtain ⟨hchain, hentry⟩ := domain_members_inj collisionFree hcontracts (domain_hashed hm)
    (domain_hashed hm') hchain hchain' hdomain
  have hmembers := record_inj collisionFree (record_hashed hm) (record_hashed hm')
    (by simp [claimRecord, Member.SameType])
    (by simp [claimRecord, Member.Fits, hburned, hdeadline])
    (by simp [claimRecord, Member.Fits, hburned', hdeadline']) hrecord
  simp only [claimRecord, List.cons.injEq, Prod.mk.injEq, Member.address.injEq,
    Member.uint.injEq, true_and, and_true] at hmembers
  obtain ⟨recipient, burned, deadline, chainId, entry⟩ := req
  obtain ⟨recipient', burned', deadline', chainId', entry'⟩ := req'
  dsimp only at hmembers hchain hentry
  rw [hmembers.1, hmembers.2.1, hmembers.2.2, hchain, Option.some.inj hentry]

theorem approvalDigest_ne_claimDigest {req : ApprovalRequest} {req' : ClaimRequest}
    (hm : (Message.approval req).hashed keccak256 ⊆ inputs)
    (hm' : (Message.claim req').hashed keccak256 ⊆ inputs) :
    approvalDigest sol req ≠ claimDigest sol req' := by
  intro h
  have hdomain := (hashRecords_of_signingHash collisionFree hm hm' h).1
  exact encodeType_domains _ _ _
    (body_of_hashRecord collisionFree (domain_hashed hm) (domain_hashed hm') hdomain).1

/-- Prices are told from typed messages by the byte behind `0x19`. -/
theorem ethHash_ne_signingHash {fields : PriceFields} {domain r : Record}
    (hm : (Message.price fields).hashed keccak256 ⊆ inputs)
    (hm' : signingHashed keccak256 domain r ⊆ inputs) :
    ethHash keccak256 (keccak256 fields.payload) ≠ sol.eip712SigningHash domain r := by
  intro h
  rw [sol.eip712SigningHash_eq] at h
  exact ethMessage_ne_signingMessage _ _ _
    (collisionFree (hm (.inr rfl)) (hm' (.inr (.inr rfl))) h)

theorem digest_inj {m m' : Message}
    (hm : m.hashed keccak256 ⊆ inputs) (hm' : m'.hashed keccak256 ⊆ inputs) (fits : m.Fits)
    (fits' : m'.Fits) (h : m.digest sol = m'.digest sol) : m = m' := by
  cases m with
  | price fields =>
    cases m' with
    | price fields' =>
      have hmessage := collisionFree (hm (.inr rfl)) (hm' (.inr rfl)) h
      have hpayload := collisionFree (hm (.inl rfl)) (hm' (.inl rfl)) (ethMessage_inj hmessage)
      rw [PriceFields.payload_inj fits fits' hpayload]
    | approval req => exact absurd h (ethHash_ne_signingHash collisionFree hm hm')
    | claim req => exact absurd h (ethHash_ne_signingHash collisionFree hm hm')
  | approval req =>
    cases m' with
    | price fields => exact absurd h.symm (ethHash_ne_signingHash collisionFree hm' hm)
    | approval req' => rw [approvalDigest_inj collisionFree hm hm' fits fits' h]
    | claim req' => exact absurd h (approvalDigest_ne_claimDigest collisionFree hm hm')
  | claim req =>
    cases m' with
    | price fields => exact absurd h.symm (ethHash_ne_signingHash collisionFree hm' hm)
    | approval req' => exact absurd h.symm (approvalDigest_ne_claimDigest collisionFree hm' hm)
    | claim req' => rw [claimDigest_inj collisionFree hm hm' fits fits' h]

end Collisions

/-- On messages whose hashing does not collide, the digest determines the kind of the message and
every field of it. -/
theorem digests_bind_messages {messages : Set Message} (fits : ∀ m ∈ messages, m.Fits)
    (collisionFree : Set.InjOn keccak256 {bytes | ∃ m ∈ messages, bytes ∈ m.hashed keccak256}) :
    Set.InjOn (Message.digest sol) messages := by
  intro m hm m' hm' h
  exact digest_inj collisionFree (fun _ hbytes => ⟨m, hm, hbytes⟩)
    (fun _ hbytes => ⟨m', hm', hbytes⟩) (fits m hm) (fits m' hm') h

end Binding

/-- The approval of the example run of the oracle. -/
def demoSignedRequest : ApprovalRequest where
  pcr0 := demoPeerPcr0
  version := 2
  mode := .carry
  label := filled 32 0
  role := .oracle
  expiry := 200
  nonce := filled 32 0
  chainId := 46630

def lengthSol : SolTypes lengthHash := .plain lengthHash

def demoFields : PriceFields := ⟨filled 32 1, 5, 6, 3, filled 32 2⟩

/-- All that is hashed for the two messages. -/
def demoInputs : List (List UInt8) :=
  let domain := approvalDomain 46630
  let record := approvalRecord demoSignedRequest
  [demoFields.payload, ethMessage (lengthHash demoFields.payload), utf8 (encodeType domain),
    domain.body lengthHash, utf8 "Kaskad Keyex", utf8 "1", utf8 (encodeType record),
    record.body lengthHash, demoPeerPcr0.val, signingMessage lengthHash domain record]

theorem demoInputs_collisionFree : Set.InjOn lengthHash {bytes | bytes ∈ demoInputs} := by
  have hnodup : (demoInputs.map lengthHash).Nodup := by decide +kernel
  exact fun x hx y hy h => List.inj_on_of_nodup_map hnodup hx hy h

theorem approval_hashed_subset :
    (Message.approval demoSignedRequest).hashed lengthHash ⊆ {bytes | bytes ∈ demoInputs} := by
  rintro bytes ((rfl | rfl | ⟨m, hm, hbytes⟩) | (rfl | rfl | ⟨m, hm, hbytes⟩) | rfl)
  · exact List.mem_of_getElem? (i := 2) rfl
  · exact List.mem_of_getElem? (i := 3) rfl
  · simp only [approvalDomain, eip712Domain, Option.map_none, Option.toList_none, List.append_nil,
      List.mem_cons, List.not_mem_nil, or_false] at hm
    obtain rfl | rfl | rfl := hm
    · obtain rfl := hbytes
      exact List.mem_of_getElem? (i := 4) rfl
    · obtain rfl := hbytes
      exact List.mem_of_getElem? (i := 5) rfl
    · exact hbytes.elim
  · exact List.mem_of_getElem? (i := 6) rfl
  · exact List.mem_of_getElem? (i := 7) rfl
  · simp only [approvalRecord, List.mem_cons, List.not_mem_nil, or_false] at hm
    obtain rfl | rfl | rfl | rfl | rfl | rfl | rfl := hm
    · obtain rfl := hbytes
      exact List.mem_of_getElem? (i := 8) rfl
    all_goals exact hbytes.elim
  · exact List.mem_of_getElem? (i := 9) rfl

theorem price_hashed_subset :
    (Message.price demoFields).hashed lengthHash ⊆ {bytes | bytes ∈ demoInputs} := by
  rintro bytes (rfl | rfl)
  · exact List.mem_of_getElem? (i := 0) rfl
  · exact List.mem_of_getElem? (i := 1) rfl

theorem demoSignedRequest_fits : (Message.approval demoSignedRequest).Fits := by
  refine ⟨?_, ?_, ?_⟩ <;> decide

/-- A price and an approval have different digests, and each only its own. -/
theorem digests_bind_messages_demo :
    Set.InjOn (Message.digest lengthSol) {.price demoFields, .approval demoSignedRequest} := by
  apply digests_bind_messages
  · rintro m (rfl | rfl)
    · exact ⟨by decide, by decide, by decide⟩
    · exact demoSignedRequest_fits
  · apply demoInputs_collisionFree.mono
    rintro bytes ⟨m, rfl | rfl, hbytes⟩
    · exact price_hashed_subset hbytes
    · exact approval_hashed_subset hbytes

/-! ### Signed approvals -/

section Approvals
variable {σ ε : Type} {curve : Secp256k1 σ} {keccak256 : List UInt8 → Bytes 32}
  {sol : SolTypes keccak256} {img : HandoverImage} {signed : Address → Message → Prop}

/-- A signature that recovers to an owner is over a message that the owner signed. -/
def Unforged (curve : Secp256k1 σ) (sol : SolTypes keccak256) (owners : List Address)
    (signed : Address → Message → Prop) : Prop :=
  ∀ o ∈ owners, ∀ digest sig, recover curve keccak256 digest sig = .ok o →
    ∃ m, signed o m ∧ digest = m.digest sol

/-- The message was put to the image as an approval, or an owner signed it. -/
def InPlay (img : HandoverImage) (labels : List (Label img ε)) (signed : Address → Message → Prop)
    (m : Message) : Prop :=
  (∃ env typedData signatures reply req,
    .control env (some (.approval typedData signatures)) reply ∈ labels ∧
      parseApprovalRequest typedData img.chainId = .ok req ∧ m = .approval req) ∨
    ∃ o ∈ img.owners, signed o m

theorem fits_of_parsed {td : Json} {chainId : ℕ} {req : ApprovalRequest}
    (h : parseApprovalRequest td chainId = .ok req) : (Message.approval req).Fits := by
  obtain ⟨-, hrenders⟩ := parseApprovalRequest_eq_ok.mp h
  obtain ⟨hversion, hexpiry, hchain⟩ := hrenders.u64Request
  have hbound : 2 ^ 64 ≤ wordBound := by decide
  exact ⟨Nat.lt_of_lt_of_le hversion hbound, Nat.lt_of_lt_of_le hexpiry hbound,
    Nat.lt_of_lt_of_le hchain hbound⟩

/-- Whose signature stands on the digest of an approval, signed that approval. -/
theorem signed_of_recovered (unforged : Unforged curve sol img.owners signed)
    {messages : Set Message} (fits : ∀ m ∈ messages, m.Fits)
    (collisionFree : Set.InjOn keccak256 {bytes | ∃ m ∈ messages, bytes ∈ m.hashed keccak256})
    (hsigned : ∀ o ∈ img.owners, ∀ m, signed o m → m ∈ messages) {req : ApprovalRequest}
    (hreq : .approval req ∈ messages) {o : Address} (ho : o ∈ img.owners) {sig : Bytes 65}
    (h : (keyexScheme curve sol).recover ((keyexScheme curve sol).approvalDigest req)
      sig = some o) : signed o (.approval req) := by
  have hrecover : recover curve keccak256 (approvalDigest sol req) sig = .ok o := by
    change (recover curve keccak256 (approvalDigest sol req) sig).toOption = some o at h
    cases hresult : recover curve keccak256 (approvalDigest sol req) sig with
    | error e =>
      rw [hresult] at h
      cases h
    | ok o' =>
      rw [hresult] at h
      cases h
      rfl
  obtain ⟨m, hm, hdigest⟩ := unforged o ho _ sig hrecover
  have hmem := hsigned o ho m hm
  obtain rfl : .approval req = m :=
    digest_inj collisionFree (fun _ hbytes => ⟨_, hreq, hbytes⟩)
      (fun _ hbytes => ⟨m, hmem, hbytes⟩) (fits _ hreq) (fits m hmem) hdigest
  exact hm

/-- Over every run of the oracle: a key goes to another image only if enough owners signed an
approval that names that image for this very key. -/
theorem handovers_were_signed_for (newer : List (Label img ε)) {older : List (Label img ε)}
    {conn : ℕ} {snap : Snapshot} {t : Transcript ChannelAnswer} {key : TransferKey}
    {s : ImageState} {peer : VerifiedPeer}
    (scheme : img.scheme = keyexScheme curve sol)
    (unforged : Unforged curve sol img.owners signed)
    (fits : ∀ o ∈ img.owners, ∀ m, signed o m → m.Fits)
    (collisionFree : Set.InjOn keccak256
      {bytes | ∃ m, InPlay img older signed m ∧ bytes ∈ m.hashed keccak256})
    (run : ImageRun img (newer ++ .framed conn snap t key :: older) s)
    (hpeer : verifiedPeer snap.channel t = some peer) (foreign : peer.pcr0 ≠ img.pcr0) :
    ∃ req : ApprovalRequest, req.chainId = img.chainId ∧
      Justifies img peer.pcr0 snap.rootKey key (VerifiedApproval.fromRequest req) ∧
      ∃ signers : List Address, signers.Nodup ∧ img.threshold ≤ signers.length ∧
        ∀ o ∈ signers, o ∈ img.owners ∧ signed o (.approval req) := by
  obtain ⟨-, hbacked, peer', hpeer', hjust⟩ := framed_grounds run
  obtain rfl := Option.some.inj (hpeer.symm.trans hpeer')
  obtain ⟨va, hva, just⟩ := hjust foreign
  obtain ⟨env, typedData, signatures, hlabel, accepted⟩ := hbacked va hva
  obtain ⟨req, now, liveOwners, liveThreshold, hparse, hchain, rfl, -, -, quorum⟩ :=
    accepted.evidence
  obtain ⟨signers, hnodup, henough, hsigners⟩ := quorum.signed
  refine ⟨req, hchain, just, signers, hnodup, by omega, fun o ho => ?_⟩
  obtain ⟨howner, -, sig, -, hrecover⟩ := hsigners o ho
  rw [scheme] at hrecover
  have hfits : ∀ m, InPlay img older signed m → m.Fits := by
    rintro m (⟨_, _, _, _, req', -, hparse', rfl⟩ | ⟨o', ho', hm⟩)
    · exact fits_of_parsed hparse'
    · exact fits o' ho' m hm
  exact ⟨howner, signed_of_recovered unforged hfits collisionFree
    (fun o' ho' m hm => .inr ⟨o', ho', hm⟩)
    (.inl ⟨env, typedData, signatures, _, req, hlabel, hparse, rfl⟩) howner hrecover⟩

end Approvals

/-! ### One owner, one signature

The run of `demoImage` with an owner who has signed the approval and nothing else. -/

/-- The one point that signs recovers from the one digest that was signed. -/
def ownerCurve : Secp256k1 Unit where
  fromSlice _ := .ok ()
  toBytes _ := filled 64 2
  highS _ := false
  recoverFromPrehash digest _ _ :=
    if digest = approvalDigest lengthSol demoSignedRequest then .ok (filled 65 4)
    else .error "no point"
  signPrehashRecoverable _ _ := .ok ((), 0)
  verifyingKey _ := filled 65 4
  display _ := ""

def signingOwner : Address := addressFromKey lengthHash (filled 65 4)

def signedImage : HandoverImage :=
  { demoImage with owners := [signingOwner], scheme := keyexScheme ownerCurve lengthSol }

def ownerSigned (o : Address) (m : Message) : Prop :=
  o = signingOwner ∧ m = .approval demoSignedRequest

def signedSurroundings : Surroundings :=
  { demoSurroundings with liveQuorum := .ok ([signingOwner], 1) }

def signatureText : String :=
  String.ofList ('0' :: 'x' :: (List.replicate 128 '2' ++ ['1', 'b']))

def signedRequest : OracleRequest := .approval demoTypedData [signatureText]

theorem signed_accepted :
    handleControlConnection signedImage.toOracleImage signedSurroundings .new (some signedRequest) =
      (.approvalResult true none, approvedKeyex) := by
  decide +kernel

def signedLabels : List (Label signedImage Unit) :=
  [.armed 0 (demoSnapshot 150), .opened 0, .installed (demoKey 1),
    .ticked demoBootRun.1 demoBootRun.2.2, .tickStarted ["peer:8443"],
    .control signedSurroundings (some signedRequest) (.approvalResult true none)]

theorem signed_control :
    Step signedImage .start
      (.control signedSurroundings (some signedRequest) (.approvalResult true none) :
        Label signedImage Unit) { ImageState.start with keyex := approvedKeyex } := by
  have h : Step signedImage .start _ _ :=
    .control (ε := Unit) (s := .start) signedSurroundings (some signedRequest)
  rw [show ImageState.start.keyex = .new from rfl, signed_accepted] at h
  exact h

theorem signed_run : ∃ s, ImageRun signedImage
    (.framed 0 (demoSnapshot 150) demoExchange (demoKey 1) :: signedLabels) s := by
  have ran := Prog.exec_runs demoRegistry 0 (step ⟨none⟩ (bootDeps ["peer:8443"]))
  have done : afterTick demoBootRun.2.2 =
      .resolved (.peer (demoAddress (demoKey 1)) (demoKey 1)) := rfl
  have booted := (((LabelledRuns.Run.start.step signed_control).step (.tickStarted rfl)).step
    (.ticked rfl ran)).step (.installed done)
  exact ⟨_, ((booted.step (.opened rfl rfl rfl)).step (.armed rfl rfl rfl rfl)).step
    (.framed rfl (demo_asks 150 (demoKey 1)))⟩

theorem ownerCurve_recovers {digest : Bytes 32} {sig : Bytes 65} {o : Address}
    (h : recover ownerCurve lengthHash digest sig = .ok o) :
    digest = approvalDigest lengthSol demoSignedRequest ∧ o = signingOwner := by
  unfold recover at h
  simp only [ownerCurve, Bool.false_eq_true, if_false] at h
  split at h
  · cases h
  · split at h
    · cases h
    · rename_i point hpoint
      split at hpoint
      · rename_i hdigest
        cases hpoint
        cases h
        exact ⟨hdigest, rfl⟩
      · cases hpoint

theorem ownerSigned_unforged :
    Unforged ownerCurve lengthSol signedImage.owners ownerSigned := by
  intro o _ digest sig h
  obtain ⟨rfl, rfl⟩ := ownerCurve_recovers h
  exact ⟨_, ⟨rfl, rfl⟩, rfl⟩

theorem demoTypedData_parses :
    parseApprovalRequest demoTypedData signedImage.chainId = .ok demoSignedRequest := by
  decide +kernel

theorem inPlay_signedLabels {m : Message} (h : InPlay signedImage signedLabels ownerSigned m) :
    m = .approval demoSignedRequest := by
  obtain ⟨env, typedData, signatures, reply, req, hlabel, hparse, rfl⟩ | ⟨o, -, -, rfl⟩ := h
  · simp only [signedLabels, List.mem_cons, Label.control.injEq, reduceCtorEq, List.not_mem_nil,
      or_false, false_or] at hlabel
    obtain ⟨-, hrequest, -⟩ := hlabel
    cases hrequest
    rw [demoTypedData_parses] at hparse
    cases hparse
    rfl
  · rfl

theorem handovers_were_signed_for_demo :
    ∃ req : ApprovalRequest, req.chainId = signedImage.chainId ∧
      Justifies signedImage demoPeerPcr0 (demoKey 1) (demoKey 1)
        (VerifiedApproval.fromRequest req) ∧
      ∃ signers : List Address, signers.Nodup ∧ 1 ≤ signers.length ∧
        ∀ o ∈ signers, o ∈ signedImage.owners ∧ ownerSigned o (.approval req) := by
  obtain ⟨s, run⟩ := signed_run
  refine handovers_were_signed_for [] rfl ownerSigned_unforged ?_ ?_ run demo_verified (by decide)
  · rintro o - m ⟨-, rfl⟩
    exact demoSignedRequest_fits
  · apply demoInputs_collisionFree.mono
    rintro bytes ⟨m, hm, hbytes⟩
    rw [inPlay_signedLabels hm] at hbytes
    exact approval_hashed_subset hbytes

/-! ### Signed claims -/

section Claims
variable {σ : Type} {keccak256 : List UInt8 → Bytes 32} (curve : Secp256k1 σ)
  (sol : SolTypes keccak256)

/-- The bridge with the digest, the signing and the addresses of this crate. -/
def bridgeExternals (rest : Externals) : Externals :=
  { rest with
    claimDigest := claimDigest sol
    signRecoverable := fun sk digest => (signRecoverable curve keccak256 sk digest).toOption
    addressFromKey := fun sk => addressFromKey keccak256 (curve.verifyingKey sk) }

variable {curve sol}

theorem recover_canonical {digest : Bytes 32} {sig : Bytes 65} {o : Address}
    (h : recover curve keccak256 digest sig = .ok o) :
    (sigV sig = 27 ∨ sigV sig = 28) ∧
      ∃ signature, curve.fromSlice (sigBody sig) = .ok signature ∧
        curve.highS signature = false := by
  unfold recover at h
  split at h
  · cases h
  · rename_i signature hslice
    split at h
    · cases h
    · rename_i hlow
      split at h
      · cases h
      · rename_i rec hrec
        refine ⟨?_, signature, hslice, Bool.eq_false_iff.mpr hlow⟩
        unfold recoveryId at hrec
        split at hrec
        · rename_i hv
          exact .inl hv
        · rename_i hv
          exact .inr hv
        · cases hrec

theorem signed_claim_recovers {rest : Externals} {key : SigningKey} {digest : Bytes 32}
    {sig : Bytes 65}
    (h : (bridgeExternals curve sol rest).signRecoverable key digest = some sig) :
    recover curve keccak256 digest sig =
      .ok ((bridgeExternals curve sol rest).addressFromKey key) := by
  change (signRecoverable curve keccak256 key digest).toOption = some sig at h
  cases hresult : signRecoverable curve keccak256 key digest with
  | error e =>
    rw [hresult] at h
    cases h
  | ok sig' =>
    rw [hresult] at h
    cases h
    exact signRecoverable_ok curve keccak256 hresult

/-- Whatever the signer does, a grant that comes out carries a canonical signature that recovers
to the signer it names, over the claim it is for and over no other message. -/
theorem grants_recover_to_signer (rest : Externals) {key : SigningKey} {cfg : BridgeConfig}
    {recipient : Address} {highWater enclaveNow : ℕ}
    {t : Transcript (ChainReads.RpcAnswer Chain)} {grant : ClaimGrant}
    (hnow : enclaveNow < 2 ^ 63) (hchain : cfg.chainId < 2 ^ 64)
    (h : Fallible.Runs (buildGrant (bridgeExternals curve sol rest) key
      (claimInputs cfg recipient highWater enclaveNow)) t (.ok grant)) :
    ∃ claim : ClaimRequest, claim.recipient = recipient ∧
      grant.cumulativeBurned = rest.printU256 claim.cumulativeBurned ∧
      claim.deadline = grant.deadline ∧ claim.chainId = cfg.chainId ∧ claim.entry = cfg.entry ∧
      recover curve keccak256 (claimDigest sol claim) grant.signature = .ok grant.signer ∧
      (sigV grant.signature = 27 ∨ sigV grant.signature = 28) ∧
      (∃ signature, curve.fromSlice (sigBody grant.signature) = .ok signature ∧
        curve.highS signature = false) ∧
      ∀ m : Message, m.Fits →
        Set.InjOn keccak256 {bytes | ∃ m' ∈ ({m, .claim claim} : Set Message),
          bytes ∈ m'.hashed keccak256} →
        m.digest sol = claimDigest sol claim → m = .claim claim := by
  obtain ⟨total, run⟩ := grantRun_of_buildGrant h
  have hrecover := signed_claim_recovers run.signed
  rw [← run.signer] at hrecover
  obtain ⟨hv, hlow⟩ := recover_canonical hrecover
  obtain ⟨_, _, rhBlock, -, -, -, hdeadline⟩ := run.reads
  obtain ⟨-, hdeadline⟩ := computeDeadline_ok hnow hdeadline
  have hfits : (Message.claim ((claimInputs cfg recipient highWater enclaveNow).request total
      grant.deadline)).Fits := by
    have htotal : 2 ^ 256 ≤ wordBound := by decide
    have hbound : 2 ^ 64 ≤ wordBound := by decide
    have hlt : grant.deadline < 2 ^ 64 := by
      rw [hdeadline, claimTtlSecs]
      omega
    exact ⟨Nat.lt_of_lt_of_le run.total_lt htotal, Nat.lt_of_lt_of_le hlt hbound,
      Nat.lt_of_lt_of_le hchain hbound⟩
  refine ⟨(claimInputs cfg recipient highWater enclaveNow).request total grant.deadline, rfl,
    run.printed, rfl, rfl, rfl, hrecover, hv, hlow, ?_⟩
  intro m fits collisionFree hdigest
  exact digest_inj collisionFree (fun _ hbytes => ⟨m, .inl rfl, hbytes⟩)
    (fun _ hbytes => ⟨_, .inr rfl, hbytes⟩) fits hfits hdigest

end Claims

/-- Signs with the point of the example owner, and recovers it from any digest. -/
def bridgeCurve : Secp256k1 Unit :=
  { ownerCurve with recoverFromPrehash := fun _ _ _ => .ok (filled 65 4) }

def bridgeDemo : Externals := bridgeExternals bridgeCurve lengthSol demoExternals

def signedGrantRun : Transcript (ChainReads.RpcAnswer Chain) × Except ClaimError ClaimGrant :=
  (buildGrant bridgeDemo demoSigningKey (claimInputs demoConfig demoRecipient 3 1000)).run.exec
    demoChains 0

def signedGrant : ClaimGrant :=
  { demoGrant with signature := sigBytes (filled 64 2) 27, signer := signingOwner }

theorem signed_grant : signedGrantRun.2 = .ok signedGrant := by
  decide +kernel

theorem grants_recover_to_signer_demo :
    ∃ claim : ClaimRequest, claim.recipient = demoRecipient ∧ claim.entry = demoConfig.entry ∧
      recover bridgeCurve lengthHash (claimDigest lengthSol claim) signedGrant.signature =
        .ok signedGrant.signer := by
  have run : Fallible.Runs
      (buildGrant bridgeDemo demoSigningKey (claimInputs demoConfig demoRecipient 3 1000))
      signedGrantRun.1 (.ok signedGrant) := by
    rw [← signed_grant]
    exact Prog.exec_runs demoChains 0 _
  obtain ⟨claim, hrecipient, -, -, -, hentry, hrecover, -⟩ :=
    grants_recover_to_signer demoExternals (by decide) (by decide) run
  exact ⟨claim, hrecipient, hentry, hrecover⟩

end Nuntius.SignedMessages
