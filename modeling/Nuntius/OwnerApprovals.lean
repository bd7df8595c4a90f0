import Nuntius.DistinctLists
import Nuntius.HandoverPolicy

/-!
# Owner approvals of image transitions

The baked owners and threshold are a ceiling and a floor: the live reading of the
multisig can remove owners and raise the threshold, nothing else. An approval stands when
enough distinct surviving owners signed its digest and it has not expired. The digest and
the recovery of a signer from a signature are parameters about which nothing is assumed.
-/

namespace Nuntius.OwnerApprovals
open WireFormat HandoverPolicy DistinctLists

abbrev Address := Bytes 20

structure ApprovalRequest where
  pcr0 : Pcr0
  version : ℕ
  mode : ApprovalMode
  label : ChildLabel
  role : EnclaveRole
  expiry : ℕ
  nonce : Bytes 32
  chainId : ℕ
deriving DecidableEq

def VerifiedApproval.fromRequest (req : ApprovalRequest) : VerifiedApproval where
  pcr0 := req.pcr0
  version := req.version
  mode := req.mode
  label := req.label
  role := req.role
  expiry := req.expiry
  nonce := req.nonce

/-- The EIP-712 digest of an approval and the recovery of its signer. -/
structure SignatureScheme where
  approvalDigest : ApprovalRequest → Bytes 32
  recover : Bytes 32 → Bytes 65 → Option Address

/-! ### The quorum -/

inductive QuorumError where
  | bakedThresholdZero
  | liveThresholdZero
  | noSurvivingOwner
  | unsatisfiable (owners threshold : ℕ)
deriving DecidableEq

def QuorumError.message : QuorumError → String
  | .bakedThresholdZero => "baked threshold is zero"
  | .liveThresholdZero => "multisig reported threshold 0 — refusing to trust the read"
  | .noSurvivingOwner => "no baked owner is still an owner of the multisig"
  | .unsatisfiable owners threshold =>
    s!"quorum unsatisfiable: {owners} surviving owners < threshold {threshold}"

/-- The baked owners that are still owners, in baked order. -/
def survivingOwners (bakedOwners liveOwners : List Address) : List Address :=
  distinct (bakedOwners.filter (fun o => decide (o ∈ liveOwners)))

def effectiveQuorum (bakedOwners : List Address) (bakedThreshold : ℕ)
    (liveOwners : List Address) (liveThreshold : ℕ) :
    Except QuorumError (List Address × ℕ) :=
  if bakedThreshold = 0 then .error .bakedThresholdZero
  else if liveThreshold = 0 then .error .liveThresholdZero
  else
    let owners := survivingOwners bakedOwners liveOwners
    if owners.isEmpty then .error .noSurvivingOwner
    else
      let threshold := max bakedThreshold liveThreshold
      if owners.length < threshold then .error (.unsatisfiable owners.length threshold)
      else .ok (owners, threshold)

variable {bakedOwners liveOwners owners : List Address}
  {bakedThreshold liveThreshold threshold now : ℕ}

/-- The live reading only narrows. -/
theorem effectiveQuorum_ok
    (h : effectiveQuorum bakedOwners bakedThreshold liveOwners liveThreshold =
      .ok (owners, threshold)) :
    threshold = max bakedThreshold liveThreshold ∧ 0 < bakedThreshold ∧
      threshold ≤ owners.length ∧ owners.Nodup ∧
      ∀ o ∈ owners, o ∈ bakedOwners ∧ o ∈ liveOwners := by
  rw [effectiveQuorum] at h
  split at h
  · cases h
  rename_i hbaked
  split at h
  · cases h
  dsimp only at h
  split at h
  · cases h
  split at h
  · cases h
  rename_i hlength
  cases h
  refine ⟨rfl, Nat.pos_of_ne_zero hbaked, Nat.not_lt.mp hlength, nodup_distinct _, ?_⟩
  intro o ho
  have hkept := List.mem_filter.mp (mem_distinct.mp ho)
  exact ⟨hkept.1, of_decide_eq_true hkept.2⟩

/-! ### The signatures -/

inductive ApprovalError where
  | noExpiry
  | expired (now expiry : ℕ)
  | thresholdZero
  | thresholdExceedsOwners (threshold owners : ℕ)
  | insufficient (distinctOwners : List Address) (threshold : ℕ)
deriving DecidableEq

/-- The error texts; `debug` is the rendering of an address list. -/
def ApprovalError.message (debug : List Address → String) : ApprovalError → String
  | .noExpiry => "approval has no expiry"
  | .expired now expiry => s!"approval expired: now {now} >= expiry {expiry}"
  | .thresholdZero => "threshold must be >= 1"
  | .thresholdExceedsOwners threshold owners =>
    s!"threshold {threshold} exceeds owner count {owners}"
  | .insufficient distinctOwners threshold =>
    s!"insufficient approvals: {distinctOwners.length} distinct owner(s) " ++
      s!"{debug distinctOwners}, need {threshold}"

variable (scheme : SignatureScheme) (req : ApprovalRequest) (sigs : List (Bytes 65))

/-- The distinct owners among the recovered signers; what recovers to nobody is dropped. -/
def distinctSigners (owners : List Address) : List Address :=
  distinct ((sigs.filterMap (scheme.recover (scheme.approvalDigest req))).filter
    (fun a => decide (a ∈ owners)))

def verifyApprovals (owners : List Address) (threshold nowUnixSecs : ℕ) :
    Except ApprovalError Unit :=
  if req.expiry = 0 then .error .noExpiry
  else if req.expiry ≤ nowUnixSecs then .error (.expired nowUnixSecs req.expiry)
  else if threshold = 0 then .error .thresholdZero
  else if owners.length < threshold then
    .error (.thresholdExceedsOwners threshold owners.length)
  else
    let distinctOwners := distinctSigners scheme req sigs owners
    if distinctOwners.length < threshold then .error (.insufficient distinctOwners threshold)
    else .ok ()

variable {scheme req sigs}

theorem mem_distinctSigners {o : Address} :
    o ∈ distinctSigners scheme req sigs owners ↔
      o ∈ owners ∧ ∃ sig ∈ sigs, scheme.recover (scheme.approvalDigest req) sig = some o := by
  rw [distinctSigners, mem_distinct, List.mem_filter, List.mem_filterMap, decide_eq_true_iff]
  exact and_comm

/-- What acceptance amounts to. -/
theorem verifyApprovals_ok_iff :
    verifyApprovals scheme req sigs owners threshold now = .ok () ↔
      now < req.expiry ∧ 0 < threshold ∧ threshold ≤ owners.length ∧
        threshold ≤ (distinctSigners scheme req sigs owners).length := by
  rw [verifyApprovals]
  constructor
  · intro h
    split at h
    · cases h
    split at h
    · cases h
    split at h
    · cases h
    split at h
    · cases h
    dsimp only at h
    split at h
    · cases h
    omega
  · intro h
    rw [if_neg (by omega), if_neg (by omega), if_neg (by omega), if_neg (by omega)]
    exact if_neg (by omega)

theorem verifyApprovals_ok (h : verifyApprovals scheme req sigs owners threshold now = .ok ()) :
    now < req.expiry ∧ threshold ≤ (distinctSigners scheme req sigs owners).length :=
  ⟨(verifyApprovals_ok_iff.mp h).1, (verifyApprovals_ok_iff.mp h).2.2.2⟩

/-- More owners and more signatures leave no distinct signer out. -/
theorem distinctSigners_length_le {owners' : List Address} {sigs' : List (Bytes 65)}
    (howners : owners ⊆ owners') (hsigs : sigs ⊆ sigs') :
    (distinctSigners scheme req sigs owners).length ≤
      (distinctSigners scheme req sigs' owners').length := by
  apply (nodup_distinct _).length_le_of_subset
  intro o ho
  obtain ⟨howner, sig, hsig, hrecover⟩ := mem_distinctSigners.mp ho
  exact mem_distinctSigners.mpr ⟨howners howner, sig, hsigs hsig, hrecover⟩

/-- Acceptance survives more owners, a lower positive threshold and more signatures. -/
theorem verifyApprovals_mono {owners' : List Address} {threshold' : ℕ}
    {sigs' : List (Bytes 65)} (howners : owners ⊆ owners')
    (hlength : threshold' ≤ owners'.length) (hpos : 0 < threshold')
    (hthreshold : threshold' ≤ threshold) (hsigs : sigs ⊆ sigs')
    (h : verifyApprovals scheme req sigs owners threshold now = .ok ()) :
    verifyApprovals scheme req sigs' owners' threshold' now = .ok () := by
  obtain ⟨unexpired, -, -, henough⟩ := verifyApprovals_ok_iff.mp h
  have hmore : (distinctSigners scheme req sigs owners).length ≤
      (distinctSigners scheme req sigs' owners').length :=
    distinctSigners_length_le howners hsigs
  exact verifyApprovals_ok_iff.mpr ⟨unexpired, hpos, hlength, by omega⟩

/-- The request carried valid signatures of enough distinct addresses, each both a baked and
a live owner, before its expiry. -/
structure QuorumSigned (scheme : SignatureScheme) (req : ApprovalRequest)
    (sigs : List (Bytes 65)) (bakedOwners : List Address) (bakedThreshold : ℕ)
    (liveOwners : List Address) (liveThreshold now : ℕ) : Prop where
  unexpired : now < req.expiry
  signed : ∃ signers : List Address, signers.Nodup ∧
    max bakedThreshold liveThreshold ≤ signers.length ∧
    ∀ o ∈ signers, o ∈ bakedOwners ∧ o ∈ liveOwners ∧
      ∃ sig ∈ sigs, scheme.recover (scheme.approvalDigest req) sig = some o

/-- An approval that passes both checks was signed by a quorum. -/
theorem quorumSigned_of_verified
    (hquorum : effectiveQuorum bakedOwners bakedThreshold liveOwners liveThreshold =
      .ok (owners, threshold))
    (hverify : verifyApprovals scheme req sigs owners threshold now = .ok ()) :
    QuorumSigned scheme req sigs bakedOwners bakedThreshold liveOwners liveThreshold now := by
  obtain ⟨rfl, -, -, -, hnarrow⟩ := effectiveQuorum_ok hquorum
  obtain ⟨unexpired, henough⟩ := verifyApprovals_ok hverify
  refine ⟨unexpired, distinctSigners scheme req sigs owners, nodup_distinct _, henough, ?_⟩
  intro o ho
  obtain ⟨howner, hsig⟩ := mem_distinctSigners.mp ho
  exact ⟨(hnarrow o howner).1, (hnarrow o howner).2, hsig⟩

/-- A lying live reading can only narrow: what passes under it passes under the baked owners
and threshold. Under any owners and threshold only the set of signatures counts, and more of
them never hurt. -/
theorem quorum_only_narrows (scheme : SignatureScheme) (req : ApprovalRequest) (now : ℕ) :
    (∀ bakedOwners bakedThreshold liveOwners liveThreshold owners threshold sigs,
      effectiveQuorum bakedOwners bakedThreshold liveOwners liveThreshold =
        .ok (owners, threshold) →
      verifyApprovals scheme req sigs owners threshold now = .ok () →
      verifyApprovals scheme req sigs bakedOwners bakedThreshold now = .ok ()) ∧
    (∀ owners threshold sigs sigs', (∀ sig, sig ∈ sigs ↔ sig ∈ sigs') →
      (verifyApprovals scheme req sigs owners threshold now = .ok () ↔
        verifyApprovals scheme req sigs' owners threshold now = .ok ())) ∧
    (∀ owners threshold sigs sigs', sigs ⊆ sigs' →
      verifyApprovals scheme req sigs owners threshold now = .ok () →
      verifyApprovals scheme req sigs' owners threshold now = .ok ()) := by
  have hadded : ∀ owners threshold sigs sigs', sigs ⊆ sigs' →
      verifyApprovals scheme req sigs owners threshold now = .ok () →
      verifyApprovals scheme req sigs' owners threshold now = .ok () := by
    intro owners threshold sigs sigs' hsigs h
    obtain ⟨-, hpos, hlength, -⟩ := verifyApprovals_ok_iff.mp h
    exact verifyApprovals_mono (List.Subset.refl owners) hlength hpos (Nat.le_refl _) hsigs h
  refine ⟨?_, ?_, hadded⟩
  · intro bakedOwners bakedThreshold liveOwners liveThreshold owners threshold sigs hquorum h
    obtain ⟨rfl, hpos, hlength, hnodup, hnarrow⟩ := effectiveQuorum_ok hquorum
    have hsubset : owners ⊆ bakedOwners := fun o ho => (hnarrow o ho).1
    -- the baked list may repeat owners, the surviving one does not
    have hbaked := hnodup.length_le_of_subset hsubset
    exact verifyApprovals_mono hsubset (by omega) hpos (Nat.le_max_left _ _)
      (List.Subset.refl sigs) h
  · intro owners threshold sigs sigs' hsame
    constructor
    · exact hadded owners threshold sigs sigs' (fun sig hsig => (hsame sig).mp hsig)
    · exact hadded owners threshold sigs' sigs (fun sig hsig => (hsame sig).mpr hsig)

/-- A scheme in which the signatures of ones recover to the address of ones, all others to
nobody. -/
def demoRecovery : SignatureScheme where
  approvalDigest _ := filled 32 0
  recover _ sig := if sig = filled 65 1 then some (filled 20 1) else none

def demoCarryRequest : ApprovalRequest where
  pcr0 := filled 48 7
  version := 2
  mode := .carry
  label := filled 32 0
  role := .oracle
  expiry := 200
  nonce := filled 32 0
  chainId := 1

/-- A live reading that dropped one of two owners; a signature repeated; a junk signature
added. -/
theorem quorum_only_narrows_demo :
    verifyApprovals demoRecovery demoCarryRequest [filled 65 9, filled 65 1]
      [filled 20 2, filled 20 1] 1 100 = .ok () ∧
    (verifyApprovals demoRecovery demoCarryRequest [filled 65 1] [filled 20 1] 1 100 = .ok () ↔
      verifyApprovals demoRecovery demoCarryRequest [filled 65 1, filled 65 1] [filled 20 1] 1
        100 = .ok ()) ∧
    verifyApprovals demoRecovery demoCarryRequest [filled 65 9, filled 65 1] [filled 20 1] 1
      100 = .ok () := by
  obtain ⟨hnarrow, hsame, hadded⟩ := quorum_only_narrows demoRecovery demoCarryRequest 100
  refine ⟨?_, ?_, ?_⟩
  · exact hnarrow [filled 20 2, filled 20 1] 1 [filled 20 3, filled 20 1] 1 [filled 20 1] 1
      [filled 65 9, filled 65 1] (by decide +kernel) (by decide +kernel)
  · exact hsame [filled 20 1] 1 [filled 65 1] [filled 65 1, filled 65 1] (by simp)
  · exact hadded [filled 20 1] 1 [filled 65 1] [filled 65 9, filled 65 1] (by simp)
      (by decide +kernel)

end Nuntius.OwnerApprovals
