import Nuntius.WireFormat

/-!
# Who hands a key to whom

The server decides about its own key from the peer's verified PCR0 and the stored owner
approvals; the client judges the server's verified PCR0 against its own and the baked
ancestors. Both decisions are pure. Signatures and attestations were checked before.
-/

namespace Nuntius.HandoverPolicy
open WireFormat

abbrev Pcr0 := Bytes 48
abbrev ChildLabel := Bytes 32

inductive EnclaveRole where
  | oracle
  | bridge
deriving DecidableEq, Repr

/-- The wire value `0` stays unused, so a missing field names no role. -/
def EnclaveRole.tryFrom : ℕ → Option EnclaveRole
  | 1 => some .oracle
  | 2 => some .bridge
  | _ => none

inductive ApprovalMode where
  | carry
  | fresh
  | child
deriving DecidableEq, Repr

def ApprovalMode.tryFrom : ℕ → Option ApprovalMode
  | 1 => some .carry
  | 2 => some .fresh
  | 3 => some .child
  | _ => none

inductive HandoffRefusal where
  | pcrMismatchNoApproval
  | freshNeverHandsOff
  | childRequestedByBridge
  | versionNotNewer
  | candidateKeyNoHandoff
  | roleMismatch
deriving DecidableEq, Repr

inductive KeyDecision where
  | ownKey
  | child (label : ChildLabel)
  | refuse (reason : HandoffRefusal)
deriving DecidableEq

structure ImageIdentity where
  pcr0 : Pcr0
  version : ℕ
deriving DecidableEq

/-- An approval whose owner quorum was checked when it was accepted. -/
structure VerifiedApproval where
  pcr0 : Pcr0
  version : ℕ
  mode : ApprovalMode
  label : ChildLabel
  role : EnclaveRole
  expiry : ℕ
  nonce : Bytes 32
deriving DecidableEq

/-! ### The server's decision -/

/-- What the loop has seen among the approvals that name the peer. -/
structure Seen where
  carryNotNewer : Bool
  fresh : Bool
  roleMismatch : Bool

/-- The most specific refusal comes first. -/
def Seen.refusal (seen : Seen) : HandoffRefusal :=
  if seen.carryNotNewer then .versionNotNewer
  else if seen.roleMismatch then .roleMismatch
  else if seen.fresh then .freshNeverHandsOff
  else .pcrMismatchNoApproval

/-- Only the oracle holds a root to derive a child from. -/
def childDecision (label : ChildLabel) : EnclaveRole → KeyDecision
  | .oracle => .child label
  | .bridge => .refuse .childRequestedByBridge

/-- The loop over the approvals: the first one that decides ends it. -/
def scanApprovals (own : ImageIdentity) (role : EnclaveRole) (peerPcr0 : Pcr0) :
    Seen → List VerifiedApproval → KeyDecision
  | seen, [] => .refuse seen.refusal
  | seen, a :: rest =>
    if a.pcr0 ≠ peerPcr0 then scanApprovals own role peerPcr0 seen rest
    else if a.role ≠ role then
      scanApprovals own role peerPcr0 { seen with roleMismatch := true } rest
    else
      match a.mode with
      | .carry =>
        if own.version < a.version then .ownKey
        else scanApprovals own role peerPcr0 { seen with carryNotNewer := true } rest
      | .child => childDecision a.label role
      | .fresh => scanApprovals own role peerPcr0 { seen with fresh := true } rest

def decideHandover (own : ImageIdentity) (role : EnclaveRole) (peerPcr0 : Pcr0)
    (ownKeyIsCandidate : Bool) (approvals : List VerifiedApproval) : KeyDecision :=
  if ownKeyIsCandidate then .refuse .candidateKeyNoHandoff
  else if peerPcr0 = own.pcr0 then .ownKey
  else scanApprovals own role peerPcr0 ⟨false, false, false⟩ approvals

def approvalVersionMatchesNewImage (approvalVersion ownVersion : ℕ) : Bool :=
  approvalVersion == ownVersion

/-- The approval justifies this decision about a foreign peer. -/
structure Authorizes (own : ImageIdentity) (role : EnclaveRole) (peerPcr0 : Pcr0)
    (a : VerifiedApproval) (decision : KeyDecision) : Prop where
  peer : a.pcr0 = peerPcr0
  scope : a.role = role
  justified : (decision = .ownKey ∧ a.mode = .carry ∧ own.version < a.version) ∨
    (decision = .child a.label ∧ a.mode = .child ∧ role = .oracle)

variable {own : ImageIdentity} {role : EnclaveRole} {peerPcr0 : Pcr0}
  {approvals : List VerifiedApproval} {decision : KeyDecision}

/-- A scan that does not refuse stopped at an approval that justifies its decision. -/
theorem scanApprovals_grants {seen : Seen}
    (h : scanApprovals own role peerPcr0 seen approvals = decision)
    (hgrant : ∀ r, decision ≠ .refuse r) :
    ∃ a ∈ approvals, Authorizes own role peerPcr0 a decision := by
  induction approvals generalizing seen with
  | nil => exact absurd h.symm (hgrant _)
  | cons a rest ih =>
    have later : ∀ {seen'}, scanApprovals own role peerPcr0 seen' rest = decision →
        ∃ b ∈ a :: rest, Authorizes own role peerPcr0 b decision := by
      intro seen' h'
      obtain ⟨b, hb, auth⟩ := ih h'
      exact ⟨b, List.mem_cons_of_mem a hb, auth⟩
    rw [scanApprovals] at h
    split at h
    · exact later h
    · rename_i hpeer
      split at h
      · exact later h
      · rename_i hrole
        have peer := not_not.mp hpeer
        have scope := not_not.mp hrole
        cases hmode : a.mode with
        | carry =>
          simp only [hmode] at h
          split at h
          · rename_i hnewer
            exact ⟨a, List.mem_cons_self, peer, scope, .inl ⟨h.symm, hmode, hnewer⟩⟩
          · exact later h
        | fresh =>
          simp only [hmode] at h
          exact later h
        | child =>
          simp only [hmode] at h
          cases role with
          | oracle => exact ⟨a, List.mem_cons_self, peer, scope, .inr ⟨h.symm, hmode, rfl⟩⟩
          | bridge => exact absurd h.symm (hgrant _)

/-- A foreign peer is granted a key only on the strength of a stored approval. -/
theorem decideHandover_grants {ownKeyIsCandidate : Bool}
    (h : decideHandover own role peerPcr0 ownKeyIsCandidate approvals = decision)
    (hgrant : ∀ r, decision ≠ .refuse r) (hforeign : peerPcr0 ≠ own.pcr0) :
    ∃ a ∈ approvals, Authorizes own role peerPcr0 a decision := by
  rw [decideHandover] at h
  split at h
  · exact absurd h.symm (hgrant _)
  · exact scanApprovals_grants h hgrant

/-! ### The order of the approvals -/

/-- What an approval decides when the loop reaches it; `none` lets the loop go on. -/
def verdict (own : ImageIdentity) (role : EnclaveRole) (peerPcr0 : Pcr0)
    (a : VerifiedApproval) : Option KeyDecision :=
  if a.pcr0 = peerPcr0 ∧ a.role = role then
    match a.mode with
    | .carry => if own.version < a.version then some .ownKey else none
    | .child => some (childDecision a.label role)
    | .fresh => none
  else none

/-- What the loop remembers of an approval it passes. -/
def Seen.note (role : EnclaveRole) (peerPcr0 : Pcr0) (seen : Seen) (a : VerifiedApproval) : Seen :=
  if a.pcr0 ≠ peerPcr0 then seen
  else if a.role ≠ role then { seen with roleMismatch := true }
  else
    match a.mode with
    | .carry => { seen with carryNotNewer := true }
    | .child => seen
    | .fresh => { seen with fresh := true }

/-- The loop returns the first verdict, or refuses by what it remembers. -/
theorem scanApprovals_eq (seen : Seen) (approvals : List VerifiedApproval) :
    scanApprovals own role peerPcr0 seen approvals =
      (approvals.findSome? (verdict own role peerPcr0)).getD
        (.refuse (approvals.foldl (Seen.note role peerPcr0) seen).refusal) := by
  induction approvals generalizing seen with
  | nil => rfl
  | cons a rest ih =>
    rw [scanApprovals, List.findSome?_cons, List.foldl_cons]
    by_cases hpeer : a.pcr0 = peerPcr0
    · by_cases hrole : a.role = role
      · cases hmode : a.mode with
        | carry =>
          by_cases hnewer : own.version < a.version
          · simp [verdict, hpeer, hrole, hmode, hnewer]
          · simp [verdict, Seen.note, hpeer, hrole, hmode, hnewer, ih]
        | fresh => simp [verdict, Seen.note, hpeer, hrole, hmode, ih]
        | child => simp [verdict, hpeer, hrole, hmode]
      · simp [verdict, Seen.note, hpeer, hrole, ih]
    · simp [verdict, Seen.note, hpeer, ih]

/-- An approval that the loop passes sets at most one flag. -/
theorem Seen.note_cases (role : EnclaveRole) (peerPcr0 : Pcr0) (a : VerifiedApproval) :
    (∀ seen : Seen, seen.note role peerPcr0 a = seen) ∨
      (∀ seen : Seen, seen.note role peerPcr0 a = { seen with roleMismatch := true }) ∨
      (∀ seen : Seen, seen.note role peerPcr0 a = { seen with carryNotNewer := true }) ∨
      ∀ seen : Seen, seen.note role peerPcr0 a = { seen with fresh := true } := by
  by_cases hpeer : a.pcr0 = peerPcr0
  · by_cases hrole : a.role = role
    · cases hmode : a.mode with
      | carry => exact .inr (.inr (.inl fun seen => by simp [Seen.note, hpeer, hrole, hmode]))
      | child => exact .inl fun seen => by simp [Seen.note, hpeer, hrole, hmode]
      | fresh => exact .inr (.inr (.inr fun seen => by simp [Seen.note, hpeer, hrole, hmode]))
    · exact .inr (.inl fun seen => by simp [Seen.note, hpeer, hrole])
  · exact .inl fun seen => by simp [Seen.note, hpeer]

/-- What the loop remembers does not depend on the order it was seen in. -/
theorem Seen.note_comm (seen : Seen) (a b : VerifiedApproval) :
    (seen.note role peerPcr0 a).note role peerPcr0 b =
      (seen.note role peerPcr0 b).note role peerPcr0 a := by
  obtain ha | ha | ha | ha := Seen.note_cases role peerPcr0 a <;>
    obtain hb | hb | hb | hb := Seen.note_cases role peerPcr0 b <;>
      simp only [ha, hb]

theorem foldl_note_perm {approvals' : List VerifiedApproval} (hperm : approvals.Perm approvals')
    (seen : Seen) :
    approvals.foldl (Seen.note role peerPcr0) seen =
      approvals'.foldl (Seen.note role peerPcr0) seen :=
  hperm.foldl_eq' (fun a _ b _ s => Seen.note_comm s a b) seen

/-- The approvals that decide anything about the peer all decide the same. -/
def Agree (own : ImageIdentity) (role : EnclaveRole) (peerPcr0 : Pcr0)
    (approvals : List VerifiedApproval) : Prop :=
  ∀ a ∈ approvals, ∀ b ∈ approvals, ∀ d e, verdict own role peerPcr0 a = some d →
    verdict own role peerPcr0 b = some e → d = e

/-- Where all verdicts agree, the first one is the same in every order. -/
theorem Agree.findSome?_perm {approvals' : List VerifiedApproval}
    (hagree : Agree own role peerPcr0 approvals) (hperm : approvals.Perm approvals') :
    approvals'.findSome? (verdict own role peerPcr0) =
      approvals.findSome? (verdict own role peerPcr0) := by
  cases h : approvals.findSome? (verdict own role peerPcr0) with
  | none =>
    rw [List.findSome?_eq_none_iff] at h ⊢
    intro a ha
    exact h a (hperm.mem_iff.mpr ha)
  | some d =>
    obtain ⟨a, ha, hd⟩ := List.exists_of_findSome?_eq_some h
    cases h' : approvals'.findSome? (verdict own role peerPcr0) with
    | none =>
      rw [List.findSome?_eq_none_iff] at h'
      rw [h' a (hperm.mem_iff.mp ha)] at hd
      cases hd
    | some e =>
      obtain ⟨b, hb, he⟩ := List.exists_of_findSome?_eq_some h'
      rw [hagree a ha b (hperm.mem_iff.mpr hb) d e hd he]

/-- An approval with a verdict decides when the host pushes it first. -/
theorem scanApprovals_of_head {a : VerifiedApproval} (ha : a ∈ approvals)
    (h : verdict own role peerPcr0 a = some decision) (seen : Seen) :
    ∃ approvals', approvals.Perm approvals' ∧
      scanApprovals own role peerPcr0 seen approvals' = decision := by
  refine ⟨a :: approvals.erase a, List.perm_cons_erase ha, ?_⟩
  rw [scanApprovals_eq, List.findSome?_cons, h]
  rfl

/-- Every order of the approvals gets the same decision exactly when the key is a bare
candidate, the peer runs the same image, or the deciding approvals agree. -/
theorem decideHandover_order_independent_iff (own : ImageIdentity) (role : EnclaveRole)
    (peerPcr0 : Pcr0) (ownKeyIsCandidate : Bool) (approvals : List VerifiedApproval) :
    (∀ approvals', approvals.Perm approvals' →
      decideHandover own role peerPcr0 ownKeyIsCandidate approvals' =
        decideHandover own role peerPcr0 ownKeyIsCandidate approvals) ↔
      ownKeyIsCandidate = true ∨ peerPcr0 = own.pcr0 ∨ Agree own role peerPcr0 approvals := by
  simp only [decideHandover]
  by_cases hcandidate : ownKeyIsCandidate = true
  · simp [hcandidate]
  by_cases hsame : peerPcr0 = own.pcr0
  · simp [hsame]
  simp only [hcandidate, hsame, Bool.false_eq_true, if_false, false_or]
  constructor
  · -- each of two verdicts can be made the first
    intro h a ha b hb d e hd he
    obtain ⟨first, hfirst, hd'⟩ := scanApprovals_of_head ha hd ⟨false, false, false⟩
    obtain ⟨second, hsecond, he'⟩ := scanApprovals_of_head hb he ⟨false, false, false⟩
    rw [← hd', ← he', h first hfirst, h second hsecond]
  · intro hagree approvals' hperm
    rw [scanApprovals_eq, scanApprovals_eq, hagree.findSome?_perm hperm, foldl_note_perm hperm]

/-- Two approvals of one peer as a child, under different labels. -/
def twoChildren : List VerifiedApproval :=
  [⟨filled 48 2, 1, .child, filled 32 1, .oracle, 200, filled 32 0⟩,
    ⟨filled 48 2, 1, .child, filled 32 2, .oracle, 200, filled 32 0⟩]

/-- The host chooses the child's label by choosing which approval it pushes first. -/
theorem host_order_picks_child :
    twoChildren.Perm twoChildren.reverse ∧
      decideHandover ⟨filled 48 1, 1⟩ .oracle (filled 48 2) false twoChildren =
        .child (filled 32 1) ∧
      decideHandover ⟨filled 48 1, 1⟩ .oracle (filled 48 2) false twoChildren.reverse =
        .child (filled 32 2) :=
  ⟨(List.reverse_perm twoChildren).symm, by decide +kernel, by decide +kernel⟩

/-! ### The client's decision -/

inductive FetchKind where
  | rootFromRoot
  | bridgeFromBridge
  | bridgeFromParent
deriving DecidableEq, Repr

inductive ClientRefusal where
  | serverPcrNotSelfOrAncestor
  | serverPcrNotSelf
  | serverPcrNotParentOracle
deriving DecidableEq, Repr

inductive ClientDecision where
  | accept
  | reject (reason : ClientRefusal)
deriving DecidableEq, Repr

def clientAcceptsServer (kind : FetchKind) (ownPcr0 serverPcr0 : Pcr0)
    (bakedAncestors : List Pcr0) : ClientDecision :=
  match kind with
  | .rootFromRoot =>
    if serverPcr0 = ownPcr0 ∨ serverPcr0 ∈ bakedAncestors then .accept
    else .reject .serverPcrNotSelfOrAncestor
  | .bridgeFromBridge => if serverPcr0 = ownPcr0 then .accept else .reject .serverPcrNotSelf
  | .bridgeFromParent =>
    if serverPcr0 ∈ bakedAncestors then .accept else .reject .serverPcrNotParentOracle

/-- A bridge takes its key from a baked parent only, its own image included. -/
theorem clientAcceptsServer_parent {ownPcr0 serverPcr0 : Pcr0} {bakedAncestors : List Pcr0} :
    clientAcceptsServer .bridgeFromParent ownPcr0 serverPcr0 bakedAncestors = .accept ↔
      serverPcr0 ∈ bakedAncestors := by
  rw [clientAcceptsServer]
  split <;> simp_all

end Nuntius.HandoverPolicy
