import Nuntius.OracleRuns

/-!
# Who receives a key over a whole run

A key framed to a foreign image was installed before, and an owner quorum approved that
image while the approval had not expired. Nothing asks again at the connection: a stored
approval serves for as long as the image runs, and a key can be framed on the strength of
one that has long expired.
-/

namespace Nuntius.OracleRuns
open WireFormat HandoverPolicy OwnerApprovals ControlChannel InteractivePrograms LabelledRuns
open AttestedExchange BootRules

variable {img : HandoverImage} {ε : Type}

/-- The approval names the peer for the oracle role, and its mode, version and label justify
framing `key`. -/
structure Justifies (img : HandoverImage) (peerPcr0 : Pcr0) (rootKey key : Key)
    (va : VerifiedApproval) : Prop where
  peer : va.pcr0 = peerPcr0
  role : va.role = .oracle
  mode : (va.mode = .carry ∧ img.version < va.version ∧ key = rootKey) ∨
    (va.mode = .child ∧ key = img.deriveChild rootKey va.label)

/-- A released key is justified by an approval of the snapshot, unless the peer is the same
image. -/
theorem justified_of_released {snap : Snapshot} {peerPcr0 : Pcr0} {key : Key}
    (h : released img.deriveChild snap.rootKey (decideHandover img.identity .oracle peerPcr0
      false snap.approvals) = some key) (hforeign : peerPcr0 ≠ img.pcr0) :
    ∃ va ∈ snap.approvals, Justifies img peerPcr0 snap.rootKey key va := by
  generalize hdecide : decideHandover img.identity .oracle peerPcr0 false snap.approvals = d at h
  have hgrant : ∀ r, d ≠ .refuse r := by
    rintro r rfl
    cases h
  obtain ⟨va, hva, auth⟩ := decideHandover_grants hdecide hgrant hforeign
  refine ⟨va, hva, auth.peer, auth.scope, ?_⟩
  obtain ⟨rfl, hmode, hnewer⟩ | ⟨rfl, hmode, _⟩ := auth.justified
  · cases h
    exact .inl ⟨hmode, hnewer, rfl⟩
  · cases h
    exact .inr ⟨hmode, rfl⟩

section Framing
variable {newer older : List (Label img ε)} {conn : ℕ} {snap : Snapshot}
  {t : Transcript ChannelAnswer} {key : TransferKey} {s : ImageState}

/-- What stands behind every framed key. -/
theorem framed_grounds (run : ImageRun img (newer ++ .framed conn snap t key :: older) s) :
    .installed snap.rootKey ∈ older ∧ (∀ va ∈ snap.approvals, Backed older va) ∧
      ∃ peer, verifiedPeer snap.channel t = some peer ∧
        (peer.pcr0 ≠ img.pcr0 →
          ∃ va ∈ snap.approvals, Justifies img peer.pcr0 snap.rootKey key va) := by
  obtain ⟨s₀, s₁, before, now⟩ := Run.fired run
  cases now with
  | framed armed asks =>
    obtain ⟨hkey, hbacked⟩ := (accounted_run before).snapshots conn snap armed
    obtain ⟨peer, hpeer, hreleased⟩ := serverExchange_grant asks
    exact ⟨hkey, hbacked, peer, hpeer, justified_of_released hreleased⟩

end Framing

/-! ### A run in which a key is framed

The owner approves a newer image until time 200. A peer holds the registered key; the image
fetches it, installs it, and serves one connection whose clock reads `now`. -/

def demoOwner : Address := filled 20 7
def demoPeerPcr0 : Pcr0 := filled 48 0x11

def demoImage : HandoverImage where
  pcr0 := filled 48 0
  version := 1
  owners := [demoOwner]
  threshold := 1
  chainId := 46630
  registry := demoOwner
  peers := ["peer:8443"]
  scheme := ⟨fun _ => filled 32 0, fun _ _ => some demoOwner⟩
  parseAddress := fun _ => none
  normalizePeer := some
  deriveChild := fun key _ => key
  addressFromKey := demoAddress
  publicPoint := fun _ => [4]
  debugOwners := fun _ => ""
  verifyAttestation := fun _ _ nonce => some ⟨demoPeerPcr0, some nonce.val, [4]⟩

def hexDigits (n : ℕ) (c : Char) : String := String.ofList ('0' :: 'x' :: List.replicate n c)

def demoTypedData : Json :=
  .obj
    [("domain", .obj
      [("name", .str "Kaskad Keyex"), ("version", .str "1"), ("chainId", .num (.posInt 46630))]),
     ("message", .obj
      [("pcr0", .str (hexDigits 96 '1')),
       ("version", .num (.posInt 2)), ("mode", .num (.posInt 1)),
       ("label", .str (hexDigits 64 '0')),
       ("role", .num (.posInt 1)), ("expiry", .num (.posInt 200)),
       ("nonce", .str (hexDigits 64 '0'))])]

def demoRequest : OracleRequest := .approval demoTypedData [hexDigits 130 '2']

/-- The approval arrives at time 100, before its expiry. -/
def demoSurroundings : Surroundings where
  nsm := some ⟨some 100, fun _ _ => none⟩
  liveQuorum := .ok ([demoOwner], 1)

/-- The peer hands over the key of `1`, which the registry lists. -/
def demoRegistry : ℕ → (q : BootQuery) → BootAnswer demoAddress Unit q
  | _, .fetch _ _ => some (some (.ofKey demoAddress (demoKey 1)))
  | _, .registered _ => .ok true
  | _, .signerCount => .ok 1
  | _, .generate => none

def demoBootRun : Transcript (BootAnswer demoAddress Unit) ×
    (BootLoopState × Except (BootError Unit) StepOutcome) :=
  (step ⟨none⟩ (bootDeps ["peer:8443"])).exec demoRegistry 0

def demoApproval : VerifiedApproval where
  pcr0 := demoPeerPcr0
  version := 2
  mode := .carry
  label := filled 32 0
  role := .oracle
  expiry := 200
  nonce := filled 32 0

def approvedKeyex : OracleKeyexState := { OracleKeyexState.new with approvals := [demoApproval] }

theorem demo_accepted :
    handleControlConnection demoImage.toOracleImage demoSurroundings .new (some demoRequest) =
      (.approvalResult true none, approvedKeyex) := by
  decide +kernel

def demoChannel : Channel where
  myNonce := filled 32 5
  myPoint := [4]
  peerPoint := [4]
  verify := fun _ nonce => some ⟨demoPeerPcr0, some nonce.val, [4]⟩

def demoSnapshot (now : ℕ) : Snapshot := ⟨now, demoChannel, demoKey 1, [demoApproval]⟩

def demoExchange : Transcript ChannelAnswer := fullExchange demoChannel (demoKey 6) [9] [8]

theorem demo_verified : verifiedPeer demoChannel demoExchange =
    some ⟨demoPeerPcr0, some demoChannel.myNonce.val, [4]⟩ := rfl

theorem demo_asks (now : ℕ) (key : Key) :
    Fallible.Asks (connectionExchange demoImage { demoSnapshot now with rootKey := key })
      demoExchange (.write (.grant key)) := by
  have heval : evaluatePeer demoChannel [8] =
      .ok ⟨demoPeerPcr0, some demoChannel.myNonce.val, [4]⟩ := rfl
  exact serverExchange_frames (demoKey 6) [9] (by decide) heval rfl

def demoLabels (now : ℕ) : List (Label demoImage Unit) :=
  [.armed 0 (demoSnapshot now), .opened 0, .installed (demoKey 1),
    .ticked demoBootRun.1 demoBootRun.2.2, .tickStarted ["peer:8443"],
    .control demoSurroundings (some demoRequest) (.approvalResult true none)]

theorem demo_control :
    Step demoImage .start
      (.control demoSurroundings (some demoRequest) (.approvalResult true none) :
        Label demoImage Unit) { ImageState.start with keyex := approvedKeyex } := by
  have h : Step demoImage .start _ _ :=
    .control (ε := Unit) (s := .start) demoSurroundings (some demoRequest)
  rw [show ImageState.start.keyex = .new from rfl, demo_accepted] at h
  exact h

theorem demo_run (now : ℕ) :
    ∃ s, ImageRun demoImage
      (.framed 0 (demoSnapshot now) demoExchange (demoKey 1) :: demoLabels now) s := by
  have ran := Prog.exec_runs demoRegistry 0 (step ⟨none⟩ (bootDeps ["peer:8443"]))
  have done : afterTick demoBootRun.2.2 =
      .resolved (.peer (demoAddress (demoKey 1)) (demoKey 1)) := rfl
  have booted := (((Run.start.step demo_control).step (.tickStarted rfl)).step
    (.ticked rfl ran)).step (.installed done)
  exact ⟨_, ((booted.step (.opened rfl rfl rfl)).step (.armed rfl rfl rfl rfl)).step
    (.framed rfl (demo_asks now (demoKey 1)))⟩

/-! ### Quorum -/

section Quorum
variable (newer : List (Label img ε)) {older : List (Label img ε)} {conn : ℕ} {snap : Snapshot}
  {t : Transcript ChannelAnswer} {key : TransferKey} {s : ImageState}

/-- A key is framed only after it was installed, only to a verified peer, and to a foreign one
only if an earlier request, accepted with the signatures of an owner quorum before its
expiry, approved that peer for this very key. -/
theorem key_framed_with_quorum (run : ImageRun img (newer ++ .framed conn snap t key :: older) s) :
    .installed snap.rootKey ∈ older ∧ ∃ peer, verifiedPeer snap.channel t = some peer ∧
      (peer.pcr0 ≠ img.pcr0 →
        ∃ va, Backed older va ∧ Justifies img peer.pcr0 snap.rootKey key va) := by
  obtain ⟨hkey, hbacked, peer, hpeer, hjust⟩ := framed_grounds run
  refine ⟨hkey, peer, hpeer, ?_⟩
  intro hforeign
  obtain ⟨va, hva, just⟩ := hjust hforeign
  exact ⟨va, hbacked va hva, just⟩

end Quorum

/-- The connection at time 150 frames the key within the approval's life. -/
theorem key_framed_with_quorum_in_time :
    .installed (demoKey 1) ∈ demoLabels 150 ∧
      ∃ peer, verifiedPeer demoChannel demoExchange = some peer ∧
        (peer.pcr0 ≠ demoImage.pcr0 → ∃ va, Backed (demoLabels 150) va ∧
          Justifies demoImage peer.pcr0 (demoKey 1) (demoKey 1) va) := by
  obtain ⟨s, run⟩ := demo_run 150
  exact key_framed_with_quorum [] run

/-! ### Expiry -/

/-- Every key framed to a foreign peer is justified by a stored approval that has not expired at
the clock reading of the connection. -/
def GrantsAlive (labels : List (Label img ε)) : Prop :=
  ∀ conn snap t key, .framed conn snap t key ∈ labels →
    ∀ peer, verifiedPeer snap.channel t = some peer → peer.pcr0 ≠ img.pcr0 →
      ∃ va ∈ snap.approvals, Justifies img peer.pcr0 snap.rootKey key va ∧ snap.now < va.expiry

/-- Whenever a key is framed to a foreign peer, no stored approval that names the peer has
expired at the clock reading of the connection. -/
def NoStaleApproval (labels : List (Label img ε)) : Prop :=
  ∀ conn snap t key, .framed conn snap t key ∈ labels →
    ∀ peer, verifiedPeer snap.channel t = some peer → peer.pcr0 ≠ img.pcr0 →
      ∀ va ∈ snap.approvals, va.pcr0 = peer.pcr0 → snap.now < va.expiry

/-- Grants rest on live approvals in every run that meets no stale one. -/
theorem grants_alive_of_no_stale {labels : List (Label img ε)} {s : ImageState}
    (run : ImageRun img labels s) (fresh : NoStaleApproval labels) : GrantsAlive labels := by
  intro conn snap t key hframed peer hpeer hforeign
  obtain ⟨newer, older, rfl⟩ := List.append_of_mem hframed
  obtain ⟨_, _, peer', hpeer', hjust⟩ := framed_grounds run
  cases hpeer.symm.trans hpeer'
  obtain ⟨va, hva, just⟩ := hjust hforeign
  exact ⟨va, hva, just, fresh conn snap t key hframed peer hpeer hforeign va hva just.peer⟩

/-- The only framing of the example is that of its one connection. -/
theorem demo_framed {now conn : ℕ} {snap : Snapshot} {t : Transcript ChannelAnswer}
    {key : TransferKey}
    (h : .framed conn snap t key ∈
      Label.framed 0 (demoSnapshot now) demoExchange (demoKey 1) :: demoLabels now) :
    snap = demoSnapshot now ∧ t = demoExchange ∧ key = demoKey 1 := by
  simp only [demoLabels, List.mem_cons, Label.framed.injEq, reduceCtorEq, List.not_mem_nil,
    or_false] at h
  exact h.2

theorem grants_alive_in_time :
    GrantsAlive (.framed 0 (demoSnapshot 150) demoExchange (demoKey 1) :: demoLabels 150) := by
  obtain ⟨s, run⟩ := demo_run 150
  apply grants_alive_of_no_stale run
  intro conn snap t key hframed peer hpeer hforeign va hva hnamed
  obtain ⟨rfl, rfl, rfl⟩ := demo_framed hframed
  rw [List.mem_singleton.mp hva]
  decide

/-- The same connection at time 300 frames the key although the approval died at 200. -/
theorem expired_approval_frames_key :
    (∃ s, ImageRun demoImage
      (.framed 0 (demoSnapshot 300) demoExchange (demoKey 1) :: demoLabels 300) s) ∧
    ¬ GrantsAlive (.framed 0 (demoSnapshot 300) demoExchange (demoKey 1) :: demoLabels 300) := by
  refine ⟨demo_run 300, ?_⟩
  intro alive
  obtain ⟨va, hva, just, hlive⟩ := alive 0 (demoSnapshot 300) demoExchange (demoKey 1)
    List.mem_cons_self _ demo_verified (by decide)
  rw [List.mem_singleton.mp hva] at hlive
  exact absurd hlive (by decide)

end Nuntius.OracleRuns
