import Mathlib.Logic.Function.Basic
import Nuntius.AttestedExchange
import Nuntius.BootSafety
import Nuntius.ControlChannel

/-!
# Runs of the oracle image

Control requests, the boot loop and handover connections share the state behind one lock
and interleave freely. A step is what happens between two acquisitions of that lock: a
control request, the start or the end of a boot tick, the installation of the key, the
early check of a connection, the snapshot it takes, and the moment it frames a key. A
connection may also end at any time.
-/

namespace Nuntius.OracleRuns
open WireFormat HandoverPolicy OwnerApprovals ControlChannel InteractivePrograms LabelledRuns
open AttestedExchange BootRules

/-- The image, and how it verifies an attestation at a clock reading. -/
structure HandoverImage extends OracleImage where
  verifyAttestation : ℕ → List UInt8 → Bytes 32 → Option VerifiedPeer

/-- What a connection carries into the handshake: the clock read for it, its channel, and
the key and the approvals as they were under the lock. -/
structure Snapshot where
  now : ℕ
  channel : Channel
  rootKey : Key
  approvals : List VerifiedApproval

inductive Connection where
  | probed
  | armed (snap : Snapshot)

/-- Where the boot task stands. -/
inductive BootTask where
  | waiting
  | ticking (peers : List String)
  | resolved (installed : Installed)
  | serving

structure ImageState where
  keyex : OracleKeyexState
  loop : BootLoopState
  task : BootTask
  connections : ℕ → Option Connection

def ImageState.start : ImageState where
  keyex := .new
  loop := ⟨none⟩
  task := .waiting
  connections := fun _ => none

variable (img : HandoverImage) (ε : Type)

inductive Label where
  | control (env : Surroundings) (body : Option OracleRequest) (reply : Reply)
  | tickStarted (peers : List String)
  | ticked (t : Transcript (BootAnswer img.addressFromKey ε))
      (outcome : Except (BootError ε) StepOutcome)
  | installed (key : Key)
  | opened (conn : ℕ)
  | armed (conn : ℕ) (snap : Snapshot)
  | framed (conn : ℕ) (snap : Snapshot) (t : Transcript ChannelAnswer) (key : TransferKey)
  | closed (conn : ℕ)

variable {ε}

/-- A discovery tick of the oracle: every peer is asked for the root, and no fresh approval
counts. -/
def bootDeps (peers : List String) : BootDeps where
  role := .oracle
  peers := peers.map fun peer => (peer, .rootFromRoot)
  freshApproved := false

/-- Key generation publishes what it mints. -/
def publishAll (st : OracleKeyexState) (keys : List SigningKey) : OracleKeyexState :=
  keys.foldl (fun st key => st.publishCandidate (img.addressFromKey key) (img.publicPoint key)) st

def afterTick (outcome : Except (BootError ε) StepOutcome) : BootTask :=
  match resolvedBy outcome with
  | some installed => .resolved installed
  | none => .waiting

def installedKey : Installed → Key × KeySource
  | .candidate key => (key, .genesis)
  | .peer _ key => (key, .peer)

def install (st : OracleKeyexState) (installed : Installed) : OracleKeyexState :=
  let (key, source) := installedKey installed
  st.installKey key (img.addressFromKey key) (img.publicPoint key) source

def handoverInputs (snap : Snapshot) : HandoverInputs where
  own := img.identity
  role := .oracle
  ownKeyIsCandidate := false
  approvals := snap.approvals

/-- The exchange a connection runs on its snapshot. -/
def connectionExchange (snap : Snapshot) : Exchange ServerExchange :=
  serverExchange snap.channel (handoverInputs img snap) img.deriveChild snap.rootKey

inductive Step : ImageState → Label img ε → ImageState → Prop where
  | control {s : ImageState} (env : Surroundings) (body : Option OracleRequest) :
      Step s (.control env body (handleControlConnection img.toOracleImage env s.keyex body).1)
        { s with keyex := (handleControlConnection img.toOracleImage env s.keyex body).2 }
  | tickStarted {s : ImageState} (idle : s.task = .waiting) :
      Step s (.tickStarted (s.keyex.peerSnapshot img.toOracleImage))
        { s with task := .ticking (s.keyex.peerSnapshot img.toOracleImage) }
  | ticked {s : ImageState} {peers : List String}
      {t : Transcript (BootAnswer img.addressFromKey ε)} {loop' : BootLoopState}
      {outcome : Except (BootError ε) StepOutcome} (busy : s.task = .ticking peers)
      (ran : Prog.Runs (step s.loop (bootDeps peers)) t (loop', outcome)) :
      Step s (.ticked t outcome)
        { s with
          keyex := publishAll img s.keyex (generatedKeys t)
          loop := loop'
          task := afterTick outcome }
  | installed {s : ImageState} {key : Installed} (done : s.task = .resolved key) :
      Step s (.installed (installedKey key).1)
        { s with keyex := install img s.keyex key, task := .serving }
  | opened {s : ImageState} {conn : ℕ} (up : s.task = .serving)
      (unused : s.connections conn = none) (key : s.keyex.rootKey.isSome = true) :
      Step s (.opened conn)
        { s with connections := Function.update s.connections conn (some .probed) }
  | armed {s : ImageState} {conn : ℕ} {snap : Snapshot}
      (probed : s.connections conn = some .probed)
      (verify : snap.channel.verify = img.verifyAttestation snap.now)
      (key : s.keyex.rootKey = some snap.rootKey) (approvals : snap.approvals = s.keyex.approvals) :
      Step s (.armed conn snap)
        { s with connections := Function.update s.connections conn (some (.armed snap)) }
  | framed {s : ImageState} {conn : ℕ} {snap : Snapshot} {t : Transcript ChannelAnswer}
      {key : TransferKey} (armed : s.connections conn = some (.armed snap))
      (asks : Fallible.Asks (connectionExchange img snap) t (.write (.grant key))) :
      Step s (.framed conn snap t key)
        { s with connections := Function.update s.connections conn none }
  | closed {s : ImageState} {conn : ℕ} :
      Step s (.closed conn) { s with connections := Function.update s.connections conn none }

abbrev ImageRun (labels : List (Label img ε)) (s : ImageState) : Prop :=
  Run ImageState.start (Step img) labels s

/-! ### What is stored, and what a connection carries -/

variable {img}

/-- An earlier approval request was accepted as this approval. -/
def Backed (labels : List (Label img ε)) (va : VerifiedApproval) : Prop :=
  ∃ env typedData signatures,
    .control env (some (.approval typedData signatures)) (.approvalResult true none) ∈ labels ∧
      AcceptedAs img.toOracleImage env typedData signatures va

theorem Backed.later {older : List (Label img ε)} {va : VerifiedApproval} (l : Label img ε)
    (h : Backed older va) : Backed (l :: older) va := by
  obtain ⟨env, typedData, signatures, hmem, accepted⟩ := h
  exact ⟨env, typedData, signatures, List.mem_cons_of_mem l hmem, accepted⟩

/-- Every approval and every key in memory has its label in the past. -/
structure Accounted (labels : List (Label img ε)) (s : ImageState) : Prop where
  approvals : ∀ va ∈ s.keyex.approvals, Backed labels va
  rootKey : ∀ key, s.keyex.rootKey = some key → .installed key ∈ labels
  snapshots : ∀ conn snap, s.connections conn = some (.armed snap) →
    .installed snap.rootKey ∈ labels ∧ ∀ va ∈ snap.approvals, Backed labels va

variable {older : List (Label img ε)} {s : ImageState}

theorem Accounted.snapshot_later (h : Accounted older s) (l : Label img ε) {conn : ℕ}
    {snap : Snapshot} (hsnap : s.connections conn = some (.armed snap)) :
    .installed snap.rootKey ∈ l :: older ∧ ∀ va ∈ snap.approvals, Backed (l :: older) va := by
  obtain ⟨hkey, hbacked⟩ := h.snapshots conn snap hsnap
  exact ⟨List.mem_cons_of_mem l hkey, fun va hva => (hbacked va hva).later l⟩

/-- A step that leaves the key and the approvals alone and arms no connection. -/
theorem Accounted.carry (h : Accounted older s) (l : Label img ε) {s' : ImageState}
    (approvals : s'.keyex.approvals = s.keyex.approvals)
    (rootKey : s'.keyex.rootKey = s.keyex.rootKey)
    (connections : ∀ conn snap, s'.connections conn = some (.armed snap) →
      s.connections conn = some (.armed snap)) :
    Accounted (l :: older) s' where
  approvals := by
    intro va hva
    rw [approvals] at hva
    exact (h.approvals va hva).later l
  rootKey := by
    intro key hkey
    rw [rootKey] at hkey
    exact List.mem_cons_of_mem l (h.rootKey key hkey)
  snapshots := by
    intro conn snap hsnap
    exact h.snapshot_later l (connections conn snap hsnap)

theorem Accounted.control (h : Accounted older s) (env : Surroundings)
    (body : Option OracleRequest) :
    Accounted
      (.control env body (handleControlConnection img.toOracleImage env s.keyex body).1 :: older)
      { s with keyex := (handleControlConnection img.toOracleImage env s.keyex body).2 } := by
  obtain hsame | ⟨hints, hhints⟩ | ⟨typedData, signatures, va, rfl, hstored, accepted⟩ :=
    handleControlConnection_cases img.toOracleImage env s.keyex body
  · exact h.carry _ (by rw [hsame]) (by rw [hsame]) fun _ _ => id
  · exact h.carry _ (by rw [hhints]; rfl) (by rw [hhints]; rfl) fun _ _ => id
  · rw [hstored]
    refine ⟨?_, fun key hkey => List.mem_cons_of_mem _ (h.rootKey key hkey),
      fun conn snap => h.snapshot_later _⟩
    intro va' hva'
    obtain hold | rfl := DistinctLists.mem_pushNew.mp hva'
    · exact (h.approvals va' hold).later _
    · exact ⟨env, typedData, signatures, List.mem_cons_self, accepted⟩

@[simp] theorem publishAll_keeps (st : OracleKeyexState) (keys : List SigningKey) :
    (publishAll img st keys).approvals = st.approvals ∧
      (publishAll img st keys).rootKey = st.rootKey := by
  induction keys generalizing st with
  | nil => exact ⟨rfl, rfl⟩
  | cons key keys ih => exact ih _

/-- Replacing one connection by one that is not armed arms none. -/
theorem armed_of_update {conn conn' : ℕ} {c : Option Connection} {snap : Snapshot}
    (hc : c ≠ some (.armed snap))
    (h : Function.update s.connections conn c conn' = some (.armed snap)) :
    s.connections conn' = some (.armed snap) := by
  by_cases hconn : conn' = conn
  · subst hconn
    rw [Function.update_self] at h
    exact absurd h hc
  · rwa [Function.update_of_ne hconn] at h

theorem accounted_step {s' : ImageState} {l : Label img ε} (h : Accounted older s)
    (now : Step img s l s') : Accounted (l :: older) s' := by
  cases now with
  | control env body => exact h.control env body
  | tickStarted idle => exact h.carry _ rfl rfl fun _ _ => id
  | ticked busy ran =>
    exact h.carry _ (publishAll_keeps _ _).1 (publishAll_keeps _ _).2 fun _ _ => id
  | installed done =>
    refine ⟨fun va hva => (h.approvals va hva).later _, ?_, fun conn snap => h.snapshot_later _⟩
    intro key hkey
    cases hkey
    exact List.mem_cons_self
  | opened up unused key => exact h.carry _ rfl rfl fun _ _ => armed_of_update nofun
  | @armed conn snap probed verify key approvals =>
    refine ⟨fun va hva => (h.approvals va hva).later _,
      fun key hkey => List.mem_cons_of_mem _ (h.rootKey key hkey), ?_⟩
    intro conn' snap' hsnap
    change Function.update s.connections conn _ conn' = _ at hsnap
    by_cases hconn : conn' = conn
    · subst hconn
      rw [Function.update_self] at hsnap
      cases hsnap
      refine ⟨List.mem_cons_of_mem _ (h.rootKey _ key), ?_⟩
      intro va hva
      rw [approvals] at hva
      exact (h.approvals va hva).later _
    · rw [Function.update_of_ne hconn] at hsnap
      exact h.snapshot_later _ hsnap
  | framed armed asks => exact h.carry _ rfl rfl fun _ _ => armed_of_update nofun
  | closed => exact h.carry _ rfl rfl fun _ _ => armed_of_update nofun

theorem accounted_run {labels : List (Label img ε)} (run : ImageRun img labels s) :
    Accounted labels s := by
  refine run.invariant Accounted ?_ ?_
  · exact ⟨nofun, nofun, nofun⟩
  · intro older s l s' _ ih now
    exact accounted_step ih now

end Nuntius.OracleRuns
