import Nuntius.CancellableTasks
import Nuntius.HandoverSafety

/-!
# The published identity is the held key

The runs of the oracle image in finer steps. A boot tick advances by one query at a time, so
control requests and connections also come between the generation of a candidate, which
publishes its address and its public point, and the end of the tick, when the loop holds it.
The listener for handovers is spawned after the installation; here a connection may be
served at any time, and the check of the handler itself turns the early ones away.
-/

namespace Nuntius.PublishedIdentity
open WireFormat HandoverPolicy OwnerApprovals ControlChannel InteractivePrograms LabelledRuns
open AttestedExchange BootRules OracleRuns

variable (img : HandoverImage) (ε : Type)

/-- Where the boot task stands; a tick keeps the answers it has had so far. -/
inductive BootPhase where
  | waiting
  | ticking (peers : List String) (t : Transcript (BootAnswer img.addressFromKey ε))
  | resolved (installed : Installed)
  | serving

inductive ServedConnection where
  | unserved
  | probed
  | armed (snap : Snapshot)
  | ended

structure FineState where
  keyex : OracleKeyexState
  loop : BootLoopState
  phase : BootPhase img ε
  connections : ℕ → ServedConnection

inductive Event where
  | control (env : Surroundings) (body : Option OracleRequest) (reply : Reply)
  | tickStarted (peers : List String)
  | answered (q : BootQuery) (a : BootAnswer img.addressFromKey ε q)
  | ticked (outcome : Except (BootError ε) StepOutcome)
  | installed (key : Key)
  | served (conn : ℕ)
  | armed (conn : ℕ) (snap : Snapshot)
  | framed (conn : ℕ) (frame : Frame)
  | closed (conn : ℕ)

variable {img ε}

def FineState.start : FineState img ε where
  keyex := .new
  loop := ⟨none⟩
  phase := .waiting
  connections := fun _ => .unserved

def phaseAfter (outcome : Except (BootError ε) StepOutcome) : BootPhase img ε :=
  match resolvedBy outcome with
  | some installed => .resolved installed
  | none => .waiting

/-- The first check of a connection: without a root key it ends there. -/
def earlyCheck (st : OracleKeyexState) : ServedConnection :=
  if st.rootKey.isSome = true then .probed else .ended

/-- A granted key is the last frame of an exchange. -/
def afterFrame (snap : Snapshot) : Frame → ServedConnection
  | .grant _ => .ended
  | _ => .armed snap

def FineState.setConnection (s : FineState img ε) (conn : ℕ) (c : ServedConnection) :
    FineState img ε :=
  { s with connections := Function.update s.connections conn c }

inductive FineStep : FineState img ε → Event img ε → FineState img ε → Prop where
  | control {s : FineState img ε} (env : Surroundings) (body : Option OracleRequest) :
      FineStep s (.control env body (handleControlConnection img.toOracleImage env s.keyex body).1)
        { s with keyex := (handleControlConnection img.toOracleImage env s.keyex body).2 }
  | tickStarted {s : FineState img ε} (idle : s.phase = .waiting) :
      FineStep s (.tickStarted (s.keyex.peerSnapshot img.toOracleImage))
        { s with phase := .ticking (s.keyex.peerSnapshot img.toOracleImage) [] }
  | answered {s : FineState img ε} {peers : List String}
      {t : Transcript (BootAnswer img.addressFromKey ε)} {q : BootQuery}
      (a : BootAnswer img.addressFromKey ε q) (busy : s.phase = .ticking peers t)
      (asks : Prog.Asks (step s.loop (bootDeps peers)) t q) :
      FineStep s (.answered q a)
        { s with
          keyex := publishAll img s.keyex (generatedKeys [⟨q, a⟩])
          phase := .ticking peers (t ++ [⟨q, a⟩]) }
  | ticked {s : FineState img ε} {peers : List String}
      {t : Transcript (BootAnswer img.addressFromKey ε)} {loop' : BootLoopState}
      {outcome : Except (BootError ε) StepOutcome} (busy : s.phase = .ticking peers t)
      (ran : Prog.Runs (step s.loop (bootDeps peers)) t (loop', outcome)) :
      FineStep s (.ticked outcome) { s with loop := loop', phase := phaseAfter outcome }
  | installed {s : FineState img ε} {key : Installed} (done : s.phase = .resolved key) :
      FineStep s (.installed (installedKey key).1)
        { s with keyex := install img s.keyex key, phase := .serving }
  | served {s : FineState img ε} {conn : ℕ} (unserved : s.connections conn = .unserved) :
      FineStep s (.served conn) (s.setConnection conn (earlyCheck s.keyex))
  | armed {s : FineState img ε} {conn : ℕ} {snap : Snapshot}
      (probed : s.connections conn = .probed)
      (verify : snap.channel.verify = img.verifyAttestation snap.now)
      (key : s.keyex.rootKey = some snap.rootKey) (approvals : snap.approvals = s.keyex.approvals) :
      FineStep s (.armed conn snap) (s.setConnection conn (.armed snap))
  | framed {s : FineState img ε} {conn : ℕ} {snap : Snapshot} {t : Transcript ChannelAnswer}
      {frame : Frame} (armed : s.connections conn = .armed snap)
      (asks : Fallible.Asks (connectionExchange img snap) t (.write frame)) :
      FineStep s (.framed conn frame) (s.setConnection conn (afterFrame snap frame))
  | closed {s : FineState img ε} {conn : ℕ} :
      FineStep s (.closed conn) (s.setConnection conn .ended)

abbrev FineRun (labels : List (Event img ε)) (s : FineState img ε) : Prop :=
  Run FineState.start FineStep labels s

/-! ### What is exposed -/

/-- The candidate the boot task holds, or the one its tick has just generated. A resolved
boot has taken the candidate out of the loop to install it. -/
def heldCandidate (s : FineState img ε) : Option Key :=
  match s.phase with
  | .ticking _ t => (generatedKeys t).getLast?.or (s.loop.candidate.map Prod.snd)
  | .resolved (.candidate key) => some key
  | _ => s.loop.candidate.map Prod.snd

/-- The exposed address and public point are those of the key, or there is neither. -/
structure Exposes (img : HandoverImage) (st : OracleKeyexState) (key : Option Key) : Prop where
  address : st.signerAddr = key.map img.addressFromKey
  point : st.signerPubkey = key.map img.publicPoint

/-- Nothing has been installed. -/
def Uninstalled (labels : List (Event img ε)) : Prop := ∀ key, .installed key ∉ labels

theorem uninstalled_cons {l : Event img ε} {labels : List (Event img ε)} :
    Uninstalled (l :: labels) ↔ (∀ key, .installed key ≠ l) ∧ Uninstalled labels := by
  simp only [Uninstalled, List.mem_cons, not_or, forall_and]

/-- Before the installation there is no root key and the held candidate is exposed; after it
the installed key is, and it is the only one ever installed. -/
structure Coherent (labels : List (Event img ε)) (s : FineState img ε) : Prop where
  before : s.phase ≠ .serving → Uninstalled labels ∧ s.keyex.rootKey = none ∧
    s.keyex.bootState ≠ .ready ∧ Exposes img s.keyex (heldCandidate s)
  after : s.phase = .serving → ∃ key, (∀ key', .installed key' ∈ labels ↔ key' = key) ∧
    s.keyex.rootKey = some key ∧ s.keyex.bootState = .ready ∧ Exposes img s.keyex (some key)

variable {older : List (Event img ε)} {s s' : FineState img ε} {l : Event img ε}
  {peers : List String} {t : Transcript (BootAnswer img.addressFromKey ε)}

theorem Coherent.ne_serving (h : Coherent older s) (uninstalled : Uninstalled older) :
    s.phase ≠ .serving := by
  intro ready
  obtain ⟨key, honly, -⟩ := h.after ready
  exact uninstalled key ((honly key).mpr rfl)

/-- A step that installs nothing and leaves the exposed part and the held candidate alone. -/
theorem Coherent.carry (h : Coherent older s) (plain : ∀ key, .installed key ≠ l)
    (serving : s'.phase = .serving ↔ s.phase = .serving)
    (rootKey : s'.keyex.rootKey = s.keyex.rootKey)
    (bootState : s'.keyex.bootState = s.keyex.bootState)
    (address : s'.keyex.signerAddr = s.keyex.signerAddr)
    (point : s'.keyex.signerPubkey = s.keyex.signerPubkey)
    (held : s.phase ≠ .serving → heldCandidate s' = heldCandidate s) :
    Coherent (l :: older) s' where
  before := by
    intro unready
    rw [Ne, serving] at unready
    obtain ⟨uninstalled, hroot, hstate, exposed⟩ := h.before unready
    refine ⟨uninstalled_cons.mpr ⟨plain, uninstalled⟩, rootKey.trans hroot, ?_, ?_⟩
    · rwa [bootState]
    · rw [held unready]
      exact ⟨address.trans exposed.address, point.trans exposed.point⟩
  after := by
    intro ready
    obtain ⟨key, honly, hroot, hstate, exposed⟩ := h.after (serving.mp ready)
    refine ⟨key, ?_, rootKey.trans hroot, bootState.trans hstate,
      address.trans exposed.address, point.trans exposed.point⟩
    intro key'
    rw [List.mem_cons, ← honly key']
    exact or_iff_right (plain key')

theorem Coherent.control (h : Coherent older s) (env : Surroundings)
    (body : Option OracleRequest) :
    Coherent
      (.control env body (handleControlConnection img.toOracleImage env s.keyex body).1 :: older)
      { s with keyex := (handleControlConnection img.toOracleImage env s.keyex body).2 } := by
  obtain hsame | ⟨hints, hhints⟩ | ⟨_, _, va, _, hstored, _⟩ :=
    handleControlConnection_cases img.toOracleImage env s.keyex body
  · rw [hsame]
    exact h.carry nofun Iff.rfl rfl rfl rfl rfl fun _ => rfl
  · rw [hhints]
    exact h.carry nofun Iff.rfl rfl rfl rfl rfl fun _ => rfl
  · rw [hstored]
    exact h.carry nofun Iff.rfl rfl rfl rfl rfl fun _ => rfl

/-- A successful generation, or an answer that brings no key. -/
theorem generated_cases (q : BootQuery) (a : BootAnswer img.addressFromKey ε q) :
    generatedKeys [⟨q, a⟩] = [] ∨
      ∃ key, (⟨q, a⟩ : (q : BootQuery) × BootAnswer img.addressFromKey ε q) =
        ⟨.generate, some key⟩ := by
  cases q with
  | generate =>
    cases a with
    | none => exact .inl rfl
    | some key => exact .inr ⟨key, rfl⟩
  | fetch endpoint kind => exact .inl rfl
  | registered addr => exact .inl rfl
  | signerCount => exact .inl rfl

theorem generatedKeys_generate (key : SigningKey) :
    generatedKeys ([⟨.generate, some key⟩] : Transcript (BootAnswer img.addressFromKey ε)) =
      [key] := rfl

theorem generatedKeys_append {addressFromKey : SigningKey → Address}
    (t u : Transcript (BootAnswer addressFromKey ε)) :
    generatedKeys (t ++ u) = generatedKeys t ++ generatedKeys u := by
  rw [generatedKeys, genesisAnswers_append, List.filterMap_append]
  rfl

/-- The answer that generates a key publishes it in the same moment. -/
theorem Coherent.answered (h : Coherent older s) {q : BootQuery}
    (a : BootAnswer img.addressFromKey ε q) (busy : s.phase = .ticking peers t) :
    Coherent (.answered q a :: older)
      { s with
        keyex := publishAll img s.keyex (generatedKeys [⟨q, a⟩])
        phase := .ticking peers (t ++ [⟨q, a⟩]) } := by
  obtain hnone | ⟨key, hkey⟩ := generated_cases q a
  · rw [hnone]
    refine h.carry nofun ?_ rfl rfl rfl rfl ?_
    · rw [busy]
      exact ⟨nofun, nofun⟩
    · intro _
      simp only [heldCandidate, busy, generatedKeys_append, hnone, List.append_nil]
  · cases hkey
    rw [generatedKeys_generate]
    have unready : s.phase ≠ .serving := by
      rw [busy]
      nofun
    obtain ⟨uninstalled, hroot, -, -⟩ := h.before unready
    refine ⟨fun _ => ⟨uninstalled_cons.mpr ⟨nofun, uninstalled⟩, hroot, nofun, ?_⟩, nofun⟩
    simp only [heldCandidate, generatedKeys_append, generatedKeys_generate, List.getLast?_concat,
      Option.some_or]
    exact ⟨rfl, rfl⟩

/-- The end of a tick hands the held key over to the loop, or out of it. -/
theorem heldCandidate_ticked {loop' : BootLoopState}
    {outcome : Except (BootError ε) StepOutcome} (busy : s.phase = .ticking peers t)
    (ran : Prog.Runs (step s.loop (bootDeps peers)) t (loop', outcome)) :
    heldCandidate ({ s with loop := loop', phase := phaseAfter outcome } : FineState img ε) =
      heldCandidate s := by
  simp only [heldCandidate, busy]
  cases step_effect ran with
  | fault unminted => simp only [unminted]; rfl
  | waited unminted => simp only [generatedKeys_of_unattempted unminted]; rfl
  | peer unminted => simp only [generatedKeys_of_unattempted unminted]; rfl
  | minted oracle empty generated => simp only [generated]; rfl
  | candidate unminted oracle held =>
    simp only [generatedKeys_of_unattempted unminted, held]
    rfl

theorem phaseAfter_ne_serving (outcome : Except (BootError ε) StepOutcome) :
    (phaseAfter outcome : BootPhase img ε) ≠ .serving := by
  rw [phaseAfter]
  split <;> nofun

theorem coherent_step (h : Coherent older s) (now : FineStep s l s') :
    Coherent (l :: older) s' := by
  cases now with
  | control env body => exact h.control env body
  | tickStarted idle =>
    refine h.carry nofun ?_ rfl rfl rfl rfl ?_
    · rw [idle]
      exact ⟨nofun, nofun⟩
    · intro _
      simp only [heldCandidate, idle]
      rfl
  | answered a busy asks => exact h.answered a busy
  | ticked busy ran =>
    refine h.carry nofun ?_ rfl rfl rfl rfl fun _ => heldCandidate_ticked busy ran
    rw [busy]
    exact ⟨fun ready => absurd ready (phaseAfter_ne_serving _), nofun⟩
  | @installed key done =>
    have unready : s.phase ≠ .serving := by
      rw [done]
      nofun
    obtain ⟨uninstalled, -, -, -⟩ := h.before unready
    refine ⟨fun unready => absurd rfl unready, fun _ =>
      ⟨(installedKey key).1, ?_, rfl, rfl, rfl, rfl⟩⟩
    intro key'
    rw [List.mem_cons, Event.installed.injEq]
    exact or_iff_left (uninstalled key')
  | served unserved => exact h.carry nofun Iff.rfl rfl rfl rfl rfl fun _ => rfl
  | armed probed verify key approvals => exact h.carry nofun Iff.rfl rfl rfl rfl rfl fun _ => rfl
  | framed armed asks => exact h.carry nofun Iff.rfl rfl rfl rfl rfl fun _ => rfl
  | closed => exact h.carry nofun Iff.rfl rfl rfl rfl rfl fun _ => rfl

theorem coherent_run {labels : List (Event img ε)} (run : FineRun labels s) :
    Coherent labels s := by
  refine run.invariant Coherent ?_ ?_
  · exact ⟨fun _ => ⟨nofun, rfl, nofun, rfl, rfl⟩, nofun⟩
  · intro older s l s' _ ih now
    exact coherent_step ih now

/-! ### Connections served too early -/

/-- The connection was served while nothing had been installed. -/
def TurnedAway (labels : List (Event img ε)) (conn : ℕ) : Prop :=
  ∃ newer older, labels = newer ++ .served conn :: older ∧ Uninstalled older

theorem turnedAway_cons {conn : ℕ} (h : TurnedAway (l :: older) conn) :
    (l = .served conn ∧ Uninstalled older) ∨ TurnedAway older conn := by
  obtain ⟨newer, older', heq, uninstalled⟩ := h
  cases newer with
  | nil =>
    cases heq
    exact .inl ⟨rfl, uninstalled⟩
  | cons l' newer =>
    cases heq
    exact .inr ⟨newer, older', rfl, uninstalled⟩

theorem setConnection_of_ne {conn conn' : ℕ} (c : ServedConnection) (h : conn' ≠ conn) :
    (s.setConnection conn c).connections conn' = s.connections conn' :=
  Function.update_of_ne h _ _

theorem setConnection_self (conn : ℕ) (c : ServedConnection) :
    (s.setConnection conn c).connections conn = c :=
  Function.update_self _ _ _

theorem afterFrame_ne_unserved (snap : Snapshot) (frame : Frame) :
    afterFrame snap frame ≠ .unserved := by
  cases frame <;> nofun

theorem earlyCheck_ne_unserved (st : OracleKeyexState) : earlyCheck st ≠ .unserved := by
  rw [earlyCheck]
  split <;> nofun

/-- What a step does to a connection: it leaves it alone or ends it, and frames nothing for it,
or it takes it from a state before the end to one after the start. -/
def Moves (s : FineState img ε) (l : Event img ε) (s' : FineState img ε) (conn : ℕ) : Prop :=
  ((∀ frame, l ≠ .framed conn frame) ∧
    (s'.connections conn = s.connections conn ∨ s'.connections conn = .ended)) ∨
  (s.connections conn ≠ .ended ∧ s'.connections conn ≠ .unserved)

/-- A step that moves one connection on leaves the others alone. -/
theorem moves_setConnection {conn conn' : ℕ} {c : ServedConnection}
    (hopen : s.connections conn ≠ .ended) (hc : c ≠ .unserved)
    (hplain : conn' ≠ conn → ∀ frame, l ≠ .framed conn' frame) :
    Moves s l (s.setConnection conn c) conn' := by
  by_cases hconn : conn' = conn
  · subst hconn
    rw [Moves, setConnection_self]
    exact .inr ⟨hopen, hc⟩
  · exact .inl ⟨hplain hconn, .inl (setConnection_of_ne c hconn)⟩

theorem connection_step (now : FineStep s l s') (conn : ℕ) : Moves s l s' conn := by
  cases now with
  | control env body => exact .inl ⟨by simp, .inl rfl⟩
  | tickStarted idle => exact .inl ⟨by simp, .inl rfl⟩
  | answered a busy asks => exact .inl ⟨by simp, .inl rfl⟩
  | ticked busy ran => exact .inl ⟨by simp, .inl rfl⟩
  | installed done => exact .inl ⟨by simp, .inl rfl⟩
  | served unserved =>
    exact moves_setConnection (by simp [unserved]) (earlyCheck_ne_unserved _) (by simp)
  | armed probed verify key approvals =>
    exact moves_setConnection (by simp [probed]) (by simp) (by simp)
  | framed armed asks =>
    refine moves_setConnection (by simp [armed]) (afterFrame_ne_unserved _ _) ?_
    intro hconn frame heq
    cases heq
    exact hconn rfl
  | @closed conn' =>
    refine .inl ⟨by simp, ?_⟩
    by_cases hconn : conn = conn'
    · subst hconn
      exact .inr (setConnection_self _ _)
    · exact .inl (setConnection_of_ne _ hconn)

/-- A connection that is still to be served has framed nothing in the step. -/
theorem unserved_step {conn : ℕ} (now : FineStep s l s') (h : s'.connections conn = .unserved) :
    s.connections conn = .unserved ∧ ∀ frame, l ≠ .framed conn frame := by
  rcases connection_step now conn with ⟨hplain, hsame | hended⟩ | ⟨-, hserved⟩
  · exact ⟨hsame.symm.trans h, hplain⟩
  · cases hended.symm.trans h
  · exact absurd h hserved

/-- An ended connection stays ended and frames nothing. -/
theorem ended_step {conn : ℕ} (now : FineStep s l s') (h : s.connections conn = .ended) :
    s'.connections conn = .ended ∧ ∀ frame, l ≠ .framed conn frame := by
  rcases connection_step now conn with ⟨hplain, hsame | hended⟩ | ⟨hopen, -⟩
  · exact ⟨hsame.trans h, hplain⟩
  · exact ⟨hended, hplain⟩
  · exact absurd h hopen

/-- A connection that was turned away, or not served yet, has framed nothing. -/
structure Silent (labels : List (Event img ε)) (s : FineState img ε) : Prop where
  unserved : ∀ conn, s.connections conn = .unserved → ∀ frame, .framed conn frame ∉ labels
  turnedAway : ∀ conn, TurnedAway labels conn →
    s.connections conn = .ended ∧ ∀ frame, .framed conn frame ∉ labels

theorem framed_notMem_cons {conn : ℕ} (hnew : ∀ frame, l ≠ .framed conn frame)
    (hold : ∀ frame, .framed conn frame ∉ older) : ∀ frame, .framed conn frame ∉ l :: older := by
  intro frame hmem
  cases hmem with
  | head => exact hnew frame rfl
  | tail _ hmem => exact hold frame hmem

theorem silent_step (coherent : Coherent older s) (h : Silent older s)
    (now : FineStep s l s') : Silent (l :: older) s' where
  unserved := by
    intro conn hunserved
    obtain ⟨hbefore, hplain⟩ := unserved_step now hunserved
    exact framed_notMem_cons hplain (h.unserved conn hbefore)
  turnedAway := by
    intro conn haway
    obtain ⟨rfl, uninstalled⟩ | haway := turnedAway_cons haway
    · cases now with
      | served unserved =>
        have hroot := (coherent.before (coherent.ne_serving uninstalled)).2.1
        refine ⟨?_, framed_notMem_cons nofun (h.unserved conn unserved)⟩
        rw [setConnection_self, earlyCheck, hroot]
        rfl
    · obtain ⟨hended, hsilent⟩ := h.turnedAway conn haway
      obtain ⟨hended', hplain⟩ := ended_step now hended
      exact ⟨hended', framed_notMem_cons hplain hsilent⟩

theorem silent_run {labels : List (Event img ε)} (run : FineRun labels s) : Silent labels s := by
  refine run.invariant Silent ?_ ?_
  · refine ⟨nofun, ?_⟩
    rintro conn ⟨newer, older, heq, -⟩
    exact absurd heq.symm (List.append_ne_nil_of_right_ne_nil newer (List.cons_ne_nil _ older))
  · intro older s l s' before ih now
    exact silent_step (coherent_run before) ih now

/-! ### The identity over whole runs -/

/-- What is attested is the exposed pair. -/
theorem attestationReply_exposed {st : OracleKeyexState} {held : Option Key}
    (exposed : Exposes img st held) {env : Surroundings} {nonce : Option String}
    {doc : List UInt8} {signer : Address} {pcr0 : Pcr0}
    (h : attestationReply img.toOracleImage env st nonce = .attestation doc signer pcr0) :
    ∃ key nsm given, held = some key ∧ signer = img.addressFromKey key ∧ env.nsm = some nsm ∧
      nsm.attestation given (img.publicPoint key) = some doc := by
  rw [attestationReply, exposed.address, exposed.point] at h
  cases held with
  | none => cases h
  | some key =>
    simp only [Option.map_some] at h
    split at h
    · cases h
    · split at h
      · cases h
      · rename_i nsm hnsm
        split at h
        · rename_i hdoc
          cases h
          exact ⟨key, nsm, _, rfl, rfl, hnsm, hdoc⟩
        · cases h

/-- In every interleaving the root key is there exactly when the state is ready. Before the
installation the exposed address and point are those of the candidate the boot holds, and
after it those of the installed key; an attestation is over that one key. No candidate is
published after the installation, and a connection served before it frames nothing. -/
theorem published_identity_held {labels : List (Event img ε)} (run : FineRun labels s) :
    (s.keyex.rootKey.isSome = true ↔ s.keyex.bootState = .ready) ∧
    (Uninstalled labels → s.keyex.rootKey = none ∧ Exposes img s.keyex (heldCandidate s)) ∧
    (∀ key, .installed key ∈ labels →
      s.keyex.rootKey = some key ∧ Exposes img s.keyex (some key)) ∧
    (∀ env nonce doc signer pcr0,
      attestationReply img.toOracleImage env s.keyex nonce = .attestation doc signer pcr0 →
      ∃ key nsm given, signer = img.addressFromKey key ∧ env.nsm = some nsm ∧
        nsm.attestation given (img.publicPoint key) = some doc ∧
        (Uninstalled labels ∧ heldCandidate s = some key ∨ .installed key ∈ labels)) ∧
    (∀ newer key older, labels = newer ++ .answered .generate (some key) :: older →
      Uninstalled older) ∧
    ∀ newer conn older, labels = newer ++ .served conn :: older → Uninstalled older →
      ∀ frame, .framed conn frame ∉ labels := by
  have coherent := coherent_run run
  refine ⟨?_, ?_, ?_, ?_, ?_, ?_⟩
  · by_cases ready : s.phase = .serving
    · obtain ⟨key, -, hroot, hstate, -⟩ := coherent.after ready
      simp [hroot, hstate]
    · obtain ⟨-, hroot, hstate, -⟩ := coherent.before ready
      simp [hroot, hstate]
  · intro uninstalled
    obtain ⟨-, hroot, -, exposed⟩ := coherent.before (coherent.ne_serving uninstalled)
    exact ⟨hroot, exposed⟩
  · intro key hkey
    by_cases ready : s.phase = .serving
    · obtain ⟨key', honly, hroot, -, exposed⟩ := coherent.after ready
      rw [(honly key).mp hkey]
      exact ⟨hroot, exposed⟩
    · exact absurd hkey ((coherent.before ready).1 key)
  · intro env nonce doc signer pcr0 hreply
    by_cases ready : s.phase = .serving
    · obtain ⟨key, honly, -, -, exposed⟩ := coherent.after ready
      obtain ⟨key', nsm, given, hkey, hsigner, hnsm, hdoc⟩ :=
        attestationReply_exposed exposed hreply
      cases hkey
      exact ⟨key, nsm, given, hsigner, hnsm, hdoc, .inr ((honly key).mpr rfl)⟩
    · obtain ⟨uninstalled, -, -, exposed⟩ := coherent.before ready
      obtain ⟨key, nsm, given, hheld, hsigner, hnsm, hdoc⟩ :=
        attestationReply_exposed exposed hreply
      exact ⟨key, nsm, given, hsigner, hnsm, hdoc, .inl ⟨uninstalled, hheld⟩⟩
  · rintro newer key older rfl
    obtain ⟨s₀, s₁, before, now⟩ := run.fired
    cases now with
    | answered a busy asks =>
      have unready : s₀.phase ≠ .serving := by
        rw [busy]
        nofun
      exact ((coherent_run before).before unready).1
  · intro newer conn older heq uninstalled
    exact ((silent_run run).turnedAway conn ⟨newer, older, heq, uninstalled⟩).2

/-! ### Two ticks up to an installed candidate -/

def answerEvents (t : Transcript (BootAnswer img.addressFromKey ε)) : List (Event img ε) :=
  (t.map fun e => .answered e.1 e.2).reverse

/-- Every part of a tick can be taken query by query. -/
theorem answers_run {labels : List (Event img ε)} {peers : List String}
    {t u : Transcript (BootAnswer img.addressFromKey ε)} (run : FineRun labels s)
    (busy : s.phase = .ticking peers t)
    (asks : ∀ v q a w, u = v ++ ⟨q, a⟩ :: w →
      Prog.Asks (step s.loop (bootDeps peers)) (t ++ v) q) :
    FineRun (answerEvents u ++ labels)
      { s with
        keyex := publishAll img s.keyex (generatedKeys u)
        phase := .ticking peers (t ++ u) } := by
  induction u generalizing s t labels with
  | nil =>
    rw [List.append_nil, ← busy]
    exact run
  | cons e u ih =>
    obtain ⟨q, a⟩ := e
    have hfirst := asks [] q a u rfl
    rw [List.append_nil] at hfirst
    have hrest := ih (run.step (.answered a busy hfirst)) rfl ?_
    · have hevents : answerEvents (⟨q, a⟩ :: u) ++ labels =
          answerEvents u ++ .answered q a :: labels := by
        simp [answerEvents]
      have hkeys : publishAll img s.keyex (generatedKeys (⟨q, a⟩ :: u)) =
          publishAll img (publishAll img s.keyex (generatedKeys [⟨q, a⟩])) (generatedKeys u) := by
        rw [← List.singleton_append, generatedKeys_append]
        exact List.foldl_append
      rw [hevents, hkeys, List.append_cons t]
      exact hrest
    · rintro v q' a' w rfl
      have hnext := asks (⟨q, a⟩ :: v) q' a' w rfl
      rwa [List.append_cons] at hnext

/-- The registry is empty and no peer hands a key over; a candidate would be registered. -/
def demoGenesis : ℕ → (q : BootQuery) → BootAnswer demoAddress Unit q
  | _, .fetch _ _ => none
  | _, .registered _ => .ok true
  | _, .signerCount => .ok 0
  | _, .generate => some (demoKey 2)

def demoTickRun (loop : BootLoopState) : Transcript (BootAnswer demoAddress Unit) ×
    (BootLoopState × Except (BootError Unit) StepOutcome) :=
  (step loop (bootDeps ["peer:8443"])).exec demoGenesis 0

def demoCandidate : BootLoopState := ⟨some (demoAddress (demoKey 2), demoKey 2)⟩

/-- A connection comes right after the candidate was generated. -/
def mintedEvents : List (Event demoImage Unit) :=
  .served 0 :: (answerEvents (demoTickRun ⟨none⟩).1 ++ [.tickStarted ["peer:8443"]])

/-- The candidate is registered by the next tick, and installed. -/
def bootedEvents : List (Event demoImage Unit) :=
  .installed (demoKey 2) :: .ticked (.ok (.done (.candidate (demoKey 2)))) ::
    (answerEvents (demoTickRun demoCandidate).1 ++
      .tickStarted ["peer:8443"] :: .ticked (.ok .continues) :: mintedEvents)

/-- One tick of the example, query by query. -/
theorem demo_tick {labels : List (Event demoImage Unit)} {s : FineState demoImage Unit}
    (run : FineRun labels s) (idle : s.phase = .waiting)
    (peers : s.keyex.peerSnapshot demoImage.toOracleImage = ["peer:8443"]) :
    FineRun (answerEvents (demoTickRun s.loop).1 ++ .tickStarted ["peer:8443"] :: labels)
      { s with
        keyex := publishAll demoImage s.keyex (generatedKeys (demoTickRun s.loop).1)
        phase := .ticking ["peer:8443"] (demoTickRun s.loop).1 } := by
  have started := run.step (.tickStarted idle)
  rw [peers] at started
  apply answers_run started rfl
  intro v q a w hsplit
  have ran := CancellableTasks.After.of_runs
    (Prog.exec_runs demoGenesis 0 (step s.loop (bootDeps ["peer:8443"])))
  change CancellableTasks.After _ (demoTickRun s.loop).1 _ at ran
  rw [hsplit] at ran
  exact ran.asks_of_split

def mintedState : FineState demoImage Unit where
  keyex := OracleKeyexState.new.publishCandidate (demoAddress (demoKey 2)) [4]
  loop := ⟨none⟩
  phase := .ticking ["peer:8443"] (demoTickRun ⟨none⟩).1
  connections := Function.update (fun _ => .unserved) 0 .ended

theorem minted_run : FineRun mintedEvents mintedState :=
  (demo_tick .start rfl rfl).step (.served rfl)

theorem demoTickRun_runs (loop : BootLoopState) :
    Prog.Runs (step loop (bootDeps ["peer:8443"])) (demoTickRun loop).1
      ((demoTickRun loop).2.1, (demoTickRun loop).2.2) :=
  Prog.exec_runs demoGenesis 0 _

def bootedState : FineState demoImage Unit :=
  { mintedState with
    keyex := install demoImage mintedState.keyex (.candidate (demoKey 2))
    phase := .serving }

theorem booted_run : FineRun bootedEvents bootedState := by
  have held := minted_run.step (.ticked rfl (demoTickRun_runs ⟨none⟩))
  have watched := demo_tick held rfl rfl
  have resolved := watched.step (.ticked rfl (demoTickRun_runs demoCandidate))
  have done : (phaseAfter (demoTickRun demoCandidate).2.2 : BootPhase demoImage Unit) =
      .resolved (.candidate (demoKey 2)) := rfl
  have installed := resolved.step (.installed done)
  exact installed

/-- Between generation and the end of the tick the new key is exposed and the early
connection is turned away; after the installation the same key is the root key. -/
theorem published_identity_held_booted :
    Exposes demoImage mintedState.keyex (some (demoKey 2)) ∧
      (∀ frame, .framed 0 frame ∉ mintedEvents) ∧
      ∃ s, FineRun bootedEvents s ∧ s.keyex.rootKey = some (demoKey 2) ∧
        Exposes demoImage s.keyex (some (demoKey 2)) := by
  obtain ⟨-, before, -, -, -, early⟩ := published_identity_held minted_run
  obtain ⟨-, -, after, -⟩ := published_identity_held booted_run
  obtain ⟨hroot, exposed⟩ := after (demoKey 2) List.mem_cons_self
  refine ⟨(before ?_).2, early [] 0 _ rfl ?_, _, booted_run, hroot, exposed⟩
  · nofun
  · nofun

end Nuntius.PublishedIdentity
