import Nuntius.BridgeBoot
import Nuntius.BridgeHandlers
import Nuntius.LabelledRuns

/-!
# The bridge as a running server

Requests and the boot task share one state behind one lock. A request runs from wait to wait,
keeps the lock while it waits, and may be dropped there. The boot task takes the lock for an
instant to read the configuration, and again to install the key; the readiness flag is
written while it holds the lock and read by requests that never take it.

Over this stands a server in which every request takes effect at once. The running server
refines it, label by label.
-/

namespace Nuntius.BridgeServer
open WireFormat HandoverPolicy OwnerApprovals InteractivePrograms CancellableTasks LabelledRuns
open ChainReads AttestedExchange ClaimFlow BootRules BridgeBoot BridgeHandlers

/-! ### The server -/

/-- What a request is stamped with, and how the security module answers it. -/
structure RequestEnv where
  enclaveNow : ℕ
  attest : Option (List UInt8) → List UInt8 → Option (List UInt8)

/-- A request that holds the lock, with the state it found. -/
structure Handler where
  request : BridgeRequest
  env : RequestEnv
  acquired : BridgeState
  program : HandlerProg Reply

inductive Holder where
  | handler (h : Handler)
  | boot

inductive BootPhase where
  | idle
  | ticking (cfg : BridgeConfig)
  | fetched (cfg : BridgeConfig) (t : Transcript WorldAnswer) (address : Address) (key : SigningKey)
  | storing
  | booted
  | failed

structure Bridge where
  state : BridgeState
  keyInstalled : Bool
  loop : BootLoopState
  phase : BootPhase

structure Server where
  bridge : Bridge
  holder : Option Holder

inductive Label where
  | waiting (req : BridgeRequest)
  | finished (req : BridgeRequest) (acquired : BridgeState) (reply : Reply) (released : BridgeState)
  | dropped (req : BridgeRequest) (acquired : BridgeState) (reply : Reply) (released : BridgeState)
  | unlocked (reply : Reply)
  | snapshot (cfg : BridgeConfig)
  | ticked (cfg : BridgeConfig) (t : Transcript WorldAnswer)
      (outcome : Except (BootError ChainError) StepOutcome)
  | installed (tick : BridgeConfig) (t : Transcript WorldAnswer) (address : Address)
      (key : SigningKey) (current : BridgeConfig)
  | stale
  | flagged

variable (img : BridgeImage)

def Bridge.start : Bridge where
  state := .new img.ownPcr0 img.version
  keyInstalled := false
  loop := ⟨none⟩
  phase := .idle

def Server.start : Server := ⟨.start img, none⟩

def handlerCtx (env : RequestEnv) : HandlerCtx where
  ext := img.ext
  baked := img.baked
  enclaveNow := env.enclaveNow
  attest := env.attest

@[simp] theorem handlerCtx_ext (env : RequestEnv) : (handlerCtx img env).ext = img.ext := rfl

/-- A request that has just taken the lock. -/
def acquire (st : BridgeState) (req : BridgeRequest) (env : RequestEnv) : Handler where
  request := req
  env := env
  acquired := st
  program := handle (handlerCtx img env) st req

/-- A drained request either ends and gives the lock back, or waits with it. -/
def settle (b : Bridge) (h : Handler) : BridgeState × HandlerProg Reply → Label × Server
  | (st, .ret reply) =>
    (.finished h.request h.acquired reply st, ⟨{ b with state := st }, none⟩)
  | (st, .ask q k) =>
    (.waiting h.request, ⟨{ b with state := st }, some (.handler { h with program := .ask q k })⟩)

/-- The endpoints of the tick are still the configured ones. -/
def SameEndpoints (current tick : BridgeConfig) : Prop :=
  current.rhRpcs = tick.rhRpcs ∧ current.oraclePeers = tick.oraclePeers

def afterTick (cfg : BridgeConfig) (t : Transcript WorldAnswer) :
    Except (BootError ChainError) StepOutcome → BootPhase
  | .ok (.done (.peer address key)) => .fetched cfg t address key
  | .ok (.done (.candidate _)) => .failed
  | .ok .continues => .idle
  | .error _ => .idle

def badRequest : Reply := .error "bad_request"
def timedOut : Reply := .error "timeout"

inductive Step : Server → Label → Server → Prop where
  | unreadable {s : Server} : Step s (.unlocked badRequest) s
  | readiness {s : Server} : Step s (.unlocked (.readiness s.bridge.keyInstalled)) s
  | expired {s : Server} : Step s (.unlocked timedOut) s
  | acquired {b : Bridge} {req : BridgeRequest} (env : RequestEnv) (locks : req ≠ .readiness)
      {next : Label × Server}
      (ran : next = settle b (acquire img b.state req env)
        (drain handlerService b.state (acquire img b.state req env).program)) :
      Step ⟨b, none⟩ next.1 next.2
  | answered {b : Bridge} {h : Handler} {q : HandlerQuery} {k : HandlerAnswer q → HandlerProg Reply}
      (waits : h.program = .ask q k) (a : HandlerAnswer q) {next : Label × Server}
      (ran : next = settle b h (drain handlerService b.state (k a))) :
      Step ⟨b, some (.handler h)⟩ next.1 next.2
  | dropped {b : Bridge} {h : Handler} {q : HandlerQuery} {k : HandlerAnswer q → HandlerProg Reply}
      (waits : h.program = .ask q k) :
      Step ⟨b, some (.handler h)⟩ (.dropped h.request h.acquired timedOut b.state) ⟨b, none⟩
  | snapshot {b : Bridge} {cfg : BridgeConfig} (idle : b.phase = .idle)
      (configured : b.state.config = some cfg) (endpoints : cfg.rhRpcs ≠ []) :
      Step ⟨b, none⟩ (.snapshot cfg) ⟨{ b with phase := .ticking cfg }, none⟩
  | ticked {b : Bridge} {holder : Option Holder} {cfg : BridgeConfig} {t : Transcript WorldAnswer}
      {loop' : BootLoopState} {outcome : Except (BootError ChainError) StepOutcome}
      (busy : b.phase = .ticking cfg)
      (ran : Prog.Runs (bridgeTick img cfg b.loop) t (loop', outcome)) :
      Step ⟨b, holder⟩ (.ticked cfg t outcome)
        ⟨{ b with loop := loop', phase := afterTick cfg t outcome }, holder⟩
  | installed {b : Bridge} {tick current : BridgeConfig} {t : Transcript WorldAnswer}
      {address : Address} {key : SigningKey} (done : b.phase = .fetched tick t address key)
      (configured : b.state.config = some current) (same : SameEndpoints current tick) :
      Step ⟨b, none⟩ (.installed tick t address key current)
        ⟨{ b with state := b.state.installKey key address, phase := .storing }, some .boot⟩
  | stale {b : Bridge} {tick : BridgeConfig} {t : Transcript WorldAnswer} {address : Address}
      {key : SigningKey} (done : b.phase = .fetched tick t address key)
      (moved : ∀ current, b.state.config = some current → ¬ SameEndpoints current tick) :
      Step ⟨b, none⟩ .stale ⟨{ b with phase := .idle }, none⟩
  | flagged {b : Bridge} (storing : b.phase = .storing) :
      Step ⟨b, some .boot⟩ .flagged ⟨{ b with keyInstalled := true, phase := .booted }, none⟩

abbrev ServerRun (labels : List Label) (s : Server) : Prop :=
  Run (Server.start img) (Step img) labels s

/-! ### Every request at once -/

/-- The steps of a server without a lock, in which a request is handled or dropped whole. -/
inductive AtomicStep : Bridge → Label → Bridge → Prop where
  | waiting {b : Bridge} {req : BridgeRequest} : AtomicStep b (.waiting req) b
  | unlocked {b : Bridge} {reply : Reply} : AtomicStep b (.unlocked reply) b
  | finished {b : Bridge} {req : BridgeRequest} {reply : Reply} {st : BridgeState}
      (env : RequestEnv)
      (handled : Handled (handlerCtx img env) b.state req reply st) :
      AtomicStep b (.finished req b.state reply st) { b with state := st }
  | dropped {b : Bridge} {req : BridgeRequest} :
      AtomicStep b (.dropped req b.state timedOut b.state) b
  | snapshot {b : Bridge} {cfg : BridgeConfig} (idle : b.phase = .idle)
      (configured : b.state.config = some cfg) :
      AtomicStep b (.snapshot cfg) { b with phase := .ticking cfg }
  | ticked {b : Bridge} {cfg : BridgeConfig} {t : Transcript WorldAnswer} {loop' : BootLoopState}
      {outcome : Except (BootError ChainError) StepOutcome} (busy : b.phase = .ticking cfg)
      (ran : Prog.Runs (bridgeTick img cfg b.loop) t (loop', outcome)) :
      AtomicStep b (.ticked cfg t outcome)
        { b with loop := loop', phase := afterTick cfg t outcome }
  | installed {b : Bridge} {tick current : BridgeConfig} {t : Transcript WorldAnswer}
      {address : Address} {key : SigningKey} (done : b.phase = .fetched tick t address key)
      (configured : b.state.config = some current) (same : SameEndpoints current tick) :
      AtomicStep b (.installed tick t address key current)
        { b with state := b.state.installKey key address, phase := .storing }
  | stale {b : Bridge} {tick : BridgeConfig} {t : Transcript WorldAnswer} {address : Address}
      {key : SigningKey} (done : b.phase = .fetched tick t address key) :
      AtomicStep b .stale { b with phase := .idle }
  | flagged {b : Bridge} (storing : b.phase = .storing) :
      AtomicStep b .flagged { b with keyInstalled := true, phase := .booted }

abbrev AtomicRun (labels : List Label) (b : Bridge) : Prop :=
  Run (Bridge.start img) (AtomicStep img) labels b

/-! ### The refinement -/

/-- The handler is what its request has become, and every query it has outstanding is a wait. -/
structure Waits (h : Handler) (st : BridgeState) : Prop where
  reached : Reached handlerService (handle (handlerCtx img h.env) h.acquired h.request) h.acquired
    (st, h.program)
  outstanding : ∀ q k, h.program = .ask q k → handlerService q = none

/-- Whoever holds the lock with a request waits with it. -/
def Held (s : Server) : Prop := ∀ h, s.holder = some (.handler h) → Waits img h s.bridge.state

variable {img}

/-- Under a waiting request the state is the one it found. -/
theorem Waits.untouched {h : Handler} {st : BridgeState} (hw : Waits img h st) {q : HandlerQuery}
    {k : HandlerAnswer q → HandlerProg Reply} (hprogram : h.program = .ask q k) :
    st = h.acquired := by
  have hreached := hw.reached
  rw [hprogram] at hreached
  obtain ⟨t, hasks, hstate⟩ := hreached.waiting
  rw [hstate, handle_waits hasks (hw.outstanding q k hprogram)]

theorem held_of_free {b : Bridge} : Held img ⟨b, none⟩ := by
  intro h hholder
  cases hholder

/-- A request that is taken to its next wait or its end has done nothing yet, or everything. -/
theorem settle_atomic {b : Bridge} {h : Handler} (hstate : b.state = h.acquired)
    {now : BridgeState × HandlerProg Reply}
    (hnow : Reached handlerService (handle (handlerCtx img h.env) h.acquired h.request) h.acquired
      now)
    (hwait : ∀ q k, now.2 = .ask q k → handlerService q = none) :
    AtomicStep img b (settle b h now).1 (settle b h now).2.bridge ∧
      Held img (settle b h now).2 := by
  obtain ⟨st, p⟩ := now
  cases p with
  | ret reply =>
    obtain ⟨t, hruns, hst⟩ := hnow.finished
    have hhandled := handle_finished hruns
    rw [← hst, ← hstate] at hhandled
    rw [settle, ← hstate]
    exact ⟨.finished h.env hhandled, held_of_free⟩
  | ask q k =>
    have hw : Waits img { h with program := .ask q k } st := ⟨hnow, hwait⟩
    have hst : st = b.state := (hw.untouched rfl).trans hstate.symm
    rw [settle]
    constructor
    · rw [hst]
      exact .waiting
    · intro h' hholder
      cases hholder
      exact hw

/-- Every step of the server is one of the atomic server. -/
theorem step_atomic {s s' : Server} {l : Label} (held : Held img s) (h : Step img s l s') :
    AtomicStep img s.bridge l s'.bridge ∧ Held img s' := by
  cases h with
  | unreadable => exact ⟨.unlocked, held⟩
  | readiness => exact ⟨.unlocked, held⟩
  | expired => exact ⟨.unlocked, held⟩
  | @acquired b req env locks next ran =>
    subst ran
    refine settle_atomic rfl (Reached.start _ _).drained ?_
    intro q k hask
    exact drain_waits handlerService (Prod.ext rfl hask)
  | @answered b h q k waits a next ran =>
    subst ran
    have hw := held h rfl
    have hreached := hw.reached
    rw [waits] at hreached
    refine settle_atomic (hw.untouched waits)
      (hreached.answered (hw.outstanding q k waits) a).drained ?_
    intro q' k' hask
    exact drain_waits handlerService (Prod.ext rfl hask)
  | @dropped b h q k waits =>
    rw [← (held h rfl).untouched waits]
    exact ⟨.dropped, held_of_free⟩
  | snapshot idle configured _ => exact ⟨.snapshot idle configured, held_of_free⟩
  | ticked busy ran => exact ⟨.ticked busy ran, held⟩
  | installed done configured same =>
    refine ⟨.installed done configured same, ?_⟩
    intro h hholder
    cases hholder
  | stale done _ => exact ⟨.stale done, held_of_free⟩
  | flagged storing => exact ⟨.flagged storing, held_of_free⟩

/-- The running server refines the atomic one. -/
theorem run_atomic {labels : List Label} {s : Server} (run : ServerRun img labels s) :
    AtomicRun img labels s.bridge ∧ Held img s := by
  refine run.invariant (fun labels s => AtomicRun img labels s.bridge ∧ Held img s)
    ⟨.start, held_of_free⟩ ?_
  intro older s l s' _ ih now
  obtain ⟨hstep, hheld⟩ := step_atomic ih.2 now
  exact ⟨.step ih.1 hstep, hheld⟩

/-! ### Requests do finish -/

/-- From any point of a request, the answers of a complete run take the server to its end. -/
theorem settle_finishes {p : HandlerProg Reply} {t : Transcript HandlerAnswer} {reply : Reply}
    (hruns : Prog.Runs p t reply) {b : Bridge} {h : Handler} {st : BridgeState}
    {labels : List Label}
    (run : ServerRun img ((settle b h (drain handlerService st p)).1 :: labels)
      (settle b h (drain handlerService st p)).2) :
    ∃ n, ServerRun img
      (.finished h.request h.acquired reply (applied handlerService t st) ::
        (List.replicate n (.waiting h.request) ++ labels))
      ⟨{ b with state := applied handlerService t st }, none⟩ := by
  induction hruns generalizing b h st labels with
  | ret r => exact ⟨0, run⟩
  | @ask q k t r a rest ih =>
    cases q with
    | rpc q =>
      obtain ⟨n, hrun⟩ := ih (run.step (.answered rfl a rfl))
      refine ⟨n + 1, ?_⟩
      rw [List.replicate_succ', List.append_assoc]
      exact hrun
    | setConfig cfg => exact ih run
    | recordSigned recipient total => exact ih run

/-- A free server finishes every request that has a complete run. -/
theorem server_finishes {labels : List Label} {b : Bridge} (run : ServerRun img labels ⟨b, none⟩)
    {req : BridgeRequest} {env : RequestEnv} (locks : req ≠ .readiness)
    {t : Transcript HandlerAnswer} {reply : Reply}
    (hruns : Prog.Runs (handle (handlerCtx img env) b.state req) t reply) :
    ∃ n, ServerRun img
      (.finished req b.state reply (applied handlerService t b.state) ::
        (List.replicate n (.waiting req) ++ labels))
      ⟨{ b with state := applied handlerService t b.state }, none⟩ :=
  settle_finishes hruns (run.step (.acquired env locks rfl))

/-! ### A bridge that boots

The host configures one oracle; its image is the baked parent, and it grants a key. -/

def demoParent : Pcr0 := filled 48 7

def demoImage : BridgeImage where
  ext := demoExternals
  baked := demoBaked
  ownPcr0 := filled 48 1
  version := 1
  ancestors := [demoParent]
  validScalar := fun _ => true
  verifyAttestation := fun _ _ nonce => some ⟨demoParent, some nonce.val, [4]⟩

/-- The third read brings the key, after a nonce and a document. -/
def demoWorld : ℕ → (q : WorldQuery) → WorldAnswer q
  | _, .dial _ => some ⟨0, filled 32 2, [4], [4]⟩
  | _, .channel (.write _) => some true
  | _, .channel (.attest _ _) => some (some [5])
  | 2, .channel .read => some (some (List.replicate 32 3))
  | 5, .channel .read => some (some [6])
  | _, .channel .read => some (some (Frame.grant demoSigningKey).payload)
  | n, .rpc q => demoChains n q

def demoFetchTick :
    Transcript WorldAnswer × BootLoopState × Except (BootError ChainError) StepOutcome :=
  (bridgeTick demoImage demoConfig ⟨none⟩).exec demoWorld 0

def demoSigner : Address := demoExternals.addressFromKey demoSigningKey

theorem demo_resolved : resolvedBy demoFetchTick.2.2 = some (.peer demoSigner demoSigningKey) := by
  decide +kernel

def demoBooted : Bridge where
  state := ((BridgeState.new demoImage.ownPcr0 1).setConfig demoConfig).installKey demoSigningKey
    demoSigner
  keyInstalled := true
  loop := demoFetchTick.2.1
  phase := .booted

def demoConfigure : BridgeRequest := .configure "entry" ["https://rpc"] ["oracle:8443"]

/-- From the configuration to the flag. -/
def demoBootLabels : List Label :=
  [.flagged, .installed demoConfig demoFetchTick.1 demoSigner demoSigningKey demoConfig,
    .ticked demoConfig demoFetchTick.1 (.ok (.done (.peer demoSigner demoSigningKey))),
    .snapshot demoConfig,
    .finished demoConfigure (BridgeState.new demoImage.ownPcr0 1) (.ack true)
      ((BridgeState.new demoImage.ownPcr0 1).setConfig demoConfig)]

def demoEnv : RequestEnv := ⟨1000, fun _ _ => none⟩

theorem demo_configures :
    Prog.Runs (handle (handlerCtx demoImage demoEnv) (Bridge.start demoImage).state demoConfigure)
      [⟨.setConfig demoConfig, ()⟩] (.ack true) := by
  refine Prog.runs_bind.mpr ⟨[_], [], true, rfl, ?_, .ret _⟩
  exact configure_runs rfl rfl (by decide +kernel)

theorem demo_fetches :
    Prog.Runs (bridgeTick demoImage demoConfig ⟨none⟩) demoFetchTick.1
      (demoFetchTick.2.1, .ok (.done (.peer demoSigner demoSigningKey))) := by
  rw [← resolvedBy_eq_some.mp demo_resolved]
  exact Prog.exec_runs demoWorld 0 _

theorem demo_boots :
    ∃ n, ServerRun demoImage (demoBootLabels ++ List.replicate n (.waiting demoConfigure))
      ⟨demoBooted, none⟩ := by
  obtain ⟨n, configured⟩ := server_finishes Run.start (by simp [demoConfigure]) demo_configures
  rw [List.append_nil] at configured
  refine ⟨n, ?_⟩
  have snapshot := configured.step
    (.snapshot rfl rfl (by simp [demoConfig, BridgeConfig.fromParts]))
  have ticked := snapshot.step (.ticked rfl demo_fetches)
  have installed := ticked.step (.installed rfl rfl ⟨rfl, rfl⟩)
  exact installed.step (.flagged rfl)

end Nuntius.BridgeServer
