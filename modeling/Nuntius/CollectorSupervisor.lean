import Nuntius.LabelledRuns

/-!
# The collector supervisor

A task forwards commands to the collector manager; another one runs the manager and runs it anew
when it fails. The two share a flag, set by `Stop`, and a slot with the sender of the manager's
current channel. Whoever reads the slot sends before it is written again, so a delivery is one
step; all other accesses are steps of their own and interleave freely. The configuration that the
manager reads, panics and the time a run took come with the steps.
-/

namespace Nuntius.CollectorSupervisor
open LabelledRuns

/-! ### The manager -/

inductive CollectorCommand where
  | enable (name : String)
  | disable (name : String)
  | status
  | reload
  | stop
  deriving DecidableEq

/-- The fields that the manager reads. -/
structure ExchangeConfig where
  name : String
  enabled : Bool

def ExchangeConfig.validate (c : ExchangeConfig) : Except String Unit :=
  if c.name.isEmpty then .error "Exchange config has empty name" else .ok ()

structure CollectorManager where
  running : List String
  known : String → Option ExchangeConfig

inductive RunError where
  | content (message : String)
  | unimplemented (names : List String)
  | panicked

namespace CollectorManager

def new : CollectorManager := ⟨[], fun _ => none⟩

-- the names that `create_collector` has a collector for
variable (implemented : String → Bool)

def stop (m : CollectorManager) (name : String) : CollectorManager :=
  { m with running := m.running.filter (· != name) }

def start (m : CollectorManager) (config : ExchangeConfig) : CollectorManager :=
  if implemented config.name then { m with running := config.name :: m.running } else m

/-- The last configuration of a name counts. -/
def updateConfig (m : CollectorManager) (configs : List ExchangeConfig) : CollectorManager :=
  let newMap := fun name => configs.reverse.find? (·.name == name)
  let wanted := fun name => (newMap name).any (·.enabled)
  let toStop := m.running.filter (!wanted ·)
  let kept := toStop.foldl stop { m with known := newMap }
  (configs.filterMap fun c => newMap c.name).foldl
    (fun m c => if c.enabled && !m.running.contains c.name then start implemented m c else m) kept

def loadConfigFromFile (m : CollectorManager) (content : Except String (List ExchangeConfig)) :
    Except RunError CollectorManager :=
  match content with
  | .error message => .error (.content message)
  | .ok configs =>
    let valid := configs.filter fun c => c.validate.toBool
    let unknown := (valid.filter fun c => c.enabled && !implemented c.name).map (·.name)
    if unknown.isEmpty then .ok (updateConfig implemented m valid)
    else .error (.unimplemented unknown)

def stopAll (m : CollectorManager) : CollectorManager := m.running.foldl stop m

/-- One turn of the manager's loop; it ends with `Stop`. -/
def handle (m : CollectorManager) (content : Except String (List ExchangeConfig)) :
    CollectorCommand → CollectorManager × Bool
  | .status => (m, true)
  | .enable name =>
    if m.running.contains name then (m, true)
    else
      match m.known name with
      | some config => (start implemented m config, true)
      | none => (m, true)
  | .disable name => (m.stop name, true)
  | .reload => ((loadConfigFromFile implemented m content).toOption.getD m, true)
  | .stop => (m.stopAll, false)

end CollectorManager

/-! ### The two tasks -/

inductive Forwarder where
  | receiving
  | received (cmd : CollectorCommand)
  | delivering (cmd : CollectorCommand)

/-- Where the supervisor stands in its loop, with the channel and the manager of the run. -/
inductive Supervisor where
  | checking
  /-- Past the flag check, the channel not yet in the slot. -/
  | passed
  | installed (inner : List CollectorCommand)
  | running (inner heard : List CollectorCommand) (m : CollectorManager)
  | returned (err : Option RunError)
  | cleared (err : Option RunError)
  | backoff
  | done

/-- A receiver that is gone refuses, which nobody notices. -/
def Supervisor.send (cmd : CollectorCommand) : Supervisor → Supervisor
  | .installed inner => .installed (inner ++ [cmd])
  | .running inner heard m => .running (inner ++ [cmd]) heard m
  | other => other

structure State where
  outer : List CollectorCommand
  forwarder : Forwarder
  stopFlag : Bool
  slot : Bool
  supervisor : Supervisor
  backoffSecs : ℕ

def State.start : State := ⟨[], .receiving, false, false, .checking, 1⟩

inductive Event where
  | send (cmd : CollectorCommand)
  | receive
  | flag
  | deliver
  | check
  | install
  | run (content : Except String (List ExchangeConfig))
  | manage (content : Except String (List ExchangeConfig))
  | panic
  | clear
  | settle (ranLong : Bool)
  | wake

variable (implemented : String → Bool)

/-- The forwarder's and the supervisor's next step, where it is the one named. -/
def step (s : State) : Event → Option State
  | .send cmd => some { s with outer := s.outer ++ [cmd] }
  | .receive =>
    match s.forwarder, s.outer with
    | .receiving, cmd :: rest => some { s with outer := rest, forwarder := .received cmd }
    | _, _ => none
  | .flag =>
    match s.forwarder with
    | .received cmd =>
      some { s with stopFlag := s.stopFlag || cmd == .stop, forwarder := .delivering cmd }
    | _ => none
  | .deliver =>
    match s.forwarder with
    | .delivering cmd =>
      some { s with
        forwarder := .receiving
        supervisor := if s.slot then s.supervisor.send cmd else s.supervisor }
    | _ => none
  | .check =>
    match s.supervisor with
    | .checking => some { s with supervisor := if s.stopFlag then .done else .passed }
    | _ => none
  | .install =>
    match s.supervisor with
    | .passed => some { s with slot := true, supervisor := .installed [] }
    | _ => none
  | .run content =>
    match s.supervisor with
    | .installed inner =>
      match CollectorManager.new.loadConfigFromFile implemented content with
      | .ok m => some { s with supervisor := .running inner [] m }
      | .error e => some { s with supervisor := .returned (some e) }
    | _ => none
  | .manage content =>
    match s.supervisor with
    | .running (cmd :: rest) heard m =>
      match m.handle implemented content cmd with
      | (m', true) => some { s with supervisor := .running rest (heard ++ [cmd]) m' }
      | (_, false) => some { s with supervisor := .returned none }
    | _ => none
  | .panic =>
    match s.supervisor with
    | .installed _ | .running _ _ _ => some { s with supervisor := .returned (some .panicked) }
    | _ => none
  | .clear =>
    match s.supervisor with
    | .returned err => some { s with slot := false, supervisor := .cleared err }
    | _ => none
  | .settle ranLong =>
    match s.supervisor with
    | .cleared err =>
      if s.stopFlag then some { s with supervisor := .done }
      else
        match err with
        | none => some { s with supervisor := .done }
        | some _ =>
          some { s with
            supervisor := .backoff
            backoffSecs := if ranLong then 1 else s.backoffSecs }
    | _ => none
  | .wake =>
    match s.supervisor with
    | .backoff =>
      some { s with supervisor := .checking, backoffSecs := min (s.backoffSecs * 2) 60 }
    | _ => none

abbrev SupervisorRun (events : List Event) (s : State) : Prop :=
  Run State.start (fun s e s' => step implemented s e = some s') events s

/-- A manager run that has started, or is about to, and will never hear of a `Stop` so far. -/
def Supervisor.Unstopped : Supervisor → Prop
  | .passed => True
  | .installed inner => .stop ∉ inner
  | .running inner heard _ => .stop ∉ inner ∧ .stop ∉ heard
  | _ => False

/-- The forwarder has finished processing a `Stop`. -/
def StopProcessed (events : List Event) : Prop :=
  ∃ newer older s, events = newer ++ .deliver :: older ∧ SupervisorRun implemented older s ∧
    s.forwarder = .delivering .stop

/-- No state after that has a run that a `Stop` did not reach. -/
def StopKept (events : List Event) : Prop :=
  ∀ newer older s, events = newer ++ older → SupervisorRun implemented older s →
    StopProcessed implemented older → ¬ s.supervisor.Unstopped

/-! ### What a step does -/

/-- The manager's receiver is there. -/
def Supervisor.listens : Supervisor → Bool
  | .installed _ | .running _ _ _ => true
  | _ => false

variable {implemented} {s s' : State} {e : Event}

/-- The steps, as far as the flag, the slot and the place in the two loops go. -/
inductive Moved (s : State) : State → Prop
  | send (outer : List CollectorCommand) : Moved s { s with outer := outer }
  | receive (outer : List CollectorCommand) (cmd : CollectorCommand) :
      Moved s { s with outer := outer, forwarder := .received cmd }
  | flag {cmd : CollectorCommand} : Moved s { s with
      stopFlag := s.stopFlag || cmd == .stop, forwarder := .delivering cmd }
  | deliver {cmd : CollectorCommand} (before : s.forwarder = .delivering cmd) : Moved s { s with
      forwarder := .receiving
      supervisor := if s.slot then s.supervisor.send cmd else s.supervisor }
  | pass (before : s.supervisor = .checking) (flag : s.stopFlag = false) :
      Moved s { s with supervisor := .passed }
  | install (before : s.supervisor = .passed) :
      Moved s { s with slot := true, supervisor := .installed [] }
  | run {inner : List CollectorCommand} (m : CollectorManager)
      (before : s.supervisor = .installed inner) :
      Moved s { s with supervisor := .running inner [] m }
  | manage {cmd : CollectorCommand} {rest heard : List CollectorCommand}
      {m m' : CollectorManager} (before : s.supervisor = .running (cmd :: rest) heard m) :
      Moved s { s with supervisor := .running rest (heard ++ [cmd]) m' }
  /-- The manager is gone, or never was. -/
  | leave {slot : Bool} {v : Supervisor} (secs : ℕ) (deaf : v.listens = false)
      (stopped : ¬ v.Unstopped) :
      Moved s { s with slot := slot, supervisor := v, backoffSecs := secs }

theorem moved_of_step (now : step implemented s e = some s') : Moved s s' := by
  cases e with
  | send cmd =>
    cases now
    exact .send _
  | receive =>
    simp only [step] at now
    split at now
    · cases now
      exact .receive _ _
    · cases now
  | flag =>
    simp only [step] at now
    split at now
    · cases now
      exact .flag
    · cases now
  | deliver =>
    simp only [step] at now
    split at now
    · next before =>
      cases now
      exact .deliver before
    · cases now
  | check =>
    simp only [step] at now
    split at now
    · next before =>
      by_cases hflag : s.stopFlag = true
      · rw [if_pos hflag] at now
        cases now
        exact .leave _ rfl id
      · rw [if_neg hflag] at now
        cases now
        exact .pass before (by simpa using hflag)
    · cases now
  | install =>
    simp only [step] at now
    split at now
    · next before =>
      cases now
      exact .install before
    · cases now
  | run content =>
    simp only [step] at now
    split at now
    · next before =>
      split at now
      · cases now
        exact .run _ before
      · cases now
        exact .leave _ rfl id
    · cases now
  | manage content =>
    simp only [step] at now
    split at now
    · next before =>
      split at now
      · cases now
        exact .manage before
      · cases now
        exact .leave _ rfl id
    · cases now
  | panic =>
    simp only [step] at now
    split at now
    · cases now
      exact .leave _ rfl id
    · cases now
      exact .leave _ rfl id
    · cases now
  | clear =>
    simp only [step] at now
    split at now
    · cases now
      exact .leave _ rfl id
    · cases now
  | settle ranLong =>
    simp only [step] at now
    split at now
    · split at now
      · cases now
        exact .leave _ rfl id
      · split at now
        · cases now
          exact .leave _ rfl id
        · cases now
          exact .leave _ rfl id
    · cases now
  | wake =>
    simp only [step] at now
    split at now
    · cases now
      exact .leave _ rfl id
    · cases now

/-! ### Keeping a stop -/

@[simp] theorem Supervisor.listens_send (cmd : CollectorCommand) (v : Supervisor) :
    (v.send cmd).listens = v.listens := by
  cases v <;> rfl

/-- Sending takes nothing from a channel. -/
theorem Supervisor.Unstopped.of_send {cmd : CollectorCommand} {v : Supervisor}
    (h : (v.send cmd).Unstopped) : v.Unstopped := by
  cases v with
  | installed inner => exact fun hmem => h (List.mem_append_left _ hmem)
  | running inner heard m => exact ⟨fun hmem => h.1 (List.mem_append_left _ hmem), h.2⟩
  | _ => exact h

/-- A `Stop` that is sent is in the channel of every run but one not installed. -/
theorem Supervisor.not_unstopped_send {v : Supervisor} (h : v ≠ .passed) :
    ¬ (v.send .stop).Unstopped := by
  cases v with
  | passed => exact absurd rfl h
  | installed inner => exact fun hout => hout (by simp)
  | running inner heard m => exact fun hout => hout.1 (by simp)
  | _ => exact id

/-- A `Stop` about to be delivered is on the flag, and a manager that listens can be reached. -/
structure Coupled (s : State) : Prop where
  flagged : s.forwarder = .delivering .stop → s.stopFlag = true
  reachable : s.supervisor.listens = true → s.slot = true

theorem Coupled.moved (h : Coupled s) (now : Moved s s') : Coupled s' := by
  obtain ⟨flagged, reachable⟩ := h
  cases now with
  | send outer => exact ⟨flagged, reachable⟩
  | receive outer cmd => exact ⟨fun h => (by cases h), reachable⟩
  | flag =>
    refine ⟨fun h => ?_, reachable⟩
    cases h
    exact Bool.or_true _
  | deliver before =>
    refine ⟨fun h => (by cases h), fun h => reachable ?_⟩
    dsimp only at h
    split at h
    · exact (Supervisor.listens_send _ _).symm.trans h
    · exact h
  | pass before flag => exact ⟨flagged, fun h => (by cases h)⟩
  | install before => exact ⟨flagged, fun _ => rfl⟩
  | run m before => exact ⟨flagged, fun _ => reachable (by rw [before]; rfl)⟩
  | manage before => exact ⟨flagged, fun _ => reachable (by rw [before]; rfl)⟩
  | leave secs deaf stopped => exact ⟨flagged, fun h => absurd h (by simp [deaf])⟩

/-- No run goes on without the `Stop`, and none will be started. -/
structure Stopped (s : State) : Prop where
  flag : s.stopFlag = true
  supervisor : ¬ s.supervisor.Unstopped

theorem Stopped.moved (h : Stopped s) (now : Moved s s') : Stopped s' := by
  obtain ⟨flag, stopped⟩ := h
  cases now with
  | send outer => exact ⟨flag, stopped⟩
  | receive outer cmd => exact ⟨flag, stopped⟩
  | flag => exact ⟨by simp [flag], stopped⟩
  | deliver before =>
    refine ⟨flag, fun h => stopped ?_⟩
    dsimp only at h
    split at h
    · exact h.of_send
    · exact h
  | pass before flag' => exact absurd (flag.symm.trans flag') (by simp)
  | install before => exact absurd (by rw [before]; trivial) stopped
  | run m before =>
    rw [before] at stopped
    exact ⟨flag, fun h => stopped h.1⟩
  | @manage cmd rest heard m m' before =>
    rw [before] at stopped
    refine ⟨flag, fun h => stopped ⟨?_, fun hmem => h.2 (List.mem_append_left _ hmem)⟩⟩
    intro hmem
    rcases List.mem_cons.mp hmem with rfl | hmem
    · exact h.2 (by simp)
    · exact h.1 hmem
  | leave secs deaf stopped' => exact ⟨flag, stopped'⟩

/-- A delivered `Stop` is in the channel of the run, unless the run is still to be installed. -/
theorem Coupled.delivered (h : Coupled s) (before : s.forwarder = .delivering .stop)
    (elsewhere : s.supervisor ≠ .passed) (now : step implemented s .deliver = some s') :
    Stopped s' := by
  simp only [step, before] at now
  cases now
  refine ⟨h.flagged before, ?_⟩
  dsimp only
  split
  · exact Supervisor.not_unstopped_send elsewhere
  · next hslot =>
    -- without a sender in the slot nobody listens
    intro hout
    cases hv : s.supervisor with
    | passed => exact elsewhere hv
    | installed inner => exact hslot (h.reachable (by rw [hv]; rfl))
    | running inner heard m => exact hslot (h.reachable (by rw [hv]; rfl))
    | _ =>
      rw [hv] at hout
      exact hout

/-! ### Runs -/

/-- No `Stop` is delivered between a flag check and the installation of the channel. -/
def ClearOfWindow (implemented : String → Bool) (events : List Event) : Prop :=
  ∀ newer older s, events = newer ++ .deliver :: older → SupervisorRun implemented older s →
    s.forwarder = .delivering .stop → s.supervisor ≠ .passed

theorem stateOf_unique {events : List Event} {s₁ s₂ : State}
    (run₁ : SupervisorRun implemented events s₁) (run₂ : SupervisorRun implemented events s₂) :
    s₁ = s₂ :=
  run₁.unique (fun h₁ h₂ => Option.some.inj (h₁.symm.trans h₂)) run₂

theorem stopProcessed_cons {older : List Event} (run : SupervisorRun implemented older s)
    (h : StopProcessed implemented (e :: older)) :
    StopProcessed implemented older ∨ e = .deliver ∧ s.forwarder = .delivering .stop := by
  obtain ⟨newer, older', s₁, heq, run₁, hforwarder⟩ := h
  rcases List.append_eq_cons_iff.mp heq.symm with ⟨rfl, hcons⟩ | ⟨newer', rfl, rfl⟩
  · cases hcons
    exact .inr ⟨rfl, stateOf_unique run run₁ ▸ hforwarder⟩
  · exact .inl ⟨newer', older', s₁, rfl, run₁, hforwarder⟩

theorem coupled_run {events : List Event} (run : SupervisorRun implemented events s) :
    Coupled s :=
  run.invariant (fun _ s => Coupled s) ⟨fun h => (by cases h), fun h => (by cases h)⟩
    fun _ h now => h.moved (moved_of_step now)

theorem stopped_run {events : List Event} (run : SupervisorRun implemented events s)
    (clear : ClearOfWindow implemented events) (processed : StopProcessed implemented events) :
    Stopped s := by
  refine run.invariant (fun events s => ClearOfWindow implemented events →
    StopProcessed implemented events → Stopped s) ?_ ?_ clear processed
  · rintro - ⟨newer, older, s, heq, -⟩
    simp at heq
  · intro older s e s' before ih now clear processed
    have hclear : ClearOfWindow implemented older :=
      fun newer older' s₁ heq => clear (e :: newer) older' s₁ (by rw [heq]; rfl)
    obtain hbefore | ⟨rfl, hforwarder⟩ := stopProcessed_cons before processed
    · exact (ih hclear hbefore).moved (moved_of_step now)
    · have helsewhere := clear [] older s rfl before hforwarder
      exact (coupled_run before).delivered hforwarder helsewhere now

/-- A `Stop` is kept in exactly the runs in which none is delivered between a flag check and the
installation of the channel that follows it. -/
theorem stop_kept_iff (implemented : String → Bool) (events : List Event) :
    StopKept implemented events ↔ ClearOfWindow implemented events := by
  constructor
  · intro kept newer older s₁ heq run₁ hforwarder hpassed
    -- the supervisor is still where it was when the delivery is over
    have hnow : step implemented s₁ .deliver = some { s₁ with forwarder := .receiving } := by
      obtain ⟨outer, forwarder, stopFlag, slot, supervisor, secs⟩ := s₁
      cases hforwarder
      cases hpassed
      simp [step, Supervisor.send]
    refine kept newer (.deliver :: older) _ heq (.step run₁ hnow)
      ⟨[], older, s₁, rfl, run₁, hforwarder⟩ ?_
    change s₁.supervisor.Unstopped
    rw [hpassed]
    trivial
  · intro clear newer older s₁ heq run₁ processed
    have hclear : ClearOfWindow implemented older :=
      fun newer' older' s₂ heq' => clear (newer ++ newer') older' s₂ (by rw [heq, heq']; simp)
    exact (stopped_run run₁ hclear processed).supervisor

/-- A first run fails on its configuration. Before the second one a `Stop` comes just after the
flag was looked at. -/
def lateStop : List Event :=
  [.run (.ok []), .install, .deliver, .flag, .receive, .send .stop, .check, .wake, .settle false,
    .clear, .run (.error "unreadable"), .install, .check]

/-- The manager of the second run is up and the forwarder is done with the `Stop`, which neither
waits in the channel nor was heard. -/
theorem stop_lost_on_restart :
    ∃ s m, SupervisorRun (fun _ => true) lateStop s ∧ StopProcessed (fun _ => true) lateStop ∧
      s.stopFlag = true ∧ s.outer = [] ∧ s.supervisor = .running [] [] m ∧
      ¬ StopKept (fun _ => true) lateStop := by
  have hrun : SupervisorRun (fun _ => true) lateStop
      ⟨[], .receiving, true, true, .running [] [] ⟨[], fun _ => none⟩, 2⟩ := .of_exec rfl
  have hbefore : SupervisorRun (fun _ => true) (lateStop.drop 3)
      ⟨[], .delivering .stop, true, false, .passed, 2⟩ := .of_exec rfl
  have hprocessed : StopProcessed (fun _ => true) lateStop :=
    ⟨lateStop.take 2, lateStop.drop 3, _, rfl, hbefore, rfl⟩
  refine ⟨_, _, hrun, hprocessed, rfl, rfl, rfl, fun kept => ?_⟩
  exact kept [] lateStop _ rfl hrun hprocessed ⟨by simp, by simp⟩

end Nuntius.CollectorSupervisor
