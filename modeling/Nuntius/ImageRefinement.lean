import Nuntius.PublishedIdentity

/-!
# The finer runs are runs of the image

A tick that has generated its key asks nothing more, so the finer runs pass through the
states of `OracleRuns`: the tick of the image takes place with its last answer that matters,
and what the finer run does until the loop has stored the candidate is no step there. What
was shown of the keys the image frames therefore holds in the finer runs.
-/

namespace Nuntius.PublishedIdentity
open WireFormat HandoverPolicy OwnerApprovals ControlChannel InteractivePrograms LabelledRuns
open AttestedExchange BootRules OracleRuns

variable {img : HandoverImage} {ε : Type}

/-! ### After the generation of a key -/

section Generation
variable {addressFromKey : SigningKey → Address}

def IsFetch : BootQuery → Prop
  | .fetch _ _ => True
  | _ => False

theorem sweepPeers_fetches (peers : List (String × FetchKind)) :
    Prog.Only IsFetch
      (sweepPeers peers :
        Prog (BootAnswer addressFromKey ε) (List (FetchedKey addressFromKey))) := by
  induction peers with
  | nil => trivial
  | cons peer rest ih =>
    refine Prog.Only.bind ⟨trivial, fun _ => trivial⟩ fun _ => ?_
    exact ih.bind fun _ => trivial

/-- Only the decision for a new candidate asks for one, and it asks at once. -/
theorem act_asks_generate {loop : BootLoopState} {fetched : List (FetchedKey addressFromKey)}
    {action : Except ε BootAction} {t : Transcript (BootAnswer addressFromKey ε)}
    (h : Prog.Asks (act loop fetched action) t .generate) :
    action = .ok .generateCandidate ∧ t = [] := by
  cases action with
  | error fault => exact absurd h Prog.asks_ret
  | ok action =>
    cases action with
    | installPeerKey addr =>
      rw [act] at h
      split at h <;> exact absurd h Prog.asks_ret
    | installCandidate =>
      rw [act] at h
      split at h <;> exact absurd h Prog.asks_ret
    | wait => exact absurd h Prog.asks_ret
    | generateCandidate =>
      refine ⟨rfl, ?_⟩
      obtain hnow | ⟨t₁, t₂, minted, -, -, hlater⟩ := Prog.asks_bind.mp h
      · exact (Prog.asks_query.mp hnow).1
      · cases minted <;> exact absurd hlater Prog.asks_ret

theorem act_generates (loop : BootLoopState) (fetched : List (FetchedKey addressFromKey))
    (key : SigningKey) :
    Prog.Runs (act loop fetched (.ok .generateCandidate : Except ε BootAction))
      [⟨.generate, some key⟩] (⟨some (addressFromKey key, key)⟩, .ok .continues) := by
  refine Prog.runs_bind.mpr ⟨_, [], some key, rfl, Prog.runs_query.mpr rfl, ?_⟩
  exact .ret _

/-- With a generated key the tick is over, and the loop holds the key. -/
theorem step_generates {loop : BootLoopState} {deps : BootDeps}
    {t : Transcript (BootAnswer addressFromKey ε)} (h : Prog.Asks (step loop deps) t .generate)
    (key : SigningKey) :
    genesisAnswers t = [] ∧ Prog.Runs (step loop deps) (t ++ [⟨.generate, some key⟩])
      (⟨some (addressFromKey key, key)⟩, .ok .continues) := by
  obtain hsweep | ⟨t₁, t₂, fetched, rfl, hsweep, hrest⟩ := Prog.asks_bind.mp h
  · exact ((sweepPeers_fetches deps.peers).of_outstanding hsweep).elim
  obtain htick | ⟨t₃, t₄, action, rfl, htick, hact⟩ := Prog.asks_bind.mp hrest
  · exact ((tick_only _).of_outstanding htick).elim
  obtain ⟨rfl, rfl⟩ := act_asks_generate hact
  have hsilent := (views_of_registry ((tick_only _).of_mem htick)).2
  rw [List.append_nil]
  constructor
  · rw [genesisAnswers_append, (sweepPeers_views hsweep).2.2, hsilent]
    rfl
  · rw [List.append_assoc]
    exact Prog.runs_bind.mpr ⟨t₁, _, fetched, rfl, hsweep,
      Prog.runs_bind.mpr ⟨t₃, _, _, rfl, htick, act_generates loop fetched key⟩⟩

end Generation

/-! ### The state of the image -/

def ServedConnection.coarse : ServedConnection → Option Connection
  | .probed => some .probed
  | .armed snap => some (.armed snap)
  | _ => none

/-- A tick that has generated a key counts as done. -/
def coarseBoot (loop : BootLoopState) : BootPhase img ε → BootLoopState × BootTask
  | .waiting => (loop, .waiting)
  | .ticking peers t =>
    match generatedKeys t with
    | [] => (loop, .ticking peers)
    | key :: _ => (⟨some (img.addressFromKey key, key)⟩, .waiting)
  | .resolved installed => (loop, .resolved installed)
  | .serving => (loop, .serving)

def FineState.coarse (s : FineState img ε) : ImageState where
  keyex := s.keyex
  loop := (coarseBoot s.loop s.phase).1
  task := (coarseBoot s.loop s.phase).2
  connections := fun conn => (s.connections conn).coarse

theorem coarse_setConnection (s : FineState img ε) (conn : ℕ) (c : ServedConnection) :
    (s.setConnection conn c).coarse =
      { s.coarse with connections := Function.update s.coarse.connections conn c.coarse } := by
  have hconnections : (s.setConnection conn c).coarse.connections =
      Function.update s.coarse.connections conn c.coarse := by
    funext conn'
    by_cases hconn : conn' = conn
    · subst hconn
      rw [Function.update_self]
      exact congrArg ServedConnection.coarse (setConnection_self conn' c)
    · rw [Function.update_of_ne hconn]
      exact congrArg ServedConnection.coarse (setConnection_of_ne c hconn)
  rw [← hconnections]
  rfl

/-- The event that a step of the image is told from. -/
def shown : Label img ε → Option (Event img ε)
  | .control env body reply => some (.control env body reply)
  | .installed key => some (.installed key)
  | _ => none

/-- Requests and installations of the image are those of the finer run. -/
def Tracks (events : List (Event img ε)) (labels : List (Label img ε)) : Prop :=
  ∀ l ∈ labels, ∀ e, shown l = some e → e ∈ events

/-! ### The simulation -/

/-- A tick has generated nothing so far, or it is over with the one key it generated. -/
def Progress (s : FineState img ε) : Prop :=
  ∀ peers t, s.phase = .ticking peers t → generatedKeys t = [] ∨
    ∃ key, generatedKeys t = [key] ∧ Prog.Runs (step s.loop (bootDeps peers)) t
      (⟨some (img.addressFromKey key, key)⟩, .ok .continues)

variable {events : List (Event img ε)} {s s' : FineState img ε} {l : Event img ε}
  {peers : List String} {t : Transcript (BootAnswer img.addressFromKey ε)}

/-- A tick that still asks has generated nothing. -/
theorem Progress.ungenerated (h : Progress s) {peers : List String}
    {t : Transcript (BootAnswer img.addressFromKey ε)} {q : BootQuery}
    (busy : s.phase = .ticking peers t) (asks : Prog.Asks (step s.loop (bootDeps peers)) t q) :
    generatedKeys t = [] := by
  obtain hnone | ⟨key, -, ran⟩ := h peers t busy
  · exact hnone
  · exact absurd asks ran.not_asks

theorem progress_step (h : Progress s) (now : FineStep s l s') : Progress s' := by
  cases now with
  | control env body => exact h
  | tickStarted idle =>
    intro peers t busy
    cases busy
    exact .inl rfl
  | @answered peers t q a busy asks =>
    intro peers' t' busy'
    cases busy'
    have hbefore := h.ungenerated busy asks
    obtain hnone | ⟨key, heq⟩ := generated_cases q a
    · left
      rw [generatedKeys_append, hbefore, hnone]
      rfl
    · right
      cases heq
      refine ⟨key, ?_, (step_generates asks key).2⟩
      rw [generatedKeys_append, hbefore]
      rfl
  | @ticked peers t loop' outcome busy ran =>
    intro peers' t' busy'
    change phaseAfter outcome = _ at busy'
    rw [phaseAfter] at busy'
    split at busy' <;> cases busy'
  | installed done =>
    intro peers t busy
    cases busy
  | served unserved => exact h
  | armed probed verify key approvals => exact h
  | framed armed asks => exact h
  | closed => exact h

theorem progress_run (run : FineRun events s) : Progress s := by
  refine run.invariant (fun _ s => Progress s) ?_ ?_
  · intro peers t busy
    cases busy
  · intro older s l s' _ ih now
    exact progress_step ih now

/-- Without a generated key the boot task of the image is where the finer one is. -/
theorem coarse_ticking (busy : s.phase = .ticking peers t) (hnone : generatedKeys t = []) :
    s.coarse.loop = s.loop ∧ s.coarse.task = .ticking peers := by
  have hboot : coarseBoot s.loop s.phase = (s.loop, .ticking peers) := by
    rw [busy, coarseBoot, hnone]
  exact ⟨congrArg Prod.fst hboot, congrArg Prod.snd hboot⟩

theorem coarse_phaseAfter (loop : BootLoopState) (outcome : Except (BootError ε) StepOutcome) :
    coarseBoot loop (phaseAfter outcome : BootPhase img ε) = (loop, afterTick outcome) := by
  cases hresolved : resolvedBy outcome with
  | none => rw [phaseAfter, afterTick, hresolved, coarseBoot]
  | some installed => rw [phaseAfter, afterTick, hresolved, coarseBoot]

/-- The image follows: it takes the step too, or the finer step does not show in its state. -/
def Follows (events : List (Event img ε)) (s : FineState img ε) : Prop :=
  ∃ labels, ImageRun img labels s.coarse ∧ Tracks events labels

theorem Follows.skip (h : Follows events s) (same : s'.coarse = s.coarse) (l : Event img ε) :
    Follows (l :: events) s' := by
  obtain ⟨labels, run, tracks⟩ := h
  refine ⟨labels, ?_, fun l' hl' e he => List.mem_cons_of_mem l (tracks l' hl' e he)⟩
  rw [same]
  exact run

theorem Follows.push (h : Follows events s) {l' : Label img ε} {c : ImageState}
    (now : Step img s.coarse l' c) (same : s'.coarse = c)
    (told : ∀ e, shown l' = some e → e = l) : Follows (l :: events) s' := by
  obtain ⟨labels, run, tracks⟩ := h
  refine ⟨l' :: labels, ?_, ?_⟩
  · rw [same]
    exact run.step now
  · intro l'' hl'' e he
    obtain rfl | hl'' := List.mem_cons.mp hl''
    · rw [told e he]
      exact List.mem_cons_self
    · exact List.mem_cons_of_mem l (tracks l'' hl'' e he)

theorem Follows.answered (h : Follows events s) (progress : Progress s) {q : BootQuery}
    (a : BootAnswer img.addressFromKey ε q) (busy : s.phase = .ticking peers t)
    (asks : Prog.Asks (step s.loop (bootDeps peers)) t q) :
    Follows (.answered q a :: events)
      { s with
        keyex := publishAll img s.keyex (generatedKeys [⟨q, a⟩])
        phase := .ticking peers (t ++ [⟨q, a⟩]) } := by
  have hbefore := progress.ungenerated busy asks
  obtain ⟨hloop, htask⟩ := coarse_ticking busy hbefore
  obtain hnone | ⟨key, heq⟩ := generated_cases q a
  · refine h.skip ?_ _
    simp only [FineState.coarse, busy, coarseBoot, generatedKeys_append, hbefore, hnone,
      List.append_nil]
    rfl
  · cases heq
    have ran := (step_generates asks key).2
    have hkeys : generatedKeys (t ++ [⟨.generate, some key⟩]) = [key] := by
      rw [generatedKeys_append, hbefore, generatedKeys_generate, List.nil_append]
    rw [← hloop] at ran
    refine h.push (.ticked htask ran) ?_ (by simp [shown])
    simp only [FineState.coarse, coarseBoot, hkeys, generatedKeys_generate]
    rfl

theorem Follows.ticked (h : Follows events s) (progress : Progress s) {loop' : BootLoopState}
    {outcome : Except (BootError ε) StepOutcome} (busy : s.phase = .ticking peers t)
    (ran : Prog.Runs (step s.loop (bootDeps peers)) t (loop', outcome)) :
    Follows (.ticked outcome :: events) { s with loop := loop', phase := phaseAfter outcome } := by
  obtain hnone | ⟨key, hkeys, ran'⟩ := progress peers t busy
  · obtain ⟨hloop, htask⟩ := coarse_ticking busy hnone
    rw [← hloop] at ran
    refine h.push (.ticked htask ran) ?_ (by simp [shown])
    simp only [FineState.coarse, coarse_phaseAfter, hnone]
    rfl
  · -- The image has done this tick already, with the generation of the key.
    cases ran.unique ran'
    refine h.skip ?_ _
    simp only [FineState.coarse, busy, coarseBoot, hkeys]
    rfl

theorem Follows.served (h : Follows events s) (coherent : Coherent events s) {conn : ℕ}
    (unserved : s.connections conn = .unserved) :
    Follows (.served conn :: events) (s.setConnection conn (earlyCheck s.keyex)) := by
  have hunused : s.coarse.connections conn = none := congrArg ServedConnection.coarse unserved
  by_cases hkey : s.keyex.rootKey.isSome = true
  · have ready : s.phase = .serving := by
      by_contra unready
      rw [(coherent.before unready).2.1] at hkey
      cases hkey
    have hserving : s.coarse.task = .serving := by
      rw [FineState.coarse, ready]
      rfl
    refine h.push (.opened hserving hunused hkey) ?_ (by simp [shown])
    rw [coarse_setConnection, earlyCheck, if_pos hkey]
    rfl
  · refine h.skip ?_ _
    rw [coarse_setConnection, earlyCheck, if_neg hkey]
    change { s.coarse with connections := Function.update s.coarse.connections conn none } = _
    rw [← hunused, Function.update_eq_self]

theorem Follows.framed (h : Follows events s) {conn : ℕ} {snap : Snapshot}
    {t : Transcript ChannelAnswer} {frame : Frame} (armed : s.connections conn = .armed snap)
    (asks : Fallible.Asks (connectionExchange img snap) t (.write frame)) :
    Follows (.framed conn frame :: events) (s.setConnection conn (afterFrame snap frame)) := by
  have harmed : s.coarse.connections conn = some (.armed snap) :=
    congrArg ServedConnection.coarse armed
  have hstays : (s.setConnection conn (.armed snap)).coarse = s.coarse := by
    rw [coarse_setConnection]
    change { s.coarse with
      connections := Function.update s.coarse.connections conn (some (.armed snap)) } = _
    rw [← harmed, Function.update_eq_self]
  cases frame with
  | nonce n => exact h.skip hstays _
  | document doc => exact h.skip hstays _
  | decline => exact h.skip hstays _
  | grant key =>
    exact h.push (.framed harmed asks) (coarse_setConnection _ _ _) (by simp [shown])

theorem follows_step (coherent : Coherent events s) (progress : Progress s)
    (h : Follows events s) (now : FineStep s l s') : Follows (l :: events) s' := by
  cases now with
  | control env body =>
    exact h.push (.control env body) rfl fun e he => (Option.some.inj he).symm
  | tickStarted idle =>
    have hidle : s.coarse.task = .waiting := by
      rw [FineState.coarse, idle]
      rfl
    refine h.push (.tickStarted hidle) ?_ (by simp [shown])
    simp only [FineState.coarse, idle]
    rfl
  | answered a busy asks => exact h.answered progress a busy asks
  | ticked busy ran => exact h.ticked progress busy ran
  | @installed key done =>
    have hdone : s.coarse.task = .resolved key := by
      rw [FineState.coarse, done]
      rfl
    refine h.push (.installed hdone) ?_ (by simp [shown])
    simp only [FineState.coarse, done]
    rfl
  | served unserved => exact h.served coherent unserved
  | armed probed verify key approvals =>
    have hprobed := congrArg ServedConnection.coarse probed
    exact h.push (.armed hprobed verify key approvals) (coarse_setConnection _ _ _)
      (by simp [shown])
  | framed armed asks => exact h.framed armed asks
  | closed => exact h.push .closed (coarse_setConnection _ _ _) (by simp [shown])

/-- Every finer run passes through states of the image, with the same requests and
installations. -/
theorem follows_run (run : FineRun events s) : Follows events s := by
  refine run.invariant Follows ?_ ?_
  · exact ⟨[], .start, by simp [Tracks]⟩
  · intro older s l s' before ih now
    exact follows_step (coherent_run before) (progress_run before) ih now

/-! ### Granted keys -/

/-- A connection is armed by the step, or was before. -/
theorem armed_step (now : FineStep s l s') {conn : ℕ} {snap : Snapshot}
    (h : s'.connections conn = .armed snap) :
    s.connections conn = .armed snap ∨ .armed conn snap = l := by
  have hset : ∀ {conn' : ℕ} {c : ServedConnection},
      (s.setConnection conn' c).connections conn = .armed snap →
      s.connections conn = .armed snap ∨ conn = conn' ∧ c = .armed snap := by
    intro conn' c hc
    by_cases hconn : conn = conn'
    · subst hconn
      rw [setConnection_self] at hc
      exact .inr ⟨rfl, hc⟩
    · exact .inl (setConnection_of_ne c hconn ▸ hc)
  cases now with
  | control env body => exact .inl h
  | tickStarted idle => exact .inl h
  | answered a busy asks => exact .inl h
  | ticked busy ran => exact .inl h
  | installed done => exact .inl h
  | served unserved =>
    refine (hset h).imp_right ?_
    rintro ⟨-, hearly⟩
    rw [earlyCheck] at hearly
    split_ifs at hearly
  | armed probed verify key approvals =>
    refine (hset h).imp_right ?_
    rintro ⟨rfl, heq⟩
    cases heq
    rfl
  | @framed conn' _ _ frame armed asks =>
    obtain hbefore | ⟨rfl, heq⟩ := hset h
    · exact .inl hbefore
    · cases frame with
      | grant key => cases heq
      | nonce n => exact .inl (armed.trans heq)
      | document doc => exact .inl (armed.trans heq)
      | decline => exact .inl (armed.trans heq)
  | closed =>
    refine (hset h).imp_right ?_
    rintro ⟨-, heq⟩
    cases heq

theorem armed_run (run : FineRun events s) {conn : ℕ} {snap : Snapshot}
    (h : s.connections conn = .armed snap) : .armed conn snap ∈ events := by
  refine run.invariant (fun events s => ∀ conn snap, s.connections conn = .armed snap →
    .armed conn snap ∈ events) ?_ ?_ conn snap h
  · intro conn snap harmed
    cases harmed
  · intro older s l s' _ ih now conn snap harmed
    obtain hbefore | rfl := armed_step now harmed
    · exact List.mem_cons_of_mem l (ih conn snap hbefore)
    · exact List.mem_cons_self

/-- An earlier request was accepted as this approval. -/
def Approved (events : List (Event img ε)) (va : VerifiedApproval) : Prop :=
  ∃ env typedData signatures,
    .control env (some (.approval typedData signatures)) (.approvalResult true none) ∈ events ∧
      AcceptedAs img.toOracleImage env typedData signatures va

/-- In every finer run a granted key is what the exchange of an armed connection released to a
peer it had verified. The root key behind it had been installed, and a foreign peer had been
approved for the key by a request that was accepted. -/
theorem granted_with_approval (newer : List (Event img ε)) {older : List (Event img ε)} {conn : ℕ}
    {key : TransferKey} (run : FineRun (newer ++ .framed conn (.grant key) :: older) s) :
    ∃ snap t peer, .armed conn snap ∈ older ∧
      Fallible.Asks (connectionExchange img snap) t (.write (.grant key)) ∧
      verifiedPeer snap.channel t = some peer ∧ .installed snap.rootKey ∈ older ∧
      (peer.pcr0 ≠ img.pcr0 → ∃ va ∈ snap.approvals, Approved older va ∧
        Justifies img peer.pcr0 snap.rootKey key va) := by
  obtain ⟨s₀, s₁, before, now⟩ := Run.fired run
  obtain ⟨labels, imageRun, tracks⟩ := follows_run before
  cases now with
  | @framed _ snap t _ armed asks =>
    obtain ⟨hkey, hbacked⟩ := (accounted_run imageRun).snapshots conn snap
      (congrArg ServedConnection.coarse armed)
    obtain ⟨peer, hpeer, hreleased⟩ := serverExchange_grant asks
    refine ⟨snap, t, peer, armed_run before armed, asks, hpeer, tracks _ hkey _ rfl, ?_⟩
    intro hforeign
    obtain ⟨va, hva, just⟩ := justified_of_released hreleased hforeign
    obtain ⟨env, typedData, signatures, hmem, accepted⟩ := hbacked va hva
    exact ⟨va, hva, ⟨env, typedData, signatures, tracks _ hmem _ rfl, accepted⟩, just⟩

/-- The booted image takes the owner's approval and serves a connection. -/
def grantEvents : List (Event demoImage Unit) :=
  .armed 1 { demoSnapshot 150 with rootKey := demoKey 2 } :: .served 1 ::
    .control demoSurroundings (some demoRequest) (.approvalResult true none) :: bootedEvents

theorem grant_run : ∃ s, FineRun (.framed 1 (.grant (demoKey 2)) :: grantEvents) s := by
  have approved := booted_run.step (.control demoSurroundings (some demoRequest))
  have haccepted : handleControlConnection demoImage.toOracleImage demoSurroundings
      bootedState.keyex (some demoRequest) =
      (.approvalResult true none, { bootedState.keyex with approvals := [demoApproval] }) := by
    decide +kernel
  rw [haccepted] at approved
  exact ⟨_, ((approved.step (.served rfl)).step (.armed rfl rfl rfl rfl)).step
    (.framed rfl (demo_asks 150 (demoKey 2)))⟩

/-- The key of the example goes to a peer that the owner approved after the boot. -/
theorem granted_with_approval_booted :
    ∃ snap t peer, .armed 1 snap ∈ grantEvents ∧
      Fallible.Asks (connectionExchange demoImage snap) t (.write (.grant (demoKey 2))) ∧
      verifiedPeer snap.channel t = some peer ∧ .installed snap.rootKey ∈ grantEvents ∧
      (peer.pcr0 ≠ demoImage.pcr0 → ∃ va ∈ snap.approvals, Approved grantEvents va ∧
        Justifies demoImage peer.pcr0 snap.rootKey (demoKey 2) va) := by
  obtain ⟨s, run⟩ := grant_run
  exact granted_with_approval [] run

end Nuntius.PublishedIdentity
