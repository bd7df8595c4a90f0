import Nuntius.BridgeServer

/-!
# The key is frozen with its endpoints

A key is installed under the endpoints it was fetched under, from one of the configured peers
and over a channel to a baked ancestor. From then on the key, its address and the
configuration stay as they are, and the readiness flag never runs ahead of the key.
-/

namespace Nuntius.BridgeServer
open HandoverPolicy OwnerApprovals InteractivePrograms LabelledRuns ChainReads
open ClaimFlow BootRules BridgeBoot BridgeHandlers

variable {img : BridgeImage} {older labels : List Label} {b b' : Bridge} {l : Label}

/-- The configuration names the baked contracts and the baked chain. -/
def AgreesWith (baked : BakedIdentity) (cfg : BridgeConfig) : Prop :=
  cfg.exit = baked.exit ∧ cfg.kskd = baked.kskd ∧ cfg.entry = baked.entry ∧
    cfg.chainId = baked.chainId

structure BridgeSafe (img : BridgeImage) (labels : List Label) (b : Bridge) : Prop where
  frozen : ∀ tick t address key current, .installed tick t address key current ∈ labels →
    SameEndpoints current tick ∧ .ticked tick t (.ok (.done (.peer address key))) ∈ labels ∧
    FetchedIn img tick t address key ∧
    b.state.key = some key ∧ b.state.signer = some address ∧ b.state.config = some current
  accounted : ∀ key, b.state.key = some key →
    ∃ tick t address current, .installed tick t address key current ∈ labels
  baked : ∀ cfg, b.state.config = some cfg → AgreesWith img.baked cfg
  ready : b.keyInstalled = true → b.state.key.isSome = true

def BootPhase.hasKey : BootPhase → Bool
  | .storing => true
  | .booted => true
  | _ => false

/-- The boot task knows whether it has installed, and what it has fetched. -/
structure PhaseSafe (img : BridgeImage) (labels : List Label) (b : Bridge) : Prop where
  key : b.state.key.isSome = b.phase.hasKey
  fetched : ∀ tick t address key, b.phase = .fetched tick t address key →
    .ticked tick t (.ok (.done (.peer address key))) ∈ labels ∧ FetchedIn img tick t address key

/-- The part of the state that is frozen with the key. -/
structure SameIdentity (st st' : BridgeState) : Prop where
  key : st'.key = st.key
  signer : st'.signer = st.signer
  config : st'.config = st.config

theorem SameIdentity.refl (st : BridgeState) : SameIdentity st st := ⟨rfl, rfl, rfl⟩

theorem sameIdentity_recorded (ext : Externals) (st : BridgeState) (r : Address)
    (grant : ClaimGrant) : SameIdentity st (recorded ext st r grant) := by
  rw [recorded]
  split <;> exact ⟨rfl, rfl, rfl⟩

/-- A step that installs nothing and leaves the identity alone. -/
theorem BridgeSafe.carry (h : BridgeSafe img older b) (hsame : SameIdentity b.state b'.state)
    (hl : ∀ tick t address key current, l ≠ .installed tick t address key current)
    (hready : b'.keyInstalled = true → b.state.key.isSome = true) :
    BridgeSafe img (l :: older) b' where
  frozen tick t address key current hmem := by
    cases hmem with
    | head => exact absurd rfl (hl tick t address key current)
    | tail _ hmem =>
      obtain ⟨hends, hticked, hfetched, hkey, hsigner, hconfig⟩ := h.frozen _ _ _ _ _ hmem
      exact ⟨hends, List.mem_cons_of_mem l hticked, hfetched, hsame.key.trans hkey,
        hsame.signer.trans hsigner, hsame.config.trans hconfig⟩
  accounted key hkey := by
    obtain ⟨tick, t, address, current, hmem⟩ := h.accounted key (hsame.key.symm.trans hkey)
    exact ⟨tick, t, address, current, List.mem_cons_of_mem l hmem⟩
  baked cfg hcfg := h.baked cfg (hsame.config.symm.trans hcfg)
  ready hflag := by
    rw [hsame.key]
    exact hready hflag

/-- Without a key nothing has been installed. -/
theorem BridgeSafe.not_installed (h : BridgeSafe img older b) (hkey : b.state.key = none)
    {tick current : BridgeConfig} {t : Transcript WorldAnswer} {address : Address}
    {key : SigningKey} : .installed tick t address key current ∉ older := by
  intro hmem
  obtain ⟨-, -, -, hsome, -, -⟩ := h.frozen _ _ _ _ _ hmem
  rw [hkey] at hsome
  cases hsome

theorem fetched_of_afterTick {cfg tick : BridgeConfig} {t t' : Transcript WorldAnswer}
    {outcome : Except (BootError ChainError) StepOutcome} {address : Address} {key : SigningKey}
    (h : afterTick cfg t outcome = .fetched tick t' address key) :
    tick = cfg ∧ t' = t ∧ outcome = .ok (.done (.peer address key)) := by
  unfold afterTick at h
  split at h
  · cases h
    exact ⟨rfl, rfl, rfl⟩
  all_goals cases h

theorem afterTick_hasKey (cfg : BridgeConfig) (t : Transcript WorldAnswer)
    (outcome : Except (BootError ChainError) StepOutcome) :
    (afterTick cfg t outcome).hasKey = false := by
  unfold afterTick
  split <;> rfl

/-- A step that leaves the key and the boot task alone. -/
theorem PhaseSafe.carry (h : PhaseSafe img older b) (hkey : b'.state.key = b.state.key)
    (hphase : b'.phase = b.phase) : PhaseSafe img (l :: older) b' where
  key := by
    rw [hkey, hphase]
    exact h.key
  fetched tick t address key hfetched := by
    obtain ⟨hticked, hin⟩ := h.fetched tick t address key (hphase.symm.trans hfetched)
    exact ⟨List.mem_cons_of_mem l hticked, hin⟩

/-- A step into a phase that has fetched nothing. -/
theorem PhaseSafe.move {older' : List Label} (hkey : b.state.key.isSome = b.phase.hasKey)
    (hnone : ∀ tick t address key, b.phase ≠ .fetched tick t address key) :
    PhaseSafe img older' b where
  key := hkey
  fetched tick t address key hfetched := absurd hfetched (hnone tick t address key)

theorem PhaseSafe.unbooted (h : PhaseSafe img older b) (hphase : b.phase.hasKey = false) :
    b.state.key = none := by
  have hkey := h.key
  rw [hphase] at hkey
  exact Option.not_isSome_iff_eq_none.mp (by simp [hkey])

theorem phaseSafe_handled {env : RequestEnv} {st' : BridgeState} {req : BridgeRequest}
    {reply : Reply} (h : PhaseSafe img older b)
    (handled : Handled (handlerCtx img env) b.state req reply st') :
    PhaseSafe img (l :: older) { b with state := st' } := by
  cases handled with
  | untouched plain => exact h.carry rfl rfl
  | configured unbooted => exact h.carry rfl rfl
  | granted asked printed fits mark => exact h.carry (sameIdentity_recorded ..).key rfl

theorem phaseSafe_step (h : PhaseSafe img older b) (now : AtomicStep img b l b') :
    PhaseSafe img (l :: older) b' := by
  cases now with
  | waiting => exact h.carry rfl rfl
  | unlocked => exact h.carry rfl rfl
  | finished env handled => exact phaseSafe_handled h handled
  | dropped => exact h.carry rfl rfl
  | snapshot idle configured =>
    refine .move ?_ (by simp)
    rw [h.key, idle]
    rfl
  | @ticked cfg t loop' outcome busy ran =>
    constructor
    · rw [afterTick_hasKey, h.key, busy]
      rfl
    · intro tick t' address key hfetched
      obtain ⟨rfl, rfl, rfl⟩ := fetched_of_afterTick hfetched
      exact ⟨List.mem_cons_self, bridgeTick_fetched ran⟩
  | installed done configured same =>
    refine .move ?_ (by simp)
    have hkey := h.unbooted (by rw [done]; rfl)
    simp [BridgeState.installKey, hkey, BootPhase.hasKey]
  | stale done =>
    refine .move ?_ (by simp)
    rw [h.key, done]
    rfl
  | flagged storing =>
    refine .move ?_ (by simp)
    rw [h.key, storing]
    rfl

theorem bridgeSafe_handled {env : RequestEnv} {st' : BridgeState} {req : BridgeRequest}
    {reply : Reply} (h : BridgeSafe img older b)
    (handled : Handled (handlerCtx img env) b.state req reply st') :
    BridgeSafe img (.finished req b.state reply st' :: older) { b with state := st' } := by
  cases handled with
  | untouched plain => exact h.carry (.refl _) (by simp) h.ready
  | @configured entry rhRpcs oraclePeers unbooted =>
    constructor
    · intro tick t address key current hmem
      cases hmem with
      | tail _ hmem => exact absurd hmem (h.not_installed unbooted)
    · intro key hkey
      rw [BridgeState.setConfig, unbooted] at hkey
      cases hkey
    · intro cfg hcfg
      cases hcfg
      exact ⟨rfl, rfl, rfl, rfl⟩
    · exact h.ready
  | granted asked printed fits mark => exact h.carry (sameIdentity_recorded ..) (by simp) h.ready

theorem bridgeSafe_installed {tick current : BridgeConfig} {t : Transcript WorldAnswer}
    {address : Address} {key : SigningKey} (h : BridgeSafe img older b)
    (phase : PhaseSafe img older b) (done : b.phase = .fetched tick t address key)
    (configured : b.state.config = some current) (same : SameEndpoints current tick) :
    BridgeSafe img (.installed tick t address key current :: older)
      { b with state := b.state.installKey key address, phase := .storing } := by
  have hkey : b.state.key = none := phase.unbooted (by rw [done]; rfl)
  have hinstall : b.state.installKey key address =
      { b.state with key := some key, signer := some address, boot := .ready } := by
    simp [BridgeState.installKey, hkey]
  obtain ⟨hticked, hfetched⟩ := phase.fetched tick t address key done
  rw [hinstall]
  constructor
  · intro tick' t' address' key' current' hmem
    cases hmem with
    | head =>
      exact ⟨same, List.mem_cons_of_mem _ hticked, hfetched, rfl, rfl, configured⟩
    | tail _ hmem => exact absurd hmem (h.not_installed hkey)
  · intro key' hkey'
    cases hkey'
    exact ⟨tick, t, address, current, List.mem_cons_self⟩
  · exact h.baked
  · intro _
    rfl

theorem bridgeSafe_step (h : BridgeSafe img older b) (phase : PhaseSafe img older b)
    (now : AtomicStep img b l b') : BridgeSafe img (l :: older) b' := by
  cases now with
  | waiting => exact h.carry (.refl _) (by simp) h.ready
  | unlocked => exact h.carry (.refl _) (by simp) h.ready
  | finished env handled => exact bridgeSafe_handled h handled
  | dropped => exact h.carry (.refl _) (by simp) h.ready
  | snapshot _ _ => exact h.carry (.refl _) (by simp) h.ready
  | ticked _ _ => exact h.carry (.refl _) (by simp) h.ready
  | installed done configured same => exact bridgeSafe_installed h phase done configured same
  | stale _ => exact h.carry (.refl _) (by simp) h.ready
  | flagged storing =>
    refine h.carry (.refl _) (by simp) fun _ => ?_
    rw [phase.key, storing]
    rfl

theorem safe_start :
    BridgeSafe img [] (Bridge.start img) ∧ PhaseSafe img [] (Bridge.start img) := by
  refine ⟨⟨by simp, ?_, ?_, ?_⟩, .move rfl ?_⟩
  · intro key hkey
    cases hkey
  · intro cfg hcfg
    cases hcfg
  · intro hflag
    cases hflag
  · intro tick t address key hfetched
    cases hfetched

/-- The bridge runs no key fetched under other endpoints than the ones it is frozen to. -/
theorem key_frozen_with_endpoints {s : Server} (run : ServerRun img labels s) :
    BridgeSafe img labels s.bridge := by
  have hboth : BridgeSafe img labels s.bridge ∧ PhaseSafe img labels s.bridge := by
    refine (run_atomic run).1.invariant
      (fun labels b => BridgeSafe img labels b ∧ PhaseSafe img labels b) safe_start ?_
    intro older b l b' _ ih now
    exact ⟨bridgeSafe_step ih.1 ih.2 now, phaseSafe_step ih.2 now⟩
  exact hboth.1

theorem key_frozen_with_endpoints_demo :
    ∃ labels s, ServerRun demoImage labels s ∧ s.bridge.keyInstalled = true ∧
      s.bridge.state.key = some demoSigningKey ∧ BridgeSafe demoImage labels s.bridge := by
  obtain ⟨n, booted⟩ := demo_boots
  exact ⟨_, _, booted, rfl, rfl, key_frozen_with_endpoints booted⟩

end Nuntius.BridgeServer
