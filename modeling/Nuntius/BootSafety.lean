import Nuntius.BootRules

/-!
# What a whole boot can do

A tick has one of five effects. From them follow, over every sequence of ticks, that a
boot generates at most one key, that what an oracle installs was answered registered in
that very tick, and that a bridge never generates.
-/

namespace Nuntius.BootRules
open WireFormat HandoverPolicy OwnerApprovals InteractivePrograms LabelledRuns

variable {addressFromKey : SigningKey → Address} {ε : Type}
variable {t t₁ t₂ : Transcript (BootAnswer addressFromKey ε)}
variable {deps : BootDeps} {loop loop' : BootLoopState}
  {outcome : Except (BootError ε) StepOutcome}

@[simp] theorem fetchedKeys_append : fetchedKeys (t₁ ++ t₂) = fetchedKeys t₁ ++ fetchedKeys t₂ :=
  List.filterMap_append

@[simp] theorem registryAnswers_append :
    registryAnswers (t₁ ++ t₂) = registryAnswers t₁ ++ registryAnswers t₂ :=
  List.filterMap_append

@[simp] theorem signerCounts_append :
    signerCounts (t₁ ++ t₂) = signerCounts t₁ ++ signerCounts t₂ :=
  List.filterMap_append

@[simp] theorem genesisAnswers_append :
    genesisAnswers (t₁ ++ t₂) = genesisAnswers t₁ ++ genesisAnswers t₂ :=
  List.filterMap_append

/-- The sweep before a decision takes nothing from its grounds. -/
theorem Grounds.after_sweep {tk : Tick} {action : BootAction} (h : Grounds tk t₂ action)
    (hsweep : registryAnswers t₁ = []) : Grounds tk (t₁ ++ t₂) action := by
  have hregistry : registryAnswers (t₁ ++ t₂) = registryAnswers t₂ := by
    rw [registryAnswers_append, hsweep, List.nil_append]
  cases action with
  | installPeerKey addr =>
    rw [Grounds, hregistry]
    exact h
  | generateCandidate =>
    obtain ⟨hrole, hcand, hcount⟩ := h
    refine ⟨hrole, hcand, ?_⟩
    intro hfresh
    rw [signerCounts_append]
    exact List.mem_append_right _ (hcount hfresh)
  | installCandidate =>
    rw [Grounds, hregistry]
    exact h
  | wait => trivial

/-- The inputs of a tick's decision. -/
def tickOf (deps : BootDeps) (loop : BootLoopState)
    (fetched : List (FetchedKey addressFromKey)) : Tick where
  role := deps.role
  sweep := fetched.map FetchedKey.address
  freshApproved := deps.freshApproved
  candidate := loop.candidate.map Prod.fst

/-- A tick fetches, decides on grounds, and acts. -/
theorem step_split (h : Prog.Runs (step loop deps) t (loop', outcome)) :
    ∃ t₁ t₂ action, t = t₁ ++ t₂ ∧ genesisAnswers t₁ = [] ∧
      (∀ a, action = .ok a → Grounds (tickOf deps loop (fetchedKeys t₁)) t₁ a) ∧
      Prog.Runs (act loop (fetchedKeys t₁) action) t₂ (loop', outcome) := by
  obtain ⟨ts, tr, fetched, rfl, hsweep, hrest⟩ := Prog.runs_bind.mp h
  obtain ⟨tk, ta, action, rfl, htick, hact⟩ := Prog.runs_bind.mp hrest
  obtain ⟨rfl, hregistry, hgenesis⟩ := sweepPeers_views hsweep
  obtain ⟨hfetched', hgenesis'⟩ := views_of_registry ((tick_only _).of_mem htick)
  have hkeys : fetchedKeys (ts ++ tk) = fetchedKeys ts := by
    rw [fetchedKeys_append, hfetched', List.append_nil]
  refine ⟨ts ++ tk, ta, action, (List.append_assoc ..).symm, ?_, ?_, ?_⟩
  · rw [genesisAnswers_append, hgenesis, hgenesis', List.append_nil]
  · rintro a rfl
    rw [hkeys]
    exact (tick_grounds htick).after_sweep hregistry
  · rw [hkeys]
    exact hact

/-! ### The effects of a tick -/

/-- Everything a tick can do, with what it saw. -/
inductive TickEffect (deps : BootDeps) (loop : BootLoopState)
    (t : Transcript (BootAnswer addressFromKey ε)) :
    BootLoopState → Except (BootError ε) StepOutcome → Prop where
  | fault {e : BootError ε} (unminted : generatedKeys t = [])
      (unattempted : deps.role = .bridge → genesisAnswers t = []) :
      TickEffect deps loop t loop (.error e)
  | waited (unminted : genesisAnswers t = []) : TickEffect deps loop t loop (.ok .continues)
  | peer {fk : FetchedKey addressFromKey} (unminted : genesisAnswers t = [])
      (fetched : fk ∈ fetchedKeys t)
      (answered : deps.role = .oracle → (fk.address, .ok true) ∈ registryAnswers t) :
      TickEffect deps loop t loop (.ok (.done (.peer fk.address fk.key)))
  | minted {key : SigningKey} (oracle : deps.role = .oracle) (empty : loop.candidate = none)
      (generated : generatedKeys t = [key])
      (counted : deps.freshApproved = false → .ok 0 ∈ signerCounts t) :
      TickEffect deps loop t ⟨some (addressFromKey key, key)⟩ (.ok .continues)
  | candidate {addr : Address} {key : SigningKey} (unminted : genesisAnswers t = [])
      (oracle : deps.role = .oracle) (held : loop.candidate = some (addr, key))
      (answered : registryAnswers t =
        (fetchedKeys t).map (fun fk => (fk.address, .ok false)) ++ [(addr, .ok true)]) :
      TickEffect deps loop t ⟨none⟩ (.ok (.done (.candidate key)))

theorem generatedKeys_of_unattempted (h : genesisAnswers t = []) : generatedKeys t = [] := by
  rw [generatedKeys, h]
  rfl

/-- A tick that ends without a key and without an attempt to generate one. -/
theorem TickEffect.fault_of_unattempted {e : BootError ε} (h : genesisAnswers t = []) :
    TickEffect deps loop t loop (.error e) :=
  .fault (generatedKeys_of_unattempted h) fun _ => h

theorem act_installPeerKey_effect {addr : Address} (hgenesis : genesisAnswers t₁ = [])
    (hgrounds : Grounds (tickOf deps loop (fetchedKeys t₁)) t₁ (.installPeerKey addr))
    (hact : Prog.Runs (act loop (fetchedKeys t₁) (.ok (.installPeerKey addr))) t₂
      (loop', outcome)) :
    TickEffect deps loop (t₁ ++ t₂) loop' outcome := by
  rw [act] at hact
  split at hact
  · rename_i fk hfind
    obtain ⟨rfl, hret⟩ := Prog.runs_pure.mp hact
    cases hret
    rw [List.append_nil]
    have hbeq := List.find?_some hfind
    have haddr : fk.address = addr := eq_of_beq hbeq
    refine .peer hgenesis (List.mem_of_find?_eq_some hfind) ?_
    intro horacle
    rw [haddr]
    exact hgrounds.2 horacle
  · obtain ⟨rfl, hret⟩ := Prog.runs_pure.mp hact
    cases hret
    rw [List.append_nil]
    exact .fault_of_unattempted hgenesis

theorem act_generateCandidate_effect (hgenesis : genesisAnswers t₁ = [])
    (hgrounds : Grounds (tickOf deps loop (fetchedKeys t₁)) t₁ .generateCandidate)
    (hact : Prog.Runs (act loop (fetchedKeys t₁) (.ok .generateCandidate)) t₂ (loop', outcome)) :
    TickEffect deps loop (t₁ ++ t₂) loop' outcome := by
  obtain ⟨hrole, hcand, hcount⟩ := hgrounds
  obtain ⟨tq, tr, answer, rfl, hq, hret⟩ := Prog.runs_bind.mp hact
  have hquery := Prog.runs_query.mp hq
  subst hquery
  have hattempt : genesisAnswers (t₁ ++ ([⟨.generate, answer⟩] ++ tr)) =
      answer :: genesisAnswers tr := by
    rw [genesisAnswers_append, hgenesis]
    rfl
  cases answer with
  | none =>
    obtain ⟨rfl, hpair⟩ := Prog.runs_pure.mp hret
    cases hpair
    refine .fault ?_ ?_
    · rw [generatedKeys, hattempt]
      rfl
    · intro hbridge
      cases hbridge.symm.trans hrole
  | some key =>
    obtain ⟨rfl, hpair⟩ := Prog.runs_pure.mp hret
    cases hpair
    refine .minted hrole (Option.map_eq_none_iff.mp hcand) ?_ ?_
    · rw [generatedKeys, hattempt]
      rfl
    · intro hfresh
      rw [signerCounts_append]
      exact List.mem_append_left _ (hcount hfresh)

theorem act_installCandidate_effect (hgenesis : genesisAnswers t₁ = [])
    (hgrounds : Grounds (tickOf deps loop (fetchedKeys t₁)) t₁ .installCandidate)
    (hact : Prog.Runs (act loop (fetchedKeys t₁) (.ok .installCandidate)) t₂ (loop', outcome)) :
    TickEffect deps loop (t₁ ++ t₂) loop' outcome := by
  obtain ⟨hrole, addr, hcand, hanswers⟩ := hgrounds
  rw [act] at hact
  split at hact
  · rename_i held key hheld
    obtain ⟨rfl, hpair⟩ := Prog.runs_pure.mp hact
    cases hpair
    rw [List.append_nil]
    have haddr : held = addr := by simpa [tickOf, hheld] using hcand
    refine .candidate hgenesis hrole (haddr ▸ hheld) ?_
    rw [hanswers, tickOf, List.map_map]
    rfl
  · obtain ⟨rfl, hpair⟩ := Prog.runs_pure.mp hact
    cases hpair
    rw [List.append_nil]
    exact .fault_of_unattempted hgenesis

theorem step_effect (h : Prog.Runs (step loop deps) t (loop', outcome)) :
    TickEffect deps loop t loop' outcome := by
  obtain ⟨t₁, t₂, action, rfl, hgenesis, hgrounds, hact⟩ := step_split h
  cases action with
  | error fault =>
    obtain ⟨rfl, hret⟩ := Prog.runs_pure.mp hact
    cases hret
    rw [List.append_nil]
    exact .fault_of_unattempted hgenesis
  | ok action =>
    have hgrounds := hgrounds action rfl
    cases action with
    | installPeerKey addr => exact act_installPeerKey_effect hgenesis hgrounds hact
    | generateCandidate => exact act_generateCandidate_effect hgenesis hgrounds hact
    | installCandidate => exact act_installCandidate_effect hgenesis hgrounds hact
    | wait =>
      obtain ⟨rfl, hret⟩ := Prog.runs_pure.mp hact
      cases hret
      rw [List.append_nil]
      exact .waited hgenesis

/-! ### A whole boot -/

/-- One tick as it happened. -/
structure BootTick (addressFromKey : SigningKey → Address) (ε : Type) where
  deps : BootDeps
  before : BootLoopState
  transcript : Transcript (BootAnswer addressFromKey ε)
  after : BootLoopState
  outcome : Except (BootError ε) StepOutcome

/-- The loop, and the key it returned with. -/
structure Boot where
  loop : BootLoopState
  resolved : Option Installed

def Boot.start : Boot := ⟨⟨none⟩, none⟩

def resolvedBy : Except (BootError ε) StepOutcome → Option Installed
  | .ok (.done installed) => some installed
  | _ => none

theorem resolvedBy_eq_some {installed : Installed} :
    resolvedBy outcome = some installed ↔ outcome = .ok (.done installed) := by
  unfold resolvedBy
  split
  · simp
  · rename_i hnot
    constructor
    · simp
    · intro h
      exact absurd h (hnot installed)

/-- The loop ticks again as long as nothing was installed. -/
inductive BootStep (role : Role) : Boot → BootTick addressFromKey ε → Boot → Prop where
  | tick {k : BootTick addressFromKey ε} (hrole : k.deps.role = role)
      (hrun : Prog.Runs (step k.before k.deps) k.transcript (k.after, k.outcome)) :
      BootStep role ⟨k.before, none⟩ k ⟨k.after, resolvedBy k.outcome⟩

abbrev BootRun (role : Role) (ticks : List (BootTick addressFromKey ε)) (b : Boot) : Prop :=
  Run Boot.start (BootStep role) ticks b

/-- The keys generated so far in a boot. -/
def minted (ticks : List (BootTick addressFromKey ε)) : List SigningKey :=
  ticks.flatMap fun k => generatedKeys k.transcript

@[simp] theorem minted_cons (k : BootTick addressFromKey ε)
    (older : List (BootTick addressFromKey ε)) :
    minted (k :: older) = generatedKeys k.transcript ++ minted older := rfl

theorem mem_minted {ticks : List (BootTick addressFromKey ε)} {key : SigningKey} :
    key ∈ minted ticks ↔ ∃ k ∈ ticks, key ∈ generatedKeys k.transcript :=
  List.mem_flatMap

/-- The held candidate is the one key generated so far, under its own address; before there
is one, nothing was generated. -/
structure HeldCandidate (addressFromKey : SigningKey → Address) (keys : List SigningKey)
    (b : Boot) : Prop where
  once : keys.length ≤ 1
  none_held : b.resolved = none → b.loop.candidate = none → keys = []
  held : ∀ addr key, b.loop.candidate = some (addr, key) →
    keys = [key] ∧ addr = addressFromKey key

theorem heldCandidate_step {role : Role} {older : List (BootTick addressFromKey ε)} {b b' : Boot}
    {k : BootTick addressFromKey ε} (ih : HeldCandidate addressFromKey (minted older) b)
    (now : BootStep role b k b') : HeldCandidate addressFromKey (minted (k :: older)) b' := by
  cases now with
  | tick hrole hrun =>
    obtain ⟨deps, before, transcript, after, outcome⟩ := k
    rw [minted_cons]
    -- Only a generated key changes what is held; every other effect leaves the list alone.
    cases step_effect hrun with
    | fault unminted => rw [unminted]; exact ⟨ih.once, fun _ => ih.none_held rfl, ih.held⟩
    | waited unminted =>
      rw [generatedKeys_of_unattempted unminted]
      exact ⟨ih.once, fun _ => ih.none_held rfl, ih.held⟩
    | peer unminted =>
      rw [generatedKeys_of_unattempted unminted]
      exact ⟨ih.once, fun _ => ih.none_held rfl, ih.held⟩
    | minted oracle empty generated =>
      rw [generated, ih.none_held rfl empty]
      refine ⟨Nat.le_refl 1, ?_, ?_⟩
      · intro _ hnone
        cases hnone
      · intro addr key hheld
        cases hheld
        exact ⟨rfl, rfl⟩
    | candidate unminted =>
      rw [generatedKeys_of_unattempted unminted]
      refine ⟨ih.once, ?_, ?_⟩
      · intro hunresolved
        cases hunresolved
      · intro addr key hheld
        cases hheld

theorem heldCandidate_run {role : Role} {ticks : List (BootTick addressFromKey ε)} {b : Boot}
    (run : BootRun role ticks b) : HeldCandidate addressFromKey (minted ticks) b := by
  refine run.invariant (fun ticks b => HeldCandidate addressFromKey (minted ticks) b) ?_ ?_
  · refine ⟨Nat.zero_le 1, fun _ _ => rfl, ?_⟩
    intro addr key hheld
    cases hheld
  · intro older s k s' _ ih now
    exact heldCandidate_step ih now

/-- Every tick of a boot is a completed step in the boot's role. -/
theorem BootStep.effect {role : Role} {b b' : Boot} {k : BootTick addressFromKey ε}
    (now : BootStep role b k b') :
    b = ⟨k.before, none⟩ ∧ k.deps.role = role ∧
      TickEffect k.deps k.before k.transcript k.after k.outcome := by
  cases now with
  | tick hrole hrun => exact ⟨rfl, hrole, step_effect hrun⟩

/-- What a boot guarantees, whatever peers, registry and key generation answered. -/
structure BootSafe (role : Role) (ticks : List (BootTick addressFromKey ε)) : Prop where
  genesis_once : (minted ticks).length ≤ 1
  error_keeps_candidate : ∀ k ∈ ticks, ∀ e, k.outcome = .error e → k.after = k.before
  peer_registered : role = .oracle → ∀ k ∈ ticks, ∀ addr key,
    k.outcome = .ok (.done (.peer addr key)) →
      (addressFromKey key, .ok true) ∈ registryAnswers k.transcript
  candidate_registered : ∀ newer k older key, ticks = newer ++ k :: older →
    k.outcome = .ok (.done (.candidate key)) →
      (∃ g ∈ older, key ∈ generatedKeys g.transcript) ∧
      registryAnswers k.transcript =
        (fetchedKeys k.transcript).map (fun fk => (fk.address, .ok false)) ++
          [(addressFromKey key, .ok true)]
  genesis_needs_empty_registry : ∀ k ∈ ticks, k.deps.freshApproved = false →
    generatedKeys k.transcript ≠ [] → .ok 0 ∈ signerCounts k.transcript
  bridge_never : role = .bridge → ∀ k ∈ ticks,
    genesisAnswers k.transcript = [] ∧ ∀ key, k.outcome ≠ .ok (.done (.candidate key))

variable {role : Role} {ticks : List (BootTick addressFromKey ε)} {b : Boot}

theorem BootRun.effect_of_mem (run : BootRun role ticks b) {k : BootTick addressFromKey ε}
    (hk : k ∈ ticks) :
    k.deps.role = role ∧ TickEffect k.deps k.before k.transcript k.after k.outcome := by
  obtain ⟨newer, older, rfl⟩ := List.append_of_mem hk
  obtain ⟨s₀, s₁, _, now⟩ := Run.fired run
  exact now.effect.2

theorem TickEffect.error_keeps {e : BootError ε} (h : TickEffect deps loop t loop' (.error e)) :
    loop' = loop := by
  cases h with
  | fault => rfl

theorem TickEffect.peer_answered {addr : Address} {key : SigningKey}
    (h : TickEffect deps loop t loop' (.ok (.done (.peer addr key))))
    (hrole : deps.role = .oracle) :
    (addressFromKey key, .ok true) ∈ registryAnswers t := by
  cases h with
  | @peer fk unminted fetched answered =>
    rw [← fk.derived]
    exact answered hrole

theorem TickEffect.counted_of_minted (h : TickEffect deps loop t loop' outcome)
    (hfresh : deps.freshApproved = false) (hminted : generatedKeys t ≠ []) :
    .ok 0 ∈ signerCounts t := by
  cases h with
  | fault unminted => exact absurd unminted hminted
  | waited unminted => exact absurd (generatedKeys_of_unattempted unminted) hminted
  | peer unminted => exact absurd (generatedKeys_of_unattempted unminted) hminted
  | minted oracle empty generated counted => exact counted hfresh
  | candidate unminted => exact absurd (generatedKeys_of_unattempted unminted) hminted

theorem TickEffect.bridge (h : TickEffect deps loop t loop' outcome)
    (hrole : deps.role = .bridge) :
    genesisAnswers t = [] ∧ ∀ key, outcome ≠ .ok (.done (.candidate key)) := by
  cases h with
  | fault unminted unattempted => exact ⟨unattempted hrole, fun key => nofun⟩
  | waited unminted => exact ⟨unminted, fun key => nofun⟩
  | peer unminted => exact ⟨unminted, fun key => nofun⟩
  | minted oracle => cases hrole.symm.trans oracle
  | candidate unminted oracle => cases hrole.symm.trans oracle

/-- A candidate is installed only if it was generated earlier in this boot, and the one
positive answer of the tick is the one about it. -/
theorem BootRun.candidate_registered {newer older : List (BootTick addressFromKey ε)}
    {k : BootTick addressFromKey ε} {key : SigningKey}
    (run : BootRun role (newer ++ k :: older) b)
    (hdone : k.outcome = .ok (.done (.candidate key))) :
    (∃ g ∈ older, key ∈ generatedKeys g.transcript) ∧
      registryAnswers k.transcript =
        (fetchedKeys k.transcript).map (fun fk => (fk.address, .ok false)) ++
          [(addressFromKey key, .ok true)] := by
  obtain ⟨s₀, s₁, before, now⟩ := Run.fired run
  obtain ⟨rfl, _, effect⟩ := now.effect
  rw [hdone] at effect
  generalize hafter : k.after = after at effect
  cases effect with
  | @candidate addr key unminted oracle held answered =>
    obtain ⟨hminted, rfl⟩ := (heldCandidate_run before).held addr key held
    exact ⟨mem_minted.mp (hminted ▸ List.mem_singleton_self key), answered⟩

/-- Every boot is safe. -/
theorem boot_safe (run : BootRun role ticks b) : BootSafe role ticks where
  genesis_once := (heldCandidate_run run).once
  error_keeps_candidate := by
    intro k hk e he
    have effect := (BootRun.effect_of_mem run hk).2
    rw [he] at effect
    exact effect.error_keeps
  peer_registered := by
    intro hrole k hk addr key hdone
    obtain ⟨hk, effect⟩ := BootRun.effect_of_mem run hk
    rw [hdone] at effect
    exact effect.peer_answered (hk.trans hrole)
  candidate_registered := by
    rintro newer k older key rfl hdone
    exact BootRun.candidate_registered run hdone
  genesis_needs_empty_registry := by
    intro k hk hfresh hminted
    exact (BootRun.effect_of_mem run hk).2.counted_of_minted hfresh hminted
  bridge_never := by
    intro hrole k hk
    obtain ⟨hk, effect⟩ := BootRun.effect_of_mem run hk
    exact effect.bridge (hk.trans hrole)

/-! ### A boot that mints its key

The registry faults once, then lists nobody, then lists the candidate, while the only peer
offers an unregistered key. -/

/-- The address of a key in the example: its first twenty bytes. -/
def demoAddress (key : SigningKey) : Address := ⟨key.val.take 20, by simp [key.property]⟩

def demoKey (b : UInt8) : SigningKey := filled 32 b

/-- The peer offers the key of `1`, key generation mints that of `2`. -/
def demoWorld (listed : Address → Except Unit Bool) :
    ℕ → (q : BootQuery) → BootAnswer demoAddress Unit q
  | _, .fetch _ _ => some (some (.ofKey demoAddress (demoKey 1)))
  | _, .registered addr => listed addr
  | _, .signerCount => .ok 0
  | _, .generate => some (demoKey 2)

def demoDeps : BootDeps := ⟨.oracle, [("peer:8443", .rootFromRoot)], false⟩

/-- One tick of the example, executed. -/
def demoTick (listed : Address → Except Unit Bool) (before : BootLoopState) :
    BootTick demoAddress Unit where
  deps := demoDeps
  before := before
  transcript := ((step before demoDeps).exec (demoWorld listed) 0).1
  after := ((step before demoDeps).exec (demoWorld listed) 0).2.1
  outcome := ((step before demoDeps).exec (demoWorld listed) 0).2.2

theorem demoTick_step (listed : Address → Except Unit Bool) (before : BootLoopState) :
    BootStep .oracle ⟨before, none⟩ (demoTick listed before)
      ⟨(demoTick listed before).after, resolvedBy (demoTick listed before).outcome⟩ :=
  BootStep.tick (k := demoTick listed before) rfl (Prog.exec_runs _ _ _)

def faultyTick : BootTick demoAddress Unit := demoTick (fun _ => .error ()) ⟨none⟩

def mintingTick : BootTick demoAddress Unit := demoTick (fun _ => .ok false) faultyTick.after

def installingTick : BootTick demoAddress Unit :=
  demoTick (fun addr => .ok (addr == demoAddress (demoKey 2))) mintingTick.after

theorem demo_boot :
    BootRun .oracle [installingTick, mintingTick, faultyTick]
      ⟨installingTick.after, some (.candidate (demoKey 2))⟩ :=
  ((Run.start.step (demoTick_step (fun _ => .error ()) ⟨none⟩)).step
    (demoTick_step (fun _ => .ok false) faultyTick.after)).step
    (demoTick_step (fun addr => .ok (addr == demoAddress (demoKey 2))) mintingTick.after)

theorem boot_safe_minted : BootSafe .oracle [installingTick, mintingTick, faultyTick] :=
  boot_safe demo_boot

end Nuntius.BootRules
