import Nuntius.InteractivePrograms
import Nuntius.LabelledRuns
import Nuntius.OwnerApprovals

/-!
# Boot: peers are hints, the registry decides

One tick fetches what the peers offer, asks the registry, and acts: it installs a fetched
key, generates a candidate, installs the candidate it holds, or waits. Peers, registry and
key generation answer arbitrarily, faults included. A boot is a sequence of ticks that
carries the held candidate and ends with the first installed key.
-/

namespace Nuntius.BootRules
open WireFormat HandoverPolicy OwnerApprovals InteractivePrograms

abbrev SigningKey := Bytes 32

inductive Role where
  | oracle
  | bridge
deriving DecidableEq, Repr

/-- A fetched key carries the address derived from it. -/
structure FetchedKey (addressFromKey : SigningKey → Address) where
  key : SigningKey
  address : Address
  derived : address = addressFromKey key

def FetchedKey.ofKey (addressFromKey : SigningKey → Address) (key : SigningKey) :
    FetchedKey addressFromKey where
  key := key
  address := addressFromKey key
  derived := rfl

inductive BootQuery where
  | fetch (endpoint : String) (kind : FetchKind)
  | registered (addr : Address)
  | signerCount
  | generate

/-- A fetch fails, declines or brings a key; `ε` is the registry's fault. -/
abbrev BootAnswer (addressFromKey : SigningKey → Address) (ε : Type) : BootQuery → Type
  | .fetch _ _ => Option (Option (FetchedKey addressFromKey))
  | .registered _ => Except ε Bool
  | .signerCount => Except ε ℕ
  | .generate => Option SigningKey

variable {addressFromKey : SigningKey → Address} {ε : Type}

/-! ### The decision of one tick -/

inductive BootAction where
  | installPeerKey (addr : Address)
  | generateCandidate
  | installCandidate
  | wait
deriving DecidableEq

structure Tick where
  role : Role
  sweep : List Address
  freshApproved : Bool
  candidate : Option Address

/-- Ask the registry for one address. -/
def askRegistered (addr : Address) : Fallible (BootAnswer addressFromKey ε) ε Bool := do
  let answer ← Fallible.query (.registered addr)
  Fallible.ofExcept answer

def firstRegistered : List Address → Fallible (BootAnswer addressFromKey ε) ε (Option Address)
  | [] => pure none
  | addr :: rest => do
    let yes ← askRegistered addr
    if yes = true then pure (some addr) else firstRegistered rest

/-- The bridge takes the first fetched child, registered or not. -/
def bridgeAction (sweep : List Address) : BootAction :=
  match sweep with
  | addr :: _ => .installPeerKey addr
  | [] => .wait

/-- A pending candidate is only watched; a new one needs a fresh approval or an empty
registry. -/
def oracleAction (freshApproved : Bool) (candidate : Option Address) :
    Fallible (BootAnswer addressFromKey ε) ε BootAction :=
  match candidate with
  | some addr => do
    let yes ← askRegistered addr
    pure (if yes = true then .installCandidate else .wait)
  | none =>
    if freshApproved = true then pure .generateCandidate
    else do
      let answer ← Fallible.query .signerCount
      let count ← Fallible.ofExcept answer
      pure (if count = 0 then .generateCandidate else .wait)

def tick (t : Tick) : Fallible (BootAnswer addressFromKey ε) ε BootAction := do
  let found ← firstRegistered t.sweep
  match found with
  | some addr => pure (.installPeerKey addr)
  | none =>
    match t.role with
    | .bridge => pure (bridgeAction t.sweep)
    | .oracle => oracleAction t.freshApproved t.candidate

/-! ### One iteration of the driver -/

structure BootDeps where
  role : Role
  peers : List (String × FetchKind)
  freshApproved : Bool

/-- The candidate generated in this boot, until it is installed. -/
structure BootLoopState where
  candidate : Option (Address × SigningKey)

inductive Installed where
  | peer (address : Address) (key : SigningKey)
  | candidate (key : SigningKey)
deriving DecidableEq

inductive StepOutcome where
  | continues
  | done (installed : Installed)
deriving DecidableEq

inductive BootError (ε : Type) where
  | registryRead (fault : ε)
  | addressAbsent
  | genesisFailed
  | noHeldCandidate

/-- Fetch from every peer; a fault or a decline brings no key. -/
def sweepPeers : List (String × FetchKind) →
    Prog (BootAnswer addressFromKey ε) (List (FetchedKey addressFromKey))
  | [] => pure []
  | (endpoint, kind) :: rest => do
    let answer ← Prog.query (BootQuery.fetch endpoint kind)
    let others ← sweepPeers rest
    pure (answer.join.toList ++ others)

/-- Carry out the action. -/
def act (loop : BootLoopState) (fetched : List (FetchedKey addressFromKey)) :
    Except ε BootAction →
      Prog (BootAnswer addressFromKey ε) (BootLoopState × Except (BootError ε) StepOutcome)
  | .error fault => pure (loop, .error (.registryRead fault))
  | .ok (.installPeerKey addr) =>
    match fetched.find? (fun fk => fk.address == addr) with
    | some fk => pure (loop, .ok (.done (.peer fk.address fk.key)))
    | none => pure (loop, .error .addressAbsent)
  | .ok .generateCandidate => do
    let minted ← Prog.query BootQuery.generate
    match minted with
    | some key => pure (⟨some (addressFromKey key, key)⟩, .ok .continues)
    | none => pure (loop, .error .genesisFailed)
  | .ok .installCandidate =>
    match loop.candidate with
    | some (_, key) => pure (⟨none⟩, .ok (.done (.candidate key)))
    | none => pure (loop, .error .noHeldCandidate)
  | .ok .wait => pure (loop, .ok .continues)

def step (loop : BootLoopState) (deps : BootDeps) :
    Prog (BootAnswer addressFromKey ε) (BootLoopState × Except (BootError ε) StepOutcome) := do
  let fetched ← sweepPeers deps.peers
  let action ← (tick
    { role := deps.role
      sweep := fetched.map FetchedKey.address
      freshApproved := deps.freshApproved
      candidate := loop.candidate.map Prod.fst }).run
  act loop fetched action

/-! ### What a tick saw -/

section Views
variable (t : Transcript (BootAnswer addressFromKey ε))

/-- The keys the peers handed over. -/
def fetchedKeys : List (FetchedKey addressFromKey) :=
  t.filterMap fun
    | ⟨.fetch _ _, answer⟩ => answer.join
    | _ => none

/-- The addresses the registry was asked for, with its answers. -/
def registryAnswers : List (Address × Except ε Bool) :=
  t.filterMap fun
    | ⟨.registered addr, answer⟩ => some (addr, answer)
    | _ => none

def signerCounts : List (Except ε ℕ) :=
  t.filterMap fun
    | ⟨.signerCount, answer⟩ => some answer
    | _ => none

/-- The attempts to generate a key. -/
def genesisAnswers : List (Option SigningKey) :=
  t.filterMap fun
    | ⟨.generate, answer⟩ => some answer
    | _ => none

def generatedKeys : List SigningKey := (genesisAnswers t).filterMap id

end Views

/-- The query is one of the registry's. -/
def AsksRegistry : BootQuery → Prop
  | .registered _ => True
  | .signerCount => True
  | _ => False

section Lemmas
variable {t : Transcript (BootAnswer addressFromKey ε)}

/-- The answers of the registry alone bring no key. -/
theorem views_of_registry (h : ∀ e ∈ t, AsksRegistry e.1) :
    fetchedKeys t = [] ∧ genesisAnswers t = [] := by
  constructor
  · apply List.filterMap_eq_nil_iff.mpr
    rintro ⟨q, answer⟩ he
    have hq := h _ he
    cases q <;> first | rfl | exact hq.elim
  · apply List.filterMap_eq_nil_iff.mpr
    rintro ⟨q, answer⟩ he
    have hq := h _ he
    cases q <;> first | rfl | exact hq.elim

theorem askRegistered_only (addr : Address) :
    Fallible.Only AsksRegistry
      (askRegistered addr : Fallible (BootAnswer addressFromKey ε) ε Bool) :=
  (Fallible.only_query trivial).bind fun _ => Fallible.only_ofExcept _

theorem firstRegistered_only (sweep : List Address) :
    Fallible.Only AsksRegistry
      (firstRegistered sweep : Fallible (BootAnswer addressFromKey ε) ε (Option Address)) := by
  induction sweep with
  | nil => exact Fallible.only_pure _
  | cons addr rest ih =>
    refine (askRegistered_only addr).bind ?_
    intro yes
    split
    · exact Fallible.only_pure _
    · exact ih

theorem oracleAction_only (freshApproved : Bool) (candidate : Option Address) :
    Fallible.Only AsksRegistry
      (oracleAction freshApproved candidate :
        Fallible (BootAnswer addressFromKey ε) ε BootAction) := by
  cases candidate with
  | some addr => exact (askRegistered_only addr).bind fun _ => Fallible.only_pure _
  | none =>
    rw [oracleAction]
    split
    · exact Fallible.only_pure _
    · exact (Fallible.only_query trivial).bind fun _ =>
        (Fallible.only_ofExcept _).bind fun _ => Fallible.only_pure _

/-- The decision of a tick asks the registry and nobody else. -/
theorem tick_only (tk : Tick) :
    Fallible.Only AsksRegistry (tick tk : Fallible (BootAnswer addressFromKey ε) ε BootAction) := by
  refine (firstRegistered_only tk.sweep).bind ?_
  intro found
  cases found with
  | some addr => exact Fallible.only_pure _
  | none =>
    dsimp only
    split
    · exact Fallible.only_pure _
    · exact oracleAction_only _ _

theorem runs_askRegistered {addr : Address} {yes : Bool}
    (h : Fallible.Runs (askRegistered addr) t (.ok yes)) : t = [⟨.registered addr, .ok yes⟩] := by
  obtain ⟨t₁, t₂, answer, rfl, hq, hans⟩ := Fallible.runs_bind_ok.mp h
  obtain ⟨rfl, rfl⟩ := Fallible.runs_ofExcept_ok.mp hans
  rw [Fallible.runs_query_ok.mp hq]
  rfl

/-- No address of the sweep is registered: each was asked for and answered so. -/
theorem firstRegistered_none {sweep : List Address}
    (h : Fallible.Runs (firstRegistered sweep) t (.ok none)) :
    registryAnswers t = sweep.map (fun addr => (addr, .ok false)) := by
  induction sweep generalizing t with
  | nil =>
    rw [(Fallible.runs_pure_ok.mp h).1]
    rfl
  | cons addr rest ih =>
    obtain ⟨t₁, t₂, yes, rfl, hask, hrest⟩ := Fallible.runs_bind_ok.mp h
    cases yes with
    | true => cases (Fallible.runs_pure_ok.mp hrest).2
    | false =>
      rw [runs_askRegistered hask, List.map_cons, ← ih hrest]
      rfl

/-- The address found is one of the sweep, and it was answered registered. -/
theorem firstRegistered_some {sweep : List Address} {addr : Address}
    (h : Fallible.Runs (firstRegistered sweep) t (.ok (some addr))) :
    addr ∈ sweep ∧ (addr, .ok true) ∈ registryAnswers t := by
  induction sweep generalizing t with
  | nil => cases (Fallible.runs_pure_ok.mp h).2
  | cons first rest ih =>
    obtain ⟨t₁, t₂, yes, rfl, hask, hrest⟩ := Fallible.runs_bind_ok.mp h
    rw [runs_askRegistered hask]
    cases yes with
    | true =>
      obtain ⟨rfl, haddr⟩ := Fallible.runs_pure_ok.mp hrest
      cases haddr
      exact ⟨List.mem_cons_self, List.mem_cons_self⟩
    | false =>
      obtain ⟨hmem, hans⟩ := ih hrest
      exact ⟨List.mem_cons_of_mem first hmem, List.mem_cons_of_mem _ hans⟩

/-- What the registry has said when a tick decides on an action. -/
def Grounds (tk : Tick) (t : Transcript (BootAnswer addressFromKey ε)) : BootAction → Prop
  | .installPeerKey addr =>
    addr ∈ tk.sweep ∧ (tk.role = .oracle → (addr, .ok true) ∈ registryAnswers t)
  | .generateCandidate =>
    tk.role = .oracle ∧ tk.candidate = none ∧
      (tk.freshApproved = false → .ok 0 ∈ signerCounts t)
  | .installCandidate =>
    tk.role = .oracle ∧ ∃ addr, tk.candidate = some addr ∧
      registryAnswers t = tk.sweep.map (fun a => (a, .ok false)) ++ [(addr, .ok true)]
  | .wait => True

theorem bridgeAction_grounds {tk : Tick} (hrole : tk.role = .bridge) :
    Grounds tk t (bridgeAction tk.sweep) := by
  cases hsweep : tk.sweep with
  | nil => trivial
  | cons addr rest =>
    refine ⟨hsweep ▸ List.mem_cons_self, ?_⟩
    intro horacle
    rw [hrole] at horacle
    cases horacle

/-- `before` are the answers of the sweep, none of which was positive. -/
theorem oracleAction_grounds {tk : Tick} (hrole : tk.role = .oracle)
    {before : Transcript (BootAnswer addressFromKey ε)}
    (hbefore : registryAnswers before = tk.sweep.map (fun addr => (addr, .ok false)))
    {action : BootAction}
    (h : Fallible.Runs (oracleAction tk.freshApproved tk.candidate) t (.ok action)) :
    Grounds tk (before ++ t) action := by
  cases hcand : tk.candidate with
  | some addr =>
    rw [hcand] at h
    obtain ⟨t₁, t₂, yes, rfl, hask, hret⟩ := Fallible.runs_bind_ok.mp h
    obtain ⟨rfl, rfl⟩ := Fallible.runs_pure_ok.mp hret
    cases yes with
    | false => trivial
    | true =>
      refine ⟨hrole, addr, hcand, ?_⟩
      rw [runs_askRegistered hask, ← hbefore]
      exact List.filterMap_append
  | none =>
    rw [hcand, oracleAction] at h
    split at h
    · rename_i hfresh
      obtain ⟨rfl, rfl⟩ := Fallible.runs_pure_ok.mp h
      refine ⟨hrole, hcand, ?_⟩
      intro hstale
      rw [hstale] at hfresh
      cases hfresh
    · obtain ⟨t₁, t₂, answer, rfl, hq, hrest⟩ := Fallible.runs_bind_ok.mp h
      obtain ⟨t₃, t₄, count, rfl, hcount, hret⟩ := Fallible.runs_bind_ok.mp hrest
      obtain ⟨rfl, rfl⟩ := Fallible.runs_ofExcept_ok.mp hcount
      obtain ⟨rfl, rfl⟩ := Fallible.runs_pure_ok.mp hret
      split
      · rename_i hzero
        refine ⟨hrole, hcand, ?_⟩
        intro _
        rw [Fallible.runs_query_ok.mp hq, hzero]
        exact List.mem_filterMap.mpr ⟨⟨.signerCount, .ok 0⟩, by simp, rfl⟩
      · trivial

/-- Every decided action has its grounds. -/
theorem tick_grounds {tk : Tick} {action : BootAction}
    (h : Fallible.Runs (tick tk) t (.ok action)) : Grounds tk t action := by
  obtain ⟨t₁, t₂, found, rfl, hfirst, hrest⟩ := Fallible.runs_bind_ok.mp h
  cases found with
  | some addr =>
    obtain ⟨rfl, rfl⟩ := Fallible.runs_pure_ok.mp hrest
    obtain ⟨hmem, hans⟩ := firstRegistered_some hfirst
    rw [List.append_nil]
    exact ⟨hmem, fun _ => hans⟩
  | none =>
    dsimp only at hrest
    cases hrole : tk.role with
    | bridge =>
      rw [hrole] at hrest
      obtain ⟨rfl, rfl⟩ := Fallible.runs_pure_ok.mp hrest
      exact bridgeAction_grounds hrole
    | oracle =>
      rw [hrole] at hrest
      exact oracleAction_grounds hrole (firstRegistered_none hfirst) hrest

/-- A sweep fetches, and does nothing else. -/
theorem sweepPeers_views {peers : List (String × FetchKind)}
    {fetched : List (FetchedKey addressFromKey)} (h : Prog.Runs (sweepPeers peers) t fetched) :
    fetchedKeys t = fetched ∧ registryAnswers t = [] ∧ genesisAnswers t = [] := by
  induction peers generalizing t fetched with
  | nil =>
    obtain ⟨rfl, rfl⟩ := Prog.runs_pure.mp h
    exact ⟨rfl, rfl, rfl⟩
  | cons peer rest ih =>
    obtain ⟨t₁, t₂, answer, rfl, hq, hrest⟩ := Prog.runs_bind.mp h
    obtain ⟨t₃, t₄, others, rfl, hsweep, hret⟩ := Prog.runs_bind.mp hrest
    obtain ⟨rfl, rfl⟩ := Prog.runs_pure.mp hret
    obtain ⟨hfetched, hregistry, hgenesis⟩ := ih hsweep
    rw [Prog.runs_query.mp hq, List.append_nil, ← hfetched]
    refine ⟨?_, hregistry, hgenesis⟩
    cases hkey : answer.join with
    | none => simp [fetchedKeys, hkey]
    | some fk => simp [fetchedKeys, hkey]

/-- Only these peers are asked for a key. -/
def FetchesFrom (peers : List (String × FetchKind)) : BootQuery → Prop
  | .fetch endpoint kind => (endpoint, kind) ∈ peers
  | _ => True

theorem sweepPeers_only {peers swept : List (String × FetchKind)} (h : swept ⊆ peers) :
    Prog.Only (FetchesFrom peers)
      (sweepPeers swept :
        Prog (BootAnswer addressFromKey ε) (List (FetchedKey addressFromKey))) := by
  induction swept with
  | nil => trivial
  | cons peer rest ih =>
    have hrest : rest ⊆ peers := fun p hp => h (List.mem_cons_of_mem peer hp)
    have hfirst : FetchesFrom peers (.fetch peer.1 peer.2) := h List.mem_cons_self
    refine Prog.Only.bind ⟨hfirst, fun _ => trivial⟩ fun _ => ?_
    exact (ih hrest).bind fun _ => trivial

theorem act_only {peers : List (String × FetchKind)} {loop : BootLoopState}
    {fetched : List (FetchedKey addressFromKey)} (action : Except ε BootAction) :
    Prog.Only (FetchesFrom peers) (act loop fetched action) := by
  cases action with
  | error fault => trivial
  | ok action =>
    cases action with
    | installPeerKey addr =>
      rw [act]
      split <;> trivial
    | generateCandidate =>
      refine Prog.Only.bind ⟨trivial, fun _ => trivial⟩ fun minted => ?_
      cases minted <;> trivial
    | installCandidate =>
      rw [act]
      split <;> trivial
    | wait => trivial

/-- A tick fetches from its own peers and from nobody else. -/
theorem step_only (loop : BootLoopState) (deps : BootDeps) :
    Prog.Only (FetchesFrom deps.peers)
      (step loop deps :
        Prog (BootAnswer addressFromKey ε) (BootLoopState × Except (BootError ε) StepOutcome)) := by
  refine (sweepPeers_only (List.Subset.refl _)).bind fun fetched => ?_
  refine Prog.Only.bind ?_ fun action => act_only action
  refine Prog.Only.mono ?_ (tick_only _)
  intro q hq
  cases q with
  | fetch endpoint kind => exact hq.elim
  | registered addr => trivial
  | signerCount => trivial
  | generate => trivial

end Lemmas

end Nuntius.BootRules
