import Nuntius.CancellableTasks
import Nuntius.ClaimFlow
import Nuntius.ControlChannel

/-!
# The bridge's state and its request handlers

A handler runs under the state lock. It waits only for answers of the two chains; what it
writes to the state it writes without waiting. Both are queries of its program, so that a
handler can be cut off at a chain read and at nothing else.
-/

namespace Nuntius.BridgeHandlers
open WireFormat HandoverPolicy OwnerApprovals InteractivePrograms CancellableTasks ChainReads
open ClaimFlow
open BootRules (SigningKey)
open ControlChannel (BootState)

/-! ### The state -/

structure BridgeState where
  boot : BootState
  key : Option SigningKey
  signer : Option Address
  pcr0 : Pcr0
  version : ℕ
  config : Option BridgeConfig
  lastSigned : Address → Option ℕ

namespace BridgeState

def new (pcr0 : Pcr0) (version : ℕ) : BridgeState where
  boot := .fetching
  key := none
  signer := none
  pcr0 := pcr0
  version := version
  config := none
  lastSigned := fun _ => none

/-- A second key is ignored. -/
def installKey (st : BridgeState) (key : SigningKey) (signer : Address) : BridgeState :=
  if st.key.isSome then st
  else { st with key := some key, signer := some signer, boot := .ready }

def setConfig (st : BridgeState) (config : BridgeConfig) : BridgeState :=
  { st with config := some config }

def highWater (st : BridgeState) (recipient : Address) : ℕ := (st.lastSigned recipient).getD 0

/-- The mark only rises. -/
def recordSigned (st : BridgeState) (recipient : Address) (cumulativeBurned : ℕ) : BridgeState :=
  { st with
    lastSigned := Function.update st.lastSigned recipient
      (some (max (st.highWater recipient) cumulativeBurned)) }

@[simp] theorem highWater_recordSigned_self (st : BridgeState) (r : Address) (v : ℕ) :
    (st.recordSigned r v).highWater r = max (st.highWater r) v := by
  simp [recordSigned, highWater]

@[simp] theorem highWater_recordSigned_of_ne (st : BridgeState) {r r' : Address} (v : ℕ)
    (h : r' ≠ r) : (st.recordSigned r v).highWater r' = st.highWater r' := by
  simp [recordSigned, highWater, Function.update_of_ne h]

@[simp] theorem highWater_setConfig (st : BridgeState) (cfg : BridgeConfig) (r : Address) :
    (st.setConfig cfg).highWater r = st.highWater r := rfl

@[simp] theorem highWater_installKey (st : BridgeState) (key : SigningKey) (signer r : Address) :
    (st.installKey key signer).highWater r = st.highWater r := by
  unfold installKey
  split <;> rfl

end BridgeState

/-! ### Requests and replies -/

inductive BridgeRequest where
  | configure (entry : String) (rhRpcs oraclePeers : List String)
  | signClaim (recipient : String)
  | getAttestation (nonce : Option String)
  | health
  | readiness

structure BridgeHealth where
  state : BootState
  signer : Option Address
  version : ℕ
  pcr0 : Pcr0
  registered : Bool
  igraFinalized : ℕ
  rhFinalized : ℕ
deriving DecidableEq

inductive Reply where
  | ack (ok : Bool)
  | signClaim (response : Except ClaimError ClaimGrant)
  | attestation (doc : List UInt8) (signer : Address) (pcr0 : Pcr0)
  | health (report : BridgeHealth)
  | readiness (ready : Bool)
  | error (code : String)
deriving DecidableEq

/-- What the image carries, and what a request is stamped with. -/
structure HandlerCtx where
  ext : Externals
  baked : BakedIdentity
  enclaveNow : ℕ
  attest : Option (List UInt8) → List UInt8 → Option (List UInt8)

/-! ### Handlers -/

inductive HandlerQuery where
  | rpc (q : RpcQuery Chain)
  | setConfig (cfg : BridgeConfig)
  | recordSigned (recipient : Address) (cumulativeBurned : ℕ)

abbrev HandlerAnswer : HandlerQuery → Type
  | .rpc _ => Option Json
  | .setConfig _ => Unit
  | .recordSigned _ _ => Unit

abbrev HandlerProg := Prog HandlerAnswer

/-- Chain reads inside a handler. -/
def onChain {R : Type} (p : Prog (RpcAnswer Chain) R) : HandlerProg R :=
  p.interp fun q => Prog.query (HandlerQuery.rpc q)

variable (ctx : HandlerCtx) (st : BridgeState)

def isHttps (url : String) : Bool := "https://".toList.isPrefixOf url.toList

/-- Refused once a key is installed, for another entry contract, and for an endpoint that is not
https. -/
def configure (entry : String) (rhRpcs oraclePeers : List String) : HandlerProg Bool :=
  if st.key.isSome then pure false
  else if ctx.ext.parseAddress entry ≠ some ctx.baked.entry then pure false
  else if rhRpcs.isEmpty || rhRpcs.any (fun url => !isHttps url) then pure false
  else do
    let _ ← Prog.query (HandlerQuery.setConfig (.fromParts ctx.baked rhRpcs oraclePeers))
    pure true

/-- Record the total of a grant before it is returned. -/
def recordGrant (recipient : Address) (response : Except ClaimError ClaimGrant) :
    HandlerProg (Except ClaimError ClaimGrant) :=
  match response with
  | .ok grant =>
    match ctx.ext.parseU256 grant.cumulativeBurned with
    | some burned => do
      let _ ← Prog.query (HandlerQuery.recordSigned recipient burned)
      pure (.ok grant)
    | none => pure (.ok grant)
  | .error e => pure (.error e)

def signClaim (recipientText : String) : HandlerProg (Except ClaimError ClaimGrant) :=
  match ctx.ext.parseAddress recipientText with
  | none => pure (.error .recipientForbidden)
  | some recipient =>
    match st.key, st.config with
    | some key, some cfg =>
      if cfg.rhRpcs.isEmpty then pure (.error .notReady)
      else do
        let response ← onChain (buildGrant ctx.ext key
          (claimInputs cfg recipient (st.highWater recipient) ctx.enclaveNow)).run
        recordGrant ctx recipient response
    | _, _ => pure (.error .notReady)

def getAttestation (nonce : Option String) : Reply :=
  match st.signer, st.key.map ctx.ext.publicPoint with
  | some signer, some pubkey =>
    match nonce.map decodeHex with
    | some none => .error "bad_nonce"
    | nonceBytes =>
      match ctx.attest nonceBytes.join pubkey with
      | some doc => .attestation doc signer st.pcr0
      | none => .error "attestation_unavailable"
  | _, _ => .error "not_ready"

/-- The chain-derived part of a health report: faults leave the defaults. -/
def chainHealth (signer : Address) (cfg : BridgeConfig) : HandlerProg (Bool × ℕ × ℕ) := do
  let igra ← onChain (finalizedBlock .igra igraFinality).run
  let igraFinalized := (igra.toOption.map BlockRef.number).getD 0
  if cfg.rhRpcs.isEmpty then pure (false, igraFinalized, 0)
  else do
    let rh ← onChain (finalizedBlock .robinhood .tag).run
    let registered ← onChain (isValidSigner .robinhood cfg.entry .bridge signer .tag).run
    pure (registered.toOption.getD false, igraFinalized,
      (rh.toOption.map BlockRef.number).getD 0)

def healthReport (chain : Bool × ℕ × ℕ) : BridgeHealth where
  state := st.boot
  signer := st.signer
  version := st.version
  pcr0 := st.pcr0
  registered := chain.1
  igraFinalized := chain.2.1
  rhFinalized := chain.2.2

def health : HandlerProg BridgeHealth :=
  match st.signer, st.config with
  | some signer, some cfg => do
    let chain ← chainHealth signer cfg
    pure (healthReport st chain)
  | _, _ => pure (healthReport st (false, 0, 0))

def handle : BridgeRequest → HandlerProg Reply
  | .configure entry rhRpcs oraclePeers => do
    let ok ← configure ctx st entry rhRpcs oraclePeers
    pure (.ack ok)
  | .signClaim recipient => do
    let response ← signClaim ctx st recipient
    pure (.signClaim response)
  | .getAttestation nonce => pure (getAttestation ctx st nonce)
  | .health => do
    let report ← health st
    pure (.health report)
  | .readiness => pure (.readiness st.key.isSome)

/-! ### What a handler does to the state -/

/-- A handler waits for the chains; its writes are immediate. -/
def handlerService : Service HandlerAnswer BridgeState
  | .rpc _ => none
  | .setConfig cfg => some fun st => (st.setConfig cfg, ())
  | .recordSigned recipient total => some fun st => (st.recordSigned recipient total, ())

/-- The state once a grant is recorded. -/
def recorded (ext : Externals) (st : BridgeState) (recipient : Address) (grant : ClaimGrant) :
    BridgeState :=
  match ext.parseU256 grant.cumulativeBurned with
  | some burned => st.recordSigned recipient burned
  | none => st

/-- A completed request has left the state alone, stored a configuration before boot, or granted
a total that is not below the mark and recorded it. -/
inductive Handled : BridgeRequest → Reply → BridgeState → Prop where
  | untouched {req : BridgeRequest} {reply : Reply}
      (plain : ∀ grant, reply ≠ .signClaim (.ok grant)) : Handled req reply st
  | configured {entry : String} {rhRpcs oraclePeers : List String} (unbooted : st.key = none) :
      Handled (.configure entry rhRpcs oraclePeers) (.ack true)
        (st.setConfig (.fromParts ctx.baked rhRpcs oraclePeers))
  | granted {text : String} {recipient : Address} {grant : ClaimGrant} {total : ℕ}
      (asked : ctx.ext.parseAddress text = some recipient)
      (printed : grant.cumulativeBurned = ctx.ext.printU256 total) (fits : total < 2 ^ 256)
      (mark : st.highWater recipient ≤ total) :
      Handled (.signClaim text) (.signClaim (.ok grant)) (recorded ctx.ext st recipient grant)

variable {ctx st}
variable {t : Transcript HandlerAnswer} {q : HandlerQuery}

theorem onChain_only {R : Type} (p : Prog (RpcAnswer Chain) R) :
    Prog.Only (fun q => handlerService q = none) (onChain p) := by
  apply Prog.Only.interp
  intro q
  exact ⟨rfl, fun _ => trivial⟩

theorem runs_onChain_applied {R : Type} {p : Prog (RpcAnswer Chain) R} {r : R}
    (h : Prog.Runs (onChain p) t r) (s : BridgeState) : applied handlerService t s = s :=
  applied_of_waits handlerService ((onChain_only p).of_mem h) s

theorem health_only : Prog.Only (fun q => handlerService q = none) (health st) := by
  rw [health]
  split
  · refine Prog.Only.bind ?_ fun _ => trivial
    refine (onChain_only _).bind fun igra => ?_
    dsimp only
    split
    · trivial
    · exact (onChain_only _).bind fun _ => (onChain_only _).bind fun _ => trivial
  · trivial

theorem runs_configure {entry : String} {rhRpcs oraclePeers : List String} {ok : Bool}
    (h : Prog.Runs (configure ctx st entry rhRpcs oraclePeers) t ok) :
    (ok = false ∧ t = []) ∨
      ok = true ∧ st.key = none ∧
        t = [⟨.setConfig (.fromParts ctx.baked rhRpcs oraclePeers), ()⟩] := by
  rw [configure] at h
  split at h
  · exact .inl (Prog.runs_pure.mp h).symm
  · rename_i hkey
    split at h
    · exact .inl (Prog.runs_pure.mp h).symm
    · split at h
      · exact .inl (Prog.runs_pure.mp h).symm
      · obtain ⟨_, ht, hok⟩ := Prog.runs_query_pure h
        exact .inr ⟨hok, by simpa using hkey, ht⟩

/-- Before boot, a configuration for the baked entry over https endpoints is stored. -/
theorem configure_runs {entry : String} {rhRpcs oraclePeers : List String}
    (unbooted : st.key = none) (hentry : ctx.ext.parseAddress entry = some ctx.baked.entry)
    (hrpcs : (rhRpcs.isEmpty || rhRpcs.any (fun url => !isHttps url)) = false) :
    Prog.Runs (configure ctx st entry rhRpcs oraclePeers)
      [⟨.setConfig (.fromParts ctx.baked rhRpcs oraclePeers), ()⟩] true := by
  rw [configure, if_neg (by simp [unbooted]), if_neg (not_not_intro hentry),
    if_neg (by simp [hrpcs])]
  exact Prog.runs_bind.mpr ⟨[_], [], (), rfl, Prog.runs_query.mpr rfl, .ret true⟩

/-- The configuration is the only thing a configure request ever asks to write. -/
theorem asks_configure {entry : String} {rhRpcs oraclePeers : List String}
    (h : Prog.Asks (configure ctx st entry rhRpcs oraclePeers) t q) :
    handlerService q ≠ none := by
  rw [configure] at h
  split at h
  · exact absurd h Prog.asks_ret
  · split at h
    · exact absurd h Prog.asks_ret
    · split at h
      · exact absurd h Prog.asks_ret
      · rw [Prog.asks_query_pure h]
        exact Option.some_ne_none _

theorem runs_recordGrant_ok {recipient : Address} {grant : ClaimGrant}
    {response : Except ClaimError ClaimGrant}
    (h : Prog.Runs (recordGrant ctx recipient (.ok grant)) t response) (s : BridgeState) :
    response = .ok grant ∧ applied handlerService t s = recorded ctx.ext s recipient grant := by
  rw [recordGrant] at h
  rw [recorded]
  split at h
  · obtain ⟨_, rfl, rfl⟩ := Prog.runs_query_pure h
    exact ⟨rfl, rfl⟩
  · obtain ⟨rfl, rfl⟩ := Prog.runs_pure.mp h
    exact ⟨rfl, rfl⟩

theorem asks_recordGrant {recipient : Address} {response : Except ClaimError ClaimGrant}
    (h : Prog.Asks (recordGrant ctx recipient response) t q) : handlerService q ≠ none := by
  cases response with
  | error e => exact absurd h Prog.asks_ret
  | ok grant =>
    rw [recordGrant] at h
    split at h
    · rw [Prog.asks_query_pure h]
      exact Option.some_ne_none _
    · exact absurd h Prog.asks_ret

/-- A refusal writes nothing; a grant is at least the mark, and writes its own total. -/
theorem signClaim_handled {text : String}
    {response : Except ClaimError ClaimGrant} (h : Prog.Runs (signClaim ctx st text) t response) :
    Handled ctx st (.signClaim text) (.signClaim response) (applied handlerService t st) := by
  have refused {e : ClaimError} {u : Transcript HandlerAnswer} {r : Except ClaimError ClaimGrant}
      (hret : Prog.Runs (pure (.error e)) u r) :
      Handled ctx st (.signClaim text) (.signClaim r) (applied handlerService u st) := by
    obtain ⟨rfl, rfl⟩ := Prog.runs_pure.mp hret
    exact .untouched (by simp)
  rw [signClaim] at h
  split at h
  · exact refused h
  · rename_i recipient hasked
    split at h
    · rename_i key cfg hkey hcfg
      split at h
      · exact refused h
      · obtain ⟨t₁, t₂, built, rfl, hbuilt, hrecord⟩ := Prog.runs_bind.mp h
        rw [applied_append, runs_onChain_applied hbuilt]
        cases built with
        | error e => exact refused hrecord
        | ok grant =>
          obtain ⟨reads, hgrant, -⟩ := Prog.runs_interp hbuilt
          obtain ⟨total, run⟩ := grantRun_of_buildGrant hgrant
          obtain ⟨rfl, hrecorded⟩ := runs_recordGrant_ok hrecord st
          rw [hrecorded]
          exact .granted hasked run.printed run.total_lt run.mono
    · exact refused h

theorem signClaim_waits {text : String} (h : Prog.Asks (signClaim ctx st text) t q)
    (hwait : handlerService q = none) (s : BridgeState) : applied handlerService t s = s := by
  rw [signClaim] at h
  split at h
  · exact absurd h Prog.asks_ret
  · split at h
    · split at h
      · exact absurd h Prog.asks_ret
      · obtain h | ⟨_, _, _, rfl, -, h⟩ := Prog.asks_bind.mp h
        · exact applied_of_waits handlerService ((onChain_only _).of_asks h) s
        · exact absurd hwait (asks_recordGrant h)
    · exact absurd h Prog.asks_ret

/-- Every completed request is handled in one of the three ways. -/
theorem handle_finished {req : BridgeRequest} {reply : Reply}
    (h : Prog.Runs (handle ctx st req) t reply) :
    Handled ctx st req reply (applied handlerService t st) := by
  cases req with
  | configure entry rhRpcs oraclePeers =>
    obtain ⟨t₁, t₂, ok, rfl, hconfigure, hret⟩ := Prog.runs_bind.mp h
    obtain ⟨rfl, rfl⟩ := Prog.runs_pure.mp hret
    obtain ⟨rfl, rfl⟩ | ⟨rfl, hkey, rfl⟩ := runs_configure hconfigure
    · exact .untouched (by simp)
    · exact .configured hkey
  | signClaim text =>
    obtain ⟨t₁, t₂, response, rfl, hsign, hret⟩ := Prog.runs_bind.mp h
    obtain ⟨rfl, rfl⟩ := Prog.runs_pure.mp hret
    rw [List.append_nil]
    exact signClaim_handled hsign
  | getAttestation nonce =>
    obtain ⟨rfl, rfl⟩ := Prog.runs_pure.mp h
    refine .untouched ?_
    rw [getAttestation]
    split <;> (try split) <;> (try split) <;> simp
  | health =>
    obtain ⟨t₁, t₂, report, rfl, hhealth, hret⟩ := Prog.runs_bind.mp h
    obtain ⟨rfl, rfl⟩ := Prog.runs_pure.mp hret
    rw [List.append_nil, applied_of_waits handlerService (health_only.of_mem hhealth)]
    exact .untouched (by simp)
  | readiness =>
    obtain ⟨rfl, rfl⟩ := Prog.runs_pure.mp h
    exact .untouched (by simp)

/-- Up to any wait a handler has written nothing. -/
theorem handle_waits {req : BridgeRequest} (h : Prog.Asks (handle ctx st req) t q)
    (hwait : handlerService q = none) (s : BridgeState) : applied handlerService t s = s := by
  cases req with
  | configure entry rhRpcs oraclePeers =>
    obtain h | ⟨_, _, _, rfl, -, h⟩ := Prog.asks_bind.mp h
    · exact absurd hwait (asks_configure h)
    · exact absurd h Prog.asks_ret
  | signClaim text =>
    obtain h | ⟨_, _, _, rfl, -, h⟩ := Prog.asks_bind.mp h
    · exact signClaim_waits h hwait s
    · exact absurd h Prog.asks_ret
  | getAttestation nonce => exact absurd h Prog.asks_ret
  | health =>
    obtain h | ⟨_, _, _, rfl, -, h⟩ := Prog.asks_bind.mp h
    · exact applied_of_waits handlerService (health_only.of_asks h) s
    · exact absurd h Prog.asks_ret
  | readiness => exact absurd h Prog.asks_ret

end Nuntius.BridgeHandlers
