import Nuntius.AttestedExchange
import Nuntius.BootSafety
import Nuntius.ClaimFlow

/-!
# How a bridge comes by its key

The boot rules ask for keys and for registrations. Here both are answered as the bridge answers
them: a fetch dials the peer and runs the client exchange under a time budget, a registration
is read from Robinhood, and a request to generate a key is always refused. A tick that ends
with a key has it from one of its peers, over a channel whose other end was verified.
-/

namespace Nuntius.BridgeBoot
open WireFormat HandoverPolicy OwnerApprovals InteractivePrograms AttestedExchange
open ChainReads ClaimFlow BootRules

/-- What is baked into the image, and the functions it takes from libraries. -/
structure BridgeImage where
  ext : Externals
  baked : BakedIdentity
  ownPcr0 : Pcr0
  version : ℕ
  ancestors : List Pcr0
  validScalar : TransferKey → Bool
  verifyAttestation : ℕ → List UInt8 → Bytes 32 → Option VerifiedPeer

/-! ### One fetch -/

/-- A connection that stands: the clock and the nonce drawn for it, and both channel keys. -/
structure Dialled where
  now : ℕ
  myNonce : Bytes 32
  myPoint : List UInt8
  peerPoint : List UInt8

inductive WorldQuery where
  | dial (target : String)
  | channel (q : ChannelQuery)
  | rpc (q : RpcQuery Chain)

/-- A dial may fail; the budget of a fetch may end at any query of its channel. -/
abbrev WorldAnswer : WorldQuery → Type
  | .dial _ => Option Dialled
  | .channel q => Option (ChannelAnswer q)
  | .rpc _ => Option Json

def handoverPort : ℕ := 8443

def withDefaultPort (endpoint : String) : String :=
  if endpoint.toList.contains ':' then endpoint else endpoint ++ ":" ++ toString handoverPort

variable (img : BridgeImage)

def fetchChannel (dialled : Dialled) : Channel where
  myNonce := dialled.myNonce
  myPoint := dialled.myPoint
  peerPoint := dialled.peerPoint
  verify := img.verifyAttestation dialled.now

def acceptInputs (kind : FetchKind) : AcceptInputs where
  kind := kind
  ownPcr0 := img.ownPcr0
  bakedAncestors := img.ancestors

/-- Transferred bytes that are no scalar are refused. -/
def fromBytes (raw : TransferKey) : Option (FetchedKey img.ext.addressFromKey) :=
  if img.validScalar raw then some (.ofKey img.ext.addressFromKey raw) else none

/-- The client exchange until its budget ends. -/
def boundedExchange (dialled : Dialled) (kind : FetchKind) :
    Prog WorldAnswer (Option (Except ChannelFault ClientExchange)) :=
  (clientExchange (fetchChannel img dialled) (acceptInputs img kind)).run.cutOff.interp
    fun q => Prog.query (WorldQuery.channel q)

/-- A fault, a decline or a key. -/
def fetch (endpoint : String) (kind : FetchKind) :
    Prog WorldAnswer (Option (Option (FetchedKey img.ext.addressFromKey))) := do
  let dialled ← Prog.query (WorldQuery.dial (withDefaultPort endpoint))
  match dialled with
  | none => pure none
  | some dialled => do
    let outcome ← boundedExchange img dialled kind
    match outcome with
    | some (.ok (.installed raw)) => pure ((fromBytes img raw).map some)
    | some (.ok (.refused _)) => pure (some none)
    | _ => pure none

/-! ### One tick -/

def onRobinhood {R : Type} (p : Prog (RpcAnswer Chain) R) : Prog WorldAnswer R :=
  p.interp fun q => Prog.query (WorldQuery.rpc q)

/-- Who answers the boot rules on a bridge. -/
def bridgeWorld (cfg : BridgeConfig) :
    (q : BootQuery) → Prog WorldAnswer (BootAnswer img.ext.addressFromKey ChainError q)
  | .fetch endpoint kind => fetch img endpoint kind
  | .registered addr => onRobinhood (isValidSigner .robinhood cfg.entry .bridge addr .tag).run
  | .signerCount => onRobinhood (signerCount .robinhood cfg.entry .tag).run
  | .generate => pure none

def bridgeDeps (cfg : BridgeConfig) : BootDeps where
  role := .bridge
  peers := cfg.oraclePeers.map fun peer => (peer, .bridgeFromParent)
  freshApproved := false

def bridgeTick (cfg : BridgeConfig) (loop : BootLoopState) :
    Prog WorldAnswer (BootLoopState × Except (BootError ChainError) StepOutcome) :=
  (step loop (bridgeDeps cfg)).interp (bridgeWorld img cfg)

/-! ### Where a key comes from -/

/-- The transcript of one fetch: the peer was dialled, its document verified, its image is one of
the baked ancestors, and the third frame it sent granted the key. -/
structure GrantedBy (endpoint : String) (u : Transcript WorldAnswer) (key : SigningKey) : Prop where
  exchange : ∃ dialled t peer,
    u = ⟨.dial (withDefaultPort endpoint), some dialled⟩ ::
      t.map (fun e => ⟨.channel e.1, some e.2⟩) ∧
    verifiedPeer (fetchChannel img dialled) t = some peer ∧ peer.pcr0 ∈ img.ancestors ∧
    (reads t)[2]? = some (Frame.grant key).payload

/-- A tick under a configuration fetched the key from one of its peers. -/
structure FetchedIn (cfg : BridgeConfig) (u : Transcript WorldAnswer) (address : Address)
    (key : SigningKey) : Prop where
  derived : address = img.ext.addressFromKey key
  granted : ∃ endpoint ∈ cfg.oraclePeers, ∃ v, v <:+: u ∧ GrantedBy img endpoint v key

variable {img}

theorem realizes_channel {t : Transcript fun q => Option (ChannelAnswer q)}
    {u : Transcript WorldAnswer}
    (h : Prog.Realizes (fun q => Prog.query (WorldQuery.channel q)) t u) :
    u = t.map fun e => ⟨.channel e.1, e.2⟩ := by
  induction h with
  | nil => rfl
  | cons run rest ih =>
    rw [ih, Prog.runs_query.mp run]
    rfl

theorem runs_boundedExchange {dialled : Dialled} {kind : FetchKind} {u : Transcript WorldAnswer}
    {outcome : Except ChannelFault ClientExchange}
    (h : Prog.Runs (boundedExchange img dialled kind) u (some outcome)) :
    ∃ t, u = t.map (fun e => ⟨.channel e.1, some e.2⟩) ∧
      Fallible.Runs (clientExchange (fetchChannel img dialled) (acceptInputs img kind)) t
        outcome := by
  obtain ⟨bounded, hrun, hreal⟩ := Prog.runs_interp h
  obtain ⟨t, hclient, rfl⟩ := Prog.runs_cutOff hrun
  refine ⟨t, ?_, hclient⟩
  rw [realizes_channel hreal, List.map_map]
  rfl

theorem fetch_granted {endpoint : String} {u : Transcript WorldAnswer}
    {fk : FetchedKey img.ext.addressFromKey}
    (h : Prog.Runs (fetch img endpoint .bridgeFromParent) u (some (some fk))) :
    GrantedBy img endpoint u fk.key := by
  obtain ⟨_, _, dialled, rfl, hdial, rest₁⟩ := Prog.runs_bind.mp h
  cases dialled with
  | none => cases (Prog.runs_pure.mp rest₁).2
  | some dialled =>
    obtain ⟨_, _, outcome, rfl, hexchange, rest₂⟩ := Prog.runs_bind.mp rest₁
    split at rest₂
    · rename_i raw
      obtain ⟨rfl, hkey⟩ := Prog.runs_pure.mp rest₂
      obtain ⟨t, rfl, hclient⟩ := runs_boundedExchange hexchange
      obtain ⟨peer, hverified, haccept, hgrant⟩ := clientExchange_installed hclient
      have hraw : fk.key = raw := by
        rw [fromBytes] at hkey
        split at hkey
        · cases hkey
          rfl
        · cases hkey
      refine ⟨dialled, t, peer, ?_, hverified, clientAcceptsServer_parent.mp haccept, ?_⟩
      · rw [Prog.runs_query.mp hdial, List.append_nil]
        rfl
      · rw [hraw]
        exact hgrant
    · cases (Prog.runs_pure.mp rest₂).2
    · cases (Prog.runs_pure.mp rest₂).2

/-- A tick that ends with a peer's key was granted it by one of the configured peers. -/
theorem bridgeTick_fetched {cfg : BridgeConfig} {loop loop' : BootLoopState}
    {u : Transcript WorldAnswer} {address : Address} {key : SigningKey}
    (h : Prog.Runs (bridgeTick img cfg loop) u (loop', .ok (.done (.peer address key)))) :
    FetchedIn img cfg u address key := by
  obtain ⟨t, hstep, hreal⟩ := Prog.runs_interp h
  cases step_effect hstep with
  | @peer fk _ hfetched _ =>
    refine ⟨fk.derived, ?_⟩
    obtain ⟨⟨q, answer⟩, hmem, hanswer⟩ := List.mem_filterMap.mp hfetched
    cases q with
    | fetch endpoint kind =>
      have hpeer : (endpoint, kind) ∈ (bridgeDeps cfg).peers := (step_only _ _).of_mem hstep _ hmem
      obtain ⟨peer, hconfigured, hpair⟩ := List.mem_map.mp hpeer
      cases hpair
      obtain ⟨v, hrun, hinfix⟩ := hreal.run_of_mem hmem
      have hkey : answer = some (some fk) := by
        cases answer with
        | none => cases hanswer
        | some answer => exact congrArg some hanswer
      rw [hkey] at hrun
      exact ⟨endpoint, hconfigured, v, hinfix, fetch_granted hrun⟩
    | registered addr => cases hanswer
    | signerCount => cases hanswer
    | generate => cases hanswer

end Nuntius.BridgeBoot
