import Nuntius.BootRules
import Nuntius.ChainReads

/-!
# Building a claim grant

The bridge reads the burned total of a recipient on Igra, applies its policy, takes a
deadline from the clocks of the enclave and of Robinhood, and signs. Both transports
answer arbitrarily. A grant that comes out is backed by everything it was read from.
-/

namespace Nuntius.ClaimFlow
open WireFormat OwnerApprovals InteractivePrograms ChainReads BootRules

inductive ClaimError where
  | notReady
  | recipientForbidden
  | nothingBurned
  | readMismatch
  | decreasingBurned
  | rpcError
  | clockSkew
deriving DecidableEq, Repr

def ClaimError.ofChain : ChainError → ClaimError
  | .readMismatch => .readMismatch
  | .decreasingBurned => .decreasingBurned
  | .rpc => .rpcError

structure ClaimRequest where
  recipient : Address
  cumulativeBurned : ℕ
  deadline : ℕ
  chainId : ℕ
  entry : Address
deriving DecidableEq

/-- The total is carried as its decimal text. -/
structure ClaimGrant where
  signature : Bytes 65
  cumulativeBurned : String
  deadline : ℕ
  signer : Address
  igraBlock : ℕ
deriving DecidableEq

/-- The functions the bridge takes from libraries. -/
structure Externals where
  claimDigest : ClaimRequest → Bytes 32
  signRecoverable : SigningKey → Bytes 32 → Option (Bytes 65)
  addressFromKey : SigningKey → Address
  publicPoint : SigningKey → List UInt8
  printU256 : ℕ → String
  parseU256 : String → Option ℕ
  parseAddress : String → Option Address

/-! ### Configuration -/

structure BakedIdentity where
  exit : Address
  kskd : Address
  entry : Address
  chainId : ℕ
deriving DecidableEq

structure BridgeConfig where
  exit : Address
  kskd : Address
  entry : Address
  chainId : ℕ
  rhRpcs : List String
  oraclePeers : List String
deriving DecidableEq

def BridgeConfig.fromParts (baked : BakedIdentity) (rhRpcs oraclePeers : List String) :
    BridgeConfig where
  exit := baked.exit
  kskd := baked.kskd
  entry := baked.entry
  chainId := baked.chainId
  rhRpcs := rhRpcs
  oraclePeers := oraclePeers

def BridgeConfig.forbidden (cfg : BridgeConfig) : List Address := [cfg.exit, cfg.kskd]

/-- Burns count when finalized and at least this many blocks deep. -/
def igraDepth : ℕ := 800

def igraFinality : Finality := .finalizedWithDepth igraDepth

/-! ### The checks -/

def claimTtlSecs : ℕ := 3600
def maxClockSkewSecs : ℕ := 600

def zeroAddress : Address := filled 20 0

def checkClaimable (recipient : Address) (cumulativeBurned : ℕ) (forbidden : List Address) :
    Except ClaimError Unit :=
  if recipient = zeroAddress ∨ forbidden.contains recipient then .error .recipientForbidden
  else if cumulativeBurned = 0 then .error .nothingBurned
  else .ok ()

def absDiff (a b : ℕ) : ℕ := max a b - min a b

/-- The sum is taken in 64 bits. -/
def computeDeadline (enclaveNow rhBlockTs : ℕ) : Except ClaimError ℕ :=
  if maxClockSkewSecs < absDiff enclaveNow rhBlockTs then .error .clockSkew
  else .ok ((min enclaveNow rhBlockTs + claimTtlSecs) % 2 ^ 64)

theorem checkClaimable_ok {recipient : Address} {total : ℕ} {forbidden : List Address}
    (h : checkClaimable recipient total forbidden = .ok ()) :
    recipient ≠ zeroAddress ∧ recipient ∉ forbidden ∧ 0 < total := by
  rw [checkClaimable] at h
  split at h
  · cases h
  · rename_i hallowed
    have hzero : recipient ≠ zeroAddress := fun heq => hallowed (.inl heq)
    have hforbidden : recipient ∉ forbidden := fun hmem =>
      hallowed (.inr (List.contains_iff_mem.mpr hmem))
    split at h
    · cases h
    · exact ⟨hzero, hforbidden, by omega⟩

theorem computeDeadline_ok {enclaveNow rhBlockTs deadline : ℕ} (hnow : enclaveNow < 2 ^ 63)
    (h : computeDeadline enclaveNow rhBlockTs = .ok deadline) :
    absDiff enclaveNow rhBlockTs ≤ maxClockSkewSecs ∧
      deadline = min enclaveNow rhBlockTs + claimTtlSecs := by
  rw [computeDeadline] at h
  split at h
  · cases h
  · rename_i hskew
    have hmin := Nat.min_le_left enclaveNow rhBlockTs
    have hfits : min enclaveNow rhBlockTs + claimTtlSecs < 2 ^ 64 := by
      rw [claimTtlSecs]
      omega
    rw [Nat.mod_eq_of_lt hfits, Except.ok.injEq] at h
    exact ⟨Nat.le_of_not_lt hskew, h.symm⟩

/-! ### The grant -/

inductive Chain where
  | igra
  | robinhood
deriving DecidableEq, Repr

structure ClaimInputs where
  recipient : Address
  highWater : ℕ
  enclaveNow : ℕ
  forbidden : List Address
  exit : Address
  entry : Address
  chainId : ℕ
  igraFinality : Finality

variable (ext : Externals) (key : SigningKey)

def ClaimInputs.request (inp : ClaimInputs) (burned deadline : ℕ) : ClaimRequest where
  recipient := inp.recipient
  cumulativeBurned := burned
  deadline := deadline
  chainId := inp.chainId
  entry := inp.entry

def buildGrant (inp : ClaimInputs) : Fallible (RpcAnswer Chain) ClaimError ClaimGrant := do
  let (burned, igraBlock) ← Fallible.mapError ClaimError.ofChain
    (burnedFinalized .igra inp.exit inp.recipient inp.igraFinality)
  Fallible.mapError ClaimError.ofChain
    (Fallible.ofExcept (ensureNotDecreasing burned inp.highWater))
  Fallible.ofExcept (checkClaimable inp.recipient burned inp.forbidden)
  let rhBlock ← Fallible.mapError ClaimError.ofChain (finalizedBlock .robinhood (.headMinus 0))
  let deadline ← Fallible.ofExcept (computeDeadline inp.enclaveNow rhBlock.timestamp)
  let signature ← Fallible.ofExcept
    (okOr (ext.signRecoverable key (ext.claimDigest (inp.request burned deadline))) .notReady)
  pure
    { signature := signature
      cumulativeBurned := ext.printU256 burned
      deadline := deadline
      signer := ext.addressFromKey key
      igraBlock := igraBlock }

/-- The inputs a request is built from. -/
def claimInputs (cfg : BridgeConfig) (recipient : Address) (highWater enclaveNow : ℕ) :
    ClaimInputs where
  recipient := recipient
  highWater := highWater
  enclaveNow := enclaveNow
  forbidden := cfg.forbidden
  exit := cfg.exit
  entry := cfg.entry
  chainId := cfg.chainId
  igraFinality := igraFinality

/-- What stands behind a grant: a burned total read at a deep block, a permitted recipient, the
clocks, and a signature over the claim for the configured contract and chain. -/
structure Backs (ext : Externals) (key : SigningKey) (cfg : BridgeConfig) (recipient : Address)
    (highWater enclaveNow : ℕ) (t : Transcript (RpcAnswer Chain)) (grant : ClaimGrant)
    (total : ℕ) : Prop where
  printed : grant.cumulativeBurned = ext.printU256 total
  recipient_allowed : recipient ≠ zeroAddress ∧ recipient ≠ cfg.exit ∧ recipient ≠ cfg.kskd
  positive : 0 < total
  not_decreasing : highWater ≤ total
  reads : ∃ burnReads headAnswer blockAnswer head rhBlock,
    t = burnReads ++ [⟨⟨.robinhood, .blockNumber⟩, headAnswer⟩,
      ⟨⟨.robinhood, .getBlockByNumber (some head)⟩, blockAnswer⟩] ∧
    BurnRead .igra cfg.exit recipient igraDepth burnReads total grant.igraBlock ∧
    parseHead headAnswer = .ok head ∧ parseBlock (some head) blockAnswer = .ok rhBlock ∧
    absDiff enclaveNow rhBlock.timestamp ≤ maxClockSkewSecs ∧
    grant.deadline = min enclaveNow rhBlock.timestamp + claimTtlSecs
  signed : ext.signRecoverable key (ext.claimDigest
    { recipient := recipient, cumulativeBurned := total, deadline := grant.deadline,
      chainId := cfg.chainId, entry := cfg.entry }) = some grant.signature

variable {ext key}

/-- Everything a completed grant went through. -/
structure GrantRun (ext : Externals) (key : SigningKey) (inp : ClaimInputs)
    (t : Transcript (RpcAnswer Chain)) (grant : ClaimGrant) (total : ℕ) : Prop where
  printed : grant.cumulativeBurned = ext.printU256 total
  mono : inp.highWater ≤ total
  claimable : checkClaimable inp.recipient total inp.forbidden = .ok ()
  reads : ∃ burnReads rhReads rhBlock, t = burnReads ++ rhReads ∧
    Fallible.Runs (burnedFinalized .igra inp.exit inp.recipient inp.igraFinality) burnReads
      (.ok (total, grant.igraBlock)) ∧
    Fallible.Runs (finalizedBlock .robinhood (.headMinus 0)) rhReads (.ok rhBlock) ∧
    computeDeadline inp.enclaveNow rhBlock.timestamp = .ok grant.deadline
  signed : ext.signRecoverable key (ext.claimDigest (inp.request total grant.deadline)) =
    some grant.signature
  signer : grant.signer = ext.addressFromKey key

theorem grantRun_of_buildGrant {inp : ClaimInputs} {t : Transcript (RpcAnswer Chain)}
    {grant : ClaimGrant} (h : Fallible.Runs (buildGrant ext key inp) t (.ok grant)) :
    ∃ total, GrantRun ext key inp t grant total := by
  obtain ⟨burnReads, _, ⟨total, igraBlock⟩, rfl, run₁, rest₁⟩ := Fallible.runs_bind_ok.mp h
  obtain ⟨_, _, _, rfl, run₂, rest₂⟩ := Fallible.runs_bind_ok.mp rest₁
  obtain ⟨rfl, hmono⟩ := Fallible.runs_ofExcept_ok.mp (Fallible.runs_mapError_ok.mp run₂)
  obtain ⟨_, _, _, rfl, run₃, rest₃⟩ := Fallible.runs_bind_ok.mp rest₂
  obtain ⟨rfl, hcheck⟩ := Fallible.runs_ofExcept_ok.mp run₃
  obtain ⟨rhReads, _, rhBlock, rfl, run₄, rest₄⟩ := Fallible.runs_bind_ok.mp rest₃
  obtain ⟨_, _, deadline, rfl, run₅, rest₅⟩ := Fallible.runs_bind_ok.mp rest₄
  obtain ⟨rfl, hdeadline⟩ := Fallible.runs_ofExcept_ok.mp run₅
  obtain ⟨_, _, signature, rfl, run₆, rest₆⟩ := Fallible.runs_bind_ok.mp rest₅
  obtain ⟨rfl, hsigned⟩ := Fallible.runs_ofExcept_ok.mp run₆
  obtain ⟨rfl, rfl⟩ := Fallible.runs_pure_ok.mp rest₆
  refine ⟨total, rfl, ?_, hcheck, ⟨burnReads, rhReads, rhBlock, ?_,
    Fallible.runs_mapError_ok.mp run₁, Fallible.runs_mapError_ok.mp run₄, hdeadline⟩,
    okOr_eq_ok.mp hsigned, rfl⟩
  · rw [ensureNotDecreasing] at hmono
    split at hmono
    · cases hmono
    · rename_i hge
      exact Nat.le_of_not_lt hge
  · simp

theorem GrantRun.total_lt {cfg : BridgeConfig} {recipient : Address} {highWater enclaveNow : ℕ}
    {t : Transcript (RpcAnswer Chain)} {grant : ClaimGrant} {total : ℕ}
    (run : GrantRun ext key (claimInputs cfg recipient highWater enclaveNow) t grant total) :
    total < 2 ^ 256 := by
  obtain ⟨burnReads, _, _, -, hburn, -⟩ := run.reads
  exact (burnRead_of_burnedFinalized hburn).total_lt

/-- Every grant is backed, whatever the two transports answered. -/
theorem grant_backed {cfg : BridgeConfig} {recipient : Address} {highWater enclaveNow : ℕ}
    {t : Transcript (RpcAnswer Chain)} {grant : ClaimGrant} (hnow : enclaveNow < 2 ^ 63)
    (h : Fallible.Runs (buildGrant ext key (claimInputs cfg recipient highWater enclaveNow)) t
      (.ok grant)) :
    ∃ total, Backs ext key cfg recipient highWater enclaveNow t grant total := by
  obtain ⟨total, run⟩ := grantRun_of_buildGrant h
  obtain ⟨burnReads, rhReads, rhBlock, rfl, hburn, hrh, hdeadline⟩ := run.reads
  obtain ⟨hzero, hforbidden, hpositive⟩ := checkClaimable_ok run.claimable
  obtain ⟨hskew, hdeadline⟩ := computeDeadline_ok hnow hdeadline
  obtain ⟨headAnswer, blockAnswer, head, hhead, hblock, rfl⟩ := runs_headMinus hrh
  have hallowed : recipient ≠ cfg.exit ∧ recipient ≠ cfg.kskd := by
    simpa [claimInputs, BridgeConfig.forbidden] using hforbidden
  exact ⟨total, run.printed, ⟨hzero, hallowed⟩, hpositive, run.mono,
    ⟨burnReads, headAnswer, blockAnswer, head, rhBlock, rfl, burnRead_of_burnedFinalized hburn,
      hhead, hblock, hskew, hdeadline⟩, run.signed⟩

/-! ### A claim that goes through

Igra reports block 200 as finalized under a head of 1000, and a burned total of 5. -/

def demoExternals : Externals where
  claimDigest := fun _ => filled 32 0
  signRecoverable := fun _ _ => some (filled 65 9)
  addressFromKey := fun _ => filled 20 3
  publicPoint := fun _ => [4]
  printU256 := fun n => n.repr
  parseU256 := fun s => some (Nat.ofDigitChars 10 s.toList 0)
  parseAddress := fun s =>
    some (if s = "entry" then filled 20 4 else filled 20 8)

def demoBaked : BakedIdentity where
  exit := filled 20 1
  kskd := filled 20 2
  entry := filled 20 4
  chainId := 46630

def demoConfig : BridgeConfig := .fromParts demoBaked ["https://rpc"] ["oracle:8443"]

def demoRecipient : Address := filled 20 8

def demoWord (last : Char) : String := String.ofList ('0' :: 'x' :: List.replicate 63 '0' ++ [last])

def demoHeader (number timestamp : String) : Json :=
  .obj [("number", .str number), ("hash", .str (demoWord '7')), ("timestamp", .str timestamp)]

def demoChains : ℕ → (q : RpcQuery Chain) → RpcAnswer Chain q
  | _, ⟨.igra, .getBlockByNumber _⟩ => some (demoHeader "0xc8" "0x1")
  | _, ⟨.igra, .blockNumber⟩ => some (.str "0x3e8")
  | _, ⟨.robinhood, .getBlockByNumber _⟩ => some (demoHeader "0x10" "0x3e8")
  | _, ⟨.robinhood, .blockNumber⟩ => some (.str "0x10")
  | _, ⟨_, .call _ _ _⟩ => some (.str (demoWord '5'))

def demoSigningKey : SigningKey := filled 32 6

def demoGrantRun : Transcript (RpcAnswer Chain) × Except ClaimError ClaimGrant :=
  (buildGrant demoExternals demoSigningKey (claimInputs demoConfig demoRecipient 3 1000)).run.exec
    demoChains 0

def demoGrant : ClaimGrant where
  signature := filled 65 9
  cumulativeBurned := "5"
  deadline := 4600
  signer := filled 20 3
  igraBlock := 200

theorem demo_grant : demoGrantRun.2 = .ok demoGrant := by
  decide +kernel

theorem grant_backed_demo :
    ∃ total, Backs demoExternals demoSigningKey demoConfig demoRecipient 3 1000 demoGrantRun.1
      demoGrant total := by
  apply grant_backed (by decide)
  have run := Prog.exec_runs demoChains 0
    (buildGrant demoExternals demoSigningKey (claimInputs demoConfig demoRecipient 3 1000)).run
  exact demo_grant ▸ run

end Nuntius.ClaimFlow
