import Nuntius.LabelledRuns
import Nuntius.TxQueue

/-!
# The relayer

A tick polls the endpoints, keeps the latest update of each symbol and tries to relay the
assets one after the other. Its code runs up to a wait without interruption; at a wait the
queue, the live subscription and the callback of a completed transaction may run. The state
names the wait at which the tick stands, an event ends a wait, and an exception that leaves the
tick ends it with what was changed so far.
-/

namespace Nuntius.Relaying
open TxQueue LabelledRuns

def MIN_RELAY_GAP : ℤ := 8

def MIN_SOURCES : ℕ := 3

variable {V : Type}

/-- A signed price update, any JSON value in any field but the symbol. -/
structure SignedPriceUpdate (V : Type) where
  assetId : V
  assetSymbol : JsString
  price : V
  priceHuman : V
  timestamp : V
  numSources : V
  sourcesHash : V
  signature : V
deriving DecidableEq

/-- What the code leaves to the JavaScript engine and to `ethers`, with `none` for a thrown
exception. `integer` is the value of a number that is an integer. -/
structure Platform (V : Type) where
  literal : ℕ → V
  nullish : V → Bool
  greater : V → V → Option Bool
  less : V → V → Option Bool
  bigInt : V → Option ℤ
  text : V → Option JsString
  toLowerCase : JsString → JsString
  uint8 : V → Option ℕ
  solidityPacked : V → ℤ → ℤ → ℕ → V → Option JsString
  keccak256 : JsString → JsString
  getBytes : JsString → List UInt8
  hashMessage : List UInt8 → JsString
  recoverAddress : JsString → V → Option JsString
  encodeFunctionData : V → ℤ → ℤ → ℕ → V → V → Option JsString
  integer : V → Option ℤ
  text_of_bigInt : ∀ {v z}, bigInt v = some z → (text v).isSome
  nullish_integer : ∀ {v z}, integer v = some z → nullish v = false
  bigInt_integer : ∀ {v z}, integer v = some z → bigInt v = some z
  greater_integer : ∀ {v w a b}, integer v = some a → integer w = some b →
    greater v w = some (decide (b < a))

/-! ### Polling -/

/-- What one endpoint answers: nothing that can be read, another status, or a body with or
without an error and with a list of prices or `null`. -/
inductive EndpointReply (V : Type) where
  | unreachable
  | refused (status : ℕ)
  | answered (error : Bool) (prices : Option (List (SignedPriceUpdate V)))

def fetchFrom : EndpointReply V → List (SignedPriceUpdate V)
  | .unreachable => []
  | .refused _ => []
  | .answered true _ => []
  | .answered false prices => prices.getD []

def fetchPrices (replies : List (EndpointReply V)) : List (SignedPriceUpdate V) :=
  replies.flatMap fetchFrom

/-! ### The label of an intent -/

def labelHead : JsString := units "updatePrice("

def labelOf (symbol ts : JsString) : JsString :=
  labelHead ++ (symbol ++ (units " ts=" ++ (ts ++ units ")")))

/-- The non-whitespace that follows the head of a label. -/
def labelSymbol (label : JsString) : JsString :=
  (label.drop labelHead.length).takeWhile fun c => !isWhitespace c

/-- The group of the leftmost match of `/updatePrice\((\S+)/`. -/
def matchSymbol (label : JsString) : Option JsString :=
  label.tails.findSome? fun t =>
    if labelHead.isPrefixOf t && labelSymbol t != [] then some (labelSymbol t) else none

theorem labelSymbol_labelOf {symbol : JsString} (h : WhitespaceFree symbol) (ts : JsString) :
    labelSymbol (labelOf symbol ts) = symbol := by
  unfold labelSymbol labelOf
  rw [List.drop_left, List.takeWhile_append_of_pos]
  · have hspace : (units " ts=" ++ (ts ++ units ")")).takeWhile
        (fun c => !isWhitespace c) = [] := rfl
    rw [hspace, List.append_nil]
  · intro c hc
    simp [h c hc]

theorem matchSymbol_labelOf {symbol : JsString} (h : WhitespaceFree symbol) (ne : symbol ≠ [])
    (ts : JsString) : matchSymbol (labelOf symbol ts) = some symbol := by
  have hhead : labelHead.isPrefixOf (labelOf symbol ts) = true :=
    List.isPrefixOf_iff_prefix.mpr ⟨_, rfl⟩
  have htails : (labelOf symbol ts).tails =
      labelOf symbol ts :: (labelOf symbol ts).tail.tails := rfl
  unfold matchSymbol
  rw [htails, List.findSome?_cons]
  simp [hhead, labelSymbol_labelOf h, ne]

/-! ### The state -/

inductive AssetState where
  | idle
  | fresh
  | submitting
deriving DecidableEq

structure AssetRelay (V : Type) where
  symbol : JsString
  assetId : V
  state : AssetState
  latest : Option (SignedPriceUpdate V)
  onchainTimestamp : ℕ
  lastRelayedAt : ℤ
deriving DecidableEq

/-- An attempt at one asset, with the clock it has read and the symbols still to come. -/
structure Attempt where
  symbol : JsString
  now : ℤ
  rest : List JsString
deriving DecidableEq

/-- Where the tick waits. -/
inductive Phase where
  | idle
  | querying
  | subscribing
  | polling
  | looping (rest : List JsString)
  | reading (t : Attempt)
  | lookingUp (t : Attempt) (signedTs : ℤ) (signer : JsString)
  | judged (t : Attempt) (signedTs : ℤ) (valid : Bool)
  | addressing (t : Attempt) (calldata label : JsString)
  | thrown
deriving DecidableEq

structure Relayer (V : Type) where
  assets : List (AssetRelay V)
  validSigners : List JsString
  signerSubscribed : Bool
  txQueue : Queue
  phase : Phase

def Relayer.start : Relayer V where
  assets := []
  validSigners := []
  signerSubscribed := false
  txQueue := Queue.start
  phase := .idle

namespace Relayer

def find (r : Relayer V) (symbol : JsString) : Option (AssetRelay V) :=
  r.assets.find? fun a => a.symbol == symbol

def modify (r : Relayer V) (symbol : JsString) (f : AssetRelay V → AssetRelay V) : Relayer V :=
  { r with assets := r.assets.map fun a => if a.symbol == symbol then f a else a }

def setState (r : Relayer V) (symbol : JsString) (state : AssetState) : Relayer V :=
  r.modify symbol fun a => { a with state := state }

/-- `return` from an attempt, to the next one. -/
def proceed (r : Relayer V) (rest : List JsString) : Relayer V := { r with phase := .looping rest }

def abort (r : Relayer V) : Relayer V := { r with phase := .thrown }

/-- `asset.state = IDLE; return`. -/
def giveUp (r : Relayer V) (symbol : JsString) (rest : List JsString) : Relayer V :=
  (r.setState symbol .idle).proceed rest

def addSigner (r : Relayer V) (signer : JsString) : Relayer V :=
  if r.validSigners.contains signer then r
  else { r with validSigners := r.validSigners ++ [signer] }

/-! ### The code between two waits -/

variable (p : Platform V)

/-- Past events are added one by one, up to one that does not decode. -/
def replay (r : Relayer V) : List (Option JsString) → Relayer V × Bool
  | [] => (r, true)
  | none :: _ => (r, false)
  | some who :: past => (r.addSigner (p.toLowerCase who)).replay past

def ensureSignerSubscription (r : Relayer V) : Relayer V :=
  { r with phase := if r.signerSubscribed then .polling else .querying }

/-- A failure counts as a subscription. -/
def subscribed (r : Relayer V) : Relayer V := { r with signerSubscribed := true, phase := .polling }

def bootstrap (r : Relayer V) : Option (List (Option JsString)) → Relayer V
  | none => r.subscribed
  | some past =>
    match r.replay p past with
    | (r', true) => { r' with phase := .subscribing }
    | (r', false) => r'.subscribed

/-- `existing.latest?.timestamp ?? 0`. -/
def timestampOrZero (latest : Option (SignedPriceUpdate V)) : V :=
  match latest with
  | none => p.literal 0
  | some l => if p.nullish l.timestamp then p.literal 0 else l.timestamp

def upsertPrice (r : Relayer V) (u : SignedPriceUpdate V) : Option (Relayer V) :=
  match r.find u.assetSymbol with
  | some existing => do
    let newer ← p.greater u.timestamp (timestampOrZero p existing.latest)
    if newer then
      pure (r.modify u.assetSymbol fun a =>
        { a with
          latest := some u
          assetId := u.assetId
          state := if a.state = .idle then .fresh else a.state })
    else pure r
  | none =>
    some { r with assets := r.assets ++ [⟨u.assetSymbol, u.assetId, .fresh, some u, 0, 0⟩] }

def upsertAll (r : Relayer V) : List (SignedPriceUpdate V) → Relayer V
  | [] => r.proceed (r.assets.map AssetRelay.symbol)
  | u :: prices =>
    match r.upsertPrice p u with
    | none => r.abort
    | some r' => r'.upsertAll prices

/-- `tryRelay` up to the read of the chain. -/
def openAttempt (r : Relayer V) (asset : AssetRelay V) (now : ℤ) (rest : List JsString) :
    Relayer V :=
  if asset.state = .submitting then r.proceed rest
  else
    match asset.latest with
    | none => r.proceed rest
    | some latest =>
      if now - asset.lastRelayedAt < MIN_RELAY_GAP then r.proceed rest
      else
        match p.less latest.numSources (p.literal MIN_SOURCES) with
        | none => r.abort
        | some true =>
          if (p.text latest.numSources).isSome then r.giveUp asset.symbol rest else r.abort
        | some false => { r with phase := .reading ⟨asset.symbol, now, rest⟩ }

end Relayer

/-- The address that `verifySignature` recovers. -/
def recoverSigner (p : Platform V) (u : SignedPriceUpdate V) : Option JsString := do
  let price ← p.bigInt u.price
  let timestamp ← p.bigInt u.timestamp
  let numSources ← p.uint8 u.numSources
  let payload ← p.solidityPacked u.assetId price timestamp numSources u.sourcesHash
  let ethHash := p.hashMessage (p.getBytes (p.keccak256 payload))
  let recovered ← p.recoverAddress ethHash u.signature
  pure (p.toLowerCase recovered)

/-- The call of `updatePrice` with the fields of an update. -/
def updateCalldata (p : Platform V) (u : SignedPriceUpdate V) (signedTs : ℤ) :
    Option JsString := do
  let price ← p.bigInt u.price
  let numSources ← p.uint8 u.numSources
  p.encodeFunctionData u.assetId price signedTs numSources u.sourcesHash u.signature

namespace Relayer
variable (p : Platform V)

def observe (r : Relayer V) (symbol : JsString) (onchainTs : ℕ) : Relayer V :=
  r.modify symbol fun a => { a with onchainTimestamp := onchainTs }

/-- `verifySignature` up to the lookup of a signer that is not in the cache. -/
def verifySignature (r : Relayer V) (t : Attempt) (u : SignedPriceUpdate V) (signedTs : ℤ) :
    Relayer V :=
  match recoverSigner p u with
  | none => { r with phase := .judged t signedTs false }
  | some signer =>
    if r.validSigners.contains signer then { r with phase := .judged t signedTs true }
    else { r with phase := .lookingUp t signedTs signer }

/-- From the read of the chain into `verifySignature`. -/
def compareTimestamps (r : Relayer V) (t : Attempt) (latest : Option (SignedPriceUpdate V))
    (onchainTs : ℕ) : Relayer V :=
  match latest with
  | none => r.abort
  | some u =>
    match p.bigInt u.timestamp with
    | none => r.abort
    | some signedTs =>
      if signedTs ≤ onchainTs then r.giveUp t.symbol t.rest else r.verifySignature p t u signedTs

/-- The rest of `verifySignature`, after a miss in the cache. -/
def judge (r : Relayer V) (t : Attempt) (signedTs : ℤ) (signer : JsString) :
    Option Bool → Relayer V
  | some true => { r.addSigner signer with phase := .judged t signedTs true }
  | _ => { r with phase := .judged t signedTs false }

/-- From the verdict to `getAddress`. -/
def submit (r : Relayer V) (t : Attempt) (latest : Option (SignedPriceUpdate V)) (signedTs : ℤ)
    (valid : Bool) : Relayer V :=
  if valid then
    let r := r.setState t.symbol .submitting
    match latest with
    | none => r.abort
    | some u =>
      match updateCalldata p u signedTs, p.text u.timestamp with
      | some calldata, some ts => { r with phase := .addressing t calldata (labelOf t.symbol ts) }
      | _, _ => r.abort
  else r.giveUp t.symbol t.rest

/-- The line that `tryRelay` logs can be printed. -/
def prints (u : SignedPriceUpdate V) : Bool :=
  (p.text u.priceHuman).isSome && (p.text u.numSources).isSome && (p.text u.timestamp).isSome

/-- From `getAddress` to the end of `tryRelay`. -/
def enqueue (r : Relayer V) (t : Attempt) (latest : Option (SignedPriceUpdate V))
    (address calldata label : JsString) : Relayer V :=
  let pushed := { r with txQueue := r.txQueue.push address calldata label }
  let r := pushed.modify t.symbol fun a => { a with lastRelayedAt := t.now }
  if latest.any (prints p) then r.proceed t.rest else r.abort

def onTxComplete (r : Relayer V) (intent : TxIntent) : Relayer V :=
  match matchSymbol intent.label with
  | none => r
  | some symbol => r.setState symbol .idle

def settle (r : Relayer V) (q : Queue) (done : Completion) : Relayer V :=
  let r := { r with txQueue := q }
  match done with
  | none => r
  | some (intent, _) => r.onTxComplete intent

end Relayer

/-! ### Runs -/

inductive Event (V : Type) where
  | tickStarted
  | queried (past : Option (List (Option JsString)))
  | subscribed
  | polled (replies : List (EndpointReply V))
  | attempted (asset : AssetRelay V) (now : ℤ)
  | chainRead (symbol : JsString) (assetId : V) (answer : Option ℕ)
  | lookedUp (signer : JsString) (answer : Option Bool)
  | verified (symbol : JsString)
  | queued (symbol : JsString) (now : ℤ) (intent : TxIntent)
  | tickEnded
  | queue (e : TxQueue.Event)
  | enclaveRegistered (signer : JsString)

inductive Step (p : Platform V) : Relayer V → Event V → Relayer V → Prop where
  | tickStarted {r : Relayer V} (phase : r.phase = .idle) :
      Step p r .tickStarted r.ensureSignerSubscription
  | queried {r : Relayer V} {past : Option (List (Option JsString))} (phase : r.phase = .querying) :
      Step p r (.queried past) (r.bootstrap p past)
  | subscribed {r : Relayer V} (phase : r.phase = .subscribing) : Step p r .subscribed r.subscribed
  | polled {r : Relayer V} {replies : List (EndpointReply V)} (phase : r.phase = .polling) :
      Step p r (.polled replies) (r.upsertAll p (fetchPrices replies))
  | attempted {r : Relayer V} {symbol : JsString} {rest : List JsString} {asset : AssetRelay V}
      {now : ℤ} (phase : r.phase = .looping (symbol :: rest)) (found : r.find symbol = some asset) :
      Step p r (.attempted asset now) (r.openAttempt p asset now rest)
  | chainRead {r : Relayer V} {t : Attempt} {asset : AssetRelay V} {answer : Option ℕ}
      (phase : r.phase = .reading t) (found : r.find t.symbol = some asset) :
      -- a failed read counts as zero
      Step p r (.chainRead t.symbol asset.assetId answer)
        ((r.observe t.symbol (answer.getD 0)).compareTimestamps p t asset.latest (answer.getD 0))
  | lookedUp {r : Relayer V} {t : Attempt} {signedTs : ℤ} {signer : JsString}
      {answer : Option Bool} (phase : r.phase = .lookingUp t signedTs signer) :
      Step p r (.lookedUp signer answer) (r.judge t signedTs signer answer)
  | verified {r : Relayer V} {t : Attempt} {signedTs : ℤ} {valid : Bool} {asset : AssetRelay V}
      (phase : r.phase = .judged t signedTs valid) (found : r.find t.symbol = some asset) :
      Step p r (.verified t.symbol) (r.submit p t asset.latest signedTs valid)
  | queued {r : Relayer V} {t : Attempt} {calldata label address : JsString} {asset : AssetRelay V}
      (phase : r.phase = .addressing t calldata label) (found : r.find t.symbol = some asset) :
      Step p r (.queued t.symbol t.now ⟨address, calldata, label, 0⟩)
        (r.enqueue p t asset.latest address calldata label)
  | tickEnded {r : Relayer V} (phase : r.phase = .looping [] ∨ r.phase = .thrown) :
      Step p r .tickEnded { r with phase := .idle }
  | queue {r : Relayer V} {e : TxQueue.Event} {q : Queue} {done : Completion}
      (react : r.txQueue.react e = some (q, done)) : Step p r (.queue e) (r.settle q done)
  | enclaveRegistered {r : Relayer V} {signer : JsString} :
      Step p r (.enclaveRegistered signer) (r.addSigner (p.toLowerCase signer))

/-- The step computed from the state and the event, where there is one. -/
def Relayer.respond [DecidableEq V] (p : Platform V) (r : Relayer V) (e : Event V) :
    Option (Relayer V) :=
  match r.phase, e with
  | .idle, .tickStarted => some r.ensureSignerSubscription
  | .querying, .queried past => some (r.bootstrap p past)
  | .subscribing, .subscribed => some r.subscribed
  | .polling, .polled replies => some (r.upsertAll p (fetchPrices replies))
  | .looping (symbol :: rest), .attempted asset now =>
    if r.find symbol = some asset then some (r.openAttempt p asset now rest) else none
  | .reading t, .chainRead symbol assetId answer =>
    (r.find t.symbol).bind fun asset =>
      if symbol = t.symbol ∧ assetId = asset.assetId then
        some ((r.observe t.symbol (answer.getD 0)).compareTimestamps
          p t asset.latest (answer.getD 0))
      else none
  | .lookingUp t signedTs signer, .lookedUp signer' answer =>
    if signer' = signer then some (r.judge t signedTs signer answer) else none
  | .judged t signedTs valid, .verified symbol =>
    (r.find t.symbol).bind fun asset =>
      if symbol = t.symbol then some (r.submit p t asset.latest signedTs valid) else none
  | .addressing t calldata label, .queued symbol now intent =>
    (r.find t.symbol).bind fun asset =>
      if symbol = t.symbol ∧ now = t.now ∧ intent = ⟨intent.recipient, calldata, label, 0⟩ then
        some (r.enqueue p t asset.latest intent.recipient calldata label)
      else none
  | .looping [], .tickEnded => some { r with phase := .idle }
  | .thrown, .tickEnded => some { r with phase := .idle }
  | _, .queue e => (r.txQueue.react e).map fun (q, done) => r.settle q done
  | _, .enclaveRegistered signer => some (r.addSigner (p.toLowerCase signer))
  | _, _ => none

theorem respond_step [DecidableEq V] {p : Platform V} {r r' : Relayer V} {e : Event V}
    (h : r.respond p e = some r') : Step p r e r' := by
  unfold Relayer.respond at h
  split at h
  case h_1 phase =>
    cases h
    exact .tickStarted phase
  case h_2 phase =>
    cases h
    exact .queried phase
  case h_3 phase =>
    cases h
    exact .subscribed phase
  case h_4 phase =>
    cases h
    exact .polled phase
  case h_5 phase =>
    obtain ⟨found, hr⟩ := Option.ite_none_right_eq_some.mp h
    cases hr
    exact .attempted phase found
  case h_6 phase =>
    obtain ⟨asset, found, hasset⟩ := Option.bind_eq_some_iff.mp h
    obtain ⟨⟨rfl, rfl⟩, hr⟩ := Option.ite_none_right_eq_some.mp hasset
    cases hr
    exact .chainRead phase found
  case h_7 phase =>
    obtain ⟨rfl, hr⟩ := Option.ite_none_right_eq_some.mp h
    cases hr
    exact .lookedUp phase
  case h_8 phase =>
    obtain ⟨asset, found, hasset⟩ := Option.bind_eq_some_iff.mp h
    obtain ⟨rfl, hr⟩ := Option.ite_none_right_eq_some.mp hasset
    cases hr
    exact .verified phase found
  case h_9 phase =>
    obtain ⟨asset, found, hasset⟩ := Option.bind_eq_some_iff.mp h
    obtain ⟨⟨rfl, rfl, hintent⟩, hr⟩ := Option.ite_none_right_eq_some.mp hasset
    cases hr
    rw [hintent]
    exact .queued phase found
  case h_10 phase =>
    cases h
    exact .tickEnded (.inl phase)
  case h_11 phase =>
    cases h
    exact .tickEnded (.inr phase)
  case h_12 =>
    obtain ⟨⟨q, done⟩, react, h⟩ := Option.map_eq_some_iff.mp h
    cases h
    exact .queue react
  case h_13 =>
    cases h
    exact .enclaveRegistered
  case h_14 => cases h

abbrev RelayRun (p : Platform V) : List (Event V) → Relayer V → Prop :=
  Run Relayer.start (Step p)

def respondAll [DecidableEq V] (p : Platform V) : List (Event V) → Option (Relayer V)
  | [] => some Relayer.start
  | e :: older => (respondAll p older).bind fun r => r.respond p e

theorem respondAll_run [DecidableEq V] {p : Platform V} {labels : List (Event V)} {r : Relayer V}
    (h : respondAll p labels = some r) : RelayRun p labels r := by
  induction labels generalizing r with
  | nil =>
    cases h
    exact .start
  | cons e older ih =>
    obtain ⟨r₀, before, now⟩ := Option.bind_eq_some_iff.mp h
    exact .step (ih before) (respond_step now)

/-- A run by computation. -/
theorem run_of_respondAll [DecidableEq V] (p : Platform V) (labels : List (Event V))
    (P : Relayer V → Prop) [DecidablePred P]
    (h : (respondAll p labels).any (fun r => decide (P r)) = true) :
    ∃ r, RelayRun p labels r ∧ P r := by
  cases hr : respondAll p labels with
  | none =>
    rw [hr] at h
    cases h
  | some r =>
    rw [hr] at h
    exact ⟨r, respondAll_run hr, of_decide_eq_true h⟩

end Nuntius.Relaying
