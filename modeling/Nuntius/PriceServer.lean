import Nuntius.DigitText
import Nuntius.OracleCycle
import Nuntius.OrderedDicts
import Nuntius.ServedRequests

/-!
# The price server

The server signs stored prices on demand. A signer inside an enclave signs only while an
attestation document can be shown, and documents are kept for five minutes so that requests do
not crowd the security module. Requests of every kind go through that one cache, so what a price
request needs is stated over the whole history.

Times are nanoseconds of the monotonic clock. What the module answers, the store and the counters
come with each request.
-/

namespace Nuntius.PriceServer
open WireFormat Aggregator OracleCycle OrderedDicts ServedRequests

variable {F : Type}

/-! ### The attestation cache -/

/-- 300 s. -/
def attestationCacheTtl : ℕ := 300 * 1000000000

abbrev AttestationCache := Option (List UInt8 × ℕ)

structure PriceRequest where
  method : String
  asset : Option String

/-- A request with what it finds: the time, whether the lock on the cache can be taken for
reading and for writing, the answer of the security module should it be asked, the store in the
order of its iteration, and the counters. -/
structure Arrival (F : Type) where
  request : PriceRequest
  now : ℕ
  readable : Bool
  writable : Bool
  attestationDoc : Option (List UInt8)
  store : OrderedDict String (CachedPrice F)
  equalWeightFallbacks : ℕ
  usdtRateAssumed : ℕ

/-- A document, what the security module answered if it was asked, and the cache from then on. -/
structure Lookup where
  doc : Option (List UInt8)
  fetch : Option (Option (List UInt8))
  cache : AttestationCache

/-- The document in the cache if it is young enough. An instant ahead of the clock is of age 0. -/
def cachedDoc (q : Arrival F) (cache : AttestationCache) : Option (List UInt8) :=
  if q.readable then
    cache.bind fun entry => if q.now - entry.2 < attestationCacheTtl then some entry.1 else none
  else none

def cachedAttestation (q : Arrival F) (cache : AttestationCache) : Lookup :=
  match cachedDoc q cache with
  | some doc => ⟨some doc, none, cache⟩
  | none =>
    match q.attestationDoc with
    | none => ⟨none, some none, cache⟩
    | some fresh =>
      ⟨some fresh, some (some fresh), if q.writable then some (fresh, q.now) else cache⟩

/-! ### Signing -/

structure OracleSigner where
  signDigest : Bytes 32 → Except String (List UInt8 × Bytes 20)
  address : Bytes 20
  requiresAttestationForSigning : Bool

/-- What does not change while the server runs; `humanText` prints eight decimals. -/
structure Server (F : Type) where
  signer : OracleSigner
  signerAddress : String
  digests : Digests F
  humanText : F → String

structure SignedPriceUpdate where
  assetId : String
  assetSymbol : String
  price : String
  priceHuman : String
  timestamp : ℕ
  numSources : ℕ
  sourcesHash : String
  signature : String
  signer : String

def hexText (bytes : List UInt8) : String := String.ofList ('0' :: 'x' :: hexEncode bytes)

variable (server : Server F)

def signPriceUpdate (assetId : Bytes 32) (price timestamp numSources : ℕ) (sourcesHash : Bytes 32) :
    Except String (List UInt8 × Bytes 20) :=
  server.signer.signDigest <| server.digests.keccak256 <|
    assetId.val ++ beBytes 32 price ++ beBytes 32 timestamp ++ beBytes 1 numSources ++
      sourcesHash.val

def signCached (cached : CachedPrice F) : Except String SignedPriceUpdate := do
  let (signature, _) ← signPriceUpdate server cached.assetId cached.priceFixed
    cached.signedTimestamp cached.numSources cached.sourcesHash
  return {
    assetId := hexText cached.assetId.val
    assetSymbol := cached.assetSymbol
    price := toString cached.priceFixed
    priceHuman := server.humanText cached.priceHuman
    timestamp := cached.signedTimestamp
    numSources := cached.numSources
    sourcesHash := hexText cached.sourcesHash.val
    signature := hexText signature
    signer := hexText server.signer.address.val }

/-! ### Requests -/

structure PriceResponse where
  prices : Option (List SignedPriceUpdate) := none
  price : Option SignedPriceUpdate := none
  error : Option String := none
  status : Option String := none
  signer : Option String := none
  numAssets : Option ℕ := none
  attestationDoc : Option String := none
  equalWeightFallbacks : Option ℕ := none
  usdtRateAssumed : Option ℕ := none
  attestationHealthy : Option Bool := none

def refusalText : String :=
  "Attestation document unavailable — enclave health cannot be verified; refusing to sign"

def attestationUnavailableResponse : PriceResponse :=
  { error := some refusalText, attestationHealthy := some false }

/-- A refusal, if the signer demands a document and there is none. -/
def attestationGate (q : Arrival F) (cache : AttestationCache) : Option PriceResponse × Lookup :=
  if !server.signer.requiresAttestationForSigning then (none, ⟨none, none, cache⟩)
  else
    let found := cachedAttestation q cache
    if found.doc.isSome then (none, found) else (some attestationUnavailableResponse, found)

/-- A price method: the refusal of the gate, or the answer. -/
def gated (q : Arrival F) (cache : AttestationCache) (answer : PriceResponse) :
    PriceResponse × Lookup :=
  match attestationGate server q cache with
  | (some refusal, found) => (refusal, found)
  | (none, found) => (answer, found)

/-- The prices that can be signed; the others are only logged. -/
def getPrices (store : OrderedDict String (CachedPrice F)) : PriceResponse :=
  let signed := store.entries.filterMap fun entry => (signCached server entry.2).toOption
  { prices := some signed
    signer := some server.signerAddress
    numAssets := some signed.length }

def getPrice (asset : Option String) (store : OrderedDict String (CachedPrice F)) :
    PriceResponse :=
  match asset with
  | none => { error := some "missing 'asset' field" }
  | some asset =>
    match store.lookup asset with
    | none => { error := some ("asset '" ++ asset ++ "' not found") }
    | some cached =>
      match signCached server cached with
      | .ok update => { price := some update, signer := some server.signerAddress }
      | .error e => { error := some ("signing failed: " ++ e) }

def getAttestation (doc : Option (List UInt8)) : PriceResponse :=
  { error := if doc.isNone then some "Attestation document unavailable" else none
    signer := some server.signerAddress
    attestationDoc := doc.map fun bytes => String.ofList (hexEncode bytes) }

def health (q : Arrival F) (attestationHealthy : Option Bool) : PriceResponse :=
  { status := some "ok"
    signer := some server.signerAddress
    numAssets := some q.store.entries.length
    equalWeightFallbacks := some q.equalWeightFallbacks
    usdtRateAssumed := some q.usdtRateAssumed
    attestationHealthy := attestationHealthy }

def processRequest (q : Arrival F) (cache : AttestationCache) : PriceResponse × Lookup :=
  match q.request.method with
  | "get_prices" => gated server q cache (getPrices server q.store)
  | "get_price" => gated server q cache (getPrice server q.request.asset q.store)
  | "get_attestation" =>
    let found := cachedAttestation q cache
    (getAttestation server found.doc, found)
  | "health" =>
    if server.signer.requiresAttestationForSigning then
      let found := cachedAttestation q cache
      (health server q (some found.doc.isSome), found)
    else (health server q none, ⟨none, none, cache⟩)
  | method => ({ error := some ("unknown method: " ++ method) }, ⟨none, none, cache⟩)

/-- A response, and what the security module answered on the way. -/
structure Served where
  response : PriceResponse
  fetch : Option (Option (List UInt8))

def serve (cache : AttestationCache) (q : Arrival F) : Served × AttestationCache :=
  let (response, found) := processRequest server q cache
  (⟨response, found.fetch⟩, found.cache)

def PriceResponse.signedPrices (response : PriceResponse) : List SignedPriceUpdate :=
  response.prices.getD [] ++ response.price.toList

/-! ### What one request does -/

variable {server} {q : Arrival F} {cache : AttestationCache}

theorem cachedDoc_eq_some {doc : List UInt8} (h : cachedDoc q cache = some doc) :
    ∃ fetched, cache = some (doc, fetched) ∧ q.now - fetched < attestationCacheTtl := by
  unfold cachedDoc at h
  split at h
  · obtain ⟨⟨doc', fetched⟩, hcache, hdoc⟩ := Option.bind_eq_some_iff.mp h
    dsimp only at hdoc
    split at hdoc
    · next hage => exact ⟨fetched, by rw [hcache, Option.some.inj hdoc], hage⟩
    · cases hdoc
  · cases h

/-- What a request may have to do with the cache. -/
inductive Consulted (q : Arrival F) (cache : AttestationCache) : Lookup → Prop
  | not : Consulted q cache ⟨none, none, cache⟩
  | cached {doc : List UInt8} {fetched : ℕ} (entry : cache = some (doc, fetched))
      (age : q.now - fetched < attestationCacheTtl) : Consulted q cache ⟨some doc, none, cache⟩
  | failed : Consulted q cache ⟨none, some none, cache⟩
  | fetched {doc : List UInt8} {cache' : AttestationCache}
      (stored : cache' = cache ∨ cache' = some (doc, q.now)) :
      Consulted q cache ⟨some doc, some (some doc), cache'⟩

/-- Only a document just fetched gets into the cache. -/
theorem Consulted.cache_cases {found : Lookup} (h : Consulted q cache found) :
    found.cache = cache ∨
      ∃ doc, found.fetch = some (some doc) ∧ found.cache = some (doc, q.now) := by
  cases h with
  | not => exact .inl rfl
  | cached => exact .inl rfl
  | failed => exact .inl rfl
  | fetched stored =>
    obtain hsame | hnew := stored
    · exact .inl hsame
    · exact .inr ⟨_, rfl, hnew⟩

theorem Consulted.doc_cases {found : Lookup} (h : Consulted q cache found) {doc : List UInt8}
    (hdoc : found.doc = some doc) :
    found.fetch = some (some doc) ∨
      ∃ fetched, cache = some (doc, fetched) ∧ q.now - fetched < attestationCacheTtl := by
  cases h with
  | not => cases hdoc
  | cached entry age =>
    cases hdoc
    exact .inr ⟨_, entry, age⟩
  | failed => cases hdoc
  | fetched stored =>
    cases hdoc
    exact .inl rfl

theorem cachedAttestation_consulted (q : Arrival F) (cache : AttestationCache) :
    Consulted q cache (cachedAttestation q cache) := by
  unfold cachedAttestation
  split
  · next doc hdoc =>
    obtain ⟨fetched, hcache, hage⟩ := cachedDoc_eq_some hdoc
    exact .cached hcache hage
  · split
    · exact .failed
    · apply Consulted.fetched
      split
      · exact .inr rfl
      · exact .inl rfl

/-- A price request is refused, or goes on with the document it needs. -/
theorem attestationGate_cases (server : Server F) (q : Arrival F) (cache : AttestationCache) :
    Consulted q cache (attestationGate server q cache).2 ∧
      ((attestationGate server q cache).1 = some attestationUnavailableResponse ∨
        (attestationGate server q cache).1 = none ∧
          (server.signer.requiresAttestationForSigning = true →
            (attestationGate server q cache).2.doc.isSome = true)) := by
  cases hrequired : server.signer.requiresAttestationForSigning with
  | false =>
    have hgate : attestationGate server q cache = (none, ⟨none, none, cache⟩) := by
      simp [attestationGate, hrequired]
    rw [hgate]
    exact ⟨.not, .inr ⟨rfl, fun h => absurd h (by simp)⟩⟩
  | true =>
    have hconsulted := cachedAttestation_consulted q cache
    cases hdoc : (cachedAttestation q cache).doc with
    | none =>
      have hgate : attestationGate server q cache =
          (some attestationUnavailableResponse, cachedAttestation q cache) := by
        simp [attestationGate, hrequired, hdoc]
      rw [hgate]
      exact ⟨hconsulted, .inl rfl⟩
    | some doc =>
      have hgate : attestationGate server q cache = (none, cachedAttestation q cache) := by
        simp [attestationGate, hrequired, hdoc]
      rw [hgate]
      exact ⟨hconsulted, .inr ⟨rfl, fun _ => by rw [hdoc]; rfl⟩⟩

/-- Texts that start differently differ. -/
theorem ne_refusalText {start rest : String} (h : start.toList.head?.any (· != 'A') = true) :
    start ++ rest ≠ refusalText := by
  intro heq
  have hhead := congrArg (fun s : String => s.toList.head?) heq
  cases hstart : start.toList with
  | nil => simp [hstart] at h
  | cons c cs =>
    simp [hstart, refusalText] at h hhead
    exact h hhead

theorem getPrice_error (server : Server F) (asset : Option String)
    (store : OrderedDict String (CachedPrice F)) :
    (getPrice server asset store).error ≠ some refusalText := by
  unfold getPrice
  split
  · decide
  · split
    · rw [String.append_assoc]
      exact fun h => ne_refusalText (by decide) (Option.some.inj h)
    · split
      · simp
      · exact fun h => ne_refusalText (by decide) (Option.some.inj h)

/-- A response refuses to sign, or it says something else and carries a price only with the
document in hand. -/
structure Passed (server : Server F) (response : PriceResponse) (found : Lookup) : Prop where
  error : response.error ≠ some refusalText
  attested : response.signedPrices ≠ [] →
    server.signer.requiresAttestationForSigning = true → found.doc.isSome = true

/-- Refused, or passed. -/
def Settled (server : Server F) (q : Arrival F) (cache : AttestationCache)
    (answer : PriceResponse × Lookup) : Prop :=
  Consulted q cache answer.2 ∧
    (answer.1 = attestationUnavailableResponse ∨ Passed server answer.1 answer.2)

theorem settled_gated (server : Server F) (q : Arrival F) (cache : AttestationCache)
    {answer : PriceResponse} (error : answer.error ≠ some refusalText) :
    Settled server q cache (gated server q cache answer) := by
  obtain ⟨hconsulted, hgate⟩ := attestationGate_cases server q cache
  unfold gated
  generalize attestationGate server q cache = gate at hconsulted hgate
  obtain ⟨refusal, found⟩ := gate
  obtain hrefused | ⟨hpassed, hdoc⟩ := hgate
  · cases hrefused
    exact ⟨hconsulted, .inl rfl⟩
  · cases hpassed
    exact ⟨hconsulted, .inr ⟨error, fun _ => hdoc⟩⟩

/-- A response without prices. -/
theorem settled_of_no_prices {response : PriceResponse} {found : Lookup}
    (consulted : Consulted q cache found) (error : response.error ≠ some refusalText)
    (noPrices : response.signedPrices = []) : Settled server q cache (response, found) :=
  ⟨consulted, .inr ⟨error, fun h => absurd noPrices h⟩⟩

theorem processRequest_settled (server : Server F) (q : Arrival F) (cache : AttestationCache) :
    Settled server q cache (processRequest server q cache) := by
  unfold processRequest
  split
  · exact settled_gated server q cache (by simp [getPrices])
  · exact settled_gated server q cache (getPrice_error server _ _)
  · refine settled_of_no_prices (cachedAttestation_consulted q cache) ?_ rfl
    unfold getAttestation
    dsimp only
    split
    · decide
    · simp
  · split
    · exact settled_of_no_prices (cachedAttestation_consulted q cache) (by simp [health]) rfl
    · exact settled_of_no_prices .not (by simp [health]) rfl
  · exact settled_of_no_prices .not
      (fun h => ne_refusalText (by decide) (Option.some.inj h)) rfl

/-! ### Histories -/

/-- What the module answered in a request after others, if it was asked. -/
def fetchOf (server : Server F) (older : List (Arrival F)) (q : Arrival F) :
    Option (Option (List UInt8)) :=
  (serve server (after (serve server) none older) q).1.fetch

def responseOf (server : Server F) (older : List (Arrival F)) (q : Arrival F) : PriceResponse :=
  (serve server (after (serve server) none older) q).1.response

/-- Every document in the cache was fetched by an earlier request at the time it is kept with. -/
def Backed (server : Server F) (older : List (Arrival F)) (cache : AttestationCache) : Prop :=
  ∀ doc fetched, cache = some (doc, fetched) →
    ∃ earlier q₀ between, older = earlier ++ q₀ :: between ∧ q₀.now = fetched ∧
      fetchOf server earlier q₀ = some (some doc)

theorem Backed.later {older : List (Arrival F)} (h : Backed server older cache) (q : Arrival F) :
    Backed server (older ++ [q]) cache := by
  intro doc fetched hcache
  obtain ⟨earlier, q₀, between, rfl, hnow, hfetch⟩ := h doc fetched hcache
  exact ⟨earlier, q₀, between ++ [q], by simp, hnow, hfetch⟩

theorem backed_after (server : Server F) (older : List (Arrival F)) :
    Backed server older (after (serve server) none older) := by
  induction older using List.reverseRecOn with
  | nil => exact fun _ _ h => by cases h
  | append_singleton older q ih =>
    have hconsulted := (processRequest_settled server q (after (serve server) none older)).1
    rw [after_concat]
    obtain hsame | ⟨doc, hfetch, hstored⟩ := hconsulted.cache_cases
    · have hkept : (serve server (after (serve server) none older) q).2 =
          after (serve server) none older := hsame
      rw [hkept]
      exact ih.later q
    · intro doc' fetched hcache
      obtain ⟨rfl, rfl⟩ := Prod.mk.inj (Option.some.inj (hstored.symm.trans hcache))
      exact ⟨older, q, [], rfl, rfl, hfetch⟩

/-- Of a signer that requires attestation, a response with a signed price comes with a document
that its own request fetched, or one that an earlier request fetched less than 300 s before. A
request whose fetch fails might as well not have been made, as far as later ones are concerned.
A refusal to sign has no price, no signature and no signer. -/
theorem signed_prices_are_attested (server : Server F)
    (required : server.signer.requiresAttestationForSigning = true)
    (arrivals : List (Arrival F)) (inTime : arrivals.Pairwise fun q q' => q.now ≤ q'.now) :
    (∀ older q newer, arrivals = older ++ q :: newer →
      (responseOf server older q).signedPrices ≠ [] →
        (∃ doc, fetchOf server older q = some (some doc)) ∨
        ∃ earlier q₀ between doc, older = earlier ++ q₀ :: between ∧
          fetchOf server earlier q₀ = some (some doc) ∧
          q₀.now ≤ q.now ∧ q.now - q₀.now < 300 * 1000000000) ∧
    (∀ older q newer, arrivals = older ++ q :: newer → fetchOf server older q = some none →
      answers (serve server) (after (serve server) none (older ++ [q])) newer =
        answers (serve server) (after (serve server) none older) newer) ∧
    ∀ older q newer, arrivals = older ++ q :: newer →
      (responseOf server older q).error = some refusalText →
        (responseOf server older q).prices = none ∧ (responseOf server older q).price = none ∧
          (responseOf server older q).signer = none := by
  refine ⟨?_, ?_, ?_⟩
  · intro older q newer heq hprices
    obtain ⟨hconsulted, hanswer⟩ :=
      processRequest_settled server q (after (serve server) none older)
    obtain hrefused | hpassed := hanswer
    · exact absurd (congrArg PriceResponse.signedPrices hrefused) hprices
    · obtain ⟨doc, hdoc⟩ := Option.isSome_iff_exists.mp (hpassed.attested hprices required)
      obtain hfetch | ⟨fetched, hcache, hage⟩ := hconsulted.doc_cases hdoc
      · exact .inl ⟨doc, hfetch⟩
      · obtain ⟨earlier, q₀, between, rfl, rfl, hfetch⟩ :=
          backed_after server older doc fetched hcache
        rw [heq, List.append_assoc] at inTime
        have hle : q₀.now ≤ q.now := by
          have hrest := (List.pairwise_append.mp inTime).2.1
          exact (List.pairwise_cons.mp hrest).1 q (by simp)
        exact .inr ⟨earlier, q₀, between, doc, rfl, hfetch, hle, hage⟩
  · intro older q newer _ hfetch
    rw [after_concat]
    have hconsulted := (processRequest_settled server q (after (serve server) none older)).1
    obtain hsame | ⟨doc, hdoc, -⟩ := hconsulted.cache_cases
    · rw [show (serve server (after (serve server) none older) q).2 = _ from hsame]
    · exact absurd (hfetch.symm.trans hdoc) (by simp)
  · intro older q newer _ herror
    obtain hrefused | hpassed :=
      (processRequest_settled server q (after (serve server) none older)).2
    · have hresponse : responseOf server older q = attestationUnavailableResponse := hrefused
      rw [hresponse]
      exact ⟨rfl, rfl, rfl⟩
    · exact absurd herror hpassed.error

def demoServer : Server Unit where
  signer := ⟨fun _ => .ok ([1, 2], filled 20 7), filled 20 7, true⟩
  signerAddress := "0x07"
  digests := ⟨fun _ => filled 32 0, fun _ => filled 8 0⟩
  humanText := fun _ => "1.00000000"

/-- A request some seconds after the start, with one price in the store. -/
def demoArrival (method : String) (seconds : ℕ) (doc : Option (List UInt8)) : Arrival Unit where
  request := ⟨method, some "ETH/USD"⟩
  now := seconds * 1000000000
  readable := true
  writable := true
  attestationDoc := doc
  store := AList.singleton "ETH/USD" ⟨"ETH/USD", filled 32 0, 100000000, (), 5, filled 32 0, 0⟩
  equalWeightFallbacks := 0
  usdtRateAssumed := 0

def attested : Arrival Unit := demoArrival "get_attestation" 0 (some [1])

def pricedInTime : Arrival Unit := demoArrival "get_price" 299 none

def pricedLate : Arrival Unit := demoArrival "get_price" 300 none

/-- The document of the first request serves the second, and is too old for the third. -/
theorem signed_prices_are_attested_demo :
    (responseOf demoServer [attested] pricedInTime).signedPrices.length = 1 ∧
    ((∃ doc, fetchOf demoServer [attested] pricedInTime = some (some doc)) ∨
      ∃ earlier q₀ between doc, [attested] = earlier ++ q₀ :: between ∧
        fetchOf demoServer earlier q₀ = some (some doc) ∧
        q₀.now ≤ 299 * 1000000000 ∧ 299 * 1000000000 - q₀.now < 300 * 1000000000) ∧
    (responseOf demoServer [attested, pricedInTime] pricedLate).error = some refusalText ∧
    (responseOf demoServer [attested, pricedInTime] pricedLate).signer = none := by
  have hattested := signed_prices_are_attested demoServer rfl [attested, pricedInTime, pricedLate]
    (by decide +kernel)
  have hsigned : (responseOf demoServer [attested] pricedInTime).signedPrices.length = 1 := by
    decide +kernel
  have hrefused : (responseOf demoServer [attested, pricedInTime] pricedLate).error =
      some refusalText := by
    decide +kernel
  refine ⟨hsigned, hattested.1 _ _ [_] rfl ?_, hrefused, (hattested.2.2 _ _ [] rfl hrefused).2.2⟩
  exact List.ne_nil_of_length_pos (by omega)

end Nuntius.PriceServer
