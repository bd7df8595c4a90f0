import Mathlib.Data.Set.Function
import Nuntius.PriceServer
import Nuntius.RelayLiveness

/-!
# From the store of an enclave to the queue of the relayer

The price server packs the five fields of a stored price, hashes them and signs the hash under the
Ethereum prefix. The relayer gets the fields back as JSON, packs them with `ethers`, hashes them
the same way and recovers an address. The two sides are written in two languages and share no
code, so that they agree is a statement about both: what the server signs is relayed, and what is
relayed was signed, field by field, whatever the endpoints in between do to it.

The symbol of an asset is not among the signed fields.
-/

namespace Nuntius.SignedUpdates
open WireFormat Aggregator OracleCycle OrderedDicts ServedRequests PriceServer Relaying TxQueue
open LabelledRuns

variable {F K V : Type}

/-! ### The signature of the enclave -/

/-- What is signed of a price. -/
@[ext] structure PriceFields where
  assetId : Bytes 32
  price : ℕ
  timestamp : ℕ
  numSources : ℕ
  sourcesHash : Bytes 32

/-- The values fit the integers that they are packed as. -/
structure PriceFields.InRange (f : PriceFields) : Prop where
  price : f.price < 256 ^ 32
  timestamp : f.timestamp < 256 ^ 32
  sources : f.numSources < 256

def PriceFields.payload (f : PriceFields) : List UInt8 :=
  f.assetId.val ++ beBytes 32 f.price ++ beBytes 32 f.timestamp ++ beBytes 1 f.numSources ++
    f.sourcesHash.val

def fieldsOf (c : CachedPrice F) : PriceFields :=
  ⟨c.assetId, c.priceFixed, c.signedTimestamp, c.numSources, c.sourcesHash⟩

/-- The message under the prefix for 32 bytes. -/
def ethMessage (digest : Bytes 32) : List UInt8 :=
  utf8 "\x19Ethereum Signed Message:\n32" ++ digest.val

def ethHash (keccak256 : List UInt8 → Bytes 32) (digest : Bytes 32) : Bytes 32 :=
  keccak256 (ethMessage digest)

/-- What the code takes from `k256`: a signature with its recovery id, and the public point. -/
structure Ecdsa (K : Type) where
  signPrehashRecoverable : K → Bytes 32 → Except String (Bytes 64 × UInt8)
  encodedPoint : K → Bytes 65

def signEip191 (E : Ecdsa K) (keccak256 : List UInt8 → Bytes 32) (key : K) (digest : Bytes 32) :
    Except String (List UInt8) :=
  match E.signPrehashRecoverable key (ethHash keccak256 digest) with
  | .error e => .error ("signing failed: " ++ e)
  | .ok (signature, recoveryId) => .ok (signature.val ++ [recoveryId + 27])

/-- The last 20 bytes of the hash of the point without its tag. -/
def deriveAddress (E : Ecdsa K) (keccak256 : List UInt8 → Bytes 32) (key : K) : Bytes 20 :=
  ⟨(keccak256 ((E.encodedPoint key).val.drop 1)).val.drop 12, by
    rw [List.length_drop, (keccak256 _).property]⟩

/-- `MockSigner` and `EnclaveSigner`; only the second requires a document. -/
def keySigner (E : Ecdsa K) (keccak256 : List UInt8 → Bytes 32) (key : K) (required : Bool) :
    OracleSigner where
  signDigest digest :=
    (signEip191 E keccak256 key digest).map fun signature =>
      (signature, deriveAddress E keccak256 key)
  address := deriveAddress E keccak256 key
  requiresAttestationForSigning := required

theorem beBytes_inj {w m n : ℕ} (hm : m < 256 ^ w) (hn : n < 256 ^ w) :
    beBytes w m = beBytes w n ↔ m = n := by
  constructor
  · intro h
    rw [← beNat_beBytes hm, h, beNat_beBytes hn]
  · rintro rfl
    rfl

/-- Every field has its place, so the bytes determine the fields. -/
theorem PriceFields.payload_inj {f g : PriceFields} (hf : f.InRange) (hg : g.InRange)
    (h : f.payload = g.payload) : f = g := by
  unfold payload at h
  have hlength : f.sourcesHash.val.length = g.sourcesHash.val.length := by
    rw [f.sourcesHash.property, g.sourcesHash.property]
  obtain ⟨h, hhash⟩ := List.append_inj' h hlength
  obtain ⟨h, hsources⟩ := List.append_inj' h (by simp)
  obtain ⟨h, htimestamp⟩ := List.append_inj' h (by simp)
  obtain ⟨hid, hprice⟩ := List.append_inj' h (by simp)
  have hf1 : f.numSources < 256 ^ 1 := hf.sources
  have hg1 : g.numSources < 256 ^ 1 := hg.sources
  exact PriceFields.ext (Subtype.ext hid) ((beBytes_inj hf.price hg.price).mp hprice)
    ((beBytes_inj hf.timestamp hg.timestamp).mp htimestamp) ((beBytes_inj hf1 hg1).mp hsources)
    (Subtype.ext hhash)

theorem ethMessage_inj {digest digest' : Bytes 32} (h : ethMessage digest = ethMessage digest') :
    digest = digest' :=
  Subtype.ext (List.append_cancel_left h)

/-! ### What the server hands out -/

section Served
variable {server : Server F} {older : List (Arrival F)} {q : Arrival F}
  {update : PriceServer.SignedPriceUpdate}

theorem getPrices_signed {store : OrderedDict String (CachedPrice F)}
    (h : update ∈ (getPrices server store).signedPrices) :
    ∃ symbol c, store.lookup symbol = some c ∧ signCached server c = .ok update := by
  simp only [getPrices, PriceResponse.signedPrices, Option.getD_some, Option.toList_none,
    List.append_nil, List.mem_filterMap] at h
  obtain ⟨⟨symbol, c⟩, hmem, hsigned⟩ := h
  refine ⟨symbol, c, AList.mem_lookup_iff.mpr hmem, ?_⟩
  cases hresult : signCached server c with
  | error e =>
    rw [hresult] at hsigned
    cases hsigned
  | ok result =>
    rw [hresult] at hsigned
    cases hsigned
    rfl

theorem getPrice_signed {asset : Option String} {store : OrderedDict String (CachedPrice F)}
    (h : update ∈ (getPrice server asset store).signedPrices) :
    ∃ symbol c, store.lookup symbol = some c ∧ signCached server c = .ok update := by
  unfold getPrice at h
  split at h
  · cases h
  · rename_i symbol
    split at h
    · cases h
    · rename_i c hlookup
      split at h
      · rename_i result hresult
        obtain rfl : update = result := by simpa [PriceResponse.signedPrices] using h
        exact ⟨symbol, c, hlookup, hresult⟩
      · cases h

theorem gated_signed {cache : AttestationCache} {answer : PriceResponse}
    (h : update ∈ (gated server q cache answer).1.signedPrices) :
    update ∈ answer.signedPrices := by
  unfold gated at h
  obtain ⟨-, hgate⟩ := attestationGate_cases server q cache
  generalize attestationGate server q cache = gate at h hgate
  obtain ⟨refusal, found⟩ := gate
  obtain hrefused | ⟨hpassed, -⟩ := hgate
  · cases hrefused
    cases h
  · cases hpassed
    exact h

/-- A price in a response was in the store of its request, and was signed for it. -/
theorem response_signed (h : update ∈ (responseOf server older q).signedPrices) :
    ∃ symbol c, q.store.lookup symbol = some c ∧ signCached server c = .ok update := by
  change update ∈ (processRequest server q (after (serve server) none older)).1.signedPrices at h
  unfold processRequest at h
  split at h
  · exact getPrices_signed (gated_signed h)
  · exact getPrice_signed (gated_signed h)
  · cases h
  · split at h
    · cases h
    · cases h
  · cases h

theorem signCached_eq_ok {c : CachedPrice F} (h : signCached server c = .ok update) :
    ∃ signature address,
      server.signer.signDigest (server.digests.keccak256 (fieldsOf c).payload) =
        .ok (signature, address) ∧
      update = ⟨hexText c.assetId.val, c.assetSymbol, toString c.priceFixed,
        server.humanText c.priceHuman, c.signedTimestamp, c.numSources, hexText c.sourcesHash.val,
        hexText signature, hexText server.signer.address.val⟩ := by
  obtain ⟨⟨signature, address⟩, hsign, hupdate⟩ := bind_eq_ok.mp h
  exact ⟨signature, address, hsign, (Except.ok.inj hupdate).symm⟩

end Served

theorem keySigner_signDigest {E : Ecdsa K} {keccak256 : List UInt8 → Bytes 32} {key : K}
    {required : Bool} {digest : Bytes 32} {signature : List UInt8} {address : Bytes 20}
    (h : (keySigner E keccak256 key required).signDigest digest = .ok (signature, address)) :
    ∃ raw recoveryId,
      E.signPrehashRecoverable key (ethHash keccak256 digest) = .ok (raw, recoveryId) ∧
      signature = raw.val ++ [recoveryId + 27] := by
  simp only [keySigner, signEip191] at h
  split at h
  · cases h
  · rename_i raw recoveryId hsign
    cases h
    exact ⟨raw, recoveryId, hsign, rfl⟩

/-! ### The relayer's side -/

/-- A byte string as `ethers` spells it. -/
def hexString (bytes : List UInt8) : JsString := codeUnits ('0' :: 'x' :: hexEncode bytes)

/-- What `ethers` does with an update, over the hash that the enclave uses: `bytes32` is what it
takes for 32 bytes, packing wants integers in range, and a message is hashed under the prefix with
its length in decimal. -/
structure Ethers (p : Platform V) (keccak256 : List UInt8 → Bytes 32) where
  bytes32 : V → Option (Bytes 32)
  uint8_lt : ∀ {v n}, p.uint8 v = some n → n < 256
  solidityPacked : ∀ {v price timestamp n w packed},
    p.solidityPacked v price timestamp n w = some packed ↔
      ∃ f : PriceFields, bytes32 v = some f.assetId ∧ price = f.price ∧ timestamp = f.timestamp ∧
        n = f.numSources ∧ bytes32 w = some f.sourcesHash ∧ f.price < 256 ^ 32 ∧
        f.timestamp < 256 ^ 32 ∧ packed = hexString f.payload
  keccak256_hex : ∀ bytes, p.keccak256 (hexString bytes) = hexString (keccak256 bytes).val
  getBytes_hex : ∀ bytes, p.getBytes (hexString bytes) = bytes
  hashMessage_eq : ∀ bytes, p.hashMessage bytes = hexString (keccak256 (
    utf8 ("\x19Ethereum Signed Message:\n" ++ toString bytes.length) ++ bytes)).val

/-- The update has these fields, as `verifySignature` and the call read them. -/
structure Carries {p : Platform V} {keccak256 : List UInt8 → Bytes 32} (eth : Ethers p keccak256)
    (u : Relaying.SignedPriceUpdate V) (f : PriceFields) : Prop where
  assetId : eth.bytes32 u.assetId = some f.assetId
  price : p.bigInt u.price = some (f.price : ℤ)
  timestamp : p.bigInt u.timestamp = some (f.timestamp : ℤ)
  sources : p.uint8 u.numSources = some f.numSources
  sourcesHash : eth.bytes32 u.sourcesHash = some f.sourcesHash

section Relayer
variable {p : Platform V} {keccak256 : List UInt8 → Bytes 32}

/-- Both sides put the same prefix before 32 bytes. -/
theorem Ethers.hashMessage_digest (eth : Ethers p keccak256) (digest : Bytes 32) :
    p.hashMessage digest.val = hexString (ethHash keccak256 digest).val := by
  have hprefix : "\x19Ethereum Signed Message:\n" ++ toString digest.val.length =
      "\x19Ethereum Signed Message:\n32" := by
    rw [digest.property]
    decide
  rw [eth.hashMessage_eq, hprefix]
  rfl

/-- The relayer recovers from the hash that the enclave signs for the same fields. -/
theorem Ethers.recoverSigner_eq_some (eth : Ethers p keccak256)
    {u : Relaying.SignedPriceUpdate V} {signer : JsString} :
    recoverSigner p u = some signer ↔
      ∃ f : PriceFields, ∃ recovered, Carries eth u f ∧ f.InRange ∧
        p.recoverAddress (hexString (ethHash keccak256 (keccak256 f.payload)).val) u.signature =
          some recovered ∧ p.toLowerCase recovered = signer := by
  have hhash : ∀ bytes, p.hashMessage (p.getBytes (p.keccak256 (hexString bytes))) =
      hexString (ethHash keccak256 (keccak256 bytes)).val := by
    intro bytes
    rw [eth.keccak256_hex, eth.getBytes_hex, eth.hashMessage_digest]
  simp only [recoverSigner, Option.bind_eq_bind, Option.bind_eq_some_iff, eth.solidityPacked,
    Option.pure_def, Option.some.injEq]
  constructor
  · rintro ⟨price, hprice, timestamp, htimestamp, n, hn, packed,
      ⟨f, hid, rfl, rfl, rfl, hsources, hlt, hlt', rfl⟩, recovered, hrecovered, hsigner⟩
    rw [hhash] at hrecovered
    exact ⟨f, recovered, ⟨hid, hprice, htimestamp, hn, hsources⟩, ⟨hlt, hlt', eth.uint8_lt hn⟩,
      hrecovered, hsigner⟩
  · rintro ⟨f, recovered, carries, range, hrecovered, hsigner⟩
    refine ⟨_, carries.price, _, carries.timestamp, _, carries.sources, _,
      ⟨f, carries.assetId, rfl, rfl, rfl, carries.sourcesHash, range.price, range.timestamp, rfl⟩,
      recovered, ?_, hsigner⟩
    rw [hhash]
    exact hrecovered

theorem Carries.updateCalldata_eq {eth : Ethers p keccak256} {u : Relaying.SignedPriceUpdate V}
    {f : PriceFields} (h : Carries eth u f) :
    updateCalldata p u f.timestamp =
      p.encodeFunctionData u.assetId f.price f.timestamp f.numSources u.sourcesHash
        u.signature := by
  simp [updateCalldata, h.price, h.sources]

end Relayer

/-! ### What the server signs is relayed -/

/-- One or two code units for a character. -/
def utf16 (c : Char) : JsString :=
  if c.toNat < 65536 then [UInt16.ofNat c.toNat]
  else [UInt16.ofNat (55296 + (c.toNat - 65536) / 1024),
    UInt16.ofNat (56320 + (c.toNat - 65536) % 1024)]

/-- A text of the server once it has been parsed by the relayer. -/
def jsText (s : String) : JsString := s.toList.flatMap utf16

/-- The values that parsing a response yields, with what the code does to them. Integers are exact
below `2 ^ 53` only. -/
structure Parsed {p : Platform V} {keccak256 : List UInt8 → Bytes 32} (eth : Ethers p keccak256)
    where
  str : JsString → V
  num : ℕ → V
  bytes32_str : ∀ bytes : Bytes 32, eth.bytes32 (str (hexString bytes.val)) = some bytes
  bigInt_decimal : ∀ n : ℕ, p.bigInt (str (jsText (toString n))) = some (n : ℤ)
  integer_num : ∀ {n : ℕ}, n < 2 ^ 53 → p.integer (num n) = some (n : ℤ)
  uint8_num : ∀ {n : ℕ}, n < 256 → p.uint8 (num n) = some n
  less_literal : ∀ {n k : ℕ}, n < 2 ^ 53 → p.less (num n) (p.literal k) = some (decide (n < k))
  text_str : ∀ s, p.text (str s) = some s
  encodes : ∀ {a h : Bytes 32} {price timestamp n : ℕ} {signature : List UInt8},
    price < 256 ^ 32 → timestamp < 256 ^ 32 → n < 256 →
    (p.encodeFunctionData (str (hexString a.val)) price timestamp n (str (hexString h.val))
      (str (hexString signature))).isSome

/-- An entry of `prices` as the relayer gets it. -/
def Parsed.received {p : Platform V} {keccak256 : List UInt8 → Bytes 32}
    {eth : Ethers p keccak256} (js : Parsed eth) (update : PriceServer.SignedPriceUpdate) :
    Relaying.SignedPriceUpdate V where
  assetId := js.str (jsText update.assetId)
  assetSymbol := jsText update.assetSymbol
  price := js.str (jsText update.price)
  priceHuman := js.str (jsText update.priceHuman)
  timestamp := js.num update.timestamp
  numSources := js.num update.numSources
  sourcesHash := js.str (jsText update.sourcesHash)
  signature := js.str (jsText update.signature)

/-- A signature of the enclave's key recovers to its address. -/
def Recovers (E : Ecdsa K) {p : Platform V} {keccak256 : List UInt8 → Bytes 32}
    {eth : Ethers p keccak256} (js : Parsed eth) : Prop :=
  ∀ key digest raw recoveryId, E.signPrehashRecoverable key digest = .ok (raw, recoveryId) →
    ∃ recovered, p.recoverAddress (hexString digest.val)
        (js.str (hexString (raw.val ++ [recoveryId + 27]))) = some recovered ∧
      p.toLowerCase recovered = hexString (deriveAddress E keccak256 key).val

theorem toNat_digitChar_lt {n : ℕ} (h : n < 16) : (Nat.digitChar n).toNat < 65536 := by
  have hall : ∀ i : Fin 16, (Nat.digitChar i).toNat < 65536 := by decide
  exact hall ⟨n, h⟩

theorem jsText_ofList {cs : List Char} (h : ∀ c ∈ cs, c.toNat < 65536) :
    jsText (String.ofList cs) = codeUnits cs := by
  rw [jsText, String.toList_ofList]
  induction cs with
  | nil => rfl
  | cons c cs ih =>
    have htail := ih fun d hd => h d (List.mem_cons_of_mem c hd)
    rw [List.flatMap_cons, htail, utf16, if_pos (h c List.mem_cons_self)]
    rfl

theorem toNat_lt_of_mem_hexEncode {bytes : List UInt8} {c : Char} (h : c ∈ hexEncode bytes) :
    c.toNat < 65536 := by
  obtain ⟨b, -, hb⟩ := List.mem_flatMap.mp h
  have hbyte := b.toNat_lt
  obtain rfl | hb := List.mem_cons.mp hb
  · exact toNat_digitChar_lt (by omega)
  · rw [List.mem_singleton.mp hb]
    exact toNat_digitChar_lt (by omega)

theorem jsText_hexText (bytes : List UInt8) : jsText (hexText bytes) = hexString bytes := by
  apply jsText_ofList
  intro c hc
  obtain rfl | hc := List.mem_cons.mp hc
  · decide
  obtain rfl | hc := List.mem_cons.mp hc
  · decide
  exact toNat_lt_of_mem_hexEncode hc

section Relayed
variable {p : Platform V} {keccak256 : List UInt8 → Bytes 32} {eth : Ethers p keccak256}
  {js : Parsed eth} {E : Ecdsa K} {key : K} {required : Bool} {server : Server F}
  {update : PriceServer.SignedPriceUpdate} {c : CachedPrice F}

/-- What is received of a signed price has the fields of the price. -/
theorem carries_received (signed : signCached server c = .ok update)
    (range : (fieldsOf c).InRange) (exact53 : c.signedTimestamp < 2 ^ 53) :
    Carries eth (js.received update) (fieldsOf c) := by
  obtain ⟨signature, address, -, rfl⟩ := signCached_eq_ok signed
  refine ⟨?_, js.bigInt_decimal c.priceFixed, p.bigInt_integer (js.integer_num exact53),
    js.uint8_num range.sources, ?_⟩
  · dsimp only [Parsed.received]
    rw [jsText_hexText, js.bytes32_str]
    rfl
  · dsimp only [Parsed.received]
    rw [jsText_hexText, js.bytes32_str]
    rfl

theorem recoverSigner_received (recovers : Recovers E js)
    (hsigner : server.signer = keySigner E keccak256 key required)
    (hkeccak : server.digests.keccak256 = keccak256) (signed : signCached server c = .ok update)
    (range : (fieldsOf c).InRange) (exact53 : c.signedTimestamp < 2 ^ 53) :
    recoverSigner p (js.received update) =
      some (hexString (deriveAddress E keccak256 key).val) := by
  have carries : Carries eth (js.received update) (fieldsOf c) :=
    carries_received signed range exact53
  obtain ⟨signature, address, hsign, rfl⟩ := signCached_eq_ok signed
  rw [hsigner, hkeccak] at hsign
  obtain ⟨raw, recoveryId, hraw, rfl⟩ := keySigner_signDigest hsign
  obtain ⟨recovered, hrecovered, hlower⟩ := recovers key _ raw recoveryId hraw
  refine eth.recoverSigner_eq_some.mpr ⟨fieldsOf c, recovered, carries, range, ?_, hlower⟩
  dsimp only [Parsed.received]
  rw [jsText_hexText (raw.val ++ [recoveryId + 27])]
  exact hrecovered

theorem calldata_received (js : Parsed eth) (signed : signCached server c = .ok update)
    (range : (fieldsOf c).InRange) (exact53 : c.signedTimestamp < 2 ^ 53) :
    ∃ data, updateCalldata p (js.received update) c.signedTimestamp = some data ∧
      p.encodeFunctionData (js.str (hexString c.assetId.val)) c.priceFixed c.signedTimestamp
        c.numSources (js.str (hexString c.sourcesHash.val)) (js.received update).signature =
          some data := by
  have carries : Carries eth (js.received update) (fieldsOf c) :=
    carries_received signed range exact53
  have hcall := carries.updateCalldata_eq
  obtain ⟨signature, address, -, rfl⟩ := signCached_eq_ok signed
  dsimp only [Parsed.received] at hcall ⊢
  rw [jsText_hexText c.assetId.val, jsText_hexText c.sourcesHash.val, jsText_hexText signature]
    at hcall
  rw [jsText_hexText c.assetId.val, jsText_hexText c.sourcesHash.val, jsText_hexText signature]
  have hencodes : (p.encodeFunctionData (js.str (hexString c.assetId.val)) c.priceFixed
      c.signedTimestamp c.numSources (js.str (hexString c.sourcesHash.val))
      (js.str (hexString signature))).isSome :=
    js.encodes range.price range.timestamp range.sources
  obtain ⟨data, hdata⟩ := Option.isSome_iff_exists.mp hencodes
  exact ⟨data, hcall.trans hdata, hdata⟩

end Relayed

/-- Every price in a response of an enclave's server, in any history, is an update that the
relayer takes: it recovers to the address of the key, no expression of a tick throws at it, and
the call it is turned into has the values of the stored price. It is valid if it has three
sources. Timestamps are exact in JavaScript up to `2 ^ 53`. -/
theorem served_prices_are_relayed (E : Ecdsa K) {p : Platform V}
    {keccak256 : List UInt8 → Bytes 32} {eth : Ethers p keccak256} (js : Parsed eth)
    (recovers : Recovers E js) {server : Server F} {key : K} {required : Bool}
    (hsigner : server.signer = keySigner E keccak256 key required)
    (hkeccak : server.digests.keccak256 = keccak256) (older : List (Arrival F)) (q : Arrival F)
    (range : ∀ symbol c, q.store.lookup symbol = some c →
      (fieldsOf c).InRange ∧ c.signedTimestamp < 2 ^ 53)
    (update : PriceServer.SignedPriceUpdate)
    (served : update ∈ (responseOf server older q).signedPrices) :
    ∃ symbol c, q.store.lookup symbol = some c ∧
      recoverSigner p (js.received update) =
        some (hexString (deriveAddress E keccak256 key).val) ∧
      Calm p (js.received update) ∧
      (∃ data, updateCalldata p (js.received update) c.signedTimestamp = some data ∧
        p.encodeFunctionData (js.str (hexString c.assetId.val)) c.priceFixed c.signedTimestamp
          c.numSources (js.str (hexString c.sourcesHash.val)) (js.received update).signature =
            some data) ∧
      ∀ registered, registered (hexString (deriveAddress E keccak256 key).val) →
        3 ≤ c.numSources → Valid p registered (js.received update) := by
  obtain ⟨symbol, c, hlookup, signed⟩ := response_signed served
  obtain ⟨hrange, exact53⟩ := range symbol c hlookup
  have carries : Carries eth (js.received update) (fieldsOf c) :=
    carries_received signed hrange exact53
  have hrecover := recoverSigner_received recovers hsigner hkeccak signed hrange exact53
  have hcall := calldata_received js signed hrange exact53
  have hsources : c.numSources < 2 ^ 53 := hrange.sources.trans (by norm_num)
  have htext : ∀ {n}, n < 2 ^ 53 → (p.text (js.num n)).isSome := fun hn =>
    p.text_of_bigInt (p.bigInt_integer (js.integer_num hn))
  have hless : p.less (js.received update).numSources (p.literal MIN_SOURCES) =
      some (decide (c.numSources < MIN_SOURCES)) := by
    obtain ⟨signature, address, -, rfl⟩ := signCached_eq_ok signed
    exact js.less_literal hsources
  refine ⟨symbol, c, hlookup, hrecover, ⟨?_, ?_, ?_, ?_⟩, hcall, ?_⟩
  · obtain ⟨signature, address, -, rfl⟩ := signCached_eq_ok signed
    exact ⟨_, js.integer_num exact53⟩
  · rw [hless]
    rfl
  · intro signer signedTs _ hts
    obtain rfl := Option.some.inj (carries.timestamp.symm.trans hts)
    obtain ⟨data, hdata, -⟩ := hcall
    exact Option.isSome_of_mem hdata
  · obtain ⟨signature, address, -, rfl⟩ := signCached_eq_ok signed
    simp [Relayer.prints, Parsed.received, js.text_str, htext exact53, htext hsources]
  · intro registered hregistered hthree
    have hmin : ¬ c.numSources < MIN_SOURCES := Nat.not_lt.mpr hthree
    refine ⟨?_, _, hrecover, hregistered⟩
    rw [hless, decide_eq_false hmin]

/-! ### A scheme with one signature -/

/-- The bytes whose digits follow `0x`. -/
def unhex (s : JsString) : List UInt8 :=
  (hexDecode ((s.drop 2).map fun u => Char.ofNat u.toNat)).getD []

theorem map_ofNat_codeUnits {cs : List Char} (h : ∀ c ∈ cs, c.toNat < 65536) :
    ((codeUnits cs).map fun u => Char.ofNat u.toNat) = cs := by
  induction cs with
  | nil => rfl
  | cons c cs ih =>
    have hc : (UInt16.ofNat c.toNat).toNat = c.toNat :=
      UInt16.toNat_ofNat_of_lt (h c List.mem_cons_self)
    have htail := ih fun d hd => h d (List.mem_cons_of_mem c hd)
    simp only [codeUnits, List.map_cons] at htail ⊢
    rw [hc, Char.ofNat_toNat, htail]

theorem unhex_hexString (bytes : List UInt8) : unhex (hexString bytes) = bytes := by
  have hback : (((hexString bytes).drop 2).map fun u => Char.ofNat u.toNat) = hexEncode bytes :=
    map_ofNat_codeUnits fun c hc => toNat_lt_of_mem_hexEncode hc
  rw [unhex, hback, hexDecode_eq_some.mpr (map_toLower_hexEncode bytes)]
  rfl

/-- A hash that tells apart the messages below. -/
def lengthHash (bytes : List UInt8) : Bytes 32 := filled 32 (UInt8.ofNat bytes.length)

/-- The only hash that is ever signed. -/
def onlyDigest : Bytes 32 := filled 32 60

def onlyKey : Ecdsa Unit where
  signPrehashRecoverable _ digest :=
    if digest = onlyDigest then .ok (filled 64 7, 0) else .error "refused"
  encodedPoint _ := filled 65 4

def onlySigner : JsString := hexString (deriveAddress onlyKey lengthHash ()).val

def Value.bytes32 : Value → Option (Bytes 32)
  | .num _ => none
  | .str s => toFixed 32 (unhex s)

def Value.bigInt : Value → Option ℤ
  | .num n => some n
  | .str s => (readDigits 10 0 (s.map fun u => Char.ofNat u.toNat)).map Int.ofNat

def Value.packed (v : Value) (price timestamp : ℤ) (n : ℕ) (w : Value) : Option JsString :=
  (Value.bytes32 v).bind fun a => (Value.bytes32 w).bind fun h =>
    if 0 ≤ price ∧ 0 ≤ timestamp ∧ price.toNat < 256 ^ 32 ∧ timestamp.toNat < 256 ^ 32 then
      some (hexString (PriceFields.payload ⟨a, price.toNat, timestamp.toNat, n, h⟩))
    else none

theorem Value.packed_eq_some {v w : Value} {price timestamp : ℤ} {n : ℕ} {packed : JsString} :
    Value.packed v price timestamp n w = some packed ↔
      ∃ f : PriceFields, Value.bytes32 v = some f.assetId ∧ price = f.price ∧
        timestamp = f.timestamp ∧ n = f.numSources ∧ Value.bytes32 w = some f.sourcesHash ∧
        f.price < 256 ^ 32 ∧ f.timestamp < 256 ^ 32 ∧ packed = hexString f.payload := by
  simp only [Value.packed, Option.bind_eq_some_iff, Option.ite_none_right_eq_some,
    Option.some.injEq]
  constructor
  · rintro ⟨a, ha, h, hh, ⟨hprice, htimestamp, hlt, hlt'⟩, rfl⟩
    exact ⟨⟨a, price.toNat, timestamp.toNat, n, h⟩, ha, (Int.toNat_of_nonneg hprice).symm,
      (Int.toNat_of_nonneg htimestamp).symm, rfl, hh, hlt, hlt', rfl⟩
  · rintro ⟨f, hid, rfl, rfl, rfl, hhash, hlt, hlt', rfl⟩
    exact ⟨f.assetId, hid, f.sourcesHash, hhash,
      ⟨Int.natCast_nonneg _, Int.natCast_nonneg _, hlt, hlt'⟩, rfl⟩

def packedPlatform : Platform Value where
  literal n := .num n
  nullish _ := false
  greater := Value.compare fun a b => decide (b < a)
  less := Value.compare fun a b => decide (a < b)
  bigInt := Value.bigInt
  text := Value.text
  toLowerCase := id
  uint8 := Value.uint8
  solidityPacked := Value.packed
  keccak256 s := hexString (lengthHash (unhex s)).val
  getBytes := unhex
  hashMessage bytes := hexString (lengthHash (
    utf8 ("\x19Ethereum Signed Message:\n" ++ toString bytes.length) ++ bytes)).val
  recoverAddress digest v :=
    if digest = hexString onlyDigest.val ∧ v = .str (hexString ((filled 64 7).val ++ [27])) then
      some onlySigner
    else none
  encodeFunctionData _ _ _ _ _ := Value.string
  integer := Value.integer
  text_of_bigInt := by
    intro v z _
    cases v <;> rfl
  nullish_integer _ := rfl
  bigInt_integer := by
    intro v z h
    cases v with
    | num n => exact h
    | str s => cases h
  greater_integer := valuePlatform.greater_integer

def packedEthers : Ethers packedPlatform lengthHash where
  bytes32 := Value.bytes32
  uint8_lt := by
    intro v n h
    simp only [packedPlatform, Value.uint8] at h
    split at h
    · split at h
      · cases h
        omega
      · cases h
    · cases h
  solidityPacked := Value.packed_eq_some
  keccak256_hex bytes := by
    simp only [packedPlatform, unhex_hexString]
  getBytes_hex := unhex_hexString
  hashMessage_eq _ := rfl

def packedParsed : Parsed packedEthers where
  str := .str
  num n := .num n
  bytes32_str bytes := by
    change toFixed 32 (unhex (hexString bytes.val)) = some bytes
    rw [unhex_hexString]
    exact toFixed_eq_some.mpr rfl
  bigInt_decimal n := by
    have hdigits : ∀ c ∈ Nat.toDigits 10 n, c.toNat < 65536 := by
      intro c hc
      obtain ⟨d, hd, rfl⟩ := mem_toDigits (by decide) hc
      exact toNat_digitChar_lt (by omega)
    have htext : jsText (toString n) = codeUnits (Nat.toDigits 10 n) := jsText_ofList hdigits
    change Value.bigInt (.str (jsText (toString n))) = _
    rw [htext, Value.bigInt, map_ofNat_codeUnits hdigits,
      readDigits_toDigits (by decide) (by decide)]
    rfl
  integer_num _ := rfl
  uint8_num := by
    intro n hn
    have hcast : (0 : ℤ) ≤ n ∧ (n : ℤ) < 256 := by omega
    simp [packedPlatform, Value.uint8, Value.integer, hcast]
  less_literal := by
    intro n k _
    simp [packedPlatform, Value.compare, Value.integer]
  text_str _ := rfl
  encodes _ _ _ := rfl

theorem recovers_onlyKey : Recovers onlyKey packedParsed := by
  intro key digest raw recoveryId h
  simp only [onlyKey] at h
  split at h
  · rename_i hdigest
    cases h
    subst hdigest
    refine ⟨onlySigner, ?_, rfl⟩
    dsimp only [packedPlatform, packedParsed]
    rw [if_pos]
    exact ⟨rfl, rfl⟩
  · cases h

def kasPrice : CachedPrice Unit where
  assetSymbol := "KAS/USD"
  assetId := filled 32 1
  priceFixed := 5
  priceHuman := ()
  numSources := 3
  sourcesHash := filled 32 2
  signedTimestamp := 1000

def kasServer : Server Unit where
  signer := keySigner onlyKey lengthHash () true
  signerAddress := ""
  digests := ⟨lengthHash, fun _ => filled 8 0⟩
  humanText _ := ""

/-- A request for all prices, with a document at hand. -/
def kasArrival : Arrival Unit where
  request := ⟨"get_prices", none⟩
  now := 0
  readable := true
  writable := true
  attestationDoc := some []
  store := AList.singleton "KAS/USD" kasPrice
  equalWeightFallbacks := 0
  usdtRateAssumed := 0

def kasSigned : PriceServer.SignedPriceUpdate where
  assetId := hexText (filled 32 1).val
  assetSymbol := "KAS/USD"
  price := toString 5
  priceHuman := ""
  timestamp := 1000
  numSources := 3
  sourcesHash := hexText (filled 32 2).val
  signature := hexText ((filled 64 7).val ++ [27])
  signer := hexText (deriveAddress onlyKey lengthHash ()).val

theorem signCached_kas : signCached kasServer kasPrice = .ok kasSigned := by
  have hdigest : ethHash lengthHash (lengthHash (fieldsOf kasPrice).payload) = onlyDigest := by
    decide +kernel
  have hsign : kasServer.signer.signDigest (kasServer.digests.keccak256 (fieldsOf kasPrice).payload)
      = .ok ((filled 64 7).val ++ [27], deriveAddress onlyKey lengthHash ()) := by
    simp only [kasServer, keySigner, signEip191, onlyKey, hdigest, if_pos]
    rfl
  exact bind_eq_ok.mpr ⟨_, hsign, rfl⟩

theorem lookup_kas {symbol : String} {c : CachedPrice Unit}
    (h : kasArrival.store.lookup symbol = some c) : c = kasPrice := by
  have hmem := AList.mem_lookup_iff.mp (Option.mem_def.mpr h)
  have hentry : symbol = "KAS/USD" ∧ c = kasPrice := by
    simpa [kasArrival, AList.singleton_entries] using hmem
  exact hentry.2

theorem served_kas : kasSigned ∈ (responseOf kasServer [] kasArrival).signedPrices := by
  change kasSigned ∈ (getPrices kasServer kasArrival.store).signedPrices
  simp [getPrices, PriceResponse.signedPrices, kasArrival, AList.singleton_entries,
    signCached_kas,
    Except.toOption]

theorem inRange_kas : (fieldsOf kasPrice).InRange := by
  refine ⟨?_, ?_, ?_⟩ <;> norm_num [fieldsOf, kasPrice]

theorem served_prices_are_relayed_kas :
    kasSigned ∈ (responseOf kasServer [] kasArrival).signedPrices ∧
      Calm packedPlatform (packedParsed.received kasSigned) ∧
      Valid packedPlatform (fun signer => signer = onlySigner)
        (packedParsed.received kasSigned) := by
  have range : ∀ symbol c, kasArrival.store.lookup symbol = some c →
      (fieldsOf c).InRange ∧ c.signedTimestamp < 2 ^ 53 := by
    intro symbol c h
    rw [lookup_kas h]
    exact ⟨inRange_kas, by norm_num [kasPrice]⟩
  have hsigner : kasServer.signer = keySigner onlyKey lengthHash () true := rfl
  obtain ⟨symbol, c, hlookup, -, calm, -, valid⟩ := served_prices_are_relayed onlyKey packedParsed
    recovers_onlyKey hsigner rfl [] kasArrival range kasSigned served_kas
  rw [lookup_kas hlookup] at valid
  exact ⟨served_kas, calm, valid _ rfl (by decide)⟩

/-! ### What is relayed was signed -/

/-- An enclave whose key the chain may name: its server over all the requests it ever had. -/
structure Enclave (F : Type) (keccak256 : List UInt8 → Bytes 32) where
  server : Server F
  arrivals : List (Arrival F)
  hashes : server.digests.keccak256 = keccak256
  inRange : ∀ q ∈ arrivals, ∀ symbol c, q.store.lookup symbol = some c → (fieldsOf c).InRange

/-- The server signed this price of its store in the answer to a request. -/
def Enclave.Signed {keccak256 : List UInt8 → Bytes 32} (e : Enclave F keccak256)
    (c : CachedPrice F) : Prop :=
  ∃ older q newer symbol update, e.arrivals = older ++ q :: newer ∧
    q.store.lookup symbol = some c ∧ signCached e.server c = .ok update ∧
    update ∈ (responseOf e.server older q).signedPrices

section Origins
variable {p : Platform V} {keccak256 : List UInt8 → Bytes 32} {eth : Ethers p keccak256}
  {labels : List (Event V)} {r : Relayer V} {enclaves : List (Enclave F keccak256)}

/-- A signature that recovers to a signer of the chain was made by an enclave for a price that it
served, since nothing else is ever signed with its key. -/
def Unforged (p : Platform V) (labels : List (Event V)) (enclaves : List (Enclave F keccak256)) :
    Prop :=
  ∀ digest : Bytes 32, ∀ signature recovered,
    p.recoverAddress (hexString digest.val) signature = some recovered →
    Accepted p labels (p.toLowerCase recovered) →
    ∃ e ∈ enclaves, ∃ c, e.Signed c ∧
      digest = ethHash keccak256 (e.server.digests.keccak256 (fieldsOf c).payload)

/-- What is packed for an update that was polled or a price that was signed. -/
def Packed (eth : Ethers p keccak256) (labels : List (Event V))
    (enclaves : List (Enclave F keccak256)) (f : PriceFields) : Prop :=
  (∃ u, Polled labels u ∧ Carries eth u f) ∨ ∃ e ∈ enclaves, ∃ c, e.Signed c ∧ f = fieldsOf c

/-- What is hashed on either side. -/
def hashed (eth : Ethers p keccak256) (labels : List (Event V))
    (enclaves : List (Enclave F keccak256)) : Set (List UInt8) :=
  { bytes | ∃ f, Packed eth labels enclaves f ∧
    (bytes = f.payload ∨ bytes = ethMessage (keccak256 f.payload)) }

theorem Enclave.Signed.inRange {e : Enclave F keccak256} {c : CachedPrice F} (h : e.Signed c) :
    (fieldsOf c).InRange := by
  obtain ⟨older, q, newer, symbol, update, harrivals, hlookup, -⟩ := h
  exact e.inRange q (by rw [harrivals]; simp) symbol c hlookup

/-- Without collisions the hash that is signed determines what was packed. -/
theorem packed_inj (collisionFree : Set.InjOn keccak256 (hashed eth labels enclaves))
    {f g : PriceFields} (hf : Packed eth labels enclaves f) (hg : Packed eth labels enclaves g)
    (h : ethHash keccak256 (keccak256 f.payload) = ethHash keccak256 (keccak256 g.payload)) :
    f.payload = g.payload := by
  have hmessage : ethMessage (keccak256 f.payload) = ethMessage (keccak256 g.payload) :=
    collisionFree ⟨f, hf, .inr rfl⟩ ⟨g, hg, .inr rfl⟩ h
  exact collisionFree ⟨f, hf, .inl rfl⟩ ⟨g, hg, .inl rfl⟩ (ethMessage_inj hmessage)

/-- An update that recovers to a signer of the chain has the fields of a price that an enclave
signed. -/
theorem carries_signed (unforged : Unforged p labels enclaves)
    (collisionFree : Set.InjOn keccak256 (hashed eth labels enclaves))
    {u : Relaying.SignedPriceUpdate V} (polled : Polled labels u) {signer : JsString}
    (hrecover : recoverSigner p u = some signer) (accepted : Accepted p labels signer) :
    ∃ e ∈ enclaves, ∃ c, e.Signed c ∧ Carries eth u (fieldsOf c) := by
  obtain ⟨f, recovered, carries, range, hrecovered, rfl⟩ := eth.recoverSigner_eq_some.mp hrecover
  obtain ⟨e, he, c, signed, hdigest⟩ := unforged _ _ _ hrecovered accepted
  rw [e.hashes] at hdigest
  have hpayload : f.payload = (fieldsOf c).payload :=
    packed_inj collisionFree (.inl ⟨u, polled, carries⟩) (.inr ⟨e, he, c, signed, rfl⟩) hdigest
  obtain rfl := PriceFields.payload_inj range signed.inRange hpayload
  exact ⟨e, he, c, signed, carries⟩

/-- What an attempt has checked by the time its call is queued. -/
theorem queued_update (run : RelayRun p labels r) {newer older : List (Event V)} {s : JsString}
    {now : ℤ} {i : TxIntent} (h : labels = newer ++ .queued s now i :: older) :
    ∃ u signedTs signer, Polled older u ∧ p.bigInt u.timestamp = some signedTs ∧
      recoverSigner p u = some signer ∧ Accepted p older signer ∧
      updateCalldata p u signedTs = some i.data := by
  subst h
  obtain ⟨r₀, r₁, before, step⟩ := run.fired
  have held := recorded_run before
  cases step with
  | @queued t calldata label address asset phase found =>
    have grounded := held.grounded
    rw [phase] at grounded
    obtain ⟨u, signedTs, ts, hu, hver, hdata, -⟩ := grounded
    obtain ⟨w, hw, hpolled, -⟩ := held.stored hu.latest
    obtain rfl : u = w := Option.some.inj hw
    obtain ⟨signer, hrecover, haccepted⟩ := hver.signer
    exact ⟨u, signedTs, signer, hpolled, hver.timestamp, hrecover, haccepted, hdata⟩

/-- In every run of the relayer, whatever the endpoints return, each call that is queued has the
asset, the price, the timestamp, the number of sources and the hash of the sources of one price
that an enclave had in its store when it signed it. -/
theorem relayed_prices_were_signed (eth : Ethers p keccak256) (run : RelayRun p labels r)
    (unforged : Unforged p labels enclaves)
    (collisionFree : Set.InjOn keccak256 (hashed eth labels enclaves))
    {newer older : List (Event V)} {s : JsString} {now : ℤ} {i : TxIntent}
    (h : labels = newer ++ .queued s now i :: older) :
    ∃ e ∈ enclaves, ∃ c, e.Signed c ∧ ∃ u, Polled older u ∧
      eth.bytes32 u.assetId = some c.assetId ∧ eth.bytes32 u.sourcesHash = some c.sourcesHash ∧
      p.encodeFunctionData u.assetId c.priceFixed c.signedTimestamp c.numSources u.sourcesHash
        u.signature = some i.data := by
  obtain ⟨u, signedTs, signer, polled, htimestamp, hrecover, accepted, hdata⟩ :=
    queued_update run h
  have grown : older ⊆ labels := by
    rw [h]
    exact fun e he => List.mem_append_right newer (List.mem_cons_of_mem _ he)
  obtain ⟨e, he, c, signed, carries⟩ := carries_signed unforged collisionFree (polled.mono grown)
    hrecover (accepted.mono grown)
  refine ⟨e, he, c, signed, u, polled, carries.assetId, carries.sourcesHash, ?_⟩
  obtain rfl := Option.some.inj (carries.timestamp.symm.trans htimestamp)
  exact carries.updateCalldata_eq.symm.trans hdata

end Origins

/-! ### A tick that relays the price -/

/-- The signed price as an endpoint returns it. -/
def kasUpdate : Relaying.SignedPriceUpdate Value where
  assetId := .str (hexString (filled 32 1).val)
  assetSymbol := kas
  price := .str (units "5")
  priceHuman := .str []
  timestamp := .num 1000
  numSources := .num 3
  sourcesHash := .str (hexString (filled 32 2).val)
  signature := .str (hexString ((filled 64 7).val ++ [27]))

def kasIntent : TxIntent where
  recipient := []
  data := hexString ((filled 64 7).val ++ [27])
  label := labelOf kas (units "1000")
  retries := 0

/-- A tick up to the push of its call. -/
def kasTick : List (Event Value) :=
  [.queued kas 100 kasIntent,
    .verified kas,
    .lookedUp onlySigner (some true),
    .chainRead kas kasUpdate.assetId (some 0),
    .attempted (firstRelay kasUpdate) 100,
    .polled [.answered false (some [kasUpdate])],
    .subscribed,
    .queried (some []),
    .tickStarted]

def kasEnclave : Enclave Unit lengthHash where
  server := kasServer
  arrivals := [kasArrival]
  hashes := rfl
  inRange := by
    intro q hq symbol c h
    rw [List.mem_singleton.mp hq] at h
    rw [lookup_kas h]
    exact inRange_kas

theorem kasEnclave_signed {c : CachedPrice Unit} : kasEnclave.Signed c ↔ c = kasPrice := by
  constructor
  · rintro ⟨older, q, newer, symbol, update, harrivals, hlookup, -⟩
    have hq : q ∈ kasEnclave.arrivals := by
      rw [harrivals]
      simp
    rw [List.mem_singleton.mp hq] at hlookup
    exact lookup_kas hlookup
  · rintro rfl
    exact ⟨[], kasArrival, [], "KAS/USD", kasSigned, rfl, rfl, signCached_kas, served_kas⟩

theorem polled_kasTick {u : Relaying.SignedPriceUpdate Value} (h : Polled kasTick u) :
    u = kasUpdate := by
  obtain ⟨replies, hmem, hu⟩ := h
  simp only [kasTick, List.mem_cons, reduceCtorEq, Event.polled.injEq, List.not_mem_nil,
    false_or, or_false] at hmem
  subst hmem
  simpa [fetchPrices, fetchFrom] using hu

theorem carries_kasUpdate {f : PriceFields} (h : Carries packedEthers kasUpdate f) :
    f = fieldsOf kasPrice := by
  have hbytes : ∀ bytes : Bytes 32,
      packedEthers.bytes32 (.str (hexString bytes.val)) = some bytes := packedParsed.bytes32_str
  have hid := Option.some.inj (h.assetId.symm.trans (hbytes (filled 32 1)))
  have hhash := Option.some.inj (h.sourcesHash.symm.trans (hbytes (filled 32 2)))
  have hprice : (f.price : ℤ) = 5 := Option.some.inj h.price.symm
  have htimestamp : (f.timestamp : ℤ) = 1000 := Option.some.inj h.timestamp.symm
  have hsources : f.numSources = 3 := Option.some.inj h.sources.symm
  exact PriceFields.ext hid (by exact_mod_cast hprice) (by exact_mod_cast htimestamp) hsources
    hhash

theorem packed_kasTick {f : PriceFields} (h : Packed packedEthers kasTick [kasEnclave] f) :
    f = fieldsOf kasPrice := by
  obtain ⟨u, hu, carries⟩ | ⟨e, he, c, signed, rfl⟩ := h
  · rw [polled_kasTick hu] at carries
    exact carries_kasUpdate carries
  · rw [List.mem_singleton.mp he] at signed
    rw [kasEnclave_signed.mp signed]

theorem unforged_kasTick : Unforged packedPlatform kasTick [kasEnclave] := by
  intro digest signature recovered h _
  have hdigest : digest = onlyDigest := by
    simp only [packedPlatform] at h
    split at h
    · rename_i heq
      apply Subtype.ext
      rw [← unhex_hexString digest.val, heq.1, unhex_hexString]
    · cases h
  refine ⟨kasEnclave, List.mem_singleton.mpr rfl, kasPrice, kasEnclave_signed.mpr rfl, ?_⟩
  rw [hdigest]
  decide +kernel

theorem collisionFree_kasTick :
    Set.InjOn lengthHash (hashed packedEthers kasTick [kasEnclave]) := by
  have hne : lengthHash (fieldsOf kasPrice).payload ≠
      lengthHash (ethMessage (lengthHash (fieldsOf kasPrice).payload)) := by decide +kernel
  rintro x ⟨f, hf, hx⟩ y ⟨g, hg, hy⟩ hxy
  rw [packed_kasTick hf] at hx
  rw [packed_kasTick hg] at hy
  obtain rfl | rfl := hx
  · obtain rfl | rfl := hy
    · rfl
    · exact absurd hxy hne
  · obtain rfl | rfl := hy
    · exact absurd hxy.symm hne
    · rfl

theorem relayed_prices_were_signed_kas : ∃ r c u, RelayRun packedPlatform kasTick r ∧
    kasEnclave.Signed c ∧ packedEthers.bytes32 u = some c.assetId := by
  obtain ⟨r, run, -⟩ := run_of_respondAll packedPlatform kasTick (fun _ => True)
    (by decide +kernel)
  have hqueued : kasTick = [] ++ .queued kas 100 kasIntent :: kasTick.tail := rfl
  obtain ⟨e, he, c, signed, u, -, hid, -⟩ := relayed_prices_were_signed packedEthers run
    unforged_kasTick collisionFree_kasTick hqueued
  rw [List.mem_singleton.mp he] at signed
  exact ⟨r, c, u.assetId, run, signed, hid⟩

end Nuntius.SignedUpdates
