import Nuntius.WireFormat

/-!
# The attestation document

An attestation is a COSE_Sign1 array whose payload is a CBOR map. The reader takes the
fields it knows from the map and checks nothing but their shapes. How bytes are decoded to
a CBOR value is left open; a map is the list of its entries in key order.
-/

namespace Nuntius.AttestationDocument
open WireFormat

inductive CborValue where
  | null
  | bool (b : Bool)
  | integer (i : ℤ)
  | float (bits : UInt64)
  | bytes (b : List UInt8)
  | text (s : String)
  | array (items : List CborValue)
  | map (entries : List (CborValue × CborValue))
  | tag (n : ℕ) (v : CborValue)

namespace CborValue

/-- The variant's name in an error message. -/
def tagOf : CborValue → String
  | .null => "null"
  | .bool _ => "bool"
  | .integer _ => "integer"
  | .float _ => "float"
  | .bytes _ => "bytes"
  | .text _ => "text"
  | .array _ => "array"
  | .map _ => "map"
  | .tag _ _ => "tag"

def isText (key : String) : CborValue → Bool
  | .text s => s == key
  | _ => false

def isInteger (key : ℤ) : CborValue → Bool
  | .integer i => i == key
  | _ => false

end CborValue

abbrev CborMap := List (CborValue × CborValue)

structure AttestationDoc where
  moduleId : String
  digest : String
  timestamp : ℕ
  pcrs : List (ℕ × List UInt8)
  publicKey : Option (List UInt8)
  userData : Option (List UInt8)
  nonce : Option (List UInt8)
  certificate : List UInt8
  cabundle : List (List UInt8)

/-- The entries are kept newest first, so the first one of an index is the one last inserted. -/
def AttestationDoc.pcr (doc : AttestationDoc) (index : ℕ) : Option (List UInt8) :=
  (doc.pcrs.find? fun e => e.1 == index).map Prod.snd

/-! ### Reading the fields -/

def get (map : CborMap) (key : String) : Option CborValue :=
  (map.find? fun e => e.1.isText key).map Prod.snd

def text (map : CborMap) (key : String) : Except String String :=
  match get map key with
  | some (.text s) => .ok s
  | _ => .error s!"missing or non-text field: {key}"

def u64Of (map : CborMap) (key : String) : Except String ℕ :=
  match get map key with
  | some (.integer i) =>
    if 0 ≤ i ∧ i.toNat < 2 ^ 64 then .ok i.toNat
    else .error s!"missing or out-of-range integer field: {key}"
  | _ => .error s!"missing or out-of-range integer field: {key}"

/-- An absent field and a null one are both none. -/
def optionalBytes (map : CborMap) (key : String) : Option (List UInt8) :=
  match get map key with
  | some (.bytes b) => some b
  | _ => none

def pcrIndex (k : CborValue) : Except String ℕ :=
  match k with
  | .integer i =>
    if 0 ≤ i ∧ i.toNat < 2 ^ 16 then .ok i.toNat
    else .error s!"non-integer PCR index: {k.tagOf.quote}"
  | _ => .error s!"non-integer PCR index: {k.tagOf.quote}"

def pcrBytes (index : ℕ) : CborValue → Except String (List UInt8)
  | .bytes b => .ok b
  | other => .error s!"PCR {index} value is not bytes: {other.tagOf.quote}"

/-- The loop over the register map. -/
def readPcrs : CborMap → List (ℕ × List UInt8) → Except String (List (ℕ × List UInt8))
  | [], pcrs => .ok pcrs
  | (k, v) :: rest, pcrs => do
    let index ← pcrIndex k
    let bytes ← pcrBytes index v
    readPcrs rest ((index, bytes) :: pcrs)

def pcrsOf (map : CborMap) : Except String (List (ℕ × List UInt8)) :=
  match get map "pcrs" with
  | some (.map entries) => readPcrs entries []
  | some other => .error s!"pcrs is not a map: {other.tagOf.quote}"
  | none => .error "missing pcrs"

def certificateOf (map : CborMap) : Except String (List UInt8) :=
  match get map "certificate" with
  | some (.bytes b) => .ok b
  | _ => .error "missing or non-bytes certificate"

def cabundleEntry : CborValue → Except String (List UInt8)
  | .bytes b => .ok b
  | other => .error s!"cabundle entry not bytes: {other.tagOf.quote}"

def cabundleOf (map : CborMap) : Except String (List (List UInt8)) :=
  match get map "cabundle" with
  | some (.array items) => items.mapM cabundleEntry
  | _ => .error "missing or non-array cabundle"

/-! ### The document -/

variable (decodeCbor : List UInt8 → Except String CborValue)

/-- The document of a payload map. -/
def docOfMap (map : CborMap) : Except String AttestationDoc := do
  let moduleId ← text map "module_id"
  let digest ← text map "digest"
  let timestamp ← u64Of map "timestamp"
  let pcrs ← pcrsOf map
  let certificate ← certificateOf map
  let cabundle ← cabundleOf map
  .ok
    { moduleId := moduleId, digest := digest, timestamp := timestamp, pcrs := pcrs
      publicKey := optionalBytes map "public_key", userData := optionalBytes map "user_data"
      nonce := optionalBytes map "nonce", certificate := certificate, cabundle := cabundle }

/-- The document that a payload's bytes decode to. -/
def parsePayload (payload : List UInt8) : Except String AttestationDoc := do
  let doc ← (decodeCbor payload).mapError fun e => s!"payload decode: {e}"
  match doc with
  | .map map => docOfMap map
  | other => .error s!"payload is not a map: {other.tagOf.quote}"

def payloadOf : CborValue → Except String (List UInt8)
  | .array [_, _, .bytes payload, _] => .ok payload
  | .array [_, _, other, _] => .error s!"COSE payload is not bytes: {other.tagOf.quote}"
  | .array items => .error s!"COSE_Sign1 has {items.length} elements, expected 4"
  | other => .error s!"COSE_Sign1 is not an array: {other.tagOf.quote}"

def parseAttestationDoc (coseSign1 : List UInt8) : Except String AttestationDoc := do
  let outer ← (decodeCbor coseSign1).mapError fun e => s!"COSE_Sign1 decode: {e}"
  let payload ← payloadOf outer
  parsePayload decodeCbor payload

variable {decodeCbor}

theorem mapError_eq_ok {ε ε' α : Type} {x : Except ε α} {f : ε → ε'} {a : α} :
    x.mapError f = .ok a ↔ x = .ok a := by
  cases x with
  | ok b =>
    rw [Except.mapError, Except.ok.injEq, Except.ok.injEq]
  | error e =>
    constructor
    · intro h
      cases h
    · intro h
      cases h

theorem payloadOf_eq_ok {v : CborValue} {payload : List UInt8} (h : payloadOf v = .ok payload) :
    ∃ first second last, v = .array [first, second, .bytes payload, last] := by
  unfold payloadOf at h
  split at h
  · cases h
    exact ⟨_, _, _, rfl⟩
  · cases h
  · cases h
  · cases h

/-- A document is read from the payload bytes of the array. -/
theorem parseAttestationDoc_eq_ok {bytes : List UInt8} {doc : AttestationDoc}
    (h : parseAttestationDoc decodeCbor bytes = .ok doc) :
    ∃ first second payload last,
      decodeCbor bytes = .ok (.array [first, second, .bytes payload, last]) ∧
        parsePayload decodeCbor payload = .ok doc := by
  obtain ⟨outer, houter, h⟩ := bind_eq_ok.mp h
  obtain ⟨payload, hpayload, h⟩ := bind_eq_ok.mp h
  obtain ⟨first, second, last, rfl⟩ := payloadOf_eq_ok hpayload
  exact ⟨first, second, payload, last, mapError_eq_ok.mp houter, h⟩

end Nuntius.AttestationDocument
