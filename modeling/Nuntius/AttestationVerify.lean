import Mathlib.Data.List.Chain
import Nuntius.AttestationDocument
import Nuntius.AttestedExchange
import Nuntius.SelfDelimiting

/-!
# Verifying an attestation

The document is decoded twice: once for its fields, once for the parts of the signature.
The certificates are walked from the pinned root to the leaf, carrying the key of the
certificate before. Certificate parsing, CBOR decoding, P-384 and Keccak are arbitrary
functions; the DER of a parsed certificate body stands for the bytes that were signed.
-/

namespace Nuntius.AttestationVerify
open WireFormat AttestationDocument SelfDelimiting

/-- What the verifier reads off a parsed certificate; an extension may fail to decode or be
absent, and the body may fail to encode again. -/
structure Certificate where
  notBefore : ℕ
  notAfter : ℕ
  basicConstraintsCa : Except String (Option Bool)
  keyUsageCertSign : Except String (Option Bool)
  tbsDer : Except String (List UInt8)
  signature : List UInt8
  publicKey : List UInt8

/-- The libraries. -/
structure Crypto where
  decodeCbor : List UInt8 → Except String CborValue
  fromDer : List UInt8 → Except String Certificate
  fromSec1Bytes : List UInt8 → Except String Unit
  signatureFromSlice : List UInt8 → Except String Unit
  verify : List UInt8 → List UInt8 → List UInt8 → Except String Unit
  keccak256 : List UInt8 → Bytes 32

def pcrLen : ℕ := 48
def coseAlgEs384 : ℤ := -35
def clockSkewSecs : ℕ := 300

structure VerifiedAttestation where
  pcr0 : Bytes 48
  pcr1 : Bytes 48
  pcr2 : Bytes 48
  enclaveSigner : List UInt8
  publicKey : List UInt8
  timestamp : ℕ
deriving DecidableEq

/-! ### Checks on the document -/

def checkPcrLength (doc : AttestationDoc) (index : ℕ) : Except String Unit :=
  match doc.pcr index with
  | some p =>
    if p.length = pcrLen then .ok ()
    else .error s!"PCR{index} has length {p.length}, expected {pcrLen}"
  | none => .error s!"missing PCR{index}"

/-- `{:#04x}`. -/
def hexTag (b : UInt8) : String :=
  "0x" ++ String.ofList [Nat.digitChar (b.toNat / 16), Nat.digitChar (b.toNat % 16)]

def checkPublicKey (doc : AttestationDoc) : Except String Unit :=
  match doc.publicKey with
  | some pk =>
    if pk.length = 65 ∧ pk.head? = some 4 then .ok ()
    else .error (s!"signer public_key is not a 65-byte uncompressed point (len {pk.length}, tag " ++
      hexTag (pk.headD 0) ++ ")")
  | none => .error "signer document has no public_key"

def checkExpectedNonce (doc : AttestationDoc) :
    Option (List UInt8) → Except String Unit
  | some expected =>
    match doc.nonce with
    | some n => if AttestedExchange.ctEq n expected = true then .ok () else .error "nonce mismatch"
    | none => .error "nonce mismatch"
  | none => .ok ()

def semanticChecks (doc : AttestationDoc) (expectedNonce : Option (List UInt8)) :
    Except String Unit := do
  if doc.digest ≠ "SHA384" then .error s!"unexpected digest algorithm: {doc.digest}"
  else do
    checkPcrLength doc 0
    checkPcrLength doc 1
    checkPcrLength doc 2
    checkPublicKey doc
    checkExpectedNonce doc expectedNonce

/-- The largest `u64`. -/
def u64Max : ℕ := 2 ^ 64 - 1

def checkFreshness (tsMillis nowSecs maxAgeSecs : ℕ) : Except String Unit :=
  let tsSecs := tsMillis / 1000
  let age := nowSecs - tsSecs
  if min (nowSecs + clockSkewSecs) u64Max < tsSecs then
    .error s!"attestation timestamp {tsSecs}s is in the future (now {nowSecs}s)"
  else if maxAgeSecs < age then
    .error s!"attestation is stale: age {age}s exceeds max_age {maxAgeSecs}s"
  else .ok ()

def checkMaxAge (doc : AttestationDoc) (now : ℕ) : Option ℕ → Except String Unit
  | some maxAge => checkFreshness doc.timestamp now maxAge
  | none => .ok ()

/-! ### Signatures -/

/-- A DER length at the head of the bytes, with what follows it. -/
def readDerLen : List UInt8 → Except String (ℕ × List UInt8)
  | [] => .error "truncated length"
  | first :: rest =>
    if first < 0x80 then .ok (first.toNat, rest)
    else
      let n := (first &&& 0x7f).toNat
      if n = 0 ∨ 4 < n then .error "unsupported DER length form"
      else if rest.length < n then .error "truncated length bytes"
      else .ok (beNat (rest.take n), rest.drop n)

/-- One leading zero byte is the sign of a longer number. -/
def stripSignByte : List UInt8 → List UInt8
  | 0 :: b :: rest => b :: rest
  | bytes => bytes

/-- An INTEGER within the first `limit` bytes; what follows it, and the room left. -/
def readDerInt (limit : ℕ) : List UInt8 → Except String (List UInt8 × ℕ × List UInt8)
  | 0x02 :: rest => do
    let (len, body) ← readDerLen rest
    let used := (rest.length + 1 - body.length) + len
    if limit < used then .error "INTEGER overruns SEQUENCE"
    else .ok (stripSignByte (body.take len), limit - used, body.drop len)
  | _ => .error "expected DER INTEGER"

def leftPad (width : ℕ) (src : List UInt8) : Except String (List UInt8) :=
  if width < src.length then .error "integer wider than field"
  else .ok (List.replicate (width - src.length) 0 ++ src)

def ecdsaDerToFixed : List UInt8 → Except String (List UInt8)
  | 0x30 :: rest => do
    let (seqLen, body) ← readDerLen rest
    if body.length < seqLen then .error "SEQUENCE overruns buffer"
    else do
      let (r, room, afterR) ← readDerInt seqLen body
      let (s, _, _) ← readDerInt room afterR
      let r ← leftPad 48 r
      let s ← leftPad 48 s
      .ok (r ++ s)
  | _ => .error "expected DER SEQUENCE"

variable (crypto : Crypto)

def verifyEs384 (pubkey message sig : List UInt8) : Except String Unit := do
  if sig.length ≠ 96 then .error s!"signature length {sig.length} != 96"
  else do
    (crypto.fromSec1Bytes pubkey).mapError fun e => s!"invalid P-384 public key: {e}"
    (crypto.signatureFromSlice sig).mapError fun e => s!"malformed P-384 signature: {e}"
    (crypto.verify pubkey message sig).mapError fun e => s!"verification failed: {e}"

/-! ### The certificate chain -/

def checkValidity (cert : Certificate) (now i : ℕ) : Except String Unit :=
  if now < cert.notBefore then .error s!"cert[{i}] not valid yet (notBefore {cert.notBefore})"
  else if cert.notAfter < now then .error s!"cert[{i}] expired (notAfter {cert.notAfter})"
  else .ok ()

/-- An issuer is a CA, and may sign certificates if it states what its key is for. -/
def requireCa (cert : Certificate) (i : ℕ) : Except String Unit := do
  let constraints ← cert.basicConstraintsCa.mapError fun e =>
    s!"cert[{i}] basicConstraints decode: {e}"
  if constraints ≠ some true then
    .error s!"cert[{i}] is not a CA (basicConstraints CA:TRUE required)"
  else do
    let usage ← cert.keyUsageCertSign.mapError fun e => s!"cert[{i}] keyUsage decode: {e}"
    if usage = some false then .error s!"cert[{i}] keyUsage lacks keyCertSign" else .ok ()

def checkIssued (parent : List UInt8) (cert : Certificate) (i : ℕ) : Except String Unit := do
  let tbs ← cert.tbsDer.mapError fun e => s!"cert[{i}] tbs re-encode: {e}"
  let sig ← (ecdsaDerToFixed cert.signature).mapError fun e => s!"cert[{i}] signature: {e}"
  (verifyEs384 crypto parent tbs sig).mapError fun e => s!"cert[{i}] signature invalid: {e}"

/-- The last certificate signs nothing and need not be a CA. -/
def checkRole (chainLen i : ℕ) (cert : Certificate) : Except String Unit :=
  if i + 1 < chainLen then requireCa cert i else .ok ()

def checkIssuer (i : ℕ) (cert : Certificate) : Option (List UInt8) → Except String Unit
  | some parent => checkIssued crypto parent cert i
  | none => .ok ()

/-- The loop over the chain, with the index, the key of the certificate before and the last
key seen. -/
def walkChain (now chainLen : ℕ) : ℕ → Option (List UInt8) → List UInt8 → List (List UInt8) →
    Except String (List UInt8)
  | _, _, leafPubkey, [] => .ok leafPubkey
  | i, issuerPubkey, _, certDer :: rest => do
    let cert ← (crypto.fromDer certDer).mapError fun e => s!"cert[{i}] parse: {e}"
    checkValidity cert now i
    checkRole chainLen i cert
    checkIssuer crypto i cert issuerPubkey
    walkChain now chainLen (i + 1) (some cert.publicKey) cert.publicKey rest

def verifyCertChain (doc : AttestationDoc) (now : ℕ) (pinnedRootDer : List UInt8) :
    Except String (List UInt8) :=
  match doc.cabundle with
  | [] => .error "empty cabundle"
  | root :: _ =>
    if root ≠ pinnedRootDer then
      .error "cabundle root does not match the pinned AWS Nitro root"
    else
      let chain := doc.cabundle ++ [doc.certificate]
      walkChain crypto now chain.length 0 none [] chain

/-! ### The signed structure -/

/-- The protected header has to be a map that names ES384. -/
def checkHeader : CborValue → Except String Unit
  | .map entries =>
    match (entries.find? fun e => e.1.isInteger 1).map Prod.snd with
    | some (.integer alg) =>
      if alg = coseAlgEs384 then .ok () else .error "protected header algorithm is not ES384"
    | _ => .error "protected header algorithm is not ES384"
  | _ => .error "protected header is not a map"

def asBytes (v : CborValue) (fault : String) : Except String (List UInt8) :=
  match v with
  | .bytes b => .ok b
  | _ => .error fault

def checkUnprotected : CborValue → Except String Unit
  | .map [] => .ok ()
  | _ => .error "COSE unprotected header must be an empty map"

def coseParts (cose : List UInt8) :
    Except String (List UInt8 × List UInt8 × List UInt8) := do
  let outer ← (crypto.decodeCbor cose).mapError fun e => s!"COSE decode: {e}"
  match outer with
  | .array [first, second, third, last] => do
    let protectedHeader ← asBytes first "COSE protected header is not bytes"
    checkUnprotected second
    let payload ← asBytes third "COSE payload is not bytes"
    let signature ← asBytes last "COSE signature is not bytes"
    let header ← (crypto.decodeCbor protectedHeader).mapError fun e =>
      s!"protected header decode: {e}"
    checkHeader header
    .ok (protectedHeader, payload, signature)
  | _ => .error "COSE_Sign1 is not a 4-element array"

/-- The head of a CBOR item: the major type in the top three bits, then the length in the
shortest form. -/
def cborHead (major : ℕ) (n : ℕ) : List UInt8 :=
  if n < 24 then [UInt8.ofNat (major * 32 + n)]
  else if n < 256 then UInt8.ofNat (major * 32 + 24) :: beBytes 1 n
  else if n < 65536 then UInt8.ofNat (major * 32 + 25) :: beBytes 2 n
  else if n < 4294967296 then UInt8.ofNat (major * 32 + 26) :: beBytes 4 n
  else UInt8.ofNat (major * 32 + 27) :: beBytes 8 n

def cborBytes (b : List UInt8) : List UInt8 := cborHead 2 b.length ++ b

def cborText (s : String) : List UInt8 := cborHead 3 (utf8 s).length ++ utf8 s

/-- The array of the context, the protected header, no external data, and the payload. -/
def sigStructure (protectedHeader payload : List UInt8) : List UInt8 :=
  cborHead 4 4 ++ cborText "Signature1" ++ cborBytes protectedHeader ++ cborBytes [] ++
    cborBytes payload

/-- The length in a head, and what follows the head. -/
def readHead : List UInt8 → Option (ℕ × List UInt8)
  | [] => none
  | b :: rest =>
    let short := b.toNat % 32
    if short < 24 then some (short, rest)
    else some (beNat (rest.take (2 ^ (short - 24))), rest.drop (2 ^ (short - 24)))

/-- A head whose length stands in the `2 ^ k` bytes after it. -/
theorem readHead_long {major k n : ℕ} (hk : k < 4) (hn : n < 256 ^ 2 ^ k) (x : List UInt8) :
    readHead (UInt8.ofNat (major * 32 + (24 + k)) :: beBytes (2 ^ k) n ++ x) = some (n, x) := by
  have hshort : (UInt8.ofNat (major * 32 + (24 + k))).toNat % 32 = 24 + k := by
    rw [UInt8.toNat_ofNat']
    omega
  have hwidth : 24 + k - 24 = k := by omega
  rw [List.cons_append, readHead]
  simp only [hshort]
  rw [if_neg (by omega), hwidth, List.take_left' (length_beBytes _ _),
    List.drop_left' (length_beBytes _ _), beNat_beBytes hn]

theorem readHead_cborHead {major n : ℕ} (hn : n < 256 ^ 8) (x : List UInt8) :
    readHead (cborHead major n ++ x) = some (n, x) := by
  unfold cborHead
  split
  · rename_i hshort
    have hvalue : (UInt8.ofNat (major * 32 + n)).toNat % 32 = n := by
      rw [UInt8.toNat_ofNat']
      omega
    rw [List.cons_append, readHead]
    simp only [hvalue, if_pos hshort, List.nil_append]
  · split
    · exact readHead_long (k := 0) (by decide) (by omega) x
    · split
      · exact readHead_long (k := 1) (by decide) (by omega) x
      · split
        · exact readHead_long (k := 2) (by decide) (by omega) x
        · exact readHead_long (k := 3) (by decide) hn x

/-- A byte string can be cancelled from the front of a longer encoding. -/
theorem delimits_cborBytes : Delimits cborBytes (fun b => b.length < 256 ^ 8) := by
  intro a b rest rest' ha hb h
  rw [cborBytes, cborBytes, List.append_assoc, List.append_assoc] at h
  have hread := congrArg readHead h
  rw [readHead_cborHead ha, readHead_cborHead hb, Option.some.injEq, Prod.mk.injEq] at hread
  exact List.append_inj hread.2 hread.1

/-- The signed structure determines the protected header and the payload. -/
theorem sigStructure_inj {p p' m m' : List UInt8} (hp : p.length < 256 ^ 8)
    (hp' : p'.length < 256 ^ 8) (hm : m.length < 256 ^ 8) (hm' : m'.length < 256 ^ 8)
    (h : sigStructure p m = sigStructure p' m') : p = p' ∧ m = m' := by
  simp only [sigStructure, List.append_assoc, List.append_cancel_left_eq] at h
  obtain ⟨hheader, htail⟩ := delimits_cborBytes hp hp' h
  have hrest := List.append_cancel_left htail
  rw [← List.append_nil (cborBytes m), ← List.append_nil (cborBytes m')] at hrest
  exact ⟨hheader, (delimits_cborBytes hm hm' hrest).1⟩

/-! ### The whole check -/

def ethAddress (publicKey : List UInt8) : Except String (List UInt8) :=
  if publicKey.length ≠ 65 ∨ publicKey.head? ≠ some 4 then
    .error "public_key is not a 65-byte uncompressed point"
  else .ok ((crypto.keccak256 publicKey.tail).val.drop 12)

def pcrArray (doc : AttestationDoc) (index : ℕ) : Except String (Bytes 48) := do
  let pcr ← okOr (doc.pcr index) s!"missing PCR{index}"
  okOr (toFixed 48 pcr) s!"PCR{index} is not {pcrLen} bytes"

def verifyWithRoot (docBytes : List UInt8) (now : ℕ) (maxAge : Option ℕ)
    (expectedNonce : Option (List UInt8)) (pinnedRootDer : List UInt8) :
    Except String VerifiedAttestation := do
  let doc ← parseAttestationDoc crypto.decodeCbor docBytes
  semanticChecks doc expectedNonce
  checkMaxAge doc now maxAge
  let leafPubkey ← verifyCertChain crypto doc now pinnedRootDer
  let (protectedHeader, payload, signature) ← coseParts crypto docBytes
  (verifyEs384 crypto leafPubkey (sigStructure protectedHeader payload) signature).mapError
    fun e => s!"COSE signature invalid: {e}"
  let publicKey ← okOr doc.publicKey "signer document has no public_key"
  let enclaveSigner ← ethAddress crypto publicKey
  let pcr0 ← pcrArray doc 0
  let pcr1 ← pcrArray doc 1
  let pcr2 ← pcrArray doc 2
  .ok
    { pcr0 := pcr0, pcr1 := pcr1, pcr2 := pcr2, enclaveSigner := enclaveSigner
      publicKey := publicKey, timestamp := doc.timestamp }

/-! ### What success says -/

variable {crypto}

/-- The signature has the right width and the library accepts it. -/
structure Crypto.Accepts (crypto : Crypto) (pubkey message sig : List UInt8) : Prop where
  width : sig.length = 96
  point : crypto.fromSec1Bytes pubkey = .ok ()
  scalars : crypto.signatureFromSlice sig = .ok ()
  verified : crypto.verify pubkey message sig = .ok ()

theorem verifyEs384_eq_ok {pubkey message sig : List UInt8}
    (h : verifyEs384 crypto pubkey message sig = .ok ()) : crypto.Accepts pubkey message sig := by
  unfold verifyEs384 at h
  split at h
  · cases h
  · rename_i hwidth
    obtain ⟨_, hpoint, h⟩ := bind_eq_ok.mp h
    obtain ⟨_, hscalars, h⟩ := bind_eq_ok.mp h
    exact ⟨Decidable.not_not.mp hwidth, mapError_eq_ok.mp hpoint, mapError_eq_ok.mp hscalars,
      mapError_eq_ok.mp h⟩

/-- The certificate is a CA, and its key may sign certificates if it says what it is for. -/
structure IsCa (cert : Certificate) : Prop where
  constraints : cert.basicConstraintsCa = .ok (some true)
  usage : cert.keyUsageCertSign = .ok none ∨ cert.keyUsageCertSign = .ok (some true)

theorem requireCa_eq_ok {cert : Certificate} {i : ℕ} (h : requireCa cert i = .ok ()) :
    IsCa cert := by
  obtain ⟨constraints, hconstraints, h⟩ := bind_eq_ok.mp h
  split at h
  · cases h
  · rename_i htrue
    rw [Decidable.not_not.mp htrue] at hconstraints
    obtain ⟨usage, husage, h⟩ := bind_eq_ok.mp h
    refine ⟨mapError_eq_ok.mp hconstraints, ?_⟩
    have husage := mapError_eq_ok.mp husage
    cases usage with
    | none => exact .inl husage
    | some sign =>
      cases sign with
      | true => exact .inr husage
      | false => cases h

/-- The body of the certificate carries a signature under the key. -/
def SignedUnder (crypto : Crypto) (pubkey : List UInt8) (cert : Certificate) : Prop :=
  ∃ tbs sig, cert.tbsDer = .ok tbs ∧ ecdsaDerToFixed cert.signature = .ok sig ∧
    crypto.Accepts pubkey tbs sig

theorem checkIssuer_eq_ok {i : ℕ} {cert : Certificate} {issuer : Option (List UInt8)}
    (h : checkIssuer crypto i cert issuer = .ok ()) {parent : List UInt8}
    (hparent : issuer = some parent) : SignedUnder crypto parent cert := by
  subst hparent
  obtain ⟨tbs, htbs, h⟩ := bind_eq_ok.mp h
  obtain ⟨sig, hsig, h⟩ := bind_eq_ok.mp h
  exact ⟨tbs, sig, mapError_eq_ok.mp htbs, mapError_eq_ok.mp hsig,
    verifyEs384_eq_ok (mapError_eq_ok.mp h)⟩

theorem checkValidity_eq_ok {cert : Certificate} {now i : ℕ}
    (h : checkValidity cert now i = .ok ()) : cert.notBefore ≤ now ∧ now ≤ cert.notAfter := by
  unfold checkValidity at h
  split at h
  · cases h
  · split at h
    · cases h
    · omega

/-- The certificates of a chain, root first: each is valid at the clock, each but the last is
a CA, and each after the first is signed under the key of the one before it. -/
structure TrustedChain (crypto : Crypto) (now : ℕ) (ders : List (List UInt8))
    (certs : List Certificate) : Prop where
  parsed : List.Forall₂ (fun der cert => crypto.fromDer der = .ok cert) ders certs
  valid : ∀ cert ∈ certs, cert.notBefore ≤ now ∧ now ≤ cert.notAfter
  issuers : ∀ cert ∈ certs.dropLast, IsCa cert
  signed : certs.IsChain fun issuer cert => SignedUnder crypto issuer.publicKey cert

/-- What the walk has checked, from any point of the chain on. -/
theorem walkChain_eq_ok {now chainLen i : ℕ} {issuer : Option (List UInt8)}
    {leaf key : List UInt8} {chain : List (List UInt8)} (hlen : i + chain.length = chainLen)
    (h : walkChain crypto now chainLen i issuer leaf chain = .ok key) :
    ∃ certs, TrustedChain crypto now chain certs ∧
      (∀ parent, issuer = some parent → ∀ cert ∈ certs.head?, SignedUnder crypto parent cert) ∧
      (certs.getLast?.map Certificate.publicKey).getD leaf = key := by
  induction chain generalizing i issuer leaf with
  | nil =>
    cases h
    exact ⟨[], ⟨.nil, nofun, nofun, .nil⟩, nofun, rfl⟩
  | cons der rest ih =>
    obtain ⟨cert, hcert, h⟩ := bind_eq_ok.mp h
    obtain ⟨_, hvalid, h⟩ := bind_eq_ok.mp h
    obtain ⟨_, hrole, h⟩ := bind_eq_ok.mp h
    obtain ⟨_, hissuer, h⟩ := bind_eq_ok.mp h
    rw [List.length_cons] at hlen
    obtain ⟨certs, trusted, hnext, hkey⟩ := ih (by omega) h
    have hsame := trusted.parsed.length_eq
    refine ⟨cert :: certs, ⟨.cons (mapError_eq_ok.mp hcert) trusted.parsed, ?_, ?_, ?_⟩, ?_, ?_⟩
    · intro c hc
      cases hc with
      | head => exact checkValidity_eq_ok hvalid
      | tail _ hc => exact trusted.valid c hc
    · cases certs with
      | nil => nofun
      | cons next certs =>
        -- A certificate follows, so the index is not the last one and the role was checked.
        rw [List.length_cons] at hsame
        rw [checkRole, if_pos (by omega)] at hrole
        intro c hc
        rw [List.dropLast_cons_cons] at hc
        cases hc with
        | head => exact requireCa_eq_ok hrole
        | tail _ hc => exact trusted.issuers c hc
    · exact List.isChain_cons.mpr ⟨hnext cert.publicKey rfl, trusted.signed⟩
    · intro parent hparent c hc
      cases hc
      exact checkIssuer_eq_ok hissuer hparent
    · cases certs with
      | nil => exact hkey
      | cons next certs => exact hkey

/-- The last certificate is parsed from the last entry of the chain. -/
theorem leaf_parsed {ders : List (List UInt8)} {der : List UInt8} {certs : List Certificate}
    (h : List.Forall₂ (fun der cert => crypto.fromDer der = .ok cert) (ders ++ [der]) certs) :
    ∃ leaf, certs.getLast? = some leaf ∧ crypto.fromDer der = .ok leaf := by
  induction ders generalizing certs with
  | nil =>
    obtain ⟨leaf, rest, hleaf, hrest, rfl⟩ := List.forall₂_cons_left_iff.mp h
    rw [List.forall₂_nil_left_iff.mp hrest]
    exact ⟨leaf, rfl, hleaf⟩
  | cons first ders ih =>
    obtain ⟨cert, rest, -, hrest, rfl⟩ := List.forall₂_cons_left_iff.mp h
    obtain ⟨leaf, hlast, hleaf⟩ := ih hrest
    refine ⟨leaf, ?_, hleaf⟩
    rw [List.getLast?_cons, hlast]
    rfl

theorem verifyCertChain_eq_ok {doc : AttestationDoc} {now : ℕ} {root key : List UInt8}
    (h : verifyCertChain crypto doc now root = .ok key) :
    doc.cabundle.head? = some root ∧
      ∃ certs leaf, TrustedChain crypto now (doc.cabundle ++ [doc.certificate]) certs ∧
        certs.getLast? = some leaf ∧ crypto.fromDer doc.certificate = .ok leaf ∧
        leaf.publicKey = key := by
  unfold verifyCertChain at h
  split at h
  · cases h
  · rename_i first rest hbundle
    split at h
    · cases h
    · rename_i hroot
      obtain ⟨certs, trusted, -, hkey⟩ := walkChain_eq_ok (Nat.zero_add _) h
      obtain ⟨leaf, hlast, hleaf⟩ := leaf_parsed trusted.parsed
      rw [hlast] at hkey
      rw [hbundle, Decidable.not_not.mp hroot] at *
      exact ⟨rfl, certs, leaf, trusted, hlast, hleaf, hkey⟩

theorem asBytes_eq_ok {v : CborValue} {fault : String} {b : List UInt8}
    (h : asBytes v fault = .ok b) : v = .bytes b := by
  unfold asBytes at h
  split at h
  · cases h
    rfl
  · cases h

theorem checkUnprotected_eq_ok {v : CborValue} (h : checkUnprotected v = .ok ()) :
    v = .map [] := by
  unfold checkUnprotected at h
  split at h
  · rfl
  · cases h

theorem coseParts_eq_ok {cose protectedHeader payload signature : List UInt8}
    (h : coseParts crypto cose = .ok (protectedHeader, payload, signature)) :
    crypto.decodeCbor cose =
      .ok (.array [.bytes protectedHeader, .map [], .bytes payload, .bytes signature]) := by
  obtain ⟨outer, houter, h⟩ := bind_eq_ok.mp h
  split at h
  · rename_i first second third last
    obtain ⟨p, hp, h⟩ := bind_eq_ok.mp h
    obtain ⟨_, hsecond, h⟩ := bind_eq_ok.mp h
    obtain ⟨m, hm, h⟩ := bind_eq_ok.mp h
    obtain ⟨sig, hsig, h⟩ := bind_eq_ok.mp h
    obtain ⟨_, _, h⟩ := bind_eq_ok.mp h
    obtain ⟨_, _, h⟩ := bind_eq_ok.mp h
    cases h
    rw [mapError_eq_ok.mp houter, asBytes_eq_ok hp, checkUnprotected_eq_ok hsecond,
      asBytes_eq_ok hm, asBytes_eq_ok hsig]
  · cases h

theorem checkExpectedNonce_eq_ok {doc : AttestationDoc} {nonce : List UInt8}
    (h : checkExpectedNonce doc (some nonce) = .ok ()) : doc.nonce = some nonce := by
  rw [checkExpectedNonce] at h
  split at h
  · rename_i n hn
    split at h
    · rename_i heq
      rw [hn, AttestedExchange.ctEq_eq_true.mp heq]
    · cases h
  · cases h

theorem semanticChecks_nonce {doc : AttestationDoc} {expectedNonce : Option (List UInt8)}
    (h : semanticChecks doc expectedNonce = .ok ()) {nonce : List UInt8}
    (hnonce : expectedNonce = some nonce) : doc.nonce = some nonce := by
  subst hnonce
  unfold semanticChecks at h
  split at h
  · cases h
  · obtain ⟨_, _, h⟩ := bind_eq_ok.mp h
    obtain ⟨_, _, h⟩ := bind_eq_ok.mp h
    obtain ⟨_, _, h⟩ := bind_eq_ok.mp h
    obtain ⟨_, _, h⟩ := bind_eq_ok.mp h
    exact checkExpectedNonce_eq_ok h

theorem checkMaxAge_eq_ok {doc : AttestationDoc} {now : ℕ} {maxAge : Option ℕ}
    (h : checkMaxAge doc now maxAge = .ok ()) {age : ℕ} (hage : maxAge = some age) :
    now - age ≤ doc.timestamp / 1000 ∧ doc.timestamp / 1000 ≤ now + clockSkewSecs := by
  subst hage
  unfold checkMaxAge checkFreshness at h
  dsimp only at h
  split at h
  · cases h
  · split at h
    · cases h
    · omega

theorem pcrArray_eq_ok {doc : AttestationDoc} {index : ℕ} {pcr : Bytes 48}
    (h : pcrArray doc index = .ok pcr) : doc.pcr index = some pcr.val := by
  obtain ⟨bytes, hbytes, h⟩ := bind_eq_ok.mp h
  rw [okOr_eq_ok.mp hbytes, toFixed_eq_some.mp (okOr_eq_ok.mp h)]

/-- The checks behind a success, all on the one document. -/
theorem verifyWithRoot_eq_ok {docBytes : List UInt8} {now : ℕ} {maxAge : Option ℕ}
    {expectedNonce : Option (List UInt8)} {root : List UInt8} {v : VerifiedAttestation}
    (h : verifyWithRoot crypto docBytes now maxAge expectedNonce root = .ok v) :
    ∃ doc, parseAttestationDoc crypto.decodeCbor docBytes = .ok doc ∧
      semanticChecks doc expectedNonce = .ok () ∧ checkMaxAge doc now maxAge = .ok () ∧
      (doc.pcr 0 = some v.pcr0.val ∧ doc.pcr 1 = some v.pcr1.val ∧ doc.pcr 2 = some v.pcr2.val ∧
        doc.publicKey = some v.publicKey ∧ doc.timestamp = v.timestamp) ∧
      ∃ key protectedHeader payload signature,
        verifyCertChain crypto doc now root = .ok key ∧
        coseParts crypto docBytes = .ok (protectedHeader, payload, signature) ∧
        crypto.Accepts key (sigStructure protectedHeader payload) signature := by
  obtain ⟨doc, hdoc, h⟩ := bind_eq_ok.mp h
  obtain ⟨_, hsemantic, h⟩ := bind_eq_ok.mp h
  obtain ⟨_, hfresh, h⟩ := bind_eq_ok.mp h
  obtain ⟨key, hchain, h⟩ := bind_eq_ok.mp h
  obtain ⟨⟨protectedHeader, payload, signature⟩, hparts, h⟩ := bind_eq_ok.mp h
  obtain ⟨_, hsigned, h⟩ := bind_eq_ok.mp h
  obtain ⟨publicKey, hpublic, h⟩ := bind_eq_ok.mp h
  obtain ⟨_, _, h⟩ := bind_eq_ok.mp h
  obtain ⟨pcr0, hpcr0, h⟩ := bind_eq_ok.mp h
  obtain ⟨pcr1, hpcr1, h⟩ := bind_eq_ok.mp h
  obtain ⟨pcr2, hpcr2, h⟩ := bind_eq_ok.mp h
  cases h
  refine ⟨doc, hdoc, hsemantic, hfresh, ?_, key, protectedHeader, payload, signature, hchain,
    hparts, verifyEs384_eq_ok (mapError_eq_ok.mp hsigned)⟩
  exact ⟨pcrArray_eq_ok hpcr0, pcrArray_eq_ok hpcr1, pcrArray_eq_ok hpcr2, okOr_eq_ok.mp hpublic,
    rfl⟩

/-- Both decodings of the document start from the same bytes, so the payload that is signed is
the one the fields are read from. -/
theorem signed_payload {docBytes protectedHeader payload signature : List UInt8}
    {doc : AttestationDoc} (hdoc : parseAttestationDoc crypto.decodeCbor docBytes = .ok doc)
    (hparts : coseParts crypto docBytes = .ok (protectedHeader, payload, signature)) :
    parsePayload crypto.decodeCbor payload = .ok doc := by
  obtain ⟨first, second, payload', last, houter, hpayload⟩ := parseAttestationDoc_eq_ok hdoc
  have hcose := coseParts_eq_ok hparts
  rw [houter] at hcose
  cases hcose
  exact hpayload

/-- A verified attestation was signed by the leaf of a trusted chain from the pinned root, over
the very payload its registers, key and time were decoded from; it answers the expected nonce
and is as fresh as was asked for. -/
theorem verifyWithRoot_sound {docBytes : List UInt8} {now : ℕ} {maxAge : Option ℕ}
    {expectedNonce : Option (List UInt8)} {root : List UInt8} {v : VerifiedAttestation}
    (h : verifyWithRoot crypto docBytes now maxAge expectedNonce root = .ok v) :
    ∃ protectedHeader payload signature doc certs leaf,
      crypto.decodeCbor docBytes =
        .ok (.array [.bytes protectedHeader, .map [], .bytes payload, .bytes signature]) ∧
      parsePayload crypto.decodeCbor payload = .ok doc ∧
      doc.pcr 0 = some v.pcr0.val ∧ doc.pcr 1 = some v.pcr1.val ∧ doc.pcr 2 = some v.pcr2.val ∧
      doc.publicKey = some v.publicKey ∧ doc.timestamp = v.timestamp ∧
      doc.cabundle.head? = some root ∧
      TrustedChain crypto now (doc.cabundle ++ [doc.certificate]) certs ∧
      certs.getLast? = some leaf ∧ crypto.fromDer doc.certificate = .ok leaf ∧
      crypto.Accepts leaf.publicKey (sigStructure protectedHeader payload) signature ∧
      (∀ nonce, expectedNonce = some nonce → doc.nonce = some nonce) ∧
      ∀ age, maxAge = some age →
        now - age ≤ v.timestamp / 1000 ∧ v.timestamp / 1000 ≤ now + clockSkewSecs := by
  obtain ⟨doc, hdoc, hsemantic, hfresh, ⟨hpcr0, hpcr1, hpcr2, hpublic, htime⟩, key,
    protectedHeader, payload, signature, hchain, hparts, accepts⟩ := verifyWithRoot_eq_ok h
  obtain ⟨hroot, certs, leaf, trusted, hlast, hleaf, rfl⟩ := verifyCertChain_eq_ok hchain
  refine ⟨protectedHeader, payload, signature, doc, certs, leaf, coseParts_eq_ok hparts,
    signed_payload hdoc hparts, hpcr0, hpcr1, hpcr2, hpublic, htime, hroot, trusted, hlast, hleaf,
    accepts, fun nonce => semanticChecks_nonce hsemantic, ?_⟩
  intro age hage
  rw [← htime]
  exact checkMaxAge_eq_ok hfresh hage

/-! ### A document that verifies -/

def demoPayload : CborMap :=
  [(.text "module_id", .text "i-0"), (.text "digest", .text "SHA384"),
    (.text "timestamp", .integer 1000000),
    (.text "pcrs", .map
      [(.integer 0, .bytes (filled 48 1).val), (.integer 1, .bytes (filled 48 2).val),
        (.integer 2, .bytes (filled 48 3).val)]),
    (.text "certificate", .bytes [11]), (.text "cabundle", .array [.bytes [10]]),
    (.text "public_key", .bytes (4 :: (filled 64 5).val)), (.text "nonce", .bytes [7])]

def demoCertificate (ca : Bool) : Certificate where
  notBefore := 900
  notAfter := 1100
  basicConstraintsCa := .ok (some ca)
  keyUsageCertSign := .ok none
  tbsDer := .ok [9]
  signature := [0x30, 6, 2, 1, 1, 2, 1, 1]
  publicKey := [12]

/-- The outer array is read from `[0]`, the protected header from `[1]`, the payload from `[2]`. -/
def demoCrypto : Crypto where
  decodeCbor
    | [0] => .ok (.array [.bytes [1], .map [], .bytes [2], .bytes (filled 96 0).val])
    | [1] => .ok (.map [(.integer 1, .integer (-35))])
    | [2] => .ok (.map demoPayload)
    | _ => .error "unexpected bytes"
  fromDer
    | [10] => .ok (demoCertificate true)
    | [11] => .ok (demoCertificate false)
    | _ => .error "unexpected certificate"
  fromSec1Bytes := fun _ => .ok ()
  signatureFromSlice := fun _ => .ok ()
  verify := fun _ _ _ => .ok ()
  keccak256 := fun _ => filled 32 6

def demoVerified : VerifiedAttestation where
  pcr0 := filled 48 1
  pcr1 := filled 48 2
  pcr2 := filled 48 3
  enclaveSigner := (filled 20 6).val
  publicKey := 4 :: (filled 64 5).val
  timestamp := 1000000

theorem demo_verifies :
    verifyWithRoot demoCrypto [0] 1000 (some 60) (some [7]) [10] = .ok demoVerified := by
  decide +kernel

theorem verifyWithRoot_sound_demo :
    ∃ doc certs leaf, parsePayload demoCrypto.decodeCbor [2] = .ok doc ∧
      doc.pcr 0 = some (filled 48 1).val ∧ doc.cabundle.head? = some [10] ∧
      TrustedChain demoCrypto 1000 (doc.cabundle ++ [doc.certificate]) certs ∧
      certs.getLast? = some leaf ∧
      demoCrypto.Accepts leaf.publicKey (sigStructure [1] [2]) (filled 96 0).val ∧
      doc.nonce = some [7] ∧ 1000 - 60 ≤ demoVerified.timestamp / 1000 := by
  obtain ⟨protectedHeader, payload, signature, doc, certs, leaf, houter, hdoc, hpcr0, -, -, -, -,
    hroot, trusted, hlast, -, accepts, hnonce, hage⟩ := verifyWithRoot_sound demo_verifies
  cases houter
  exact ⟨doc, certs, leaf, hdoc, hpcr0, hroot, trusted, hlast, accepts, hnonce [7] rfl,
    (hage 60 rfl).1⟩

/-! ### The verifier of a handover peer -/

/-- The nonce pins the freshness, so no age is asked for; the document is read once more for
the nonce itself. -/
def nsmPeerVerifier (crypto : Crypto) (pinnedRootDer : List UInt8) (now : ℕ) (doc : List UInt8)
    (myNonce : Bytes 32) : Option AttestedExchange.VerifiedPeer := do
  let verified ← (verifyWithRoot crypto doc now none (some myNonce.val) pinnedRootDer).toOption
  let parsed ← (parseAttestationDoc crypto.decodeCbor doc).toOption
  some ⟨verified.pcr0, parsed.nonce, verified.publicKey⟩

end Nuntius.AttestationVerify
