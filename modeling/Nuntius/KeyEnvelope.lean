import Nuntius.BerValues

/-!
# The envelope around a sealed key

The key service answers a decryption request with a CMS `EnvelopedData`: a content key, wrapped for
the enclave's ephemeral RSA key, and the sealed key encrypted under it. The parser accepts exactly
the envelopes for one recipient, in any segmentation, and the key that comes out is the one that
went in.

The readers of BER values, the checks of numbers and object identifiers, RSA-OAEP and AES-CBC with
its padding are those of the crates. They are parameters, with what their documentation says of
them.
-/

namespace Nuntius.KeyEnvelope
open BerValues WireFormat

/-- What the code takes from `bcder`, with the values each reader accepts. -/
structure Bcder where
  decode : List UInt8 → Option Value
  u8FromPrimitive : List UInt8 → Option UInt8
  oidFromPrimitive : List UInt8 → Option (List UInt8)
  fromContent : Value → Option (List UInt8)
  takeConstructedIf : {α : Type} → Tag → Reader α → Reader α
  takePrimitiveIf : {α : Type} → Tag → (List UInt8 → Option α) → Reader α
  takeValueIf : {α : Type} → Tag → (Value → Option α) → Reader α
  takeOptValueIf : {α : Type} → Tag → (Value → Option α) → Reader (Option α)
  takeOptConstructedIf : {α : Type} → Tag → Reader α → Reader (Option α)
  captureOne : Reader Value
  skipOne : Reader Bool
  skipAll : Reader Unit
  malformed : String
  oidFromPrimitive_eq : ∀ {octets oid}, oidFromPrimitive octets = some oid → oid = octets
  fromContent_eq : ∀ v, fromContent v = octetsOf v
  takeConstructedIf_ok : ∀ {α : Type} {tag : Tag} {op : Reader α} {values rest : List Value}
    {a : α}, takeConstructedIf tag op values = .ok (a, rest) ↔
      ∃ inner, values = .constructed tag inner :: rest ∧ op inner = .ok (a, [])
  takePrimitiveIf_ok : ∀ {α : Type} {tag : Tag} {op : List UInt8 → Option α}
    {values rest : List Value} {a : α}, takePrimitiveIf tag op values = .ok (a, rest) ↔
      ∃ octets, values = .primitive tag octets :: rest ∧ op octets = some a
  takeValueIf_ok : ∀ {α : Type} {tag : Tag} {op : Value → Option α} {values rest : List Value}
    {a : α}, takeValueIf tag op values = .ok (a, rest) ↔
      ∃ v, values = v :: rest ∧ v.tag = tag ∧ op v = some a
  takeOptValueIf_some : ∀ {α : Type} {tag : Tag} {op : Value → Option α} {values rest : List Value}
    {a : α}, takeOptValueIf tag op values = .ok (some a, rest) ↔
      ∃ v, values = v :: rest ∧ v.tag = tag ∧ op v = some a
  takeOptConstructedIf_skip : ∀ {tag : Tag} {values rest : List Value} {o : Option Unit},
    Apart tag rest → (takeOptConstructedIf tag skipAll values = .ok (o, rest) ↔
      ∃ part, values = part ++ rest ∧ Optional tag part ∧ o = part.head?.map fun _ => ())
  captureOne_ok : ∀ {v : Value} {values rest : List Value},
    captureOne values = .ok (v, rest) ↔ values = v :: rest
  skipOne_false : ∀ {values rest : List Value},
    skipOne values = .ok (false, rest) ↔ values = [] ∧ rest = []

/-- The other crates: decryption accepts exactly the encryptions of padded messages. -/
structure Crates extends Bcder where
  oaepDecrypt : List UInt8 → Except String (List UInt8)
  encryptPadded : Bytes 32 → Bytes 16 → List UInt8 → List UInt8
  decryptPadded : Bytes 32 → Bytes 16 → List UInt8 → Option (List UInt8)
  unpadError : String
  decryptPadded_eq_some : ∀ {cek iv content message},
    decryptPadded cek iv content = some message ↔ content = encryptPadded cek iv message

def oidEnvelopedData : List UInt8 := [0x2a, 0x86, 0x48, 0x86, 0xf7, 0x0d, 0x01, 0x07, 0x03]

def oidAes256Cbc : List UInt8 := [0x60, 0x86, 0x48, 0x01, 0x65, 0x03, 0x04, 0x01, 0x2a]

structure EnvelopedFields where
  wrappedCek : List UInt8
  iv : List UInt8
  encryptedContent : List UInt8
  deriving DecidableEq

structure EncryptedContent where
  iv : List UInt8
  encryptedContent : List UInt8
  deriving DecidableEq

section Parser
variable (C : Crates)

def takeU8 : Reader UInt8 := C.takePrimitiveIf Tag.integer C.u8FromPrimitive

def takeOid : Reader (List UInt8) := C.takePrimitiveIf Tag.oid C.oidFromPrimitive

def takeSequence {α : Type} (op : Reader α) : Reader α := C.takeConstructedIf Tag.sequence op

def takeSet {α : Type} (op : Reader α) : Reader α := C.takeConstructedIf Tag.set op

def collectOctets : Value → Option (List UInt8) := C.fromContent

def parseFirstRecipient : Reader (List UInt8) := do
  let wrapped ← takeSequence C do
    let _version ← takeU8 C
    let _rid ← C.captureOne
    let _keyEncryptionAlgorithm ← C.captureOne
    C.takeValueIf Tag.octetString (collectOctets C)
  if ← C.skipOne then contentErr "expected exactly one recipientInfo" else pure wrapped

def parseIv : Reader (List UInt8) := do
  let oid ← takeOid C
  if oid ≠ oidAes256Cbc then contentErr "contentEncryptionAlgorithm is not aes-256-CBC"
  else C.takeValueIf Tag.octetString (collectOctets C)

def parseEncryptedContentInfo : Reader EncryptedContent :=
  takeSequence C do
    let _contentType ← takeOid C
    let iv ← takeSequence C (parseIv C)
    match ← C.takeOptValueIf (Tag.ctx 0) (collectOctets C) with
    | none => contentErr "EnvelopedData has no encryptedContent"
    | some encryptedContent => pure ⟨iv, encryptedContent⟩

def parseEnvelopedData : Reader EnvelopedFields :=
  takeSequence C do
    let _version ← takeU8 C
    let _originatorInfo ← C.takeOptConstructedIf (Tag.ctx 0) C.skipAll
    let wrappedCek ← takeSet C (parseFirstRecipient C)
    let content ← parseEncryptedContentInfo C
    let _unprotectedAttrs ← C.takeOptConstructedIf (Tag.ctx 1) C.skipAll
    pure ⟨wrappedCek, content.iv, content.encryptedContent⟩

def parseContentInfo : Reader EnvelopedFields :=
  takeSequence C do
    let contentType ← takeOid C
    if contentType ≠ oidEnvelopedData then contentErr "contentType is not id-envelopedData"
    else C.takeConstructedIf (Tag.ctx 0) (parseEnvelopedData C)

def faultText : Fault → String
  | .malformed => C.malformed
  | .content text => text

/-- What follows the first value is not looked at. -/
def parseCfr (cfrDer : List UInt8) : Except String EnvelopedFields :=
  match C.decode cfrDer with
  | none => .error ("CFR step 1-2: BER-parse CMS EnvelopedData: " ++ C.malformed)
  | some value =>
    match parseContentInfo C [value] with
    | .error e => .error ("CFR step 1-2: BER-parse CMS EnvelopedData: " ++ faultText C e)
    | .ok (fields, _) => .ok fields

/-- A slice as a fixed array, or what is reported about its length. -/
def fixedOr (n : ℕ) (l : List UInt8) (report : ℕ → String) : Except String (Bytes n) :=
  okOr (toFixed n l) (report l.length)

def decryptCfr (cfrDer : List UInt8) : Except String (Bytes 32) := do
  let fields ← parseCfr C cfrDer
  let cek ← (C.oaepDecrypt fields.wrappedCek).mapError
    ("CFR step 3: RSA-OAEP unwrap of content key: " ++ ·)
  let cek ← fixedOr 32 cek
    ("CFR step 3: content key wrong length: expected 32, got " ++ toString ·)
  let iv ← fixedOr 16 fields.iv fun len =>
    "CFR step 4: AES-CBC IV is not 16 bytes (got " ++ toString len ++ ")"
  let plaintext ← okOr (C.decryptPadded cek iv fields.encryptedContent)
    ("CFR step 5: AES-256-CBC decrypt / PKCS#7 unpad: " ++ C.unpadError)
  fixedOr 32 plaintext ("CFR step 6: sealed key wrong length: expected 32, got " ++ toString ·)

end Parser

/-! ### The grammar -/

section Grammar
variable (C : Crates)

/-- An octet string with the given tag, whole or in segments. -/
def IsOctets (tag : Tag) (v : Value) (octets : List UInt8) : Prop :=
  v.tag = tag ∧ octetsOf v = some octets

/-- `KeyTransRecipientInfo`. -/
def IsRecipient (v : Value) (wrapped : List UInt8) : Prop :=
  ∃ version rid algorithm key,
    v = .constructed Tag.sequence [.primitive Tag.integer version, rid, algorithm, key] ∧
      (C.u8FromPrimitive version).isSome ∧ IsOctets Tag.octetString key wrapped

/-- `EncryptedContentInfo` with AES-256-CBC. -/
def IsContent (v : Value) (content : EncryptedContent) : Prop :=
  ∃ contentType iv encrypted,
    v = .constructed Tag.sequence [.primitive Tag.oid contentType,
      .constructed Tag.sequence [.primitive Tag.oid oidAes256Cbc, iv], encrypted] ∧
      (C.oidFromPrimitive contentType).isSome ∧ (C.oidFromPrimitive oidAes256Cbc).isSome ∧
      IsOctets Tag.octetString iv content.iv ∧
      IsOctets (Tag.ctx 0) encrypted content.encryptedContent

/-- `EnvelopedData` for one recipient. -/
def IsEnvelopedData (v : Value) (fields : EnvelopedFields) : Prop :=
  ∃ version originatorInfo recipient content unprotectedAttrs,
    v = .constructed Tag.sequence (.primitive Tag.integer version :: originatorInfo ++
      .constructed Tag.set [recipient] :: content :: unprotectedAttrs) ∧
      (C.u8FromPrimitive version).isSome ∧ Optional (Tag.ctx 0) originatorInfo ∧
      IsRecipient C recipient fields.wrappedCek ∧
      IsContent C content ⟨fields.iv, fields.encryptedContent⟩ ∧
      Optional (Tag.ctx 1) unprotectedAttrs

/-- `ContentInfo` around it. -/
def IsEnvelope (v : Value) (fields : EnvelopedFields) : Prop :=
  ∃ data, v = .constructed Tag.sequence
      [.primitive Tag.oid oidEnvelopedData, .constructed (Tag.ctx 0) [data]] ∧
    (C.oidFromPrimitive oidEnvelopedData).isSome ∧ IsEnvelopedData C data fields

end Grammar

/-! ### The parser accepts the grammar -/

section Accepts
variable {C : Crates} {values rest : List Value}

theorem takeU8_ok : (∃ n, takeU8 C values = .ok (n, rest)) ↔
    ∃ octets, values = .primitive Tag.integer octets :: rest ∧
      (C.u8FromPrimitive octets).isSome := by
  simp only [takeU8, C.takePrimitiveIf_ok, Option.isSome_iff_exists]
  exact exists_comm.trans (exists_congr fun octets => exists_and_left)

theorem takeOid_ok {oid : List UInt8} : takeOid C values = .ok (oid, rest) ↔
    values = .primitive Tag.oid oid :: rest ∧ (C.oidFromPrimitive oid).isSome := by
  rw [takeOid, C.takePrimitiveIf_ok]
  constructor
  · rintro ⟨octets, rfl, h⟩
    obtain rfl := C.oidFromPrimitive_eq h
    exact ⟨rfl, by rw [h]; rfl⟩
  · rintro ⟨rfl, h⟩
    obtain ⟨oid', h'⟩ := Option.isSome_iff_exists.mp h
    obtain rfl := C.oidFromPrimitive_eq h'
    exact ⟨oid', rfl, h'⟩

theorem collectOctets_eq : collectOctets C = octetsOf := funext C.fromContent_eq

theorem parseFirstRecipient_ok {wrapped : List UInt8} :
    parseFirstRecipient C values = .ok (wrapped, []) ↔
      ∃ recipient, values = [recipient] ∧ IsRecipient C recipient wrapped := by
  simp only [parseFirstRecipient, takeSequence, collectOctets_eq, bind_ok, C.takeConstructedIf_ok,
    C.captureOne_ok, C.takeValueIf_ok]
  constructor
  · rintro ⟨w, later, ⟨inner, rfl, version, v₁, hversion, rid, v₂, rfl, alg, v₃, rfl, key, rfl,
      htag, hkey⟩, more, v₄, hskip, hend⟩
    cases more with
    | true => cases hend
    | false =>
      obtain ⟨rfl, rfl⟩ := C.skipOne_false.mp hskip
      obtain ⟨rfl, -⟩ := pure_ok.mp hend
      obtain ⟨octets, rfl, hu8⟩ := takeU8_ok.mp ⟨version, hversion⟩
      exact ⟨_, rfl, octets, rid, alg, key, rfl, hu8, htag, hkey⟩
  · rintro ⟨recipient, rfl, octets, rid, alg, key, rfl, hu8, htag, hkey⟩
    obtain ⟨version, hversion⟩ := takeU8_ok.mpr ⟨octets, rfl, hu8⟩
    exact ⟨wrapped, [], ⟨_, rfl, version, _, hversion, rid, _, rfl, alg, _, rfl, key, rfl, htag,
      hkey⟩, false, [], C.skipOne_false.mpr ⟨rfl, rfl⟩, rfl⟩

theorem parseIv_ok {iv : List UInt8} : parseIv C values = .ok (iv, []) ↔
    ∃ v, values = [.primitive Tag.oid oidAes256Cbc, v] ∧
      (C.oidFromPrimitive oidAes256Cbc).isSome ∧ IsOctets Tag.octetString v iv := by
  simp only [parseIv, collectOctets_eq, bind_ok, takeOid_ok]
  constructor
  · rintro ⟨oid, later, ⟨rfl, hoid⟩, hrest⟩
    split_ifs at hrest with hne
    · cases hrest
    · obtain rfl := not_not.mp hne
      obtain ⟨v, rfl, htag, hv⟩ := C.takeValueIf_ok.mp hrest
      exact ⟨v, rfl, hoid, htag, hv⟩
  · rintro ⟨v, rfl, hoid, htag, hv⟩
    refine ⟨oidAes256Cbc, [v], ⟨rfl, hoid⟩, ?_⟩
    rw [if_neg (not_not.mpr rfl)]
    exact C.takeValueIf_ok.mpr ⟨v, rfl, htag, hv⟩

theorem parseEncryptedContentInfo_ok {content : EncryptedContent} :
    parseEncryptedContentInfo C values = .ok (content, rest) ↔
      ∃ v, values = v :: rest ∧ IsContent C v content := by
  simp only [parseEncryptedContentInfo, takeSequence, collectOctets_eq, C.takeConstructedIf_ok,
    bind_ok, takeOid_ok, parseIv_ok]
  constructor
  · rintro ⟨inner, rfl, contentType, v₁, ⟨rfl, htype⟩, iv, v₂,
      ⟨_, rfl, v, rfl, hoid, hiv⟩, encrypted, v₃, htake, hend⟩
    cases encrypted with
    | none => cases hend
    | some octets =>
      obtain ⟨rfl, rfl⟩ := pure_ok.mp hend
      obtain ⟨w, rfl, htag, hw⟩ := C.takeOptValueIf_some.mp htake
      exact ⟨_, rfl, contentType, v, w, rfl, htype, hoid, hiv, htag, hw⟩
  · rintro ⟨_, rfl, contentType, v, w, rfl, htype, hoid, hiv, htag, hw⟩
    exact ⟨_, rfl, contentType, _, ⟨rfl, htype⟩, content.iv, _, ⟨_, rfl, v, rfl, hoid, hiv⟩,
      some content.encryptedContent, [], C.takeOptValueIf_some.mpr ⟨w, rfl, htag, hw⟩, rfl⟩

theorem set_ne_ctx : Tag.set ≠ Tag.ctx 0 := by decide

theorem parseEnvelopedData_ok {fields : EnvelopedFields} :
    parseEnvelopedData C values = .ok (fields, rest) ↔
      ∃ v, values = v :: rest ∧ IsEnvelopedData C v fields := by
  simp only [parseEnvelopedData, takeSequence, takeSet, C.takeConstructedIf_ok, bind_ok,
    parseFirstRecipient_ok, parseEncryptedContentInfo_ok]
  constructor
  · rintro ⟨inner, rfl, version, v₁, hversion, o, v₂, horiginator, wrapped, v₃,
      ⟨_, rfl, recipient, rfl, hrecipient⟩, content, v₄, ⟨c, rfl, hcontent⟩, o', v₅, hattrs, hend⟩
    obtain ⟨rfl, rfl⟩ := pure_ok.mp hend
    obtain ⟨octets, rfl, hu8⟩ := takeU8_ok.mp ⟨version, hversion⟩
    -- what follows the originator is a set, and nothing follows the attributes
    obtain ⟨originatorInfo, rfl, hopt, -⟩ :=
      (C.takeOptConstructedIf_skip (apart_constructed set_ne_ctx _)).mp horiginator
    obtain ⟨attrs, rfl, hopt', -⟩ := (C.takeOptConstructedIf_skip apart_nil).mp hattrs
    exact ⟨_, rfl, octets, originatorInfo, recipient, c, attrs, by simp, hu8, hopt, hrecipient,
      hcontent, hopt'⟩
  · rintro ⟨_, rfl, octets, originatorInfo, recipient, c, attrs, rfl, hu8, hopt, hrecipient,
      hcontent, hopt'⟩
    obtain ⟨version, hversion⟩ := takeU8_ok.mpr ⟨octets, rfl, hu8⟩
    have hapart : Apart (Tag.ctx 0) (.constructed Tag.set [recipient] :: c :: attrs) :=
      apart_constructed set_ne_ctx _
    have horiginator := (C.takeOptConstructedIf_skip hapart).mpr ⟨originatorInfo, rfl, hopt, rfl⟩
    have hattrs := (C.takeOptConstructedIf_skip apart_nil).mpr
      ⟨attrs, (List.append_nil attrs).symm, hopt', rfl⟩
    exact ⟨_, rfl, version, _, hversion, _, _, horiginator, fields.wrappedCek, _,
      ⟨_, rfl, recipient, rfl, hrecipient⟩, _, attrs, ⟨c, rfl, hcontent⟩, _, [], hattrs, rfl⟩

theorem parseContentInfo_ok {fields : EnvelopedFields} :
    parseContentInfo C values = .ok (fields, rest) ↔
      ∃ v, values = v :: rest ∧ IsEnvelope C v fields := by
  simp only [parseContentInfo, takeSequence, C.takeConstructedIf_ok, bind_ok, takeOid_ok]
  constructor
  · rintro ⟨inner, rfl, oid, v₁, ⟨rfl, hoid⟩, hrest⟩
    split_ifs at hrest with hne
    · cases hrest
    · obtain rfl := not_not.mp hne
      obtain ⟨content, rfl, hcontent⟩ := C.takeConstructedIf_ok.mp hrest
      obtain ⟨data, rfl, hdata⟩ := parseEnvelopedData_ok.mp hcontent
      exact ⟨_, rfl, data, rfl, hoid, hdata⟩
  · rintro ⟨_, rfl, data, rfl, hoid, hdata⟩
    refine ⟨_, rfl, oidEnvelopedData, _, ⟨rfl, hoid⟩, ?_⟩
    rw [if_neg (not_not.mpr rfl)]
    exact C.takeConstructedIf_ok.mpr ⟨_, rfl, parseEnvelopedData_ok.mpr ⟨data, rfl, hdata⟩⟩

theorem parseCfr_ok {cfrDer : List UInt8} {fields : EnvelopedFields} :
    parseCfr C cfrDer = .ok fields ↔
      ∃ value, C.decode cfrDer = some value ∧ IsEnvelope C value fields := by
  unfold parseCfr
  split
  · rename_i hnone
    simp [hnone]
  · rename_i value hvalue
    split
    · rename_i e herror
      simp only [reduceCtorEq, false_iff, not_exists, not_and, hvalue, Option.some.injEq]
      rintro _ rfl henvelope
      have hok : parseContentInfo C [value] = .ok (fields, []) :=
        parseContentInfo_ok.mpr ⟨value, rfl, henvelope⟩
      rw [herror] at hok
      cases hok
    · rename_i fields' rest hok
      obtain ⟨v, hv, henvelope⟩ := parseContentInfo_ok.mp hok
      obtain ⟨rfl, rfl⟩ := List.cons.inj hv
      constructor
      · intro h
        obtain rfl := Except.ok.inj h
        exact ⟨value, hvalue, henvelope⟩
      · rintro ⟨value', hvalue', henvelope'⟩
        obtain rfl := Option.some.inj (hvalue.symm.trans hvalue')
        have hsame : parseContentInfo C [value] = .ok (fields, []) :=
          parseContentInfo_ok.mpr ⟨value, rfl, henvelope'⟩
        rw [hok] at hsame
        rw [(Prod.mk.inj (Except.ok.inj hsame)).1]

end Accepts

/-! ### The key -/

theorem fixedOr_ok {n : ℕ} {l : List UInt8} {report : ℕ → String} {b : Bytes n} :
    fixedOr n l report = .ok b ↔ b.val = l := by
  rw [← toFixed_eq_some, fixedOr, okOr_eq_ok]

/-- Whatever a key service sends: the enclave takes a key exactly if the first value of the answer
is an envelope for one recipient, of any segmentation, whose content key unwraps to 32 bytes, and
whose content is the encryption of that very key under the content key. -/
theorem unsealed_key_was_enveloped (C : Crates) (cfrDer : List UInt8) (key : Bytes 32) :
    decryptCfr C cfrDer = .ok key ↔
      ∃ value fields cek iv, C.decode cfrDer = some value ∧ IsEnvelope C value fields ∧
        C.oaepDecrypt fields.wrappedCek = .ok cek.val ∧ fields.iv = iv.val ∧
        fields.encryptedContent = C.encryptPadded cek iv key.val := by
  have hmapError : ∀ (x : Except String (List UInt8)) (f : String → String) (a : List UInt8),
      x.mapError f = .ok a ↔ x = .ok a := by
    intro x f a
    cases x <;> simp [Except.mapError]
  simp only [decryptCfr, bind_eq_ok, parseCfr_ok, hmapError, fixedOr_ok]
  constructor
  · rintro ⟨fields, ⟨value, hvalue, henvelope⟩, cekBytes, hcek, cek, rfl, iv, hiv, plaintext,
      hplain, rfl⟩
    refine ⟨value, fields, cek, iv, hvalue, henvelope, hcek, hiv.symm, ?_⟩
    exact C.decryptPadded_eq_some.mp (okOr_eq_ok.mp hplain)
  · rintro ⟨value, fields, cek, iv, hvalue, henvelope, hcek, hiv, hcontent⟩
    refine ⟨fields, ⟨value, hvalue, henvelope⟩, cek.val, hcek, cek, rfl, iv, hiv.symm, key.val,
      ?_, rfl⟩
    exact okOr_eq_ok.mpr (C.decryptPadded_eq_some.mpr hcontent)

section Example

/-- An envelope with attributes behind it and its content in two segments. -/
def demoEnvelope (content : List UInt8) : Value :=
  .constructed Tag.sequence [.primitive Tag.oid oidEnvelopedData, .constructed (Tag.ctx 0) [
    .constructed Tag.sequence [.primitive Tag.integer [0],
      .constructed Tag.set [.constructed Tag.sequence [.primitive Tag.integer [0],
        .constructed Tag.sequence [], .constructed Tag.sequence [],
        .primitive Tag.octetString [1]]],
      .constructed Tag.sequence [.primitive Tag.oid [42],
        .constructed Tag.sequence [.primitive Tag.oid oidAes256Cbc,
          .primitive Tag.octetString (filled 16 5).val],
        .constructed (Tag.ctx 0) [.primitive Tag.octetString (content.take 32),
          .primitive Tag.octetString (content.drop 32)]],
      .constructed (Tag.ctx 1) []]]]

/-- Crates that read the values described, with a mark in front of a message for its
encryption. -/
noncomputable def demoCrates (content : List UInt8) : Crates where
  decode _ := some (demoEnvelope content)
  u8FromPrimitive := List.head?
  oidFromPrimitive := some
  fromContent := octetsOf
  takeConstructedIf tag op := readerOf fun values a rest =>
    ∃ inner, values = .constructed tag inner :: rest ∧ op inner = .ok (a, [])
  takePrimitiveIf tag op := readerOf fun values a rest =>
    ∃ octets, values = .primitive tag octets :: rest ∧ op octets = some a
  takeValueIf tag op := readerOf fun values a rest =>
    ∃ v, values = v :: rest ∧ v.tag = tag ∧ op v = some a
  takeOptValueIf tag op := readerOf fun values o rest =>
    ∃ a, (∃ v, values = v :: rest ∧ v.tag = tag ∧ op v = some a) ∧ o = some a
  takeOptConstructedIf tag op := readerOf fun values o rest =>
    (∃ inner a, values = .constructed tag inner :: rest ∧ op inner = .ok (a, []) ∧ o = some a) ∨
      Apart tag values ∧ values = rest ∧ o = none
  captureOne := readerOf fun values v rest => values = v :: rest
  skipOne
    | _ :: rest => .ok (true, rest)
    | [] => .ok (false, [])
  skipAll _ := .ok ((), [])
  malformed := "malformed"
  oidFromPrimitive_eq h := (Option.some.inj h).symm
  fromContent_eq _ := rfl
  takeConstructedIf_ok := by
    refine readerOf_ok ?_
    rintro _ _ _ _ _ ⟨inner, rfl, h⟩ ⟨_, ⟨⟩, h'⟩
    cases h.symm.trans h'
    exact ⟨rfl, rfl⟩
  takePrimitiveIf_ok := by
    refine readerOf_ok ?_
    rintro _ _ _ _ _ ⟨octets, rfl, h⟩ ⟨_, ⟨⟩, h'⟩
    exact ⟨Option.some.inj (h.symm.trans h'), rfl⟩
  takeValueIf_ok := by
    refine readerOf_ok ?_
    rintro _ _ _ _ _ ⟨v, rfl, -, h⟩ ⟨_, ⟨⟩, -, h'⟩
    exact ⟨Option.some.inj (h.symm.trans h'), rfl⟩
  takeOptValueIf_some := by
    refine (readerOf_ok ?_).trans (by simp)
    rintro _ _ _ _ _ ⟨a, ⟨v, rfl, -, h⟩, rfl⟩ ⟨a', ⟨_, ⟨⟩, -, h'⟩, rfl⟩
    exact ⟨h.symm.trans h', rfl⟩
  takeOptConstructedIf_skip := by
    intro tag values rest o hrest
    refine (readerOf_ok ?_).trans ?_
    · rintro _ _ _ _ _ (⟨inner, a, rfl, h, rfl⟩ | ⟨hapart, rfl, rfl⟩)
        (⟨_, a', ⟨⟩, h', rfl⟩ | ⟨hapart', rfl, rfl⟩)
      · exact ⟨rfl, rfl⟩
      · exact absurd rfl hapart'
      · exact absurd rfl hapart
      · exact ⟨rfl, rfl⟩
    · constructor
      · rintro (⟨inner, a, rfl, -, rfl⟩ | ⟨-, rfl, rfl⟩)
        · exact ⟨[.constructed tag inner], rfl, .inr ⟨inner, rfl⟩, rfl⟩
        · exact ⟨[], rfl, .inl rfl, rfl⟩
      · rintro ⟨_, rfl, rfl | ⟨inner, rfl⟩, rfl⟩
        · exact .inr ⟨hrest, rfl, rfl⟩
        · exact .inl ⟨inner, (), rfl, rfl, rfl⟩
  captureOne_ok := by
    refine readerOf_ok ?_
    rintro _ _ _ _ _ rfl ⟨⟩
    exact ⟨rfl, rfl⟩
  skipOne_false := by
    intro values rest
    cases values with
    | nil => simp [eq_comm]
    | cons v later => simp
  oaepDecrypt _ := .ok (filled 32 9).val
  encryptPadded _ _ message := 0 :: message
  decryptPadded _ _ content := if content.head? = some 0 then some content.tail else none
  unpadError := "Unpad Error"
  decryptPadded_eq_some := by
    intro cek iv content message
    cases content with
    | nil => simp
    | cons b rest => simp [eq_comm]

theorem unsealed_key_was_enveloped_demo :
    decryptCfr (demoCrates (0 :: (filled 32 7).val)) [] = .ok (filled 32 7) := by
  have hcontent : octetsOf (.constructed (Tag.ctx 0)
      [.primitive Tag.octetString ((0 :: (filled 32 7).val).take 32),
        .primitive Tag.octetString ((0 :: (filled 32 7).val).drop 32)]) =
      some (0 :: (filled 32 7).val) := by
    decide +kernel
  refine (unsealed_key_was_enveloped _ _ _).mpr
    ⟨_, ⟨[1], (filled 16 5).val, _⟩, filled 32 9, filled 16 5, rfl, ?_, rfl, rfl, rfl⟩
  exact ⟨_, rfl, rfl, _, [], _, _, [.constructed (Tag.ctx 1) []], rfl, rfl, .inl rfl,
    ⟨_, _, _, _, rfl, rfl, rfl, rfl⟩, ⟨_, _, _, rfl, rfl, rfl, ⟨rfl, rfl⟩, rfl, hcontent⟩,
    .inr ⟨[], rfl⟩⟩

end Example

end Nuntius.KeyEnvelope
