import Nuntius.ControlChannel
import Nuntius.DigitText

/-!
# Approvals as typed data

An approval reaches the enclave as JSON, with integers as numbers, decimal or hexadecimal text
and bytes as hexadecimal text. Reading succeeds on the renderings of a request for the expected
chain and on nothing else, so what the owners are taken to have signed is what was rendered.
-/

namespace Nuntius.HandoverPolicy

def ApprovalMode.toU8 : ApprovalMode → ℕ
  | .carry => 1
  | .fresh => 2
  | .child => 3

def EnclaveRole.toU8 : EnclaveRole → ℕ
  | .oracle => 1
  | .bridge => 2

theorem ApprovalMode.tryFrom_eq_some {n : ℕ} {mode : ApprovalMode} :
    ApprovalMode.tryFrom n = some mode ↔ n = mode.toU8 := by
  constructor
  · intro h
    unfold ApprovalMode.tryFrom at h
    split at h
    · cases h
      rfl
    · cases h
      rfl
    · cases h
      rfl
    · cases h
  · rintro rfl
    cases mode <;> rfl

theorem EnclaveRole.tryFrom_eq_some {n : ℕ} {role : EnclaveRole} :
    EnclaveRole.tryFrom n = some role ↔ n = role.toU8 := by
  constructor
  · intro h
    unfold EnclaveRole.tryFrom at h
    split at h
    · cases h
      rfl
    · cases h
      rfl
    · cases h
  · rintro rfl
    cases role <;> rfl

end Nuntius.HandoverPolicy

namespace Nuntius.ControlChannel
open WireFormat HandoverPolicy OwnerApprovals

/-! ### Renderings -/

/-- A rendering of an integer: a number, or text in decimal or behind `0x` in hexadecimal, with
white space around it. -/
inductive IntText (n : ℕ) : Json → Prop
  | number (m : UInt64) (h : m.toNat = n) : IntText n (.num (.posInt m))
  | decimal (s : String) (digits : List Char) (h : U64Text 10 n digits)
      (hs : Padded digits s.toList) : IntText n (.str s)
  | hex (s : String) (digits : List Char) (h : U64Text 16 n digits)
      (hs : Padded ('0' :: 'x' :: digits) s.toList) : IntText n (.str s)

/-- A rendering of bytes: two hexadecimal digits each in either case, with or without `0x`. -/
inductive HexText (bytes : List UInt8) : Json → Prop
  | mk (s : String) (k : ℕ) (digits : List Char) (h : digits.map Char.toLower = hexEncode bytes)
      (hs : Padded (zeroXs k ++ digits) s.toList) : HexText bytes (.str s)

/-- The object has a field with the property. -/
def HasField (v : Json) (key : String) (P : Json → Prop) : Prop :=
  ∃ field, v.get key = some field ∧ P field

structure RendersDomain (chainId : ℕ) (domain : Json) : Prop where
  name : HasField domain "name" (· = .str domainName)
  version : HasField domain "version" (· = .str domainVersion)
  chainId : HasField domain "chainId" (IntText chainId)

structure RendersMessage (req : ApprovalRequest) (msg : Json) : Prop where
  pcr0 : HasField msg "pcr0" (HexText req.pcr0.val)
  version : HasField msg "version" (IntText req.version)
  mode : HasField msg "mode" (IntText req.mode.toU8)
  label : HasField msg "label" (HexText req.label.val)
  role : HasField msg "role" (IntText req.role.toU8)
  expiry : HasField msg "expiry" (IntText req.expiry)
  nonce : HasField msg "nonce" (HexText req.nonce.val)

/-- The typed data renders the request, whatever else is in its objects. -/
structure Renders (req : ApprovalRequest) (td : Json) : Prop where
  domain : HasField td "domain" (RendersDomain req.chainId)
  message : HasField td "message" (RendersMessage req)

/-! ### Fields -/

theorem asU64_eq_some {m : JsonNumber} {n : ℕ} :
    Json.asU64 m = some n ↔ ∃ k : UInt64, k.toNat = n ∧ m = .posInt k := by
  cases m with
  | posInt k => simp [Json.asU64]
  | negInt z => simp [Json.asU64]
  | float => simp [Json.asU64]

/-- An integer field is read from its renderings and from nothing else. -/
theorem parseU64Flexible_eq_ok {v : Json} {n : ℕ} :
    parseU64Flexible (some v) = .ok n ↔ IntText n v := by
  constructor
  · intro h
    cases v with
    | num m =>
      obtain ⟨k, hk, rfl⟩ := asU64_eq_some.mp (okOr_eq_ok.mp h)
      exact .number k hk
    | str s =>
      rw [parseU64Flexible] at h
      split at h
      · rename_i hexpart hstrip
        refine .hex s hexpart ((fromStrRadix_eq_some (by omega) (by omega)).mp (okOr_eq_ok.mp h)) ?_
        rw [← strip0x_eq_some.mp hstrip]
        exact padded_trim _
      · exact .decimal s _ ((fromStrRadix_eq_some (by omega) (by omega)).mp (okOr_eq_ok.mp h))
          (padded_trim _)
    | null => cases h
    | bool b => cases h
    | arr items => cases h
    | obj fields => cases h
  · intro h
    cases h with
    | number m h =>
      rw [parseU64Flexible, okOr_eq_ok]
      exact asU64_eq_some.mpr ⟨m, h, rfl⟩
    | decimal s digits h hs =>
      have htrim := trim_of_padded (h.no_whiteSpace (by omega) (by omega)) hs
      rw [parseU64Flexible, htrim, h.strip0x_eq_none]
      exact okOr_eq_ok.mpr ((fromStrRadix_eq_some (by omega) (by omega)).mpr h)
    | hex s digits h hs =>
      have hspace : ∀ c ∈ '0' :: 'x' :: digits, isWhiteSpace c = false := by
        intro c hc
        rcases List.mem_cons.mp hc with rfl | hc
        · rfl
        · rcases List.mem_cons.mp hc with rfl | hc
          · rfl
          · exact h.no_whiteSpace (by omega) (by omega) c hc
      rw [parseU64Flexible, trim_of_padded hspace hs, strip0x]
      exact okOr_eq_ok.mpr ((fromStrRadix_eq_some (by omega) (by omega)).mpr h)

theorem parseU8Flexible_eq_ok {v : Json} {n : ℕ} :
    parseU8Flexible (some v) = .ok n ↔ IntText n v ∧ n < 256 := by
  rw [parseU8Flexible, bind_eq_ok]
  constructor
  · rintro ⟨m, hm, h⟩
    split_ifs at h with hlt
    obtain rfl := Except.ok.inj h
    exact ⟨parseU64Flexible_eq_ok.mp hm, hlt⟩
  · rintro ⟨hn, hlt⟩
    exact ⟨n, parseU64Flexible_eq_ok.mpr hn, if_pos hlt⟩

/-- A byte field is read from its renderings and from nothing else. -/
theorem parseHexBytes_eq_ok {n : ℕ} {v : Json} {b : Bytes n} :
    parseHexBytes n (some v) = .ok b ↔ HexText b.val v := by
  simp only [parseHexBytes, bind_eq_ok, okOr_eq_ok, Option.bind_some, asStr_eq_some,
    toFixed_eq_some, hexDecode_eq_some]
  constructor
  · rintro ⟨s, rfl, bytes, hbytes, hb⟩
    obtain ⟨k, hk⟩ := zeroXs_trimStart0x (trim s.toList)
    refine .mk s k _ (hb ▸ hbytes) ?_
    rw [← hk]
    exact padded_trim _
  · rintro ⟨s, k, digits, h, hs⟩
    have hdigit : ∀ c ∈ digits, digitValue c ≠ none := fun c hc => hexEncode_digit h hc
    have hspace : ∀ c ∈ zeroXs k ++ digits, isWhiteSpace c = false := by
      intro c hc
      rcases List.mem_append.mp hc with hc | hc
      · exact zeroXs_no_whiteSpace k c hc
      · exact isWhiteSpace_of_digit (hdigit c hc)
    refine ⟨s, rfl, b.val, ?_, rfl⟩
    rw [trim_of_padded hspace hs, trimStart0x_zeroXs k fun hx => hdigit 'x' hx rfl, h]

section HasField
variable {v : Json} {key : String}

theorem hasField_iff {α : Type} {f : Option Json → Except String α} {a : α} {P : Json → Prop}
    (hnone : f none ≠ .ok a) (hsome : ∀ field, f (some field) = .ok a ↔ P field) :
    f (v.get key) = .ok a ↔ HasField v key P := by
  unfold HasField
  cases v.get key with
  | none => simp [hnone]
  | some field => simp [hsome]

theorem parseU64Flexible_field {n : ℕ} :
    parseU64Flexible (v.get key) = .ok n ↔ HasField v key (IntText n) :=
  hasField_iff (fun h => by cases h) fun _ => parseU64Flexible_eq_ok

theorem parseU8Flexible_field {n : ℕ} :
    parseU8Flexible (v.get key) = .ok n ↔ HasField v key (IntText n) ∧ n < 256 := by
  have hnone : parseU8Flexible none ≠ .ok n := fun h => by cases h
  rw [hasField_iff hnone fun _ => parseU8Flexible_eq_ok]
  unfold HasField
  constructor
  · rintro ⟨field, hget, htext, hlt⟩
    exact ⟨⟨field, hget, htext⟩, hlt⟩
  · rintro ⟨⟨field, hget, htext⟩, hlt⟩
    exact ⟨field, hget, htext, hlt⟩

theorem parseHexBytes_field {n : ℕ} {b : Bytes n} :
    parseHexBytes n (v.get key) = .ok b ↔ HasField v key (HexText b.val) :=
  hasField_iff (fun h => by cases h) fun _ => parseHexBytes_eq_ok

theorem asStr_field {s : String} :
    (v.get key).bind Json.asStr = some s ↔ HasField v key (· = .str s) := by
  simp only [HasField, Option.bind_eq_some_iff, asStr_eq_some]

end HasField

/-! ### Requests -/

theorem checkDomain_eq_ok {domain : Json} {chainId : ℕ} :
    checkDomain domain chainId = .ok () ↔ RendersDomain chainId domain := by
  unfold checkDomain
  constructor
  · intro h
    split_ifs at h with hname hversion
    obtain ⟨cid, hcid, hchain⟩ := bind_eq_ok.mp h
    split_ifs at hchain with heq
    rw [not_not.mp heq] at hcid
    exact ⟨asStr_field.mp (not_not.mp hname), asStr_field.mp (not_not.mp hversion),
      parseU64Flexible_field.mp hcid⟩
  · intro h
    rw [if_neg (not_not.mpr (asStr_field.mpr h.name)),
      if_neg (not_not.mpr (asStr_field.mpr h.version)), bind_eq_ok]
    exact ⟨chainId, parseU64Flexible_field.mpr h.chainId, if_neg (not_not.mpr rfl)⟩

theorem toU8_mode_lt (mode : ApprovalMode) : mode.toU8 < 256 := by
  cases mode <;> decide

theorem toU8_role_lt (role : EnclaveRole) : role.toU8 < 256 := by
  cases role <;> decide

theorem parseMessage_eq_ok {msg : Json} {chainId : ℕ} {req : ApprovalRequest} :
    parseMessage msg chainId = .ok req ↔ req.chainId = chainId ∧ RendersMessage req msg := by
  simp only [parseMessage, bind_eq_ok, okOr_eq_ok, parseU64Flexible_field, parseU8Flexible_field,
    parseHexBytes_field, ApprovalMode.tryFrom_eq_some, EnclaveRole.tryFrom_eq_some]
  constructor
  · rintro ⟨pcr0, hpcr0, version, hversion, modeU8, ⟨hmode, -⟩, mode, rfl, label, hlabel, roleU8,
      ⟨hrole, -⟩, role, rfl, expiry, hexpiry, nonce, hnonce, hreq⟩
    obtain rfl := Except.ok.inj hreq
    exact ⟨rfl, hpcr0, hversion, hmode, hlabel, hrole, hexpiry, hnonce⟩
  · rintro ⟨rfl, h⟩
    exact ⟨_, h.pcr0, _, h.version, _, ⟨h.mode, toU8_mode_lt _⟩, _, rfl, _, h.label, _,
      ⟨h.role, toU8_role_lt _⟩, _, rfl, _, h.expiry, _, h.nonce, rfl⟩

/-- A request is read from its renderings for the expected chain and from nothing else. -/
theorem parseApprovalRequest_eq_ok {td : Json} {chainId : ℕ} {req : ApprovalRequest} :
    parseApprovalRequest td chainId = .ok req ↔ req.chainId = chainId ∧ Renders req td := by
  simp only [parseApprovalRequest, bind_eq_ok, okOr_eq_ok, parseMessage_eq_ok]
  constructor
  · rintro ⟨domain, hdomain, _, hcheck, msg, hmsg, rfl, hmessage⟩
    exact ⟨rfl, ⟨domain, hdomain, checkDomain_eq_ok.mp hcheck⟩, ⟨msg, hmsg, hmessage⟩⟩
  · rintro ⟨rfl, ⟨domain, hdomain, hrenders⟩, ⟨msg, hmsg, hmessage⟩⟩
    exact ⟨domain, hdomain, (), checkDomain_eq_ok.mpr hrenders, msg, hmsg, rfl, hmessage⟩

/-! ### The owners' tool -/

def hexField (bytes : List UInt8) : Json :=
  .str (String.ofList ('0' :: 'x' :: hexEncode bytes))

def decimalField (n : ℕ) : Json := .str (String.ofList (Nat.toDigits 10 n))

/-- The typed data that `gen_approval` emits. -/
def genTypedData (req : ApprovalRequest) : Json :=
  .obj
    [("domain", .obj
      [("name", .str "Kaskad Keyex"), ("version", .str "1"),
        ("chainId", .num (.posInt (UInt64.ofNat req.chainId)))]),
    ("message", .obj
      [("pcr0", hexField req.pcr0.val), ("version", decimalField req.version),
        ("mode", .num (.posInt (UInt64.ofNat req.mode.toU8))),
        ("label", hexField req.label.val),
        ("role", .num (.posInt (UInt64.ofNat req.role.toU8))),
        ("expiry", decimalField req.expiry), ("nonce", hexField req.nonce.val)])]

/-- The ranges of the integers of a request. -/
structure U64Request (req : ApprovalRequest) : Prop where
  version : req.version < 2 ^ 64
  expiry : req.expiry < 2 ^ 64
  chainId : req.chainId < 2 ^ 64

theorem IntText.lt {n : ℕ} {v : Json} (h : IntText n v) : n < 2 ^ 64 := by
  cases h with
  | number m h => exact h ▸ m.toNat_lt
  | decimal s digits h hs => exact h.1
  | hex s digits h hs => exact h.1

theorem Renders.u64Request {req : ApprovalRequest} {td : Json} (h : Renders req td) :
    U64Request req := by
  obtain ⟨⟨domain, -, hdomain⟩, ⟨msg, -, hmessage⟩⟩ := h
  obtain ⟨_, -, hchain⟩ := hdomain.chainId
  obtain ⟨_, -, hversion⟩ := hmessage.version
  obtain ⟨_, -, hexpiry⟩ := hmessage.expiry
  exact ⟨hversion.lt, hexpiry.lt, hchain.lt⟩

theorem padded_self (cs : List Char) : Padded cs (String.ofList cs).toList :=
  ⟨[], [], by simp, by simp, by simp⟩

theorem intText_number {n : ℕ} (h : n < 2 ^ 64) : IntText n (.num (.posInt (UInt64.ofNat n))) :=
  .number _ (UInt64.toNat_ofNat_of_lt h)

theorem intText_decimalField {n : ℕ} (h : n < 2 ^ 64) : IntText n (decimalField n) :=
  .decimal _ (Nat.toDigits 10 n) ⟨h, .inl ⟨0, map_toLower_toDigits (by omega) (by omega) n⟩⟩
    (padded_self _)

theorem hexText_hexField (bytes : List UInt8) : HexText bytes (hexField bytes) :=
  .mk _ 1 (hexEncode bytes) (map_toLower_hexEncode bytes) (padded_self _)

theorem renders_genTypedData {req : ApprovalRequest} (h : U64Request req) :
    Renders req (genTypedData req) := by
  refine ⟨⟨_, rfl, ⟨_, rfl, rfl⟩, ⟨_, rfl, rfl⟩, ⟨_, rfl, intText_number h.chainId⟩⟩, ⟨_, rfl, ?_⟩⟩
  exact ⟨⟨_, rfl, hexText_hexField _⟩, ⟨_, rfl, intText_decimalField h.version⟩,
    ⟨_, rfl, intText_number ((toU8_mode_lt _).trans (by decide))⟩, ⟨_, rfl, hexText_hexField _⟩,
    ⟨_, rfl, intText_number ((toU8_role_lt _).trans (by decide))⟩,
    ⟨_, rfl, intText_decimalField h.expiry⟩, ⟨_, rfl, hexText_hexField _⟩⟩

/-- Every rendering of a request for the expected chain is read as that request; what is read at
all names the expected domain, and what the owners' tool makes of it reads the same. -/
theorem approval_parsing_inverts (chainId : ℕ) :
    (∀ req td, req.chainId = chainId → Renders req td →
      parseApprovalRequest td chainId = .ok req) ∧
    ∀ td req, parseApprovalRequest td chainId = .ok req →
      HasField td "domain" (RendersDomain chainId) ∧ Renders req td ∧
        parseApprovalRequest (genTypedData req) chainId = .ok req := by
  constructor
  · intro req td hchain hrenders
    exact parseApprovalRequest_eq_ok.mpr ⟨hchain, hrenders⟩
  · intro td req h
    obtain ⟨rfl, hrenders⟩ := parseApprovalRequest_eq_ok.mp h
    refine ⟨hrenders.domain, hrenders, ?_⟩
    exact parseApprovalRequest_eq_ok.mpr ⟨rfl, renders_genTypedData hrenders.u64Request⟩

end Nuntius.ControlChannel
