import Nuntius.AddressText
import Nuntius.ControlChannel

/-!
# Peer hints from the host

Endpoints are brought to one form before they are compared, so a peer counts once however it is
written. The peers baked into the image come first, and the host's hints only fill what room
they leave.
-/

namespace Nuntius.ControlChannel
open WireFormat AddressText DistinctLists HandoverPolicy OwnerApprovals

/-! ### The normal form of an endpoint -/

def maxPeerEndpointLen : ℕ := 320

def handoverPort : UInt16 := 8443

def isAsciiWhitespace (c : Char) : Bool :=
  c == ' ' || c == '\t' || c == '\n' || c == '\x0c' || c == '\r'

def isAsciiControl (c : Char) : Bool := decide (c.toNat < 0x20) || c.toNat == 0x7f

/-- Short ASCII text without white space and control characters. -/
def readableEndpoint (endpoint : List Char) : Bool :=
  !(endpoint.isEmpty || decide (maxPeerEndpointLen < endpoint.length) ||
    !endpoint.all (fun c => decide (c.toNat < 128)) ||
    endpoint.any (fun c => isAsciiWhitespace c || isAsciiControl c))

/-- What stands in brackets. -/
def stripBrackets : List Char → Option (List Char)
  | '[' :: cs => if cs.getLast? = some ']' then some cs.dropLast else none
  | _ => none

/-- `str::split_once`. -/
def splitOnce (sep : Char) (cs : List Char) : Option (List Char × List Char) :=
  if sep ∈ cs then some (cs.takeWhile (· ≠ sep), (cs.dropWhile (· ≠ sep)).tail) else none

/-- The host and the port of a named endpoint, with the default port if none is given. -/
def readHostPort (endpoint : List Char) : Option (List Char × ℕ) :=
  match splitOnce ':' endpoint with
  | some (host, port) =>
    if port.isEmpty || !port.all Char.isDigit then none
    else ((fromStrRadix 10 port).filter (· < 65536)).map fun n => (host, n)
  | none => some (endpoint, handoverPort.toNat)

def stripDot (host : List Char) : List Char :=
  if host.getLast? = some '.' then host.dropLast else host

def labelOk (label : List Char) : Bool :=
  !label.isEmpty && decide (label.length ≤ 63) && label.head? != some '-' &&
    label.getLast? != some '-' && label.all (fun c => c.isAlphanum || c == '-')

/-- A domain name that is not made of digits and dots only. -/
def hostOk (host : List Char) : Bool :=
  !(decide (253 < host.length) || host.all (fun c => c.isDigit || c == '.') ||
    !(host.splitOn '.').all labelOk)

def printNamed (host : List Char) (port : ℕ) : List Char :=
  host.map Char.toLower ++ ':' :: Nat.toDigits 10 port

def normalizeNamed (endpoint : List Char) : Option (List Char) :=
  (readHostPort endpoint).bind fun r =>
    if r.2 = 0 || !hostOk (stripDot r.1) then none else some (printNamed (stripDot r.1) r.2)

def normalizeChars (endpoint : List Char) : Option (List Char) :=
  if !readableEndpoint endpoint then none
  else
    match parseSocketAddr endpoint with
    | some addr => if addr.port ≠ 0 then some (printSocketAddr addr) else none
    | none =>
      match parseIpAddr endpoint with
      | some ip => some (printSocketAddr (.new ip handoverPort))
      | none =>
        match stripBrackets endpoint with
        | some inner =>
          (parseIpv6Addr inner).map fun ip => printSocketAddr (.new (.v6 ip) handoverPort)
        | none => normalizeNamed endpoint

def normalizePeer (endpoint : String) : Option String :=
  (normalizeChars endpoint.toList).map String.ofList

/-! ### Readable text -/

/-- Visible ASCII characters. -/
def IsGraphic (c : Char) : Prop := 0x21 ≤ c.toNat ∧ c.toNat ≤ 0x7e

theorem readableEndpoint_iff {cs : List Char} :
    readableEndpoint cs = true ↔
      cs ≠ [] ∧ cs.length ≤ maxPeerEndpointLen ∧ (∀ c ∈ cs, c.toNat < 128) ∧
        ∀ c ∈ cs, isAsciiWhitespace c = false ∧ isAsciiControl c = false := by
  simp [readableEndpoint, and_assoc]

theorem IsGraphic.readable {c : Char} (h : IsGraphic c) :
    c.toNat < 128 ∧ isAsciiWhitespace c = false ∧ isAsciiControl c = false := by
  obtain ⟨hlow, hhigh⟩ := h
  have hne : ∀ d : Char, d.toNat < 0x21 → (c == d) = false := by
    intro d hd
    rw [beq_eq_false_iff_ne]
    rintro rfl
    omega
  refine ⟨by omega, ?_, ?_⟩
  · rw [isAsciiWhitespace, hne ' ' (by decide), hne '\t' (by decide), hne '\n' (by decide),
      hne '\x0c' (by decide), hne '\r' (by decide)]
    rfl
  · rw [isAsciiControl, decide_eq_false (by omega), beq_eq_false_iff_ne.mpr (by omega)]
    rfl

theorem readableEndpoint_of_graphic {cs : List Char} (hne : cs ≠ [])
    (hlen : cs.length ≤ maxPeerEndpointLen) (h : ∀ c ∈ cs, IsGraphic c) :
    readableEndpoint cs = true :=
  readableEndpoint_iff.mpr ⟨hne, hlen, fun c hc => (h c hc).readable.1,
    fun c hc => (h c hc).readable.2⟩

theorem IsGraphic.of_isRadixDigit {c : Char} (h : isRadixDigit 16 c = true) : IsGraphic c := by
  have hsome : digitValue c ≠ none := by
    intro hnone
    rw [isRadixDigit, hnone] at h
    cases h
  exact visible_of_digit hsome

theorem IsGraphic.of_isAddressChar {c : Char} (h : isAddressChar c = true) : IsGraphic c := by
  rcases Bool.or_eq_true_iff.mp h with h | h
  · exact .of_isRadixDigit h
  · have hmarks : ".:[]%".toList.all (fun d => 0x21 ≤ d.toNat ∧ d.toNat ≤ 0x7e) = true := by
      decide
    have hc := List.all_eq_true.mp hmarks c (by simpa using h)
    rwa [decide_eq_true_eq] at hc

/-! ### Printed addresses are in normal form -/

theorem readable_printSocketAddr (addr : SocketAddr) :
    readableEndpoint (printSocketAddr addr) = true := by
  obtain ⟨hchars, hlen⟩ := addressLike_printSocketAddr addr
  apply readableEndpoint_of_graphic (printSocketAddr_ne_nil addr)
  · exact hlen.trans (by decide)
  · intro c hc
    exact .of_isAddressChar (hchars c hc)

theorem normalizeChars_printSocketAddr {addr : SocketAddr} (h : addr.port ≠ 0) :
    normalizeChars (printSocketAddr addr) = some (printSocketAddr addr) := by
  rw [normalizeChars, readable_printSocketAddr, parseSocketAddr_printSocketAddr]
  simp [h]

theorem port_new (ip : IpAddr) (port : UInt16) : (SocketAddr.new ip port).port = port := by
  cases ip <;> rfl

/-! ### Printed names are in normal form -/

section Names
variable {host : List Char}

/-- A character of a domain name. -/
abbrev IsHostChar (c : Char) : Prop :=
  (65 ≤ c.toNat ∧ c.toNat ≤ 90) ∨ (97 ≤ c.toNat ∧ c.toNat ≤ 122) ∨
    (48 ≤ c.toNat ∧ c.toNat ≤ 57) ∨ c.toNat = 45 ∨ c.toNat = 46

theorem mem_splitOn (sep : Char) {c : Char} {cs : List Char} (h : c ∈ cs) :
    c = sep ∨ ∃ part ∈ cs.splitOn sep, c ∈ part := by
  induction cs with
  | nil => cases h
  | cons x xs ih =>
    rw [List.splitOn_cons_eq_if_modifyHead]
    obtain ⟨p, ps, hparts⟩ := List.exists_cons_of_ne_nil (List.splitOn_ne_nil sep xs)
    rw [hparts] at ih ⊢
    split_ifs with hx
    · rcases List.mem_cons.mp h with rfl | h
      · exact .inl (beq_iff_eq.mp hx)
      · exact (ih h).imp_right fun ⟨part, hpart, hc⟩ => ⟨part, List.mem_cons_of_mem _ hpart, hc⟩
    · rw [List.modifyHead_cons]
      rcases List.mem_cons.mp h with rfl | h
      · exact .inr ⟨c :: p, List.mem_cons_self, List.mem_cons_self⟩
      · rcases ih h with hc | ⟨part, hpart, hc⟩
        · exact .inl hc
        · rcases List.mem_cons.mp hpart with rfl | hpart
          · exact .inr ⟨x :: part, List.mem_cons_self, List.mem_cons_of_mem _ hc⟩
          · exact .inr ⟨part, List.mem_cons_of_mem _ hpart, hc⟩

/-- Splitting commutes with a map that moves nothing onto or off the separator. -/
theorem splitOn_map {f : Char → Char} {sep : Char} (hf : ∀ c, f c = sep ↔ c = sep)
    (cs : List Char) : (cs.map f).splitOn sep = (cs.splitOn sep).map (List.map f) := by
  induction cs with
  | nil => simp
  | cons x xs ih =>
    have hbeq : (f x == sep) = (x == sep) := by
      rw [Bool.eq_iff_iff, beq_iff_eq, beq_iff_eq]
      exact hf x
    rw [List.map_cons, List.splitOn_cons_eq_if_modifyHead, List.splitOn_cons_eq_if_modifyHead, hbeq,
      ih]
    obtain ⟨p, ps, hparts⟩ := List.exists_cons_of_ne_nil (List.splitOn_ne_nil sep xs)
    rw [hparts]
    split_ifs <;> rfl

theorem toLower_eq_iff {c d : Char} (hd : d.toNat < 65) : c.toLower = d ↔ c = d := by
  rw [← Char.toNat_inj, ← Char.toNat_inj, toNat_toLower]
  split_ifs <;> omega

theorem isDigit_toLower (c : Char) : c.toLower.isDigit = c.isDigit := by
  rw [Bool.eq_iff_iff, isDigit_iff, isDigit_iff, toNat_toLower]
  split_ifs <;> omega

theorem isAlphanum_toLower (c : Char) : c.toLower.isAlphanum = c.isAlphanum := by
  rw [Bool.eq_iff_iff, isAlphanum_iff, isAlphanum_iff, toNat_toLower]
  split_ifs <;> omega

theorem toLower_toLower (c : Char) : c.toLower.toLower = c.toLower := by
  rw [← Char.toNat_inj, toNat_toLower, toNat_toLower]
  split_ifs <;> omega

theorem labelOk_map_toLower {label : List Char} (h : labelOk label = true) :
    labelOk (label.map Char.toLower) = true := by
  have hdash : ∀ o : Option Char, (o.map Char.toLower != some '-') = (o != some '-') := by
    intro o
    cases o with
    | none => rfl
    | some c =>
      rw [Bool.eq_iff_iff]
      simp [toLower_eq_iff (c := c) (d := '-') (by decide)]
  have hchars : ∀ c : Char,
      (c.toLower.isAlphanum || c.toLower == '-') = (c.isAlphanum || c == '-') := by
    intro c
    rw [isAlphanum_toLower, Bool.eq_iff_iff]
    simp [toLower_eq_iff (c := c) (d := '-') (by decide)]
  unfold labelOk at h ⊢
  rw [List.isEmpty_map, List.length_map, List.head?_map, List.getLast?_map, hdash, hdash,
    List.all_map]
  simpa only [Function.comp_def, hchars] using h

theorem hostOk_iff : hostOk host = true ↔ host.length ≤ 253 ∧
    (∃ c ∈ host, c.isDigit = false ∧ c ≠ '.') ∧
      ∀ label ∈ host.splitOn '.', labelOk label = true := by
  simp [hostOk, and_assoc]

theorem hostOk_map_toLower (h : hostOk host = true) : hostOk (host.map Char.toLower) = true := by
  obtain ⟨hlen, ⟨c, hc, hdigit, hdot⟩, hlabels⟩ := hostOk_iff.mp h
  refine hostOk_iff.mpr ⟨by rwa [List.length_map], ⟨c.toLower, List.mem_map_of_mem hc, ?_, ?_⟩, ?_⟩
  · rwa [isDigit_toLower]
  · rwa [ne_eq, toLower_eq_iff (by decide)]
  · intro label hlabel
    rw [splitOn_map (fun c => toLower_eq_iff (by decide))] at hlabel
    obtain ⟨original, horiginal, rfl⟩ := List.mem_map.mp hlabel
    exact labelOk_map_toLower (hlabels original horiginal)

theorem IsHostChar.of_hostOk (h : hostOk host = true) {c : Char} (hc : c ∈ host) :
    IsHostChar c := by
  obtain ⟨-, -, hlabels⟩ := hostOk_iff.mp h
  rcases mem_splitOn '.' hc with rfl | ⟨label, hlabel, hmem⟩
  · decide
  · have hall := (Bool.and_eq_true_iff.mp (hlabels label hlabel)).2
    rcases Bool.or_eq_true_iff.mp (List.all_eq_true.mp hall c hmem) with halnum | hdash
    · have hrange := isAlphanum_iff.mp halnum
      unfold IsHostChar
      omega
    · rw [beq_iff_eq.mp hdash]
      decide

/-- An accepted name does not end in a dot, which would leave an empty label. -/
theorem stripDot_of_hostOk (h : hostOk host = true) : stripDot host = host := by
  apply if_neg
  intro hlast
  obtain ⟨init, rfl⟩ := List.getLast?_eq_some_iff.mp hlast
  obtain ⟨-, -, hlabels⟩ := hostOk_iff.mp h
  have hempty : [] ∈ (init ++ ['.']).splitOn '.' := by
    rw [List.splitOn_append_cons_self, List.splitOn_nil]
    exact List.mem_append_right _ (List.mem_singleton_self _)
  exact absurd (hlabels [] hempty) (by decide)

theorem splitOnce_append {sep : Char} {before : List Char} (h : sep ∉ before) (rest : List Char) :
    splitOnce sep (before ++ sep :: rest) = some (before, rest) := by
  have hall : ∀ c ∈ before, decide (c ≠ sep) = true := by
    intro c hc
    exact decide_eq_true (ne_of_mem_of_not_mem hc h)
  rw [splitOnce, if_pos (by simp), List.takeWhile_append_of_pos hall,
    List.dropWhile_append_of_pos hall]
  simp

/-- The port behind a name is read back. -/
theorem readHostPort_named {port : ℕ} (hcolon : ':' ∉ host) (hport : port < 65536) :
    readHostPort (host ++ ':' :: Nat.toDigits 10 port) = some (host, port) := by
  have hdigits : (Nat.toDigits 10 port).all Char.isDigit = true := by
    rw [List.all_eq_true]
    intro c hc
    exact Nat.isDigit_of_mem_toDigits (by omega) (by omega) hc
  rw [readHostPort, splitOnce_append hcolon]
  dsimp only
  rw [hdigits, List.isEmpty_eq_false_iff.mpr Nat.toDigits_ne_nil,
    fromStrRadix_toDigits (by omega) (by omega) (by omega)]
  simp [hport]

theorem not_mem_of_hostOk (h : hostOk host = true) {c : Char} (hc : ¬ IsHostChar c) : c ∉ host :=
  fun hmem => hc (.of_hostOk h hmem)

theorem isDigit_of_isRadixDigit {c : Char} (h : isRadixDigit 10 c = true) : c.isDigit = true := by
  unfold isRadixDigit digitValue at h
  simp only [char_le_iff] at h
  split_ifs at h with hdecimal
  · exact isDigit_iff.mpr hdecimal
  · simp at h
  · simp at h
  · cases h

theorem namedPort_of_hostOk (h : hostOk host = true) (port : ℕ) :
    NamedPort host (Nat.toDigits 10 port) where
  no_colon := not_mem_of_hostOk h (by decide)
  port_no_colon hmem := by
    cases Nat.isDigit_of_mem_toDigits (by omega) (by omega) hmem
  no_bracket := not_mem_of_hostOk h (by decide)
  not_digits := by
    obtain ⟨-, ⟨c, hc, hdigit, hdot⟩, -⟩ := hostOk_iff.mp h
    refine ⟨c, hc, ?_, hdot⟩
    rw [Bool.eq_false_iff]
    intro hradix
    rw [isDigit_of_isRadixDigit hradix] at hdigit
    cases hdigit

theorem readable_named (h : hostOk host = true) {port : ℕ} (hport : port < 65536) :
    readableEndpoint (host ++ ':' :: Nat.toDigits 10 port) = true := by
  obtain ⟨hlen, -, -⟩ := hostOk_iff.mp h
  have hdigits : (Nat.toDigits 10 port).length ≤ 5 :=
    (Nat.length_toDigits_le_iff (by omega) (by omega)).mpr (by omega)
  apply readableEndpoint_of_graphic
  · exact List.append_ne_nil_of_right_ne_nil _ (List.cons_ne_nil _ _)
  · rw [List.length_append, List.length_cons, maxPeerEndpointLen]
    omega
  · intro c hc
    rcases List.mem_append.mp hc with hc | hc
    · have hchar := IsHostChar.of_hostOk h hc
      unfold IsGraphic
      omega
    · rcases List.mem_cons.mp hc with rfl | hc
      · exact ⟨by decide, by decide⟩
      · have hchar := isDigit_iff.mp (Nat.isDigit_of_mem_toDigits (by omega) (by omega) hc)
        unfold IsGraphic
        omega

theorem stripBrackets_named (h : hostOk host = true) (rest : List Char) :
    stripBrackets (host ++ rest) = none := by
  obtain ⟨-, ⟨c, hc, -⟩, -⟩ := hostOk_iff.mp h
  cases host with
  | nil => cases hc
  | cons d host =>
    have hbracket : d ≠ '[' := by
      rintro rfl
      exact not_mem_of_hostOk h (c := '[') (by decide) List.mem_cons_self
    rw [List.cons_append]
    unfold stripBrackets
    split
    · rename_i heq
      exact absurd (List.cons.inj heq).1 hbracket
    · rfl

/-- A printed name is in normal form. -/
theorem normalizeChars_printNamed (h : hostOk host = true) {port : ℕ} (hpos : port ≠ 0)
    (hport : port < 65536) :
    normalizeChars (printNamed host port) = some (printNamed host port) := by
  have hlower := hostOk_map_toLower h
  have hnamed := namedPort_of_hostOk hlower port
  have hsame : printNamed (host.map Char.toLower) port = printNamed host port := by
    simp only [printNamed, List.map_map, Function.comp_def, toLower_toLower]
  rw [normalizeChars, printNamed, readable_named hlower hport, hnamed.parseSocketAddr_eq_none,
    hnamed.parseIpAddr_eq_none, stripBrackets_named hlower]
  simp only [normalizeNamed, readHostPort_named hnamed.no_colon hport, Option.bind_some,
    stripDot_of_hostOk hlower, hlower, hsame]
  simp [hpos, printNamed]

end Names

/-! ### Normal forms are kept -/

theorem readHostPort_lt {endpoint host : List Char} {port : ℕ}
    (h : readHostPort endpoint = some (host, port)) : port < 65536 := by
  unfold readHostPort at h
  split at h
  · split_ifs at h
    obtain ⟨n, hn, hr⟩ := Option.map_eq_some_iff.mp h
    obtain ⟨-, rfl⟩ := Prod.mk.inj hr
    simpa using (Option.filter_eq_some_iff.mp hn).2
  · obtain ⟨-, rfl⟩ := Prod.mk.inj (Option.some.inj h)
    decide

/-- An accepted endpoint is brought to a form that is accepted and stays as it is. -/
theorem normalizeChars_idem {endpoint out : List Char} (h : normalizeChars endpoint = some out) :
    normalizeChars out = some out := by
  have hdefault : ∀ ip, (SocketAddr.new ip handoverPort).port ≠ 0 := by
    intro ip
    rw [port_new]
    decide
  unfold normalizeChars at h
  split_ifs at h
  split at h
  · split_ifs at h with hport
    obtain rfl := Option.some.inj h
    exact normalizeChars_printSocketAddr hport
  · split at h
    · obtain rfl := Option.some.inj h
      exact normalizeChars_printSocketAddr (hdefault _)
    · split at h
      · obtain ⟨ip, -, rfl⟩ := Option.map_eq_some_iff.mp h
        exact normalizeChars_printSocketAddr (hdefault _)
      · obtain ⟨⟨host, port⟩, hread, hr⟩ := Option.bind_eq_some_iff.mp h
        split_ifs at hr with hbad
        obtain rfl := Option.some.inj hr
        simp only [Bool.or_eq_true, decide_eq_true_eq, Bool.not_eq_true', not_or,
          Bool.not_eq_false] at hbad
        exact normalizeChars_printNamed hbad.2 hbad.1 (readHostPort_lt hread)

/-- What is accepted is readable. -/
theorem readable_of_normalizeChars {endpoint out : List Char}
    (h : normalizeChars endpoint = some out) : readableEndpoint endpoint = true := by
  unfold normalizeChars at h
  split_ifs at h with hbad
  simpa using hbad

theorem normalizePeer_idem {endpoint peer : String} (h : normalizePeer endpoint = some peer) :
    normalizePeer peer = some peer := by
  obtain ⟨out, hout, rfl⟩ := Option.map_eq_some_iff.mp h
  rw [normalizePeer, String.toList_ofList, normalizeChars_idem hout, Option.map_some]

theorem readable_of_normalizePeer {endpoint peer : String}
    (h : normalizePeer endpoint = some peer) :
    readableEndpoint endpoint.toList = true := by
  obtain ⟨out, hout, -⟩ := Option.map_eq_some_iff.mp h
  exact readable_of_normalizeChars hout

/-! ### The peers of a state -/

/-- A call that changes the state. -/
inductive StateCall where
  | publishCandidate (addr : Address) (pubkey : List UInt8)
  | installKey (rootBytes : Key) (addr : Address) (pubkey : List UInt8) (source : KeySource)
  | addApproval (va : VerifiedApproval)
  | setPeerHints (oraclePeers : List String)

def OracleKeyexState.call (img : OracleImage) (st : OracleKeyexState) :
    StateCall → OracleKeyexState
  | .publishCandidate addr pubkey => st.publishCandidate addr pubkey
  | .installKey rootBytes addr pubkey source => st.installKey rootBytes addr pubkey source
  | .addApproval va => st.addApproval va
  | .setPeerHints oraclePeers => st.setPeerHints img oraclePeers

def OracleKeyexState.callAll (img : OracleImage) (st : OracleKeyexState) (calls : List StateCall) :
    OracleKeyexState :=
  calls.foldl (OracleKeyexState.call img) st

def hintsAfter (hints : List String) : StateCall → List String
  | .setPeerHints oraclePeers => oraclePeers
  | _ => hints

/-- The hints of the last call that sets any, as the host sent them. -/
def lastHints (calls : List StateCall) : List String := calls.foldl hintsAfter []

/-- The image with the rules above for endpoints. -/
def OracleImage.withPeerRules (img : OracleImage) : OracleImage :=
  { img with normalizePeer := ControlChannel.normalizePeer }

def validPeers (peers : List String) : List String := peers.filterMap normalizePeer

/-- The loop collects distinct normal forms and stops at the bound. -/
theorem boundedPeersFrom_eq (f : String → Option String) {out : List String}
    (h : out.length < maxBootPeers) (peers : List String) :
    boundedPeersFrom f out peers = (pushAll out (peers.filterMap f)).take maxBootPeers := by
  induction peers generalizing out with
  | nil =>
    rw [boundedPeersFrom, List.filterMap_nil, List.take_of_length_le (by exact h.le)]
    rfl
  | cons p ps ih =>
    rw [boundedPeersFrom]
    cases hp : f p with
    | none =>
      rw [List.filterMap_cons_none hp]
      exact ih h
    | some q =>
      have hstep : pushAll out ((p :: ps).filterMap f) =
          pushAll (pushNew out q) (ps.filterMap f) := by
        rw [List.filterMap_cons_some hp]
        rfl
      rw [hstep, pushNew]
      dsimp only
      split_ifs with hmem hfull
      · exact ih h
      · obtain ⟨rest, hrest⟩ := prefix_pushAll (out ++ [q]) (ps.filterMap f)
        rw [← hrest, List.take_left' hfull]
      · apply ih
        rw [List.length_append, List.length_singleton] at hfull ⊢
        omega

theorem boundedPeers_eq (f : String → Option String) (peers : List String) :
    boundedPeers f peers = (distinct (peers.filterMap f)).take maxBootPeers :=
  boundedPeersFrom_eq f (by decide) peers

theorem callAll_oraclePeers (img : OracleImage) (calls : List StateCall) :
    (OracleKeyexState.new.callAll img calls).oraclePeers =
      boundedPeers img.normalizePeer (lastHints calls) := by
  have hrun : ∀ (calls : List StateCall) (st : OracleKeyexState) (hints : List String),
      st.oraclePeers = boundedPeers img.normalizePeer hints →
        (st.callAll img calls).oraclePeers =
          boundedPeers img.normalizePeer (calls.foldl hintsAfter hints) := by
    intro calls
    induction calls with
    | nil =>
      intro st hints h
      exact h
    | cons call calls ih =>
      intro st hints h
      apply ih
      cases call with
      | publishCandidate addr pubkey => exact h
      | installKey rootBytes addr pubkey source => exact h
      | addApproval va => exact h
      | setPeerHints oraclePeers => rfl
  exact hrun calls .new [] rfl

/-- Normal forms are valid as they are. -/
theorem validPeers_of_normal {peers : List String} (h : ∀ p ∈ peers, normalizePeer p = some p) :
    validPeers peers = peers := by
  rw [validPeers, List.filterMap_congr h, List.filterMap_some]

theorem peerSnapshot_eq (img : OracleImage) (calls : List StateCall) :
    (OracleKeyexState.new.callAll img.withPeerRules calls).peerSnapshot img.withPeerRules =
      (pushAll (distinct (validPeers img.peers)) (validPeers (lastHints calls))).take
        maxBootPeers := by
  have hhints := callAll_oraclePeers img.withPeerRules calls
  rw [boundedPeers_eq] at hhints
  have hnormal : validPeers ((distinct (validPeers (lastHints calls))).take maxBootPeers) =
      (distinct (validPeers (lastHints calls))).take maxBootPeers := by
    apply validPeers_of_normal
    intro p hp
    obtain ⟨endpoint, -, hendpoint⟩ :=
      List.mem_filterMap.mp (mem_distinct.mp (List.mem_of_mem_take hp))
    exact normalizePeer_idem hendpoint
  rw [OracleKeyexState.peerSnapshot, boundedPeers_eq, hhints, List.filterMap_append]
  change (distinct (validPeers img.peers ++
    validPeers ((distinct (validPeers (lastHints calls))).take maxBootPeers))).take _ = _
  rw [hnormal, distinct_append, take_pushAll_take]

/-- The baked peers come first and hints fill the room they leave, as if no hint had been dropped
before; and normal forms are visible text that is its own normal form. -/
theorem baked_peers_first (img : OracleImage) (calls : List StateCall) :
    (OracleKeyexState.new.callAll img.withPeerRules calls).peerSnapshot img.withPeerRules =
        (distinct (validPeers img.peers ++ validPeers (lastHints calls))).take 16 ∧
      (∃ hinted,
        (OracleKeyexState.new.callAll img.withPeerRules calls).peerSnapshot img.withPeerRules =
          (distinct (validPeers img.peers)).take 16 ++ hinted ∧
        ∀ p ∈ hinted, p ∈ validPeers (lastHints calls) ∧ p ∉ validPeers img.peers) ∧
      ∀ endpoint peer, normalizePeer endpoint = some peer →
        normalizePeer peer = some peer ∧
          ∀ c ∈ peer.toList, c.toNat < 128 ∧ isAsciiWhitespace c = false ∧
            isAsciiControl c = false := by
  refine ⟨?_, ?_, ?_⟩
  · rw [peerSnapshot_eq, distinct_append]
    rfl
  · rw [peerSnapshot_eq, pushAll_eq_append, List.take_append]
    refine ⟨_, rfl, ?_⟩
    intro p hp
    obtain ⟨hmem, hnew⟩ := List.mem_filter.mp (List.mem_of_mem_take hp)
    exact ⟨mem_distinct.mp hmem, by simpa using hnew⟩
  · intro endpoint peer h
    have hidem := normalizePeer_idem h
    obtain ⟨-, -, hascii, hvisible⟩ := readableEndpoint_iff.mp (readable_of_normalizePeer hidem)
    exact ⟨hidem, fun c hc => ⟨hascii c hc, hvisible c hc⟩⟩

end Nuntius.ControlChannel
