import Mathlib.Data.List.TakeWhile
import Nuntius.DigitText

/-!
# Text of IP and socket addresses

Readers and printers of addresses as in the Rust standard library. A reader returns what it read
with the rest of the text, and leaves the text alone if it fails. A printed socket address is
read back as itself, and only certain texts are read at all.
-/

namespace Nuntius.AddressText
open WireFormat

structure Ipv4Addr where
  a : UInt8
  b : UInt8
  c : UInt8
  d : UInt8
  deriving DecidableEq

abbrev Ipv6Addr := {segments : List UInt16 // segments.length = 8}

inductive IpAddr where
  | v4 (ip : Ipv4Addr)
  | v6 (ip : Ipv6Addr)
  deriving DecidableEq

inductive SocketAddr where
  | v4 (ip : Ipv4Addr) (port : UInt16)
  | v6 (ip : Ipv6Addr) (scopeId : UInt32) (port : UInt16)
  deriving DecidableEq

namespace SocketAddr

def new (ip : IpAddr) (port : UInt16) : SocketAddr :=
  match ip with
  | .v4 ip => .v4 ip port
  | .v6 ip => .v6 ip 0 port

def port : SocketAddr → UInt16
  | .v4 _ port => port
  | .v6 _ _ port => port

end SocketAddr

/-! ### Readers -/

abbrev Reader (α : Type) := List Char → Option (α × List Char)

def readGivenChar (target : Char) : Reader Unit
  | [] => none
  | c :: cs => if c = target then some ((), cs) else none

/-- Behind the first item a separator comes first. -/
def readSeparator {α : Type} (sep : Char) (index : ℕ) (inner : Reader α) : Reader α := fun cs =>
  if 0 < index then (readGivenChar sep cs).bind (fun r => inner r.2) else inner cs

def isRadixDigit (radix : ℕ) (c : Char) : Bool := (digitValue c).any (· < radix)

/-- The digits up to the first foreign character, unless there are none, or more than allowed, or
they start with a needless zero where that is forbidden, or the number is too large. -/
def readNumber (radix bound : ℕ) (maxDigits : Option ℕ) (allowZeroStart : Bool) : Reader ℕ :=
  fun cs =>
    let digits := cs.takeWhile (isRadixDigit radix)
    if digits.isEmpty || maxDigits.any (· < digits.length) ||
        (!allowZeroStart && digits.head? == some '0' && decide (1 < digits.length)) then none
    else
      ((readDigits radix 0 digits).filter (· < bound)).map
        fun n => (n, cs.dropWhile (isRadixDigit radix))

def readOctet : Reader UInt8 := fun cs =>
  (readNumber 10 256 (some 3) false cs).map fun r => (UInt8.ofNat r.1, r.2)

def readGroup : Reader UInt16 := fun cs =>
  (readNumber 16 65536 (some 4) true cs).map fun r => (UInt16.ofNat r.1, r.2)

def readIpv4Addr : Reader Ipv4Addr := fun cs => do
  let (a, cs) ← readSeparator '.' 0 readOctet cs
  let (b, cs) ← readSeparator '.' 1 readOctet cs
  let (c, cs) ← readSeparator '.' 2 readOctet cs
  let (d, cs) ← readSeparator '.' 3 readOctet cs
  some (⟨a, b, c, d⟩, cs)

/-- Two bytes as a group. -/
def joinBytes (hi lo : UInt8) : UInt16 := UInt16.ofNat (hi.toNat * 256 + lo.toNat)

/-- At most `left` groups from the given index on, whether they end in an embedded IPv4 address,
which stands for two, and the rest. -/
def readGroups : (left index : ℕ) → List Char → List UInt16 × Bool × List Char
  | 0, _, cs => ([], false, cs)
  | left + 1, index, cs =>
    match if 0 < left then readSeparator ':' index readIpv4Addr cs else none with
    | some (ip, rest) => ([joinBytes ip.a ip.b, joinBytes ip.c ip.d], true, rest)
    | none =>
      match readSeparator ':' index readGroup cs with
      | some (group, rest) =>
        let (groups, embedded, rest) := readGroups left (index + 1) rest
        (group :: groups, embedded, rest)
      | none => ([], false, cs)

def ofGroups (groups : List UInt16) : Option Ipv6Addr :=
  if h : groups.length = 8 then some ⟨groups, h⟩ else none

/-- All eight groups, or those before and behind a double colon, which stands for at least one
group of zeros. -/
def readIpv6Addr : Reader Ipv6Addr := fun cs => do
  let (head, embedded, cs) := readGroups 8 0 cs
  if head.length = 8 then
    let ip ← ofGroups head
    some (ip, cs)
  else if embedded then none
  else
    let (_, cs) ← readGivenChar ':' cs
    let (_, cs) ← readGivenChar ':' cs
    let (tail, _, cs) := readGroups (8 - (head.length + 1)) 0 cs
    let ip ← ofGroups (head ++ List.replicate (8 - head.length - tail.length) 0 ++ tail)
    some (ip, cs)

def readIpAddr : Reader IpAddr := fun cs =>
  match readIpv4Addr cs with
  | some (ip, rest) => some (.v4 ip, rest)
  | none => (readIpv6Addr cs).map fun r => (.v6 r.1, r.2)

def readPort : Reader UInt16 := fun cs => do
  let (_, cs) ← readGivenChar ':' cs
  let (n, cs) ← readNumber 10 65536 none true cs
  some (UInt16.ofNat n, cs)

def readScopeId : Reader UInt32 := fun cs => do
  let (_, cs) ← readGivenChar '%' cs
  let (n, cs) ← readNumber 10 4294967296 none true cs
  some (UInt32.ofNat n, cs)

def readSocketAddrV4 : Reader SocketAddr := fun cs => do
  let (ip, cs) ← readIpv4Addr cs
  let (port, cs) ← readPort cs
  some (.v4 ip port, cs)

def readSocketAddrV6 : Reader SocketAddr := fun cs => do
  let (_, cs) ← readGivenChar '[' cs
  let (ip, cs) ← readIpv6Addr cs
  let (scopeId, cs) := (readScopeId cs).getD (0, cs)
  let (_, cs) ← readGivenChar ']' cs
  let (port, cs) ← readPort cs
  some (.v6 ip scopeId port, cs)

def readSocketAddr : Reader SocketAddr := fun cs =>
  match readSocketAddrV4 cs with
  | some r => some r
  | none => readSocketAddrV6 cs

/-- The whole text has to be read. -/
def parseWith {α : Type} (r : Reader α) (cs : List Char) : Option α :=
  match r cs with
  | some (x, []) => some x
  | _ => none

def parseSocketAddr : List Char → Option SocketAddr := parseWith readSocketAddr

def parseIpAddr : List Char → Option IpAddr := parseWith readIpAddr

def parseIpv6Addr : List Char → Option Ipv6Addr := parseWith readIpv6Addr

/-! ### Printers -/

def printIpv4Addr (ip : Ipv4Addr) : List Char :=
  Nat.toDigits 10 ip.a.toNat ++ '.' :: (Nat.toDigits 10 ip.b.toNat ++
    '.' :: (Nat.toDigits 10 ip.c.toNat ++ '.' :: Nat.toDigits 10 ip.d.toNat))

/-- The IPv4 address in `::ffff:a.b.c.d`. -/
def toIpv4Mapped (ip : Ipv6Addr) : Option Ipv4Addr :=
  match ip.val with
  | [0, 0, 0, 0, 0, 0xffff, ab, cd] =>
    some ⟨UInt8.ofNat (ab.toNat / 256), UInt8.ofNat ab.toNat, UInt8.ofNat (cd.toNat / 256),
      UInt8.ofNat cd.toNat⟩
  | _ => none

structure Span where
  start : ℕ
  len : ℕ

/-- The longest span of zeros so far and the one that is going on. -/
def spanStep (spans : Span × Span) (segment : UInt16 × ℕ) : Span × Span :=
  if segment.1 = 0 then
    let current : Span :=
      ⟨if spans.2.len = 0 then segment.2 else spans.2.start, spans.2.len + 1⟩
    (if spans.1.len < current.len then current else spans.1, current)
  else (spans.1, ⟨0, 0⟩)

def zeroSpan (segments : List UInt16) : Span :=
  (segments.zipIdx.foldl spanStep (⟨0, 0⟩, ⟨0, 0⟩)).1

def hexText (group : UInt16) : List Char := Nat.toDigits 16 group.toNat

/-- Groups behind a first one. -/
def moreGroups (groups : List UInt16) : List Char := groups.flatMap fun g => ':' :: hexText g

def fmtSubslice : List UInt16 → List Char
  | [] => []
  | g :: gs => hexText g ++ moreGroups gs

def printIpv6Addr (ip : Ipv6Addr) : List Char :=
  match toIpv4Mapped ip with
  | some ipv4 => "::ffff:".toList ++ printIpv4Addr ipv4
  | none =>
    let zeroes := zeroSpan ip.val
    if 1 < zeroes.len then
      fmtSubslice (ip.val.take zeroes.start) ++
        ':' :: ':' :: fmtSubslice (ip.val.drop (zeroes.start + zeroes.len))
    else fmtSubslice ip.val

def printPort (port : UInt16) : List Char := ':' :: Nat.toDigits 10 port.toNat

def printScopeId (scopeId : UInt32) : List Char :=
  if scopeId = 0 then [] else '%' :: Nat.toDigits 10 scopeId.toNat

def printSocketAddr : SocketAddr → List Char
  | .v4 ip port => printIpv4Addr ip ++ printPort port
  | .v6 ip scopeId port =>
    '[' :: (printIpv6Addr ip ++ (printScopeId scopeId ++ ']' :: printPort port))

/-! ### Numbers are read back -/

/-- No digit of the radix comes first. -/
def StopsAt (radix : ℕ) (rest : List Char) : Prop :=
  ∀ c cs, rest = c :: cs → isRadixDigit radix c = false

section Numbers
variable {radix : ℕ}

theorem stopsAt_nil : StopsAt radix [] := by
  intro c cs h
  cases h

theorem stopsAt_cons {c : Char} {cs : List Char} (h : isRadixDigit radix c = false) :
    StopsAt radix (c :: cs) := by
  intro c' cs' heq
  obtain ⟨rfl, rfl⟩ := List.cons.inj heq
  exact h

theorem StopsAt.takeWhile {rest : List Char} (h : StopsAt radix rest) :
    rest.takeWhile (isRadixDigit radix) = [] := by
  cases rest with
  | nil => rfl
  | cons c cs => rw [List.takeWhile_cons, h c cs rfl, if_neg Bool.false_ne_true]

theorem StopsAt.dropWhile {rest : List Char} (h : StopsAt radix rest) :
    rest.dropWhile (isRadixDigit radix) = rest := by
  cases rest with
  | nil => rfl
  | cons c cs => rw [List.dropWhile_cons, h c cs rfl, if_neg Bool.false_ne_true]

theorem readNumber_of_stopsAt {bound : ℕ} {maxDigits : Option ℕ} {allowZeroStart : Bool}
    {rest : List Char} (h : StopsAt radix rest) :
    readNumber radix bound maxDigits allowZeroStart rest = none := by
  unfold readNumber
  rw [h.takeWhile]
  rfl

theorem isRadixDigit_of_mem (hlow : 1 < radix) (hradix : radix ≤ 16) {n : ℕ} {c : Char}
    (h : c ∈ Nat.toDigits radix n) : isRadixDigit radix c = true := by
  obtain ⟨d, hd, rfl⟩ := mem_toDigits hlow h
  rw [isRadixDigit, digitValue_digitChar (hd.trans_le hradix)]
  simpa using hd

/-- A printed number is read back up to where its digits end. -/
theorem readNumber_toDigits (hlow : 1 < radix) (hradix : radix ≤ 16) {n bound : ℕ}
    (hn : n < bound) {maxDigits : Option ℕ} (hmax : ∀ m, maxDigits = some m → 0 < m ∧ n < radix ^ m)
    (allowZeroStart : Bool) {rest : List Char} (hrest : StopsAt radix rest) :
    readNumber radix bound maxDigits allowZeroStart (Nat.toDigits radix n ++ rest) =
      some (n, rest) := by
  have hdigits : ∀ c ∈ Nat.toDigits radix n, isRadixDigit radix c = true :=
    fun c hc => isRadixDigit_of_mem hlow hradix hc
  have htake : (Nat.toDigits radix n ++ rest).takeWhile (isRadixDigit radix) =
      Nat.toDigits radix n := by
    rw [List.takeWhile_append_of_pos hdigits, hrest.takeWhile, List.append_nil]
  have hempty : (Nat.toDigits radix n).isEmpty = false :=
    List.isEmpty_eq_false_iff.mpr Nat.toDigits_ne_nil
  have hfew : maxDigits.any (· < (Nat.toDigits radix n).length) = false := by
    cases maxDigits with
    | none => rfl
    | some m =>
      obtain ⟨hm, hlt⟩ := hmax m rfl
      simpa using (Nat.length_toDigits_le_iff hlow hm).mpr hlt
  have hzero : ((Nat.toDigits radix n).head? == some '0' &&
      decide (1 < (Nat.toDigits radix n).length)) = false := by
    rcases Nat.eq_zero_or_pos n with rfl | hpos
    · rw [Nat.toDigits_zero]
      rfl
    · rw [beq_eq_false_iff_ne.mpr (head?_toDigits hlow hpos), Bool.false_and]
  unfold readNumber
  dsimp only
  rw [htake, List.dropWhile_append_of_pos hdigits, hrest.dropWhile,
    readDigits_toDigits hlow hradix, hempty, hfew, Bool.and_assoc, hzero, Bool.and_false]
  simp [hn]

end Numbers

section Fields
variable {rest : List Char}

theorem readOctet_toDigits (x : UInt8) (hrest : StopsAt 10 rest) :
    readOctet (Nat.toDigits 10 x.toNat ++ rest) = some (x, rest) := by
  have hx := x.toNat_lt
  have hmax : ∀ m, some 3 = some m → 0 < m ∧ x.toNat < 10 ^ m := by
    intro m hm
    obtain rfl := Option.some.inj hm
    omega
  rw [readOctet, readNumber_toDigits (by omega) (by omega) hx hmax false hrest, Option.map_some,
    UInt8.ofNat_toNat]

theorem readGroup_hexText (x : UInt16) (hrest : StopsAt 16 rest) :
    readGroup (hexText x ++ rest) = some (x, rest) := by
  have hx := x.toNat_lt
  have hmax : ∀ m, some 4 = some m → 0 < m ∧ x.toNat < 16 ^ m := by
    intro m hm
    obtain rfl := Option.some.inj hm
    omega
  rw [readGroup, hexText, readNumber_toDigits (by omega) (by omega) hx hmax true hrest,
    Option.map_some, UInt16.ofNat_toNat]

theorem readOctet_of_stopsAt (h : StopsAt 10 rest) : readOctet rest = none := by
  rw [readOctet, readNumber_of_stopsAt h, Option.map_none]

theorem readGroup_of_stopsAt (h : StopsAt 16 rest) : readGroup rest = none := by
  rw [readGroup, readNumber_of_stopsAt h, Option.map_none]

theorem readPort_printPort (port : UInt16) : readPort (printPort port) = some (port, []) := by
  have hport := port.toNat_lt
  have hread : readNumber 10 65536 none true (Nat.toDigits 10 port.toNat ++ []) =
      some (port.toNat, []) :=
    readNumber_toDigits (by omega) (by omega) hport (by simp) true stopsAt_nil
  rw [List.append_nil] at hread
  simp [readPort, printPort, readGivenChar, hread]

theorem readScopeId_printScopeId (scopeId : UInt32) (rest : List Char) :
    (readScopeId (printScopeId scopeId ++ ']' :: rest)).getD
      (0, printScopeId scopeId ++ ']' :: rest) = (scopeId, ']' :: rest) := by
  unfold printScopeId
  split_ifs with hzero
  · rw [hzero]
    rfl
  · have hscope := scopeId.toNat_lt
    have hread : readNumber 10 4294967296 none true
        (Nat.toDigits 10 scopeId.toNat ++ ']' :: rest) = some (scopeId.toNat, ']' :: rest) :=
      readNumber_toDigits (by omega) (by omega) hscope (by simp) true (stopsAt_cons rfl)
    simp [readScopeId, readGivenChar, hread]

theorem readIpv4Addr_printIpv4Addr (ip : Ipv4Addr) (hrest : StopsAt 10 rest) :
    readIpv4Addr (printIpv4Addr ip ++ rest) = some (ip, rest) := by
  have hdot : ∀ cs, StopsAt 10 ('.' :: cs) := fun cs => stopsAt_cons rfl
  simp [readIpv4Addr, printIpv4Addr, readSeparator, readGivenChar, readOctet_toDigits, hdot, hrest]

end Fields

/-! ### What a reader uses up -/

theorem readNumber_used {radix bound : ℕ} {maxDigits : Option ℕ} {allowZeroStart : Bool}
    {cs rest : List Char} {n : ℕ}
    (h : readNumber radix bound maxDigits allowZeroStart cs = some (n, rest)) :
    ∃ used, cs = used ++ rest ∧ ∀ c ∈ used, isRadixDigit radix c = true := by
  unfold readNumber at h
  dsimp only at h
  split_ifs at h
  obtain ⟨m, -, hm⟩ := Option.map_eq_some_iff.mp h
  obtain ⟨-, rfl⟩ := Prod.mk.inj hm
  exact ⟨_, List.takeWhile_append_dropWhile.symm, fun c hc => List.mem_takeWhile_imp hc⟩

theorem readGivenChar_eq_some {target : Char} {cs : List Char} {r : Unit × List Char}
    (h : readGivenChar target cs = some r) : cs = target :: r.2 := by
  cases cs with
  | nil => cases h
  | cons c cs =>
    rw [readGivenChar] at h
    split_ifs at h with hc
    obtain rfl := Option.some.inj h
    rw [hc]

theorem readOctet_used {cs rest : List Char} {x : UInt8} (h : readOctet cs = some (x, rest)) :
    ∃ used, cs = used ++ rest ∧ ∀ c ∈ used, isRadixDigit 10 c = true := by
  obtain ⟨⟨n, rest'⟩, hread, hr⟩ := Option.map_eq_some_iff.mp h
  obtain ⟨-, rfl⟩ := Prod.mk.inj hr
  exact readNumber_used hread

/-- An octet behind a dot. -/
theorem readSeparator_dot_used {cs rest : List Char} {index : ℕ} {x : UInt8} (hindex : 0 < index)
    (h : readSeparator '.' index readOctet cs = some (x, rest)) :
    ∃ used, cs = '.' :: used ++ rest ∧ ∀ c ∈ used, isRadixDigit 10 c = true := by
  rw [readSeparator, if_pos hindex] at h
  obtain ⟨r, hdot, hoctet⟩ := Option.bind_eq_some_iff.mp h
  obtain ⟨used, hused, hdigits⟩ := readOctet_used hoctet
  refine ⟨used, ?_, hdigits⟩
  rw [readGivenChar_eq_some hdot, hused, List.cons_append]

/-- An IPv4 address uses up digits and dots, and at least one dot. -/
theorem readIpv4Addr_used {cs rest : List Char} {ip : Ipv4Addr}
    (h : readIpv4Addr cs = some (ip, rest)) :
    ∃ used, cs = used ++ rest ∧ '.' ∈ used ∧ ∀ c ∈ used, isRadixDigit 10 c = true ∨ c = '.' := by
  simp only [readIpv4Addr, Option.bind_eq_bind, Option.bind_eq_some_iff, Prod.exists] at h
  obtain ⟨a, cs₁, ha, b, cs₂, hb, c, cs₃, hc, d, cs₄, hd, hip⟩ := h
  obtain ⟨-, rfl⟩ := Prod.mk.inj (Option.some.inj hip)
  obtain ⟨ua, rfl, hua⟩ := readOctet_used ha
  obtain ⟨ub, rfl, hub⟩ := readSeparator_dot_used (by omega) hb
  obtain ⟨uc, rfl, huc⟩ := readSeparator_dot_used (by omega) hc
  obtain ⟨ud, rfl, hud⟩ := readSeparator_dot_used (by omega) hd
  refine ⟨ua ++ '.' :: ub ++ '.' :: uc ++ '.' :: ud, by simp, by simp, ?_⟩
  intro x hx
  simp only [List.mem_append, List.mem_cons] at hx
  rcases hx with ((hx | rfl | hx) | rfl | hx) | rfl | hx
  · exact .inl (hua x hx)
  · exact .inr rfl
  · exact .inl (hub x hx)
  · exact .inr rfl
  · exact .inl (huc x hx)
  · exact .inr rfl
  · exact .inl (hud x hx)

theorem readIpv4Addr_of_no_dot {cs : List Char} (h : '.' ∉ cs) : readIpv4Addr cs = none := by
  rw [Option.eq_none_iff_forall_ne_some]
  rintro ⟨ip, rest⟩ hread
  obtain ⟨used, rfl, hdot, -⟩ := readIpv4Addr_used hread
  exact h (List.mem_append_left _ hdot)

/-! ### Groups are read back -/

/-- What may follow the groups of an address: nothing that could be read as part of it. -/
structure GroupsEnd (rest : List Char) : Prop where
  no_dot : '.' ∉ rest
  stops : StopsAt 16 rest
  separator : readSeparator ':' 1 readGroup rest = none

theorem dot_not_mem_toDigits {radix : ℕ} (hlow : 1 < radix) (hradix : radix ≤ 16) (n : ℕ) :
    '.' ∉ Nat.toDigits radix n := by
  intro h
  have hdigit := isRadixDigit_of_mem hlow hradix h
  have hnone : digitValue '.' = none := rfl
  rw [isRadixDigit, hnone] at hdigit
  cases hdigit

theorem dot_not_mem_hexText (g : UInt16) : '.' ∉ hexText g :=
  dot_not_mem_toDigits (by omega) (by omega) g.toNat

theorem dot_not_mem_moreGroups (gs : List UInt16) : '.' ∉ moreGroups gs := by
  intro h
  obtain ⟨g, -, hg⟩ := List.mem_flatMap.mp h
  rcases List.mem_cons.mp hg with hg | hg
  · exact absurd hg (by decide)
  · exact dot_not_mem_hexText g hg

theorem dot_not_mem_fmtSubslice (gs : List UInt16) : '.' ∉ fmtSubslice gs := by
  cases gs with
  | nil => exact List.not_mem_nil
  | cons g gs =>
    rw [fmtSubslice, List.mem_append, not_or]
    exact ⟨dot_not_mem_hexText g, dot_not_mem_moreGroups gs⟩

theorem GroupsEnd.fmtSubslice_no_dot {rest : List Char} (h : GroupsEnd rest) (gs : List UInt16) :
    '.' ∉ fmtSubslice gs ++ rest := by
  rw [List.mem_append, not_or]
  exact ⟨dot_not_mem_fmtSubslice gs, h.no_dot⟩

theorem readSeparator_of_pos {α : Type} {sep : Char} {inner : Reader α} {index : ℕ}
    (h : 0 < index) : readSeparator sep index inner = readSeparator sep 1 inner := by
  funext cs
  rw [readSeparator, readSeparator, if_pos h, if_pos Nat.one_pos]

theorem readSeparator_of_no_dot {sep : Char} {index : ℕ} {cs : List Char} (h : '.' ∉ cs) :
    readSeparator sep index readIpv4Addr cs = none := by
  unfold readSeparator
  split_ifs
  · cases hgiven : readGivenChar sep cs with
    | none => rfl
    | some r =>
      rw [readGivenChar_eq_some hgiven, List.mem_cons, not_or] at h
      exact readIpv4Addr_of_no_dot h.2
  · exact readIpv4Addr_of_no_dot h

/-- One step over a text without embedded address. -/
theorem readGroups_succ {left index : ℕ} {cs : List Char} (h : '.' ∉ cs) :
    readGroups (left + 1) index cs =
      match readSeparator ':' index readGroup cs with
      | some (group, rest) =>
        (group :: (readGroups left (index + 1) rest).1, (readGroups left (index + 1) rest).2)
      | none => ([], false, cs) := by
  rw [readGroups, readSeparator_of_no_dot h, ite_self]

theorem stopsAt_moreGroups {rest : List Char} (h : StopsAt 16 rest) (gs : List UInt16) :
    StopsAt 16 (moreGroups gs ++ rest) := by
  cases gs with
  | nil => exact h
  | cons g gs => exact stopsAt_cons rfl

theorem readGroups_moreGroups {gs : List UInt16} {left index : ℕ} {rest : List Char}
    (hindex : 0 < index) (hlen : gs.length ≤ left) (hrest : GroupsEnd rest) :
    readGroups left index (moreGroups gs ++ rest) = (gs, false, rest) := by
  induction gs generalizing left index with
  | nil =>
    cases left with
    | zero => rfl
    | succ left =>
      rw [moreGroups, List.flatMap_nil, List.nil_append, readGroups_succ hrest.no_dot,
        readSeparator_of_pos hindex, hrest.separator]
  | cons g gs ih =>
    cases left with
    | zero => simp at hlen
    | succ left =>
      have htext :
          moreGroups (g :: gs) ++ rest = ':' :: (hexText g ++ (moreGroups gs ++ rest)) := by
        simp [moreGroups]
      have hdot : '.' ∉ moreGroups (g :: gs) ++ rest := by
        rw [List.mem_append, not_or]
        exact ⟨dot_not_mem_moreGroups _, hrest.no_dot⟩
      have hgroup : readSeparator ':' index readGroup (moreGroups (g :: gs) ++ rest) =
          some (g, moreGroups gs ++ rest) := by
        rw [htext, readSeparator, if_pos hindex]
        exact readGroup_hexText g (stopsAt_moreGroups hrest.stops gs)
      rw [readGroups_succ hdot, hgroup]
      dsimp only
      rw [ih (Nat.succ_pos index) (Nat.le_of_succ_le_succ hlen)]

theorem readGroups_fmtSubslice (gs : List UInt16) (left : ℕ) {rest : List Char}
    (hlen : gs.length ≤ left) (hrest : GroupsEnd rest) :
    readGroups left 0 (fmtSubslice gs ++ rest) = (gs, false, rest) := by
  cases left with
  | zero =>
    obtain rfl := List.eq_nil_of_length_eq_zero (Nat.le_zero.mp hlen)
    rfl
  | succ left =>
    rw [readGroups_succ (hrest.fmtSubslice_no_dot gs), readSeparator, if_neg (Nat.lt_irrefl 0)]
    cases gs with
    | nil =>
      rw [fmtSubslice, List.nil_append, readGroup_of_stopsAt hrest.stops]
    | cons g gs =>
      have hgroup :
          readGroup (fmtSubslice (g :: gs) ++ rest) = some (g, moreGroups gs ++ rest) := by
        rw [fmtSubslice, List.append_assoc]
        exact readGroup_hexText g (stopsAt_moreGroups hrest.stops gs)
      rw [hgroup]
      dsimp only
      rw [readGroups_moreGroups Nat.one_pos (Nat.le_of_succ_le_succ hlen) hrest]

/-! ### The span of zeros -/

/-- The span lies in the list and covers zeros only. -/
structure ZeroAt (segments : List UInt16) (s : Span) : Prop where
  fits : s.start + s.len ≤ segments.length
  zero : ∀ j, s.start ≤ j → j < s.start + s.len → segments[j]? = some 0

theorem zeroAt_empty (segments : List UInt16) : ZeroAt segments ⟨0, 0⟩ where
  fits := by simp
  zero j _ hj := by simp at hj

theorem ZeroAt.concat {segments : List UInt16} {s : Span} (h : ZeroAt segments s) (x : UInt16) :
    ZeroAt (segments ++ [x]) s where
  fits := by
    have := h.fits
    rw [List.length_append]
    omega
  zero j hlo hhi := by
    have := h.fits
    rw [List.getElem?_append_left (by omega)]
    exact h.zero j hlo hhi

/-- A span that goes on at the end of the list. -/
theorem ZeroAt.extend {segments : List UInt16} {s : Span} (h : ZeroAt segments s)
    (hend : 0 < s.len → s.start + s.len = segments.length) :
    ZeroAt (segments ++ [0]) ⟨if s.len = 0 then segments.length else s.start, s.len + 1⟩ where
  fits := by
    rw [List.length_append, List.length_singleton]
    dsimp only
    split_ifs <;> omega
  zero j hlo hhi := by
    dsimp only at hlo hhi
    rcases Nat.lt_or_ge j segments.length with hj | hj
    · rw [List.getElem?_append_left hj]
      split_ifs at hlo hhi with hzero
      · omega
      · exact h.zero j hlo (by omega)
    · have hlast : j = segments.length := by
        split_ifs at hhi <;> omega
      rw [hlast, List.getElem?_concat_length]

/-- The longest span and the one that is going on, which reaches the end. -/
structure SpansOk (segments : List UInt16) (spans : Span × Span) : Prop where
  longest : ZeroAt segments spans.1
  current : ZeroAt segments spans.2
  at_end : 0 < spans.2.len → spans.2.start + spans.2.len = segments.length

theorem SpansOk.step {segments : List UInt16} {spans : Span × Span} (h : SpansOk segments spans)
    (x : UInt16) : SpansOk (segments ++ [x]) (spanStep spans (x, segments.length)) := by
  unfold spanStep
  by_cases hx : x = 0
  · subst hx
    have hnew := h.current.extend h.at_end
    have hend : (if spans.2.len = 0 then segments.length else spans.2.start) + (spans.2.len + 1) =
        (segments ++ [0]).length := by
      have hend := h.at_end
      rw [List.length_append, List.length_singleton]
      split_ifs <;> omega
    rw [if_pos rfl]
    refine ⟨?_, hnew, fun _ => hend⟩
    by_cases hlonger : spans.1.len < spans.2.len + 1
    · simpa only [if_pos hlonger] using hnew
    · simpa only [if_neg hlonger] using h.longest.concat 0
  · rw [if_neg hx]
    exact ⟨h.longest.concat x, zeroAt_empty _, fun hpos => absurd hpos (Nat.lt_irrefl 0)⟩

theorem spans_ok (segments : List UInt16) :
    SpansOk segments (segments.zipIdx.foldl spanStep (⟨0, 0⟩, ⟨0, 0⟩)) := by
  induction segments using List.reverseRecOn with
  | nil => exact ⟨zeroAt_empty [], zeroAt_empty [], fun h => absurd h (Nat.lt_irrefl 0)⟩
  | append_singleton segments x ih =>
    rw [List.zipIdx_append, List.foldl_append, List.zipIdx_singleton, Nat.zero_add]
    exact ih.step x

/-- The address is the part before the span, the zeros and the part behind. -/
theorem zeroSpan_split (segments : List UInt16) :
    segments = segments.take (zeroSpan segments).start ++
      List.replicate (zeroSpan segments).len 0 ++
      segments.drop ((zeroSpan segments).start + (zeroSpan segments).len) := by
  have hspan : ZeroAt segments (zeroSpan segments) := (spans_ok segments).longest
  have hfits := hspan.fits
  have hzeros : (segments.drop (zeroSpan segments).start).take (zeroSpan segments).len =
      List.replicate (zeroSpan segments).len 0 := by
    apply List.ext_getElem?
    intro j
    rcases Nat.lt_or_ge j (zeroSpan segments).len with hj | hj
    · rw [List.getElem?_take_of_lt hj, List.getElem?_drop, List.getElem?_replicate_of_lt hj]
      exact hspan.zero _ (by omega) (by omega)
    · rw [List.getElem?_eq_none (by simp; omega), List.getElem?_eq_none (by simpa using hj)]
  rw [← hzeros, List.append_assoc, ← List.drop_drop, List.take_append_drop, List.take_append_drop]

/-! ### Addresses are read back -/

theorem toIpv4Mapped_eq_some {ip : Ipv6Addr} {ipv4 : Ipv4Addr} (h : toIpv4Mapped ip = some ipv4) :
    ip.val = [0, 0, 0, 0, 0, 0xffff, joinBytes ipv4.a ipv4.b, joinBytes ipv4.c ipv4.d] := by
  have hjoin : ∀ x : UInt16,
      joinBytes (UInt8.ofNat (x.toNat / 256)) (UInt8.ofNat x.toNat) = x := by
    intro x
    have hx := x.toNat_lt
    apply UInt16.toNat_inj.mp
    simp only [joinBytes, UInt16.toNat_ofNat', UInt8.toNat_ofNat']
    omega
  unfold toIpv4Mapped at h
  split at h
  · rename_i ab cd hval
    obtain rfl := Option.some.inj h
    rw [hval, hjoin, hjoin]
  · cases h

theorem ofGroups_val (ip : Ipv6Addr) : ofGroups ip.val = some ip := dif_pos ip.property

section Ipv6
variable {rest : List Char}

theorem groupsEnd_doubleColon {cs : List Char} (h : '.' ∉ cs) : GroupsEnd (':' :: ':' :: cs) where
  no_dot := by simpa using h
  stops := stopsAt_cons rfl
  separator := by
    rw [readSeparator, if_pos Nat.one_pos]
    exact readGroup_of_stopsAt (stopsAt_cons rfl)

/-- No address starts with a double colon that is not one. -/
theorem readGroups_doubleColon (left : ℕ) (cs : List Char) :
    readGroups left 0 (':' :: ':' :: cs) = ([], false, ':' :: ':' :: cs) := by
  cases left with
  | zero => rfl
  | succ left =>
    have hoctet : readOctet (':' :: ':' :: cs) = none := readOctet_of_stopsAt (stopsAt_cons rfl)
    have hgroup : readGroup (':' :: ':' :: cs) = none := readGroup_of_stopsAt (stopsAt_cons rfl)
    simp [readGroups, readSeparator, readIpv4Addr, hoctet, hgroup]

theorem readGroups_mapped (ipv4 : Ipv4Addr) (hrest : StopsAt 10 rest) :
    readGroups 7 0 ("ffff:".toList ++ (printIpv4Addr ipv4 ++ rest)) =
      ([0xffff, joinBytes ipv4.a ipv4.b, joinBytes ipv4.c ipv4.d], true, rest) := by
  have hread := readIpv4Addr_printIpv4Addr ipv4 hrest
  have hoctet : readOctet ("ffff:".toList ++ (printIpv4Addr ipv4 ++ rest)) = none :=
    readOctet_of_stopsAt (stopsAt_cons rfl)
  have hgroup : readGroup ("ffff:".toList ++ (printIpv4Addr ipv4 ++ rest)) =
      some (0xffff, ':' :: (printIpv4Addr ipv4 ++ rest)) :=
    readGroup_hexText 0xffff (stopsAt_cons rfl)
  have hfirst : readGroups 6 1 (':' :: (printIpv4Addr ipv4 ++ rest)) =
      ([joinBytes ipv4.a ipv4.b, joinBytes ipv4.c ipv4.d], true, rest) := by
    simp [readGroups, readSeparator, readGivenChar, hread]
  rw [readGroups, readSeparator, readSeparator, if_neg (Nat.lt_irrefl 0),
    if_neg (Nat.lt_irrefl 0), hgroup, readIpv4Addr, readSeparator, if_neg (Nat.lt_irrefl 0), hoctet]
  simp [hfirst]

/-- The groups before and behind a double colon, with zeros between them. -/
theorem readIpv6Addr_doubleColon {head tail : List UInt16} {embedded : Bool} {cs cs' : List Char}
    (hhead : readGroups 8 0 cs = (head, false, ':' :: ':' :: cs')) (hlen : head.length < 8)
    (htail : readGroups (8 - (head.length + 1)) 0 cs' = (tail, embedded, rest)) :
    readIpv6Addr cs =
      (ofGroups (head ++ List.replicate (8 - head.length - tail.length) 0 ++ tail)).map
        fun ip => (ip, rest) := by
  rw [readIpv6Addr, hhead]
  dsimp only
  rw [if_neg hlen.ne, if_neg Bool.false_ne_true]
  simp only [readGivenChar, if_true, Option.bind_eq_bind, Option.bind_some, htail]
  cases ofGroups (head ++ List.replicate (8 - head.length - tail.length) 0 ++ tail) <;> rfl

theorem readIpv6Addr_mapped (ipv4 : Ipv4Addr) (hrest : StopsAt 10 rest) :
    readIpv6Addr ("::ffff:".toList ++ printIpv4Addr ipv4 ++ rest) =
      (ofGroups [0, 0, 0, 0, 0, 0xffff, joinBytes ipv4.a ipv4.b, joinBytes ipv4.c ipv4.d]).map
        fun ip => (ip, rest) := by
  rw [List.append_assoc]
  exact readIpv6Addr_doubleColon (readGroups_doubleColon 8 _) (by simp)
    (readGroups_mapped ipv4 hrest)

theorem readIpv6Addr_compressed {head tail : List UInt16} {k : ℕ} {ip : Ipv6Addr}
    (hip : ip.val = head ++ List.replicate k 0 ++ tail) (hk : 0 < k) (hrest : GroupsEnd rest) :
    readIpv6Addr (fmtSubslice head ++ (':' :: ':' :: (fmtSubslice tail ++ rest))) =
      some (ip, rest) := by
  have hlen : head.length + k + tail.length = 8 := by
    rw [← ip.property, hip]
    simp [Nat.add_assoc]
  have hhead := readGroups_fmtSubslice head 8 (by omega)
    (groupsEnd_doubleColon (hrest.fmtSubslice_no_dot tail))
  have htail := readGroups_fmtSubslice tail (8 - (head.length + 1)) (by omega) hrest
  have hzeros : 8 - head.length - tail.length = k := by omega
  rw [readIpv6Addr_doubleColon hhead (by omega) htail, hzeros, ← hip, ofGroups_val, Option.map_some]

/-- A printed address is read back in front of anything that is not part of an address. -/
theorem readIpv6Addr_printIpv6Addr (ip : Ipv6Addr) (hrest : GroupsEnd rest)
    (hstops : StopsAt 10 rest) : readIpv6Addr (printIpv6Addr ip ++ rest) = some (ip, rest) := by
  unfold printIpv6Addr
  cases hmapped : toIpv4Mapped ip with
  | some ipv4 =>
    dsimp only
    rw [readIpv6Addr_mapped ipv4 hstops, ← toIpv4Mapped_eq_some hmapped, ofGroups_val,
      Option.map_some]
  | none =>
    dsimp only
    split_ifs with hlong
    · rw [List.append_assoc, List.cons_append, List.cons_append]
      exact readIpv6Addr_compressed (zeroSpan_split ip.val) (by omega) hrest
    · have hread := readGroups_fmtSubslice ip.val 8 ip.property.le hrest
      simp [readIpv6Addr, hread, ip.property, ofGroups_val]

end Ipv6

theorem dot_not_mem_printPort (port : UInt16) : '.' ∉ printPort port := by
  rw [printPort, List.mem_cons, not_or]
  exact ⟨by decide, dot_not_mem_toDigits (by omega) (by omega) _⟩

/-- What follows an address in brackets. -/
theorem groupsEnd_scope (scopeId : UInt32) (port : UInt16) :
    GroupsEnd (printScopeId scopeId ++ ']' :: printPort port) ∧
      StopsAt 10 (printScopeId scopeId ++ ']' :: printPort port) := by
  have hport := dot_not_mem_printPort port
  unfold printScopeId
  split_ifs
  · exact ⟨⟨by simpa using hport, stopsAt_cons rfl, rfl⟩, stopsAt_cons rfl⟩
  · have hscope : '.' ∉ Nat.toDigits 10 scopeId.toNat :=
      dot_not_mem_toDigits (by omega) (by omega) scopeId.toNat
    exact ⟨⟨by simp [hport, hscope], stopsAt_cons rfl, rfl⟩, stopsAt_cons rfl⟩

/-- A printed socket address is read back as itself. -/
theorem parseSocketAddr_printSocketAddr (addr : SocketAddr) :
    parseSocketAddr (printSocketAddr addr) = some addr := by
  have hread : readSocketAddr (printSocketAddr addr) = some (addr, []) := by
    cases addr with
    | v4 ip port =>
      have hip : readIpv4Addr (printIpv4Addr ip ++ printPort port) = some (ip, printPort port) :=
        readIpv4Addr_printIpv4Addr ip (stopsAt_cons rfl)
      simp [readSocketAddr, printSocketAddr, readSocketAddrV4, hip, readPort_printPort]
    | v6 ip scopeId port =>
      obtain ⟨hend, hstops⟩ := groupsEnd_scope scopeId port
      have hoctet : readOctet (printSocketAddr (.v6 ip scopeId port)) = none :=
        readOctet_of_stopsAt (stopsAt_cons rfl)
      have hv4 : readSocketAddrV4 (printSocketAddr (.v6 ip scopeId port)) = none := by
        simp [readSocketAddrV4, readIpv4Addr, readSeparator, hoctet]
      have hip := readIpv6Addr_printIpv6Addr ip hend hstops
      have hscope := readScopeId_printScopeId scopeId (printPort port)
      rw [readSocketAddr, hv4]
      simp [printSocketAddr, readSocketAddrV6, readGivenChar, hip, hscope, readPort_printPort]
  rw [parseSocketAddr, parseWith, hread]

/-! ### What is never read as an address -/

section Refusals
variable {cs rest : List Char}

theorem readGroup_count {x : UInt16} (h : readGroup cs = some (x, rest)) :
    rest.count ':' ≤ cs.count ':' := by
  obtain ⟨⟨n, rest'⟩, hread, hr⟩ := Option.map_eq_some_iff.mp h
  obtain ⟨-, rfl⟩ := Prod.mk.inj hr
  obtain ⟨used, rfl, -⟩ := readNumber_used hread
  rw [List.count_append]
  exact Nat.le_add_left _ _

theorem readIpv4Addr_count {ip : Ipv4Addr} (h : readIpv4Addr cs = some (ip, rest)) :
    rest.count ':' ≤ cs.count ':' := by
  obtain ⟨used, rfl, -⟩ := readIpv4Addr_used h
  rw [List.count_append]
  exact Nat.le_add_left _ _

/-- Behind the first item a colon is used up. -/
theorem readSeparator_count {α : Type} {inner : Reader α} {index : ℕ} {x : α}
    (hinner : ∀ {cs rest : List Char} {x : α}, inner cs = some (x, rest) →
      rest.count ':' ≤ cs.count ':')
    (h : readSeparator ':' index inner cs = some (x, rest)) :
    rest.count ':' + min index 1 ≤ cs.count ':' := by
  unfold readSeparator at h
  split_ifs at h with hindex
  · obtain ⟨r, hcolon, hr⟩ := Option.bind_eq_some_iff.mp h
    have hcount := hinner hr
    rw [readGivenChar_eq_some hcolon, List.count_cons_self]
    omega
  · have hcount := hinner h
    omega

/-- All groups but the first, and the second half of an embedded address, cost a colon. -/
theorem readGroups_count (left index : ℕ) (cs : List Char) :
    (readGroups left index cs).1.length + (readGroups left index cs).2.2.count ':' + min index 1 ≤
        cs.count ':' + 2 ∧
      (readGroups left index cs).2.2.count ':' ≤ cs.count ':' := by
  induction left generalizing index cs with
  | zero =>
    simp only [readGroups, List.length_nil]
    omega
  | succ left ih =>
    rw [readGroups]
    split
    · rename_i ip rest hip
      split_ifs at hip
      have hcount := readSeparator_count readIpv4Addr_count hip
      simp only [List.length_cons, List.length_nil]
      omega
    · split
      · rename_i group rest hgroup
        have hcount := readSeparator_count readGroup_count hgroup
        obtain ⟨hlen, hrest⟩ := ih (index + 1) rest
        generalize readGroups left (index + 1) rest = read at hlen hrest ⊢
        obtain ⟨groups, embedded, rest'⟩ := read
        dsimp only [List.length_cons] at hlen hrest ⊢
        omega
      · simp only [List.length_nil]
        omega

/-- An IPv6 address has at least two colons. -/
theorem readIpv6Addr_colons {ip : Ipv6Addr} (h : readIpv6Addr cs = some (ip, rest)) :
    2 ≤ cs.count ':' := by
  obtain ⟨hlen, hrest⟩ := readGroups_count 8 0 cs
  unfold readIpv6Addr at h
  generalize readGroups 8 0 cs = read at h hlen hrest
  obtain ⟨head, embedded, cs₁⟩ := read
  dsimp only at h hlen hrest
  split_ifs at h with hall
  · omega
  · obtain ⟨r₁, hfirst, h⟩ := Option.bind_eq_some_iff.mp h
    obtain ⟨r₂, hsecond, -⟩ := Option.bind_eq_some_iff.mp h
    rw [readGivenChar_eq_some hfirst, readGivenChar_eq_some hsecond, List.count_cons_self,
      List.count_cons_self] at hrest
    omega

/-- A name with a port, neither of them with a colon or a bracket. -/
structure NamedPort (host port : List Char) : Prop where
  no_colon : ':' ∉ host
  port_no_colon : ':' ∉ port
  no_bracket : '[' ∉ host
  not_digits : ∃ c ∈ host, isRadixDigit 10 c = false ∧ c ≠ '.'

theorem NamedPort.text_count {host port : List Char} (h : NamedPort host port) :
    (host ++ ':' :: port).count ':' = 1 := by
  rw [List.count_append, List.count_cons_self, List.count_eq_zero_of_not_mem h.no_colon,
    List.count_eq_zero_of_not_mem h.port_no_colon]

/-- Digits and dots do not reach the end of such a name. -/
theorem NamedPort.not_used {host port used rest : List Char} (h : NamedPort host port)
    (hused : ∀ c ∈ used, isRadixDigit 10 c = true ∨ c = '.')
    (htext : host ++ ':' :: port = used ++ rest) : rest ≠ [] ∧ rest.head? ≠ some ':' := by
  have hcolon : ':' ∉ used := by
    intro hmem
    rcases hused ':' hmem with hc | hc
    · cases hc
    · exact absurd hc (by decide)
  constructor
  · rintro rfl
    rw [List.append_nil] at htext
    exact hcolon (htext ▸ List.mem_append_right _ List.mem_cons_self)
  · intro hhead
    obtain ⟨rest', rfl⟩ := List.head?_eq_some_iff.mp hhead
    obtain ⟨hsame, -⟩ := (List.append_cons_inj_of_notMem h.no_colon h.port_no_colon).mp htext
    obtain ⟨c, hc, hdigit, hdot⟩ := h.not_digits
    rcases hused c (hsame ▸ hc) with hc | hc
    · rw [hdigit] at hc
      cases hc
    · exact hdot hc

theorem NamedPort.parseSocketAddr_eq_none {host port : List Char} (h : NamedPort host port) :
    parseSocketAddr (host ++ ':' :: port) = none := by
  have hv4 : readSocketAddrV4 (host ++ ':' :: port) = none := by
    rw [Option.eq_none_iff_forall_ne_some]
    rintro ⟨addr, rest⟩ hread
    simp only [readSocketAddrV4, readPort, Option.bind_eq_bind, Option.bind_eq_some_iff] at hread
    obtain ⟨⟨ip, cs⟩, hip, _, ⟨_, hcolon, -⟩, -⟩ := hread
    obtain ⟨used, htext, -, hused⟩ := readIpv4Addr_used hip
    have hcs : cs = ':' :: _ := readGivenChar_eq_some hcolon
    apply (h.not_used hused htext).2
    rw [hcs, List.head?_cons]
  have hv6 : readSocketAddrV6 (host ++ ':' :: port) = none := by
    obtain ⟨c, hc, -⟩ := h.not_digits
    cases host with
    | nil => cases hc
    | cons c host =>
      have hbracket : c ≠ '[' := fun hc => h.no_bracket (hc ▸ List.mem_cons_self)
      simp [readSocketAddrV6, readGivenChar, hbracket]
  rw [parseSocketAddr, parseWith, readSocketAddr, hv4, hv6]

theorem NamedPort.parseIpAddr_eq_none {host port : List Char} (h : NamedPort host port) :
    parseIpAddr (host ++ ':' :: port) = none := by
  have hv6 : readIpv6Addr (host ++ ':' :: port) = none := by
    rw [Option.eq_none_iff_forall_ne_some]
    rintro ⟨ip, rest⟩ hread
    have hcolons := readIpv6Addr_colons hread
    rw [h.text_count] at hcolons
    omega
  rw [parseIpAddr, parseWith, readIpAddr]
  cases hv4 : readIpv4Addr (host ++ ':' :: port) with
  | none =>
    rw [hv6]
    rfl
  | some r =>
    obtain ⟨ip, rest⟩ := r
    obtain ⟨used, htext, -, hused⟩ := readIpv4Addr_used hv4
    cases rest with
    | nil => exact absurd rfl (h.not_used hused htext).1
    | cons c cs => rfl

end Refusals

/-! ### What printed addresses look like -/

/-- A hexadecimal digit or one of the marks. -/
def isAddressChar (c : Char) : Bool := isRadixDigit 16 c || ".:[]%".toList.contains c

/-- The text is made of such characters and has at most `n` of them. -/
structure AddressLike (n : ℕ) (cs : List Char) : Prop where
  chars : ∀ c ∈ cs, isAddressChar c = true
  length : cs.length ≤ n

theorem addressLike_nil : AddressLike 0 [] where
  chars c hc := by cases hc
  length := le_rfl

theorem AddressLike.cons {n : ℕ} {c : Char} {cs : List Char} (h : AddressLike n cs)
    (hc : isAddressChar c = true) : AddressLike (n + 1) (c :: cs) where
  chars x hx := by
    rcases List.mem_cons.mp hx with rfl | hx
    · exact hc
    · exact h.chars x hx
  length := Nat.succ_le_succ h.length

theorem AddressLike.append {m n : ℕ} {cs cs' : List Char} (h : AddressLike m cs)
    (h' : AddressLike n cs') : AddressLike (m + n) (cs ++ cs') where
  chars x hx := by
    rcases List.mem_append.mp hx with hx | hx
    · exact h.chars x hx
    · exact h'.chars x hx
  length := by
    rw [List.length_append]
    exact Nat.add_le_add h.length h'.length

theorem AddressLike.mono {m n : ℕ} {cs : List Char} (h : AddressLike m cs) (hmn : m ≤ n) :
    AddressLike n cs := ⟨h.chars, h.length.trans hmn⟩

theorem addressLike_toDigits {radix : ℕ} (hlow : 1 < radix) (hradix : radix ≤ 16) {n k : ℕ}
    (hk : 0 < k) (hn : n < radix ^ k) : AddressLike k (Nat.toDigits radix n) where
  chars c hc := by
    obtain ⟨d, hd, rfl⟩ := mem_toDigits hlow hc
    rw [isAddressChar, isRadixDigit, digitValue_digitChar (hd.trans_le hradix)]
    simp [hd.trans_le hradix]
  length := (Nat.length_toDigits_le_iff hlow hk).mpr hn

theorem addressLike_hexText (g : UInt16) : AddressLike 4 (hexText g) :=
  addressLike_toDigits (by omega) (by omega) (by omega) g.toNat_lt

theorem addressLike_octet (x : UInt8) : AddressLike 3 (Nat.toDigits 10 x.toNat) :=
  addressLike_toDigits (by omega) (by omega) (by omega) (x.toNat_lt.trans (by omega))

theorem addressLike_printIpv4Addr (ip : Ipv4Addr) : AddressLike 15 (printIpv4Addr ip) := by
  have hdot : isAddressChar '.' = true := rfl
  have hcd := (addressLike_octet ip.c).append ((addressLike_octet ip.d).cons hdot)
  have hbcd := (addressLike_octet ip.b).append (hcd.cons hdot)
  exact (addressLike_octet ip.a).append (hbcd.cons rfl)

theorem addressLike_moreGroups (gs : List UInt16) :
    AddressLike (5 * gs.length) (moreGroups gs) := by
  induction gs with
  | nil => exact addressLike_nil
  | cons g gs ih =>
    have hcons := ((addressLike_hexText g).cons (c := ':') rfl).append ih
    apply hcons.mono
    rw [List.length_cons]
    omega

theorem addressLike_fmtSubslice (gs : List UInt16) :
    AddressLike (5 * gs.length) (fmtSubslice gs) := by
  cases gs with
  | nil => exact addressLike_nil
  | cons g gs =>
    apply ((addressLike_hexText g).append (addressLike_moreGroups gs)).mono
    rw [List.length_cons]
    omega

theorem addressLike_printIpv6Addr (ip : Ipv6Addr) : AddressLike 82 (printIpv6Addr ip) := by
  unfold printIpv6Addr
  have hlen := ip.property
  split
  · have hmark : AddressLike 7 "::ffff:".toList :=
      ⟨List.all_eq_true.mp (by decide), by decide⟩
    exact (hmark.append (addressLike_printIpv4Addr _)).mono (by omega)
  · dsimp only
    split_ifs
    · have hhead := addressLike_fmtSubslice (ip.val.take (zeroSpan ip.val).start)
      have htail := addressLike_fmtSubslice
        (ip.val.drop ((zeroSpan ip.val).start + (zeroSpan ip.val).len))
      apply (hhead.append ((htail.cons (c := ':') rfl).cons (c := ':') rfl)).mono
      rw [List.length_take, List.length_drop]
      omega
    · exact (addressLike_fmtSubslice ip.val).mono (by omega)

theorem addressLike_printPort (port : UInt16) : AddressLike 6 (printPort port) :=
  (addressLike_toDigits (by omega) (by omega) (by omega) (port.toNat_lt.trans (by omega))).cons rfl

theorem addressLike_printScopeId (scopeId : UInt32) : AddressLike 11 (printScopeId scopeId) := by
  unfold printScopeId
  split_ifs
  · exact addressLike_nil.mono (by omega)
  · exact (addressLike_toDigits (k := 10) (by omega) (by omega) (by omega)
      (scopeId.toNat_lt.trans (by omega))).cons rfl

theorem addressLike_printSocketAddr (addr : SocketAddr) :
    AddressLike 101 (printSocketAddr addr) := by
  cases addr with
  | v4 ip port =>
    exact ((addressLike_printIpv4Addr ip).append (addressLike_printPort port)).mono (by omega)
  | v6 ip scopeId port =>
    exact (((addressLike_printIpv6Addr ip).append ((addressLike_printScopeId scopeId).append
      ((addressLike_printPort port).cons rfl))).cons rfl)

theorem printSocketAddr_ne_nil (addr : SocketAddr) : printSocketAddr addr ≠ [] := by
  cases addr with
  | v4 ip port =>
    intro h
    cases (List.append_eq_nil_iff.mp h).2
  | v6 ip scopeId port => exact List.cons_ne_nil _ _

end Nuntius.AddressText
