import Mathlib.Algebra.Group.Nat.Defs
import Mathlib.Data.Int.Notation
import Mathlib.Data.List.Basic
import Mathlib.Data.List.Induction

/-!
# Wire text: fixed byte strings, hexadecimal, integers and JSON values

The readers follow the Rust standard library and the `hex` crates: `trim` removes
Unicode white space, integer parsing allows one leading plus sign and refuses an
overflow, hexadecimal is read in either case. Text is a list of characters.
-/

namespace Nuntius.WireFormat

/-- A byte array `[u8; n]`. -/
abbrev Bytes (n : ℕ) := {l : List UInt8 // l.length = n}

/-- The array `[b; n]`. -/
def filled (n : ℕ) (b : UInt8) : Bytes n := ⟨List.replicate n b, List.length_replicate⟩

/-- Read a slice as a fixed array, as `try_into` does. -/
def toFixed (n : ℕ) (l : List UInt8) : Option (Bytes n) :=
  if h : l.length = n then some ⟨l, h⟩ else none

theorem toFixed_eq_some {n : ℕ} {l : List UInt8} {b : Bytes n} :
    toFixed n l = some b ↔ b.val = l := by
  unfold toFixed
  split
  · rename_i h
    rw [Option.some.injEq, Subtype.ext_iff]
    exact eq_comm
  · rename_i h
    constructor
    · simp
    · intro hb
      exact absurd (hb ▸ b.property) h

/-- Big-endian value of a byte string. -/
def beNat (l : List UInt8) : ℕ := l.foldl (fun acc b => acc * 256 + b.toNat) 0

/-- Reading on from an accumulator below a bound. -/
theorem foldl_be_lt (l : List UInt8) {acc bound : ℕ} (h : acc < bound) :
    l.foldl (fun acc b => acc * 256 + b.toNat) acc < bound * 256 ^ l.length := by
  induction l generalizing acc bound with
  | nil => simpa using h
  | cons b l ih =>
    have hb := b.toNat_lt
    have hacc : acc * 256 + b.toNat < bound * 256 := by omega
    have hrest := ih hacc
    rw [List.length_cons, Nat.pow_succ', ← Nat.mul_assoc]
    exact hrest

theorem beNat_lt (l : List UInt8) : beNat l < 256 ^ l.length := by
  simpa [beNat] using foldl_be_lt l Nat.zero_lt_one

@[simp] theorem beNat_append_singleton (l : List UInt8) (b : UInt8) :
    beNat (l ++ [b]) = beNat l * 256 + b.toNat := by
  simp [beNat]

/-- The low `w` bytes of a number, big-endian. -/
def beBytes : ℕ → ℕ → List UInt8
  | 0, _ => []
  | w + 1, n => beBytes w (n / 256) ++ [UInt8.ofNat n]

@[simp] theorem length_beBytes (w n : ℕ) : (beBytes w n).length = w := by
  induction w generalizing n with
  | zero => rfl
  | succ w ih => simp [beBytes, ih]

theorem beNat_beBytes {w n : ℕ} (h : n < 256 ^ w) : beNat (beBytes w n) = n := by
  induction w generalizing n with
  | zero =>
    rw [Nat.pow_zero] at h
    obtain rfl : n = 0 := by omega
    rfl
  | succ w ih =>
    have hhigh : n / 256 < 256 ^ w := by
      rw [Nat.pow_succ] at h
      omega
    have hlow : (UInt8.ofNat n).toNat = n % 256 := by simp
    rw [beBytes, beNat_append_singleton, ih hhigh, hlow]
    omega

/-- Byte strings of one length are told apart by their value. -/
theorem beBytes_beNat (l : List UInt8) : beBytes l.length (beNat l) = l := by
  induction l using List.reverseRecOn with
  | nil => rfl
  | append_singleton l b ih =>
    have hb := b.toNat_lt
    have hhigh : (beNat l * 256 + b.toNat) / 256 = beNat l := by omega
    have hlow : UInt8.ofNat (beNat l * 256 + b.toNat) = b := by
      apply UInt8.toNat_inj.mp
      rw [UInt8.toNat_ofNat']
      omega
    rw [List.length_append, List.length_singleton, beNat_append_singleton, beBytes, hhigh, hlow, ih]

/-- The UTF-8 bytes of a string. -/
def utf8 (s : String) : List UInt8 := s.toUTF8.data.toList

theorem utf8_inj {s t : String} : utf8 s = utf8 t ↔ s = t := by
  constructor
  · intro h
    apply String.toByteArray_inj.mp
    apply ByteArray.ext
    exact Array.toList_inj.mp h
  · intro h
    rw [h]

theorem utf8_append (s t : String) : utf8 (s ++ t) = utf8 s ++ utf8 t := by
  have hbytes : (s ++ t).toUTF8 = s.toUTF8 ++ t.toUTF8 := String.toByteArray_append
  rw [utf8, hbytes, ByteArray.data_append, Array.toList_append]
  rfl

section Results
variable {ε α β : Type}

/-- `Option::ok_or`. -/
def okOr (o : Option α) (e : ε) : Except ε α :=
  match o with
  | some a => .ok a
  | none => .error e

theorem bind_eq_ok {x : Except ε α} {f : α → Except ε β} {b : β} :
    (x >>= f) = .ok b ↔ ∃ a, x = .ok a ∧ f a = .ok b := by
  cases x with
  | ok a =>
    constructor
    · intro h
      exact ⟨a, rfl, h⟩
    · rintro ⟨a', ha, hb⟩
      cases ha
      exact hb
  | error e =>
    constructor
    · intro h
      cases h
    · rintro ⟨a', ha, hb⟩
      cases ha

@[simp] theorem okOr_eq_ok {o : Option α} {e : ε} {a : α} : okOr o e = .ok a ↔ o = some a := by
  cases o <;> simp [okOr]

end Results

section Text

/-- The Unicode `White_Space` characters. -/
def isWhiteSpace (c : Char) : Bool :=
  (9 ≤ c.val && c.val ≤ 13) || c.val == 0x20 || c.val == 0x85 || c.val == 0xA0 ||
    c.val == 0x1680 || (0x2000 ≤ c.val && c.val ≤ 0x200A) || c.val == 0x2028 ||
    c.val == 0x2029 || c.val == 0x202F || c.val == 0x205F || c.val == 0x3000

def trim (cs : List Char) : List Char :=
  ((cs.dropWhile isWhiteSpace).reverse.dropWhile isWhiteSpace).reverse

def strip0x : List Char → Option (List Char)
  | '0' :: 'x' :: cs => some cs
  | _ => none

/-- `trim_start_matches("0x")`: every leading repetition goes. -/
def trimStart0x : List Char → List Char
  | '0' :: 'x' :: cs => trimStart0x cs
  | cs => cs

def digitValue (c : Char) : Option ℕ :=
  if '0' ≤ c ∧ c ≤ '9' then some (c.toNat - '0'.toNat)
  else if 'a' ≤ c ∧ c ≤ 'f' then some (c.toNat - 'a'.toNat + 10)
  else if 'A' ≤ c ∧ c ≤ 'F' then some (c.toNat - 'A'.toNat + 10)
  else none

/-- Accumulate digits in the given radix; a foreign digit fails the whole reading. -/
def readDigits (radix : ℕ) : ℕ → List Char → Option ℕ
  | acc, [] => some acc
  | acc, c :: cs => do
      let d ← digitValue c
      if d < radix then readDigits radix (acc * radix + d) cs else none

def stripPlus : List Char → List Char
  | '+' :: cs => cs
  | cs => cs

/-- `u64::from_str_radix`. -/
def fromStrRadix (radix : ℕ) (cs : List Char) : Option ℕ :=
  if (stripPlus cs).isEmpty then none
  else (readDigits radix 0 (stripPlus cs)).filter (· < 2 ^ 64)

/-- `hex::decode`: two digits a byte. -/
def hexDecode : List Char → Option (List UInt8)
  | [] => some []
  | [_] => none
  | a :: b :: cs => do
      let hi ← digitValue a
      let lo ← digitValue b
      let rest ← hexDecode cs
      some (UInt8.ofNat (hi * 16 + lo) :: rest)

/-- `const_hex::decode`, which also skips one `0x`. -/
def constHexDecode (cs : List Char) : Option (List UInt8) := hexDecode ((strip0x cs).getD cs)

end Text

/-- The three representations of a JSON number. -/
inductive JsonNumber where
  | posInt (n : UInt64)
  | negInt (n : ℤ)
  | float

inductive Json where
  | null
  | bool (b : Bool)
  | num (n : JsonNumber)
  | str (s : String)
  | arr (items : List Json)
  | obj (fields : List (String × Json))

namespace Json

/-- `Value::get` by key. -/
def get (v : Json) (key : String) : Option Json :=
  match v with
  | obj fields => fields.lookup key
  | _ => none

def asStr : Json → Option String
  | str s => some s
  | _ => none

/-- `Number::as_u64`. -/
def asU64 : JsonNumber → Option ℕ
  | .posInt n => some n.toNat
  | _ => none

end Json

end Nuntius.WireFormat
