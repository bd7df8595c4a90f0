import Nuntius.WireFormat

/-!
# Reading BER values

A BER value has a tag and is primitive, with octets, or constructed, with further values; whether
a length was definite makes no difference. A reader takes values from the front of a list.
-/

namespace Nuntius.BerValues
open WireFormat

inductive TagClass where
  | universal
  | context
  deriving DecidableEq

structure Tag where
  tagClass : TagClass
  number : ℕ
  deriving DecidableEq

namespace Tag

def integer : Tag := ⟨.universal, 2⟩

def octetString : Tag := ⟨.universal, 4⟩

def oid : Tag := ⟨.universal, 6⟩

def sequence : Tag := ⟨.universal, 16⟩

def set : Tag := ⟨.universal, 17⟩

def ctx (number : ℕ) : Tag := ⟨.context, number⟩

end Tag

inductive Value where
  | primitive (tag : Tag) (octets : List UInt8)
  | constructed (tag : Tag) (values : List Value)

def Value.tag : Value → Tag
  | primitive tag _ => tag
  | constructed tag _ => tag

/-! ### Octet strings -/

mutual

/-- The octets of an octet string, whatever its own tag. -/
def octetsOf : Value → Option (List UInt8)
  | .primitive _ octets => some octets
  | .constructed _ values => segments values

/-- The segments of a constructed octet string are octet strings again. -/
def segments : List Value → Option (List UInt8)
  | [] => some []
  | v :: rest =>
    if v.tag = Tag.octetString then
      match octetsOf v, segments rest with
      | some octets, some later => some (octets ++ later)
      | _, _ => none
    else none

end

/-! ### Readers -/

inductive Fault where
  | malformed
  | content (text : String)
  deriving DecidableEq

abbrev Reader := StateT (List Value) (Except Fault)

section Readers
variable {α β : Type}

theorem bind_ok {r : Reader α} {f : α → Reader β} {values rest : List Value} {b : β} :
    (r >>= f) values = .ok (b, rest) ↔
      ∃ a between, r values = .ok (a, between) ∧ f a between = .ok (b, rest) := by
  change (r values >>= fun p => f p.1 p.2) = _ ↔ _
  rw [bind_eq_ok]
  constructor
  · rintro ⟨⟨a, between⟩, hr, hf⟩
    exact ⟨a, between, hr, hf⟩
  · rintro ⟨a, between, hr, hf⟩
    exact ⟨⟨a, between⟩, hr, hf⟩

theorem pure_ok {a b : α} {values rest : List Value} :
    (pure a : Reader α) values = .ok (b, rest) ↔ a = b ∧ values = rest := by
  constructor
  · intro h
    exact Prod.mk.inj (Except.ok.inj h)
  · rintro ⟨rfl, rfl⟩
    rfl

/-- A fault of the reader's own. -/
def contentErr (text : String) : Reader α := fun _ => .error (.content text)

/-! ### Readers of described values -/

/-- The reader of the values that a relation describes. -/
noncomputable def readerOf (R : List Value → α → List Value → Prop) : Reader α := fun values =>
  open Classical in
  if h : ∃ p : α × List Value, R values p.1 p.2 then .ok h.choose else .error .malformed

theorem readerOf_ok {R : List Value → α → List Value → Prop}
    (hR : ∀ {values a rest a' rest'}, R values a rest → R values a' rest' →
      a = a' ∧ rest = rest') {values rest : List Value} {a : α} :
    readerOf R values = .ok (a, rest) ↔ R values a rest := by
  unfold readerOf
  constructor
  · intro h
    split_ifs at h with hex
    have hchosen := hex.choose_spec
    rwa [Except.ok.inj h] at hchosen
  · intro h
    have hex : ∃ p : α × List Value, R values p.1 p.2 := ⟨(a, rest), h⟩
    obtain ⟨ha, hrest⟩ := hR hex.choose_spec h
    rw [dif_pos hex, ← ha, ← hrest]

/-! ### Optional parts -/

variable {tag : Tag} {rest : List Value}

/-- An optional part of a list of values, all of which a reader skips: nothing, or one
constructed value with the tag. -/
def Optional (tag : Tag) (part : List Value) : Prop :=
  part = [] ∨ ∃ inner, part = [.constructed tag inner]

/-- What is behind an optional part does not have its tag. -/
def Apart (tag : Tag) : List Value → Prop
  | [] => True
  | v :: _ => v.tag ≠ tag

theorem apart_nil : Apart tag [] := trivial

theorem apart_constructed {t : Tag} (h : t ≠ tag) (inner : List Value) :
    Apart tag (.constructed t inner :: rest) := h

end Readers

end Nuntius.BerValues
