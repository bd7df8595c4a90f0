import Mathlib.Data.Set.Function
import Nuntius.WireFormat

/-!
# Typed records and their signing hash

A record is hashed as one word for the text of its type and one word for each member; the values
of variable length enter by their own hash. What is signed is the hash of two such records, the
domain and the message, behind two fixed bytes. If the hash does not collide on what is hashed
here, the signing hash determines both type texts and, for records of one type, the members.
-/

namespace Nuntius.TypedData
open WireFormat

inductive Member where
  | bytes (content : List UInt8)
  | string (text : String)
  | bytes32 (word : Bytes 32)
  | uint (bits value : ℕ)
  | address (holder : Bytes 20)
deriving DecidableEq

def Member.typeName : Member → String
  | .bytes _ => "bytes"
  | .string _ => "string"
  | .bytes32 _ => "bytes32"
  | .uint bits _ => "uint" ++ toString bits
  | .address _ => "address"

structure Record where
  name : String
  members : List (String × Member)

def encodeType (r : Record) : String :=
  r.name ++ "(" ++ ",".intercalate (r.members.map fun m => m.2.typeName ++ " " ++ m.1) ++ ")"

section Hashing
variable (H : List UInt8 → Bytes 32)

/-- The word of a member. -/
def Member.word : Member → List UInt8
  | .bytes content => (H content).val
  | .string text => (H (utf8 text)).val
  | .bytes32 word => word.val
  | .uint _ value => beBytes 32 value
  | .address holder => List.replicate 12 0 ++ holder.val

def Record.body (r : Record) : List UInt8 :=
  (H (utf8 (encodeType r))).val ++ r.members.flatMap fun m => m.2.word H

def hashRecord (r : Record) : Bytes 32 := H (r.body H)

def signingMessage (domain r : Record) : List UInt8 :=
  [0x19, 0x01] ++ ((hashRecord H domain).val ++ (hashRecord H r).val)

def signingHash (domain r : Record) : Bytes 32 := H (signingMessage H domain r)

/-- A library that hashes typed records, with the equation it documents. -/
structure SolTypes where
  eip712SigningHash : Record → Record → Bytes 32
  eip712SigningHash_eq : ∀ domain r, eip712SigningHash domain r = signingHash H domain r

def SolTypes.plain : SolTypes H := ⟨signingHash H, fun _ _ => rfl⟩

/-! ### What is hashed -/

def Member.hashed : Member → Set (List UInt8)
  | .bytes content => {content}
  | .string text => {utf8 text}
  | _ => ∅

def Record.hashed (r : Record) : Set (List UInt8) :=
  {bytes | bytes = utf8 (encodeType r) ∨ bytes = r.body H ∨ ∃ m ∈ r.members, bytes ∈ m.2.hashed}

def signingHashed (domain r : Record) : Set (List UInt8) :=
  {bytes | bytes ∈ domain.hashed H ∨ bytes ∈ r.hashed H ∨ bytes = signingMessage H domain r}

end Hashing

/-! ### What the hash determines -/

/-- Members of one type. -/
def Member.SameType : Member → Member → Prop
  | .bytes _, .bytes _ => True
  | .string _, .string _ => True
  | .bytes32 _, .bytes32 _ => True
  | .uint bits _, .uint bits' _ => bits = bits'
  | .address _, .address _ => True
  | _, _ => False

def wordBound : ℕ := 256 ^ 32

/-- The value fits its word. -/
def Member.Fits : Member → Prop
  | .uint _ value => value < wordBound
  | _ => True

section Binding
variable {H : List UInt8 → Bytes 32} {inputs : Set (List UInt8)}

@[simp] theorem length_word (m : Member) : (m.word H).length = 32 := by
  cases m with
  | bytes content => exact (H content).property
  | string text => exact (H (utf8 text)).property
  | bytes32 word => exact word.property
  | uint bits value => exact length_beBytes 32 value
  | address holder => simp [Member.word, holder.property]

theorem word_inj (collisionFree : Set.InjOn H inputs) {m m' : Member} (same : m.SameType m')
    (fits : m.Fits) (fits' : m'.Fits) (hm : m.hashed ⊆ inputs) (hm' : m'.hashed ⊆ inputs)
    (h : m.word H = m'.word H) : m = m' := by
  cases m <;> cases m' <;> try exact same.elim
  case bytes.bytes content content' =>
    rw [collisionFree (hm rfl) (hm' rfl) (Subtype.ext h)]
  case string.string text text' =>
    rw [utf8_inj.mp (collisionFree (hm rfl) (hm' rfl) (Subtype.ext h))]
  case bytes32.bytes32 word word' => rw [Subtype.ext h]
  case uint.uint bits value bits' value' =>
    have hvalue : value = value' := by
      rw [← beNat_beBytes fits, ← beNat_beBytes fits']
      exact congrArg beNat h
    obtain rfl : bits = bits' := same
    rw [hvalue]
  case address.address holder holder' =>
    rw [Subtype.ext (List.append_cancel_left h)]

theorem members_inj (collisionFree : Set.InjOn H inputs) {ms ms' : List (String × Member)}
    (same : List.Forall₂ (fun m m' => m.1 = m'.1 ∧ m.2.SameType m'.2) ms ms')
    (fits : ∀ m ∈ ms, m.2.Fits) (fits' : ∀ m ∈ ms', m.2.Fits)
    (hms : ∀ m ∈ ms, m.2.hashed ⊆ inputs) (hms' : ∀ m ∈ ms', m.2.hashed ⊆ inputs)
    (h : ms.flatMap (fun m => m.2.word H) = ms'.flatMap fun m => m.2.word H) :
    ms = ms' := by
  induction same with
  | nil => rfl
  | @cons m m' ms ms' hhead _ ih =>
    rw [List.flatMap_cons, List.flatMap_cons] at h
    obtain ⟨hword, hrest⟩ := List.append_inj h (by rw [length_word, length_word])
    have hmember : m.2 = m'.2 :=
      word_inj collisionFree hhead.2 (fits m List.mem_cons_self) (fits' m' List.mem_cons_self)
        (hms m List.mem_cons_self) (hms' m' List.mem_cons_self) hword
    rw [Prod.ext hhead.1 hmember,
      ih (fun m hm => fits m (List.mem_cons_of_mem _ hm))
        (fun m hm => fits' m (List.mem_cons_of_mem _ hm))
        (fun m hm => hms m (List.mem_cons_of_mem _ hm))
        (fun m hm => hms' m (List.mem_cons_of_mem _ hm)) hrest]

theorem Record.type_inputs {r : Record} (hr : r.hashed H ⊆ inputs) :
    utf8 (encodeType r) ∈ inputs := hr (.inl rfl)

theorem Record.body_inputs {r : Record} (hr : r.hashed H ⊆ inputs) : r.body H ∈ inputs :=
  hr (.inr (.inl rfl))

theorem Record.member_inputs {r : Record} (hr : r.hashed H ⊆ inputs) :
    ∀ m ∈ r.members, m.2.hashed ⊆ inputs :=
  fun m hm _ hbytes => hr (.inr (.inr ⟨m, hm, hbytes⟩))

/-- Records of one hash have one type text and the same words. -/
theorem body_of_hashRecord (collisionFree : Set.InjOn H inputs) {r r' : Record}
    (hr : r.hashed H ⊆ inputs) (hr' : r'.hashed H ⊆ inputs)
    (h : hashRecord H r = hashRecord H r') :
    encodeType r = encodeType r' ∧
      r.members.flatMap (fun m => m.2.word H) = r'.members.flatMap fun m => m.2.word H := by
  have hbody := collisionFree (Record.body_inputs hr) (Record.body_inputs hr') h
  obtain ⟨htype, hmembers⟩ :=
    List.append_inj hbody (by rw [(H _).property, (H _).property])
  have htext := collisionFree (Record.type_inputs hr) (Record.type_inputs hr') (Subtype.ext htype)
  exact ⟨utf8_inj.mp htext, hmembers⟩

/-- One signing hash, one domain hash and one message hash. -/
theorem signingMessage_inj {domain domain' r r' : Record}
    (h : signingMessage H domain r = signingMessage H domain' r') :
    hashRecord H domain = hashRecord H domain' ∧ hashRecord H r = hashRecord H r' := by
  obtain ⟨hdomain, hr⟩ := List.append_inj (List.append_cancel_left h)
    (by rw [(hashRecord H _).property, (hashRecord H _).property])
  exact ⟨Subtype.ext hdomain, Subtype.ext hr⟩

end Binding

end Nuntius.TypedData
