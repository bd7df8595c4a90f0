import Nuntius.ChainReads
import Nuntius.CheckedSlices

/-!
# The owners of a Safe

The owner list comes as the ABI encoding of `address[]` in the answer of an untrusted node. What
the decoder accepts is the encoding of a list of at most 64 addresses, with anything after it.
Accesses and sums are checked.
-/

namespace Nuntius.ChainReads
open WireFormat OwnerApprovals InteractivePrograms CheckedSlices

/-! ### Decoding -/

def maxSafeOwners : ℕ := 64

/-- `None`. -/
def refuse {α : Type} : Checked Unit α := .error (.error ())

def usizeTryFrom (n : ℕ) : Checked Unit ℕ := if n < 2 ^ 64 then .ok n else refuse

/-- `Address::from_slice` aborts on any other length. -/
def addressFromSlice (bytes : List UInt8) : Checked Unit Address :=
  match toFixed 20 bytes with
  | some a => .ok a
  | none => .error .abort

def readWord (w : List UInt8) : Checked Unit Address := do
  let high ← slice w 0 12
  if high ≠ List.replicate 12 0 then refuse
  else do
    let low ← slice w 12 w.length
    addressFromSlice low

def readOwner (raw : List UInt8) (i : ℕ) : Checked Unit Address := do
  let start ← checked (64 + i * 32)
  let stop ← checked (96 + i * 32)
  let w ← slice raw start stop
  readWord w

/-- The loop over the indices from `i` on. -/
def readOwners (raw : List UInt8) : (todo i : ℕ) → List Address → Checked Unit (List Address)
  | 0, _, out => .ok out
  | todo + 1, i, out => do
    let owner ← readOwner raw i
    readOwners raw todo (i + 1) (out ++ [owner])

def decodeAddressArrayAt (raw : List UInt8) : Checked Unit (List Address) :=
  if raw.length < 64 then refuse
  else do
    let offset ← slice raw 0 32
    if beNat offset ≠ 32 then refuse
    else do
      let lenWord ← slice raw 32 64
      let len ← usizeTryFrom (beNat lenWord)
      if maxSafeOwners < len then refuse
      else do
        let size ← checked (len * 32)
        let need ← checked (64 + size)
        if raw.length < need then refuse else readOwners raw len 0 []

def decodeAddressArray (raw : List UInt8) : Option (List Address) :=
  match decodeAddressArrayAt raw with
  | .ok owners => some owners
  | .error _ => none

/-! ### Encoding -/

/-- An address in a word of its own. -/
def addressWord (a : Address) : List UInt8 := List.replicate 12 0 ++ a.val

/-- The encoding of a returned `address[]`: the offset of the array, its length, which has to fit
a word, and the elements. -/
def abiEncode (owners : List Address) : Option (List UInt8) :=
  if owners.length < 2 ^ 256 then
    some (beBytes 32 32 ++ (beBytes 32 owners.length ++ owners.flatMap addressWord))
  else none

@[simp] theorem length_addressWord (a : Address) : (addressWord a).length = 32 := by
  rw [addressWord, List.length_append, List.length_replicate, a.property]

theorem length_flatMap_addressWord (owners : List Address) :
    (owners.flatMap addressWord).length = owners.length * 32 := by
  induction owners with
  | nil => rfl
  | cons a owners ih =>
    rw [List.flatMap_cons, List.length_append, length_addressWord, ih, List.length_cons]
    omega

/-! ### The decoder without accesses -/

def wordOwner (w : List UInt8) : Option Address :=
  if w.take 12 = List.replicate 12 0 then toFixed 20 (w.drop 12) else none

/-- As many addresses at the front of the bytes. -/
def ownersIn : ℕ → List UInt8 → Option (List Address)
  | 0, _ => some []
  | n + 1, bytes => do
    let owner ← wordOwner (bytes.take 32)
    let owners ← ownersIn n (bytes.drop 32)
    some (owner :: owners)

def lenWord (raw : List UInt8) : ℕ := beNat ((raw.drop 32).take 32)

def ownersOf (raw : List UInt8) : Option (List Address) :=
  if raw.length < 64 ∨ beNat (raw.take 32) ≠ 32 ∨ maxSafeOwners < lenWord raw ∨
      raw.length < 64 + lenWord raw * 32 then none
  else ownersIn (lenWord raw) (raw.drop 64)

theorem readWord_eq {w : List UInt8} (h : w.length = 32) :
    readWord w = ofOption (wordOwner w) := by
  unfold readWord wordOwner
  rw [slice_eq_ok (by omega) (by omega)]
  change (if w.take 12 ≠ List.replicate 12 0 then refuse else _) = _
  by_cases hhigh : w.take 12 = List.replicate 12 0
  · have hlow : (w.drop 12).take (w.length - 12) = w.drop 12 :=
      List.take_of_length_le (Nat.le_of_eq List.length_drop)
    have haddress : toFixed 20 (w.drop 12) = some ⟨w.drop 12, by rw [List.length_drop, h]⟩ :=
      toFixed_eq_some.mpr rfl
    rw [if_neg (not_not.mpr hhigh), if_pos hhigh, slice_eq_ok (by omega) (Nat.le_refl _), hlow]
    change addressFromSlice (w.drop 12) = _
    rw [addressFromSlice, haddress]
    rfl
  · rw [if_pos hhigh, if_neg hhigh]
    rfl

theorem readOwner_eq {raw : List UInt8} {i : ℕ} (hi : i < maxSafeOwners)
    (h : 96 + i * 32 ≤ raw.length) :
    readOwner raw i = ofOption (wordOwner ((raw.drop (64 + i * 32)).take 32)) := by
  have hi' : i < 64 := hi
  have hword : 96 + i * 32 - (64 + i * 32) = 32 := by omega
  unfold readOwner
  rw [checked_eq_ok (by omega)]
  change (checked (96 + i * 32) >>= _) = _
  rw [checked_eq_ok (by omega)]
  change (slice raw (64 + i * 32) (96 + i * 32) >>= _) = _
  rw [slice_eq_ok (by omega) h, hword]
  apply readWord_eq
  rw [List.length_take, List.length_drop]
  omega

theorem readOwners_eq {raw : List UInt8} {todo i : ℕ} (hi : i + todo ≤ maxSafeOwners)
    (h : 64 + (i + todo) * 32 ≤ raw.length) (out : List Address) :
    readOwners raw todo i out =
      ofOption ((ownersIn todo (raw.drop (64 + i * 32))).map (out ++ ·)) := by
  induction todo generalizing i out with
  | zero => simp [readOwners, ownersIn, ofOption]
  | succ todo ih =>
    have hnext : 64 + i * 32 + 32 = 64 + (i + 1) * 32 := by omega
    rw [readOwners, readOwner_eq (by omega) (by omega), ownersIn, List.drop_drop, hnext]
    cases wordOwner ((raw.drop (64 + i * 32)).take 32) with
    | none => rfl
    | some owner =>
      change readOwners raw todo (i + 1) (out ++ [owner]) = _
      rw [ih (by omega) (by omega)]
      cases ownersIn todo (raw.drop (64 + (i + 1) * 32)) with
      | none => rfl
      | some owners => simp [ofOption]

theorem decodeAddressArrayAt_eq (raw : List UInt8) :
    decodeAddressArrayAt raw = ofOption (ownersOf raw) := by
  unfold decodeAddressArrayAt ownersOf
  by_cases hshort : raw.length < 64
  · rw [if_pos hshort, if_pos (.inl hshort)]
    rfl
  rw [if_neg hshort, slice_eq_ok (by omega) (by omega)]
  change (if beNat (raw.take 32) ≠ 32 then refuse else _) = _
  by_cases hoffset : beNat (raw.take 32) ≠ 32
  · rw [if_pos hoffset, if_pos (.inr (.inl hoffset))]
    rfl
  rw [if_neg hoffset, slice_eq_ok (by omega) (by omega)]
  change (usizeTryFrom (lenWord raw) >>= _) = _
  by_cases hlen : maxSafeOwners < lenWord raw
  · rw [if_pos (.inr (.inr (.inl hlen))), usizeTryFrom]
    split
    · change (if maxSafeOwners < lenWord raw then refuse else _) = _
      rw [if_pos hlen]
      rfl
    · rfl
  have hlen' : lenWord raw ≤ 64 := Nat.not_lt.mp hlen
  rw [usizeTryFrom, if_pos (by omega)]
  change (if maxSafeOwners < lenWord raw then refuse else _) = _
  rw [if_neg hlen, checked_eq_ok (by omega)]
  change (checked (64 + lenWord raw * 32) >>= _) = _
  rw [checked_eq_ok (by omega)]
  change (if raw.length < 64 + lenWord raw * 32 then refuse else _) = _
  by_cases hsize : raw.length < 64 + lenWord raw * 32
  · rw [if_pos hsize, if_pos (.inr (.inr (.inr hsize)))]
    rfl
  rw [if_neg hsize, if_neg (by simp only [not_or]; exact ⟨hshort, hoffset, hlen, hsize⟩),
    readOwners_eq (by omega) (by omega)]
  simp

/-! ### What is decoded -/

theorem wordOwner_eq_some {w : List UInt8} {a : Address} :
    wordOwner w = some a ↔ w = addressWord a := by
  unfold wordOwner addressWord
  constructor
  · intro h
    split at h
    · next hhigh => rw [toFixed_eq_some.mp h, ← hhigh, List.take_append_drop]
    · cases h
  · rintro rfl
    rw [if_pos (by simp), toFixed_eq_some]
    simp

theorem ownersIn_eq_some {n : ℕ} {bytes : List UInt8} {owners : List Address} :
    ownersIn n bytes = some owners ↔
      owners.length = n ∧ ∃ t, bytes = owners.flatMap addressWord ++ t := by
  induction n generalizing bytes owners with
  | zero =>
    rw [ownersIn, Option.some.injEq, List.length_eq_zero_iff]
    constructor
    · rintro rfl
      exact ⟨rfl, bytes, rfl⟩
    · exact fun h => h.1.symm
  | succ n ih =>
    rw [ownersIn]
    simp only [Option.bind_eq_bind, Option.bind_eq_some_iff, wordOwner_eq_some, ih]
    constructor
    · rintro ⟨owner, hword, rest, ⟨rfl, t, hrest⟩, heq⟩
      cases heq
      refine ⟨rfl, t, ?_⟩
      rw [List.flatMap_cons, List.append_assoc, ← hrest, ← hword, List.take_append_drop]
    · rintro ⟨hlength, t, rfl⟩
      cases owners with
      | nil => cases hlength
      | cons owner owners =>
        refine ⟨owner, ?_, owners, ⟨Nat.succ.inj hlength, t, ?_⟩, rfl⟩
        · rw [List.flatMap_cons, List.append_assoc, List.take_left' (length_addressWord owner)]
        · rw [List.flatMap_cons, List.append_assoc, List.drop_left' (length_addressWord owner)]

theorem pow_256 : 2 ^ 256 = 256 ^ 32 := by
  rw [show 256 = 8 * 32 from rfl, Nat.pow_mul]

/-- The word that is the big-endian of a number. -/
theorem eq_beBytes_of_beNat {w : List UInt8} {n : ℕ} (hw : w.length = 32) (hn : beNat w = n) :
    w = beBytes 32 n := by
  have h := beBytes_beNat w
  rw [hw, hn] at h
  exact h.symm

theorem lenWord_append {n : ℕ} (hn : n < 2 ^ 256) (rest : List UInt8) :
    lenWord (beBytes 32 32 ++ (beBytes 32 n ++ rest)) = n := by
  rw [lenWord, List.drop_left' (length_beBytes 32 32), List.take_left' (length_beBytes 32 n)]
  exact beNat_beBytes (pow_256 ▸ hn)

theorem ownersOf_eq_some {raw : List UInt8} {owners : List Address} :
    ownersOf raw = some owners ↔
      owners.length ≤ maxSafeOwners ∧ ∃ t, raw =
        beBytes 32 32 ++ (beBytes 32 owners.length ++ (owners.flatMap addressWord ++ t)) := by
  unfold ownersOf
  constructor
  · intro h
    split at h
    · cases h
    · next hfits =>
      simp only [not_or, not_not, Nat.not_lt] at hfits
      obtain ⟨hlong, hoffset, hlen, -⟩ := hfits
      obtain ⟨hlength, t, hrest⟩ := ownersIn_eq_some.mp h
      refine ⟨hlength ▸ hlen, t, ?_⟩
      have hfirst : raw.take 32 = beBytes 32 32 :=
        eq_beBytes_of_beNat (by rw [List.length_take]; omega) hoffset
      have hsecond : (raw.drop 32).take 32 = beBytes 32 owners.length :=
        eq_beBytes_of_beNat (by rw [List.length_take, List.length_drop]; omega) hlength.symm
      have hthird : (raw.drop 32).drop 32 = owners.flatMap addressWord ++ t := by
        rw [List.drop_drop]
        exact hrest
      rw [← hfirst, ← hsecond, ← hthird, List.take_append_drop, List.take_append_drop]
  · rintro ⟨hlength, t, rfl⟩
    have hlength' : owners.length ≤ 64 := hlength
    have hlen := lenWord_append (n := owners.length) (by omega) (owners.flatMap addressWord ++ t)
    have hoffset : beNat ((beBytes 32 32 ++ (beBytes 32 owners.length ++
        (owners.flatMap addressWord ++ t))).take 32) = 32 := by
      rw [List.take_left' (length_beBytes 32 32)]
      exact beNat_beBytes (by omega)
    rw [hlen, if_neg, ownersIn_eq_some]
    · refine ⟨rfl, t, ?_⟩
      rw [← List.append_assoc, List.drop_left' (by simp)]
    · simp only [not_or, not_not, Nat.not_lt, List.length_append, length_beBytes,
        length_flatMap_addressWord]
      exact ⟨by omega, hoffset, hlength, by omega⟩

theorem decodeAddressArray_eq (raw : List UInt8) : decodeAddressArray raw = ownersOf raw := by
  rw [decodeAddressArray, decodeAddressArrayAt_eq]
  cases ownersOf raw with
  | none => rfl
  | some owners => rfl

theorem abiEncode_of_decodeAddressArray {raw : List UInt8} {owners : List Address}
    (h : decodeAddressArray raw = some owners) :
    ∃ enc t, abiEncode owners = some enc ∧ raw = enc ++ t := by
  rw [decodeAddressArray_eq] at h
  obtain ⟨hfew, t, hraw⟩ := ownersOf_eq_some.mp h
  have hfew' : owners.length ≤ 64 := hfew
  refine ⟨_, t, if_pos (by omega), ?_⟩
  rw [hraw, List.append_assoc, List.append_assoc]

/-- The decoder of owner lists takes exactly the ABI encodings of at most 64 addresses, with
anything after them, for what they encode, and it never aborts. -/
theorem owner_list_decodes_exactly :
    (∀ owners enc t, abiEncode owners = some enc →
      decodeAddressArray (enc ++ t) = if owners.length ≤ 64 then some owners else none) ∧
    (∀ raw owners, decodeAddressArray raw = some owners →
      ∃ enc t, abiEncode owners = some enc ∧ raw = enc ++ t) ∧
    ∀ raw, decodeAddressArrayAt raw ≠ .error .abort := by
  refine ⟨?_, fun raw owners => abiEncode_of_decodeAddressArray, ?_⟩
  · intro owners enc t henc
    unfold abiEncode at henc
    split at henc
    · next hword =>
      rw [← Option.some.inj henc, decodeAddressArray_eq, List.append_assoc, List.append_assoc]
      split
      · next hfew => exact ownersOf_eq_some.mpr ⟨hfew, t, rfl⟩
      · next hmany =>
        rw [ownersOf, lenWord_append hword, if_pos]
        exact .inr (.inr (.inl (Nat.not_le.mp hmany)))
    · cases henc
  · intro raw
    rw [decodeAddressArrayAt_eq]
    exact ofOption_ne_abort _

/-! ### Reading the quorum -/

def selGetOwners : List UInt8 := [0xa0, 0xe6, 0x7e, 0x2b]
def selGetThreshold : List UInt8 := [0xe7, 0x52, 0x35, 0xb8]

variable {C : Type}

/-- Owners and threshold, both at the block that was pinned first. -/
def safeQuorum (chain : C) (safe : Address) (finality : Finality) :
    ChainRead C (List Address × ℕ) := do
  let block ← finalizedBlock chain finality
  let raw ← rpc chain (.call safe selGetOwners (.number block.number)) parseCallBytes
  let owners ← Fallible.ofExcept (okOr (decodeAddressArray raw) .rpc)
  let w ← ethCallWord chain safe selGetThreshold (.number block.number)
  pure (owners, beNat w.val)

/-- The owners of a quorum are the list that the node encoded, at the block that the threshold was
read at. -/
theorem safeQuorum_owners {chain : C} {safe : Address} {finality : Finality}
    {t : Transcript (RpcAnswer C)} {owners : List Address} {threshold : ℕ}
    (h : Fallible.Runs (safeQuorum chain safe finality) t (.ok (owners, threshold))) :
    ∃ before block ownersAnswer thresholdAnswer enc rest w,
      t = before ++ [⟨⟨chain, .call safe selGetOwners (.number block.number)⟩, ownersAnswer⟩,
        ⟨⟨chain, .call safe selGetThreshold (.number block.number)⟩, thresholdAnswer⟩] ∧
      Fallible.Runs (finalizedBlock chain finality) before (.ok block) ∧
      parseCallBytes ownersAnswer = .ok (enc ++ rest) ∧ abiEncode owners = some enc ∧
      parseCallWord thresholdAnswer = .ok w ∧ threshold = beNat w.val := by
  obtain ⟨before, _, block, rfl, hblock, rest₁⟩ := Fallible.runs_bind_ok.mp h
  obtain ⟨_, _, raw, rfl, hraw, rest₂⟩ := Fallible.runs_bind_ok.mp rest₁
  obtain ⟨ownersAnswer, rfl, hparse⟩ := runs_rpc.mp hraw
  obtain ⟨_, _, owners', rfl, howners, rest₃⟩ := Fallible.runs_bind_ok.mp rest₂
  obtain ⟨rfl, hdecoded⟩ := Fallible.runs_ofExcept_ok.mp howners
  obtain ⟨_, _, w, rfl, hw, rest₄⟩ := Fallible.runs_bind_ok.mp rest₃
  obtain ⟨thresholdAnswer, rfl, hword⟩ := runs_rpc.mp hw
  obtain ⟨rfl, hpair⟩ := Fallible.runs_pure_ok.mp rest₄
  cases hpair
  obtain ⟨enc, rest, henc, rfl⟩ := abiEncode_of_decodeAddressArray (okOr_eq_ok.mp hdecoded)
  exact ⟨before, block, ownersAnswer, thresholdAnswer, enc, rest, w, rfl, hblock, hparse, henc,
    hword, rfl⟩

end Nuntius.ChainReads
