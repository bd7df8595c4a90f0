import Mathlib.Data.Nat.Digits.Lemmas
import Nuntius.AttestationVerify
import Nuntius.CheckedSlices

/-!
# Signatures of certificates

A certificate carries its signature as a DER SEQUENCE of two INTEGERs. The reader moves a cursor
through the bytes; it is modelled once more here with every access checked, and equal to the
reader of `AttestationVerify`, so it never leaves the bytes. What it reads is the two numbers,
each in 48 bytes. The cursor stays within 2^32 of the end of the bytes and thus fits in 64 bits.
-/

namespace Nuntius.AttestationVerify
open WireFormat CheckedSlices

/-! ### The cursor -/

/-- The length bytes, one after the other. -/
def readLenBytes (der : List UInt8) : (n p len : ℕ) → Checked String (ℕ × ℕ)
  | 0, p, len => .ok (len, p)
  | n + 1, p, len =>
    match der[p]? with
    | none => .error (.error "truncated length bytes")
    | some b => readLenBytes der n (p + 1) (len <<< 8 ||| b.toNat)

def readDerLenAt (der : List UInt8) (p : ℕ) : Checked String (ℕ × ℕ) :=
  match der[p]? with
  | none => .error (.error "truncated length")
  | some first =>
    if first < 0x80 then .ok (first.toNat, p + 1)
    else
      let n := (first &&& 0x7f).toNat
      if n = 0 ∨ 4 < n then .error (.error "unsupported DER length form")
      else readLenBytes der n (p + 1) 0

def readDerIntAt (der : List UInt8) (p stop : ℕ) : Checked String (List UInt8 × ℕ) :=
  if der[p]? ≠ some 0x02 then .error (.error "expected DER INTEGER")
  else do
    let (len, start) ← readDerLenAt der (p + 1)
    if stop < start + len then .error (.error "INTEGER overruns SEQUENCE")
    else do
      let bytes ← slice der start (start + len)
      if bytes.head? = some 0 ∧ 1 < bytes.length then do
        let bytes ← slice bytes 1 bytes.length
        .ok (bytes, start + len)
      else .ok (bytes, start + len)

def leftPadInto (src dst : List UInt8) : Checked String (List UInt8) :=
  if dst.length < src.length then .error (.error "integer wider than field")
  else do
    let offset ← sub dst.length src.length
    copyInto (List.replicate dst.length 0) offset dst.length src

/-- The two halves of the output. -/
def writeFixed (r s : List UInt8) : Checked String (List UInt8) := do
  let out := List.replicate 96 0
  let left ← slice out 0 48
  let left ← leftPadInto r left
  let out ← copyInto out 0 48 left
  let right ← slice out 48 96
  let right ← leftPadInto s right
  copyInto out 48 96 right

def ecdsaDerToFixedAt (der : List UInt8) : Checked String (List UInt8) :=
  if der[0]? ≠ some 0x30 then .error (.error "expected DER SEQUENCE")
  else do
    let (seqLen, p) ← readDerLenAt der 1
    let seqEnd := p + seqLen
    if der.length < seqEnd then .error (.error "SEQUENCE overruns buffer")
    else do
      let (r, p) ← readDerIntAt der p seqEnd
      let (s, _) ← readDerIntAt der p seqEnd
      writeFixed r s

/-! ### It computes what the reader without a cursor computes -/

theorem shiftLeft_or_toNat (len : ℕ) (b : UInt8) : len <<< 8 ||| b.toNat = len * 256 + b.toNat := by
  rw [← Nat.shiftLeft_add_eq_or_of_lt b.toNat_lt, Nat.shiftLeft_eq]

section Cursor
variable {der : List UInt8} {p stop : ℕ}

theorem readLenBytes_eq (h : p ≤ der.length) (n len : ℕ) :
    readLenBytes der n p len =
      if der.length < p + n then .error (.error "truncated length bytes")
      else .ok (((der.drop p).take n).foldl (fun acc b => acc * 256 + b.toNat) len, p + n) := by
  induction n generalizing p len with
  | zero =>
    rw [if_neg (by omega)]
    simp [readLenBytes]
  | succ n ih =>
    rw [readLenBytes]
    by_cases hp : p < der.length
    · simp only [List.getElem?_eq_getElem hp]
      rw [ih (by omega), List.drop_eq_getElem_cons hp, List.take_succ_cons, List.foldl_cons,
        shiftLeft_or_toNat, Nat.add_right_comm, Nat.add_assoc]
    · rw [List.getElem?_eq_none (by omega), if_pos (by omega)]

/-- A reading from the cursor, and the one of what stands behind it: both fail alike, or the
cursor moves to where the other goes on. -/
def Agrees {α β : Type} (p stop : ℕ) (behind : ℕ → β) (list : Except String (α × β))
    (cursor : Checked String (α × ℕ)) : Prop :=
  (∃ e, list = .error e ∧ cursor = .error (.error e)) ∨
    ∃ a p', p ≤ p' ∧ p' ≤ stop ∧ list = .ok (a, behind p') ∧ cursor = .ok (a, p')

theorem readDerLenAt_agrees (h : p ≤ der.length) :
    Agrees p der.length der.drop (readDerLen (der.drop p)) (readDerLenAt der p) := by
  unfold readDerLenAt
  by_cases hp : p < der.length
  · rw [List.drop_eq_getElem_cons hp, readDerLen, List.getElem?_eq_getElem hp]
    dsimp only
    split
    · exact .inr ⟨_, p + 1, by omega, hp, rfl, rfl⟩
    · split
      · exact .inl ⟨_, rfl, rfl⟩
      · rw [readLenBytes_eq hp, List.length_drop]
        split
        · rw [if_pos (by omega)]
          exact .inl ⟨_, rfl, rfl⟩
        · rw [if_neg (by omega), List.drop_drop]
          exact .inr ⟨_, _, by omega, by omega, rfl, rfl⟩
  · rw [List.drop_eq_nil_of_le (by omega), List.getElem?_eq_none (by omega)]
    exact .inl ⟨_, rfl, rfl⟩

theorem stripSignByte_eq (bytes : List UInt8) :
    stripSignByte bytes =
      if bytes.head? = some 0 ∧ 1 < bytes.length then bytes.drop 1 else bytes := by
  cases bytes with
  | nil => rfl
  | cons b bytes =>
    cases bytes with
    | nil => simp [stripSignByte]
    | cons b' bytes =>
      by_cases hb : b = 0
      · subst hb
        simp [stripSignByte]
      · rw [if_neg (by simp [hb])]
        unfold stripSignByte
        split
        · next heq => exact absurd (List.cons.inj heq).1 hb
        · rfl

theorem readDerInt_cons (limit : ℕ) (b : UInt8) (rest : List UInt8) :
    readDerInt limit (b :: rest) =
      if b = 0x02 then do
        let (len, body) ← readDerLen rest
        let used := (rest.length + 1 - body.length) + len
        if limit < used then .error "INTEGER overruns SEQUENCE"
        else .ok (stripSignByte (body.take len), limit - used, body.drop len)
      else .error "expected DER INTEGER" := by
  by_cases hb : b = 0x02
  · subst hb
    rfl
  · rw [if_neg hb]
    unfold readDerInt
    split
    · next heq => exact absurd (List.cons.inj heq).1 hb
    · rfl

theorem readDerIntAt_agrees (h : p ≤ stop) (h' : stop ≤ der.length) :
    Agrees p stop (fun p' => (stop - p', der.drop p')) (readDerInt (stop - p) (der.drop p))
      (readDerIntAt der p stop) := by
  unfold readDerIntAt
  by_cases hp : p < der.length
  · rw [List.drop_eq_getElem_cons hp, readDerInt_cons, List.getElem?_eq_getElem hp]
    by_cases hb : der[p] = 0x02
    · rw [if_pos hb, if_neg (by simp [hb])]
      obtain ⟨e, hlist, hcursor⟩ | ⟨len, start, hstart, hend, hlist, hcursor⟩ :=
        readDerLenAt_agrees hp
      · rw [hlist, hcursor]
        exact .inl ⟨e, rfl, rfl⟩
      · rw [hlist, hcursor]
        -- the room that the list reader counts is the distance to the end
        have hused : (der.drop (p + 1)).length + 1 - (der.drop start).length + len =
            start + len - p := by
          simp only [List.length_drop]
          omega
        simp only [Except.bind, bind, hused]
        by_cases hroom : stop < start + len
        · rw [if_pos (by omega), if_pos hroom]
          exact .inl ⟨_, rfl, rfl⟩
        · have hroom' : stop - p - (start + len - p) = stop - (start + len) := by omega
          rw [if_neg (by omega), if_neg hroom, hroom', slice_eq_ok (by omega) (by omega),
            Nat.add_sub_cancel_left, List.drop_drop, stripSignByte_eq]
          dsimp only
          split
          · next hsign =>
            rw [slice_eq_ok hsign.2.le le_rfl]
            refine .inr ⟨_, start + len, by omega, by omega, rfl, ?_⟩
            rw [← List.length_drop, List.take_length]
          · exact .inr ⟨_, start + len, by omega, by omega, rfl, rfl⟩
    · rw [if_neg hb, if_pos (by simp [hb])]
      exact .inl ⟨_, rfl, rfl⟩
  · rw [List.drop_eq_nil_of_le (by omega), List.getElem?_eq_none (by omega), if_pos (by simp)]
    exact .inl ⟨_, rfl, rfl⟩

theorem leftPadInto_eq (src dst : List UInt8) :
    leftPadInto src dst = lift (leftPad dst.length src) := by
  unfold leftPadInto leftPad
  split
  · rfl
  · next hwide =>
    have hzeros : List.replicate dst.length (0 : UInt8) =
        List.replicate (dst.length - src.length) 0 ++ (List.replicate src.length 0 ++ []) := by
      rw [List.append_nil, ← List.replicate_add]
      congr 1
      omega
    rw [sub_eq_ok (by omega)]
    change copyInto _ _ _ _ = _
    rw [hzeros, copyInto_append List.length_replicate (by simp; omega) (by simp), List.append_nil]
    rfl

theorem length_leftPad {width : ℕ} {src out : List UInt8} (h : leftPad width src = .ok out) :
    out.length = width := by
  unfold leftPad at h
  split at h
  · cases h
  · cases h
    simp only [List.length_append, List.length_replicate]
    omega

/-- Both numbers in 48 bytes each. -/
def padBoth (r s : List UInt8) : Except String (List UInt8) := do
  let r ← leftPad 48 r
  let s ← leftPad 48 s
  .ok (r ++ s)

theorem writeFixed_eq (r s : List UInt8) : writeFixed r s = lift (padBoth r s) := by
  have hzeros : (List.replicate 48 (0 : UInt8)).length = 48 := rfl
  have hleft : (slice (List.replicate 96 0) 0 48 : Checked String _) =
      .ok (List.replicate 48 (0 : UInt8)) :=
    slice_append (a := []) (b := List.replicate 48 0) rfl rfl (List.replicate 48 0)
  unfold writeFixed padBoth
  dsimp only
  rw [hleft, lift_bind]
  change (leftPadInto r (List.replicate 48 0) >>= _) = _
  rw [leftPadInto_eq, hzeros]
  cases hr : leftPad 48 r with
  | error e => rfl
  | ok r' =>
    have hr' := length_leftPad hr
    have hfirst : (copyInto (List.replicate 96 0) 0 48 r' : Checked String _) =
        .ok (r' ++ (List.replicate 48 0 ++ [])) :=
      copyInto_append (a := []) (b := List.replicate 48 0) rfl rfl (hr'.trans hzeros.symm)
        (List.replicate 48 0)
    have hright : (slice (r' ++ (List.replicate 48 0 ++ [])) 48 96 : Checked String _) =
        .ok (List.replicate 48 0) := slice_append hr' rfl []
    change (copyInto _ 0 48 r' >>= _) = _
    rw [hfirst]
    change (slice _ 48 96 >>= _) = _
    rw [hright]
    change (leftPadInto s (List.replicate 48 0) >>= _) = lift (leftPad 48 s >>= _)
    rw [leftPadInto_eq, hzeros, lift_bind]
    cases hs : leftPad 48 s with
    | error e => rfl
    | ok s' =>
      have hs' := length_leftPad hs
      have hsecond : (copyInto (r' ++ (List.replicate 48 0 ++ [])) 48 96 s' : Checked String _) =
          .ok (r' ++ (s' ++ [])) := copyInto_append hr' rfl (hs'.trans hzeros.symm) []
      exact hsecond.trans (by rw [List.append_nil]; rfl)

theorem ecdsaDerToFixed_cons (b : UInt8) (rest : List UInt8) :
    ecdsaDerToFixed (b :: rest) =
      if b = 0x30 then do
        let (seqLen, body) ← readDerLen rest
        if body.length < seqLen then .error "SEQUENCE overruns buffer"
        else do
          let (r, room, afterR) ← readDerInt seqLen body
          let (s, _, _) ← readDerInt room afterR
          padBoth r s
      else .error "expected DER SEQUENCE" := by
  by_cases hb : b = 0x30
  · subst hb
    rfl
  · rw [if_neg hb]
    unfold ecdsaDerToFixed
    split
    · next heq => exact absurd (List.cons.inj heq).1 hb
    · rfl

/-- Every access of the reader is within the bytes. -/
theorem ecdsaDerToFixedAt_eq (der : List UInt8) :
    ecdsaDerToFixedAt der = lift (ecdsaDerToFixed der) := by
  cases der with
  | nil => rfl
  | cons b rest =>
    unfold ecdsaDerToFixedAt
    rw [ecdsaDerToFixed_cons]
    by_cases hb : b = 0x30
    · have hone : 1 ≤ (b :: rest).length := by simp
      rw [if_neg (by simp [hb]), if_pos hb]
      obtain ⟨e, hlist, hcursor⟩ | ⟨seqLen, p, -, hp, hlist, hcursor⟩ := readDerLenAt_agrees hone
      · rw [List.drop_one, List.tail_cons] at hlist
        rw [hlist, hcursor]
        rfl
      · rw [List.drop_one, List.tail_cons] at hlist
        rw [hlist, hcursor]
        simp only [bind, Except.bind]
        have hroom : ((b :: rest).drop p).length < seqLen ↔ (b :: rest).length < p + seqLen := by
          rw [List.length_drop]
          omega
        by_cases hover : (b :: rest).length < p + seqLen
        · rw [if_pos hover, if_pos (hroom.mpr hover)]
          rfl
        · rw [if_neg hover, if_neg (mt hroom.mp hover)]
          have hr := readDerIntAt_agrees (Nat.le_add_right p seqLen) (not_lt.mp hover)
          rw [Nat.add_sub_cancel_left] at hr
          obtain ⟨e, hlist, hcursor⟩ | ⟨r, p', -, hp', hlist, hcursor⟩ := hr
          · rw [hlist, hcursor]
            rfl
          · rw [hlist, hcursor]
            dsimp only
            obtain ⟨e, hlist, hcursor⟩ | ⟨s, p'', -, -, hlist, hcursor⟩ :=
              readDerIntAt_agrees hp' (not_lt.mp hover)
            · rw [hlist, hcursor]
              rfl
            · rw [hlist, hcursor]
              exact writeFixed_eq r s
    · rw [if_pos (by simp [hb]), if_neg hb]
      rfl

end Cursor

/-! ### What it reads -/

/-- Definite lengths as BER has them: one octet, or their number and the octets. -/
inductive LengthOctets : List UInt8 → ℕ → Prop
  | short {n : ℕ} (small : n < 0x80) : LengthOctets [UInt8.ofNat n] n
  | long {octets : List UInt8} (some : 0 < octets.length) (few : octets.length < 0x7f) :
      LengthOctets (UInt8.ofNat (0x80 + octets.length) :: octets) (beNat octets)

/-- A SEQUENCE whose first two elements are INTEGERs with these unsigned values. -/
def TwoIntegers (der : List UInt8) (r s : ℕ) : Prop :=
  ∃ seqLen rLen sLen rBytes sBytes rest n,
    der = 0x30 :: (seqLen ++ (0x02 :: (rLen ++ (rBytes ++ (0x02 :: (sLen ++ (sBytes ++ rest))))))) ∧
    LengthOctets seqLen n ∧ LengthOctets rLen rBytes.length ∧ LengthOctets sLen sBytes.length ∧
    beNat rBytes = r ∧ beNat sBytes = s

theorem and_0x7f_toNat (b : UInt8) : (b &&& 0x7f).toNat = b.toNat % 128 := by
  rw [UInt8.toNat_and]
  exact Nat.and_two_pow_sub_one_eq_mod b.toNat 7

/-- The short form is always read. -/
theorem readDerLen_short {n : ℕ} (h : n < 0x80) (tail : List UInt8) :
    readDerLen (UInt8.ofNat n :: tail) = .ok (n, tail) := by
  have hn : (UInt8.ofNat n).toNat = n := by rw [UInt8.toNat_ofNat']; omega
  have hshort : UInt8.ofNat n < 0x80 := by
    rw [UInt8.lt_iff_toNat_lt, hn]
    exact h
  rw [readDerLen, if_pos hshort, hn]

/-- Lengths are read back, if not refused. -/
theorem readDerLen_append {octets : List UInt8} {n : ℕ} (h : LengthOctets octets n)
    (tail : List UInt8) :
    readDerLen (octets ++ tail) = .ok (n, tail) ∨ ∃ e, readDerLen (octets ++ tail) = .error e := by
  cases h with
  | short small => exact .inl (readDerLen_short small tail)
  | @long octets some few =>
    have hn : (UInt8.ofNat (0x80 + octets.length)).toNat = 0x80 + octets.length := by
      rw [UInt8.toNat_ofNat']
      omega
    have hlong : ¬ UInt8.ofNat (0x80 + octets.length) < 0x80 := by
      rw [UInt8.lt_iff_toNat_lt, hn]
      exact not_lt.mpr (Nat.le_add_right _ _)
    have hcount : (UInt8.ofNat (0x80 + octets.length) &&& 0x7f).toNat = octets.length := by
      rw [and_0x7f_toNat, hn]
      omega
    rw [List.cons_append, readDerLen, if_neg hlong]
    simp only [hcount]
    split
    · exact .inr ⟨_, rfl⟩
    · rw [if_neg (by simp), List.take_left, List.drop_left]
      exact .inl rfl

/-- What is read as a length is one. -/
theorem lengthOctets_of_readDerLen {bytes tail : List UInt8} {n : ℕ}
    (h : readDerLen bytes = .ok (n, tail)) :
    ∃ octets, bytes = octets ++ tail ∧ LengthOctets octets n := by
  cases bytes with
  | nil => cases h
  | cons first rest =>
    rw [readDerLen] at h
    split at h
    · next hshort =>
      cases h
      rw [UInt8.lt_iff_toNat_lt] at hshort
      refine ⟨[UInt8.ofNat first.toNat], by simp, .short hshort⟩
    · next hlong =>
      dsimp only at h
      split at h
      · cases h
      · next hform =>
        split at h
        · cases h
        · next hrest =>
          cases h
          rw [UInt8.lt_iff_toNat_lt, not_lt] at hlong
          rw [and_0x7f_toNat] at hform hrest ⊢
          have hfirst := first.toNat_lt
          have hcount : (rest.take (first.toNat % 128)).length = first.toNat % 128 := by
            rw [List.length_take]
            omega
          have hoctet : UInt8.ofNat (0x80 + (rest.take (first.toNat % 128)).length) = first := by
            apply UInt8.toNat_inj.mp
            rw [hcount, UInt8.toNat_ofNat']
            change 128 ≤ first.toNat at hlong
            omega
          refine ⟨_ :: rest.take (first.toNat % 128), ?_, .long (by omega) (by omega)⟩
          rw [hoctet, List.cons_append, List.take_append_drop]

theorem beNat_cons_zero (bytes : List UInt8) : beNat (0 :: bytes) = beNat bytes := rfl

theorem beNat_replicate_zero (k : ℕ) (bytes : List UInt8) :
    beNat (List.replicate k 0 ++ bytes) = beNat bytes := by
  induction k with
  | zero => rfl
  | succ k ih => rw [List.replicate_succ, List.cons_append, beNat_cons_zero, ih]

theorem beNat_stripSignByte (bytes : List UInt8) : beNat (stripSignByte bytes) = beNat bytes := by
  unfold stripSignByte
  split
  · exact (beNat_cons_zero _).symm
  · rfl

theorem length_stripSignByte_le (bytes : List UInt8) :
    (stripSignByte bytes).length ≤ bytes.length := by
  unfold stripSignByte
  split
  · exact Nat.le_succ _
  · exact le_rfl

/-- A number that fits is written in the full width. -/
theorem leftPad_eq_ok {width : ℕ} {src out : List UInt8} :
    leftPad width src = .ok out ↔ src.length ≤ width ∧ out = beBytes width (beNat src) := by
  unfold leftPad
  split
  · next hwide => simp [hwide]
  · next hwide =>
    have hwidth : (List.replicate (width - src.length) 0 ++ src).length = width := by
      rw [List.length_append, List.length_replicate]
      omega
    have hvalue := beBytes_beNat (List.replicate (width - src.length) 0 ++ src)
    rw [hwidth, beNat_replicate_zero] at hvalue
    rw [hvalue, Except.ok.injEq]
    exact ⟨fun h => ⟨not_lt.mp hwide, h.symm⟩, fun h => h.2.symm⟩

/-- An INTEGER whose length was read. -/
theorem readDerInt_append {limit : ℕ} {octets content tail : List UInt8}
    (h : readDerLen (octets ++ (content ++ tail)) = .ok (content.length, content ++ tail)) :
    readDerInt limit (0x02 :: (octets ++ (content ++ tail))) =
      if limit < 1 + octets.length + content.length then .error "INTEGER overruns SEQUENCE"
      else .ok (stripSignByte content, limit - (1 + octets.length + content.length), tail) := by
  have hused : (octets ++ (content ++ tail)).length + 1 - (content ++ tail).length +
      content.length = 1 + octets.length + content.length := by
    simp only [List.length_append]
    omega
  rw [readDerInt_cons, if_pos rfl, h]
  simp only [bind, Except.bind, hused, List.take_left, List.drop_left]

theorem readDerInt_of_lengthOctets {limit room : ℕ} {octets content tail read rest : List UInt8}
    (hlen : LengthOctets octets content.length)
    (h : readDerInt limit (0x02 :: (octets ++ (content ++ tail))) = .ok (read, room, rest)) :
    read = stripSignByte content ∧ rest = tail := by
  obtain hread | ⟨e, hread⟩ := readDerLen_append hlen (content ++ tail)
  · rw [readDerInt_append hread] at h
    split at h
    · cases h
    · cases h
      exact ⟨rfl, rfl⟩
  · rw [readDerInt_cons, if_pos rfl, hread] at h
    cases h

theorem integer_of_readDerInt {limit room : ℕ} {bytes tail read : List UInt8}
    (hlimit : limit ≤ bytes.length) (h : readDerInt limit bytes = .ok (read, room, tail)) :
    ∃ octets content, bytes = 0x02 :: (octets ++ (content ++ tail)) ∧
      LengthOctets octets content.length ∧ read = stripSignByte content ∧ room ≤ tail.length := by
  cases bytes with
  | nil => cases h
  | cons b rest =>
    rw [readDerInt_cons] at h
    split at h
    · next hb =>
      obtain ⟨⟨len, body⟩, hlen, h⟩ := bind_eq_ok.mp h
      obtain ⟨octets, rfl, hoctets⟩ := lengthOctets_of_readDerLen hlen
      dsimp only at h
      split at h
      · cases h
      · next hroom =>
        cases h
        simp only [List.length_cons, List.length_append] at hlimit hroom
        have hcontent : (body.take len).length = len := by
          rw [List.length_take]
          omega
        refine ⟨octets, body.take len, ?_, by rwa [hcontent], rfl, ?_⟩
        · rw [hb, List.take_append_drop]
        · simp only [List.length_drop, List.length_append]
          omega
    · cases h

/-- The output for two numbers. -/
def fixed (r s : ℕ) : List UInt8 := beBytes 48 r ++ beBytes 48 s

theorem padBoth_eq_ok {r s out : List UInt8} :
    padBoth r s = .ok out ↔
      (r.length ≤ 48 ∧ s.length ≤ 48) ∧ out = fixed (beNat r) (beNat s) := by
  unfold padBoth fixed
  rw [bind_eq_ok]
  constructor
  · rintro ⟨r', hr, h⟩
    obtain ⟨s', hs, h⟩ := bind_eq_ok.mp h
    obtain ⟨hrFits, hr'⟩ := leftPad_eq_ok.mp hr
    obtain ⟨hsFits, hs'⟩ := leftPad_eq_ok.mp hs
    have hout : r' ++ s' = out := Except.ok.inj h
    exact ⟨⟨hrFits, hsFits⟩, by rw [← hout, hr', hs']⟩
  · rintro ⟨⟨hr, hs⟩, hout⟩
    refine ⟨_, leftPad_eq_ok.mpr ⟨hr, rfl⟩, bind_eq_ok.mpr ⟨_, leftPad_eq_ok.mpr ⟨hs, rfl⟩, ?_⟩⟩
    rw [hout]

theorem pow_384 : 2 ^ 384 = 256 ^ 48 := by
  rw [show 384 = 8 * 48 from rfl, Nat.pow_mul]

theorem beNat_lt_of_length_le {bytes : List UInt8} (h : (stripSignByte bytes).length ≤ 48) :
    beNat bytes < 2 ^ 384 := by
  rw [← beNat_stripSignByte, pow_384]
  exact (beNat_lt _).trans_le (Nat.pow_le_pow_right (by omega) h)

/-- What is accepted holds two INTEGERs that fit, and the output is these. -/
theorem twoIntegers_of_ok {der out : List UInt8} (h : ecdsaDerToFixed der = .ok out) :
    ∃ r s, TwoIntegers der r s ∧ r < 2 ^ 384 ∧ s < 2 ^ 384 ∧ out = fixed r s := by
  cases der with
  | nil => cases h
  | cons b rest =>
    rw [ecdsaDerToFixed_cons] at h
    split at h
    · next hb =>
      obtain ⟨⟨seqLen, body⟩, hlen, h⟩ := bind_eq_ok.mp h
      dsimp only at h
      split at h
      · cases h
      · next hroom =>
        obtain ⟨⟨r, room, afterR⟩, hr, h⟩ := bind_eq_ok.mp h
        obtain ⟨⟨s, room', rest'⟩, hs, h⟩ := bind_eq_ok.mp h
        obtain ⟨seqOctets, rfl, hseq⟩ := lengthOctets_of_readDerLen hlen
        obtain ⟨rLen, rBytes, rfl, hrLen, rfl, hroom'⟩ :=
          integer_of_readDerInt (not_lt.mp hroom) hr
        obtain ⟨sLen, sBytes, rfl, hsLen, rfl, -⟩ := integer_of_readDerInt hroom' hs
        obtain ⟨⟨hrFits, hsFits⟩, hout⟩ := padBoth_eq_ok.mp h
        rw [beNat_stripSignByte, beNat_stripSignByte] at hout
        exact ⟨beNat rBytes, beNat sBytes, ⟨seqOctets, rLen, sLen, rBytes, sBytes, rest', seqLen,
          by rw [hb], hseq, hrLen, hsLen, rfl, rfl⟩, beNat_lt_of_length_le hrFits,
          beNat_lt_of_length_le hsFits, hout⟩
    · cases h

/-- The two INTEGERs of a string are determined by it, where their lengths are read at all. -/
theorem eq_fixed_of_twoIntegers {der out : List UInt8} {r s : ℕ} (hints : TwoIntegers der r s)
    (h : ecdsaDerToFixed der = .ok out) : out = fixed r s := by
  obtain ⟨seqLen, rLen, sLen, rBytes, sBytes, rest, n, rfl, hseq, hrLen, hsLen, rfl, rfl⟩ := hints
  rw [ecdsaDerToFixed_cons, if_pos rfl] at h
  obtain ⟨⟨len, body⟩, hlen, h⟩ := bind_eq_ok.mp h
  obtain hread | ⟨e, hread⟩ := readDerLen_append hseq
    (0x02 :: (rLen ++ (rBytes ++ (0x02 :: (sLen ++ (sBytes ++ rest))))))
  · cases hread.symm.trans hlen
    dsimp only at h
    split at h
    · cases h
    · obtain ⟨⟨r, room, afterR⟩, hr, h⟩ := bind_eq_ok.mp h
      obtain ⟨⟨s, room', rest'⟩, hs, h⟩ := bind_eq_ok.mp h
      obtain ⟨rfl, rfl⟩ := readDerInt_of_lengthOctets hrLen hr
      obtain ⟨rfl, rfl⟩ := readDerInt_of_lengthOctets hsLen hs
      rw [(padBoth_eq_ok.mp h).2, beNat_stripSignByte, beNat_stripSignByte]
  · cases hread.symm.trans hlen

/-! ### Encoding -/

/-- Big-endian without zeros in front. -/
def minimalBytes (n : ℕ) : List UInt8 := ((Nat.digits 256 n).map UInt8.ofNat).reverse

def derLength (n : ℕ) : List UInt8 :=
  if n < 0x80 then [UInt8.ofNat n]
  else UInt8.ofNat (0x80 + (minimalBytes n).length) :: minimalBytes n

/-- The content of an INTEGER that is not negative: its first bit is no sign. -/
def derContent (n : ℕ) : List UInt8 :=
  match minimalBytes n with
  | [] => [0]
  | b :: rest => if 0x80 ≤ b then 0 :: b :: rest else b :: rest

def derInteger (n : ℕ) : List UInt8 :=
  0x02 :: (derLength (derContent n).length ++ derContent n)

def derSignature (r s : ℕ) : List UInt8 :=
  0x30 :: (derLength (derInteger r ++ derInteger s).length ++ (derInteger r ++ derInteger s))

theorem minimalBytes_pos {n : ℕ} (h : 0 < n) :
    minimalBytes n = minimalBytes (n / 256) ++ [UInt8.ofNat n] := by
  rw [minimalBytes, Nat.digits_def' (by omega) h, List.map_cons, List.reverse_cons, minimalBytes]
  congr 2
  apply UInt8.toNat_inj.mp
  simp

theorem beNat_minimalBytes (n : ℕ) : beNat (minimalBytes n) = n := by
  induction n using Nat.strongRecOn with
  | ind n ih =>
    by_cases h : 0 < n
    · rw [minimalBytes_pos h, beNat_append_singleton, ih (n / 256) (by omega), UInt8.toNat_ofNat']
      omega
    · obtain rfl : n = 0 := by omega
      rfl

theorem length_minimalBytes_le {n width : ℕ} (h : n < 256 ^ width) :
    (minimalBytes n).length ≤ width := by
  rw [minimalBytes, List.length_reverse, List.length_map]
  exact (Nat.digits_length_le_iff (by omega) n).mpr h

theorem stripSignByte_derContent {n : ℕ} (h : n < 2 ^ 384) :
    beNat (derContent n) = n ∧ (derContent n).length ≤ 49 ∧
      (stripSignByte (derContent n)).length ≤ 48 := by
  have hvalue := beNat_minimalBytes n
  have hlength : (minimalBytes n).length ≤ 48 := length_minimalBytes_le (pow_384 ▸ h)
  unfold derContent
  split
  · next hnil =>
    rw [hnil] at hvalue
    exact ⟨hvalue, by simp, by simp [stripSignByte]⟩
  · next b rest hcons =>
    rw [hcons] at hvalue hlength
    split
    · exact ⟨(beNat_cons_zero _).trans hvalue, Nat.succ_le_succ hlength, hlength⟩
    · exact ⟨hvalue, by omega, (length_stripSignByte_le _).trans hlength⟩

theorem length_derInteger {n : ℕ} (h : (derContent n).length ≤ 49) :
    (derInteger n).length = (derContent n).length + 2 := by
  rw [derInteger, derLength, if_pos (by omega)]
  rfl

theorem readDerInt_derInteger {n limit : ℕ} (hn : n < 2 ^ 384)
    (hlimit : (derInteger n).length ≤ limit) (tail : List UInt8) :
    readDerInt limit (derInteger n ++ tail) =
      .ok (stripSignByte (derContent n), limit - (derInteger n).length, tail) := by
  have hcontent : (derContent n).length ≤ 49 := (stripSignByte_derContent hn).2.1
  have hlen : derLength (derContent n).length = [UInt8.ofNat (derContent n).length] :=
    if_pos (by omega)
  have hread := readDerLen_short (n := (derContent n).length) (by omega) (derContent n ++ tail)
  have hsplit : derInteger n ++ tail =
      0x02 :: ([UInt8.ofNat (derContent n).length] ++ (derContent n ++ tail)) := by
    rw [derInteger, hlen, List.cons_append, List.append_assoc]
  have hused : (derInteger n).length =
      1 + [UInt8.ofNat (derContent n).length].length + (derContent n).length := by
    rw [length_derInteger hcontent, List.length_singleton]
    omega
  rw [hsplit, readDerInt_append hread, ← hused, if_neg (not_lt.mpr hlimit)]

theorem ecdsaDerToFixed_derSignature {r s : ℕ} (hr : r < 2 ^ 384) (hs : s < 2 ^ 384) :
    ecdsaDerToFixed (derSignature r s) = .ok (fixed r s) := by
  obtain ⟨hrValue, hrLength, hrFits⟩ := stripSignByte_derContent hr
  obtain ⟨hsValue, hsLength, hsFits⟩ := stripSignByte_derContent hs
  have hbody : (derInteger r ++ derInteger s).length < 0x80 := by
    rw [List.length_append, length_derInteger hrLength, length_derInteger hsLength]
    omega
  have hlen : derLength (derInteger r ++ derInteger s).length =
      [UInt8.ofNat (derInteger r ++ derInteger s).length] := if_pos hbody
  have hroom : (derInteger s).length ≤
      (derInteger r ++ derInteger s).length - (derInteger r).length := by
    rw [List.length_append, Nat.add_sub_cancel_left]
  have hpad : padBoth (stripSignByte (derContent r)) (stripSignByte (derContent s)) =
      .ok (fixed r s) := by
    rw [padBoth_eq_ok, beNat_stripSignByte, beNat_stripSignByte, hrValue, hsValue]
    exact ⟨⟨hrFits, hsFits⟩, rfl⟩
  have hsecond := readDerInt_derInteger hs hroom []
  rw [List.append_nil] at hsecond
  rw [derSignature, hlen, ecdsaDerToFixed_cons, if_pos rfl, List.singleton_append,
    readDerLen_short hbody]
  simp only [bind, Except.bind]
  rw [if_neg (lt_irrefl _), readDerInt_derInteger hr (by simp)]
  dsimp only
  rw [hsecond]
  exact hpad

/-- The reader of certificate signatures stays within the bytes it is given, reads every pair of
numbers below 2^384 from its DER encoding, and what it accepts is two such numbers, whose 48-byte
encodings are its output. -/
theorem ecdsa_der_to_fixed_correct :
    (∀ der, ecdsaDerToFixedAt der ≠ .error .abort) ∧
    (∀ r s, r < 2 ^ 384 → s < 2 ^ 384 →
      ecdsaDerToFixedAt (derSignature r s) = .ok (beBytes 48 r ++ beBytes 48 s)) ∧
    ∀ der out, ecdsaDerToFixedAt der = .ok out →
      (∃ r s, TwoIntegers der r s ∧ r < 2 ^ 384 ∧ s < 2 ^ 384) ∧
      ∀ r s, TwoIntegers der r s → out = beBytes 48 r ++ beBytes 48 s := by
  refine ⟨fun der => ?_, fun r s hr hs => ?_, fun der out h => ⟨?_, fun r s hints => ?_⟩⟩
  · rw [ecdsaDerToFixedAt_eq]
    exact lift_ne_abort _
  · rw [ecdsaDerToFixedAt_eq, ecdsaDerToFixed_derSignature hr hs]
    rfl
  · rw [ecdsaDerToFixedAt_eq] at h
    obtain ⟨r, s, hints, hr, hs, -⟩ := twoIntegers_of_ok (lift_eq_ok.mp h)
    exact ⟨r, s, hints, hr, hs⟩
  · rw [ecdsaDerToFixedAt_eq] at h
    exact eq_fixed_of_twoIntegers hints (lift_eq_ok.mp h)

end Nuntius.AttestationVerify
