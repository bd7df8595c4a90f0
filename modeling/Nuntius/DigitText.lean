import Mathlib.Data.List.TakeWhile
import Mathlib.Data.Nat.Digits.Defs
import Mathlib.Tactic.IntervalCases
import Nuntius.WireFormat

/-!
# Numbers and bytes as digit text

What the readers of `WireFormat` accept, in terms of printed text: a number is read from its
digits in either case with zeros in front, bytes from two digits each. Printing is undone, and
nothing but a printed text is read.
-/

namespace Nuntius.WireFormat

section Characters
variable {c d : Char}

theorem isDigit_iff : c.isDigit = true ↔ 48 ≤ c.toNat ∧ c.toNat ≤ 57 := Char.isDigit_iff_toNat

theorem isUpper_iff : c.isUpper = true ↔ 65 ≤ c.toNat ∧ c.toNat ≤ 90 := by
  change decide (c.val ≥ 'A'.val ∧ c.val ≤ 'Z'.val) = true ↔ _
  rw [decide_eq_true_eq, ge_iff_le, UInt32.le_iff_toNat_le, UInt32.le_iff_toNat_le]
  exact Iff.rfl

theorem isLower_iff : c.isLower = true ↔ 97 ≤ c.toNat ∧ c.toNat ≤ 122 := by
  change (decide (c.val ≥ 'a'.val) && decide (c.val ≤ 'z'.val)) = true ↔ _
  rw [Bool.and_eq_true, decide_eq_true_eq, decide_eq_true_eq, ge_iff_le,
    UInt32.le_iff_toNat_le, UInt32.le_iff_toNat_le]
  exact Iff.rfl

theorem isAlphanum_iff :
    c.isAlphanum = true ↔ (65 ≤ c.toNat ∧ c.toNat ≤ 90) ∨ (97 ≤ c.toNat ∧ c.toNat ≤ 122) ∨
      (48 ≤ c.toNat ∧ c.toNat ≤ 57) := by
  change (c.isUpper || c.isLower || c.isDigit) = true ↔ _
  rw [Bool.or_eq_true, Bool.or_eq_true, isUpper_iff, isLower_iff, isDigit_iff, or_assoc]

theorem toNat_toLower (c : Char) :
    c.toLower.toNat = if 65 ≤ c.toNat ∧ c.toNat ≤ 90 then c.toNat + 32 else c.toNat := by
  have hupper : (c.val ≥ 'A'.val ∧ c.val ≤ 'Z'.val) ↔ 65 ≤ c.toNat ∧ c.toNat ≤ 90 := by
    rw [ge_iff_le, UInt32.le_iff_toNat_le, UInt32.le_iff_toNat_le]
    exact Iff.rfl
  unfold Char.toLower
  by_cases h : 65 ≤ c.toNat ∧ c.toNat ≤ 90
  · rw [dif_pos (hupper.mpr h), if_pos h]
    have hadd : (c.val + ('a'.val - 'A'.val)).toNat = (c.toNat + 32) % 2 ^ 32 := UInt32.toNat_add ..
    change (c.val + ('a'.val - 'A'.val)).toNat = _
    omega
  · rw [dif_neg (hupper.not.mpr h), if_neg h]

theorem char_le_iff : c ≤ d ↔ c.toNat ≤ d.toNat := UInt32.le_iff_toNat_le

/-- Digits have the same value in either case. -/
theorem digitValue_toLower (c : Char) : digitValue c.toLower = digitValue c := by
  have hlower := toNat_toLower c
  unfold digitValue
  simp only [char_le_iff, hlower]
  change (if 48 ≤ _ ∧ _ ≤ 57 then some (_ - 48) else if 97 ≤ _ ∧ _ ≤ 102 then some (_ - 97 + 10)
    else if 65 ≤ _ ∧ _ ≤ 70 then some (_ - 65 + 10) else none) =
    (if 48 ≤ _ ∧ _ ≤ 57 then some (_ - 48) else if 97 ≤ _ ∧ _ ≤ 102 then some (_ - 97 + 10)
    else if 65 ≤ _ ∧ _ ≤ 70 then some (_ - 65 + 10) else none)
  grind

end Characters

section Digits
variable {radix : ℕ}

theorem toNat_digitChar {d : ℕ} (h : d < 16) :
    d.digitChar.toNat = if d < 10 then 48 + d else 87 + d := by
  interval_cases d <;> rfl

theorem digitValue_digitChar {d : ℕ} (h : d < 16) : digitValue d.digitChar = some d := by
  interval_cases d <;> rfl

@[simp] theorem readDigits_nil (acc : ℕ) : readDigits radix acc [] = some acc := rfl

theorem readDigits_append (acc : ℕ) (xs ys : List Char) :
    readDigits radix acc (xs ++ ys) =
      (readDigits radix acc xs).bind (fun n => readDigits radix n ys) := by
  induction xs generalizing acc with
  | nil => rfl
  | cons c xs ih =>
    rw [List.cons_append, readDigits, readDigits]
    cases digitValue c with
    | none => rfl
    | some d =>
      simp only [Option.bind_eq_bind, Option.bind_some]
      split_ifs
      · exact ih _
      · rfl

theorem readDigits_digit {d : ℕ} (hradix : radix ≤ 16) (h : d < radix) (acc : ℕ) :
    readDigits radix acc [d.digitChar] = some (acc * radix + d) := by
  rw [readDigits, digitValue_digitChar (h.trans_le hradix)]
  simp [h]

/-- Reading a printed number behind an accumulator of zero. -/
theorem readDigits_toDigits (hlow : 1 < radix) (hradix : radix ≤ 16) (n : ℕ) :
    readDigits radix 0 (Nat.toDigits radix n) = some n := by
  induction n using Nat.strong_induction_on with
  | h n ih =>
    rw [Nat.toDigits_eq_if hlow]
    split_ifs with hn
    · rw [readDigits_digit hradix hn, Nat.zero_mul, Nat.zero_add]
    · have hsmall : n / radix < n := Nat.div_lt_self (by omega) hlow
      have hmod : n % radix < radix := Nat.mod_lt _ (by omega)
      rw [readDigits_append, ih _ hsmall, Option.bind_some, readDigits_digit hradix hmod,
        Nat.div_add_mod']

theorem readDigits_zeros (hlow : 0 < radix) (k : ℕ) :
    readDigits radix 0 (List.replicate k '0') = some 0 := by
  induction k with
  | zero => rfl
  | succ k ih =>
    rw [List.replicate_succ, readDigits]
    have hzero : digitValue '0' = some 0 := rfl
    rw [hzero]
    simpa [hlow] using ih

theorem mem_toDigits {n : ℕ} (hlow : 1 < radix) {c : Char} (h : c ∈ Nat.toDigits radix n) :
    ∃ d < radix, c = d.digitChar := by
  induction n using Nat.strong_induction_on with
  | h n ih =>
    rw [Nat.toDigits_eq_if hlow] at h
    split_ifs at h with hn
    · exact ⟨n, hn, List.mem_singleton.mp h⟩
    · rcases List.mem_append.mp h with h | h
      · exact ih _ (Nat.div_lt_self (by omega) hlow) h
      · exact ⟨n % radix, Nat.mod_lt _ (by omega), List.mem_singleton.mp h⟩

/-- Only zero is printed with a zero in front. -/
theorem head?_toDigits {n : ℕ} (hlow : 1 < radix) (hn : 0 < n) :
    (Nat.toDigits radix n).head? ≠ some '0' := by
  induction n using Nat.strong_induction_on with
  | h n ih =>
    rw [Nat.toDigits_eq_if hlow]
    split_ifs with hsmall
    · rw [List.head?_singleton]
      intro h
      exact hn.ne' (Nat.digitChar_eq_zero.mp (Option.some.inj h))
    · rw [List.head?_append_of_ne_nil _ Nat.toDigits_ne_nil]
      exact ih _ (Nat.div_lt_self hn hlow) (Nat.div_pos (not_lt.mp hsmall) (by omega))

theorem stripPlus_of_digit {c : Char} {cs : List Char} (h : digitValue c ≠ none) :
    stripPlus (c :: cs) = c :: cs := by
  unfold stripPlus
  split
  · rename_i heq
    obtain ⟨rfl, -⟩ := List.cons.inj heq
    exact absurd rfl h
  · rfl

/-- Integer parsing undoes printing, with any number of zeros in front. -/
theorem fromStrRadix_toDigits (hlow : 1 < radix) (hradix : radix ≤ 16) {n : ℕ} (hn : n < 2 ^ 64) :
    fromStrRadix radix (Nat.toDigits radix n) = some n := by
  obtain ⟨c, cs, hcs⟩ := List.exists_cons_of_ne_nil (Nat.toDigits_ne_nil (b := radix) (n := n))
  obtain ⟨d, hd, rfl⟩ := mem_toDigits hlow (hcs ▸ List.mem_cons_self : c ∈ Nat.toDigits radix n)
  have hplus : stripPlus (Nat.toDigits radix n) = Nat.toDigits radix n := by
    rw [hcs]
    apply stripPlus_of_digit
    rw [digitValue_digitChar (hd.trans_le hradix)]
    exact Option.some_ne_none d
  rw [fromStrRadix, hplus, List.isEmpty_eq_false_iff.mpr Nat.toDigits_ne_nil,
    readDigits_toDigits hlow hradix]
  simpa using hn

/-! ### What is read -/

/-- A digit in either case. -/
theorem digitValue_eq_some {c : Char} {d : ℕ} :
    digitValue c = some d ↔ d < 16 ∧ c.toLower = d.digitChar := by
  constructor
  · intro h
    unfold digitValue at h
    simp only [char_le_iff] at h
    change (if 48 ≤ _ ∧ _ ≤ 57 then some (_ - 48) else if 97 ≤ _ ∧ _ ≤ 102 then some (_ - 97 + 10)
      else if 65 ≤ _ ∧ _ ≤ 70 then some (_ - 65 + 10) else none) = some d at h
    have hd : d < 16 := by grind
    refine ⟨hd, ?_⟩
    rw [← Char.toNat_inj, toNat_toLower, toNat_digitChar hd]
    grind
  · rintro ⟨hd, hc⟩
    rw [← digitValue_toLower, hc, digitValue_digitChar hd]

theorem readDigits_cons_eq_some {acc n : ℕ} {c : Char} {cs : List Char} :
    readDigits radix acc (c :: cs) = some n ↔
      ∃ d, digitValue c = some d ∧ d < radix ∧ readDigits radix (acc * radix + d) cs = some n := by
  rw [readDigits, Option.bind_eq_bind, Option.bind_eq_some_iff]
  constructor
  · rintro ⟨d, hd, h⟩
    split_ifs at h with hlt
    exact ⟨d, hd, hlt, h⟩
  · rintro ⟨d, hd, hlt, h⟩
    exact ⟨d, hd, by rwa [if_pos hlt]⟩

theorem readDigits_map_toLower (acc : ℕ) (cs : List Char) :
    readDigits radix acc (cs.map Char.toLower) = readDigits radix acc cs := by
  induction cs generalizing acc with
  | nil => rfl
  | cons c cs ih => simp only [List.map_cons, readDigits, digitValue_toLower, ih]

/-- The digits of a number, in either case and with zeros in front. -/
def DigitsOf (radix n : ℕ) (cs : List Char) : Prop :=
  ∃ k, cs.map Char.toLower = List.replicate k '0' ++ Nat.toDigits radix n

/-- Digits behind a number that is not zero continue its text. -/
theorem toDigits_append_of_readDigits (hlow : 1 < radix) {acc n : ℕ} (hacc : 0 < acc)
    {cs : List Char} (h : readDigits radix acc cs = some n) :
    Nat.toDigits radix acc ++ cs.map Char.toLower = Nat.toDigits radix n := by
  induction cs generalizing acc with
  | nil =>
    obtain rfl := Option.some.inj h
    rw [List.map_nil, List.append_nil]
  | cons c cs ih =>
    obtain ⟨d, hd, hlt, hrest⟩ := readDigits_cons_eq_some.mp h
    have hnext : 0 < acc * radix + d := Nat.add_pos_left (Nat.mul_pos hacc (by omega)) d
    have htext := Nat.toDigits_append_toDigits hlow hacc hlt
    rw [Nat.toDigits_of_lt_base hlt, ← (digitValue_eq_some.mp hd).2, Nat.mul_comm] at htext
    rw [← ih hnext hrest, ← htext, List.map_cons, List.append_assoc, List.singleton_append]

theorem digitsOf_of_readDigits (hlow : 1 < radix) {n : ℕ} {cs : List Char} (hne : cs ≠ [])
    (h : readDigits radix 0 cs = some n) : DigitsOf radix n cs := by
  induction cs with
  | nil => exact absurd rfl hne
  | cons c cs ih =>
    obtain ⟨d, hd, hlt, hrest⟩ := readDigits_cons_eq_some.mp h
    have hc := (digitValue_eq_some.mp hd).2
    rw [Nat.zero_mul, Nat.zero_add] at hrest
    rcases Nat.eq_zero_or_pos d with rfl | hpos
    · have hzero : c.toLower = '0' := hc
      cases cs with
      | nil =>
        obtain rfl := Option.some.inj hrest
        exact ⟨0, by rw [List.map_singleton, hzero, Nat.toDigits_zero]; rfl⟩
      | cons c' cs =>
        obtain ⟨k, hk⟩ := ih (List.cons_ne_nil _ _) hrest
        exact ⟨k + 1, by rw [List.map_cons, hk, hzero, List.replicate_succ, List.cons_append]⟩
    · have htext := toDigits_append_of_readDigits hlow hpos hrest
      rw [Nat.toDigits_of_lt_base hlt, ← hc] at htext
      exact ⟨0, htext⟩

theorem readDigits_eq_some (hlow : 1 < radix) (hradix : radix ≤ 16) {n : ℕ} {cs : List Char}
    (hne : cs ≠ []) : readDigits radix 0 cs = some n ↔ DigitsOf radix n cs := by
  constructor
  · exact digitsOf_of_readDigits hlow hne
  · rintro ⟨k, hk⟩
    rw [← readDigits_map_toLower, hk, readDigits_append, readDigits_zeros (by omega),
      Option.bind_some, readDigits_toDigits hlow hradix]

theorem DigitsOf.digitValue_ne_none (hlow : 1 < radix) (hradix : radix ≤ 16) {n : ℕ}
    {cs : List Char} (h : DigitsOf radix n cs) {c : Char} (hc : c ∈ cs) : digitValue c ≠ none := by
  obtain ⟨k, hk⟩ := h
  have hmem : c.toLower ∈ List.replicate k '0' ++ Nat.toDigits radix n :=
    hk ▸ List.mem_map_of_mem hc
  rw [← digitValue_toLower]
  rcases List.mem_append.mp hmem with hmem | hmem
  · rw [List.eq_of_mem_replicate hmem]
    decide
  · obtain ⟨d, hd, hcd⟩ := mem_toDigits hlow hmem
    rw [hcd, digitValue_digitChar (hd.trans_le hradix)]
    exact Option.some_ne_none d

theorem DigitsOf.ne_nil {n : ℕ} {cs : List Char} (h : DigitsOf radix n cs) : cs ≠ [] := by
  rintro rfl
  obtain ⟨k, hk⟩ := h
  exact Nat.toDigits_ne_nil (List.append_eq_nil_iff.mp hk.symm).2

theorem toLower_digitChar {d : ℕ} (h : d < 16) : d.digitChar.toLower = d.digitChar := by
  interval_cases d <;> rfl

theorem map_toLower_toDigits (hlow : 1 < radix) (hradix : radix ≤ 16) (n : ℕ) :
    (Nat.toDigits radix n).map Char.toLower = Nat.toDigits radix n := by
  have hself : ∀ c ∈ Nat.toDigits radix n, c.toLower = id c := by
    intro c hc
    obtain ⟨d, hd, rfl⟩ := mem_toDigits hlow hc
    exact toLower_digitChar (hd.trans_le hradix)
  rw [List.map_congr_left hself, List.map_id]

/-- The text of a `u64`: its digits, perhaps behind a plus sign. -/
def U64Text (radix n : ℕ) (cs : List Char) : Prop :=
  n < 2 ^ 64 ∧ (DigitsOf radix n cs ∨ ∃ ds, cs = '+' :: ds ∧ DigitsOf radix n ds)

theorem stripPlus_of_digitsOf (hlow : 1 < radix) (hradix : radix ≤ 16) {n : ℕ} {cs : List Char}
    (h : DigitsOf radix n cs) : stripPlus cs = cs := by
  cases cs with
  | nil => rfl
  | cons c cs => exact stripPlus_of_digit (h.digitValue_ne_none hlow hradix List.mem_cons_self)

theorem fromStrRadix_eq_some (hlow : 1 < radix) (hradix : radix ≤ 16) {n : ℕ} {cs : List Char} :
    fromStrRadix radix cs = some n ↔ U64Text radix n cs := by
  have hread : ∀ ds : List Char, stripPlus cs = ds → ds ≠ [] →
      (fromStrRadix radix cs = some n ↔ n < 2 ^ 64 ∧ DigitsOf radix n ds) := by
    intro ds hds hne
    rw [fromStrRadix, hds, List.isEmpty_eq_false_iff.mpr hne, if_neg Bool.false_ne_true,
      Option.filter_eq_some_iff, readDigits_eq_some hlow hradix hne, decide_eq_true_eq, and_comm]
  constructor
  · intro h
    have hne : stripPlus cs ≠ [] := by
      intro hnil
      rw [fromStrRadix, hnil] at h
      cases h
    obtain ⟨hn, hdigits⟩ := (hread _ rfl hne).mp h
    refine ⟨hn, ?_⟩
    unfold stripPlus at hdigits
    split at hdigits
    · exact .inr ⟨_, rfl, hdigits⟩
    · exact .inl hdigits
  · rintro ⟨hn, hdigits | ⟨ds, rfl, hdigits⟩⟩
    · exact (hread cs (stripPlus_of_digitsOf hlow hradix hdigits) hdigits.ne_nil).mpr ⟨hn, hdigits⟩
    · exact (hread ds rfl hdigits.ne_nil).mpr ⟨hn, hdigits⟩

end Digits

/-! ### Bytes -/

/-- Two digits a byte, `hex::encode`. -/
def hexEncode (bytes : List UInt8) : List Char :=
  bytes.flatMap fun b => [Nat.digitChar (b.toNat / 16), Nat.digitChar (b.toNat % 16)]

@[simp] theorem hexEncode_cons (b : UInt8) (bytes : List UInt8) :
    hexEncode (b :: bytes) =
      Nat.digitChar (b.toNat / 16) :: Nat.digitChar (b.toNat % 16) :: hexEncode bytes := rfl

theorem hexDecode_cons_eq_some {x y : Char} {cs : List Char} {bytes : List UInt8} :
    hexDecode (x :: y :: cs) = some bytes ↔
      ∃ hi lo rest, digitValue x = some hi ∧ digitValue y = some lo ∧ hexDecode cs = some rest ∧
        bytes = UInt8.ofNat (hi * 16 + lo) :: rest := by
  simp only [hexDecode, Option.bind_eq_bind, Option.bind_eq_some_iff, Option.some.injEq]
  constructor
  · rintro ⟨hi, hhi, lo, hlo, rest, hrest, heq⟩
    exact ⟨hi, lo, rest, hhi, hlo, hrest, heq.symm⟩
  · rintro ⟨hi, lo, rest, hhi, hlo, hrest, heq⟩
    exact ⟨hi, hhi, lo, hlo, rest, hrest, heq.symm⟩

/-- Bytes are read from their digits in either case, and from nothing else. -/
theorem hexDecode_eq_some {cs : List Char} {bytes : List UInt8} :
    hexDecode cs = some bytes ↔ cs.map Char.toLower = hexEncode bytes := by
  induction cs using List.twoStepInduction generalizing bytes with
  | nil =>
    cases bytes with
    | nil => simp [hexDecode, hexEncode]
    | cons b bytes => simp [hexDecode]
  | singleton c =>
    cases bytes with
    | nil => simp [hexDecode, hexEncode]
    | cons b bytes => simp [hexDecode]
  | cons_cons x y cs ih _ =>
    rw [hexDecode_cons_eq_some]
    constructor
    · rintro ⟨hi, lo, rest, hhi, hlo, hrest, rfl⟩
      obtain ⟨hhi16, hx⟩ := digitValue_eq_some.mp hhi
      obtain ⟨hlo16, hy⟩ := digitValue_eq_some.mp hlo
      have hbyte : (UInt8.ofNat (hi * 16 + lo)).toNat = hi * 16 + lo := by
        rw [UInt8.toNat_ofNat']
        omega
      have hdiv : (hi * 16 + lo) / 16 = hi := by omega
      have hmod : (hi * 16 + lo) % 16 = lo := by omega
      rw [hexEncode_cons, hbyte, hdiv, hmod, List.map_cons, List.map_cons, hx, hy, ih.mp hrest]
    · intro h
      cases bytes with
      | nil => simp [hexEncode] at h
      | cons b bytes =>
        have hb := b.toNat_lt
        rw [hexEncode_cons, List.map_cons, List.map_cons] at h
        obtain ⟨hx, h⟩ := List.cons.inj h
        obtain ⟨hy, h⟩ := List.cons.inj h
        refine ⟨b.toNat / 16, b.toNat % 16, bytes, ?_, ?_, ih.mpr h, ?_⟩
        · exact digitValue_eq_some.mpr ⟨by omega, hx⟩
        · exact digitValue_eq_some.mpr ⟨by omega, hy⟩
        · rw [Nat.div_add_mod', UInt8.ofNat_toNat]

theorem map_toLower_hexEncode (bytes : List UInt8) :
    (hexEncode bytes).map Char.toLower = hexEncode bytes := by
  induction bytes with
  | nil => rfl
  | cons b bytes ih =>
    have hb := b.toNat_lt
    rw [hexEncode_cons, List.map_cons, List.map_cons, toLower_digitChar (by omega),
      toLower_digitChar (by omega), ih]

theorem hexEncode_digit {digits : List Char} {bytes : List UInt8}
    (h : digits.map Char.toLower = hexEncode bytes) {c : Char} (hc : c ∈ digits) :
    digitValue c ≠ none := by
  have hmem : c.toLower ∈ hexEncode bytes := h ▸ List.mem_map_of_mem hc
  obtain ⟨b, -, hb⟩ := List.mem_flatMap.mp hmem
  have hlt := b.toNat_lt
  rw [← digitValue_toLower]
  rcases List.mem_cons.mp hb with hb | hb
  · rw [hb, digitValue_digitChar (by omega)]
    exact Option.some_ne_none _
  · rw [List.mem_singleton.mp hb, digitValue_digitChar (by omega)]
    exact Option.some_ne_none _

/-! ### Surroundings -/

theorem isWhiteSpace_of_visible {c : Char} (hlow : 0x21 ≤ c.toNat) (hhigh : c.toNat ≤ 0x7e) :
    isWhiteSpace c = false := by
  rw [Bool.eq_false_iff]
  intro h
  have hval : c.val.toNat = c.toNat := rfl
  simp only [isWhiteSpace, Bool.or_eq_true, Bool.and_eq_true, decide_eq_true_eq, beq_iff_eq,
    UInt32.le_iff_toNat_le, ← UInt32.toNat_inj, UInt32.reduceToNat] at h
  omega

theorem visible_of_digit {c : Char} (h : digitValue c ≠ none) :
    0x21 ≤ c.toNat ∧ c.toNat ≤ 0x7e := by
  unfold digitValue at h
  simp only [char_le_iff] at h
  change (if 48 ≤ _ ∧ _ ≤ 57 then some _ else if 97 ≤ _ ∧ _ ≤ 102 then some _
    else if 65 ≤ _ ∧ _ ≤ 70 then some _ else none) ≠ none at h
  split_ifs at h
  · omega
  · omega
  · omega
  · exact absurd rfl h

theorem isWhiteSpace_of_digit {c : Char} (h : digitValue c ≠ none) : isWhiteSpace c = false :=
  isWhiteSpace_of_visible (visible_of_digit h).1 (visible_of_digit h).2

/-- The text with white space around it. -/
def Padded (cs text : List Char) : Prop :=
  ∃ before after, text = before ++ cs ++ after ∧ (∀ c ∈ before, isWhiteSpace c = true) ∧
    ∀ c ∈ after, isWhiteSpace c = true

theorem padded_trim (text : List Char) : Padded (trim text) text := by
  refine ⟨text.takeWhile isWhiteSpace,
    ((text.dropWhile isWhiteSpace).reverse.takeWhile isWhiteSpace).reverse, ?_, ?_, ?_⟩
  · rw [trim, List.append_assoc, ← List.reverse_append, List.takeWhile_append_dropWhile,
      List.reverse_reverse, List.takeWhile_append_dropWhile]
  · intro c hc
    exact List.mem_takeWhile_imp hc
  · intro c hc
    exact List.mem_takeWhile_imp (List.mem_reverse.mp hc)

theorem dropWhile_of_no_whiteSpace {cs : List Char} (h : ∀ c ∈ cs, isWhiteSpace c = false) :
    cs.dropWhile isWhiteSpace = cs := by
  cases cs with
  | nil => rfl
  | cons c cs => rw [List.dropWhile_cons, h c List.mem_cons_self, if_neg Bool.false_ne_true]

theorem trim_of_padded {cs text : List Char} (h : ∀ c ∈ cs, isWhiteSpace c = false)
    (hpad : Padded cs text) : trim text = cs := by
  obtain ⟨before, after, rfl, hbefore, hafter⟩ := hpad
  have hafter' : ∀ c ∈ after.reverse, isWhiteSpace c = true :=
    fun c hc => hafter c (List.mem_reverse.mp hc)
  rw [trim, List.append_assoc, List.dropWhile_append_of_pos hbefore]
  cases cs with
  | nil => rw [List.nil_append, List.dropWhile_eq_nil_iff.mpr hafter]; rfl
  | cons c cs =>
    have hrev : ∀ d ∈ (c :: cs).reverse, isWhiteSpace d = false :=
      fun d hd => h d (List.mem_reverse.mp hd)
    rw [List.cons_append, List.dropWhile_cons, h c List.mem_cons_self, if_neg Bool.false_ne_true,
      ← List.cons_append, List.reverse_append, List.dropWhile_append_of_pos hafter',
      dropWhile_of_no_whiteSpace hrev, List.reverse_reverse]

/-- A character of a number is a digit or a plus sign. -/
theorem U64Text.mem {radix n : ℕ} (hlow : 1 < radix) (hradix : radix ≤ 16) {cs : List Char}
    (h : U64Text radix n cs) {c : Char} (hc : c ∈ cs) : digitValue c ≠ none ∨ c = '+' := by
  obtain ⟨-, hdigits | ⟨ds, rfl, hdigits⟩⟩ := h
  · exact .inl (hdigits.digitValue_ne_none hlow hradix hc)
  · rcases List.mem_cons.mp hc with rfl | hc
    · exact .inr rfl
    · exact .inl (hdigits.digitValue_ne_none hlow hradix hc)

theorem U64Text.no_whiteSpace {radix n : ℕ} (hlow : 1 < radix) (hradix : radix ≤ 16)
    {cs : List Char} (h : U64Text radix n cs) : ∀ c ∈ cs, isWhiteSpace c = false := by
  intro c hc
  rcases h.mem hlow hradix hc with hdigit | rfl
  · exact isWhiteSpace_of_digit hdigit
  · rfl

theorem asStr_eq_some {v : Json} {s : String} : v.asStr = some s ↔ v = .str s := by
  cases v <;> simp [Json.asStr]

theorem strip0x_eq_some {cs hexpart : List Char} :
    strip0x cs = some hexpart ↔ cs = '0' :: 'x' :: hexpart := by
  unfold strip0x
  split
  · simp
  · rename_i hcs
    constructor
    · intro h
      cases h
    · intro h
      exact absurd h (hcs _)

/-- A decimal number does not look like a hexadecimal one. -/
theorem U64Text.strip0x_eq_none {n : ℕ} {cs : List Char} (h : U64Text 10 n cs) :
    strip0x cs = none := by
  rw [Option.eq_none_iff_forall_ne_some]
  intro hexpart hstrip
  have hx : 'x' ∈ cs := by
    rw [strip0x_eq_some.mp hstrip]
    simp
  rcases h.mem (by omega) (by omega) hx with hdigit | hplus
  · exact hdigit rfl
  · exact absurd hplus (by decide)

/-- Any number of `0x` in front. -/
def zeroXs (k : ℕ) : List Char := (List.replicate k ['0', 'x']).flatten

theorem zeroXs_trimStart0x (cs : List Char) : ∃ k, cs = zeroXs k ++ trimStart0x cs := by
  induction cs using trimStart0x.induct with
  | case1 cs ih =>
    obtain ⟨k, hk⟩ := ih
    refine ⟨k + 1, ?_⟩
    rw [trimStart0x, zeroXs, List.replicate_succ, List.flatten_cons, List.append_assoc]
    change '0' :: 'x' :: cs = '0' :: 'x' :: (zeroXs k ++ trimStart0x cs)
    rw [← hk]
  | case2 cs hcs =>
    refine ⟨0, ?_⟩
    unfold trimStart0x
    split
    · exact absurd rfl (hcs _)
    · rfl

theorem zeroXs_no_whiteSpace (k : ℕ) : ∀ c ∈ zeroXs k, isWhiteSpace c = false := by
  intro c hc
  obtain ⟨pair, hpair, hmem⟩ := List.mem_flatten.mp hc
  rw [List.eq_of_mem_replicate hpair] at hmem
  rcases List.mem_cons.mp hmem with rfl | hmem
  · rfl
  · rw [List.mem_singleton.mp hmem]
    rfl

theorem trimStart0x_zeroXs (k : ℕ) {cs : List Char} (h : 'x' ∉ cs) :
    trimStart0x (zeroXs k ++ cs) = cs := by
  induction k with
  | zero =>
    unfold zeroXs trimStart0x
    simp only [List.replicate_zero, List.flatten_nil, List.nil_append]
    split
    · simp at h
    · rfl
  | succ k ih =>
    rw [zeroXs, List.replicate_succ, List.flatten_cons, List.append_assoc]
    exact ih

end Nuntius.WireFormat
