import Nuntius.ChainReads
import Nuntius.DigitText

/-!
# The spelling of RPC quantities

A block number travels as hexadecimal text, `0x` in front and no superfluous zero. The reader
keeps to that form in both directions: it takes the form that `read_block` prints, and up to the
case of its digits it takes nothing else. A number compared after reading is therefore a text
compared before.
-/

namespace Nuntius.ChainReads

open WireFormat

/-- The minimal text of a number, `format!("0x{number:x}")`. -/
def quantityText (n : ℕ) : String := String.ofList ('0' :: 'x' :: Nat.toDigits 16 n)

/-- A text that becomes the minimal one of `n` when its digits are lower-cased. -/
def Spells (n : ℕ) (s : String) : Prop :=
  ∃ digits, s.toList = '0' :: 'x' :: digits ∧ digits.map Char.toLower = Nat.toDigits 16 n

theorem toList_quantityText (n : ℕ) :
    (quantityText n).toList = '0' :: 'x' :: Nat.toDigits 16 n := String.toList_ofList

theorem spells_quantityText (n : ℕ) : Spells n (quantityText n) :=
  ⟨Nat.toDigits 16 n, toList_quantityText n, map_toLower_toDigits (by omega) (by omega) n⟩

/-! ### The filter in front of the parser -/

theorem isHexDigit_iff {c : Char} : isHexDigit c = true ↔ digitValue c ≠ none := by
  simp only [isHexDigit, Bool.or_eq_true, Bool.and_eq_true, decide_eq_true_eq]
  unfold digitValue
  split_ifs with hdec hlower hupper <;> simp [*]

/-- What passes the three checks made before `from_str_radix`. -/
structure Minimal (digits : List Char) : Prop where
  ne_nil : digits ≠ []
  leading : 1 < digits.length → digits.head? ≠ some '0'
  hex : ∀ c ∈ digits, digitValue c ≠ none

theorem minimal_iff {digits : List Char} :
    Minimal digits ↔ ¬(digits.isEmpty || (decide (1 < digits.length) && digits.head? == some '0') ||
      !digits.all isHexDigit) = true := by
  simp only [Bool.or_eq_true, Bool.and_eq_true, decide_eq_true_eq, beq_iff_eq, List.isEmpty_iff,
    Bool.not_eq_true', ← Bool.not_eq_true, List.all_eq_true, isHexDigit_iff, not_or, not_and,
    not_not]
  constructor
  · intro h
    exact ⟨⟨h.ne_nil, h.leading⟩, h.hex⟩
  · rintro ⟨⟨hne, hleading⟩, hhex⟩
    exact ⟨hne, hleading, hhex⟩

theorem parseQuantity_eq_some {v : Json} {n : ℕ} :
    parseQuantity v = some n ↔ ∃ s digits, v = .str s ∧ s.toList = '0' :: 'x' :: digits ∧
      Minimal digits ∧ fromStrRadix 16 digits = some n := by
  simp only [parseQuantity, Option.bind_eq_bind, Option.bind_eq_some_iff, asStr_eq_some,
    strip0x_eq_some, minimal_iff]
  constructor
  · rintro ⟨s, hs, digits, hdigits, h⟩
    split_ifs at h with hcheck
    exact ⟨s, digits, hs, hdigits, hcheck, h⟩
  · rintro ⟨s, digits, hs, hdigits, hcheck, h⟩
    exact ⟨s, hs, digits, hdigits, by rwa [if_neg hcheck]⟩

/-! ### Minimal digits -/

theorem toLower_eq_zero {c : Char} (h : c.toLower = '0') : c = '0' := by
  have hzero : c.toLower.toNat = 48 := congrArg Char.toNat h
  rw [toNat_toLower] at hzero
  apply Char.toNat_inj.mp
  change c.toNat = 48
  split_ifs at hzero <;> omega

/-- Digits that pass the checks have no zero in front of their number. -/
theorem Minimal.map_toLower {digits : List Char} (h : Minimal digits) {n : ℕ}
    (hdigits : DigitsOf 16 n digits) : digits.map Char.toLower = Nat.toDigits 16 n := by
  obtain ⟨k, hk⟩ := hdigits
  cases k with
  | zero => exact hk
  | succ k =>
    cases digits with
    | nil => exact absurd rfl h.ne_nil
    | cons c rest =>
      rw [List.map_cons, List.replicate_succ, List.cons_append, List.cons.injEq] at hk
      have hlen := congrArg List.length hk.2
      have hpos := List.length_pos_iff.mpr (@Nat.toDigits_ne_nil n 16)
      rw [List.length_map, List.length_append] at hlen
      exact absurd (congrArg some (toLower_eq_zero hk.1))
        (h.leading (by rw [List.length_cons]; omega))

theorem minimal_of_map_toLower {digits : List Char} {n : ℕ}
    (h : digits.map Char.toLower = Nat.toDigits 16 n) : Minimal digits := by
  have hdigits : DigitsOf 16 n digits := ⟨0, h⟩
  refine ⟨hdigits.ne_nil, ?_, fun c hc => hdigits.digitValue_ne_none (by omega) (by omega) hc⟩
  intro hlen hhead
  have hn : 0 < n := by
    apply Nat.pos_of_ne_zero
    rintro rfl
    rw [Nat.toDigits_zero] at h
    have := congrArg List.length h
    rw [List.length_map, List.length_singleton] at this
    omega
  apply head?_toDigits (by omega : 1 < 16) hn
  rw [← h, List.head?_map, hhead]
  rfl

/-- A sign is no digit, so the parser never sees one. -/
theorem Minimal.fromStrRadix_eq_some {digits : List Char} (h : Minimal digits) {n : ℕ} :
    fromStrRadix 16 digits = some n ↔
      n < 2 ^ 64 ∧ digits.map Char.toLower = Nat.toDigits 16 n := by
  rw [WireFormat.fromStrRadix_eq_some (by omega) (by omega)]
  constructor
  · rintro ⟨hn, hdigits | ⟨rest, rfl, hdigits⟩⟩
    · exact ⟨hn, h.map_toLower hdigits⟩
    · exact absurd rfl (h.hex '+' List.mem_cons_self)
  · rintro ⟨hn, hdigits⟩
    exact ⟨hn, .inl ⟨0, hdigits⟩⟩

/-- The reader of quantities, exactly. -/
theorem parseQuantity_iff {v : Json} {n : ℕ} :
    parseQuantity v = some n ↔ n < 2 ^ 64 ∧ ∃ s, v = .str s ∧ Spells n s := by
  rw [parseQuantity_eq_some]
  constructor
  · rintro ⟨s, digits, hs, hdigits, hmin, h⟩
    obtain ⟨hn, hlower⟩ := hmin.fromStrRadix_eq_some.mp h
    exact ⟨hn, s, hs, digits, hdigits, hlower⟩
  · rintro ⟨hn, s, hs, digits, hdigits, hlower⟩
    have hmin := minimal_of_map_toLower hlower
    exact ⟨s, digits, hs, hdigits, hmin, hmin.fromStrRadix_eq_some.mpr ⟨hn, hlower⟩⟩

/-! ### What is refused -/

theorem Spells.minimal {n : ℕ} {s : String} {digits : List Char} (h : Spells n s)
    (hs : s.toList = '0' :: 'x' :: digits) : Minimal digits := by
  obtain ⟨digits', hs', hlower⟩ := h
  rw [hs, List.cons.injEq, List.cons.injEq] at hs'
  rw [hs'.2.2]
  exact minimal_of_map_toLower hlower

theorem parseQuantity_eq_none {s : String} (h : ∀ n < 2 ^ 64, ¬Spells n s) :
    parseQuantity (.str s) = none := by
  rw [Option.eq_none_iff_forall_ne_some]
  intro n hn
  obtain ⟨hlt, s', hs, hspells⟩ := parseQuantity_iff.mp hn
  obtain rfl := Json.str.inj hs
  exact h n hlt hspells

theorem parseQuantity_leading_zero (c : Char) (rest : List Char) :
    parseQuantity (.str (String.ofList ('0' :: 'x' :: '0' :: c :: rest))) = none := by
  apply parseQuantity_eq_none
  intro n _ h
  have hmin := h.minimal String.toList_ofList
  exact hmin.leading (by simp) rfl

theorem parseQuantity_no_digits : parseQuantity (.str "0x") = none := by
  apply parseQuantity_eq_none
  intro n _ h
  exact (h.minimal rfl).ne_nil rfl

theorem parseQuantity_sign {s : String} (h : '+' ∈ s.toList ∨ '-' ∈ s.toList) :
    parseQuantity (.str s) = none := by
  apply parseQuantity_eq_none
  intro n _ hspells
  obtain ⟨digits, hs, hlower⟩ := hspells
  have hhex := (minimal_of_map_toLower hlower).hex
  rw [hs] at h
  rcases h with h | h
  · exact hhex '+' (by simpa using h) rfl
  · exact hhex '-' (by simpa using h) rfl

theorem parseQuantity_too_large {m : ℕ} (hm : 2 ^ 64 ≤ m) {digits : List Char}
    (h : DigitsOf 16 m digits) :
    parseQuantity (.str (String.ofList ('0' :: 'x' :: digits))) = none := by
  apply parseQuantity_eq_none
  intro n hn hspells
  obtain ⟨digits', hs, hlower⟩ := hspells
  rw [String.toList_ofList, List.cons.injEq, List.cons.injEq] at hs
  obtain rfl := hs.2.2
  -- one text of digits has one value
  have hread := (readDigits_eq_some (by omega) (by omega) h.ne_nil).mpr h
  have hread' := (readDigits_eq_some (by omega) (by omega) h.ne_nil).mpr ⟨0, hlower⟩
  have hmn : m = n := Option.some.inj (hread.symm.trans hread')
  omega

/-- A quantity is read from the text that prints it and, up to the case of its digits, from no
other value. -/
theorem quantities_have_one_spelling :
    (∀ n : UInt64, parseQuantity (.str (quantityText n.toNat)) = some n.toNat) ∧
    (∀ (v : Json) (n : ℕ), parseQuantity v = some n →
      n < 2 ^ 64 ∧ ∃ s, v = .str s ∧ Spells n s) ∧
    (∀ c rest, parseQuantity (.str (String.ofList ('0' :: 'x' :: '0' :: c :: rest))) = none) ∧
    (∀ s : String, '+' ∈ s.toList ∨ '-' ∈ s.toList → parseQuantity (.str s) = none) ∧
    parseQuantity (.str "0x") = none ∧
    (∀ m digits, 2 ^ 64 ≤ m → DigitsOf 16 m digits →
      parseQuantity (.str (String.ofList ('0' :: 'x' :: digits))) = none) := by
  refine ⟨?_, ?_, parseQuantity_leading_zero, fun s => parseQuantity_sign,
    parseQuantity_no_digits, fun m digits hm h => parseQuantity_too_large hm h⟩
  · intro n
    exact parseQuantity_iff.mpr ⟨n.toNat_lt, _, rfl, spells_quantityText n.toNat⟩
  · intro v n h
    exact parseQuantity_iff.mp h

end Nuntius.ChainReads
