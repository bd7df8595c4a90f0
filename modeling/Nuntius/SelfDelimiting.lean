import Mathlib.Data.List.Basic

/-!
# Codes that say where they end

A code delimits itself when its first word can be cut off the front of any list that goes on
behind it. Words closed by a terminator and words of one length do, and so does one such code
behind another. Lists of coded values, written without anything in between, are then known from
what is written.
-/

namespace Nuntius.SelfDelimiting

variable {α β γ : Type} {P : α → Prop} {Q : β → Prop}

/-- The first word of a list is known, whatever stands behind it. Only the values in `P` are
coded. -/
def Delimits (code : α → List γ) (P : α → Prop) : Prop :=
  ∀ ⦃a b : α⦄ ⦃rest rest' : List γ⦄, P a → P b →
    code a ++ rest = code b ++ rest' → a = b ∧ rest = rest'

/-- A word that does not contain the terminator, closed by it. -/
theorem delimits_terminated (stop : γ) : Delimits (· ++ [stop]) (fun word => stop ∉ word) := by
  intro word word' rest rest' hword hword' h
  simp only [List.append_assoc, List.singleton_append] at h
  -- the shorter word would have the terminator where the longer one has an element of its own
  induction word generalizing word' with
  | nil =>
    cases word' with
    | nil => exact ⟨rfl, (List.cons.inj h).2⟩
    | cons a word' => exact absurd (List.cons.inj h).1 (List.ne_of_not_mem_cons hword')
  | cons a word ih =>
    cases word' with
    | nil => exact absurd (List.cons.inj h).1.symm (List.ne_of_not_mem_cons hword)
    | cons b word' =>
      obtain ⟨rfl, htail⟩ := List.cons.inj h
      obtain ⟨rfl, hrest⟩ := ih (List.not_mem_of_not_mem_cons hword)
        (List.not_mem_of_not_mem_cons hword') htail
      exact ⟨rfl, hrest⟩

/-- Words that all have the same length. -/
theorem delimits_fixed (n : ℕ) :
    Delimits (fun word : {l : List γ // l.length = n} => word.val) (fun _ => True) := by
  intro word word' rest rest' _ _ h
  obtain ⟨hword, hrest⟩ := List.append_inj h (word.property.trans word'.property.symm)
  exact ⟨Subtype.ext hword, hrest⟩

namespace Delimits
variable {code : α → List γ} {code' : β → List γ}

/-- One word behind another. -/
theorem append (h : Delimits code P) (h' : Delimits code' Q) :
    Delimits (fun ab : α × β => code ab.1 ++ code' ab.2) (fun ab => P ab.1 ∧ Q ab.2) := by
  intro ab ab' rest rest' hab hab' heq
  simp only [List.append_assoc] at heq
  obtain ⟨hfirst, hbehind⟩ := h hab.1 hab'.1 heq
  obtain ⟨hsecond, hrest⟩ := h' hab.2 hab'.2 hbehind
  exact ⟨Prod.ext hfirst hsecond, hrest⟩

/-- A coded list that is the front of another codes a front of its values. -/
theorem prefix_of_flatMap (h : Delimits code P) (hne : ∀ a, P a → code a ≠ []) {as bs : List α}
    (has : ∀ a ∈ as, P a) (hbs : ∀ b ∈ bs, P b) (hfront : as.flatMap code <+: bs.flatMap code) :
    as <+: bs := by
  obtain ⟨cut, hcut⟩ := hfront
  induction as generalizing bs with
  | nil => exact List.nil_prefix
  | cons a as ih =>
    rw [List.forall_mem_cons] at has
    rw [List.flatMap_cons, List.append_assoc] at hcut
    cases bs with
    | nil => exact absurd (List.append_eq_nil_iff.mp hcut).1 (hne a has.1)
    | cons b bs =>
      rw [List.forall_mem_cons] at hbs
      obtain ⟨rfl, hrest⟩ := h has.1 hbs.1 hcut
      exact List.cons_prefix_cons.mpr ⟨rfl, ih has.2 hbs.2 hrest⟩

/-- Coded lists are equal only if the values are. -/
theorem flatMap_inj (h : Delimits code P) (hne : ∀ a, P a → code a ≠ []) {as bs : List α}
    (has : ∀ a ∈ as, P a) (hbs : ∀ b ∈ bs, P b) : as.flatMap code = bs.flatMap code ↔ as = bs := by
  constructor
  · intro heq
    have hfront := h.prefix_of_flatMap hne has hbs ⟨[], (List.append_nil _).trans heq⟩
    have hback := h.prefix_of_flatMap hne hbs has ⟨[], (List.append_nil _).trans heq.symm⟩
    exact hfront.eq_of_length_le hback.length_le
  · intro heq
    rw [heq]

end Delimits

end Nuntius.SelfDelimiting
