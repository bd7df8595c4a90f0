import Mathlib.Algebra.Order.Field.Basic
import Mathlib.Data.List.GetD
import Mathlib.Data.List.Sort
import Mathlib.Order.Interval.Set.Basic
import Mathlib.Tactic.Linarith
import Mathlib.Tactic.Ring

/-!
# Order statistics of finite samples

A sample is a list. Its median sorts the list and takes the middle entry, or the
average of the two middle entries when the length is even. The one fact everything
else rests on is a counting bound: an entry of a sorted list cannot leave an
interval that fewer entries leave than its rank allows.
-/

namespace Nuntius.OrderStatistics

section LinearOrder
variable {α : Type*} [LinearOrder α]

/-- The sample in increasing order. -/
def sorted (l : List α) : List α := l.insertionSort (· ≤ ·)

theorem sorted_perm (l : List α) : (sorted l).Perm l := List.perm_insertionSort _ l

@[simp] theorem length_sorted (l : List α) : (sorted l).length = l.length :=
  (sorted_perm l).length_eq

theorem pairwise_sorted (l : List α) : (sorted l).Pairwise (· ≤ ·) :=
  List.pairwise_insertionSort _ l

/-- The order in which a sample is listed does not matter. -/
theorem sorted_eq_of_perm {l l' : List α} (h : l.Perm l') : sorted l = sorted l' := by
  apply List.Perm.eq_of_pairwise' (pairwise_sorted l) (pairwise_sorted l')
  exact (sorted_perm l).trans (h.trans (sorted_perm l').symm)

@[simp] theorem mem_sorted {l : List α} {a : α} : a ∈ sorted l ↔ a ∈ l := (sorted_perm l).mem_iff

/-- In a sorted list the entry of rank `i` is at least `L` as soon as at most `i`
entries lie below `L`. -/
theorem le_getElem_of_countP {s : List α} (hs : s.Pairwise (· ≤ ·)) {i : ℕ} (hi : i < s.length)
    {L : α} (h : s.countP (· < L) ≤ i) : L ≤ s[i] := by
  by_contra hlt
  have hlow : ∀ a ∈ s.take (i + 1), a < L := by
    intro a ha
    obtain ⟨j, hj, rfl⟩ := List.mem_take_iff_getElem.mp ha
    have hji : j ≤ i := by omega
    rcases Nat.lt_or_eq_of_le hji with hlt' | rfl
    · exact (List.pairwise_iff_getElem.mp hs j i _ hi hlt').trans_lt (not_le.mp hlt)
    · exact not_le.mp hlt
  have hall : (s.take (i + 1)).countP (· < L) = (s.take (i + 1)).length := by
    rw [List.countP_eq_length]
    simpa using hlow
  have hsub : (s.take (i + 1)).countP (· < L) ≤ s.countP (· < L) :=
    (List.take_sublist _ _).countP_le
  rw [List.length_take] at hall
  omega

/-- Dually, the entry of rank `i` is at most `U` when fewer entries exceed `U` than
there are ranks from `i` on. -/
theorem getElem_le_of_countP {s : List α} (hs : s.Pairwise (· ≤ ·)) {i : ℕ} (hi : i < s.length)
    {U : α} (h : s.countP (U < ·) + i < s.length) : s[i] ≤ U := by
  by_contra hlt
  have hhigh : ∀ a ∈ s.drop i, U < a := by
    intro a ha
    obtain ⟨j, hj, rfl⟩ := List.mem_drop_iff_getElem.mp ha
    rcases Nat.eq_zero_or_pos j with rfl | hpos
    · simpa using not_le.mp hlt
    · exact (not_le.mp hlt).trans_le
        (List.pairwise_iff_getElem.mp hs i (i + j) hi (by omega) (by omega))
  have hall : (s.drop i).countP (U < ·) = (s.drop i).length := by
    rw [List.countP_eq_length]
    simpa using hhigh
  have hsub : (s.drop i).countP (U < ·) ≤ s.countP (U < ·) :=
    (List.drop_sublist _ _).countP_le
  rw [List.length_drop] at hall
  omega

/-- Fewer entries exceed the one of rank `i` than there are ranks behind it. -/
theorem countP_gt_getElem {s : List α} (hs : s.Pairwise (· ≤ ·)) {i : ℕ} (hi : i < s.length) :
    s.countP (s[i] < ·) + i < s.length := by
  have hlow : (s.take (i + 1)).countP (s[i] < ·) = 0 := by
    rw [List.countP_eq_zero]
    intro a ha
    obtain ⟨j, hj, rfl⟩ := List.mem_take_iff_getElem.mp ha
    have hji : j ≤ i := by omega
    rcases Nat.lt_or_eq_of_le hji with hlt | rfl
    · simpa using List.pairwise_iff_getElem.mp hs j i _ hi hlt
    · simp
  have hsplit : s.countP (s[i] < ·) =
      (s.take (i + 1)).countP (s[i] < ·) + (s.drop (i + 1)).countP (s[i] < ·) := by
    rw [← List.countP_append, List.take_append_drop]
  have hhigh := List.countP_le_length (p := fun a => decide (s[i] < a)) (l := s.drop (i + 1))
  rw [List.length_drop] at hhigh
  omega

/-- One more entry can only lower the entry of a given rank. -/
theorem getElem_sorted_cons_le (v : α) {l : List α} {i : ℕ} (hi : i < (sorted l).length)
    (hi' : i < (sorted (v :: l)).length) : (sorted (v :: l))[i] ≤ (sorted l)[i] := by
  apply getElem_le_of_countP (pairwise_sorted _)
  have hgt := countP_gt_getElem (pairwise_sorted l) hi
  rw [(sorted_perm l).countP_eq, length_sorted] at hgt
  rw [(sorted_perm (v :: l)).countP_eq, List.countP_cons, length_sorted, List.length_cons]
  split <;> omega

/-- An entry above all others comes last. -/
theorem sorted_cons_top {v : α} {l : List α} (h : ∀ a ∈ l, a ≤ v) :
    sorted (v :: l) = sorted l ++ [v] := by
  apply List.Perm.eq_of_pairwise' (pairwise_sorted _)
  · rw [List.pairwise_append]
    refine ⟨pairwise_sorted l, List.pairwise_singleton _ _, ?_⟩
    intro a ha b hb
    rw [List.mem_singleton.mp hb]
    exact h a (mem_sorted.mp ha)
  · have hsort : (v :: l).Perm (v :: sorted l) := (sorted_perm l).symm.cons v
    exact (sorted_perm _).trans (hsort.trans (List.perm_append_singleton v (sorted l)).symm)

/-- Fewer than half of the sample lies outside `[L, U]`. -/
def Majority (l : List α) (L U : α) : Prop :=
  2 * l.countP (fun a => decide (a < L ∨ U < a)) < l.length

instance (l : List α) (L U : α) : Decidable (Majority l L U) :=
  inferInstanceAs (Decidable (_ < _))

/-- More than half inside is fewer than half outside. -/
theorem Majority.of_countP {l : List α} {L U : α}
    (h : l.length < 2 * l.countP (fun a => decide (L ≤ a ∧ a ≤ U))) : Majority l L U := by
  have hsplit := List.length_eq_countP_add_countP (fun a => decide (L ≤ a ∧ a ≤ U)) (l := l)
  have hout : l.countP (fun a => decide ¬ decide (L ≤ a ∧ a ≤ U) = true) =
      l.countP (fun a => decide (a < L ∨ U < a)) := by
    refine List.countP_congr fun a _ => ?_
    simp only [decide_eq_true_eq, not_and_or, not_le]
  unfold Majority
  omega

theorem Majority.perm {l l' : List α} {L U : α} (h : Majority l L U) (hp : l.Perm l') :
    Majority l' L U := by
  unfold Majority at *
  rwa [← hp.countP_eq, ← hp.length_eq]

theorem Majority.countP_lt {l : List α} {L U : α} (h : Majority l L U) :
    2 * l.countP (· < L) < l.length := by
  refine lt_of_le_of_lt (Nat.mul_le_mul_left 2 (List.countP_mono_left ?_)) h
  intro a _ ha
  simp only [decide_eq_true_eq] at ha ⊢
  exact Or.inl ha

theorem Majority.countP_gt {l : List α} {L U : α} (h : Majority l L U) :
    2 * l.countP (U < ·) < l.length := by
  refine lt_of_le_of_lt (Nat.mul_le_mul_left 2 (List.countP_mono_left ?_)) h
  intro a _ ha
  simp only [decide_eq_true_eq] at ha ⊢
  exact Or.inr ha

/-- A part of the sample inside `[L, U]` that is more than half of it is a majority. -/
theorem Majority.of_sublist {l part : List α} {L U : α} (hsub : part.Sublist l)
    (hmore : l.length < 2 * part.length) (hin : ∀ a ∈ part, L ≤ a ∧ a ≤ U) : Majority l L U := by
  apply Majority.of_countP
  have hall : part.countP (fun a => decide (L ≤ a ∧ a ≤ U)) = part.length := by
    rw [List.countP_eq_length]
    simpa using hin
  have hle := hsub.countP_le (p := fun a => decide (L ≤ a ∧ a ≤ U))
  omega

/-- A sample that is not empty has a smallest and a largest entry. -/
theorem exists_extremes {l : List α} (hne : l ≠ []) :
    ∃ L ∈ l, ∃ U ∈ l, ∀ a ∈ l, L ≤ a ∧ a ≤ U := by
  obtain ⟨L, hL⟩ := Option.isSome_iff_exists.mp (List.isSome_min?_iff.mpr hne)
  obtain ⟨U, hU⟩ := Option.isSome_iff_exists.mp (List.isSome_max?_iff.mpr hne)
  obtain ⟨hLmem, hLle⟩ := List.min?_eq_some_iff.mp hL
  obtain ⟨hUmem, hUge⟩ := List.max?_eq_some_iff.mp hU
  exact ⟨L, hLmem, U, hUmem, fun a ha => ⟨hLle a ha, hUge a ha⟩⟩

/-- The keys of a part that is more than half of a list lie between two keys of its own, and
they are a majority of every list that keeps the part and does not outgrow it. -/
theorem exists_majority {β : Type*} (f : β → α) {all part : List β}
    (hmore : all.length < 2 * part.length) :
    ∃ first ∈ part, ∃ last ∈ part, (∀ b ∈ part, f first ≤ f b ∧ f b ≤ f last) ∧
      ∀ kept : List β, part.Sublist kept → kept.length < 2 * part.length →
        Majority (kept.map f) (f first) (f last) := by
  have hne : part.map f ≠ [] := by
    intro hnil
    rw [List.map_eq_nil_iff.mp hnil, List.length_nil] at hmore
    omega
  obtain ⟨lo, hlo, hi, hhi, hrange⟩ := exists_extremes hne
  obtain ⟨first, hfirst, rfl⟩ := List.mem_map.mp hlo
  obtain ⟨last, hlast, rfl⟩ := List.mem_map.mp hhi
  refine ⟨first, hfirst, last, hlast, fun b hb => hrange _ (List.mem_map_of_mem hb), ?_⟩
  intro kept hkept hshort
  apply Majority.of_sublist (hkept.map f) _ hrange
  rwa [List.length_map, List.length_map]

/-- Every middle rank of a sample with a majority in `[L, U]` is inside `[L, U]`. For
an even length both middle ranks qualify. -/
theorem Majority.getElem_mem {l : List α} {L U : α} (h : Majority l L U) {i : ℕ}
    (hi : i < (sorted l).length) (hlo : l.length ≤ 2 * i + 2) (hhi : 2 * i ≤ l.length) :
    (sorted l)[i] ∈ Set.Icc L U := by
  have hs := h.perm (sorted_perm l).symm
  have hlow := hs.countP_lt
  have hhigh := hs.countP_gt
  rw [length_sorted] at hlow hhigh
  constructor
  · exact le_getElem_of_countP (pairwise_sorted l) hi (by omega)
  · exact getElem_le_of_countP (pairwise_sorted l) hi (by rw [length_sorted]; omega)

end LinearOrder

section Field
variable {K : Type*} [Field K] [LinearOrder K] [IsStrictOrderedRing K]

/-- The middle of an already sorted sample. -/
def middle (s : List K) : K :=
  if s.length % 2 = 0 then (s.getD (s.length / 2 - 1) 0 + s.getD (s.length / 2) 0) / 2
  else s.getD (s.length / 2) 0

def median (l : List K) : K := middle (sorted l)

/-- The median absolute deviation from the median. -/
def medianDeviation (l : List K) : K :=
  median ((sorted l).map (fun a => |a - median l|))

omit [IsStrictOrderedRing K] in
theorem median_eq_of_perm {l l' : List K} (h : l.Perm l') : median l = median l' := by
  rw [median, median, sorted_eq_of_perm h]

/-- The lower half of a sorted sample, middle included, lies at or below its middle. -/
theorem getElem_le_middle {s : List K} (hs : s.Pairwise (· ≤ ·)) {i : ℕ} (hi : i < s.length)
    (hhalf : 2 * i < s.length) : s[i] ≤ middle s := by
  have hmono : ∀ j (hj : j < s.length), i ≤ j → s[i] ≤ s[j] := by
    intro j hj hij
    rcases Nat.lt_or_eq_of_le hij with hlt | rfl
    · exact List.pairwise_iff_getElem.mp hs i j hi hj hlt
    · exact le_rfl
  unfold middle
  split
  · have hprev : s.length / 2 - 1 < s.length := by omega
    have hlast : s.length / 2 < s.length := by omega
    rw [List.getD_eq_getElem _ _ hprev, List.getD_eq_getElem _ _ hlast]
    linarith [hmono _ hprev (by omega), hmono _ hlast (by omega)]
  · have hmid : s.length / 2 < s.length := by omega
    rw [List.getD_eq_getElem _ _ hmid]
    exact hmono _ hmid (by omega)

/-- At least half of a sample lies at or below its median. -/
theorem length_le_countP_le_median (l : List K) :
    l.length ≤ 2 * l.countP (fun a => decide (a ≤ median l)) := by
  have hlow : ∀ a ∈ (sorted l).take (l.length - l.length / 2), a ≤ median l := by
    intro a ha
    obtain ⟨i, hi, rfl⟩ := List.mem_take_iff_getElem.mp ha
    exact getElem_le_middle (pairwise_sorted l) (by omega) (by rw [length_sorted]; omega)
  have hall : ((sorted l).take (l.length - l.length / 2)).countP
      (fun a => decide (a ≤ median l)) = l.length - l.length / 2 := by
    rw [List.countP_eq_length.mpr (by simpa using hlow), List.length_take, length_sorted]
    omega
  have hsub := (List.take_sublist (l.length - l.length / 2) (sorted l)).countP_le
    (p := fun a => decide (a ≤ median l))
  rw [(sorted_perm l).countP_eq] at hsub
  omega

/-- The median of a sample with one more entry, above all of it. -/
def medianBelowTop (l : List K) : K :=
  if l.length % 2 = 1 then
    ((sorted l).getD ((l.length + 1) / 2 - 1) 0 + (sorted l).getD ((l.length + 1) / 2) 0) / 2
  else (sorted l).getD ((l.length + 1) / 2) 0

omit [IsStrictOrderedRing K] in
theorem median_cons_top {v : K} {l : List K} (hlen : 2 ≤ l.length) (h : ∀ a ∈ l, a ≤ v) :
    median (v :: l) = medianBelowTop l := by
  have hget : ∀ i, i < l.length → (sorted l ++ [v]).getD i 0 = (sorted l).getD i 0 := by
    intro i hi
    exact List.getD_append _ _ _ _ (by rwa [length_sorted])
  unfold median middle medianBelowTop
  rw [sorted_cons_top h, List.length_append, length_sorted, List.length_singleton,
    hget _ (by omega), hget _ (by omega)]
  split_ifs <;> first | rfl | omega

/-- Wherever the additional entry stands, the median is no larger than if it stood on top. -/
theorem median_cons_le (v : K) {l : List K} (hlen : 2 ≤ l.length) :
    median (v :: l) ≤ medianBelowTop l := by
  have hle : ∀ i, i < l.length → (sorted (v :: l)).getD i 0 ≤ (sorted l).getD i 0 := by
    intro i hi
    have hi₁ : i < (sorted l).length := by rwa [length_sorted]
    have hi₂ : i < (sorted (v :: l)).length := by
      rw [length_sorted, List.length_cons]
      omega
    rw [List.getD_eq_getElem _ _ hi₁, List.getD_eq_getElem _ _ hi₂]
    exact getElem_sorted_cons_le v hi₁ hi₂
  unfold median middle medianBelowTop
  rw [length_sorted, List.length_cons]
  split_ifs
  · linarith [hle ((l.length + 1) / 2 - 1) (by omega), hle ((l.length + 1) / 2) (by omega)]
  · omega
  · omega
  · exact hle _ (by omega)

/-- A strict majority pins the median. -/
theorem Majority.median_mem {l : List K} {L U : K} (h : Majority l L U) :
    median l ∈ Set.Icc L U := by
  have hpos : 0 < l.length := by unfold Majority at h; omega
  have hlen := length_sorted l
  unfold median middle
  rw [hlen]
  split
  · rename_i heven
    have hlast : l.length / 2 < (sorted l).length := by omega
    have hprev : l.length / 2 - 1 < (sorted l).length := by omega
    rw [List.getD_eq_getElem _ _ hlast, List.getD_eq_getElem _ _ hprev]
    have h₁ := h.getElem_mem hprev (by omega) (by omega)
    have h₂ := h.getElem_mem hlast (by omega) (by omega)
    constructor
    · linarith [h₁.1, h₂.1]
    · linarith [h₁.2, h₂.2]
  · rename_i hodd
    have hmid : l.length / 2 < (sorted l).length := by omega
    rw [List.getD_eq_getElem _ _ hmid]
    exact h.getElem_mem hmid (by omega) (by omega)

theorem abs_sub_le_of_mem {a b L U : K} (ha : a ∈ Set.Icc L U) (hb : b ∈ Set.Icc L U) :
    |a - b| ≤ U - L := by
  rw [abs_le]
  constructor
  · linarith [ha.1, hb.2]
  · linarith [ha.2, hb.1]

/-- The same majority bounds the median absolute deviation by the interval's width. -/
theorem Majority.medianDeviation_mem {l : List K} {L U : K} (h : Majority l L U) :
    medianDeviation l ∈ Set.Icc 0 (U - L) := by
  apply Majority.median_mem
  have hmed := h.median_mem
  have hs := h.perm (sorted_perm l).symm
  unfold Majority at hs ⊢
  rw [List.countP_map, List.length_map]
  refine lt_of_le_of_lt (Nat.mul_le_mul_left 2 (List.countP_mono_left ?_)) hs
  intro a _ ha
  simp only [Function.comp_apply, decide_eq_true_eq] at ha ⊢
  by_contra hin
  push Not at hin
  rcases ha with ha | ha
  · exact absurd (abs_nonneg _) (not_le.mpr ha)
  · exact absurd (abs_sub_le_of_mem ⟨hin.1, hin.2⟩ hmed) (not_le.mpr ha)

end Field

end Nuntius.OrderStatistics
