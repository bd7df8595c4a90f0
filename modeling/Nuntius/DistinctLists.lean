import Mathlib.Data.List.Basic
import Mathlib.Data.List.Induction
import Mathlib.Data.List.Nodup
import Mathlib.Data.List.Perm.Subperm

/-!
# Collecting distinct entries in order of arrival

A loop that appends an entry unless it is already there. The entries it returns are
distinct, and they are the ones it was offered.
-/

namespace Nuntius.DistinctLists

variable {α : Type} [DecidableEq α]

/-- Append `x` unless it is already an entry. -/
def pushNew (acc : List α) (x : α) : List α := if x ∈ acc then acc else acc ++ [x]

/-- Offer every entry of a list in turn. -/
def pushAll (acc xs : List α) : List α := xs.foldl pushNew acc

/-- The entries of a list without repetitions, each at its first place. -/
def distinct (xs : List α) : List α := pushAll [] xs

@[simp] theorem mem_pushNew {acc : List α} {x y : α} : y ∈ pushNew acc x ↔ y ∈ acc ∨ y = x := by
  unfold pushNew
  split
  · rename_i hx
    constructor
    · exact .inl
    · rintro (hy | rfl)
      · exact hy
      · exact hx
  · simp

theorem nodup_pushNew {acc : List α} (h : acc.Nodup) (x : α) : (pushNew acc x).Nodup := by
  unfold pushNew
  split
  · exact h
  · rename_i hx
    exact List.nodup_append.mpr ⟨h, List.nodup_singleton x, by
      intro a ha b hb hab
      rw [List.mem_singleton.mp hb] at hab
      exact hx (hab ▸ ha)⟩

theorem mem_pushAll {acc xs : List α} {y : α} : y ∈ pushAll acc xs ↔ y ∈ acc ∨ y ∈ xs := by
  induction xs generalizing acc with
  | nil => simp [pushAll]
  | cons x xs ih =>
    change y ∈ pushAll (pushNew acc x) xs ↔ _
    rw [ih, mem_pushNew, List.mem_cons, or_assoc]

theorem nodup_pushAll {acc : List α} (h : acc.Nodup) (xs : List α) : (pushAll acc xs).Nodup := by
  induction xs generalizing acc with
  | nil => exact h
  | cons x xs ih => exact ih (nodup_pushNew h x)

@[simp] theorem mem_distinct {xs : List α} {y : α} : y ∈ distinct xs ↔ y ∈ xs := by
  rw [distinct, mem_pushAll]
  simp

theorem nodup_distinct (xs : List α) : (distinct xs).Nodup := nodup_pushAll List.nodup_nil xs

/-! ### First entries -/

theorem pushAll_append (acc xs ys : List α) :
    pushAll acc (xs ++ ys) = pushAll (pushAll acc xs) ys :=
  List.foldl_append

theorem pushAll_singleton (acc : List α) (x : α) : pushAll acc [x] = pushNew acc x := rfl

theorem distinct_append (xs ys : List α) : distinct (xs ++ ys) = pushAll (distinct xs) ys :=
  pushAll_append [] xs ys

/-- What is offered to a list lands behind it, without its entries and without repetitions. -/
theorem pushAll_eq_append (acc xs : List α) :
    pushAll acc xs = acc ++ (distinct xs).filter (· ∉ acc) := by
  induction xs using List.reverseRecOn with
  | nil => simp [pushAll, distinct]
  | append_singleton xs x ih =>
    rw [pushAll_append, ih, distinct_append, pushAll_singleton, pushAll_singleton]
    by_cases hx : x ∈ distinct xs
    · have hin : x ∈ acc ++ (distinct xs).filter (· ∉ acc) := by
        by_cases hacc : x ∈ acc
        · exact List.mem_append_left _ hacc
        · exact List.mem_append_right _ (List.mem_filter.mpr ⟨hx, by simpa using hacc⟩)
      rw [pushNew, pushNew, if_pos hin, if_pos hx]
    · rw [pushNew, pushNew, if_neg hx, List.filter_append]
      by_cases hacc : x ∈ acc
      · simp [hacc]
      · have hout : x ∉ acc ++ (distinct xs).filter (· ∉ acc) := by
          simp [hacc, mem_distinct.not.mp hx]
        rw [if_neg hout, List.append_assoc]
        simp [hacc]

theorem distinct_of_nodup {xs : List α} (h : xs.Nodup) : distinct xs = xs := by
  induction xs using List.reverseRecOn with
  | nil => rfl
  | append_singleton xs x ih =>
    obtain ⟨hxs, -, hdisjoint⟩ := List.nodup_append.mp h
    have hx : x ∉ distinct xs := by
      rw [mem_distinct]
      intro hmem
      exact hdisjoint x hmem x (List.mem_singleton_self x) rfl
    rw [distinct_append, pushAll_singleton, pushNew, if_neg hx, ih hxs]

theorem prefix_pushAll (acc xs : List α) : acc <+: pushAll acc xs := by
  rw [pushAll_eq_append]
  exact List.prefix_append _ _

/-- Of `n` distinct entries at most as many are dropped as there are in the list they are
compared with. -/
theorem le_length_append_filter (acc : List α) {xs : List α} (h : xs.Nodup) :
    xs.length ≤ (acc ++ xs.filter (· ∉ acc)).length := by
  have hdropped : (xs.filter (· ∈ acc)).length ≤ acc.length := by
    apply List.Subperm.length_le
    apply (h.filter _).subperm
    intro x hx
    simpa using (List.mem_filter.mp hx).2
  have hsplit := List.length_eq_length_filter_add (l := xs) (· ∈ acc)
  rw [List.length_append]
  simp only [decide_not] at hsplit ⊢
  omega

/-- Only the first `n` distinct entries of a list can be among the first `n` when it is offered
behind another one. -/
theorem take_pushAll_take (acc xs : List α) (n : ℕ) :
    (pushAll acc ((distinct xs).take n)).take n = (pushAll acc xs).take n := by
  have hnodup := nodup_distinct xs
  have htake : ((distinct xs).take n).Nodup := hnodup.sublist (List.take_sublist n _)
  rw [pushAll_eq_append, pushAll_eq_append acc xs, distinct_of_nodup htake]
  rcases Nat.lt_or_ge (distinct xs).length n with hshort | hlong
  · rw [List.take_of_length_le (Nat.le_of_lt hshort)]
  · have hlen := le_length_append_filter acc htake
    rw [List.length_take, Nat.min_eq_left hlong] at hlen
    obtain ⟨rest, hrest⟩ : acc ++ ((distinct xs).take n).filter (· ∉ acc) <+:
        acc ++ (distinct xs).filter (· ∉ acc) :=
      (List.prefix_append_right_inj acc).mpr (List.IsPrefix.filter _ ⟨_, List.take_append_drop n _⟩)
    rw [← hrest, List.take_append_of_le_length hlen]

end Nuntius.DistinctLists
