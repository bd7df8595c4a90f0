import Mathlib.Algebra.Order.BigOperators.Group.List
import Mathlib.Algebra.Order.Group.Defs
import Mathlib.Data.List.Sort

/-!
# Weighted samples and where their running weight reaches a target

A weighted sample is a list of values with weights. The value at which the running weight
reaches a target is the one whose strictly smaller values weigh less than the target while
the values up to it weigh at least as much. It does not depend on the order of the list, and
a walk along the sorted list finds it.
-/

namespace Nuntius.RunningWeights

variable {α K : Type*} [LinearOrder α] [AddCommGroup K] [LinearOrder K] [IsOrderedAddMonoid K]

def weight (ws : List (α × K)) : K := (ws.map Prod.snd).sum

/-- The weight of the values with a property. -/
def weightWhere (P : α → Bool) (ws : List (α × K)) : K := weight (ws.filter fun e => P e.1)

def weightBelow (ws : List (α × K)) (x : α) : K := weightWhere (fun a => a < x) ws
def weightUpTo (ws : List (α × K)) (x : α) : K := weightWhere (fun a => a ≤ x) ws
def weightAbove (ws : List (α × K)) (x : α) : K := weightWhere (fun a => x < a) ws

/-- The running weight reaches the target at `x`. -/
structure Reaches (target : K) (ws : List (α × K)) (x : α) : Prop where
  below : weightBelow ws x < target
  upTo : target ≤ weightUpTo ws x

section Sums

omit [LinearOrder α] [LinearOrder K] [IsOrderedAddMonoid K]

@[simp] theorem weight_nil : weight ([] : List (α × K)) = 0 := rfl

@[simp] theorem weight_cons (e : α × K) (ws : List (α × K)) :
    weight (e :: ws) = e.2 + weight ws := rfl

@[simp] theorem weight_append (ws ws' : List (α × K)) :
    weight (ws ++ ws') = weight ws + weight ws' := by
  rw [weight, weight, weight, List.map_append, List.sum_append]

theorem weight_eq_of_perm {ws ws' : List (α × K)} (h : ws.Perm ws') : weight ws = weight ws' :=
  (h.map Prod.snd).sum_eq

theorem weightWhere_eq_of_perm {P : α → Bool} {ws ws' : List (α × K)} (h : ws.Perm ws') :
    weightWhere P ws = weightWhere P ws' := weight_eq_of_perm (h.filter _)

@[simp] theorem weightWhere_append (P : α → Bool) (ws ws' : List (α × K)) :
    weightWhere P (ws ++ ws') = weightWhere P ws + weightWhere P ws' := by
  rw [weightWhere, List.filter_append, weight_append]
  rfl

theorem weightWhere_cons (P : α → Bool) (e : α × K) (ws : List (α × K)) :
    weightWhere P (e :: ws) = (if P e.1 = true then e.2 else 0) + weightWhere P ws := by
  unfold weightWhere
  rw [List.filter_cons]
  split
  · rw [weight_cons]
  · rw [zero_add]

/-- A property and its negation share out the weight. -/
theorem weightWhere_add_not (P : α → Bool) (ws : List (α × K)) :
    weightWhere P ws + weightWhere (fun a => !P a) ws = weight ws := by
  rw [weightWhere, weightWhere, ← weight_append]
  exact weight_eq_of_perm (List.filter_append_perm _ ws)

theorem weightWhere_of_forall {P : α → Bool} {ws : List (α × K)} (h : ∀ e ∈ ws, P e.1 = true) :
    weightWhere P ws = weight ws := by
  rw [weightWhere, List.filter_eq_self.mpr h]

theorem weightWhere_of_forall_not {P : α → Bool} {ws : List (α × K)}
    (h : ∀ e ∈ ws, P e.1 = false) : weightWhere P ws = 0 := by
  rw [weightWhere, List.filter_eq_nil_iff.mpr (by simpa using h), weight_nil]

end Sums

section Order
variable {ws : List (α × K)} (hpos : ∀ e ∈ ws, 0 ≤ e.2)
include hpos

omit [LinearOrder α] in
theorem weight_nonneg : 0 ≤ weight ws := by
  apply List.sum_nonneg
  intro w hw
  obtain ⟨e, he, rfl⟩ := List.mem_map.mp hw
  exact hpos e he

omit [LinearOrder α] in
theorem weightWhere_mono {P Q : α → Bool} (h : ∀ e ∈ ws, P e.1 = true → Q e.1 = true) :
    weightWhere P ws ≤ weightWhere Q ws := by
  induction ws with
  | nil => exact le_rfl
  | cons e rest ih =>
    have hrest := ih (fun e' he' => hpos e' (List.mem_cons_of_mem _ he'))
      (fun e' he' => h e' (List.mem_cons_of_mem _ he'))
    have hhead := hpos e List.mem_cons_self
    unfold weightWhere at hrest ⊢
    rw [List.filter_cons, List.filter_cons]
    by_cases hP : P e.1 = true
    · rw [if_pos hP, if_pos (h e List.mem_cons_self hP), weight_cons, weight_cons]
      gcongr
    · rw [if_neg hP]
      split
      · rw [weight_cons]
        exact hrest.trans (le_add_of_nonneg_left hhead)
      · exact hrest

/-- Where the target is reached is at or above a value exactly if what is below the value weighs
less than the target. -/
theorem Reaches.le_iff {target : K} {x : α} (hx : Reaches target ws x) (y : α) :
    y ≤ x ↔ weightBelow ws y < target := by
  constructor
  · intro hyx
    refine (weightWhere_mono hpos ?_).trans_lt hx.below
    intro e _ he
    simp only [decide_eq_true_eq] at he ⊢
    exact he.trans_le hyx
  · intro hbelow
    by_contra hxy
    have hmono : weightUpTo ws x ≤ weightBelow ws y := by
      apply weightWhere_mono hpos
      intro e _ he
      simp only [decide_eq_true_eq] at he ⊢
      exact he.trans_lt (not_le.mp hxy)
    exact absurd (hx.upTo.trans hmono) (not_le.mpr hbelow)

/-- At most one value can be where the target is reached. -/
theorem Reaches.unique {target : K} {x y : α} (hx : Reaches target ws x)
    (hy : Reaches target ws y) : x = y :=
  le_antisymm ((hy.le_iff hpos x).mpr hx.below) ((hx.le_iff hpos y).mpr hy.below)

end Order

omit [IsOrderedAddMonoid K] in
theorem Reaches.perm {target : K} {ws ws' : List (α × K)} {x : α} (h : Reaches target ws x)
    (hperm : ws.Perm ws') : Reaches target ws' x where
  below := by
    rw [weightBelow, ← weightWhere_eq_of_perm hperm]
    exact h.below
  upTo := by
    rw [weightUpTo, ← weightWhere_eq_of_perm hperm]
    exact h.upTo

omit [LinearOrder K] [IsOrderedAddMonoid K] in
theorem weightUpTo_add_above (ws : List (α × K)) (x : α) :
    weightUpTo ws x + weightAbove ws x = weight ws := by
  have hnot : (fun a => decide (x < a)) = fun a => !decide (a ≤ x) := by
    funext a
    rw [← decide_not]
    exact decide_eq_decide.mpr not_le.symm
  rw [weightAbove, hnot]
  exact weightWhere_add_not _ ws

/-! ### The walk -/

/-- Add up weights until the target is reached. -/
def reachAt (target : K) : K → List (α × K) → Option α
  | _, [] => none
  | running, (x, w) :: rest =>
    if target ≤ running + w then some x else reachAt target (running + w) rest

/-- In a sorted list, the entry that carries the weight over the target is where the target is
reached. -/
theorem reaches_of_crossing {target w : K} {x : α} {done rest : List (α × K)}
    (hsorted : (done ++ (x, w) :: rest).Pairwise (fun a b => a.1 ≤ b.1))
    (hpos : ∀ e ∈ done ++ (x, w) :: rest, 0 ≤ e.2) (hdone : weight done < target)
    (hreach : target ≤ weight done + w) : Reaches target (done ++ (x, w) :: rest) x := by
  obtain ⟨-, htail, hcross⟩ := List.pairwise_append.mp hsorted
  constructor
  · -- what is smaller than the value stands before it
    have hafter : weightWhere (fun a => decide (a < x)) ((x, w) :: rest) = 0 := by
      apply weightWhere_of_forall_not
      intro e he
      rcases List.mem_cons.mp he with rfl | he
      · simp
      · simpa using (List.pairwise_cons.mp htail).1 e he
    have hbefore : weightWhere (fun a => decide (a < x)) done ≤
        weightWhere (fun _ => true) done :=
      weightWhere_mono (fun e he => hpos e (List.mem_append_left _ he)) (fun _ _ _ => rfl)
    have hall : weightWhere (fun _ => true) done = weight done :=
      weightWhere_of_forall fun _ _ => rfl
    rw [hall] at hbefore
    rw [weightBelow, weightWhere_append, hafter, add_zero]
    exact hbefore.trans_lt hdone
  · -- what stands before the value is at most the value
    have hupTo : weightWhere (fun a => decide (a ≤ x)) done = weight done := by
      apply weightWhere_of_forall
      intro e he
      simpa using hcross e he (x, w) List.mem_cons_self
    have hrest : 0 ≤ weightWhere (fun a => decide (a ≤ x)) rest := by
      apply weight_nonneg
      intro e he
      exact hpos e (List.mem_append_right _ (List.mem_cons_of_mem _ (List.mem_filter.mp he).1))
    rw [weightUpTo, weightWhere_append, weightWhere_cons, hupTo, if_pos (by simp), ← add_assoc]
    exact hreach.trans (le_add_of_nonneg_right hrest)

/-- The walk after `done`: it ends at the value where the target is reached, unless the whole
list weighs less. -/
theorem reachAt_walk {target : K} {done rest : List (α × K)}
    (hsorted : (done ++ rest).Pairwise (fun a b => a.1 ≤ b.1))
    (hpos : ∀ e ∈ done ++ rest, 0 ≤ e.2) (hdone : weight done < target)
    (henough : target ≤ weight (done ++ rest)) :
    ∃ x w, (x, w) ∈ rest ∧ reachAt target (weight done) rest = some x ∧
      Reaches target (done ++ rest) x := by
  induction rest generalizing done with
  | nil =>
    rw [List.append_nil] at henough
    exact absurd henough (not_le.mpr hdone)
  | cons e rest ih =>
    obtain ⟨x, w⟩ := e
    have hstep : weight (done ++ [(x, w)]) = weight done + w := by simp
    by_cases hreach : target ≤ weight done + w
    · exact ⟨x, w, List.mem_cons_self, if_pos hreach,
        reaches_of_crossing hsorted hpos hdone hreach⟩
    · rw [List.append_cons] at hsorted hpos henough ⊢
      rw [← hstep] at hreach
      obtain ⟨y, v, hmem, hwalk, hreaches⟩ := ih hsorted hpos (not_le.mp hreach) henough
      refine ⟨y, v, List.mem_cons_of_mem _ hmem, ?_, hreaches⟩
      rw [reachAt, if_neg (by rwa [hstep] at hreach), ← hstep]
      exact hwalk

/-- On a sorted list the walk finds where the target is reached. -/
theorem reachAt_sorted {target : K} {ws : List (α × K)}
    (hsorted : ws.Pairwise (fun a b => a.1 ≤ b.1)) (hpos : ∀ e ∈ ws, 0 ≤ e.2)
    (htarget : 0 < target) (henough : target ≤ weight ws) :
    ∃ x w, (x, w) ∈ ws ∧ reachAt target 0 ws = some x ∧ Reaches target ws x := by
  rw [← List.nil_append ws] at hsorted hpos henough
  exact reachAt_walk hsorted hpos htarget henough

end Nuntius.RunningWeights
