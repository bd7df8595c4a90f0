import Mathlib.Algebra.Order.Field.Basic
import Mathlib.Tactic.Linarith
import Mathlib.Tactic.Ring

/-!
# Token buckets

A bucket refills at a constant rate up to its limit, and a call that finds a token takes it. What
counts is a forecast: the tokens each key will have at each later time if it is left alone. Calls
that find none leave the forecast as it is, and on an interval no more calls succeed than a full
bucket and the refill of the interval pay for.
-/

namespace Nuntius.TokenBuckets

variable {K F : Type}

/-! ### Refilling -/

def refill [Field F] [LinearOrder F] (limit rate tokens elapsed : F) : F :=
  min limit (tokens + elapsed * rate)

section Refill
variable [Field F] [LinearOrder F] {limit rate tokens elapsed later : F}

theorem refill_le_limit : refill limit rate tokens elapsed ≤ limit := min_le_left _ _

theorem refill_le_add : refill limit rate tokens elapsed ≤ tokens + elapsed * rate :=
  min_le_right _ _

theorem refill_eq_limit (h : limit ≤ tokens + elapsed * rate) :
    refill limit rate tokens elapsed = limit := min_eq_left h

theorem refill_zero (h : tokens ≤ limit) : refill limit rate tokens 0 = tokens := by
  rw [refill, zero_mul, add_zero, min_eq_right h]

variable [IsStrictOrderedRing F]

theorem refill_nonneg (limit_nonneg : 0 ≤ limit) (rate_nonneg : 0 ≤ rate)
    (tokens_nonneg : 0 ≤ tokens) (elapsed_nonneg : 0 ≤ elapsed) :
    0 ≤ refill limit rate tokens elapsed :=
  le_min limit_nonneg (add_nonneg tokens_nonneg (mul_nonneg elapsed_nonneg rate_nonneg))

/-- Looking at a bucket in between makes no difference. -/
theorem refill_refill (rate_nonneg : 0 ≤ rate) (later_nonneg : 0 ≤ later) :
    refill limit rate (refill limit rate tokens elapsed) later =
      refill limit rate tokens (elapsed + later) := by
  have hmore : 0 ≤ later * rate := mul_nonneg later_nonneg rate_nonneg
  have hsum : tokens + (elapsed + later) * rate = tokens + elapsed * rate + later * rate := by ring
  rw [refill, refill, refill, hsum, ← min_add_add_right, ← min_assoc,
    min_eq_left (le_add_of_nonneg_right hmore)]

end Refill

/-! ### Forecasts -/

/-- The tokens of each key at each time. -/
abbrev Forecast (K F : Type) := K → F → F

/-- From now on the keys refill unless a token is taken. -/
structure Refills [Field F] [LinearOrder F] (limit rate now : F) (f : Forecast K F) : Prop where
  nonneg (key : K) : 0 ≤ f key now
  refills (key : K) {t : F} (h : now ≤ t) : f key t = refill limit rate (f key now) (t - now)

def AgreeFrom [LE F] (now : F) (f g : Forecast K F) : Prop := ∀ key t, now ≤ t → f key t = g key t

theorem AgreeFrom.mono [Preorder F] {now later : F} {f g : Forecast K F}
    (agree : AgreeFrom now f g) (hle : now ≤ later) : AgreeFrom later f g :=
  fun key t ht => agree key t (hle.trans ht)

theorem AgreeFrom.trans [LE F] {now : F} {f g h : Forecast K F} (hfg : AgreeFrom now f g)
    (hgh : AgreeFrom now g h) : AgreeFrom now f h :=
  fun key t ht => (hfg key t ht).trans (hgh key t ht)

section Forecasts
variable [Field F] [LinearOrder F] {limit rate now later : F} {f g : Forecast K F}

theorem Refills.le_limit (r : Refills limit rate now f) (key : K) : f key now ≤ limit := by
  rw [r.refills key le_rfl]
  exact refill_le_limit

variable [IsStrictOrderedRing F]

theorem Refills.mono (limit_nonneg : 0 ≤ limit) (rate_nonneg : 0 ≤ rate)
    (r : Refills limit rate now f) (hle : now ≤ later) : Refills limit rate later f where
  nonneg key := by
    rw [r.refills key hle]
    exact refill_nonneg limit_nonneg rate_nonneg (r.nonneg key) (sub_nonneg.mpr hle)
  refills key t ht := by
    rw [r.refills key hle, r.refills key (hle.trans ht),
      refill_refill rate_nonneg (sub_nonneg.mpr ht), sub_add_sub_cancel']

/-- Every bucket is full. -/
theorem refills_full (limit_nonneg : 0 ≤ limit) (rate_nonneg : 0 ≤ rate) :
    Refills limit rate now (fun _ _ => limit : Forecast K F) where
  nonneg _ := limit_nonneg
  refills _ _ ht := by
    have hmore : 0 ≤ (_ - now) * rate := mul_nonneg (sub_nonneg.mpr ht) rate_nonneg
    exact (refill_eq_limit (le_add_of_nonneg_right hmore)).symm

end Forecasts

/-! ### Taking tokens -/

section Spend
variable [DecidableEq K] [Field F] [LinearOrder F] (limit rate : F)

/-- A call takes a token if there is one. -/
def spend (f : Forecast K F) (key : K) (now : F) : Forecast K F := fun k t =>
  if k = key then
    refill limit rate (if 1 ≤ f key now then f key now - 1 else f key now) (t - now)
  else f k t

variable {limit rate} {now : F} {f g : Forecast K F} {key : K}

theorem AgreeFrom.spend (agree : AgreeFrom now f g) (key : K) :
    AgreeFrom now (spend limit rate f key now) (spend limit rate g key now) := by
  intro k t ht
  rw [TokenBuckets.spend, TokenBuckets.spend, agree key now le_rfl, agree k t ht]

/-- A call that finds no token changes nothing. -/
theorem spend_of_denied (r : Refills limit rate now f) (denied : ¬ 1 ≤ f key now) :
    AgreeFrom now (spend limit rate f key now) f := by
  intro k t ht
  by_cases hk : k = key
  · subst hk
    rw [TokenBuckets.spend, if_pos rfl, if_neg denied, r.refills k ht]
  · rw [TokenBuckets.spend, if_neg hk]

variable [IsStrictOrderedRing F]

theorem Refills.spend (r : Refills limit rate now f) (key : K) :
    Refills limit rate now (spend limit rate f key now) := by
  have hstored : (if 1 ≤ f key now then f key now - 1 else f key now) ≤ limit := by
    have := r.le_limit key
    split <;> linarith
  have hnow : TokenBuckets.spend limit rate f key now key now =
      if 1 ≤ f key now then f key now - 1 else f key now := by
    rw [TokenBuckets.spend, if_pos rfl, sub_self, refill_zero hstored]
  constructor
  · intro k
    by_cases hk : k = key
    · subst hk
      rw [hnow]
      split
      case isTrue h => linarith
      case isFalse => exact r.nonneg k
    · rw [TokenBuckets.spend, if_neg hk]
      exact r.nonneg k
  · intro k t ht
    by_cases hk : k = key
    · subst hk
      rw [hnow, TokenBuckets.spend, if_pos rfl]
    · rw [TokenBuckets.spend, TokenBuckets.spend, if_neg hk, if_neg hk]
      exact r.refills k ht

/-- At the time of a call its key loses a token if there is one; other keys lose none. -/
theorem spend_now (r : Refills limit rate now f) (key k : K) :
    spend limit rate f key now k now =
      f k now - if k = key ∧ 1 ≤ f key now then 1 else 0 := by
  by_cases hk : k = key
  · subst hk
    have hle := r.le_limit k
    rw [TokenBuckets.spend, if_pos rfl, sub_self]
    by_cases h : 1 ≤ f k now
    · rw [if_pos h, if_pos ⟨rfl, h⟩, refill_zero (by linarith)]
    · rw [if_neg h, if_neg fun h' => h h'.2, refill_zero hle, sub_zero]
  · rw [TokenBuckets.spend, if_neg hk, if_neg fun h' => hk h'.1, sub_zero]

end Spend

/-! ### Sequences of calls -/

section Sequences
variable [DecidableEq K] [Field F] [LinearOrder F] (limit rate : F)

/-- Which of the calls, each with its time, find a token. -/
def grants : Forecast K F → List (K × F) → List Bool
  | _, [] => []
  | f, (key, now) :: calls => decide (1 ≤ f key now) :: grants (spend limit rate f key now) calls

end Sequences

/-- The calls are made from now on, in order. -/
def Ordered [LE F] (now : F) (calls : List (K × F)) : Prop :=
  (now :: calls.map Prod.snd).Pairwise (· ≤ ·)

theorem ordered_cons [Preorder F] {now t : F} {key : K} {calls : List (K × F)} :
    Ordered now ((key, t) :: calls) ↔ now ≤ t ∧ Ordered t calls := by
  unfold Ordered
  rw [List.map_cons, List.pairwise_cons, List.pairwise_cons]
  constructor
  · intro ⟨hnow, ht⟩
    exact ⟨hnow t (List.mem_cons_self ..), ht⟩
  · intro ⟨hnow, ht⟩
    refine ⟨?_, ht⟩
    intro x hx
    rcases List.mem_cons.mp hx with hx | hx
    · exact hx ▸ hnow
    · exact hnow.trans (ht.1 x hx)

theorem Ordered.sublist [LE F] {now : F} {calls fewer : List (K × F)} (ordered : Ordered now calls)
    (h : fewer.Sublist calls) : Ordered now fewer :=
  List.Pairwise.sublist ((h.map Prod.snd).cons_cons now) ordered

/-- The calls that were granted, with their answers. -/
def granted (calls : List (K × F)) (answers : List Bool) : List ((K × F) × Bool) :=
  (calls.zip answers).filter Prod.snd

theorem granted_sublist (calls : List (K × F)) (answers : List Bool) :
    ((granted calls answers).map Prod.fst).Sublist calls := by
  induction calls generalizing answers with
  | nil => simp [granted]
  | cons c calls ih =>
    cases answers with
    | nil => simp [granted]
    | cons ok answers =>
      cases ok with
      | false => exact (ih answers).cons c
      | true => exact (ih answers).cons_cons c

/-- How many calls of a key were granted in a closed interval. -/
def grantedIn [DecidableEq K] [LinearOrder F] (key : K) (first last : F) (calls : List (K × F))
    (answers : List Bool) : ℕ :=
  (granted calls answers).countP fun e => e.1.1 = key ∧ first ≤ e.1.2 ∧ e.1.2 ≤ last

section Sequences
variable [DecidableEq K] [Field F] [LinearOrder F] {limit rate now : F} {f g : Forecast K F}
variable {calls : List (K × F)}

theorem grants_of_agree (agree : AgreeFrom now f g) (ordered : Ordered now calls) :
    grants limit rate f calls = grants limit rate g calls := by
  induction calls generalizing now f g with
  | nil => rfl
  | cons c calls ih =>
    obtain ⟨key, t⟩ := c
    obtain ⟨ht, hrest⟩ := ordered_cons.mp ordered
    have hagree : AgreeFrom t (spend limit rate f key t) (spend limit rate g key t) :=
      (agree.mono ht).spend key
    rw [grants, grants, agree key t ht, ih hagree hrest]

variable [IsStrictOrderedRing F]

/-- Without the calls that were denied, the others are answered as before. -/
theorem grants_granted (limit_nonneg : 0 ≤ limit) (rate_nonneg : 0 ≤ rate)
    (r : Refills limit rate now f) (ordered : Ordered now calls) :
    grants limit rate f ((granted calls (grants limit rate f calls)).map Prod.fst) =
      (granted calls (grants limit rate f calls)).map Prod.snd := by
  induction calls generalizing now f with
  | nil => rfl
  | cons c calls ih =>
    obtain ⟨key, t⟩ := c
    obtain ⟨ht, hrest⟩ := ordered_cons.mp ordered
    have hr := r.mono limit_nonneg rate_nonneg ht
    have hnext := ih (hr.spend key) hrest
    unfold granted at hnext ⊢
    rw [grants, List.zip_cons_cons]
    by_cases h : 1 ≤ f key t
    · rw [List.filter_cons_of_pos (by simpa using h), List.map_cons, List.map_cons, grants, hnext]
    · -- the forecast has not changed, so the rest may as well be asked of it
      rw [List.filter_cons_of_neg (by simpa using h), ← hnext]
      have hsub := hrest.sublist
        (granted_sublist calls (grants limit rate (spend limit rate f key t) calls))
      exact (grants_of_agree (spend_of_denied hr h) hsub).symm

/-! ### Intervals -/

omit [Field F] [IsStrictOrderedRing F] in
theorem grantedIn_cons (key k : K) (first last t : F) (ok : Bool) (answers : List Bool) :
    grantedIn key first last ((k, t) :: calls) (ok :: answers) =
      grantedIn key first last calls answers +
        if ok = true ∧ k = key ∧ first ≤ t ∧ t ≤ last then 1 else 0 := by
  cases ok with
  | false => simp [grantedIn, granted]
  | true => simp [grantedIn, granted, List.countP_cons]

omit [Field F] [IsStrictOrderedRing F] in
theorem grantedIn_of_after (key : K) (first : F) {last : F} (answers : List Bool)
    (ordered : Ordered now calls) (h : last < now) :
    grantedIn key first last calls answers = 0 := by
  rw [grantedIn, List.countP_eq_zero]
  intro e he hin
  have hmem := List.Sublist.subset (granted_sublist calls answers) (List.mem_map_of_mem he)
  have hlater : now ≤ e.1.2 := (List.pairwise_cons.mp ordered).1 _ (List.mem_map_of_mem hmem)
  have hlast : e.1.2 ≤ last := (of_decide_eq_true hin).2.2
  exact absurd (hlater.trans hlast) (not_le.mpr h)

/-- From now on a key is granted what it has and what it gets. -/
theorem grantedIn_le_now (limit_nonneg : 0 ≤ limit) (rate_nonneg : 0 ≤ rate) (key : K)
    (first : F) {last : F} (r : Refills limit rate now f) (ordered : Ordered now calls)
    (hnow : now ≤ last) :
    (grantedIn key first last calls (grants limit rate f calls) : F) ≤
      f key now + (last - now) * rate := by
  induction calls generalizing now f with
  | nil =>
    have hmore : 0 ≤ (last - now) * rate := mul_nonneg (sub_nonneg.mpr hnow) rate_nonneg
    simpa [grantedIn, granted] using add_nonneg (r.nonneg key) hmore
  | cons c calls ih =>
    obtain ⟨k, t⟩ := c
    obtain ⟨ht, hrest⟩ := ordered_cons.mp ordered
    rw [grants]
    rcases lt_or_ge last t with hlast | hlast
    · -- all that follows lies behind the interval
      have hall : Ordered t ((k, t) :: calls) := ordered_cons.mpr ⟨le_rfl, hrest⟩
      rw [grantedIn_of_after key first _ hall hlast, Nat.cast_zero]
      have hmore : 0 ≤ (last - now) * rate := mul_nonneg (sub_nonneg.mpr hnow) rate_nonneg
      exact add_nonneg (r.nonneg key) hmore
    · have hr := r.mono limit_nonneg rate_nonneg ht
      have hnext := ih (hr.spend k) hrest hlast
      have hspent : spend limit rate f k t key t +
          (if 1 ≤ f k t ∧ k = key ∧ first ≤ t ∧ t ≤ last then 1 else 0) ≤ f key t := by
        rw [spend_now hr]
        split_ifs with hkey hcount hcount
        · linarith
        · linarith
        · exact absurd ⟨hcount.2.1.symm, hcount.1⟩ hkey
        · linarith
      have hgain : f key t ≤ f key now + (t - now) * rate := by
        rw [r.refills key ht]
        exact refill_le_add
      rw [grantedIn_cons]
      push_cast
      have hsplit : (last - now) * rate = (t - now) * rate + (last - t) * rate := by ring
      rw [hsplit]
      simp only [decide_eq_true_eq]
      linarith

/-- On a closed interval a key is granted a full bucket and the refill of the interval. -/
theorem grantedIn_le (limit_nonneg : 0 ≤ limit) (rate_nonneg : 0 ≤ rate) (key : K)
    {first last : F} (r : Refills limit rate now f) (ordered : Ordered now calls)
    (h : first ≤ last) :
    (grantedIn key first last calls (grants limit rate f calls) : F) ≤
      limit + (last - first) * rate := by
  have hbound : 0 ≤ limit + (last - first) * rate :=
    add_nonneg limit_nonneg (mul_nonneg (sub_nonneg.mpr h) rate_nonneg)
  induction calls generalizing now f with
  | nil => simpa [grantedIn, granted] using hbound
  | cons c calls ih =>
    obtain ⟨k, t⟩ := c
    obtain ⟨ht, hrest⟩ := ordered_cons.mp ordered
    have hr := r.mono limit_nonneg rate_nonneg ht
    have hall : Ordered t ((k, t) :: calls) := ordered_cons.mpr ⟨le_rfl, hrest⟩
    rcases lt_or_ge t first with hfirst | hfirst
    · have hnot : ¬ (decide (1 ≤ f k t) = true ∧ k = key ∧ first ≤ t ∧ t ≤ last) :=
        fun hin => absurd hin.2.2.1 (not_le.mpr hfirst)
      rw [grants, grantedIn_cons, if_neg hnot, add_zero]
      exact ih (hr.spend k) hrest
    · rcases lt_or_ge last t with hlast | hlast
      · rw [grantedIn_of_after key first _ hall hlast, Nat.cast_zero]
        exact hbound
      · have hnow := grantedIn_le_now limit_nonneg rate_nonneg key first hr hall hlast
        have hless : (last - t) * rate ≤ (last - first) * rate :=
          mul_le_mul_of_nonneg_right (by linarith) rate_nonneg
        linarith [hr.le_limit key]

end Sequences

end Nuntius.TokenBuckets
