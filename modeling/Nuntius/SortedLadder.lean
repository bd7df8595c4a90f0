import Mathlib.Data.List.Basic
import Mathlib.Order.Lattice
import Mathlib.Order.Defs.LinearOrder

/-!
# Finite ordered maps as ascending association lists

The entries carry strictly increasing keys, so the first and the last entry are the
extreme keys and a key occurs once. This is the reading of a B-tree map that is
updated one key at a time.
-/

namespace Nuntius

structure Ladder (K V : Type) [LinearOrder K] where
  entries : List (K × V)
  ascending : entries.Pairwise (fun a b => a.1 < b.1)

namespace Ladder
variable {K V : Type} [LinearOrder K]

def empty : Ladder K V := ⟨[], .nil⟩

def keys (l : Ladder K V) : List K := l.entries.map Prod.fst

def length (l : Ladder K V) : ℕ := l.entries.length

/-- The entry with the smallest key. -/
def least? (l : Ladder K V) : Option (K × V) := l.entries.head?

/-- The entry with the largest key. -/
def greatest? (l : Ladder K V) : Option (K × V) := l.entries.getLast?

/-- Insert at `k`, or replace the value there; `f` sees the old value. -/
def upsertList (k : K) (f : Option V → V) : List (K × V) → List (K × V)
  | [] => [(k, f none)]
  | (k', v) :: rest =>
    if k < k' then (k, f none) :: (k', v) :: rest
    else if k = k' then (k', f (some v)) :: rest
    else (k', v) :: upsertList k f rest

theorem mem_upsertList_keys {k k' : K} {f : Option V → V} {es : List (K × V)} :
    k' ∈ (upsertList k f es).map Prod.fst ↔ k' = k ∨ k' ∈ es.map Prod.fst := by
  induction es with
  | nil => simp [upsertList]
  | cons e rest ih =>
    obtain ⟨k₀, v⟩ := e
    unfold upsertList
    split_ifs with hlt heq
    · simp
    · subst heq
      simp
    · simp only [List.map_cons, List.mem_cons, ih]
      exact or_left_comm

theorem upsertList_ascending {k : K} {f : Option V → V} {es : List (K × V)}
    (h : es.Pairwise (fun a b => a.1 < b.1)) :
    (upsertList k f es).Pairwise (fun a b => a.1 < b.1) := by
  induction es with
  | nil => simp [upsertList]
  | cons e rest ih =>
    obtain ⟨k₀, v⟩ := e
    obtain ⟨hhead, htail⟩ := List.pairwise_cons.mp h
    unfold upsertList
    split_ifs with hlt heq
    · refine List.pairwise_cons.mpr ⟨?_, h⟩
      intro e he
      rcases List.mem_cons.mp he with rfl | he
      · exact hlt
      · exact hlt.trans (hhead e he)
    · exact List.pairwise_cons.mpr ⟨hhead, htail⟩
    · refine List.pairwise_cons.mpr ⟨?_, ih htail⟩
      intro e he
      have hk : e.1 ∈ (upsertList k f rest).map Prod.fst := List.mem_map_of_mem he
      rcases mem_upsertList_keys.mp hk with hk | hk
      · rw [hk]
        exact lt_of_le_of_ne (not_lt.mp hlt) (Ne.symm heq)
      · obtain ⟨e', he', hee⟩ := List.mem_map.mp hk
        rw [← hee]
        exact hhead e' he'

def upsert (l : Ladder K V) (k : K) (f : Option V → V) : Ladder K V :=
  ⟨upsertList k f l.entries, upsertList_ascending l.ascending⟩

def erase (l : Ladder K V) (k : K) : Ladder K V :=
  ⟨l.entries.filter (fun e => e.1 ≠ k), l.ascending.filter _⟩

def modifyEntry (k : K) (f : V → V) (e : K × V) : K × V := if e.1 = k then (e.1, f e.2) else e

@[simp] theorem modifyEntry_fst (k : K) (f : V → V) (e : K × V) : (modifyEntry k f e).1 = e.1 := by
  unfold modifyEntry
  split <;> rfl

/-- Update the value at an existing key. -/
def modify (l : Ladder K V) (k : K) (f : V → V) : Ladder K V :=
  ⟨l.entries.map (modifyEntry k f), by
    rw [List.pairwise_map]
    simpa using l.ascending⟩

@[simp] theorem keys_empty : (empty : Ladder K V).keys = [] := rfl

@[simp] theorem mem_keys_upsert {l : Ladder K V} {k k' : K} {f : Option V → V} :
    k' ∈ (l.upsert k f).keys ↔ k' = k ∨ k' ∈ l.keys := mem_upsertList_keys

@[simp] theorem mem_keys_erase {l : Ladder K V} {k k' : K} :
    k' ∈ (l.erase k).keys ↔ k' ∈ l.keys ∧ k' ≠ k := by
  simp only [keys, erase, List.mem_map, List.mem_filter, decide_eq_true_eq]
  constructor
  · rintro ⟨e, ⟨he, hne⟩, rfl⟩
    exact ⟨⟨e, he, rfl⟩, hne⟩
  · rintro ⟨⟨e, he, rfl⟩, hne⟩
    exact ⟨e, ⟨he, hne⟩, rfl⟩

@[simp] theorem keys_modify (l : Ladder K V) (k : K) (f : V → V) :
    (l.modify k f).keys = l.keys := by
  simp [keys, modify, Function.comp_def]

theorem least?_eq_some {l : Ladder K V} {k : K} {v : V} (h : l.least? = some (k, v)) :
    k ∈ l.keys ∧ ∀ k' ∈ l.keys, k ≤ k' := by
  obtain ⟨rest, hrest⟩ := List.head?_eq_some_iff.mp h
  have hasc := l.ascending
  rw [hrest] at hasc
  simp only [keys, hrest, List.map_cons, List.mem_cons, List.mem_map]
  refine ⟨Or.inl trivial, ?_⟩
  rintro k' (rfl | ⟨e, he, rfl⟩)
  · exact le_rfl
  · exact ((List.pairwise_cons.mp hasc).1 e he).le

theorem greatest?_eq_some {l : Ladder K V} {k : K} {v : V} (h : l.greatest? = some (k, v)) :
    k ∈ l.keys ∧ ∀ k' ∈ l.keys, k' ≤ k := by
  obtain ⟨init, hinit⟩ := List.getLast?_eq_some_iff.mp h
  have hasc := l.ascending
  rw [hinit] at hasc
  simp only [keys, hinit, List.map_append, List.map_cons, List.map_nil, List.mem_append,
    List.mem_map, List.mem_singleton]
  refine ⟨Or.inr trivial, ?_⟩
  rintro k' (⟨e, he, rfl⟩ | rfl)
  · exact ((List.pairwise_append.mp hasc).2.2 e he (k, v) (by simp)).le
  · exact le_rfl

theorem least?_isSome {l : Ladder K V} {k : K} (h : k ∈ l.keys) : ∃ e, l.least? = some e := by
  unfold least?
  cases hes : l.entries with
  | nil => simp [keys, hes] at h
  | cons e rest => exact ⟨e, rfl⟩

theorem greatest?_isSome {l : Ladder K V} {k : K} (h : k ∈ l.keys) : ∃ e, l.greatest? = some e := by
  rcases hl : l.greatest? with _ | e
  · rw [greatest?, List.getLast?_eq_none_iff] at hl
    simp [keys, hl] at h
  · exact ⟨e, rfl⟩

/-- Erasing a key that is there makes the ladder shorter. -/
theorem length_erase_lt {l : Ladder K V} {k : K} (h : k ∈ l.keys) :
    (l.erase k).length < l.length := by
  obtain ⟨e, he, hek⟩ := List.mem_map.mp h
  exact List.length_filter_lt_length_iff_exists.mpr ⟨e, he, by simp [hek]⟩

theorem length_erase_le (l : Ladder K V) (k : K) : (l.erase k).length ≤ l.length :=
  List.length_filter_le _ _

@[simp] theorem length_modify (l : Ladder K V) (k : K) (f : V → V) :
    (l.modify k f).length = l.length := List.length_map _

/-! ### Entries -/

theorem entry_of_least? {l : Ladder K V} {e : K × V} (h : l.least? = some e) :
    e ∈ l.entries := List.mem_of_mem_head? h

theorem entry_of_greatest? {l : Ladder K V} {e : K × V} (h : l.greatest? = some e) :
    e ∈ l.entries := List.mem_of_getLast? h

theorem mem_keys_of_entry {l : Ladder K V} {k : K} {v : V} (h : (k, v) ∈ l.entries) : k ∈ l.keys :=
  List.mem_map_of_mem h

theorem entry_unique {l : Ladder K V} {k : K} {v w : V} (hv : (k, v) ∈ l.entries)
    (hw : (k, w) ∈ l.entries) : v = w := by
  obtain ⟨i, hi, hiv⟩ := List.getElem_of_mem hv
  obtain ⟨j, hj, hjw⟩ := List.getElem_of_mem hw
  have hasc := List.pairwise_iff_getElem.mp l.ascending
  rcases lt_trichotomy i j with hij | rfl | hij
  · have hlt := hasc i j hi hj hij
    simp [hiv, hjw] at hlt
  · rw [hiv] at hjw
    exact (Prod.mk.inj hjw).2
  · have hlt := hasc j i hj hi hij
    simp [hiv, hjw] at hlt

theorem mem_erase {l : Ladder K V} {k : K} {e : K × V} :
    e ∈ (l.erase k).entries ↔ e ∈ l.entries ∧ e.1 ≠ k := by
  simp [erase]

theorem mem_modify {l : Ladder K V} {k : K} {f : V → V} {e : K × V} :
    e ∈ (l.modify k f).entries ↔ ∃ e' ∈ l.entries, modifyEntry k f e' = e := by
  simp [modify]

theorem upsertList_entry {k : K} {f : Option V → V} {es : List (K × V)} {e : K × V}
    (hasc : es.Pairwise (fun a b => a.1 < b.1)) (h : e ∈ upsertList k f es) :
    (e ∈ es ∧ e.1 ≠ k) ∨ (k ∉ es.map Prod.fst ∧ e = (k, f none)) ∨
      ∃ v, (k, v) ∈ es ∧ e = (k, f (some v)) := by
  induction es with
  | nil => exact .inr (.inl (by simpa [upsertList] using h))
  | cons e₀ rest ih =>
    obtain ⟨k₀, v₀⟩ := e₀
    obtain ⟨hhead, htail⟩ := List.pairwise_cons.mp hasc
    unfold upsertList at h
    split_ifs at h with hlt heq
    · have hall : ∀ e' ∈ (k₀, v₀) :: rest, e'.1 ≠ k := by
        intro e' he'
        rcases List.mem_cons.mp he' with rfl | he'
        · exact hlt.ne'
        · exact (hlt.trans (hhead e' he')).ne'
      rcases List.mem_cons.mp h with rfl | h
      · refine .inr (.inl ⟨?_, rfl⟩)
        rintro hk
        obtain ⟨e', he', hek⟩ := List.mem_map.mp hk
        exact hall e' he' hek
      · exact .inl ⟨h, hall e h⟩
    · subst heq
      rcases List.mem_cons.mp h with rfl | h
      · exact .inr (.inr ⟨v₀, by simp, rfl⟩)
      · exact .inl ⟨List.mem_cons_of_mem _ h, (hhead e h).ne'⟩
    · rcases List.mem_cons.mp h with rfl | h
      · exact .inl ⟨by simp, Ne.symm heq⟩
      · rcases ih htail h with ⟨h, hne⟩ | ⟨hk, rfl⟩ | ⟨v, hv, rfl⟩
        · exact .inl ⟨List.mem_cons_of_mem _ h, hne⟩
        · refine .inr (.inl ⟨?_, rfl⟩)
          rw [List.map_cons, List.mem_cons]
          exact not_or.mpr ⟨heq, hk⟩
        · exact .inr (.inr ⟨v, List.mem_cons_of_mem _ hv, rfl⟩)

/-- An entry after `upsert` is an old one at another key, or the one written at `k`. -/
theorem entry_of_upsert {l : Ladder K V} {k : K} {f : Option V → V} {e : K × V}
    (h : e ∈ (l.upsert k f).entries) :
    (e ∈ l.entries ∧ e.1 ≠ k) ∨ (k ∉ l.keys ∧ e = (k, f none)) ∨
      ∃ v, (k, v) ∈ l.entries ∧ e = (k, f (some v)) :=
  upsertList_entry l.ascending h

theorem exists_entry {l : Ladder K V} {k : K} (h : k ∈ l.keys) : ∃ v, (k, v) ∈ l.entries := by
  obtain ⟨⟨k', v⟩, he, rfl⟩ := List.mem_map.mp h
  exact ⟨v, he⟩

/-- The entry at `k` and the entries that erasing `k` leaves make up the whole map. -/
theorem perm_erase {l : Ladder K V} {k : K} {v : V} (h : (k, v) ∈ l.entries) :
    l.entries.Perm ((k, v) :: (l.erase k).entries) := by
  obtain ⟨before, after, hsplit⟩ := List.append_of_mem h
  have hasc := l.ascending
  rw [hsplit, List.pairwise_append] at hasc
  obtain ⟨-, hafter, hbefore⟩ := hasc
  have hl : ∀ e ∈ before, e.1 ≠ k := fun e he => (hbefore e he (k, v) (by simp)).ne
  have hr : ∀ e ∈ after, e.1 ≠ k := fun e he => ((List.pairwise_cons.mp hafter).1 e he).ne'
  have herase : (l.erase k).entries = before ++ after := by
    simp only [erase, hsplit, List.filter_append, List.filter_cons, ne_eq, not_true_eq_false,
      decide_false, Bool.false_eq_true, if_false]
    rw [List.filter_eq_self.mpr (by simpa using fun a b hab => hl (a, b) hab),
      List.filter_eq_self.mpr (by simpa using fun a b hab => hr (a, b) hab)]
  rw [herase, hsplit]
  exact List.perm_middle

/-- In an ordered list an element is among the first `n`, or behind all of them. -/
theorem mem_take_or_after {α : Type} {R : α → α → Prop} {l : List α} (h : l.Pairwise R) (n : ℕ)
    {a : α} (ha : a ∈ l) : a ∈ l.take n ∨ ((l.take n).length = n ∧ ∀ b ∈ l.take n, R b a) := by
  rw [← List.take_append_drop n l] at ha h
  rcases List.mem_append.mp ha with ha | ha
  · exact .inl ha
  · refine .inr ⟨?_, fun b hb => (List.pairwise_append.mp h).2.2 b hb a ha⟩
    have hlen := List.length_pos_of_mem ha
    rw [List.length_drop] at hlen
    rw [List.length_take]
    omega

/-! ### Lookup -/

/-- The value at a key. -/
def get? (l : Ladder K V) (k : K) : Option V := (l.entries.find? (fun e => e.1 = k)).map Prod.snd

theorem get?_eq_some {l : Ladder K V} {k : K} {v : V} :
    l.get? k = some v ↔ (k, v) ∈ l.entries := by
  unfold get?
  constructor
  · intro h
    obtain ⟨⟨k', w⟩, hfind, rfl⟩ := Option.map_eq_some_iff.mp h
    have hk : k' = k := by simpa using List.find?_some hfind
    rw [← hk]
    exact List.mem_of_find?_eq_some hfind
  · intro h
    cases hfind : l.entries.find? (fun e => e.1 = k) with
    | none => simpa using List.find?_eq_none.mp hfind _ h
    | some e =>
      have hk : e.1 = k := by simpa using List.find?_some hfind
      have he : (k, e.2) ∈ l.entries := hk ▸ List.mem_of_find?_eq_some hfind
      rw [Option.map_some, entry_unique h he]

theorem get?_eq_none {l : Ladder K V} {k : K} : l.get? k = none ↔ k ∉ l.keys := by
  constructor
  · intro h hk
    obtain ⟨v, hv⟩ := exists_entry hk
    rw [get?_eq_some.mpr hv] at h
    cases h
  · intro h
    rw [Option.eq_none_iff_forall_ne_some]
    intro v hv
    exact h (mem_keys_of_entry (get?_eq_some.mp hv))

theorem ext_entries {l l' : Ladder K V} (h : l.entries = l'.entries) : l = l' := by
  cases l
  cases l'
  dsimp only at h
  subst h
  rfl

/-- Maps with the same values at every key are equal. -/
theorem ext_get? {l l' : Ladder K V} (h : ∀ k, l.get? k = l'.get? k) : l = l' := by
  have hnodup : ∀ m : Ladder K V, m.entries.Nodup := by
    intro m
    apply m.ascending.imp
    intro a b hab heq
    rw [heq] at hab
    exact lt_irrefl _ hab
  have hperm : l.entries.Perm l'.entries := by
    rw [List.perm_ext_iff_of_nodup (hnodup l) (hnodup l')]
    rintro ⟨k, v⟩
    rw [← get?_eq_some, ← get?_eq_some, h]
  apply ext_entries
  exact hperm.eq_of_pairwise (fun a b _ _ hab hba => absurd hba (not_lt.mpr hab.le)) l.ascending
    l'.ascending

theorem get?_upsert (l : Ladder K V) (k : K) (f : Option V → V) (k' : K) :
    (l.upsert k f).get? k' = if k' = k then some (f (l.get? k)) else l.get? k' := by
  split_ifs with hk
  · subst hk
    obtain ⟨v, hv⟩ := exists_entry (mem_keys_upsert.mpr (.inl rfl) : k' ∈ (l.upsert k' f).keys)
    rw [get?_eq_some.mpr hv]
    rcases entry_of_upsert hv with ⟨-, hne⟩ | ⟨hnew, heq⟩ | ⟨w, hw, heq⟩
    · exact absurd rfl hne
    · rw [get?_eq_none.mpr hnew, (Prod.mk.inj heq).2]
    · rw [get?_eq_some.mpr hw, (Prod.mk.inj heq).2]
  · cases hget : l.get? k' with
    | none =>
      rw [get?_eq_none, mem_keys_upsert]
      exact not_or.mpr ⟨hk, get?_eq_none.mp hget⟩
    | some v =>
      have hkeys : k' ∈ (l.upsert k f).keys :=
        mem_keys_upsert.mpr (.inr (mem_keys_of_entry (get?_eq_some.mp hget)))
      obtain ⟨w, hw⟩ := exists_entry hkeys
      rw [get?_eq_some.mpr hw]
      rcases entry_of_upsert hw with ⟨hold, -⟩ | ⟨-, heq⟩ | ⟨u, -, heq⟩
      · rw [entry_unique hold (get?_eq_some.mp hget)]
      · exact absurd (Prod.mk.inj heq).1 hk
      · exact absurd (Prod.mk.inj heq).1 hk

theorem get?_erase (l : Ladder K V) (k k' : K) :
    (l.erase k).get? k' = if k' = k then none else l.get? k' := by
  split_ifs with hk
  · rw [get?_eq_none, mem_keys_erase]
    exact fun h => h.2 hk
  · apply Option.ext
    intro v
    rw [get?_eq_some, get?_eq_some, mem_erase]
    simp [hk]

/-- Put a value at a key. -/
def insert (l : Ladder K V) (k : K) (v : V) : Ladder K V := l.upsert k (fun _ => v)

theorem get?_insert (l : Ladder K V) (k : K) (v : V) (k' : K) :
    (l.insert k v).get? k' = if k' = k then some v else l.get? k' := get?_upsert l k _ k'

/-- Writes that each give one key its value in `target` lead to `target`, in any order, if every
key that differs is written. -/
theorem foldl_eq_of_writes {α : Type} {target : Ladder K V} {step : Ladder K V → α → Ladder K V}
    {f : α → K} {writes : List α}
    (hstep : ∀ (l : Ladder K V), ∀ a ∈ writes, ∀ k,
      (step l a).get? k = if k = f a then target.get? k else l.get? k)
    {l : Ladder K V} (hcover : ∀ k, l.get? k = target.get? k ∨ ∃ a ∈ writes, f a = k) :
    writes.foldl step l = target := by
  induction writes generalizing l with
  | nil =>
    apply ext_get?
    intro k
    rcases hcover k with h | ⟨a, ha, -⟩
    · exact h
    · cases ha
  | cons a rest ih =>
    rw [List.foldl_cons]
    apply ih (fun l b hb => hstep l b (List.mem_cons_of_mem _ hb))
    intro k
    rw [hstep l a List.mem_cons_self]
    split_ifs with hk
    · exact .inl rfl
    · rcases hcover k with h | ⟨b, hb, hkb⟩
      · exact .inl h
      · rcases List.mem_cons.mp hb with rfl | hb
        · exact absurd hkb.symm hk
        · exact .inr ⟨b, hb, hkb⟩

/-- Updates at two keys commute, and so do updates of one key by commuting functions. -/
theorem upsert_comm (l : Ladder K V) {k k' : K} {f g : Option V → V}
    (h : k = k' → ∀ o, f (some (g o)) = g (some (f o))) :
    (l.upsert k f).upsert k' g = (l.upsert k' g).upsert k f := by
  apply ext_get?
  intro k₀
  simp only [get?_upsert]
  by_cases hkk : k = k'
  · subst hkk
    by_cases hk₀ : k₀ = k
    · simp only [hk₀, if_true]
      rw [h rfl]
    · simp [hk₀]
  · by_cases hk₀ : k₀ = k
    · simp [hk₀, hkk]
    · by_cases hk₀' : k₀ = k'
      · simp [hk₀', Ne.symm hkk]
      · simp [hk₀, hk₀']

theorem erase_modify (l : Ladder K V) (k : K) (f : V → V) :
    (l.modify k f).erase k = l.erase k := by
  apply ext_get?
  intro k'
  rw [get?_erase, get?_erase]
  split_ifs with hk
  · rfl
  · apply Option.ext
    intro v
    rw [get?_eq_some, get?_eq_some, mem_modify]
    constructor
    · rintro ⟨e, he, heq⟩
      have hfst : e.1 = k' := by rw [← modifyEntry_fst k f e, heq]
      have hsame : modifyEntry k f e = e := if_neg (by rwa [hfst])
      rwa [← heq, hsame]
    · intro he
      exact ⟨_, he, if_neg hk⟩

end Ladder

end Nuntius
