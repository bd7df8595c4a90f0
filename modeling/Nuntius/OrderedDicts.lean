import Mathlib.Data.List.AList

/-!
# Dictionaries that remember an order

Python's `OrderedDict`: no key occurs twice, and the entries have an order that assignments keep
and `move_to_end` changes.
-/

namespace Nuntius.OrderedDicts

variable {K V : Type}

abbrev OrderedDict (K V : Type) := AList fun _ : K => V

abbrev Entry (K V : Type) := Σ _ : K, V

theorem nodupKeys_concat {key : K} (value : V) {entries : List (Entry K V)}
    (nodup : entries.NodupKeys) (h : key ∉ entries.keys) :
    (entries ++ [(⟨key, value⟩ : Entry K V)]).NodupKeys := by
  rw [List.nodupKeys_middle, List.append_nil, List.nodupKeys_cons]
  exact ⟨h, nodup⟩

section Entries
variable [DecidableEq K]

theorem kerase_kreplace (key : K) (value : V) (entries : List (Entry K V)) :
    (entries.kreplace key value).kerase key = entries.kerase key := by
  induction entries with
  | nil => rfl
  | cons e rest ih =>
    unfold List.kreplace at ih ⊢
    by_cases h : key = e.1
    · have hnew : List.kerase key ((⟨key, value⟩ : Entry K V) :: rest) = rest :=
        List.kerase_cons_eq rfl
      rw [List.lookmap_cons_some (b := ⟨key, value⟩) (h := by simp [h]), hnew,
        List.kerase_cons_eq h]
    · rw [List.lookmap_cons_none (h := by simp [h]), List.kerase_cons_ne h, List.kerase_cons_ne h,
        ih]

theorem dlookup_kreplace {key : K} {entries : List (Entry K V)} (value : V)
    (h : key ∈ entries.keys) : (entries.kreplace key value).dlookup key = some value := by
  induction entries with
  | nil => simp at h
  | cons e rest ih =>
    unfold List.kreplace at ih ⊢
    by_cases heq : key = e.1
    · rw [List.lookmap_cons_some (b := ⟨key, value⟩) (h := by simp [heq]), List.dlookup_cons_eq]
    · rw [List.keys_cons, List.mem_cons] at h
      rw [List.lookmap_cons_none (h := by simp [heq]), List.dlookup_cons_ne _ _ heq,
        ih (h.resolve_left heq)]

end Entries

/-! ### The operations -/

section Operations
variable [DecidableEq K]

/-- Assignment: a new key goes to the end, a known one keeps its place. -/
def setItem (key : K) (value : V) (d : OrderedDict K V) : OrderedDict K V :=
  if h : key ∈ d then d.replace key value
  else ⟨d.entries ++ [⟨key, value⟩], nodupKeys_concat value d.nodupKeys h⟩

/-- Python raises for an unknown key; here nothing changes. -/
def moveToEnd (key : K) (d : OrderedDict K V) : OrderedDict K V :=
  match d.lookup key with
  | none => d
  | some value => ⟨d.entries.kerase key ++ [⟨key, value⟩],
      nodupKeys_concat value (d.nodupKeys.kerase key) (List.notMem_keys_kerase key d.nodupKeys)⟩

theorem entries_moveToEnd_setItem (key : K) (value : V) (d : OrderedDict K V) :
    (moveToEnd key (setItem key value d)).entries = d.entries.kerase key ++ [⟨key, value⟩] := by
  by_cases h : key ∈ d
  · have hset : setItem key value d = d.replace key value := by rw [setItem, dif_pos h]
    have hlookup : (d.replace key value).lookup key = some value := dlookup_kreplace value h
    rw [hset]
    simp only [moveToEnd, hlookup]
    rw [AList.replace, kerase_kreplace]
  · have hset : (setItem key value d).entries = d.entries ++ [⟨key, value⟩] := by
      rw [setItem, dif_neg h]
    have hlookup : (setItem key value d).lookup key = some value := by
      rw [AList.lookup, hset, List.dlookup_append, List.dlookup_eq_none.mpr h]
      simp
    simp only [moveToEnd, hlookup]
    rw [hset, List.kerase_append_right h, List.kerase_of_notMem_keys h]
    simp

theorem lookup_moveToEnd_setItem (key k : K) (value : V) (d : OrderedDict K V) :
    (moveToEnd key (setItem key value d)).lookup k =
      if k = key then some value else d.lookup k := by
  rw [AList.lookup, entries_moveToEnd_setItem, List.dlookup_append]
  by_cases h : k = key
  · subst h
    rw [List.dlookup_kerase k d.nodupKeys]
    simp
  · rw [List.dlookup_kerase_ne h, if_neg h, List.dlookup_cons_ne _ _ h]
    simp [AList.lookup]

/-- A dictionary that keeps some of the entries. -/
theorem lookup_of_entries_filter {d d' : OrderedDict K V} {p : Entry K V → Bool}
    (h : d'.entries = d.entries.filter p) (key : K) :
    d'.lookup key = (d.lookup key).filter fun value => p ⟨key, value⟩ := by
  ext value
  rw [← Option.mem_def, ← Option.mem_def, AList.mem_lookup_iff, h, List.mem_filter,
    Option.mem_filter_iff, AList.mem_lookup_iff]

/-- The entries with a property. -/
def retain (p : Entry K V → Bool) (d : OrderedDict K V) : OrderedDict K V :=
  ⟨d.entries.filter p, d.nodupKeys.sublist List.filter_sublist⟩

theorem lookup_retain (p : Entry K V → Bool) (d : OrderedDict K V) (key : K) :
    (retain p d).lookup key = (d.lookup key).filter fun value => p ⟨key, value⟩ :=
  lookup_of_entries_filter rfl key

end Operations

/-! ### Dropping entries from the front -/

/-- Pops the first entry as long as it and the number of entries ask for it. -/
def popWhile (p : Entry K V → ℕ → Bool) : List (Entry K V) → List (Entry K V)
  | [] => []
  | e :: rest => if p e (rest.length + 1) then popWhile p rest else e :: rest

theorem popWhile_sublist (p : Entry K V → ℕ → Bool) (entries : List (Entry K V)) :
    (popWhile p entries).Sublist entries := by
  induction entries with
  | nil => exact List.Sublist.refl _
  | cons e rest ih =>
    rw [popWhile]
    split
    · exact ih.cons e
    · exact List.Sublist.refl _

/-- The loop ends at once when there is nothing left or the first entry may stay. -/
theorem popWhile_eq_nil_or (p : Entry K V → ℕ → Bool) (entries : List (Entry K V)) :
    popWhile p entries = [] ∨ ∃ e rest, popWhile p entries = e :: rest ∧
      p e (rest.length + 1) = false := by
  induction entries with
  | nil => exact .inl rfl
  | cons e rest ih =>
    rw [popWhile]
    split
    case isTrue => exact ih
    case isFalse h => exact .inr ⟨e, rest, rfl, by simpa using h⟩

def popItemsWhile (p : Entry K V → ℕ → Bool) (d : OrderedDict K V) : OrderedDict K V :=
  ⟨popWhile p d.entries, d.nodupKeys.sublist (popWhile_sublist p d.entries)⟩

end Nuntius.OrderedDicts
