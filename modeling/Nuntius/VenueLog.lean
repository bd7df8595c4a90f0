import Nuntius.LocalBook

/-!
# The venue's side of a book

A venue is a log of numbered updates, each a list of level changes, and its book after an update
is what the changes up to it leave. Messages that are true of the log bring a local book that
agrees with the venue at one number to agree with it at another.
-/

namespace Nuntius.Collectors

variable {F : Type} [F64 F] [LinearOrder F]

/-- A number that passes every test for a price or a stored quantity. -/
structure PositiveFloat (x : F) : Prop where
  finite : F64.isFinite x = true
  pos : F64.lt (F64.lit 0) x = true
  not_le : F64.le x (F64.lit 0) = false
  not_neg : F64.lt x (F64.lit 0) = false

/-- A number that passes every test for a quantity of zero. -/
structure ZeroFloat (x : F) : Prop where
  finite : F64.isFinite x = true
  zero : isZero x = true
  not_neg : F64.lt x (F64.lit 0) = false

omit [LinearOrder F] in
theorem PositiveFloat.not_zero {x : F} (h : PositiveFloat x) : isZero x = false := by
  rw [isZero, h.not_le, Bool.false_and]

theorem positiveFloat_fin {q : ℚ} (h : 0 < q) : PositiveFloat (ExtRat.fin q) where
  finite := rfl
  pos := by simpa using h
  not_le := by simpa using h
  not_neg := by simpa using h.le

inductive BookSide where
  | bid
  | ask
  deriving DecidableEq

/-- One level of one side gets a new quantity, or goes. -/
structure LevelChange (F : Type) [F64 F] where
  side : BookSide
  price : F
  quantity : F
  price_pos : PositiveFloat price
  quantity_ok : PositiveFloat quantity ∨ ZeroFloat quantity

/-- The changes of every update, by its number; numbers start at one. -/
structure VenueLog (F : Type) [F64 F] where
  changes : ℕ → List (LevelChange F)

/-! ### The venue's book -/

def applyChange (side : BookSide) (levels : Ladder F F) (c : LevelChange F) : Ladder F F :=
  if c.side = side then
    if isZero c.quantity then levels.erase c.price else levels.insert c.price c.quantity
  else levels

/-- One side of the venue's book after an update. -/
def VenueLog.after (log : VenueLog F) (side : BookSide) : ℕ → Ladder F F
  | 0 => .empty
  | n + 1 => (log.changes (n + 1)).foldl (applyChange side) (log.after side n)

/-- Some update from `first` to `last` changes the level. -/
def VenueLog.Changed (log : VenueLog F) (side : BookSide) (first last : ℕ) (price : F) : Prop :=
  ∃ n, first ≤ n ∧ n ≤ last ∧ ∃ c ∈ log.changes n, c.side = side ∧ c.price = price

theorem get?_applyChange_of_ne {side : BookSide} {levels : Ladder F F} {c : LevelChange F} {p : F}
    (h : c.side = side → c.price ≠ p) : (applyChange side levels c).get? p = levels.get? p := by
  unfold applyChange
  split_ifs with hside hzero
  · rw [Ladder.get?_erase, if_neg (Ne.symm (h hside))]
  · rw [Ladder.get?_insert, if_neg (Ne.symm (h hside))]
  · rfl

theorem get?_foldl_applyChange_of_ne {side : BookSide} {changes : List (LevelChange F)} {p : F}
    (h : ∀ c ∈ changes, c.side = side → c.price ≠ p) (levels : Ladder F F) :
    (changes.foldl (applyChange side) levels).get? p = levels.get? p := by
  induction changes generalizing levels with
  | nil => rfl
  | cons c rest ih =>
    rw [List.foldl_cons, ih (fun c' hc' => h c' (List.mem_cons_of_mem _ hc')),
      get?_applyChange_of_ne (h c List.mem_cons_self)]

/-- A level that no update in between changes stays as it is. -/
theorem VenueLog.get?_after_of_unchanged {log : VenueLog F} {side : BookSide} {m n : ℕ} {p : F}
    (hmn : m ≤ n) (h : ¬ log.Changed side (m + 1) n p) :
    (log.after side n).get? p = (log.after side m).get? p := by
  induction n, hmn using Nat.le_induction with
  | base => rfl
  | succ n hmn ih =>
    have hlast : ∀ c ∈ log.changes (n + 1), c.side = side → c.price ≠ p := by
      intro c hc hside hprice
      exact h ⟨n + 1, by omega, le_rfl, c, hc, hside, hprice⟩
    rw [VenueLog.after, get?_foldl_applyChange_of_ne hlast]
    apply ih
    rintro ⟨k, hk, hkn, hc⟩
    exact h ⟨k, hk, by omega, hc⟩

/-- Every stored level passes the tests for a level. -/
def Storable (levels : Ladder F F) : Prop :=
  ∀ p q, levels.get? p = some q → PositiveFloat p ∧ PositiveFloat q

theorem Storable.applyChange {levels : Ladder F F} (h : Storable levels) (side : BookSide)
    (c : LevelChange F) : Storable (applyChange side levels c) := by
  intro p q hget
  unfold Collectors.applyChange at hget
  split_ifs at hget with hside hzero
  · rw [Ladder.get?_erase] at hget
    split_ifs at hget
    exact h p q hget
  · rw [Ladder.get?_insert] at hget
    split_ifs at hget with hp
    · obtain rfl := Option.some.inj hget
      rcases c.quantity_ok with hq | hq
      · exact ⟨hp ▸ c.price_pos, hq⟩
      · rw [hq.zero] at hzero
        exact absurd rfl hzero
    · exact h p q hget
  · exact h p q hget

theorem VenueLog.after_storable (log : VenueLog F) (side : BookSide) (n : ℕ) :
    Storable (log.after side n) := by
  induction n with
  | zero =>
    intro p q h
    cases h
  | succ n ih =>
    have hfold : ∀ (changes : List (LevelChange F)) (levels : Ladder F F), Storable levels →
        Storable (changes.foldl (applyChange side) levels) := by
      intro changes
      induction changes with
      | nil =>
        intro levels h
        exact h
      | cons c rest ihc =>
        intro levels h
        exact ihc _ (h.applyChange side c)
    exact hfold _ _ ih

/-! ### Messages that are true of the venue's book -/

/-- The row states what the venue's book holds at its price, zero meaning nothing. -/
structure TrueRow (levels : Ladder F F) (row : F × F) : Prop where
  price_pos : PositiveFloat row.1
  quantity : levels.get? row.1 = some row.2 ∨ (levels.get? row.1 = none ∧ ZeroFloat row.2)

/-- A true row sets its level to what the venue's book holds. -/
theorem get?_deltaLevel {target : Ladder F F} (htarget : Storable target) {row : F × F}
    (h : TrueRow target row) (levels : Ladder F F) (p : F) :
    (deltaLevel levels row).get? p = if p = row.1 then target.get? p else levels.get? p := by
  unfold deltaLevel
  rcases h.quantity with hsome | ⟨hnone, hzero⟩
  · have hq := (htarget _ _ hsome).2
    rw [h.price_pos.finite, h.price_pos.not_le, hq.finite, hq.not_neg, hq.not_zero]
    simp only [Bool.not_true, Bool.or_self, Bool.false_eq_true, if_false]
    rw [Ladder.get?_insert]
    split_ifs with hp
    · rw [hp, hsome]
    · rfl
  · rw [h.price_pos.finite, h.price_pos.not_le, hzero.finite, hzero.not_neg, hzero.zero]
    simp only [Bool.not_true, Bool.or_self, Bool.false_eq_true, if_false, if_true]
    rw [Ladder.get?_erase]
    split_ifs with hp
    · rw [hp, hnone]
    · rfl

/-- True rows that cover every level where the book differs bring it to the venue's book. -/
theorem deltaSide_eq {levels target : Ladder F F} (htarget : Storable target)
    {rows : List (F × F)} (htrue : ∀ row ∈ rows, TrueRow target row)
    (hcover : ∀ p, levels.get? p = target.get? p ∨ ∃ q, (p, q) ∈ rows) :
    deltaSide levels rows = target := by
  apply Ladder.foldl_eq_of_writes (f := Prod.fst)
  · intro l row hrow p
    exact get?_deltaLevel htarget (htrue row hrow) l p
  · intro p
    rcases hcover p with h | ⟨q, hq⟩
    · exact .inl h
    · exact .inr ⟨(p, q), hq, rfl⟩

/-- A snapshot that lists the venue's levels is the venue's book. -/
theorem snapshotSide_eq {target : Ladder F F} (htarget : Storable target) {rows : List (F × F)}
    (hrows : ∀ p q, (p, q) ∈ rows ↔ target.get? p = some q) : snapshotSide rows = target := by
  apply Ladder.foldl_eq_of_writes (f := Prod.fst)
  · intro l row hrow p
    have hsome := (hrows row.1 row.2).mp hrow
    obtain ⟨hprice, hq⟩ := htarget _ _ hsome
    unfold snapshotLevel
    rw [hprice.pos, hprice.finite, hq.pos, hq.finite]
    simp only [Bool.and_self, if_true]
    rw [Ladder.get?_insert]
    split_ifs with hp
    · rw [hp, hsome]
    · rfl
  · intro p
    cases h : target.get? p with
    | none => exact .inl rfl
    | some q => exact .inr ⟨(p, q), (hrows p q).mpr h, rfl⟩

end Nuntius.Collectors
