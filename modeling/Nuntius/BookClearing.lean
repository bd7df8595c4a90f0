import Mathlib.Algebra.Order.BigOperators.Group.List
import Nuntius.ConsolidatedBook
import Nuntius.ExactFilters

/-!
# What the crossing loop can and cannot do

A turn only touches the best bid and the best ask, and only while they cross. Levels
outside the crossing range therefore survive every run, and nothing new appears. For
positive finite volumes each turn drops a level, so the loop reaches its `break`.
-/

namespace Nuntius.ConsolidatedBook
open Aggregator

section Keys
variable {F : Type} [F64 F]

theorem mem_takeVolume_keys {side : Ladder ℤ F} {k k' : ℤ} {volume v : F}
    (h : k' ∈ (takeVolume side k volume v).keys) : k' ∈ side.keys := by
  unfold takeVolume at h
  split at h
  · exact (Ladder.mem_keys_erase.mp h).1
  · rwa [Ladder.keys_modify] at h

theorem mem_takeVolume_keys_of_ne {side : Ladder ℤ F} {k k' : ℤ} {volume v : F}
    (h : k' ∈ side.keys) (hne : k' ≠ k) : k' ∈ (takeVolume side k volume v).keys := by
  unfold takeVolume
  split
  · exact Ladder.mem_keys_erase.mpr ⟨h, hne⟩
  · rwa [Ladder.keys_modify]

/-- Everything a turn of the loop does. -/
theorem clearStep_eq_some {s s' : Sides F} (h : clearStep s = some s') :
    ∃ kb vb ka va, s.bids.greatest? = some (kb, vb) ∧ s.asks.least? = some (ka, va) ∧
      ka ≤ kb ∧ s' = ⟨takeVolume s.bids kb vb (F64.min vb va),
        takeVolume s.asks ka va (F64.min vb va)⟩ := by
  unfold clearStep at h
  split at h
  · rename_i kb vb ka va hb ha
    split at h
    · rename_i hle
      exact ⟨kb, vb, ka, va, hb, ha, hle, (Option.some.inj h).symm⟩
    · simp at h
  · simp at h

/-- The loop stops only when no bid reaches an ask. -/
theorem uncrossed_of_clearStep {s : Sides F} (h : clearStep s = none) {kb ka : ℤ}
    (hb : kb ∈ s.bids.keys) (ha : ka ∈ s.asks.keys) : kb < ka := by
  obtain ⟨⟨kb₀, vb⟩, hmax⟩ := Ladder.greatest?_isSome hb
  obtain ⟨⟨ka₀, va⟩, hmin⟩ := Ladder.least?_isSome ha
  have hle := (Ladder.greatest?_eq_some hmax).2 kb hb
  have hge := (Ladder.least?_eq_some hmin).2 ka ha
  simp only [clearStep, hmax, hmin] at h
  split at h
  · simp at h
  · omega

/-- The relation between the sides before and after any number of turns. -/
structure Cleared (s s' : Sides F) : Prop where
  bids_subset : ∀ k ∈ s'.bids.keys, k ∈ s.bids.keys
  asks_subset : ∀ k ∈ s'.asks.keys, k ∈ s.asks.keys
  bids_kept : ∀ k ∈ s.bids.keys, (∀ a ∈ s.asks.keys, k < a) → k ∈ s'.bids.keys
  asks_kept : ∀ k ∈ s.asks.keys, (∀ b ∈ s.bids.keys, b < k) → k ∈ s'.asks.keys

omit [F64 F] in
theorem Cleared.refl (s : Sides F) : Cleared s s :=
  ⟨fun _ h => h, fun _ h => h, fun _ h _ => h, fun _ h _ => h⟩

omit [F64 F] in
theorem Cleared.trans {s s' s'' : Sides F} (h : Cleared s s') (h' : Cleared s' s'') :
    Cleared s s'' where
  bids_subset k hk := h.bids_subset k (h'.bids_subset k hk)
  asks_subset k hk := h.asks_subset k (h'.asks_subset k hk)
  bids_kept k hk hlt :=
    h'.bids_kept k (h.bids_kept k hk hlt) (fun a ha => hlt a (h.asks_subset a ha))
  asks_kept k hk hlt :=
    h'.asks_kept k (h.asks_kept k hk hlt) (fun b hb => hlt b (h.bids_subset b hb))

/-- One turn touches a bid only at a key that some ask does not exceed, and dually. -/
theorem clearStep_cleared {s s' : Sides F} (h : clearStep s = some s') : Cleared s s' := by
  obtain ⟨kb, vb, ka, va, hmax, hmin, hle, rfl⟩ := clearStep_eq_some h
  have hb := (Ladder.greatest?_eq_some hmax).1
  have ha := (Ladder.least?_eq_some hmin).1
  refine ⟨fun k => mem_takeVolume_keys, fun k => mem_takeVolume_keys, ?_, ?_⟩
  · intro k hk hlt
    have := hlt ka ha
    exact mem_takeVolume_keys_of_ne hk (by omega)
  · intro k hk hlt
    have := hlt kb hb
    exact mem_takeVolume_keys_of_ne hk (by omega)

/-- What every turn keeps, every run keeps. -/
theorem clearLoop_invariant {P : Sides F → Prop}
    (hstep : ∀ s s', clearStep s = some s' → P s → P s') {fuel : ℕ} {s s' : Sides F}
    (h : clearLoop fuel s = some s') (hs : P s) : P s' := by
  induction fuel generalizing s with
  | zero =>
    unfold clearLoop at h
    split at h
    · rwa [← Option.some.inj h]
    · simp at h
  | succ fuel ih =>
    unfold clearLoop at h
    split at h
    · rwa [← Option.some.inj h]
    · rename_i s₁ hturn
      exact ih h (hstep s s₁ hturn hs)

/-- A run ends at the `break`. -/
theorem clearLoop_stops {fuel : ℕ} {s s' : Sides F} (h : clearLoop fuel s = some s') :
    clearStep s' = none := by
  induction fuel generalizing s with
  | zero =>
    unfold clearLoop at h
    split at h
    · rename_i hnone
      rw [← Option.some.inj h]
      exact Option.isNone_iff_eq_none.mp hnone
    · simp at h
  | succ fuel ih =>
    unfold clearLoop at h
    split at h
    · rename_i hnone
      rwa [← Option.some.inj h]
    · exact ih h

theorem clearLoop_cleared {fuel : ℕ} {s s' : Sides F} (h : clearLoop fuel s = some s') :
    Cleared s s' :=
  clearLoop_invariant (P := Cleared s) (fun _ _ hturn hs => hs.trans (clearStep_cleared hturn)) h
    (.refl s)

/-! ### The projected maps, as one pass over all levels -/

def addLevels (invGrid : F) (side : Ladder ℤ F) (levels : List (Level F)) : Ladder ℤ F :=
  levels.foldl (addLevel invGrid) side

/-- Adding the books one by one adds all their levels, side by side. -/
theorem foldl_addBook (invGrid : F) (books : List (OrderBookSnapshot F)) (s : Sides F) :
    books.foldl (addBook invGrid) s =
      ⟨addLevels invGrid s.bids (books.flatMap (·.bids)),
        addLevels invGrid s.asks (books.flatMap (·.asks))⟩ := by
  induction books generalizing s with
  | nil => rfl
  | cons b rest ih =>
    rw [List.foldl_cons, ih]
    simp only [List.flatMap_cons, addLevels, List.foldl_append, addBook]

theorem project_bids (invGrid : F) (books : List (OrderBookSnapshot F)) :
    (project invGrid books).bids = addLevels invGrid .empty (books.flatMap (·.bids)) := by
  rw [project, foldl_addBook]

theorem project_asks (invGrid : F) (books : List (OrderBookSnapshot F)) :
    (project invGrid books).asks = addLevels invGrid .empty (books.flatMap (·.asks)) := by
  rw [project, foldl_addBook]

/-- A key occurs exactly when some level that is not skipped has it. -/
theorem mem_addLevels_keys {invGrid : F} {side : Ladder ℤ F} {levels : List (Level F)} {k : ℤ} :
    k ∈ (addLevels invGrid side levels).keys ↔
      k ∈ side.keys ∨ ∃ l ∈ levels, skipped l = false ∧ gridKey invGrid l.price = k := by
  induction levels generalizing side with
  | nil => simp [addLevels]
  | cons l rest ih =>
    change k ∈ (addLevels invGrid (addLevel invGrid side l) rest).keys ↔ _
    rw [ih]
    unfold addLevel
    cases hs : skipped l with
    | true =>
      rw [if_pos rfl]
      simp [hs]
    | false =>
      rw [if_neg (by simp), Ladder.mem_keys_upsert]
      simp only [List.mem_cons, exists_eq_or_imp, hs, true_and, eq_comm (a := k)]
      tauto

end Keys

/-! ### Positive volumes: termination, and a level that cannot run dry -/

section Volumes

/-- Every level holds a positive finite volume. -/
def Positive (side : Ladder ℤ ExtRat) : Prop := ∀ e ∈ side.entries, ∃ q : ℚ, 0 < q ∧ e.2 = .fin q

/-- The total volume of a side. -/
def totalVolume (side : Ladder ℤ ExtRat) : ℚ := (side.entries.map (fun e => e.2.toRat)).sum

theorem totalVolume_nonneg {side : Ladder ℤ ExtRat} (h : Positive side) : 0 ≤ totalVolume side := by
  refine List.sum_nonneg ?_
  intro q hq
  obtain ⟨e, he, rfl⟩ := List.mem_map.mp hq
  obtain ⟨q, hpos, heq⟩ := h e he
  simpa [heq] using hpos.le

theorem totalVolume_erase {side : Ladder ℤ ExtRat} {k : ℤ} {q : ℚ}
    (h : (k, .fin q) ∈ side.entries) : totalVolume side = q + totalVolume (side.erase k) := by
  have hperm := (Ladder.perm_erase h).map (fun e => e.2.toRat)
  simpa [totalVolume] using hperm.sum_eq

theorem Positive.erase {side : Ladder ℤ ExtRat} (h : Positive side) (k : ℤ) :
    Positive (side.erase k) := fun e he => h e (Ladder.mem_erase.mp he).1

theorem Positive.volume_le_total {side : Ladder ℤ ExtRat} (h : Positive side) {k : ℤ} {q : ℚ}
    (he : (k, .fin q) ∈ side.entries) : q ≤ totalVolume side := by
  have hrest := totalVolume_nonneg (h.erase k)
  rw [totalVolume_erase he]
  linarith

theorem takeVolume_all (side : Ladder ℤ ExtRat) (k : ℤ) (q : ℚ) :
    takeVolume side k (.fin q) (.fin q) = side.erase k := by
  simp only [takeVolume, ExtRat.fin_sub, sub_self, ExtRat.fin_abs, abs_zero, ExtRat.lit_eq,
    ExtRat.fin_lt]
  exact if_pos (by norm_num)

theorem takeVolume_part (side : Ladder ℤ ExtRat) (k : ℤ) {q v : ℚ} (h : 1e-15 ≤ q - v) :
    takeVolume side k (.fin q) (.fin v) = side.modify k (fun old => old - .fin v) := by
  have habs : |q - v| = q - v := abs_of_nonneg (le_trans (by norm_num) h)
  simp only [takeVolume, ExtRat.fin_sub, ExtRat.fin_abs, ExtRat.lit_eq, ExtRat.fin_lt, habs]
  exact if_neg (by simpa using h)

/-- Taking at most what a level holds leaves positive volumes. -/
theorem Positive.takeVolume {side : Ladder ℤ ExtRat} (h : Positive side) {k : ℤ} {q v : ℚ}
    (he : (k, .fin q) ∈ side.entries) (hv : v ≤ q) :
    Positive (takeVolume side k (.fin q) (.fin v)) := by
  by_cases hpart : 1e-15 ≤ q - v
  · rw [takeVolume_part side k hpart]
    intro e hmem
    obtain ⟨⟨k', w⟩, he', rfl⟩ := Ladder.mem_modify.mp hmem
    by_cases hk : k' = k
    · subst hk
      obtain rfl := Ladder.entry_unique he he'
      exact ⟨q - v, lt_of_lt_of_le (by norm_num) hpart, by simp [Ladder.modifyEntry]⟩
    · simpa [Ladder.modifyEntry, hk] using h _ he'
  · have habs : |q - v| = q - v := abs_of_nonneg (by linarith)
    have hdrop : ConsolidatedBook.takeVolume side k (.fin q) (.fin v) = side.erase k := by
      simp only [ConsolidatedBook.takeVolume, ExtRat.fin_sub, ExtRat.fin_abs, ExtRat.lit_eq,
        ExtRat.fin_lt, habs]
      exact if_pos (by simpa using hpart)
    rw [hdrop]
    exact h.erase k

/-- Both sides hold positive finite volumes. -/
def PositiveSides (s : Sides ExtRat) : Prop := Positive s.bids ∧ Positive s.asks

/-- A turn on positive volumes, with the volumes named. -/
theorem PositiveSides.clearStep {s s' : Sides ExtRat} (hs : PositiveSides s)
    (h : clearStep s = some s') :
    ∃ kb ka : ℤ, ∃ b a : ℚ, s.bids.greatest? = some (kb, .fin b) ∧
      s.asks.least? = some (ka, .fin a) ∧ ka ≤ kb ∧
      s' = ⟨takeVolume s.bids kb (.fin b) (.fin (min b a)),
        takeVolume s.asks ka (.fin a) (.fin (min b a))⟩ := by
  obtain ⟨kb, vb, ka, va, hmax, hmin, hle, rfl⟩ := clearStep_eq_some h
  obtain ⟨b, -, rfl⟩ := hs.1 _ (Ladder.entry_of_greatest? hmax)
  obtain ⟨a, -, rfl⟩ := hs.2 _ (Ladder.entry_of_least? hmin)
  exact ⟨kb, ka, b, a, hmax, hmin, hle, by simp⟩

theorem PositiveSides.step {s s' : Sides ExtRat} (hs : PositiveSides s)
    (h : ConsolidatedBook.clearStep s = some s') : PositiveSides s' := by
  obtain ⟨kb, ka, b, a, hmax, hmin, -, rfl⟩ := hs.clearStep h
  exact ⟨hs.1.takeVolume (Ladder.entry_of_greatest? hmax) (min_le_left b a),
    hs.2.takeVolume (Ladder.entry_of_least? hmin) (min_le_right b a)⟩

theorem length_takeVolume_le (side : Ladder ℤ ExtRat) (k : ℤ) (volume v : ExtRat) :
    (takeVolume side k volume v).length ≤ side.length := by
  unfold takeVolume
  split
  · exact Ladder.length_erase_le side k
  · exact (Ladder.length_modify side k _).le

/-- The smaller of the two volumes is used up, so a level goes. -/
theorem PositiveSides.length_lt {s s' : Sides ExtRat} (hs : PositiveSides s)
    (h : ConsolidatedBook.clearStep s = some s') :
    s'.bids.length + s'.asks.length < s.bids.length + s.asks.length := by
  obtain ⟨kb, ka, b, a, hmax, hmin, -, rfl⟩ := hs.clearStep h
  rcases le_total b a with hba | hab
  · have hdrop := Ladder.length_erase_lt (Ladder.greatest?_eq_some hmax).1
    have hask := length_takeVolume_le s.asks ka (.fin a) (.fin b)
    simp only [min_eq_left hba, takeVolume_all]
    omega
  · have hdrop := Ladder.length_erase_lt (Ladder.least?_eq_some hmin).1
    have hbid := length_takeVolume_le s.bids kb (.fin b) (.fin a)
    simp only [min_eq_right hab, takeVolume_all]
    omega

/-- On positive finite volumes the loop returns. -/
theorem PositiveSides.clearCrossing_returns {s : Sides ExtRat} (hs : PositiveSides s) :
    ∃ s', clearCrossing s = some s' := by
  have hloop : ∀ fuel (s : Sides ExtRat), PositiveSides s →
      s.bids.length + s.asks.length ≤ fuel → ∃ s', clearLoop fuel s = some s' := by
    intro fuel
    induction fuel with
    | zero =>
      intro s hs hlen
      cases hturn : ConsolidatedBook.clearStep s with
      | none => exact ⟨s, by simp [clearLoop, hturn]⟩
      | some s' => exact absurd (hs.length_lt hturn) (by omega)
    | succ fuel ih =>
      intro s hs hlen
      cases hturn : ConsolidatedBook.clearStep s with
      | none => exact ⟨s, by simp [clearLoop, hturn]⟩
      | some s' =>
        have hlt := hs.length_lt hturn
        simpa [clearLoop, hturn] using ih s' (hs.step hturn) (by omega)
  exact hloop _ s hs le_rfl

/-- The level at `k` holds more than the whole opposite side can take. -/
def Deep (k : ℤ) (deep shallow : Ladder ℤ ExtRat) : Prop :=
  ∃ q : ℚ, (k, .fin q) ∈ deep.entries ∧ 1 + totalVolume shallow ≤ q

/-- Meeting a level of the shallow side uses that level up and leaves the deep one deep. -/
theorem Deep.take {deep shallow : Ladder ℤ ExtRat} (hpos : Positive shallow) {kd ks : ℤ} {q v : ℚ}
    (hd : (kd, .fin q) ∈ deep.entries) (hs : (ks, .fin v) ∈ shallow.entries)
    (hq : 1 + totalVolume shallow ≤ q) :
    Deep kd (takeVolume deep kd (.fin q) (.fin v)) (takeVolume shallow ks (.fin v) (.fin v)) := by
  have hv := hpos.volume_le_total hs
  have htotal := totalVolume_erase hs
  rw [takeVolume_all, takeVolume_part deep kd (by linarith)]
  refine ⟨q - v, Ladder.mem_modify.mpr ⟨_, hd, by simp [Ladder.modifyEntry]⟩, ?_⟩
  linarith

/-- A deep bid above all other bids survives the loop. -/
theorem deepBid_survives {s s' : Sides ExtRat} {k : ℤ} (hs : PositiveSides s)
    (hdeep : Deep k s.bids s.asks) (htop : ∀ b ∈ s.bids.keys, b ≤ k)
    (h : clearCrossing s = some s') : k ∈ s'.bids.keys := by
  let P (t : Sides ExtRat) : Prop :=
    PositiveSides t ∧ Deep k t.bids t.asks ∧ ∀ b ∈ t.bids.keys, b ≤ k
  have hstep : ∀ t t', ConsolidatedBook.clearStep t = some t' → P t → P t' := by
    rintro t t' hturn ⟨hpos, ⟨q, hq, hle⟩, ht⟩
    refine ⟨hpos.step hturn, ?_, fun b hb => ht b ((clearStep_cleared hturn).bids_subset b hb)⟩
    obtain ⟨kb, ka, b, a, hmax, hmin, -, rfl⟩ := hpos.clearStep hturn
    obtain ⟨hkb, hkmax⟩ := Ladder.greatest?_eq_some hmax
    obtain rfl : kb = k := le_antisymm (ht kb hkb) (hkmax k (Ladder.mem_keys_of_entry hq))
    obtain rfl := ExtRat.fin_inj.mp (Ladder.entry_unique hq (Ladder.entry_of_greatest? hmax))
    have hask := Ladder.entry_of_least? hmin
    have hmin' : min q a = a := min_eq_right (by linarith [hpos.2.volume_le_total hask])
    simpa only [hmin'] using Deep.take hpos.2 hq hask hle
  obtain ⟨-, ⟨q, hq, -⟩, -⟩ := clearLoop_invariant hstep h ⟨hs, hdeep, htop⟩
  exact Ladder.mem_keys_of_entry hq

/-- A deep ask below all other asks survives the loop. -/
theorem deepAsk_survives {s s' : Sides ExtRat} {k : ℤ} (hs : PositiveSides s)
    (hdeep : Deep k s.asks s.bids) (hbottom : ∀ a ∈ s.asks.keys, k ≤ a)
    (h : clearCrossing s = some s') : k ∈ s'.asks.keys := by
  let P (t : Sides ExtRat) : Prop :=
    PositiveSides t ∧ Deep k t.asks t.bids ∧ ∀ a ∈ t.asks.keys, k ≤ a
  have hstep : ∀ t t', ConsolidatedBook.clearStep t = some t' → P t → P t' := by
    rintro t t' hturn ⟨hpos, ⟨q, hq, hle⟩, ht⟩
    refine ⟨hpos.step hturn, ?_, fun a ha => ht a ((clearStep_cleared hturn).asks_subset a ha)⟩
    obtain ⟨kb, ka, b, a, hmax, hmin, -, rfl⟩ := hpos.clearStep hturn
    obtain ⟨hka, hkmin⟩ := Ladder.least?_eq_some hmin
    obtain rfl : ka = k := le_antisymm (hkmin k (Ladder.mem_keys_of_entry hq)) (ht ka hka)
    obtain rfl := ExtRat.fin_inj.mp (Ladder.entry_unique hq (Ladder.entry_of_least? hmin))
    have hbid := Ladder.entry_of_greatest? hmax
    have hmin' : min b q = b := min_eq_left (by linarith [hpos.1.volume_le_total hbid])
    simpa only [hmin'] using Deep.take hpos.1 hq hbid hle
  obtain ⟨-, ⟨q, hq, -⟩, -⟩ := clearLoop_invariant hstep h ⟨hs, hdeep, hbottom⟩
  exact Ladder.mem_keys_of_entry hq

/-! ### Volumes of the projected maps -/

theorem positive_empty : Positive .empty := by
  intro e he
  exact absurd he (List.not_mem_nil)

/-- One level adds its quantity at its own key and changes nothing else. -/
theorem entry_of_addLevel {invGrid : ExtRat} {side : Ladder ℤ ExtRat} {l : Level ExtRat}
    (hpos : Positive side) {q : ℚ} (hq : l.quantity = .fin q) (hl : skipped l = false)
    {e : ℤ × ExtRat} (he : e ∈ (addLevel invGrid side l).entries) :
    (e ∈ side.entries ∧ e.1 ≠ gridKey invGrid l.price) ∨
      (gridKey invGrid l.price ∉ side.keys ∧ e = (gridKey invGrid l.price, .fin q)) ∨
      ∃ v : ℚ, 0 < v ∧ (gridKey invGrid l.price, .fin v) ∈ side.entries ∧
        e = (gridKey invGrid l.price, .fin (v + q)) := by
  rw [addLevel, if_neg (by simp [hl])] at he
  rcases Ladder.entry_of_upsert he with h | ⟨hk, rfl⟩ | ⟨v, hv, rfl⟩
  · exact .inl h
  · exact .inr (.inl ⟨hk, by simp [hq]⟩)
  · obtain ⟨v, hvpos, rfl⟩ := hpos _ hv
    exact .inr (.inr ⟨v, hvpos, hv, by simp [hq]⟩)

/-- Finite positive quantities, the only ones a level can have that is not skipped. -/
def FiniteQuantities (levels : List (Level ExtRat)) : Prop :=
  ∀ l ∈ levels, ∃ q : ℚ, 0 < q ∧ l.quantity = .fin q

theorem Positive.addLevel {side : Ladder ℤ ExtRat} (hpos : Positive side) {l : Level ExtRat} {q : ℚ}
    (hq : l.quantity = .fin q) (hqpos : 0 < q) (invGrid : ExtRat) :
    Positive (addLevel invGrid side l) := by
  intro e he
  cases hl : skipped l with
  | true =>
    rw [ConsolidatedBook.addLevel, if_pos hl] at he
    exact hpos e he
  | false =>
    rcases entry_of_addLevel hpos hq hl he with ⟨h, -⟩ | ⟨-, rfl⟩ | ⟨v, hv, -, rfl⟩
    · exact hpos e h
    · exact ⟨q, hqpos, rfl⟩
    · exact ⟨v + q, by linarith, rfl⟩

theorem Positive.addLevels {levels : List (Level ExtRat)} (hlevels : FiniteQuantities levels)
    (invGrid : ExtRat) {side : Ladder ℤ ExtRat} (hpos : Positive side) :
    Positive (addLevels invGrid side levels) := by
  induction levels generalizing side with
  | nil => exact hpos
  | cons l rest ih =>
    obtain ⟨q, hqpos, hq⟩ := hlevels l (by simp)
    exact ih (fun l' hl' => hlevels l' (List.mem_cons_of_mem _ hl'))
      (hpos.addLevel hq hqpos invGrid)

/-- Adding a level never lowers the volume at a key. -/
theorem entry_le_addLevel {side : Ladder ℤ ExtRat} (hpos : Positive side) {l : Level ExtRat} {q : ℚ}
    (hq : l.quantity = .fin q) (hqpos : 0 < q) (invGrid : ExtRat) {k : ℤ} {v : ℚ}
    (he : (k, .fin v) ∈ side.entries) :
    ∃ w, v ≤ w ∧ (k, .fin w) ∈ (addLevel invGrid side l).entries := by
  cases hl : skipped l with
  | true => exact ⟨v, le_rfl, by rwa [addLevel, if_pos hl]⟩
  | false =>
    have hk : k ∈ (addLevel invGrid side l).keys := by
      rw [addLevel, if_neg (by simp [hl]), Ladder.mem_keys_upsert]
      exact .inr (Ladder.mem_keys_of_entry he)
    obtain ⟨w, hw⟩ := Ladder.exists_entry hk
    rcases entry_of_addLevel hpos hq hl hw with ⟨h, -⟩ | ⟨hnew, heq⟩ | ⟨u, -, hu, heq⟩
    · exact ⟨v, le_rfl, Ladder.entry_unique he h ▸ hw⟩
    · obtain ⟨rfl, -⟩ := Prod.mk.inj heq
      exact absurd (Ladder.mem_keys_of_entry he) hnew
    · obtain ⟨rfl, rfl⟩ := Prod.mk.inj heq
      obtain rfl := ExtRat.fin_inj.mp (Ladder.entry_unique he hu)
      exact ⟨v + q, by linarith, hw⟩

theorem entry_le_addLevels {levels : List (Level ExtRat)} (hlevels : FiniteQuantities levels)
    (invGrid : ExtRat) {side : Ladder ℤ ExtRat} (hpos : Positive side) {k : ℤ} {v : ℚ}
    (he : (k, .fin v) ∈ side.entries) :
    ∃ w, v ≤ w ∧ (k, .fin w) ∈ (addLevels invGrid side levels).entries := by
  induction levels generalizing side v with
  | nil => exact ⟨v, le_rfl, he⟩
  | cons l rest ih =>
    obtain ⟨q, hqpos, hq⟩ := hlevels l (by simp)
    obtain ⟨u, hvu, hu⟩ := entry_le_addLevel hpos hq hqpos invGrid he
    obtain ⟨w, huw, hw⟩ := ih (fun l' hl' => hlevels l' (List.mem_cons_of_mem _ hl'))
      (hpos.addLevel hq hqpos invGrid) hu
    exact ⟨w, hvu.trans huw, hw⟩

/-- A level that is not skipped puts at least its quantity at its key. -/
theorem quantity_le_addLevels {levels : List (Level ExtRat)} (hlevels : FiniteQuantities levels)
    (invGrid : ExtRat) {side : Ladder ℤ ExtRat} (hpos : Positive side) {l : Level ExtRat}
    (hmem : l ∈ levels) (hl : skipped l = false) {q : ℚ} (hq : l.quantity = .fin q) :
    ∃ w, q ≤ w ∧ (gridKey invGrid l.price, .fin w) ∈ (addLevels invGrid side levels).entries := by
  induction levels generalizing side with
  | nil => simp at hmem
  | cons l₀ rest ih =>
    obtain ⟨q₀, hqpos, hq₀⟩ := hlevels l₀ (by simp)
    have hrest : FiniteQuantities rest := fun l' hl' => hlevels l' (List.mem_cons_of_mem _ hl')
    have hnext := hpos.addLevel hq₀ hqpos invGrid
    rcases List.mem_cons.mp hmem with rfl | hmem
    · obtain rfl : q = q₀ := ExtRat.fin_inj.mp (hq.symm.trans hq₀)
      have hk : gridKey invGrid l.price ∈ (addLevel invGrid side l).keys := by
        rw [addLevel, if_neg (by simp [hl]), Ladder.mem_keys_upsert]
        exact .inl rfl
      obtain ⟨w, hw⟩ := Ladder.exists_entry hk
      have hge : ∃ u, q ≤ u ∧ w = .fin u := by
        rcases entry_of_addLevel hpos hq hl hw with ⟨-, hne⟩ | ⟨-, heq⟩ | ⟨v, hv, -, heq⟩
        · exact absurd rfl hne
        · exact ⟨q, le_rfl, (Prod.mk.inj heq).2⟩
        · exact ⟨v + q, by linarith, (Prod.mk.inj heq).2⟩
      obtain ⟨u, hqu, rfl⟩ := hge
      obtain ⟨x, hux, hx⟩ := entry_le_addLevels hrest invGrid hnext hw
      exact ⟨x, hqu.trans hux, hx⟩
    · exact ih hrest hnext hmem

end Volumes

end Nuntius.ConsolidatedBook
