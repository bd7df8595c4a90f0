import Nuntius.ExactBooks

/-!
# What clearing removes, and the order of its input

Each turn takes the same volume from both sides, up to a residue below `1e-15` that goes with
a level, so the volumes removed from the two sides differ by less than that per level. The
projected maps do not depend on the order of books and levels, and neither does the grid as
long as every tick is large enough for the resolution of its divisor.
-/

namespace Nuntius.ConsolidatedBook
open Aggregator
open OrderBookSnapshot (lift)

/-! ### Volumes -/

section Balance

theorem totalVolume_modify {side : Ladder ℤ ExtRat} {k : ℤ} {q : ℚ}
    (he : (k, .fin q) ∈ side.entries) (v : ℚ) :
    totalVolume (side.modify k (fun old => old - .fin v)) = totalVolume side - v := by
  have hentry : (k, ExtRat.fin (q - v)) ∈ (side.modify k (fun old => old - .fin v)).entries :=
    Ladder.mem_modify.mpr ⟨_, he, by simp [Ladder.modifyEntry]⟩
  rw [totalVolume_erase hentry, Ladder.erase_modify, totalVolume_erase he]
  ring

/-- Taking `v` from a level removes `v`, or the whole level with a residue below `1e-15`. -/
theorem totalVolume_takeVolume {side : Ladder ℤ ExtRat} {k : ℤ} {q v : ℚ}
    (he : (k, .fin q) ∈ side.entries) (hv : v ≤ q) :
    ∃ r, totalVolume side = totalVolume (takeVolume side k (.fin q) (.fin v)) + r ∧
      v ≤ r ∧ r < v + 1e-15 ∧ (v = q → r = v) := by
  by_cases hpart : 1e-15 ≤ q - v
  · rw [takeVolume_part side k hpart, totalVolume_modify he]
    exact ⟨v, by ring, le_rfl, by norm_num, fun _ => rfl⟩
  · have habs : |q - v| = q - v := abs_of_nonneg (by linarith)
    have hdrop : takeVolume side k (.fin q) (.fin v) = side.erase k := by
      simp only [takeVolume, ExtRat.fin_sub, ExtRat.fin_abs, ExtRat.lit_eq, ExtRat.fin_lt, habs]
      exact if_pos (by simpa using hpart)
    rw [hdrop, totalVolume_erase he]
    exact ⟨q, by ring, hv, by linarith, fun heq => heq.symm⟩

/-- The number of levels on both sides. -/
def Sides.levelCount (s : Sides ExtRat) : ℕ := s.bids.length + s.asks.length

/-- How much more bid than ask volume went between two states. -/
def imbalance (s s' : Sides ExtRat) : ℚ :=
  (totalVolume s.bids - totalVolume s'.bids) - (totalVolume s.asks - totalVolume s'.asks)

/-- Nothing happened, or levels went and the imbalance is below `1e-15` for each. -/
def Balanced (s s' : Sides ExtRat) : Prop :=
  s' = s ∨ (s'.levelCount < s.levelCount ∧
    |imbalance s s'| < 1e-15 * ((s.levelCount : ℚ) - s'.levelCount))

theorem Balanced.trans {s s' s'' : Sides ExtRat} (h : Balanced s s') (h' : Balanced s' s'') :
    Balanced s s'' := by
  rcases h with rfl | ⟨hlt, hclose⟩
  · exact h'
  · rcases h' with rfl | ⟨hlt', hclose'⟩
    · exact .inr ⟨hlt, hclose⟩
    · refine .inr ⟨hlt'.trans hlt, ?_⟩
      have hsum : imbalance s s'' = imbalance s s' + imbalance s' s'' := by
        unfold imbalance
        ring
      calc |imbalance s s''| ≤ |imbalance s s'| + |imbalance s' s''| := by
            rw [hsum]
            exact abs_add_le _ _
        _ < 1e-15 * ((s.levelCount : ℚ) - s'.levelCount) +
            1e-15 * ((s'.levelCount : ℚ) - s''.levelCount) := add_lt_add hclose hclose'
        _ = 1e-15 * ((s.levelCount : ℚ) - s''.levelCount) := by ring

/-- One turn: the side that holds less loses exactly what is traded. -/
theorem PositiveSides.balanced_step {s s' : Sides ExtRat} (hs : PositiveSides s)
    (h : ConsolidatedBook.clearStep s = some s') : Balanced s s' := by
  have hlt : s'.levelCount < s.levelCount := hs.length_lt h
  have hcount : (1 : ℚ) ≤ (s.levelCount : ℚ) - s'.levelCount := by
    have : (s'.levelCount : ℚ) + 1 ≤ s.levelCount := by exact_mod_cast hlt
    linarith
  refine .inr ⟨hlt, lt_of_lt_of_le ?_ (le_mul_of_one_le_right (by norm_num) hcount)⟩
  obtain ⟨kb, ka, b, a, hmax, hmin, -, rfl⟩ := hs.clearStep h
  obtain ⟨rb, hbids, hb, hb', hbExact⟩ :=
    totalVolume_takeVolume (Ladder.entry_of_greatest? hmax) (min_le_left b a)
  obtain ⟨ra, hasks, ha, ha', haExact⟩ :=
    totalVolume_takeVolume (Ladder.entry_of_least? hmin) (min_le_right b a)
  have himbalance : imbalance s ⟨takeVolume s.bids kb (.fin b) (.fin (min b a)),
      takeVolume s.asks ka (.fin a) (.fin (min b a))⟩ = rb - ra := by
    rw [imbalance, hbids, hasks]
    ring
  rw [himbalance, abs_lt]
  rcases le_total b a with hba | hab
  · have := hbExact (min_eq_left hba)
    constructor <;> linarith
  · have := haExact (min_eq_right hab)
    constructor <;> linarith

/-- A run of the loop balances, whatever its length. -/
theorem clearCrossing_balanced {s s' : Sides ExtRat} (hs : PositiveSides s)
    (h : clearCrossing s = some s') : Balanced s s' := by
  have hinv := clearLoop_invariant (P := fun t => PositiveSides t ∧ Balanced s t)
    (fun t t' hturn ht => ⟨ht.1.step hturn, ht.2.trans (ht.1.balanced_step hturn)⟩) h
    ⟨hs, .inl rfl⟩
  exact hinv.2

/-- The state is reached from the first one by turns of the loop. -/
abbrev Turns : Sides ExtRat → Sides ExtRat → Prop :=
  Relation.ReflTransGen (fun t t' => clearStep t = some t')

theorem PositiveSides.turns {s t : Sides ExtRat} (hs : PositiveSides s) (h : Turns s t) :
    PositiveSides t := by
  induction h with
  | refl => exact hs
  | tail _ hturn ih => exact ih.step hturn

end Balance

/-! ### Reordered books -/

/-- The same book with its levels in another order. -/
structure SameLevels (b b' : OrderBookSnapshot ℚ) : Prop where
  bids : b.bids.Perm b'.bids
  asks : b.asks.Perm b'.asks
  rest : b' = { b with bids := b'.bids, asks := b'.asks }

/-- The books in another order, with the levels of each in another order. -/
def Reordered (books books' : List (OrderBookSnapshot ℚ)) : Prop :=
  ∃ mid, books.Perm mid ∧ List.Forall₂ SameLevels mid books'

theorem SameLevels.tickSize {b b' : OrderBookSnapshot ℚ} (h : SameLevels b b') :
    b'.tickSize = b.tickSize := by rw [h.rest]

/-- Two levels can be added in either order. -/
theorem addLevel_comm (invGrid : ExtRat) (side : Ladder ℤ ExtRat) (l l' : Level ℚ) :
    addLevel invGrid (addLevel invGrid side l.lift) l'.lift =
      addLevel invGrid (addLevel invGrid side l'.lift) l.lift := by
  unfold addLevel
  cases hl : skipped l.lift with
  | true => simp
  | false =>
    cases hl' : skipped l'.lift with
    | true => simp
    | false =>
      simp only [Bool.false_eq_true, if_false]
      apply Ladder.upsert_comm
      intro _ o
      simp only [Option.getD_some, Level.lift]
      rcases o.getD (F64.lit 0) with _ | _ | _ | q
      · rfl
      · rfl
      · rfl
      · simp only [ExtRat.fin_add]
        rw [add_right_comm]

theorem addLevels_perm (invGrid : ExtRat) {levels levels' : List (Level ℚ)}
    (h : levels.Perm levels') :
    addLevels invGrid .empty (levels.map Level.lift) =
      addLevels invGrid .empty (levels'.map Level.lift) := by
  unfold addLevels
  rw [List.foldl_map, List.foldl_map]
  apply h.foldl_eq'
  intro l _ l' _ side
  exact addLevel_comm invGrid side l l'

variable {books books' : List (OrderBookSnapshot ℚ)}

theorem Reordered.levels_perm (h : Reordered books books')
    {side : OrderBookSnapshot ℚ → List (Level ℚ)}
    (hside : ∀ b b', SameLevels b b' → (side b).Perm (side b')) :
    (books.flatMap side).Perm (books'.flatMap side) := by
  obtain ⟨mid, hperm, hsame⟩ := h
  apply (hperm.flatMap_right side).trans
  clear hperm
  induction hsame with
  | nil => exact List.Perm.refl _
  | cons hb _ ih =>
    rw [List.flatMap_cons, List.flatMap_cons]
    exact (hside _ _ hb).append ih

theorem Reordered.project_eq (h : Reordered books books') (invGrid : ExtRat) :
    project invGrid (books.map lift) = project invGrid (books'.map lift) := by
  have hside : ∀ {side : OrderBookSnapshot ℚ → List (Level ℚ)},
      (∀ b b', SameLevels b b' → (side b).Perm (side b')) →
      addLevels invGrid .empty (books.flatMap fun b => (side b).map Level.lift) =
        addLevels invGrid .empty (books'.flatMap fun b => (side b).map Level.lift) := by
    intro side hperm
    rw [← List.map_flatMap, ← List.map_flatMap]
    exact addLevels_perm invGrid (h.levels_perm hperm)
  have hbids : (project invGrid (books.map lift)).bids =
      (project invGrid (books'.map lift)).bids := by
    rw [project_bids, project_bids, List.flatMap_map, List.flatMap_map]
    exact hside fun _ _ hb => hb.bids
  have hasks : (project invGrid (books.map lift)).asks =
      (project invGrid (books'.map lift)).asks := by
    rw [project_asks, project_asks, List.flatMap_map, List.flatMap_map]
    exact hside fun _ _ hb => hb.asks
  calc project invGrid (books.map lift)
      = ⟨(project invGrid (books.map lift)).bids, (project invGrid (books.map lift)).asks⟩ := rfl
    _ = _ := by rw [hbids, hasks]

/-! ### The grid -/

/-- A tick the grid can resolve: ignored, or at least half a unit of `1e-10`. -/
def ResolvedTick (t : ℚ) : Prop := t ≤ 0 ∨ 5e-11 ≤ t

instance (t : ℚ) : Decidable (ResolvedTick t) := inferInstanceAs (Decidable (_ ∨ _))

theorem unitsOf_lt (x : ExtRat) : unitsOf x < 2 ^ 64 := by
  have hclamp : ∀ z : ℤ, (clamp 0 (2 ^ 64 - 1) z).toNat < 2 ^ 64 := by
    intro z
    unfold clamp
    omega
  unfold unitsOf
  rcases F64.round (x * F64.lit 1e10) with _ | _ | _ | q
  · exact hclamp 0
  · change (0 : ℤ).toNat < _
    norm_num
  · change (2 ^ 64 - 1 : ℤ).toNat < _
    norm_num
  · exact hclamp _

theorem unitsOf_pos {t : ℚ} (h : 5e-11 ≤ t) : 0 < unitsOf (.fin t) := by
  have hround : 1 ≤ roundAway (t * 1e10) := (one_le_roundAway (by linarith)).mpr (by linarith)
  change 0 < (clamp 0 (2 ^ 64 - 1) (truncate (roundAway (t * 1e10) : ℚ))).toNat
  rw [truncate_intCast]
  unfold clamp
  omega

/-- Two books can be folded in either order: with resolved ticks the grid never falls back to
zero. -/
theorem gridStep_comm {b b' : OrderBookSnapshot ℚ} (hb : ResolvedTick b.tickSize)
    (hb' : ResolvedTick b'.tickSize) (g : ExtRat) :
    gridStep (gridStep g b.lift) b'.lift = gridStep (gridStep g b'.lift) b.lift := by
  rcases hb with hb | hb
  · simp only [gridStep_lift_eq, if_pos hb]
  rcases hb' with hb' | hb'
  · simp only [gridStep_lift_eq, if_pos hb']
  have hpos : ¬ b.tickSize ≤ 0 := by linarith
  have hpos' : ¬ b'.tickSize ≤ 0 := by linarith
  have hset : ∀ {t : ℚ}, 5e-11 ≤ t → unset (.fin t) = false := by
    intro t ht
    rw [unset_fin, decide_eq_false_iff_not]
    linarith
  have hgcd : ∀ {t : ℚ}, 5e-11 ≤ t →
      unset (.fin ((unitsOf g).gcd (unitsOf (.fin t)) / 10 ^ 10)) = false ∧
      unitsOf (.fin ((unitsOf g).gcd (unitsOf (.fin t)) / 10 ^ 10)) =
        (unitsOf g).gcd (unitsOf (.fin t)) := by
    intro t ht
    have hunits := unitsOf_pos ht
    have hposGcd := Nat.gcd_pos_of_pos_right (unitsOf g) hunits
    have hlt := (Nat.gcd_le_right (unitsOf g) hunits).trans_lt (unitsOf_lt _)
    refine ⟨?_, (unitsOf_units _).trans (min_eq_left (by omega))⟩
    have hposQ : (0 : ℚ) < ((unitsOf g).gcd (unitsOf (.fin t)) : ℚ) := by exact_mod_cast hposGcd
    rw [unset_fin, decide_eq_false_iff_not]
    positivity
  simp only [gridStep_lift_eq, if_neg hpos, if_neg hpos']
  cases hg : unset g with
  | true =>
    simp only [if_true, hset hb, hset hb', Bool.false_eq_true, if_false]
    rw [Nat.gcd_comm]
  | false =>
    simp only [Bool.false_eq_true, if_false, (hgcd hb).1, (hgcd hb').1, (hgcd hb).2, (hgcd hb').2]
    rw [Nat.gcd_assoc, Nat.gcd_comm (unitsOf (.fin b.tickSize)), ← Nat.gcd_assoc]

theorem Reordered.gridFold_eq (h : Reordered books books')
    (hticks : ∀ b ∈ books, ResolvedTick b.tickSize) (g : ExtRat) :
    (books.map lift).foldl gridStep g = (books'.map lift).foldl gridStep g := by
  obtain ⟨mid, hperm, hsame⟩ := h
  rw [List.foldl_map, List.foldl_map]
  have hfirst : books.foldl (fun g b => gridStep g b.lift) g =
      mid.foldl (fun g b => gridStep g b.lift) g :=
    hperm.foldl_eq' (fun b hb b' hb' g => gridStep_comm (hticks b hb) (hticks b' hb') g) g
  rw [hfirst]
  clear hperm hfirst
  induction hsame generalizing g with
  | nil => rfl
  | cons hb _ ih =>
    rw [List.foldl_cons, List.foldl_cons, gridStep_lift_eq, gridStep_lift_eq, hb.tickSize]
    exact ih _

theorem Reordered.length_eq (h : Reordered books books') : books.length = books'.length := by
  obtain ⟨mid, hperm, hsame⟩ := h
  rw [hperm.length_eq, hsame.length_eq]

/-- The result does not depend on the order of books and levels. -/
theorem Reordered.consolidated_eq (h : Reordered books books')
    (hticks : ∀ b ∈ books, ResolvedTick b.tickSize) :
    consolidatedOrderBook (books.map lift) = consolidatedOrderBook (books'.map lift) := by
  have hgrid : computeCommonGrid (books.map lift) = computeCommonGrid (books'.map lift) := by
    unfold computeCommonGrid
    rw [h.gridFold_eq hticks]
  have hempty : (books.map lift).isEmpty = (books'.map lift).isEmpty := by
    rw [Bool.eq_iff_iff, List.isEmpty_iff_length_eq_zero, List.isEmpty_iff_length_eq_zero,
      List.length_map, List.length_map, h.length_eq]
  unfold consolidatedOrderBook
  simp only [hgrid, h.project_eq, hempty, List.length_map, h.length_eq]

/-- The two maps before clearing, on the program's own grid. -/
def startSides (books : List (OrderBookSnapshot ℚ)) : Sides ExtRat :=
  project (F64.lit 1 / computeCommonGrid (books.map lift)) (books.map lift)

/-- The loop returns after turns that each remove a level; nothing crosses any more; what went
from the two sides balances up to `1e-15` per level; and, if the grid resolves every tick, no
order of books and levels changes the result. -/
theorem clearing_conserves {books : List (OrderBookSnapshot ℚ)}
    (hpos : ∀ b ∈ books, ∀ l ∈ b.levels, 0 < l.price ∧ 0 < l.quantity) :
    (∃ s', clearCrossing (startSides books) = some s' ∧
      (∀ kb ∈ s'.bids.keys, ∀ ka ∈ s'.asks.keys, kb < ka) ∧ Balanced (startSides books) s') ∧
      (∀ t t', Turns (startSides books) t → clearStep t = some t' →
        t'.levelCount < t.levelCount) ∧
      ((∀ b ∈ books, ResolvedTick b.tickSize) → ∀ books', Reordered books books' →
        consolidatedOrderBook (books'.map lift) = consolidatedOrderBook (books.map lift)) := by
  have hsides : PositiveSides (startSides books) :=
    project_lift_positive (fun b hb l hl => (hpos b hb l hl).2) _
  refine ⟨?_, ?_, ?_⟩
  · obtain ⟨s', hs'⟩ := hsides.clearCrossing_returns
    refine ⟨s', hs', ?_, clearCrossing_balanced hsides hs'⟩
    intro kb hkb ka hka
    exact uncrossed_of_clearStep (clearLoop_stops hs') hkb hka
  · intro t t' hturns hturn
    exact (hsides.turns hturns).length_lt hturn
  · intro hticks books' hreordered
    exact (hreordered.consolidated_eq hticks).symm

/-- A book that bids 1 and asks 4. -/
def wideBook (source : String) (tick : ℚ) : OrderBookSnapshot ℚ :=
  ⟨source, "KAS", [⟨1, 1⟩], [⟨4, 1⟩], tick, 1700000000000⟩

/-- Three ticks below the resolution of the divisor: the first two have divisor zero, which the
loop takes for a grid that is still unset, so the last tick becomes the grid. -/
theorem tiny_ticks_depend_on_order :
    Reordered [wideBook "a" 1e-11, wideBook "b" 2e-11, wideBook "c" 3e-11]
        [wideBook "c" 3e-11, wideBook "b" 2e-11, wideBook "a" 1e-11] ∧
      (consolidatedOrderBook ([wideBook "a" 1e-11, wideBook "b" 2e-11, wideBook "c" 3e-11].map
        lift)).map FairValue.price = some (.fin 2.49999999999) ∧
      (consolidatedOrderBook ([wideBook "c" 3e-11, wideBook "b" 2e-11, wideBook "a" 1e-11].map
        lift)).map FairValue.price = some (.fin 2.5) := by
  refine ⟨⟨_, (List.reverse_perm _).symm, ?_⟩, by decide +kernel, by decide +kernel⟩
  have hsame : ∀ b, SameLevels b b := fun b => ⟨List.Perm.refl _, List.Perm.refl _, rfl⟩
  exact .cons (hsame _) (.cons (hsame _) (.cons (hsame _) .nil))

/-- Two crossing books on different ticks. -/
def crossingPair : List (OrderBookSnapshot ℚ) :=
  [wideBook "a" 0.1, ⟨"b", "KAS", [⟨5, 3⟩], [⟨6, 1⟩], 0.01, 1700000000000⟩]

theorem clearing_conserves_pair :
    (∃ s', clearCrossing (startSides crossingPair) = some s' ∧
      (∀ kb ∈ s'.bids.keys, ∀ ka ∈ s'.asks.keys, kb < ka) ∧
      Balanced (startSides crossingPair) s') ∧
      ∀ books', Reordered crossingPair books' →
        consolidatedOrderBook (books'.map lift) =
          consolidatedOrderBook (crossingPair.map lift) := by
  obtain ⟨hcleared, -, horder⟩ := @clearing_conserves crossingPair (by decide +kernel)
  exact ⟨hcleared, horder (by decide +kernel)⟩

end Nuntius.ConsolidatedBook
