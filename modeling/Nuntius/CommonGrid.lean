import Nuntius.ClearingBalance

/-!
# The common grid loses nothing, within the machine integers

The grid is the greatest common divisor of the ticks, in whatever order the books come, and every
price is a whole number of grid steps. Both statements end where a cast saturates: a tick of
`2 ^ 64` units enters the divisor as `u64::MAX`, and all prices beyond `i64::MAX` steps share one
key.
-/

namespace Nuntius.ConsolidatedBook
open OrderBookSnapshot (lift)

/-! ### The Euclidean loop -/

/-- The `while` of `gcd_u64` with a bound on its turns; `none` when the bound runs out first. -/
def euclidLoop : ℕ → ℕ × ℕ → Option ℕ
  | _, (a, 0) => some a
  | 0, (_, _ + 1) => none
  | turns + 1, (a, b + 1) => euclidLoop turns (b + 1, a % (b + 1))

/-- The loop ends: every turn makes the second number smaller. -/
theorem euclidLoop_terminates {turns : ℕ} (a : ℕ) {b : ℕ} (h : b ≤ turns) :
    euclidLoop turns (a, b) = some (gcdU64 a b) := by
  induction turns generalizing a b with
  | zero =>
    obtain rfl := Nat.le_zero.mp h
    rw [euclidLoop, gcdU64_eq, Nat.gcd_zero_right]
  | succ turns ih =>
    cases b with
    | zero => rw [euclidLoop, gcdU64_eq, Nat.gcd_zero_right]
    | succ b =>
      have hlt : a % (b + 1) < b + 1 := Nat.mod_lt a (Nat.succ_pos b)
      rw [euclidLoop, ih (b + 1) (by omega), gcdU64_eq, gcdU64_eq, Nat.gcd_comm a,
        Nat.gcd_rec (b + 1) a, Nat.gcd_comm]

/-! ### Order -/

theorem OnTick.resolved {b : OrderBookSnapshot ℚ} (hb : OnTick b) : ResolvedTick b.tickSize := by
  obtain ⟨k, hk, htick⟩ := hb.tick
  have hone : (1 : ℚ) ≤ k := by exact_mod_cast hk
  right
  rw [htick, le_div_iff₀ (by norm_num)]
  norm_num
  linarith

/-- No bound on the ticks is needed for this. -/
theorem computeCommonGrid_perm {books books' : List (OrderBookSnapshot ℚ)}
    (hbooks : ∀ b ∈ books, OnTick b) (hperm : books.Perm books') :
    computeCommonGrid (books.map lift) = computeCommonGrid (books'.map lift) := by
  have hfold : books.foldl (fun g b => gridStep g b.lift) (F64.lit 0) =
      books'.foldl (fun g b => gridStep g b.lift) (F64.lit 0) :=
    hperm.foldl_eq' (fun b hb b' hb' g =>
      gridStep_comm (hbooks b hb).resolved (hbooks b' hb').resolved g) _
  unfold computeCommonGrid
  rw [List.foldl_map, List.foldl_map, hfold]

/-! ### Prices and keys -/

/-- Some book quotes the price, on whichever side. -/
def QuotedPrice (books : List (OrderBookSnapshot ℚ)) (p : ℚ) : Prop :=
  ∃ b ∈ books, ∃ l ∈ b.levels, l.price = p

theorem grid_divides_tick {books : List (OrderBookSnapshot ℚ)} {b : OrderBookSnapshot ℚ}
    (hticks : OnTick b) (hb : b ∈ books) : ∃ m : ℕ, b.tickSize = m * grid books := by
  obtain ⟨m, hm⟩ := gridUnits_dvd hb
  refine ⟨m, ?_⟩
  rw [hticks.tickSize_eq.1, hm, grid]
  push_cast
  ring

theorem gridKey_strict {g : ℚ} (hg : 0 < g) {z z' : ℤ} (hlo : i64Min ≤ z) (hhi : z' ≤ i64Max)
    (h : z < z') :
    gridKey (ExtRat.fin (1 / g)) (.fin (z * g)) < gridKey (ExtRat.fin (1 / g)) (.fin (z' * g)) := by
  rw [gridKey_of_steps hg hlo (by omega), gridKey_of_steps hg (by omega) hhi]
  exact h

/-- The key that `consolidated_order_book` gives to a price. -/
def keyOf (books : List (OrderBookSnapshot ℚ)) (p : ℚ) : ℤ :=
  gridKey (F64.lit 1 / computeCommonGrid (books.map lift)) (.fin p)

/-- The grid does not depend on the order of the books and its loop ends. If the ticks are
below `2 ^ 64` units, the grid divides each of them and every price, and prices whose number of
steps is an `i64` keep their order and their distinctness as keys. -/
theorem grid_projection_lossless {books : List (OrderBookSnapshot ℚ)} (hne : books ≠ [])
    (hbooks : ∀ b ∈ books, OnTick b) :
    (∀ books', books.Perm books' →
      computeCommonGrid (books'.map lift) = computeCommonGrid (books.map lift)) ∧
    (∀ a b : ℕ, euclidLoop b (a, b) = some (gcdU64 a b)) ∧
    ((∀ b ∈ books, tickUnits b < 2 ^ 64) →
      ∃ g : ℚ, 0 < g ∧ computeCommonGrid (books.map lift) = .fin g ∧
        (∀ b ∈ books, ∃ m : ℕ, b.tickSize = m * g) ∧
        (∀ p, QuotedPrice books p → ∃ z : ℤ, p = z * g ∧
          (i64Min ≤ z → z ≤ i64Max → keyOf books p = z)) ∧
        (∀ p q, QuotedPrice books p → QuotedPrice books q → i64Min * g ≤ p → q ≤ i64Max * g →
          p < q → keyOf books p < keyOf books q) ∧
        (∀ p q, p ≤ q → keyOf books p ≤ keyOf books q)) := by
  refine ⟨fun books' hperm => (computeCommonGrid_perm hbooks hperm).symm,
    fun a b => euclidLoop_terminates a (Nat.le_refl b), ?_⟩
  intro hfit
  have hg := grid_pos hbooks hne
  have hgrid := computeCommonGrid_lift hbooks hne hfit
  have hkey : ∀ p, keyOf books p = gridKey (ExtRat.fin (1 / grid books)) (.fin p) := by
    intro p
    rw [keyOf, hgrid, ExtRat.lit_eq, ExtRat.fin_div 1 hg.ne']
  have hsteps : ∀ p, QuotedPrice books p → ∃ z : ℤ, p = z * grid books := by
    rintro p ⟨b, hb, l, hl, rfl⟩
    exact (hbooks b hb).on_grid hb hl
  refine ⟨grid books, hg, hgrid, fun b hb => grid_divides_tick (hbooks b hb) hb, ?_, ?_, ?_⟩
  · intro p hp
    obtain ⟨z, rfl⟩ := hsteps p hp
    refine ⟨z, rfl, ?_⟩
    intro hlo hhi
    rw [hkey]
    exact gridKey_of_steps hg hlo hhi
  · intro p q hp hq hlo hhi hlt
    obtain ⟨z, rfl⟩ := hsteps p hp
    obtain ⟨z', rfl⟩ := hsteps q hq
    rw [mul_le_mul_iff_of_pos_right hg, Int.cast_le] at hlo hhi
    rw [mul_lt_mul_iff_of_pos_right hg, Int.cast_lt] at hlt
    rw [hkey, hkey]
    exact gridKey_strict hg hlo hhi hlt
  · intro p q h
    rw [hkey, hkey]
    exact gridKey_mono (one_div_pos.mpr hg).le h

/-- A book with two bids on its tick. -/
def twoBids (tick : ℚ) (high low : ℤ) : OrderBookSnapshot ℚ :=
  ⟨"okx", "KAS", [⟨high * tick, 1⟩, ⟨low * tick, 1⟩], [], tick, 1000⟩

theorem twoBids_onTick {k : ℕ} (hk : 0 < k) (high low : ℤ) :
    OnTick (twoBids (k / 10 ^ 10) high low) := by
  refine ⟨⟨k, hk, rfl⟩, ?_⟩
  intro l hl
  rcases List.mem_cons.mp hl with rfl | hl
  · exact ⟨high, rfl⟩
  · obtain rfl := List.mem_singleton.mp hl
    exact ⟨low, rfl⟩

theorem tickUnits_twoBids (k : ℕ) (high low : ℤ) :
    tickUnits (twoBids (k / 10 ^ 10) high low) = k := by
  have hprod : (k / 10 ^ 10 : ℚ) * 10 ^ 10 = (k : ℤ) := by
    push_cast
    field_simp
  rw [tickUnits, twoBids, hprod, Int.floor_intCast, Int.toNat_natCast]

/-- Ticks of a cent and of half a cent. -/
theorem grid_projection_lossless_demo :
    ∃ g : ℚ, 0 < g ∧
      computeCommonGrid [(twoBids ((10 ^ 8 : ℕ) / 10 ^ 10) 5 4).lift,
        (twoBids ((5 * 10 ^ 7 : ℕ) / 10 ^ 10) 9 8).lift] = .fin g ∧
      ∃ m n : ℕ, ((10 ^ 8 : ℕ) / 10 ^ 10 : ℚ) = m * g ∧
        ((5 * 10 ^ 7 : ℕ) / 10 ^ 10 : ℚ) = n * g := by
  have hbooks := List.forall_mem_cons.mpr ⟨twoBids_onTick (by norm_num : 0 < 10 ^ 8) 5 4,
    List.forall_mem_singleton.mpr (twoBids_onTick (by norm_num : 0 < 5 * 10 ^ 7) 9 8)⟩
  have hfit : ∀ b ∈ [twoBids ((10 ^ 8 : ℕ) / 10 ^ 10) 5 4,
      twoBids ((5 * 10 ^ 7 : ℕ) / 10 ^ 10) 9 8], tickUnits b < 2 ^ 64 := by
    rw [List.forall_mem_cons, List.forall_mem_singleton, tickUnits_twoBids, tickUnits_twoBids]
    norm_num
  obtain ⟨g, hg, hgrid, hdvd, -⟩ :=
    (grid_projection_lossless (List.cons_ne_nil _ _) hbooks).2.2 hfit
  obtain ⟨m, hm⟩ := hdvd _ List.mem_cons_self
  obtain ⟨n, hn⟩ := hdvd _ (List.mem_cons_of_mem _ List.mem_cons_self)
  exact ⟨g, hg, hgrid, m, n, hm, hn⟩

/-! ### Where the casts saturate -/

theorem gridKey_saturated {g : ℚ} (hg : 0 < g) {z : ℤ} (h : i64Max ≤ z) :
    gridKey (ExtRat.fin (1 / g)) (.fin (z * g)) = i64Max := by
  have hz : (0 : ℚ) ≤ z := by exact_mod_cast (le_trans (by decide) h : 0 ≤ z)
  rw [gridKey_of_nonneg hg (mul_nonneg hz hg.le), mul_div_cancel_right₀ _ hg.ne',
    roundAway_intCast, min_eq_left h]

theorem OnTick.tick_pos {b : OrderBookSnapshot ℚ} (hb : OnTick b) : 0 < b.tickSize := by
  obtain ⟨k, hk, htick⟩ := hb.tick
  have hkQ : (0 : ℚ) < k := by exact_mod_cast hk
  rw [htick]
  positivity

/-- The first book sets the grid to its tick, whatever its size. -/
theorem OnTick.gridStep_first {b : OrderBookSnapshot ℚ} (hb : OnTick b) :
    gridStep (.fin 0) b.lift = .fin b.tickSize := by
  rw [gridStep_lift_eq, if_neg (not_le.mpr hb.tick_pos), unset_fin, if_pos (by decide)]

theorem OnTick.computeCommonGrid_single {b : OrderBookSnapshot ℚ} (hb : OnTick b) :
    computeCommonGrid [b.lift] = .fin b.tickSize := by
  unfold computeCommonGrid
  rw [List.foldl_cons, List.foldl_nil, ExtRat.lit_eq, hb.gridStep_first]
  exact if_neg (by simpa [ExtRat.fin_le] using hb.tick_pos)

/-- All prices from `i64::MAX` steps on have one key. -/
theorem OnTick.keyOf_saturated {b : OrderBookSnapshot ℚ} (hb : OnTick b) {z : ℤ} (h : i64Max ≤ z) :
    keyOf [b] (z * b.tickSize) = i64Max := by
  have hgrid : computeCommonGrid ([b].map lift) = .fin b.tickSize :=
    hb.computeCommonGrid_single
  rw [keyOf, hgrid, ExtRat.lit_eq, ExtRat.fin_div 1 hb.tick_pos.ne']
  exact gridKey_saturated hb.tick_pos h

/-- Two books with one large tick: the grid is `u64::MAX` units. -/
theorem OnTick.computeCommonGrid_saturated {b : OrderBookSnapshot ℚ} (hb : OnTick b)
    (h : 2 ^ 64 ≤ tickUnits b) :
    computeCommonGrid [b.lift, b.lift] = .fin ((2 ^ 64 - 1 : ℕ) / 10 ^ 10) := by
  have hset : unset (.fin b.tickSize) = false := by
    rw [unset_fin, decide_eq_false_iff_not]
    exact hb.tick_pos.ne'
  have hunits : unitsOf (.fin b.tickSize) = 2 ^ 64 - 1 := by
    rw [hb.tickSize_eq.1, unitsOf_units, min_eq_right (by omega)]
  have hsecond : gridStep (.fin b.tickSize) b.lift = .fin ((2 ^ 64 - 1 : ℕ) / 10 ^ 10) := by
    rw [gridStep_lift_eq, if_neg (not_le.mpr hb.tick_pos), hset, if_neg Bool.false_ne_true, hunits,
      Nat.gcd_self]
  unfold computeCommonGrid
  rw [List.foldl_cons, List.foldl_cons, List.foldl_nil, ExtRat.lit_eq, hb.gridStep_first, hsecond]
  exact if_neg (by norm_num [ExtRat.fin_le])

/-- Prices of one and two thousand million on a tick of `1e-10` share a key; and two ticks of two
and a half thousand million have a grid that does not divide them. -/
theorem saturated_casts_lose_prices :
    (∃ books, books ≠ [] ∧ (∀ b ∈ books, OnTick b) ∧
      ∃ p q, QuotedPrice books p ∧ QuotedPrice books q ∧ p < q ∧ keyOf books p = keyOf books q) ∧
    (∃ books, books ≠ [] ∧ (∀ b ∈ books, OnTick b) ∧
      ∃ b ∈ books, ∃ g, computeCommonGrid (books.map lift) = .fin g ∧
        ¬∃ m : ℤ, b.tickSize = m * g) := by
  constructor
  · have hon := twoBids_onTick Nat.one_pos (2 * 10 ^ 19) (10 ^ 19)
    refine ⟨_, List.cons_ne_nil _ [], List.forall_mem_singleton.mpr hon, _, _,
      ⟨_, List.mem_singleton_self _, _, List.mem_cons_of_mem _ List.mem_cons_self, rfl⟩,
      ⟨_, List.mem_singleton_self _, _, List.mem_cons_self, rfl⟩, ?_, ?_⟩
    · exact mul_lt_mul_of_pos_right (by norm_num) hon.tick_pos
    · exact (hon.keyOf_saturated (by decide)).trans (hon.keyOf_saturated (by decide)).symm
  · have hon := twoBids_onTick (by norm_num : 0 < 25 * 10 ^ 18) 2 1
    have hunits := tickUnits_twoBids (25 * 10 ^ 18) 2 1
    have hboth := List.forall_mem_cons.mpr ⟨hon, List.forall_mem_singleton.mpr hon⟩
    refine ⟨_, List.cons_ne_nil _ _, hboth, _, List.mem_cons_self, _,
      hon.computeCommonGrid_saturated (by rw [hunits]; norm_num), ?_⟩
    rintro ⟨m, hm⟩
    have hm' : (25 * 10 ^ 18 : ℚ) = m * (2 ^ 64 - 1) := by
      rw [hon.tickSize_eq.1, hunits] at hm
      norm_num at hm ⊢
      linarith
    have hint : (25 * 10 ^ 18 : ℤ) = m * (2 ^ 64 - 1) := by exact_mod_cast hm'
    omega

end Nuntius.ConsolidatedBook
