import Nuntius.BookClearing

/-!
# Order books with exact prices

Books over the rationals, read by the program through exact arithmetic. As long as no
tick and no grid key leaves its machine integer, projecting onto the common grid loses
nothing: keys stand for prices, and what clearing does to keys it does to prices.
-/

namespace Nuntius.ConsolidatedBook
open Aggregator

def Level.lift (l : Level ℚ) : Level ExtRat := ⟨.fin l.price, .fin l.quantity⟩

def OrderBookSnapshot.lift (b : OrderBookSnapshot ℚ) : OrderBookSnapshot ExtRat where
  source := b.source
  baseAsset := b.baseAsset
  bids := b.bids.map Level.lift
  asks := b.asks.map Level.lift
  tickSize := .fin b.tickSize
  exchangeTimestampMs := b.exchangeTimestampMs

open OrderBookSnapshot (lift)

/-- Every level of a book. -/
def OrderBookSnapshot.levels (b : OrderBookSnapshot ℚ) : List (Level ℚ) := b.bids ++ b.asks

/-- A usable book, best levels first, with positive quantities, a dated snapshot and prices
on its own tick, the tick being a positive multiple of `1e-10`. -/
structure ExactBook (b : OrderBookSnapshot ℚ) : Prop where
  usable : isBookUsable b.lift = true
  bids_sorted : b.bids.Pairwise (fun l l' => l'.price ≤ l.price)
  asks_sorted : b.asks.Pairwise (fun l l' => l.price ≤ l'.price)
  quantity_pos : ∀ l ∈ b.levels, 0 < l.quantity
  dated : 1000 ≤ b.exchangeTimestampMs
  tick : ∃ k : ℕ, 0 < k ∧ b.tickSize = k / 10 ^ 10
  on_tick : ∀ l ∈ b.levels, ∃ z : ℤ, l.price = z * b.tickSize

/-- What the grid asks of a book: prices on its own tick, and a tick that is a positive multiple
of `1e-10`. -/
structure OnTick (b : OrderBookSnapshot ℚ) : Prop where
  tick : ∃ k : ℕ, 0 < k ∧ b.tickSize = k / 10 ^ 10
  on_tick : ∀ l ∈ b.levels, ∃ z : ℤ, l.price = z * b.tickSize

variable {books : List (OrderBookSnapshot ℚ)}

theorem onTick_of_exact (hbooks : ∀ b ∈ books, ExactBook b) :
    ∀ b ∈ books, OnTick b := fun b hb => ⟨(hbooks b hb).tick, (hbooks b hb).on_tick⟩

/-- The tick in units of `1e-10`. -/
def tickUnits (b : OrderBookSnapshot ℚ) : ℕ := ⌊b.tickSize * 10 ^ 10⌋.toNat

/-- The common grid in units of `1e-10`. -/
def gridUnits (books : List (OrderBookSnapshot ℚ)) : ℕ :=
  books.foldl (fun g b => g.gcd (tickUnits b)) 0

def grid (books : List (OrderBookSnapshot ℚ)) : ℚ := gridUnits books / 10 ^ 10

/-- No tick and no grid key is out of range. -/
structure KeysFit (books : List (OrderBookSnapshot ℚ)) : Prop where
  ticks : ∀ b ∈ books, tickUnits b < 2 ^ 64
  keys : ∀ b ∈ books, ∀ l ∈ b.levels, l.price ≤ i64Max * grid books

/-- The first entry of a sorted list is related to every entry. -/
theorem head_rel_of_pairwise {α : Type} {r : α → α → Prop} {xs : List α} (h : xs.Pairwise r)
    {first x : α} (hhead : xs.head? = some first) (hx : x ∈ xs) (hrefl : ∀ a, r a a) :
    r first x := by
  cases xs with
  | nil => cases hx
  | cons y rest =>
    obtain rfl := Option.some.inj hhead
    rcases List.mem_cons.mp hx with rfl | hx
    · exact hrefl x
    · exact (List.pairwise_cons.mp h).1 x hx

/-! ### The grid -/

theorem gcdU64_eq (a b : ℕ) : gcdU64 a b = a.gcd b := by
  induction a, b using gcdU64.induct with
  | case1 a => rw [gcdU64]; simp
  | case2 a b h ih =>
    rw [gcdU64, dif_neg h, ih, Nat.gcd_comm a b, Nat.gcd_rec b a, Nat.gcd_comm]

theorem roundAway_natCast (n : ℕ) : roundAway (n : ℚ) = n := by
  exact_mod_cast roundAway_intCast (n : ℤ)

/-- A grid value in units of `1e-10`, as the program casts it. -/
def unitsOf (x : ExtRat) : ℕ := F64.asUnsigned 64 (F64.round (x * F64.lit 1e10))

theorem unitsOf_units (n : ℕ) : unitsOf (.fin (n / 10 ^ 10)) = min n (2 ^ 64 - 1) := by
  have hscale : (n : ℚ) / 10 ^ 10 * 1e10 = n := by norm_num
  have hcast : truncate (n : ℚ) = (n : ℤ) := by exact_mod_cast truncate_intCast (n : ℤ)
  rw [unitsOf, ExtRat.lit_eq, ExtRat.fin_mul, hscale, ExtRat.fin_round, roundAway_natCast]
  change (clamp 0 (2 ^ 64 - 1) (truncate ((n : ℤ) : ℚ))).toNat = _
  rw [Int.cast_natCast, hcast, clamp]
  omega

theorem gcdF64_eq (x y : ExtRat) :
    gcdF64 x y = .fin ((unitsOf x).gcd (unitsOf y) / 10 ^ 10) := by
  have hscale : (1e10 : ℚ) = 10 ^ 10 := by norm_num
  unfold gcdF64
  simp only [gcdU64_eq, ExtRat.lit_eq]
  rw [← hscale]
  exact ExtRat.fin_div _ (by norm_num)

/-- Is the grid still unset? -/
def unset (g : ExtRat) : Bool := F64.le g (F64.lit 0) && F64.le (F64.lit 0) g

theorem unset_fin (q : ℚ) : unset (.fin q) = decide (q = 0) := by
  unfold unset
  rw [ExtRat.lit_eq, ExtRat.fin_le, ExtRat.fin_le, ← Bool.decide_and]
  exact decide_eq_decide.mpr le_antisymm_iff.symm

theorem gridStep_lift_eq (g : ExtRat) (b : OrderBookSnapshot ℚ) :
    gridStep g b.lift = if b.tickSize ≤ 0 then g else if unset g then .fin b.tickSize
      else .fin ((unitsOf g).gcd (unitsOf (.fin b.tickSize)) / 10 ^ 10) := by
  unfold gridStep
  rw [gcdF64_eq]
  have htick : F64.le b.lift.tickSize (F64.lit 0) = decide (b.tickSize ≤ 0) := ExtRat.fin_le _ _
  rw [htick]
  simp only [decide_eq_true_eq]
  rfl

theorem OnTick.tickSize_eq {b : OrderBookSnapshot ℚ} (hb : OnTick b) :
    b.tickSize = tickUnits b / 10 ^ 10 ∧ 0 < tickUnits b := by
  obtain ⟨k, hk, htick⟩ := hb.tick
  have hunits : tickUnits b = k := by
    have hprod : b.tickSize * 10 ^ 10 = (k : ℤ) := by
      rw [htick]
      push_cast
      field_simp
    rw [tickUnits, hprod, Int.floor_intCast, Int.toNat_natCast]
  rw [hunits]
  exact ⟨htick, hk⟩

/-- One turn of the grid loop is one `gcd` on units. -/
theorem gridStep_lift {b : OrderBookSnapshot ℚ} (hb : OnTick b) (g : ℕ) :
    gridStep (.fin (g / 10 ^ 10)) b.lift = .fin ((if g = 0 then tickUnits b else
      (min g (2 ^ 64 - 1)).gcd (min (tickUnits b) (2 ^ 64 - 1)) : ℕ) / 10 ^ 10) := by
  obtain ⟨htick, hpos⟩ := hb.tickSize_eq
  have hposQ : (0 : ℚ) < tickUnits b := by exact_mod_cast hpos
  have htickpos : ¬ b.tickSize ≤ 0 := by
    rw [htick, not_le]
    positivity
  rw [gridStep_lift_eq, if_neg htickpos, unset_fin]
  by_cases hzero : g = 0
  · simp [hzero, htick]
  · rw [if_neg (by simpa using hzero), if_neg hzero, htick, unitsOf_units, unitsOf_units]

section Grid

theorem dvd_gridFold {g d : ℕ} :
    d ∣ books.foldl (fun g b => g.gcd (tickUnits b)) g ↔ d ∣ g ∧ ∀ b ∈ books, d ∣ tickUnits b := by
  induction books generalizing g with
  | nil => simp
  | cons b rest ih =>
    rw [List.foldl_cons, ih, Nat.dvd_gcd_iff]
    simp [and_assoc]

/-- The grid is the greatest common divisor of the ticks. -/
theorem dvd_gridUnits {d : ℕ} : d ∣ gridUnits books ↔ ∀ b ∈ books, d ∣ tickUnits b := by
  simp [gridUnits, dvd_gridFold]

theorem gridUnits_dvd {b : OrderBookSnapshot ℚ} (hb : b ∈ books) :
    gridUnits books ∣ tickUnits b := dvd_gridUnits.mp dvd_rfl b hb

theorem OnTick.on_grid {b : OrderBookSnapshot ℚ} (hb : OnTick b) (hmem : b ∈ books) {l : Level ℚ}
    (hl : l ∈ b.levels) : ∃ z : ℤ, l.price = z * grid books := by
  obtain ⟨z, hz⟩ := hb.on_tick l hl
  obtain ⟨m, hm⟩ := gridUnits_dvd hmem
  refine ⟨z * m, ?_⟩
  rw [hz, hb.tickSize_eq.1, hm, grid]
  push_cast
  ring

/-- The loop ends at a number of units that no tick it has seen is below. Where no cast
saturates, it is their divisor. -/
theorem gridFold_lift (hbooks : ∀ b ∈ books, OnTick b) (g : ℕ) :
    ∃ g' : ℕ, (books.map lift).foldl gridStep (.fin (g / 10 ^ 10)) =
        .fin (g' / 10 ^ 10) ∧ (∀ b ∈ books, 0 < g' ∧ g' ≤ tickUnits b) ∧
      (g ≠ 0 → 0 < g' ∧ g' ≤ g) ∧
      (g < 2 ^ 64 → (∀ b ∈ books, tickUnits b < 2 ^ 64) →
        g' = books.foldl (fun g b => g.gcd (tickUnits b)) g) := by
  induction books generalizing g with
  | nil => exact ⟨g, rfl, by simp, fun hg => ⟨Nat.pos_of_ne_zero hg, le_rfl⟩, fun _ _ => rfl⟩
  | cons b rest ih =>
    have htick := (hbooks b (by simp)).tickSize_eq.2
    rw [List.map_cons, List.foldl_cons, gridStep_lift (hbooks b (by simp))]
    generalize hturn : (if g = 0 then tickUnits b else
      (min g (2 ^ 64 - 1)).gcd (min (tickUnits b) (2 ^ 64 - 1))) = turn
    have hle : 0 < turn ∧ turn ≤ tickUnits b ∧ (g ≠ 0 → turn ≤ g) := by
      rw [← hturn]
      split_ifs with hzero
      · exact ⟨htick, le_rfl, fun h => absurd hzero h⟩
      · have hg : 0 < min g (2 ^ 64 - 1) := by omega
        have ht : 0 < min (tickUnits b) (2 ^ 64 - 1) := by omega
        exact ⟨Nat.gcd_pos_of_pos_left _ hg, (Nat.gcd_le_right _ ht).trans (min_le_left _ _),
          fun _ => (Nat.gcd_le_left _ hg).trans (min_le_left _ _)⟩
    have hgcd : g < 2 ^ 64 → tickUnits b < 2 ^ 64 → turn = g.gcd (tickUnits b) := by
      intro hg ht
      rw [← hturn]
      split_ifs with hzero
      · rw [hzero, Nat.gcd_zero_left]
      · rw [min_eq_left (by omega), min_eq_left (by omega)]
    obtain ⟨g', hfold, hrest, hfrom, heq⟩ :=
      ih (fun b' hb' => hbooks b' (List.mem_cons_of_mem _ hb')) turn
    obtain ⟨hpos, hle'⟩ := hfrom hle.1.ne'
    refine ⟨g', hfold, ?_, fun hg => ⟨hpos, hle'.trans (hle.2.2 hg)⟩, ?_⟩
    · intro b' hb'
      rcases List.mem_cons.mp hb' with rfl | hb'
      · exact ⟨hpos, hle'.trans hle.2.1⟩
      · exact hrest b' hb'
    · intro hg hfit
      have ht := hfit b (by simp)
      rw [List.foldl_cons, ← hgcd hg ht]
      exact heq (hle.2.1.trans_lt ht) fun b' hb' => hfit b' (List.mem_cons_of_mem _ hb')

variable (hbooks : ∀ b ∈ books, OnTick b) (hne : books ≠ [])
include hbooks hne

/-- The common grid is at least one unit and not coarser than any tick. -/
theorem computeCommonGrid_le :
    ∃ g : ℚ, computeCommonGrid (books.map lift) = .fin g ∧ 1 / 10 ^ 10 ≤ g ∧
      (∀ b ∈ books, g ≤ b.tickSize) ∧
      ((∀ b ∈ books, tickUnits b < 2 ^ 64) → g = grid books) := by
  obtain ⟨g, hfold, hle, -, heq⟩ := gridFold_lift hbooks 0
  rw [Nat.cast_zero, zero_div] at hfold
  obtain ⟨b, hb⟩ := List.exists_mem_of_ne_nil books hne
  have hunit : (1 : ℚ) ≤ g := by exact_mod_cast (hle b hb).1
  refine ⟨g / 10 ^ 10, ?_, by gcongr, ?_, fun hfit => by rw [heq (by norm_num) hfit]; rfl⟩
  · unfold computeCommonGrid
    simp only [ExtRat.lit_eq, hfold]
    exact if_neg (by simpa using (by linarith : (0 : ℚ) < g))
  · intro b hb
    rw [(hbooks b hb).tickSize_eq.1]
    gcongr
    exact (hle b hb).2

theorem gridUnits_pos : 0 < gridUnits books := by
  obtain ⟨b, hb⟩ := List.exists_mem_of_ne_nil books hne
  exact Nat.pos_of_dvd_of_pos (gridUnits_dvd hb) (hbooks b hb).tickSize_eq.2

theorem grid_pos : 0 < grid books := by
  have hpos : (0 : ℚ) < gridUnits books := by exact_mod_cast gridUnits_pos hbooks hne
  unfold grid
  positivity

theorem computeCommonGrid_lift (hfit : ∀ b ∈ books, tickUnits b < 2 ^ 64) :
    computeCommonGrid (books.map lift) = .fin (grid books) := by
  obtain ⟨g, hg, -, -, heq⟩ := computeCommonGrid_le hbooks hne
  rw [hg, heq hfit]

end Grid

/-- Fewer books have a coarser grid. -/
theorem grid_le_of_subset {kept : List (OrderBookSnapshot ℚ)} (hbooks : ∀ b ∈ books, OnTick b)
    (hsub : kept ⊆ books) (hne : kept ≠ []) :
    grid books ≤ grid kept := by
  have hdvd : gridUnits books ∣ gridUnits kept :=
    dvd_gridUnits.mpr fun b hb => gridUnits_dvd (hsub hb)
  have hle : (gridUnits books : ℚ) ≤ gridUnits kept := by
    exact_mod_cast Nat.le_of_dvd (gridUnits_pos (fun b hb => hbooks b (hsub hb)) hne) hdvd
  unfold grid
  gcongr

theorem KeysFit.subset {kept : List (OrderBookSnapshot ℚ)} (hfit : KeysFit books)
    (hbooks : ∀ b ∈ books, ExactBook b) (hsub : kept ⊆ books) : KeysFit kept where
  ticks b hb := hfit.ticks b (hsub hb)
  keys b hb l hl := by
    have hle := grid_le_of_subset (onTick_of_exact hbooks) hsub (List.ne_nil_of_mem hb)
    have hmax : (0 : ℚ) ≤ i64Max := by norm_num [i64Max]
    exact (hfit.keys b (hsub hb) l hl).trans (mul_le_mul_of_nonneg_left hle hmax)

/-! ### Keys and prices -/

theorem gridKey_mono {c : ℚ} (hc : 0 ≤ c) {p q : ℚ} (h : p ≤ q) :
    gridKey (ExtRat.fin c) (.fin p) ≤ gridKey (ExtRat.fin c) (.fin q) :=
  ExtRat.asI64_round_mono (mul_le_mul_of_nonneg_right h hc)

/-- The key of a price on the grid is its number of grid steps, if that is an `i64`. -/
theorem gridKey_of_steps {g : ℚ} (hg : 0 < g) {z : ℤ} (hlo : i64Min ≤ z) (hhi : z ≤ i64Max) :
    gridKey (ExtRat.fin (1 / g)) (.fin (z * g)) = z := by
  have hprod : z * g * (1 / g) = z := by
    field_simp
  rw [gridKey, ExtRat.fin_mul, hprod, ExtRat.fin_round, roundAway_intCast]
  exact ExtRat.asI64_intCast hlo hhi

/-- The key of a price that is not negative, below the range or beyond it. -/
theorem gridKey_of_nonneg {g p : ℚ} (hg : 0 < g) (hp : 0 ≤ p) :
    gridKey (ExtRat.fin (1 / g)) (.fin p) = min i64Max (roundAway (p / g)) := by
  rw [gridKey, ExtRat.fin_mul, ExtRat.fin_round, mul_one_div]
  change clamp i64Min i64Max (truncate (roundAway (p / g) : ℚ)) = _
  have hnonneg := roundAway_nonneg (div_nonneg hp hg.le)
  rw [truncate_intCast, clamp, max_eq_right]
  exact le_min (by decide) (le_trans (by decide) hnonneg)

theorem gridKey_eq {g p : ℚ} (hg : 0 < g) {z : ℤ} (hp : p = z * g) (hpos : 0 < p)
    (hfit : p ≤ i64Max * g) : gridKey (ExtRat.fin (1 / g)) (.fin p) = z := by
  rw [gridKey_of_nonneg hg hpos.le, hp, mul_div_cancel_right₀ _ hg.ne', roundAway_intCast]
  rw [hp] at hfit
  exact min_eq_right (by exact_mod_cast le_of_mul_le_mul_right hfit hg)

/-- A key stands for its price up to half a step, unless it saturates. -/
theorem gridKey_near {g p : ℚ} (hg : 0 < g) (hp : 0 ≤ p) {k : ℤ}
    (hk : gridKey (ExtRat.fin (1 / g)) (.fin p) = k) :
    k * g ≤ p + g / 2 ∧ (k = i64Max ∨ p - g / 2 ≤ k * g) := by
  rw [gridKey_of_nonneg hg hp] at hk
  obtain ⟨hlo, hhi⟩ := abs_le.mp (abs_roundAway_sub_le (p / g))
  have hround : (roundAway (p / g) : ℚ) * g ∈ Set.Icc (p - g / 2) (p + g / 2) := by
    have hdiv : p / g * g = p := div_mul_cancel₀ p hg.ne'
    constructor <;> nlinarith
  obtain ⟨hmin, hle⟩ | ⟨hmin, -⟩ := min_cases i64Max (roundAway (p / g))
  · refine ⟨le_trans ?_ hround.2, .inl (hk ▸ hmin)⟩
    rw [← hk, hmin]
    exact mul_le_mul_of_nonneg_right (by exact_mod_cast hle) hg.le
  · rw [← hk, hmin]
    exact ⟨hround.2, .inr hround.1⟩

/-- One step on, the key is higher or saturated. -/
theorem gridKey_step {g p q : ℚ} (hg : 0 < g) (hp : 0 ≤ p) (hpq : p + g ≤ q) :
    min i64Max (gridKey (ExtRat.fin (1 / g)) (.fin p) + 1) ≤
      gridKey (ExtRat.fin (1 / g)) (.fin q) := by
  have hle : p / g + 1 ≤ q / g := by
    rw [← div_self hg.ne', ← add_div]
    exact div_le_div_of_nonneg_right hpq hg.le
  have hp' := div_nonneg hp hg.le
  have hround : roundAway (p / g) + 1 ≤ roundAway (q / g) := by
    rw [roundAway, if_pos hp', roundAway, if_pos (by linarith), Int.le_floor]
    push_cast
    linarith [Int.floor_le (p / g + 1 / 2)]
  rw [gridKey_of_nonneg hg hp, gridKey_of_nonneg hg (by linarith)]
  omega

/-- A positive price at which some book bids. -/
def QuotedBid (books : List (OrderBookSnapshot ℚ)) (p : ℚ) : Prop :=
  0 < p ∧ ∃ b ∈ books, ∃ l ∈ b.bids, l.price = p

/-- A positive price at which some book asks. -/
def QuotedAsk (books : List (OrderBookSnapshot ℚ)) (p : ℚ) : Prop :=
  0 < p ∧ ∃ b ∈ books, ∃ l ∈ b.asks, l.price = p

theorem skipped_lift {l : Level ℚ} (hq : 0 < l.quantity) :
    skipped l.lift = decide (l.price ≤ 0) := by
  simp [skipped, Level.lift, not_le.mpr hq]

section Projection
variable (hpos : ∀ b ∈ books, ∀ l ∈ b.levels, 0 < l.quantity) {c : ExtRat} {k : ℤ}
include hpos

/-- The keys of a projected side are those of the positive prices on it, on whatever grid. -/
theorem mem_projected_side {side : OrderBookSnapshot ℚ → List (Level ℚ)}
    (hside : ∀ b, side b ⊆ b.levels) :
    k ∈ (addLevels c .empty (books.flatMap (fun b => (side b).map Level.lift))).keys ↔
      ∃ p : ℚ, (0 < p ∧ ∃ b ∈ books, ∃ l ∈ side b, l.price = p) ∧ gridKey c (.fin p) = k := by
  rw [mem_addLevels_keys, Ladder.keys_empty]
  constructor
  · rintro (hk | ⟨l', hl', hskip, hkey⟩)
    · cases hk
    · obtain ⟨b, hb, hlift⟩ := List.mem_flatMap.mp hl'
      obtain ⟨l, hl, rfl⟩ := List.mem_map.mp hlift
      rw [skipped_lift (hpos b hb l (hside b hl))] at hskip
      exact ⟨l.price, ⟨by simpa using hskip, b, hb, l, hl, rfl⟩, hkey⟩
  · rintro ⟨_, ⟨hprice, b, hb, l, hl, rfl⟩, hkey⟩
    refine .inr ⟨l.lift, List.mem_flatMap.mpr ⟨b, hb, List.mem_map_of_mem hl⟩, ?_, hkey⟩
    rw [skipped_lift (hpos b hb l (hside b hl))]
    simpa using hprice

theorem mem_project_bids : k ∈ (project c (books.map lift)).bids.keys ↔
    ∃ p, QuotedBid books p ∧ gridKey c (.fin p) = k := by
  rw [project_bids, List.flatMap_map]
  exact mem_projected_side hpos (fun b => List.subset_append_left b.bids b.asks)

theorem mem_project_asks : k ∈ (project c (books.map lift)).asks.keys ↔
    ∃ p, QuotedAsk books p ∧ gridKey c (.fin p) = k := by
  rw [project_asks, List.flatMap_map]
  exact mem_projected_side hpos (fun b => List.subset_append_right b.bids b.asks)

end Projection

theorem finiteQuantities_flatMap (hpos : ∀ b ∈ books, ∀ l ∈ b.levels, 0 < l.quantity)
    {side : OrderBookSnapshot ℚ → List (Level ℚ)} (hside : ∀ b, side b ⊆ b.levels) :
    FiniteQuantities (books.flatMap (fun b => (side b).map Level.lift)) := by
  intro l' hl'
  obtain ⟨b, hb, hlift⟩ := List.mem_flatMap.mp hl'
  obtain ⟨l, hl, rfl⟩ := List.mem_map.mp hlift
  exact ⟨l.quantity, hpos b hb l (hside b hl), rfl⟩

/-- Positive quantities project to positive volumes, on whatever grid. -/
theorem project_lift_positive (hpos : ∀ b ∈ books, ∀ l ∈ b.levels, 0 < l.quantity)
    (invGrid : ExtRat) :
    PositiveSides (project invGrid (books.map lift)) := by
  constructor
  · rw [project_bids, List.flatMap_map]
    exact positive_empty.addLevels
      (finiteQuantities_flatMap hpos (fun b => List.subset_append_left _ _)) _
  · rw [project_asks, List.flatMap_map]
    exact positive_empty.addLevels
      (finiteQuantities_flatMap hpos (fun b => List.subset_append_right _ _)) _

/-- The two maps that the program builds from exact books. -/
def projected (books : List (OrderBookSnapshot ℚ)) : Sides ExtRat :=
  project (.fin (1 / grid books)) (books.map lift)

variable (books) in
theorem projected_bids :
    (projected books).bids = addLevels (.fin (1 / grid books)) .empty
      (books.flatMap (fun b => b.bids.map Level.lift)) := by
  rw [projected, project_bids, List.flatMap_map]
  rfl

variable (books) in
theorem projected_asks :
    (projected books).asks = addLevels (.fin (1 / grid books)) .empty
      (books.flatMap (fun b => b.asks.map Level.lift)) := by
  rw [projected, project_asks, List.flatMap_map]
  rfl

section Projected
variable (hbooks : ∀ b ∈ books, ExactBook b)
include hbooks

/-- The key of a level stands for its price. -/
theorem key_of_level (hfit : KeysFit books) {b : OrderBookSnapshot ℚ} (hb : b ∈ books) {l : Level ℚ}
    (hl : l ∈ b.levels) (hpos : 0 < l.price) {k : ℤ} :
    gridKey (ExtRat.fin (1 / grid books)) (.fin l.price) = k ↔ l.price = k * grid books := by
  have hg := grid_pos (onTick_of_exact hbooks) (List.ne_nil_of_mem hb)
  obtain ⟨z, hz⟩ := (onTick_of_exact hbooks b hb).on_grid hb hl
  constructor
  · rintro rfl
    rw [gridKey_eq hg hz hpos (hfit.keys b hb l hl), hz]
  · intro hk
    exact gridKey_eq hg hk hpos (hfit.keys b hb l hl)

/-- Both sides at once: `side` is the bids or the asks. -/
theorem quoted_key_iff (hfit : KeysFit books) {side : OrderBookSnapshot ℚ → List (Level ℚ)}
    (hside : ∀ b, side b ⊆ b.levels) {k : ℤ} :
    (∃ p : ℚ, (0 < p ∧ ∃ b ∈ books, ∃ l ∈ side b, l.price = p) ∧
      gridKey (ExtRat.fin (1 / grid books)) (.fin p) = k) ↔
    0 < k * grid books ∧ ∃ b ∈ books, ∃ l ∈ side b, l.price = k * grid books := by
  constructor
  · rintro ⟨_, ⟨hpos, b, hb, l, hl, rfl⟩, hkey⟩
    rw [key_of_level hbooks hfit hb (hside b hl) hpos] at hkey
    exact hkey ▸ ⟨hpos, b, hb, l, hl, rfl⟩
  · rintro ⟨hpos, b, hb, l, hl, hp⟩
    exact ⟨_, ⟨hp ▸ hpos, b, hb, l, hl, rfl⟩,
      (key_of_level hbooks hfit hb (hside b hl) (hp ▸ hpos)).mpr hp⟩

theorem mem_projected_bids (hfit : KeysFit books) {k : ℤ} :
    k ∈ (projected books).bids.keys ↔ QuotedBid books (k * grid books) :=
  (mem_project_bids fun b hb => (hbooks b hb).quantity_pos).trans
    (quoted_key_iff hbooks hfit fun b => List.subset_append_left b.bids b.asks)

theorem mem_projected_asks (hfit : KeysFit books) {k : ℤ} :
    k ∈ (projected books).asks.keys ↔ QuotedAsk books (k * grid books) :=
  (mem_project_asks fun b hb => (hbooks b hb).quantity_pos).trans
    (quoted_key_iff hbooks hfit fun b => List.subset_append_right b.bids b.asks)

theorem projected_positive : PositiveSides (projected books) :=
  project_lift_positive (fun b hb => (hbooks b hb).quantity_pos) _

/-- Every quoted price is a key. -/
theorem QuotedBid.exists_key {p : ℚ} (hp : QuotedBid books p) : ∃ z : ℤ, p = z * grid books := by
  obtain ⟨-, b, hb, l, hl, rfl⟩ := hp
  exact (onTick_of_exact hbooks b hb).on_grid hb (List.mem_append_left _ hl)

theorem QuotedAsk.exists_key {p : ℚ} (hp : QuotedAsk books p) : ∃ z : ℤ, p = z * grid books := by
  obtain ⟨-, b, hb, l, hl, rfl⟩ := hp
  exact (onTick_of_exact hbooks b hb).on_grid hb (List.mem_append_right _ hl)

end Projected

/-! ### What the fair value says about the quotes -/

/-- The best prices that clearing leaves: both are quoted, they do not cross, and a quote that
the opposite side never reached is still in the book. -/
structure Settlement (books : List (OrderBookSnapshot ℚ)) (bid ask : ℚ) : Prop where
  bid_quoted : QuotedBid books bid
  ask_quoted : QuotedAsk books ask
  uncrossed : bid < ask
  bid_ge : ∀ p, QuotedBid books p → (∀ a, QuotedAsk books a → p < a) → p ≤ bid
  ask_le : ∀ p, QuotedAsk books p → (∀ b, QuotedBid books b → b < p) → ask ≤ p

theorem fairValue_eq_some {g : ℚ} {n : ℕ} {s : Sides ExtRat} {fv : FairValue ExtRat}
    (h : fairValue (.fin g) n s = some fv) :
    ∃ kb vb ka va, s.bids.greatest? = some (kb, vb) ∧ s.asks.least? = some (ka, va) ∧
      fv.price = .fin ((kb * g + ka * g) / 2) ∧ fv.numSources = n := by
  unfold fairValue at h
  split at h
  · rename_i kb vb ka va hb ha
    refine ⟨kb, vb, ka, va, hb, ha, ?_⟩
    rw [← Option.some.inj h]
    simp
  · simp at h

/-- The program on a positive grid: project, clear, take the middle. -/
theorem consolidatedOrderBook_on_grid (hne : books ≠ []) {g : ℚ} (hg : 0 < g)
    (hgrid : computeCommonGrid (books.map lift) = .fin g) :
    consolidatedOrderBook (books.map lift) =
      (clearCrossing (project (.fin (1 / g)) (books.map lift))).bind
        (fairValue (.fin g) books.length) := by
  unfold consolidatedOrderBook
  rw [if_neg (by simpa using hne)]
  simp only [hgrid, ExtRat.lit_eq, ExtRat.fin_le, decide_eq_true_eq, not_le.mpr hg, if_false,
    ExtRat.fin_div 1 hg.ne', List.length_map]

theorem consolidatedOrderBook_lift (hbooks : ∀ b ∈ books, ExactBook b) (hfit : KeysFit books)
    (hne : books ≠ []) :
    consolidatedOrderBook (books.map lift) =
      (clearCrossing (projected books)).bind (fairValue (.fin (grid books)) books.length) :=
  have hticks := onTick_of_exact hbooks
  consolidatedOrderBook_on_grid hne (grid_pos hticks hne)
    (computeCommonGrid_lift hticks hne hfit.ticks)

theorem settlement_of_cleared (hbooks : ∀ b ∈ books, ExactBook b) (hfit : KeysFit books)
    (hne : books ≠ []) {s : Sides ExtRat} (hs : clearCrossing (projected books) = some s)
    {kb ka : ℤ} {vb va : ExtRat} (hmax : s.bids.greatest? = some (kb, vb))
    (hmin : s.asks.least? = some (ka, va)) :
    Settlement books (kb * grid books) (ka * grid books) := by
  have hg := grid_pos (onTick_of_exact hbooks) hne
  have hcleared := clearLoop_cleared hs
  obtain ⟨hkb, hkbmax⟩ := Ladder.greatest?_eq_some hmax
  obtain ⟨hka, hkamin⟩ := Ladder.least?_eq_some hmin
  have hcast : ∀ {x y : ℤ}, (x * grid books < y * grid books ↔ x < y) := by
    intro x y
    rw [mul_lt_mul_iff_of_pos_right hg, Int.cast_lt]
  have hcast' : ∀ {x y : ℤ}, x ≤ y → (x * grid books ≤ y * grid books) := by
    intro x y hxy
    exact mul_le_mul_of_nonneg_right (by exact_mod_cast hxy) hg.le
  refine ⟨(mem_projected_bids hbooks hfit).mp (hcleared.bids_subset kb hkb),
    (mem_projected_asks hbooks hfit).mp (hcleared.asks_subset ka hka),
    hcast.mpr (uncrossed_of_clearStep (clearLoop_stops hs) hkb hka), ?_, ?_⟩
  · intro p hp hlt
    obtain ⟨z, rfl⟩ := hp.exists_key hbooks
    refine hcast' (hkbmax z (hcleared.bids_kept z ((mem_projected_bids hbooks hfit).mpr hp) ?_))
    intro a ha
    exact hcast.mp (hlt _ ((mem_projected_asks hbooks hfit).mp ha))
  · intro p hp hlt
    obtain ⟨z, rfl⟩ := hp.exists_key hbooks
    refine hcast' (hkamin z (hcleared.asks_kept z ((mem_projected_asks hbooks hfit).mpr hp) ?_))
    intro b hb
    exact hcast.mp (hlt _ ((mem_projected_bids hbooks hfit).mp hb))

/-- A returned fair value is the middle of a settlement. -/
theorem consolidatedOrderBook_settlement (hbooks : ∀ b ∈ books, ExactBook b)
    (hfit : KeysFit books) {fv : FairValue ExtRat}
    (h : consolidatedOrderBook (books.map lift) = some fv) :
    ∃ bid ask, fv.price = .fin ((bid + ask) / 2) ∧ Settlement books bid ask := by
  have hne : books ≠ [] := by
    rintro rfl
    simp [consolidatedOrderBook] at h
  rw [consolidatedOrderBook_lift hbooks hfit hne, Option.bind_eq_some_iff] at h
  obtain ⟨s, hs, hfair⟩ := h
  obtain ⟨kb, vb, ka, va, hmax, hmin, hprice, -⟩ := fairValue_eq_some hfair
  exact ⟨_, _, hprice, settlement_of_cleared hbooks hfit hne hs hmax hmin⟩

end Nuntius.ConsolidatedBook
