import Mathlib.Algebra.Order.Floor.Ring
import Mathlib.Data.Rat.Floor
import Nuntius.OrderStatistics

/-!
# Binary64 arithmetic as an interface, and its exact reading

Programs over `f64` are written against the class `F64`, which lists the operations
and no laws. What only concerns data flow is then proved for every carrier, rounding
included. Statements over exact rationals use the carrier `ExtRat`: every finite
operation is exact, while infinities, NaN and saturating casts behave as in IEEE 754
and Rust. Signed zeros are identified.
-/

namespace Nuntius

/-- The `f64` operations of the modelled code. `lt` and `le` are false on NaN, `min`
ignores a NaN operand, casts saturate and send NaN to zero. -/
class F64 (F : Type) extends Add F, Sub F, Mul F, Div F where
  lit : ℚ → F
  infinity : F
  abs : F → F
  min : F → F → F
  lt : F → F → Bool
  le : F → F → Bool
  isFinite : F → Bool
  isNan : F → Bool
  round : F → F
  asI64 : F → ℤ
  asUnsigned : ℕ → F → ℕ

/-- Exact rationals with the special values of a floating-point format. -/
inductive ExtRat where
  | nan
  | negInf
  | posInf
  | fin (q : ℚ)
  deriving DecidableEq

/-- Nearest integer, halves away from zero. -/
def roundAway (q : ℚ) : ℤ := if 0 ≤ q then ⌊q + 1 / 2⌋ else ⌈q - 1 / 2⌉

/-- Drop the fractional part. -/
def truncate (q : ℚ) : ℤ := if 0 ≤ q then ⌊q⌋ else ⌈q⌉

/-- Clamp an integer into an inclusive range. -/
def clamp (lo hi n : ℤ) : ℤ := max lo (Min.min hi n)

def i64Max : ℤ := 2 ^ 63 - 1

def i64Min : ℤ := -2 ^ 63

@[simp] theorem roundAway_intCast (n : ℤ) : roundAway (n : ℚ) = n := by
  unfold roundAway
  split
  · rw [Int.floor_eq_iff]
    constructor <;> linarith
  · rw [Int.ceil_eq_iff]
    constructor <;> linarith

@[simp] theorem truncate_intCast (n : ℤ) : truncate (n : ℚ) = n := by
  unfold truncate
  split <;> simp

theorem roundAway_mono {p q : ℚ} (h : p ≤ q) : roundAway p ≤ roundAway q := by
  unfold roundAway
  split
  · rename_i hp
    rw [if_pos (hp.trans h)]
    exact Int.floor_mono (by linarith)
  · rename_i hp
    split
    · -- the two roundings meet at zero
      rename_i hq
      have hneg : ⌈p - 1 / 2⌉ ≤ 0 := Int.ceil_le.mpr (by push_cast; linarith)
      exact hneg.trans (Int.floor_nonneg.mpr (by linarith))
    · exact Int.ceil_mono (by linarith)

theorem abs_roundAway_sub_le (q : ℚ) : |(roundAway q : ℚ) - q| ≤ 1 / 2 := by
  unfold roundAway
  rw [abs_le]
  split
  · have hlo := Int.lt_floor_add_one (q + 1 / 2)
    have hhi := Int.floor_le (q + 1 / 2)
    constructor <;> linarith
  · have hlo := Int.le_ceil (q - 1 / 2)
    have hhi := Int.ceil_lt_add_one (q - 1 / 2)
    constructor <;> linarith

theorem one_le_roundAway {q : ℚ} (hq : 0 ≤ q) : 1 ≤ roundAway q ↔ 1 / 2 ≤ q := by
  rw [roundAway, if_pos hq, Int.le_floor]
  push_cast
  constructor <;> intro h <;> linarith

theorem roundAway_nonneg {q : ℚ} (hq : 0 ≤ q) : 0 ≤ roundAway q := by
  rw [roundAway, if_pos hq]
  exact Int.floor_nonneg.mpr (by linarith)

theorem clamp_mono {lo hi m n : ℤ} (h : m ≤ n) : clamp lo hi m ≤ clamp lo hi n := by
  unfold clamp
  omega

theorem clamp_of_mem {lo hi n : ℤ} (hlo : lo ≤ n) (hhi : n ≤ hi) : clamp lo hi n = n := by
  unfold clamp
  omega

namespace ExtRat

def neg : ExtRat → ExtRat
  | nan => nan
  | negInf => posInf
  | posInf => negInf
  | fin q => fin (-q)

def add : ExtRat → ExtRat → ExtRat
  | fin a, fin b => fin (a + b)
  | nan, _ | _, nan => nan
  | posInf, negInf | negInf, posInf => nan
  | posInf, _ | _, posInf => posInf
  | negInf, _ | _, negInf => negInf

/-- The infinity with the sign of `q`, or NaN when `q` is zero. -/
def signedInf (q : ℚ) : ExtRat :=
  if q = 0 then nan else if 0 < q then posInf else negInf

/-- The sign of a non-NaN value as a rational. -/
def sign : ExtRat → ℚ
  | nan => 0
  | negInf => -1
  | posInf => 1
  | fin q => if 0 < q then 1 else if q < 0 then -1 else 0

def mul : ExtRat → ExtRat → ExtRat
  | fin a, fin b => fin (a * b)
  | nan, _ | _, nan => nan
  | a, b => signedInf (a.sign * b.sign)

def div : ExtRat → ExtRat → ExtRat
  | fin a, fin b => if b = 0 then signedInf a else fin (a / b)
  | nan, _ | _, nan => nan
  | fin _, _ => fin 0
  | a, fin b => signedInf (a.sign * if b < 0 then -1 else 1)
  | _, _ => nan

def lt : ExtRat → ExtRat → Bool
  | fin a, fin b => decide (a < b)
  | nan, _ | _, nan => false
  | negInf, b => decide (b ≠ negInf)
  | fin _, b => decide (b = posInf)
  | posInf, _ => false

def le : ExtRat → ExtRat → Bool
  | nan, _ | _, nan => false
  | a, b => !lt b a

def abs : ExtRat → ExtRat
  | nan => nan
  | negInf | posInf => posInf
  | fin q => fin |q|

def min (a b : ExtRat) : ExtRat :=
  if a = nan then b else if b = nan then a else if lt b a then b else a

def isFinite : ExtRat → Bool
  | fin _ => true
  | _ => false

def round : ExtRat → ExtRat
  | fin q => fin (roundAway q)
  | a => a

/-- A saturating float-to-integer cast onto `[lo, hi]`. -/
def cast (lo hi : ℤ) : ExtRat → ℤ
  | nan => clamp lo hi 0
  | negInf => lo
  | posInf => hi
  | fin q => clamp lo hi (truncate q)

instance : Add ExtRat := ⟨add⟩
instance : Sub ExtRat := ⟨fun a b => add a (neg b)⟩
instance : Mul ExtRat := ⟨mul⟩
instance : Div ExtRat := ⟨div⟩

instance : F64 ExtRat where
  lit := fin
  infinity := posInf
  abs := abs
  min := min
  lt := lt
  le := le
  isFinite := isFinite
  isNan := fun a => decide (a = nan)
  round := round
  asI64 := cast i64Min i64Max
  asUnsigned := fun w a => (cast 0 (2 ^ w - 1) a).toNat

section Exact
variable (a b : ℚ)

@[simp] theorem lit_eq : (F64.lit a : ExtRat) = fin a := rfl
@[simp] theorem infinity_eq : (F64.infinity : ExtRat) = posInf := rfl
@[simp] theorem fin_add : fin a + fin b = fin (a + b) := rfl
@[simp] theorem fin_sub : fin a - fin b = fin (a - b) := by
  rw [sub_eq_add_neg]
  rfl
@[simp] theorem fin_mul : fin a * fin b = fin (a * b) := rfl
theorem fin_div {b : ℚ} (hb : b ≠ 0) : fin a / fin b = fin (a / b) := if_neg hb
@[simp] theorem fin_div_two : fin a / fin 2 = fin (a / 2) := fin_div a (by norm_num)
@[simp] theorem fin_div_tenThousand : fin a / fin 10000 = fin (a / 10000) :=
  fin_div a (by norm_num)
@[simp] theorem fin_abs : F64.abs (fin a) = fin |a| := rfl
@[simp] theorem fin_lt : F64.lt (fin a) (fin b) = decide (a < b) := rfl
@[simp] theorem fin_le : F64.le (fin a) (fin b) = decide (a ≤ b) := by
  change (!decide (b < a)) = decide (a ≤ b)
  rw [← decide_not]
  exact decide_eq_decide.mpr not_lt
@[simp] theorem fin_isFinite : F64.isFinite (fin a) = true := rfl
@[simp] theorem posInf_isFinite : F64.isFinite posInf = false := rfl
@[simp] theorem fin_isNan : F64.isNan (fin a) = false := rfl
@[simp] theorem fin_round : F64.round (fin a) = fin (roundAway a) := rfl

@[simp] theorem fin_min : F64.min (fin a) (fin b) = fin (Min.min a b) := by
  change (if decide (b < a) = true then fin b else fin a) = fin (Min.min a b)
  by_cases h : b < a
  · simp [h, h.le]
  · simp [h, not_lt.mp h]

@[simp] theorem posInf_min_fin : F64.min posInf (fin a) = fin a := rfl
@[simp] theorem fin_min_posInf : F64.min (fin a) posInf = fin a := rfl
@[simp] theorem posInf_min_posInf : F64.min posInf posInf = posInf := rfl

@[simp] theorem fin_inj {a b : ℚ} : fin a = fin b ↔ a = b := by
  constructor
  · intro h
    injection h
  · intro h
    rw [h]

/-- Casting an integer that fits is exact. -/
theorem asI64_intCast {n : ℤ} (hlo : i64Min ≤ n) (hhi : n ≤ i64Max) :
    F64.asI64 (fin (n : ℚ)) = n := by
  change clamp i64Min i64Max (truncate (n : ℚ)) = n
  rw [truncate_intCast, clamp_of_mem hlo hhi]

theorem asI64_round_mono {a b : ℚ} (h : a ≤ b) :
    F64.asI64 (F64.round (fin a)) ≤ F64.asI64 (F64.round (fin b)) := by
  change clamp i64Min i64Max (truncate (roundAway a : ℚ)) ≤
    clamp i64Min i64Max (truncate (roundAway b : ℚ))
  rw [truncate_intCast, truncate_intCast]
  exact clamp_mono (roundAway_mono h)

end Exact

end ExtRat

section Sorting
variable {F : Type} [F64 F]

/-- `sort_by(partial_cmp)`: stable, and incomparable values count as equal. -/
def sortFloats (l : List F) : List F := l.insertionSort (fun a b => F64.lt b a = false)

/-- On finite values the stable float sort is the sort of the rationals. -/
theorem sortFloats_fin (l : List ℚ) :
    sortFloats (l.map ExtRat.fin) = (OrderStatistics.sorted l).map ExtRat.fin := by
  symm
  apply List.map_insertionSort
  intro a _ b _
  simp

end Sorting

end Nuntius
