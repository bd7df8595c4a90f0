import Mathlib.Algebra.Group.Nat.Defs
import Nuntius.FloatModel

/-!
# Signed 64-bit integers

A value carries its range, so no other value can be built, and arithmetic wraps as in two's
complement. Values are ordered as integers.
-/

namespace Nuntius

structure I64 where
  val : ℤ
  lower : i64Min ≤ val
  upper : val ≤ i64Max
  deriving DecidableEq

namespace I64

theorem ext_val {a b : I64} (h : a.val = b.val) : a = b := by
  cases a
  cases b
  dsimp only at h
  subst h
  rfl

instance : LinearOrder I64 := LinearOrder.lift' I64.val (fun _ _ => ext_val)

theorem le_iff {a b : I64} : a ≤ b ↔ a.val ≤ b.val := Iff.rfl

/-- Two's complement. -/
def wrap (z : ℤ) : I64 where
  val := z.bmod (2 ^ 64)
  lower := by
    have h := @Int.le_bmod z (2 ^ 64) (by norm_num)
    unfold i64Min
    omega
  upper := by
    have h := @Int.bmod_lt z (2 ^ 64) (by norm_num)
    unfold i64Max
    omega

/-- A result in range is exact. -/
theorem wrap_val {z : ℤ} (hlo : i64Min ≤ z) (hhi : z ≤ i64Max) : (wrap z).val = z := by
  unfold i64Min at hlo
  unfold i64Max at hhi
  exact Int.bmod_eq_of_le (by omega) (by omega)

def sub (a b : I64) : I64 := wrap (a.val - b.val)

def add (a b : I64) : I64 := wrap (a.val + b.val)

def abs (a : I64) : I64 := wrap |a.val|

def max : I64 := ⟨i64Max, by decide, le_rfl⟩

/-- `as i64` on a `u64`. -/
def ofU64 (n : UInt64) : I64 := wrap n.toNat

end I64

end Nuntius
