import Mathlib.Algebra.Group.Nat.Defs
import Mathlib.Data.List.Basic

/-!
# Checked accesses

A computation on slices ends with a value, with an error that it returns, or by aborting: on an
access out of range, on a copy between slices of different lengths, on a difference below zero or
a number of more than 64 bits. To show that it never aborts, one shows that it computes what a
function without accesses computes.
-/

namespace Nuntius.CheckedSlices

variable {α β ε : Type}

inductive Fault (ε : Type) where
  | error (e : ε)
  | abort

abbrev Checked (ε α : Type) := Except (Fault ε) α

/-- A result without aborts. -/
def lift : Except ε α → Checked ε α
  | .ok a => .ok a
  | .error e => .error (.error e)

@[simp] theorem lift_ok (a : α) : (lift (.ok a) : Checked ε α) = .ok a := rfl

@[simp] theorem lift_error (e : ε) : (lift (.error e) : Checked ε α) = .error (.error e) := rfl

theorem lift_eq_ok {x : Except ε α} {a : α} : lift x = .ok a ↔ x = .ok a := by
  cases x with
  | ok b => simp
  | error e => simp

theorem lift_ne_abort (x : Except ε α) : lift x ≠ .error .abort := by
  cases x with
  | ok a => exact fun h => by cases h
  | error e => exact fun h => by cases h

theorem lift_bind (x : Except ε α) (f : α → Except ε β) :
    lift (x >>= f) = lift x >>= fun a => lift (f a) := by
  cases x with
  | ok a => rfl
  | error e => rfl

/-- The same for a result that is there or not. -/
def ofOption : Option α → Checked Unit α
  | some a => .ok a
  | none => .error (.error ())

theorem ofOption_ne_abort (o : Option α) : ofOption o ≠ .error .abort := by
  cases o with
  | none => exact fun h => by cases h
  | some a => exact fun h => by cases h

/-- The elements at places `start` up to but not including `stop`. -/
def slice (xs : List α) (start stop : ℕ) : Checked ε (List α) :=
  if start ≤ stop ∧ stop ≤ xs.length then .ok ((xs.drop start).take (stop - start))
  else .error .abort

theorem slice_eq_ok {xs : List α} {start stop : ℕ} (h : start ≤ stop) (h' : stop ≤ xs.length) :
    (slice xs start stop : Checked ε (List α)) = .ok ((xs.drop start).take (stop - start)) :=
  if_pos ⟨h, h'⟩

theorem slice_append {a b : List α} {start stop : ℕ} (ha : a.length = start)
    (hb : start + b.length = stop) (c : List α) :
    (slice (a ++ (b ++ c)) start stop : Checked ε (List α)) = .ok b := by
  subst ha hb
  rw [slice_eq_ok (Nat.le_add_right _ _) (by simp), List.drop_left, Nat.add_sub_cancel_left,
    List.take_left]

/-- Overwriting from `start` up to but not including `stop`. -/
def copyInto (dst : List α) (start stop : ℕ) (src : List α) : Checked ε (List α) :=
  if start ≤ stop ∧ stop ≤ dst.length ∧ src.length = stop - start then
    .ok (dst.take start ++ src ++ dst.drop stop)
  else .error .abort

theorem copyInto_append {a b src : List α} {start stop : ℕ} (ha : a.length = start)
    (hb : start + b.length = stop) (hsrc : src.length = b.length) (c : List α) :
    (copyInto (a ++ (b ++ c)) start stop src : Checked ε (List α)) = .ok (a ++ (src ++ c)) := by
  subst ha hb
  rw [copyInto, if_pos ⟨Nat.le_add_right _ _, by simp, by omega⟩, List.take_left,
    List.append_assoc, ← List.append_assoc a b c, ← List.length_append, List.drop_left]

def sub (a b : ℕ) : Checked ε ℕ := if b ≤ a then .ok (a - b) else .error .abort

theorem sub_eq_ok {a b : ℕ} (h : b ≤ a) : (sub a b : Checked ε ℕ) = .ok (a - b) := if_pos h

def checked (n : ℕ) : Checked ε ℕ := if n < 2 ^ 64 then .ok n else .error .abort

theorem checked_eq_ok {n : ℕ} (h : n < 2 ^ 64) : (checked n : Checked ε ℕ) = .ok n := if_pos h

end Nuntius.CheckedSlices
