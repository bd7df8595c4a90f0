import Mathlib.Algebra.Group.Nat.Defs
import Mathlib.Data.List.Basic

/-!
# Chains of numbered updates

An update continues a position and ends at another one. A list of updates is a chain from a
position if each of them continues the end of the one before. Chains are followed in either
direction of time: from the front for a queue that is worked off, from the back for a log that
grows.
-/

namespace Nuntius.SequenceChains

variable {σ δ : Type*} (continues : σ → δ → Prop) (endOf : δ → σ)

def ChainFrom : σ → List δ → Prop
  | _, [] => True
  | s, d :: ds => continues s d ∧ ChainFrom (endOf d) ds

instance [∀ s d, Decidable (continues s d)] : ∀ s ds, Decidable (ChainFrom continues endOf s ds)
  | _, [] => isTrue trivial
  | _, d :: ds =>
    have : Decidable (ChainFrom continues endOf (endOf d) ds) :=
      instDecidableChainFrom (endOf d) ds
    inferInstanceAs (Decidable (_ ∧ _))

/-- The position after a list of updates. -/
def endFrom (s : σ) (ds : List δ) : σ := ds.foldl (fun _ d => endOf d) s

variable {continues endOf}

@[simp] theorem endFrom_nil (s : σ) : endFrom endOf s [] = s := rfl

@[simp] theorem endFrom_cons (s : σ) (d : δ) (ds : List δ) :
    endFrom endOf s (d :: ds) = endFrom endOf (endOf d) ds := rfl

@[simp] theorem endFrom_concat (s : σ) (ds : List δ) (d : δ) :
    endFrom endOf s (ds ++ [d]) = endOf d := by
  rw [endFrom, List.foldl_append]
  rfl

theorem chainFrom_append {s : σ} {ds es : List δ} :
    ChainFrom continues endOf s (ds ++ es) ↔
      ChainFrom continues endOf s ds ∧ ChainFrom continues endOf (endFrom endOf s ds) es := by
  induction ds generalizing s with
  | nil => simp [ChainFrom]
  | cons d ds ih => simp [ChainFrom, ih, and_assoc]

/-- A chain grows by an update that continues its end. -/
theorem ChainFrom.concat {s : σ} {ds : List δ} (h : ChainFrom continues endOf s ds) {d : δ}
    (hd : continues (endFrom endOf s ds) d) : ChainFrom continues endOf s (ds ++ [d]) := by
  rw [chainFrom_append]
  exact ⟨h, hd, trivial⟩

/-- Whether a chain starts well is a matter of its first update, the rest of its neighbours. -/
theorem chainFrom_iff_isChain {s : σ} {ds : List δ}
    (hfirst : ∀ d ∈ ds.head?, continues s d) :
    ChainFrom continues endOf s ds ↔ ds.IsChain (fun d d' => continues (endOf d) d') := by
  induction ds generalizing s with
  | nil => simp [ChainFrom]
  | cons d ds ih =>
    cases ds with
    | nil => simp [ChainFrom, hfirst d rfl]
    | cons d' ds =>
      rw [List.isChain_cons_cons, ChainFrom]
      constructor
      · rintro ⟨-, hnext, hrest⟩
        refine ⟨hnext, (ih ?_).mp ⟨hnext, hrest⟩⟩
        intro e he
        obtain rfl := Option.some.inj he
        exact hnext
      · rintro ⟨hnext, hrest⟩
        refine ⟨hfirst d rfl, (ih ?_).mpr hrest⟩
        intro e he
        obtain rfl := Option.some.inj he
        exact hnext

/-- A number below the largest one of 64 bits. -/
def HasNext (n : UInt64) : Prop := n.toNat < 2 ^ 64 - 1

instance (n : UInt64) : Decidable (HasNext n) :=
  inferInstanceAs (Decidable (n.toNat < 2 ^ 64 - 1))

theorem toNat_succ {n : UInt64} (h : HasNext n) : (n + 1).toNat = n.toNat + 1 := by
  unfold HasNext at h
  rw [UInt64.toNat_add]
  exact Nat.mod_eq_of_lt (by simp only [UInt64.toNat_one]; omega)

end Nuntius.SequenceChains
