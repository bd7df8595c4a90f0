import Mathlib.Data.Bool.Basic
import Mathlib.Logic.Function.Basic
import Nuntius.InteractivePrograms
import Nuntius.LabelledRuns

/-!
# Many programs against one shared service

Any number of parties run interactive programs against a world they share. A step answers
the outstanding query of one party, lets the world move on its own with the requests it has
received, or stops a party for good. What an answer says is often about the world as it is
when the answer is given; where the world only moves so that it stays true, it is true of
every answer at any later time.
-/

namespace Nuntius.ConcurrentPrograms
open InteractivePrograms LabelledRuns

variable {ι Q W R : Type} {A : Q → Type}

/-- The world, what each party has heard, and who has crashed. -/
structure Config (ι : Type) {Q : Type} (A : Q → Type) (W : Type) where
  world : W
  heard : ι → Transcript A
  down : ι → Bool

def Config.start (w : W) : Config ι A W where
  world := w
  heard := fun _ => []
  down := fun _ => false

/-- The party has put the query, whether or not it was answered since. -/
def Requested (program : ι → Prog A R) (c : Config ι A W) (i : ι) (q : Q) : Prop :=
  Prog.Asks (program i) (c.heard i) q ∨ ∃ a, ⟨q, a⟩ ∈ c.heard i

inductive Label (ι : Type) {Q : Type} (A : Q → Type) where
  | answered (i : ι) (q : Q) (a : A q)
  | served (i : ι) (q : Q)
  | crashed (i : ι)

/-- The programs, and how the world answers a query and carries a request out. -/
structure System (ι : Type) {Q : Type} (A : Q → Type) (W R : Type) where
  program : ι → Prog A R
  reply : W → ι → (q : Q) → A q → Prop
  serve : W → ι → Q → W

variable [DecidableEq ι]

inductive Step (sys : System ι A W R) : Config ι A W → Label ι A → Config ι A W → Prop where
  | answered {c : Config ι A W} {i : ι} {q : Q} {a : A q} (up : c.down i = false)
      (asks : Prog.Asks (sys.program i) (c.heard i) q) (reply : sys.reply c.world i q a) :
      Step sys c (.answered i q a)
        { c with heard := Function.update c.heard i (c.heard i ++ [⟨q, a⟩]) }
  | served {c : Config ι A W} {i : ι} {q : Q} (requested : Requested sys.program c i q) :
      Step sys c (.served i q) { c with world := sys.serve c.world i q }
  | crashed {c : Config ι A W} {i : ι} :
      Step sys c (.crashed i) { c with down := Function.update c.down i true }

/-- The party's program has returned. -/
def Returned (sys : System ι A W R) (c : Config ι A W) (i : ι) (r : R) : Prop :=
  Prog.Runs (sys.program i) (c.heard i) r

variable {sys : System ι A W R} {w : W} {c c' : Config ι A W} {l : Label ι A}

/-- A property of answers that holds of them when they are given, and that no move of the
world takes away, holds of everything heard. -/
theorem backed_run (Backed : W → (i : ι) → (q : Q) → A q → Prop)
    (fresh : ∀ w i q a, sys.reply w i q a → Backed w i q a)
    (stable : ∀ w i q j q' a, Backed w j q' a → Backed (sys.serve w i q) j q' a)
    {labels : List (Label ι A)} (run : Run (Config.start w) (Step sys) labels c) (j : ι) :
    ∀ e ∈ c.heard j, Backed c.world j e.1 e.2 := by
  refine run.invariant (fun _ c => ∀ e ∈ c.heard j, Backed c.world j e.1 e.2) ?_ ?_
  · intro e he
    cases he
  · intro older c l c' _ ih now
    cases now with
    | @answered i q a up asks reply =>
      intro e he
      change e ∈ Function.update c.heard i (c.heard i ++ [⟨q, a⟩]) j at he
      by_cases hij : j = i
      · subst hij
        rw [Function.update_self, List.mem_append, List.mem_singleton] at he
        obtain hold | rfl := he
        · exact ih e hold
        · exact fresh c.world j q a reply
      · rw [Function.update_of_ne hij] at he
        exact ih e he
    | served requested => exact fun e he => stable _ _ _ _ _ _ (ih e he)
    | crashed => exact ih

/-- A party may hear several answers in a row while the world stands still. -/
theorem run_answers {labels : List (Label ι A)} {i : ι} {u : Transcript A}
    (run : Run (Config.start w) (Step sys) labels c) (up : c.down i = false)
    (asks : ∀ v q a x, u = v ++ ⟨q, a⟩ :: x → Prog.Asks (sys.program i) (c.heard i ++ v) q)
    (replies : ∀ e ∈ u, sys.reply c.world i e.1 e.2) :
    ∃ labels', Run (Config.start w) (Step sys) labels'
      { c with heard := Function.update c.heard i (c.heard i ++ u) } := by
  induction u generalizing c labels with
  | nil =>
    rw [List.append_nil, Function.update_eq_self]
    exact ⟨labels, run⟩
  | cons e u ih =>
    obtain ⟨q, a⟩ := e
    have hfirst := asks [] q a u rfl
    rw [List.append_nil] at hfirst
    have next := run.step (.answered up hfirst (replies _ List.mem_cons_self))
    have hlater : ∀ v q' a' x, u = v ++ ⟨q', a'⟩ :: x →
        Prog.Asks (sys.program i)
          (Function.update c.heard i (c.heard i ++ [⟨q, a⟩]) i ++ v) q' := by
      rintro v q' a' x rfl
      rw [Function.update_self, ← List.append_cons]
      exact asks (⟨q, a⟩ :: v) q' a' x rfl
    obtain ⟨labels', hrun⟩ := ih next up hlater fun e he => replies e (List.mem_cons_of_mem _ he)
    refine ⟨labels', ?_⟩
    dsimp only at hrun
    rw [Function.update_self, Function.update_idem, ← List.append_cons] at hrun
    exact hrun

/-- A property of the world that carrying out requests keeps is kept by every step. -/
theorem world_step (Keeps : W → Prop) (serve : ∀ w i q, Keeps w → Keeps (sys.serve w i q))
    (now : Step sys c l c') (h : Keeps c.world) : Keeps c'.world := by
  cases now with
  | answered up asks reply => exact h
  | served requested => exact serve _ _ _ h
  | crashed => exact h

end Nuntius.ConcurrentPrograms
