import Mathlib.Data.List.Basic

/-!
# Runs of a labelled transition system

A run lists the labels of its steps, the newest first, so what stands behind a label is
what happened before it.
-/

namespace Nuntius.LabelledRuns

variable {S L : Type}

inductive Run (init : S) (Step : S → L → S → Prop) : List L → S → Prop where
  | start : Run init Step [] init
  | step {older : List L} {s s' : S} {l : L} (before : Run init Step older s)
      (now : Step s l s') : Run init Step (l :: older) s'

variable {init : S} {Step : S → L → S → Prop}

/-- What holds at the start and is kept by every step of a run holds after every run. -/
theorem Run.invariant (I : List L → S → Prop) (start : I [] init)
    (keep : ∀ {older s l s'}, Run init Step older s → I older s → Step s l s' → I (l :: older) s')
    {labels : List L} {s : S} (run : Run init Step labels s) : I labels s := by
  induction run with
  | start => exact start
  | step before now ih => exact keep before ih now

/-- Every label of a run is that of a step from a state reached by the older labels. -/
theorem Run.fired {newer older : List L} {l : L} {s : S}
    (run : Run init Step (newer ++ l :: older) s) :
    ∃ s₀ s₁, Run init Step older s₀ ∧ Step s₀ l s₁ := by
  induction newer generalizing s with
  | nil =>
    cases run with
    | step before now => exact ⟨_, _, before, now⟩
  | cons l' newer ih =>
    cases run with
    | step before now => exact ih before

/-- Labels that determine their steps determine the state. -/
theorem Run.unique (det : ∀ {s l s₁ s₂}, Step s l s₁ → Step s l s₂ → s₁ = s₂) {labels : List L}
    {s₁ s₂ : S} (run₁ : Run init Step labels s₁) (run₂ : Run init Step labels s₂) : s₁ = s₂ := by
  induction run₁ generalizing s₂ with
  | start =>
    cases run₂
    rfl
  | step before now ih =>
    cases run₂ with
    | step before' now' =>
      cases ih before'
      exact det now now'

/-- The state after the labels, where each is possible when its turn comes. -/
def exec (step : S → L → Option S) (init : S) : List L → Option S
  | [] => some init
  | l :: older => (exec step init older).bind fun s => step s l

theorem Run.of_exec {step : S → L → Option S} {labels : List L} {s : S}
    (h : exec step init labels = some s) :
    Run init (fun s l s' => step s l = some s') labels s := by
  induction labels generalizing s with
  | nil =>
    cases h
    exact .start
  | cons l older ih =>
    obtain ⟨s₀, hbefore, hnow⟩ := Option.bind_eq_some_iff.mp h
    exact .step (ih hbefore) hnow

theorem Run.mono {Step' : S → L → S → Prop} (h : ∀ {s l s'}, Step s l s' → Step' s l s')
    {labels : List L} {s : S} (run : Run init Step labels s) : Run init Step' labels s := by
  induction run with
  | start => exact .start
  | step before now ih => exact .step ih (h now)

/-- A run all of whose steps have a property. -/
def Always (init : S) (Step P : S → L → S → Prop) : List L → S → Prop :=
  Run init fun s l s' => Step s l s' ∧ P s l s'

theorem Always.mono {P Q : S → L → S → Prop} (h : ∀ {s l s'}, Step s l s' → P s l s' → Q s l s')
    {labels : List L} {s : S} (run : Always init Step P labels s) :
    Always init Step Q labels s :=
  Run.mono (fun now => ⟨now.1, h now.1 now.2⟩) run

/-- If a property keeps an invariant and gives another property under it, then steps that all
have the one all have the other. -/
theorem Always.of_invariant {P Q : S → L → S → Prop} (I : S → Prop) (start : I init)
    (keep : ∀ {s l s'}, I s → Step s l s' → P s l s' → I s' ∧ Q s l s')
    {labels : List L} {s : S} (run : Always init Step P labels s) :
    Always init Step Q labels s := by
  have both : I s ∧ Always init Step Q labels s := by
    induction run with
    | start => exact ⟨start, .start⟩
    | step before now ih =>
      obtain ⟨kept, found⟩ := keep ih.1 now.1 now.2
      exact ⟨kept, .step ih.2 ⟨now.1, found⟩⟩
  exact both.2

end Nuntius.LabelledRuns
