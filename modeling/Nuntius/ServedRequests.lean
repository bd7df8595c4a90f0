import Mathlib.Data.List.Induction

/-!
# Requests served one after the other

A server answers a request and moves to another state. Two servers that are related step by step
give the same answers.
-/

namespace Nuntius.ServedRequests

variable {S T Q A : Type}

def answers (serve : S → Q → A × S) (s : S) : List Q → List A
  | [] => []
  | q :: rest => (serve s q).1 :: answers serve (serve s q).2 rest

/-- The state after the requests. -/
def after (serve : S → Q → A × S) (s : S) (requests : List Q) : S :=
  requests.foldl (fun s q => (serve s q).2) s

theorem after_concat (serve : S → Q → A × S) (s : S) (older : List Q) (q : Q) :
    after serve s (older ++ [q]) = (serve (after serve s older) q).2 := by
  simp [after]

/-- A property of each request together with those before it. -/
def EachTime (P : List Q → Q → Prop) (requests : List Q) : Prop :=
  ∀ older q newer, requests = older ++ q :: newer → P older q

theorem eachTime_nil (P : List Q → Q → Prop) : EachTime P [] :=
  fun _ _ _ heq => absurd heq.symm (by simp)

theorem EachTime.concat {P : List Q → Q → Prop} {older : List Q} {q : Q}
    (each : EachTime P older) (h : P older q) : EachTime P (older ++ [q]) := by
  intro older' q' newer heq
  rcases List.eq_nil_or_concat newer with hnil | ⟨newer', last, hlast⟩
  · rw [hnil] at heq
    obtain ⟨hold, hq⟩ := List.append_inj' heq rfl
    cases hq
    exact hold ▸ h
  · rw [hlast, List.concat_eq_append, ← List.cons_append, ← List.append_assoc] at heq
    exact each older' q' newer' (List.append_inj' heq rfl).1

theorem EachTime.and {P P' : List Q → Q → Prop} {requests : List Q} (h : EachTime P requests)
    (h' : EachTime P' requests) : EachTime (fun older q => P older q ∧ P' older q) requests :=
  fun older q newer heq => ⟨h older q newer heq, h' older q newer heq⟩

theorem EachTime.of_append {P : List Q → Q → Prop} {requests more : List Q}
    (each : EachTime P (requests ++ more)) : EachTime P requests :=
  fun older q newer heq => each older q (newer ++ more) (by rw [heq]; simp)

/-- What holds at the start and is kept by every request holds after all of them. -/
theorem after_invariant {serve : S → Q → A × S} {P : List Q → Q → Prop} (I : List Q → S → Prop)
    {s : S} (start : I [] s)
    (keep : ∀ {older s q}, I older s → P older q → I (older ++ [q]) (serve s q).2)
    {requests : List Q} (each : EachTime P requests) : I requests (after serve s requests) := by
  induction requests using List.reverseRecOn with
  | nil => exact start
  | append_singleton older q ih =>
    rw [after_concat]
    exact keep (ih each.of_append) (each older q [] rfl)

/-- Servers that are related and answer alike at every request answer all of them alike. -/
theorem answers_eq_of_simulation {serve₁ : S → Q → A × S} {serve₂ : T → Q → A × T}
    {P : List Q → Q → Prop} (R : List Q → S → T → Prop)
    (keep : ∀ {older s t q}, R older s t → P older q →
      (serve₁ s q).1 = (serve₂ t q).1 ∧ R (older ++ [q]) (serve₁ s q).2 (serve₂ t q).2)
    {s : S} {t : T} (start : R [] s t) {requests : List Q} (each : EachTime P requests) :
    answers serve₁ s requests = answers serve₂ t requests := by
  suffices h : ∀ older s t rest, R older s t → EachTime P (older ++ rest) →
      answers serve₁ s rest = answers serve₂ t rest from h [] s t requests start each
  intro older s t rest
  induction rest generalizing older s t with
  | nil => intros; rfl
  | cons q rest ih =>
    intro related each
    obtain ⟨heq, hrel⟩ := keep related (each older q rest rfl)
    rw [answers, answers, heq, ih (older ++ [q]) _ _ hrel (by simpa using each)]

end Nuntius.ServedRequests
