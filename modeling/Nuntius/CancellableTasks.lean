import Nuntius.InteractivePrograms

/-!
# Tasks that can be dropped where they wait

A task owns a state while it runs. Some of its queries are served at once, by a write to that
state; at the others it waits, and only there can it be dropped. `drain` takes a task to its
next wait, or to its end. Whatever the task then is, it is what its program leaves after a
transcript, and the state carries exactly the writes of that transcript.
-/

namespace Nuntius.CancellableTasks
open InteractivePrograms

variable {Q : Type} {A : Q → Type} {R S : Type}

/-- `none` where the task waits. -/
abbrev Service (A : Q → Type) (S : Type) := (q : Q) → Option (S → S × A q)

/-- What is left of the program after the exchanges of the transcript. -/
inductive After : Prog A R → Transcript A → Prog A R → Prop where
  | now (p : Prog A R) : After p [] p
  | later {q : Q} {k : A q → Prog A R} {t : Transcript A} {p : Prog A R} (a : A q)
      (rest : After (k a) t p) : After (.ask q k) (⟨q, a⟩ :: t) p

theorem After.runs {p : Prog A R} {t : Transcript A} {r : R} (h : After p t (.ret r)) :
    Prog.Runs p t r := by
  generalize hend : (Prog.ret r : Prog A R) = p' at h
  induction h with
  | now p =>
    subst hend
    exact .ret r
  | later a rest ih => exact .ask a (ih hend)

theorem After.of_runs {p : Prog A R} {t : Transcript A} {r : R} (h : Prog.Runs p t r) :
    After p t (.ret r) := by
  induction h with
  | ret r => exact .now _
  | ask a rest ih => exact .later a ih

theorem After.asks {p : Prog A R} {t : Transcript A} {q : Q} {k : A q → Prog A R}
    (h : After p t (.ask q k)) : Prog.Asks p t q := by
  generalize hend : Prog.ask q k = p' at h
  induction h with
  | now p =>
    subst hend
    exact .now q k
  | later a rest ih => exact .later a (ih hend)

theorem After.trans {p p' p'' : Prog A R} {t u : Transcript A} (h : After p t p')
    (h' : After p' u p'') : After p (t ++ u) p'' := by
  induction h with
  | now p => exact h'
  | later a rest ih => exact .later a (ih h')

theorem after_ret {r : R} {t : Transcript A} {p : Prog A R} (h : After (.ret r) t p) :
    t = [] ∧ p = .ret r := by
  cases h
  exact ⟨rfl, rfl⟩

theorem after_ask {q : Q} {k : A q → Prog A R} {t : Transcript A} {p : Prog A R}
    (h : After (.ask q k) t p) :
    (t = [] ∧ p = .ask q k) ∨ ∃ a t', t = ⟨q, a⟩ :: t' ∧ After (k a) t' p := by
  cases h with
  | now => exact .inl ⟨rfl, rfl⟩
  | later a rest => exact .inr ⟨a, _, rfl, rest⟩

/-- A composite is still in its first part, or that part has returned. -/
theorem after_bind {p : Prog A R} {f : R → Prog A S} {t : Transcript A} {x : Prog A S}
    (h : After (p >>= f) t x) :
    (∃ q k, After p t (.ask q k) ∧ x = .ask q (fun a => k a >>= f)) ∨
      ∃ t₁ t₂ r, t = t₁ ++ t₂ ∧ Prog.Runs p t₁ r ∧ After (f r) t₂ x := by
  change After (p.bind f) t x at h
  induction p generalizing t with
  | ret r => exact .inr ⟨[], t, r, rfl, .ret r, h⟩
  | ask q k ih =>
    obtain ⟨rfl, rfl⟩ | ⟨a, t', rfl, rest⟩ := after_ask h
    · exact .inl ⟨q, k, .now _, rfl⟩
    · obtain ⟨q', k', hafter, hx⟩ | ⟨t₁, t₂, r, rfl, hr, hs⟩ := ih a rest
      · exact .inl ⟨q', k', .later a hafter, hx⟩
      · exact .inr ⟨⟨q, a⟩ :: t₁, t₂, r, rfl, .ask a hr, hs⟩

/-- Every query of the transcript was the outstanding one in its turn. -/
theorem After.asks_of_split {p p' : Prog A R} {t u : Transcript A} {q : Q} {a : A q}
    (h : After p (t ++ ⟨q, a⟩ :: u) p') : Prog.Asks p t q := by
  induction t generalizing p with
  | nil =>
    cases h with
    | later a rest => exact .now q _
  | cons e t ih =>
    cases h with
    | later a rest => exact .later a (ih rest)

theorem After.only {P : Q → Prop} {p p' : Prog A R} {t : Transcript A} (h : After p t p')
    (hp : Prog.Only P p) : ∀ e ∈ t, P e.1 := by
  induction h with
  | now p => simp
  | later a rest ih =>
    intro e he
    cases he with
    | head => exact hp.1
    | tail _ he => exact ih (hp.2 a) e he

variable (serve : Service A S)

/-- The state after one query. -/
def written (q : Q) (s : S) : S :=
  match serve q with
  | some write => (write s).1
  | none => s

/-- The state after the writes of a transcript. -/
def applied : Transcript A → S → S
  | [], s => s
  | e :: t, s => applied t (written serve e.1 s)

theorem applied_append (t u : Transcript A) (s : S) :
    applied serve (t ++ u) s = applied serve u (applied serve t s) := by
  induction t generalizing s with
  | nil => rfl
  | cons e t ih => exact ih _

/-- A transcript of waits writes nothing. -/
theorem applied_of_waits {t : Transcript A} (h : ∀ e ∈ t, serve e.1 = none) (s : S) :
    applied serve t s = s := by
  induction t with
  | nil => rfl
  | cons e t ih =>
    have hwait : written serve e.1 s = s := by
      rw [written, h e List.mem_cons_self]
    rw [applied, hwait]
    exact ih fun e' he' => h e' (List.mem_cons_of_mem e he')

/-- Serve what can be served at once. -/
def drain : S → Prog A R → S × Prog A R
  | s, .ret r => (s, .ret r)
  | s, .ask q k =>
    match serve q with
    | some write => drain (write s).1 (k (write s).2)
    | none => (s, .ask q k)

/-- A drained task that has not ended waits. -/
theorem drain_waits {s s' : S} {p : Prog A R} {q : Q} {k : A q → Prog A R}
    (h : drain serve s p = (s', .ask q k)) : serve q = none := by
  induction p generalizing s with
  | ret r => cases h
  | ask q' k' ih =>
    rw [drain] at h
    split at h
    · exact ih _ h
    · rename_i hwait
      cases h
      exact hwait

/-- The task that began as `p` on the state `s₀`. -/
def Reached (p : Prog A R) (s₀ : S) (now : S × Prog A R) : Prop :=
  ∃ t, After p t now.2 ∧ now.1 = applied serve t s₀

variable {serve} {p : Prog A R} {s₀ : S}

theorem Reached.start (p : Prog A R) (s₀ : S) : Reached serve p s₀ (s₀, p) :=
  ⟨[], .now p, rfl⟩

theorem Reached.drained {s : S} {p' : Prog A R} (h : Reached serve p s₀ (s, p')) :
    Reached serve p s₀ (drain serve s p') := by
  induction p' generalizing s with
  | ret r => exact h
  | ask q k ih =>
    rw [drain]
    split
    · rename_i write hserve
      obtain ⟨t, hafter, hstate⟩ := h
      refine ih _ ⟨t ++ [⟨q, (write s).2⟩], hafter.trans (.later _ (.now _)), ?_⟩
      have hwrite : written serve q s = (write s).1 := by
        rw [written, hserve]
      rw [applied_append, ← hstate]
      exact hwrite.symm
    · exact h

/-- An answered wait leaves the state alone. -/
theorem Reached.answered {s : S} {q : Q} {k : A q → Prog A R} (h : Reached serve p s₀ (s, .ask q k))
    (hwait : serve q = none) (a : A q) : Reached serve p s₀ (s, k a) := by
  obtain ⟨t, hafter, hstate⟩ := h
  refine ⟨t ++ [⟨q, a⟩], hafter.trans (.later a (.now _)), ?_⟩
  have hwrite : written serve q s = s := by
    rw [written, hwait]
  rw [applied_append, ← hstate]
  exact hwrite.symm

/-- A task that has ended ran to completion on the writes of its transcript. -/
theorem Reached.finished {s : S} {r : R} (h : Reached serve p s₀ (s, .ret r)) :
    ∃ t, Prog.Runs p t r ∧ s = applied serve t s₀ := by
  obtain ⟨t, hafter, hstate⟩ := h
  exact ⟨t, hafter.runs, hstate⟩

theorem Reached.waiting {s : S} {q : Q} {k : A q → Prog A R}
    (h : Reached serve p s₀ (s, .ask q k)) :
    ∃ t, Prog.Asks p t q ∧ s = applied serve t s₀ := by
  obtain ⟨t, hafter, hstate⟩ := h
  exact ⟨t, hafter.asks, hstate⟩

end Nuntius.CancellableTasks
