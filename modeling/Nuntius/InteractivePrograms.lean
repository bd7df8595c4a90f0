import Mathlib.Data.List.Basic
import Mathlib.Data.Nat.Notation
import Mathlib.Logic.Basic

/-!
# Programs that question their environment

A program either returns or asks a query and continues with the answer. Nothing is
assumed about the environment, so a statement about every run covers every peer,
every remote node and every lying transport. A run records its transcript: the
queries asked, in order, with the answers they received. A program may also be cut off
at any query: `Asks` says which query it then had outstanding.
-/

namespace Nuntius.InteractivePrograms

/-- `A q` is the type of answers to the query `q`. -/
inductive Prog {Q : Type} (A : Q → Type) (R : Type) : Type where
  | ret (r : R)
  | ask (q : Q) (k : A q → Prog A R)

/-- Queries with their answers, in the order asked. -/
abbrev Transcript {Q : Type} (A : Q → Type) := List ((q : Q) × A q)

namespace Prog
variable {Q : Type} {A : Q → Type} {R S : Type}

def bind : Prog A R → (R → Prog A S) → Prog A S
  | ret r, f => f r
  | ask q k, f => ask q (fun a => (k a).bind f)

instance : Monad (Prog A) where
  pure := ret
  bind := bind

/-- Ask one query and return its answer. -/
def query (q : Q) : Prog A (A q) := ask q ret

/-- A complete execution with the transcript of its queries. -/
inductive Runs : Prog A R → Transcript A → R → Prop where
  | ret (r : R) : Runs (.ret r) [] r
  | ask {q : Q} {k : A q → Prog A R} {t : Transcript A} {r : R} (a : A q)
      (rest : Runs (k a) t r) : Runs (.ask q k) (⟨q, a⟩ :: t) r

@[simp] theorem runs_ret {r r' : R} {t : Transcript A} :
    Runs (.ret r : Prog A R) t r' ↔ t = [] ∧ r' = r := by
  constructor
  · intro h
    cases h
    exact ⟨rfl, rfl⟩
  · rintro ⟨rfl, rfl⟩
    exact .ret _

@[simp] theorem runs_pure {r r' : R} {t : Transcript A} :
    Runs (pure r : Prog A R) t r' ↔ t = [] ∧ r' = r := runs_ret

@[simp] theorem runs_ask {q : Q} {k : A q → Prog A R} {t : Transcript A} {r : R} :
    Runs (.ask q k) t r ↔ ∃ a t', t = ⟨q, a⟩ :: t' ∧ Runs (k a) t' r := by
  constructor
  · intro h
    cases h with
    | ask a rest => exact ⟨a, _, rfl, rest⟩
  · rintro ⟨a, t', rfl, rest⟩
    exact .ask a rest

@[simp] theorem runs_query {q : Q} {t : Transcript A} {a : A q} :
    Runs (query q : Prog A (A q)) t a ↔ t = [⟨q, a⟩] := by
  simp only [query, runs_ask, runs_ret]
  constructor
  · rintro ⟨b, t', rfl, rfl, rfl⟩
    rfl
  · rintro rfl
    exact ⟨a, [], rfl, rfl, rfl⟩

/-- The transcript of a composite splits at the intermediate result. -/
theorem runs_bind {p : Prog A R} {f : R → Prog A S} {t : Transcript A} {s : S} :
    Runs (p >>= f) t s ↔ ∃ t₁ t₂ r, t = t₁ ++ t₂ ∧ Runs p t₁ r ∧ Runs (f r) t₂ s := by
  change Runs (p.bind f) t s ↔ _
  induction p generalizing t with
  | ret r =>
    constructor
    · intro h
      exact ⟨[], t, r, rfl, .ret r, h⟩
    · rintro ⟨t₁, t₂, r', rfl, hr, hs⟩
      obtain ⟨rfl, rfl⟩ := runs_ret.mp hr
      exact hs
  | ask q k ih =>
    constructor
    · intro h
      obtain ⟨a, t', rfl, rest⟩ := runs_ask.mp h
      obtain ⟨t₁, t₂, r, rfl, hr, hs⟩ := (ih a).mp rest
      exact ⟨⟨q, a⟩ :: t₁, t₂, r, rfl, .ask a hr, hs⟩
    · rintro ⟨t₁, t₂, r, rfl, hr, hs⟩
      obtain ⟨a, t', rfl, rest⟩ := runs_ask.mp hr
      exact .ask a ((ih a).mpr ⟨t', t₂, r, rfl, rest, hs⟩)

/-- Execute against an environment that answers by the number of queries so far. -/
def exec (env : ℕ → (q : Q) → A q) : ℕ → Prog A R → Transcript A × R
  | _, ret r => ([], r)
  | n, ask q k =>
    let rest := exec env (n + 1) (k (env n q))
    (⟨q, env n q⟩ :: rest.1, rest.2)

theorem exec_runs (env : ℕ → (q : Q) → A q) (n : ℕ) (p : Prog A R) :
    Runs p (exec env n p).1 (exec env n p).2 := by
  induction p generalizing n with
  | ret r => exact .ret r
  | ask q k ih => exact .ask (env n q) (ih (env n q) (n + 1))

/-- After the exchanges of the transcript the program puts the query next. -/
inductive Asks : Prog A R → Transcript A → Q → Prop where
  | now (q : Q) (k : A q → Prog A R) : Asks (.ask q k) [] q
  | later {q q' : Q} {k : A q → Prog A R} {t : Transcript A} (a : A q)
      (rest : Asks (k a) t q') : Asks (.ask q k) (⟨q, a⟩ :: t) q'

@[simp] theorem asks_ret {r : R} {t : Transcript A} {q : Q} :
    ¬ Asks (.ret r : Prog A R) t q := by
  intro h
  cases h

theorem asks_ask {q q' : Q} {k : A q → Prog A R} {t : Transcript A} :
    Asks (.ask q k) t q' ↔ (t = [] ∧ q' = q) ∨ ∃ a t', t = ⟨q, a⟩ :: t' ∧ Asks (k a) t' q' := by
  constructor
  · intro h
    cases h with
    | now => exact .inl ⟨rfl, rfl⟩
    | later a rest => exact .inr ⟨a, _, rfl, rest⟩
  · rintro (⟨rfl, rfl⟩ | ⟨a, t', rfl, rest⟩)
    · exact .now _ _
    · exact .later a rest

@[simp] theorem asks_query {q q' : Q} {t : Transcript A} :
    Asks (query q : Prog A (A q)) t q' ↔ t = [] ∧ q' = q := by
  rw [query, asks_ask]
  simp

/-- A composite asks while its first part runs, or after it has returned. -/
theorem asks_bind {p : Prog A R} {f : R → Prog A S} {t : Transcript A} {q : Q} :
    Asks (p >>= f) t q ↔
      Asks p t q ∨ ∃ t₁ t₂ r, t = t₁ ++ t₂ ∧ Runs p t₁ r ∧ Asks (f r) t₂ q := by
  change Asks (p.bind f) t q ↔ _
  induction p generalizing t with
  | ret r =>
    constructor
    · intro h
      exact .inr ⟨[], t, r, rfl, .ret r, h⟩
    · rintro (h | ⟨t₁, t₂, r', rfl, hr, hs⟩)
      · exact absurd h asks_ret
      · obtain ⟨rfl, rfl⟩ := runs_ret.mp hr
        exact hs
  | ask q₀ k ih =>
    rw [bind, asks_ask, asks_ask]
    constructor
    · rintro (h | ⟨a, t', rfl, rest⟩)
      · exact .inl (.inl h)
      · obtain h | ⟨t₁, t₂, r, rfl, hr, hs⟩ := (ih a).mp rest
        · exact .inl (.inr ⟨a, t', rfl, h⟩)
        · exact .inr ⟨⟨q₀, a⟩ :: t₁, t₂, r, rfl, .ask a hr, hs⟩
    · rintro ((h | ⟨a, t', rfl, h⟩) | ⟨t₁, t₂, r, rfl, hr, hs⟩)
      · exact .inl h
      · exact .inr ⟨a, t', rfl, (ih a).mpr (.inl h)⟩
      · obtain ⟨a, t', rfl, rest⟩ := runs_ask.mp hr
        exact .inr ⟨a, t' ++ t₂, rfl, (ih a).mpr (.inr ⟨t', t₂, r, rfl, rest, hs⟩)⟩

/-- A transcript after which a program has returned leaves no query outstanding. -/
theorem Runs.not_asks {p : Prog A R} {t : Transcript A} {r : R} {q : Q} (h : Runs p t r) :
    ¬ Asks p t q := by
  induction h with
  | ret r => exact asks_ret
  | ask a rest ih =>
    intro hasks
    cases hasks with
    | later a rest => exact ih rest

/-- The answers decide the result. -/
theorem Runs.unique {p : Prog A R} {t : Transcript A} {r r' : R} (h : Runs p t r)
    (h' : Runs p t r') : r = r' := by
  induction h with
  | ret r => exact (runs_ret.mp h').2.symm
  | ask a rest ih =>
    cases h' with
    | ask a rest' => exact ih rest'

/-- One query whose answer is not used. -/
theorem runs_query_pure {q : Q} {r r' : R} {t : Transcript A}
    (h : Runs (query q >>= fun _ => (pure r : Prog A R)) t r') : ∃ a, t = [⟨q, a⟩] ∧ r' = r := by
  obtain ⟨t₁, t₂, a, rfl, hq, hret⟩ := runs_bind.mp h
  obtain ⟨rfl, rfl⟩ := runs_pure.mp hret
  rw [runs_query.mp hq]
  exact ⟨a, rfl, rfl⟩

theorem asks_query_pure {q q' : Q} {r : R} {t : Transcript A}
    (h : Asks (query q >>= fun _ => (pure r : Prog A R)) t q') : q' = q := by
  obtain h | ⟨_, _, _, rfl, -, h⟩ := asks_bind.mp h
  · exact (asks_query.mp h).2
  · exact absurd h asks_ret

/-- Answer every query by a program of its own. -/
def interp {Q' : Type} {B : Q' → Type} (h : (q : Q) → Prog B (A q)) : Prog A R → Prog B R
  | ret r => ret r
  | ask q k => h q >>= fun a => interp h (k a)

/-- The lower transcript consists of one run for every answer of the upper one. -/
inductive Realizes {Q' : Type} {B : Q' → Type} (h : (q : Q) → Prog B (A q)) :
    Transcript A → Transcript B → Prop where
  | nil : Realizes h [] []
  | cons {q : Q} {a : A q} {t : Transcript A} {u v : Transcript B} (run : Runs (h q) u a)
      (rest : Realizes h t v) : Realizes h (⟨q, a⟩ :: t) (u ++ v)

/-- A run of the interpreted program is a run of the program above it. -/
theorem runs_interp {Q' : Type} {B : Q' → Type} {h : (q : Q) → Prog B (A q)} {p : Prog A R}
    {u : Transcript B} {r : R} (run : Runs (interp h p) u r) :
    ∃ t, Runs p t r ∧ Realizes h t u := by
  induction p generalizing u with
  | ret r' =>
    obtain ⟨rfl, rfl⟩ := runs_ret.mp run
    exact ⟨[], .ret r, .nil⟩
  | ask q k ih =>
    obtain ⟨u₁, u₂, a, rfl, hq, hrest⟩ := runs_bind.mp run
    obtain ⟨t, hrun, hreal⟩ := ih a hrest
    exact ⟨⟨q, a⟩ :: t, .ask a hrun, .cons hq hreal⟩

/-- Every answer of the upper transcript has its run inside the lower one. -/
theorem Realizes.run_of_mem {Q' : Type} {B : Q' → Type} {h : (q : Q) → Prog B (A q)}
    {t : Transcript A} {u : Transcript B} (real : Realizes h t u) {q : Q} {a : A q}
    (hmem : ⟨q, a⟩ ∈ t) : ∃ v, Runs (h q) v a ∧ v <:+: u := by
  induction real with
  | nil => cases hmem
  | @cons q' a' t u v run rest ih =>
    cases hmem with
    | head => exact ⟨u, run, [], v, rfl⟩
    | tail _ hmem =>
      obtain ⟨w, hrun, hinfix⟩ := ih hmem
      exact ⟨w, hrun, hinfix.trans (List.suffix_append u v).isInfix⟩

/-- Every query the program can ever ask satisfies `P`. -/
def Only (P : Q → Prop) : Prog A R → Prop
  | ret _ => True
  | ask q k => P q ∧ ∀ a, Only P (k a)

theorem Only.bind {P : Q → Prop} {p : Prog A R} {f : R → Prog A S} (hp : Only P p)
    (hf : ∀ r, Only P (f r)) : Only P (p >>= f) := by
  change Only P (p.bind f)
  induction p with
  | ret r => exact hf r
  | ask q k ih => exact ⟨hp.1, fun a => ih a (hp.2 a)⟩

theorem Only.mono {P P' : Q → Prop} (hP : ∀ q, P q → P' q) {p : Prog A R} (hp : Only P p) :
    Only P' p := by
  induction p with
  | ret r => trivial
  | ask q k ih => exact ⟨hP q hp.1, fun a => ih a (hp.2 a)⟩

theorem Only.of_mem {P : Q → Prop} {p : Prog A R} {t : Transcript A} {r : R} (hp : Only P p)
    (h : Runs p t r) : ∀ e ∈ t, P e.1 := by
  induction h with
  | ret r => simp
  | ask a rest ih =>
    intro e he
    cases he with
    | head => exact hp.1
    | tail _ he => exact ih (hp.2 a) e he

theorem Only.of_asks {P : Q → Prop} {p : Prog A R} {t : Transcript A} {q : Q} (hp : Only P p)
    (h : Asks p t q) : ∀ e ∈ t, P e.1 := by
  induction h with
  | now q k => simp
  | later a rest ih =>
    intro e he
    cases he with
    | head => exact hp.1
    | tail _ he => exact ih (hp.2 a) e he

theorem Only.of_outstanding {P : Q → Prop} {p : Prog A R} {t : Transcript A} {q : Q}
    (hp : Only P p) (h : Asks p t q) : P q := by
  induction h with
  | now q k => exact hp.1
  | later a rest ih => exact ih (hp.2 a)

/-- An interpreted program asks what its handlers ask. -/
theorem Only.interp {Q' : Type} {B : Q' → Type} {h : (q : Q) → Prog B (A q)} {P : Q' → Prop}
    (hh : ∀ q, Only P (h q)) (p : Prog A R) : Only P (interp h p) := by
  induction p with
  | ret r => trivial
  | ask q k ih => exact (hh q).bind ih

/-- A realised transcript splits where the upper one does. -/
theorem Realizes.of_append {Q' : Type} {B : Q' → Type} {h : (q : Q) → Prog B (A q)}
    {t t' : Transcript A} {u : Transcript B} (real : Realizes h (t ++ t') u) :
    ∃ v w, u = v ++ w ∧ Realizes h t v ∧ Realizes h t' w := by
  induction t generalizing u with
  | nil => exact ⟨[], u, rfl, .nil, real⟩
  | cons e t ih =>
    cases real with
    | cons run rest =>
      obtain ⟨v, w, rfl, hv, hw⟩ := ih rest
      exact ⟨_ ++ v, w, (List.append_assoc _ v w).symm, .cons run hv, hw⟩

/-- Bookkeeping along a program: at every query the record so far allows it, and whatever the
program returns, the record and the result satisfy `post`. -/
def Obeys {σ : Type} (allowed : σ → Q → Prop) (next : σ → Q → σ) (post : R → σ → Prop) :
    σ → Prog A R → Prop
  | s, ret r => post r s
  | s, ask q k => allowed s q ∧ ∀ a, Obeys allowed next post (next s q) (k a)

section Obeys
variable {σ : Type} {allowed : σ → Q → Prop} {next : σ → Q → σ}

/-- The record after the queries of a transcript. -/
def record (next : σ → Q → σ) (s : σ) (t : Transcript A) : σ := t.foldl (fun s e => next s e.1) s

theorem Obeys.bind {mid : R → σ → Prop} {post : S → σ → Prop} {p : Prog A R} {f : R → Prog A S}
    {s : σ} (hp : Obeys allowed next mid s p)
    (hf : ∀ r s', mid r s' → Obeys allowed next post s' (f r)) :
    Obeys allowed next post s (p >>= f) := by
  change Obeys allowed next post s (p.bind f)
  induction p generalizing s with
  | ret r => exact hf r s hp
  | ask q k ih => exact ⟨hp.1, fun a => ih a (hp.2 a)⟩

theorem Obeys.of_asks {post : R → σ → Prop} {p : Prog A R} {s : σ} {t : Transcript A} {q : Q}
    (hp : Obeys allowed next post s p) (h : Asks p t q) : allowed (record next s t) q := by
  induction h generalizing s with
  | now q k => exact hp.1
  | later a rest ih => exact ih (hp.2 a)

theorem Obeys.of_runs {post : R → σ → Prop} {p : Prog A R} {s : σ} {t : Transcript A} {r : R}
    (hp : Obeys allowed next post s p) (h : Runs p t r) : post r (record next s t) := by
  induction h generalizing s with
  | ret r => exact hp
  | ask a rest ih => exact ih (hp.2 a)

end Obeys

/-- Run under a budget that may end while any query is outstanding. -/
def cutOff : Prog A R → Prog (fun q => Option (A q)) (Option R)
  | ret r => ret (some r)
  | ask q k => ask q fun
    | some a => cutOff (k a)
    | none => ret none

/-- What a program returns within its budget it returns without one. -/
theorem runs_cutOff {p : Prog A R} {u : Transcript (fun q => Option (A q))} {r : R}
    (h : Runs (cutOff p) u (some r)) :
    ∃ t, Runs p t r ∧ u = t.map fun e => ⟨e.1, some e.2⟩ := by
  induction p generalizing u with
  | ret r' =>
    obtain ⟨rfl, hr⟩ := runs_ret.mp h
    cases hr
    exact ⟨[], .ret r, rfl⟩
  | ask q k ih =>
    rw [cutOff] at h
    obtain ⟨answer, u', rfl, hrest⟩ := runs_ask.mp h
    cases answer with
    | none => cases (runs_ret.mp hrest).2
    | some a =>
      obtain ⟨t, hrun, rfl⟩ := ih a hrest
      exact ⟨⟨q, a⟩ :: t, .ask a hrun, rfl⟩

end Prog

/-- Programs that may fail with a coded error. -/
abbrev Fallible {Q : Type} (A : Q → Type) (ε : Type) := ExceptT ε (Prog A)

namespace Fallible
variable {Q : Type} {A : Q → Type} {ε R S : Type}

/-- A completed run of a fallible program. -/
def Runs (p : Fallible A ε R) (t : Transcript A) (r : Except ε R) : Prop :=
  Prog.Runs p.run t r

/-- Ask a query inside a fallible program. -/
def query (q : Q) : Fallible A ε (A q) := ExceptT.lift (Prog.query q)

/-- Continue with a value, or stop with its error. -/
def ofExcept (e : Except ε R) : Fallible A ε R := ExceptT.mk (pure e)

@[simp] theorem runs_pure_ok {r r' : R} {t : Transcript A} :
    Runs (pure r : Fallible A ε R) t (.ok r') ↔ t = [] ∧ r' = r := by
  change Prog.Runs (.ret (Except.ok r)) t (Except.ok r') ↔ _
  rw [Prog.runs_ret, Except.ok.injEq]

@[simp] theorem runs_throw_ok {e : ε} {r : R} {t : Transcript A} :
    ¬ Runs (throw e : Fallible A ε R) t (.ok r) := by
  intro h
  have := (Prog.runs_ret.mp (h : Prog.Runs (.ret (Except.error e)) t (Except.ok r))).2
  cases this

@[simp] theorem runs_ofExcept_ok {e : Except ε R} {r : R} {t : Transcript A} :
    Runs (ofExcept e : Fallible A ε R) t (.ok r) ↔ t = [] ∧ e = .ok r := by
  change Prog.Runs (.ret e) t (Except.ok r) ↔ _
  rw [Prog.runs_ret, eq_comm (a := Except.ok r)]

@[simp] theorem runs_query_ok {q : Q} {t : Transcript A} {a : A q} :
    Runs (query q : Fallible A ε (A q)) t (.ok a) ↔ t = [⟨q, a⟩] := by
  change Prog.Runs (.ask q fun b => .ret (Except.ok b)) t (Except.ok a) ↔ _
  simp only [Prog.runs_ask, Prog.runs_ret]
  constructor
  · rintro ⟨b, t', rfl, rfl, h⟩
    cases h
    rfl
  · rintro rfl
    exact ⟨a, [], rfl, rfl, rfl⟩

/-- A composite succeeds exactly when both parts do. -/
theorem runs_bind_ok {p : Fallible A ε R} {f : R → Fallible A ε S} {t : Transcript A} {s : S} :
    Runs (p >>= f) t (.ok s) ↔
      ∃ t₁ t₂ r, t = t₁ ++ t₂ ∧ Runs p t₁ (.ok r) ∧ Runs (f r) t₂ (.ok s) := by
  change Prog.Runs (p.run >>= ExceptT.bindCont f) t (Except.ok s) ↔ _
  rw [Prog.runs_bind]
  constructor
  · rintro ⟨t₁, t₂, r, rfl, hr, hs⟩
    cases r with
    | ok r => exact ⟨t₁, t₂, r, rfl, hr, hs⟩
    | error e => exact absurd (Prog.runs_ret.mp hs).2 (by simp)
  · rintro ⟨t₁, t₂, r, rfl, hr, hs⟩
    exact ⟨t₁, t₂, .ok r, rfl, hr, hs⟩

/-- A fallible program's outstanding query. -/
def Asks (p : Fallible A ε R) (t : Transcript A) (q : Q) : Prop := Prog.Asks p.run t q

/-- Run a program and hand on its outcome, failure included. -/
def attempt (p : Fallible A ε R) : Fallible A ε (Except ε R) := ExceptT.lift p.run

@[simp] theorem asks_pure {r : R} {t : Transcript A} {q : Q} :
    ¬ Asks (pure r : Fallible A ε R) t q := Prog.asks_ret

@[simp] theorem asks_throw {e : ε} {t : Transcript A} {q : Q} :
    ¬ Asks (throw e : Fallible A ε R) t q := Prog.asks_ret

@[simp] theorem asks_ofExcept {e : Except ε R} {t : Transcript A} {q : Q} :
    ¬ Asks (ofExcept e : Fallible A ε R) t q := Prog.asks_ret

@[simp] theorem asks_query {q q' : Q} {t : Transcript A} :
    Asks (query q : Fallible A ε (A q)) t q' ↔ t = [] ∧ q' = q := by
  change Prog.Asks (.ask q fun b => .ret (Except.ok b)) t q' ↔ _
  rw [Prog.asks_ask]
  simp

theorem asks_bind {p : Fallible A ε R} {f : R → Fallible A ε S} {t : Transcript A} {q : Q} :
    Asks (p >>= f) t q ↔
      Asks p t q ∨ ∃ t₁ t₂ r, t = t₁ ++ t₂ ∧ Runs p t₁ (.ok r) ∧ Asks (f r) t₂ q := by
  change Prog.Asks (p.run >>= ExceptT.bindCont f) t q ↔ _
  rw [Prog.asks_bind]
  constructor
  · rintro (h | ⟨t₁, t₂, r, rfl, hr, hs⟩)
    · exact .inl h
    · cases r with
      | ok r => exact .inr ⟨t₁, t₂, r, rfl, hr, hs⟩
      | error e => exact absurd hs Prog.asks_ret
  · rintro (h | ⟨t₁, t₂, r, rfl, hr, hs⟩)
    · exact .inl h
    · exact .inr ⟨t₁, t₂, .ok r, rfl, hr, hs⟩

theorem run_attempt (p : Fallible A ε R) :
    (attempt p).run = p.run >>= fun e => .ret (Except.ok e) := rfl

@[simp] theorem runs_attempt_ok {p : Fallible A ε R} {t : Transcript A} {e : Except ε R} :
    Runs (attempt p) t (.ok e) ↔ Runs p t e := by
  rw [Runs, run_attempt, Prog.runs_bind]
  constructor
  · rintro ⟨t₁, t₂, e', rfl, hp, hret⟩
    obtain ⟨rfl, he⟩ := Prog.runs_ret.mp hret
    cases he
    rw [List.append_nil]
    exact hp
  · intro hp
    exact ⟨t, [], e, (List.append_nil t).symm, hp, .ret _⟩

@[simp] theorem asks_attempt {p : Fallible A ε R} {t : Transcript A} {q : Q} :
    Asks (attempt p) t q ↔ Asks p t q := by
  rw [Asks, run_attempt, Prog.asks_bind]
  simp [Asks]

/-- Rename the errors of a program. -/
def mapError {ε' : Type} (f : ε → ε') (p : Fallible A ε R) : Fallible A ε' R :=
  ExceptT.mk (p.run >>= fun e => .ret (e.mapError f))

@[simp] theorem runs_mapError_ok {ε' : Type} {f : ε → ε'} {p : Fallible A ε R} {t : Transcript A}
    {r : R} : Runs (mapError f p) t (.ok r) ↔ Runs p t (.ok r) := by
  change Prog.Runs (p.run >>= fun e => .ret (e.mapError f)) t (Except.ok r) ↔ _
  rw [Prog.runs_bind]
  constructor
  · rintro ⟨t₁, t₂, e, rfl, hp, hret⟩
    obtain ⟨rfl, he⟩ := Prog.runs_ret.mp hret
    cases e with
    | error e => cases he
    | ok r' =>
      cases he
      rw [List.append_nil]
      exact hp
  · intro hp
    exact ⟨t, [], .ok r, (List.append_nil t).symm, hp, .ret _⟩

/-- Every query a fallible program can ever ask satisfies `P`. -/
def Only (P : Q → Prop) (p : Fallible A ε R) : Prop := Prog.Only P p.run

theorem only_pure {P : Q → Prop} (r : R) : Only P (pure r : Fallible A ε R) := trivial

theorem only_ofExcept {P : Q → Prop} (e : Except ε R) :
    Only P (ofExcept e : Fallible A ε R) := trivial

theorem only_query {P : Q → Prop} {q : Q} (h : P q) :
    Only P (query q : Fallible A ε (A q)) := ⟨h, fun _ => trivial⟩

theorem Only.bind {P : Q → Prop} {p : Fallible A ε R} {f : R → Fallible A ε S} (hp : Only P p)
    (hf : ∀ r, Only P (f r)) : Only P (p >>= f) := by
  apply Prog.Only.bind hp
  intro r
  cases r with
  | ok r => exact hf r
  | error e => trivial

/-- An error ends the composite; a value is handed on. -/
theorem Obeys.bind {σ : Type} {allowed : σ → Q → Prop} {next : σ → Q → σ}
    {mid : Except ε R → σ → Prop} {post : Except ε S → σ → Prop} {p : Fallible A ε R}
    {f : R → Fallible A ε S} {s : σ} (hp : Prog.Obeys allowed next mid s p.run)
    (herror : ∀ e s', mid (.error e) s' → post (.error e) s')
    (hok : ∀ r s', mid (.ok r) s' → Prog.Obeys allowed next post s' (f r).run) :
    Prog.Obeys allowed next post s (p >>= f).run := by
  apply Prog.Obeys.bind hp
  intro r s' hmid
  cases r with
  | ok r => exact hok r s' hmid
  | error e => exact herror e s' hmid

/-- An attempt hands on the outcome of its program. -/
theorem Obeys.attempt {σ : Type} {allowed : σ → Q → Prop} {next : σ → Q → σ}
    {mid : Except ε R → σ → Prop} {p : Fallible A ε R} {s : σ}
    (hp : Prog.Obeys allowed next mid s p.run) :
    Prog.Obeys allowed next (fun r s' => ∃ e, r = .ok e ∧ mid e s') s (attempt p).run := by
  rw [run_attempt]
  exact Prog.Obeys.bind hp fun e s' hmid => ⟨e, rfl, hmid⟩

end Fallible

end Nuntius.InteractivePrograms
