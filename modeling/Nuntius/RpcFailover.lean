import Mathlib.Data.List.Rotate
import Nuntius.ServedRequests

/-!
# RPC failover

A read is tried on one endpoint after the other, beginning with the one that answered last.
Errors are their texts. A call is given by what each endpoint answers it, by its place in the list,
should it be contacted; the endpoints that are contacted are kept in order.
-/

namespace Nuntius.RpcFailover
open ServedRequests

variable {T V : Type}

/-- At least one endpoint, and the place of the one to begin with. -/
structure Failover (T : Type) where
  endpoints : List T
  sticky : ℕ
  sticky_lt : sticky < endpoints.length

def fromEndpoints (endpoints : List T) : Except String (Failover T) :=
  if h : 0 < endpoints.length then .ok ⟨endpoints, 0, h⟩ else .error "no RH RPC endpoints"

abbrev Call (V : Type) := ℕ → Except String V

structure Attempt (V : Type) where
  result : Except String V
  contacted : List ℕ
  /-- What is written to the sticky index. -/
  stored : Option ℕ

/-- The loop over the remaining offsets, with the last error. -/
def tryFrom (n start : ℕ) (call : Call V) : List ℕ → Option String → Attempt V
  | [], last => ⟨.error (last.getD "no RH RPC endpoints"), [], none⟩
  | off :: offs, _ =>
    let idx := (start + off) % n
    match call idx with
    | .ok v => ⟨.ok v, [idx], if off != 0 then some idx else none⟩
    | .error e =>
      let rest := tryFrom n start call offs (some e)
      { rest with contacted := idx :: rest.contacted }

theorem tryFrom_stored_lt {n start : ℕ} (pos : 0 < n) (call : Call V) (offs : List ℕ)
    (last : Option String) : ∀ idx ∈ (tryFrom n start call offs last).stored, idx < n := by
  induction offs generalizing last with
  | nil => simp [tryFrom]
  | cons off offs ih =>
    simp only [tryFrom]
    split
    · intro idx hidx
      simp only [Option.mem_def, Option.ite_none_right_eq_some] at hidx
      rw [← Option.some.inj hidx.2]
      exact Nat.mod_lt _ pos
    · exact ih _

structure Reply (V : Type) where
  result : Except String V
  contacted : List ℕ

namespace Failover

def attempt (f : Failover T) (call : Call V) : Attempt V :=
  let n := f.endpoints.length
  tryFrom n (f.sticky % n) call (List.range n) none

def rpc (f : Failover T) (call : Call V) : Reply V × Failover T :=
  (⟨(f.attempt call).result, (f.attempt call).contacted⟩,
    { f with
      sticky := (f.attempt call).stored.getD f.sticky
      sticky_lt := by
        cases h : (f.attempt call).stored with
        | none => exact f.sticky_lt
        | some idx => exact tryFrom_stored_lt (Nat.zero_lt_of_lt f.sticky_lt) call _ none idx h })

end Failover

/-! ### One call -/

/-- How a search along a list of places ends, and the place to begin with next time. -/
inductive Searched (call : Call V) (sticky : ℕ) (order : List ℕ) :
    Except String V → List ℕ → ℕ → Prop
  | answered {before after : List ℕ} {idx : ℕ} {v : V} (split : order = before ++ idx :: after)
      (failed : ∀ i ∈ before, ∃ e, call i = .error e) (answer : call idx = .ok v) :
      Searched call sticky order (.ok v) (before ++ [idx]) idx
  | failed (e : String) (all : ∀ i ∈ order, ∃ e, call i = .error e) :
      Searched call sticky order (.error e) order sticky

theorem Searched.cons_failed {call : Call V} {sticky sticky' i : ℕ} {order contacted : List ℕ}
    {result : Except String V} {e : String}
    (h : Searched call sticky order result contacted sticky') (hi : call i = .error e) :
    Searched call sticky (i :: order) result (i :: contacted) sticky' := by
  cases h with
  | answered split failed answer =>
    rw [split, ← List.cons_append, ← List.cons_append]
    exact .answered rfl (List.forall_mem_cons.mpr ⟨⟨e, hi⟩, failed⟩) answer
  | failed e' all => exact .failed e' (List.forall_mem_cons.mpr ⟨⟨e, hi⟩, all⟩)

theorem tryFrom_searched {n start : ℕ} (h : start < n) (call : Call V) (offs : List ℕ)
    (last : Option String) :
    Searched call start (offs.map fun off => (start + off) % n)
      (tryFrom n start call offs last).result (tryFrom n start call offs last).contacted
      ((tryFrom n start call offs last).stored.getD start) := by
  induction offs generalizing last with
  | nil => exact .failed _ (by simp)
  | cons off offs ih =>
    rw [List.map_cons, tryFrom]
    cases hcall : call ((start + off) % n) with
    | ok v =>
      -- at offset zero nothing is written, and nothing need be
      have hstored : (if off != 0 then some ((start + off) % n) else none).getD start =
          (start + off) % n := by
        cases off with
        | zero => simp [Nat.mod_eq_of_lt h]
        | succ off => rfl
      simp only [hstored]
      change Searched call start _ _ ([] ++ [_]) _
      exact .answered rfl (List.forall_mem_nil _) hcall
    | error e =>
      exact (ih _).cons_failed hcall

theorem map_range_eq_rotate (n start : ℕ) :
    ((List.range n).map fun off => (start + off) % n) = (List.range n).rotate start := by
  apply List.ext_getElem
  · simp
  · intro k _ _
    simp [List.getElem_rotate, Nat.add_comm]

/-- The places in cyclic order, from the sticky one. -/
def Failover.order (f : Failover T) : List ℕ := (List.range f.endpoints.length).rotate f.sticky

theorem mem_order {f : Failover T} {i : ℕ} : i ∈ f.order ↔ i < f.endpoints.length := by
  rw [Failover.order, List.mem_rotate, List.mem_range]

theorem nodup_order (f : Failover T) : f.order.Nodup :=
  List.nodup_rotate.mpr List.nodup_range

theorem rpc_searched (f : Failover T) (call : Call V) :
    Searched call f.sticky f.order (f.rpc call).1.result (f.rpc call).1.contacted
      (f.rpc call).2.sticky := by
  have h := tryFrom_searched f.sticky_lt call (List.range f.endpoints.length) none
  rw [map_range_eq_rotate] at h
  unfold Failover.rpc Failover.attempt Failover.order
  dsimp only
  rwa [Nat.mod_eq_of_lt f.sticky_lt]

/-! ### Calls one after the other -/

theorem after_endpoints (f : Failover T) (calls : List (Call V)) :
    (after Failover.rpc f calls).endpoints = f.endpoints := by
  induction calls using List.reverseRecOn with
  | nil => rfl
  | append_singleton calls call ih =>
    rw [after_concat]
    exact ih

/-- What is said of one call: it succeeds exactly if some endpoint answers it, no endpoint is
contacted twice, the answer is that of the first endpoint in cyclic order that has one, which is
the last to be contacted and the one to begin with next time. -/
structure FirstSuccess (f : Failover T) (call : Call V) : Prop where
  succeeds_iff : (∃ v, (f.rpc call).1.result = .ok v) ↔
    ∃ i < f.endpoints.length, ∃ v, call i = .ok v
  once : (f.rpc call).1.contacted.Nodup
  answered : ∀ v, (f.rpc call).1.result = .ok v →
    ∃ before idx after, (List.range f.endpoints.length).rotate f.sticky = before ++ idx :: after ∧
      (∀ i ∈ before, ∃ e, call i = .error e) ∧ call idx = .ok v ∧
      (f.rpc call).1.contacted = before ++ [idx] ∧ (f.rpc call).2.sticky = idx
  failed : ∀ e, (f.rpc call).1.result = .error e →
    (f.rpc call).1.contacted.length = f.endpoints.length ∧ (f.rpc call).2.sticky = f.sticky

theorem firstSuccess (f : Failover T) (call : Call V) : FirstSuccess f call := by
  have hsearched := rpc_searched f call
  generalize hresult : (f.rpc call).1.result = result at hsearched
  generalize hcontacted : (f.rpc call).1.contacted = contacted at hsearched
  generalize hsticky : (f.rpc call).2.sticky = sticky' at hsearched
  cases hsearched with
  | @answered before after idx v split failed answer =>
    subst hsticky
    refine ⟨⟨fun _ => ?_, fun _ => ⟨v, hresult⟩⟩, ?_, ?_, ?_⟩
    · exact ⟨_, mem_order.mp (by rw [split]; simp), v, answer⟩
    · have hnodup := nodup_order f
      rw [split, ← List.singleton_append, ← List.append_assoc] at hnodup
      rw [hcontacted]
      exact hnodup.of_append_left
    · intro w hw
      cases Except.ok.inj (hresult.symm.trans hw)
      exact ⟨before, _, after, split, failed, answer, hcontacted, rfl⟩
    · intro e he
      exact absurd (hresult.symm.trans he) (by simp)
  | failed e all =>
    refine ⟨⟨?_, ?_⟩, ?_, ?_, ?_⟩
    · rintro ⟨v, hv⟩
      exact absurd (hresult.symm.trans hv) (by simp)
    · rintro ⟨i, hi, v, hv⟩
      obtain ⟨e', he'⟩ := all i (mem_order.mpr hi)
      exact absurd (he'.symm.trans hv) (by simp)
    · rw [hcontacted]
      exact nodup_order f
    · intro v hv
      exact absurd (hresult.symm.trans hv) (by simp)
    · intro e' _
      rw [hcontacted]
      exact ⟨by simp [Failover.order], hsticky⟩

/-- The endpoint that answered the last call is asked first. -/
theorem head_of_order (f : Failover T) {before after : List ℕ} {idx : ℕ}
    (h : f.order = before ++ idx :: after) (hne : f.sticky ≠ idx) : f.sticky ∈ before := by
  have hhead : f.order.head? = some f.sticky := by
    rw [Failover.order, List.head?_rotate (by simpa using f.sticky_lt)]
    simp [f.sticky_lt]
  rw [h] at hhead
  cases before with
  | nil => exact absurd (Option.some.inj hhead).symm hne
  | cons i before =>
    rw [← Option.some.inj hhead]
    exact List.mem_cons_self

/-- Failover is a cyclic search for the first success, at every one of a sequence of calls. Two
calls in a row are answered by different endpoints only if the first of these failed the second
call. -/
theorem failover_is_cyclic_search (f : Failover T) (calls : List (Call V)) :
    EachTime (fun older call =>
      (after Failover.rpc f older).endpoints = f.endpoints ∧
        FirstSuccess (after Failover.rpc f older) call) calls ∧
    ∀ older first second newer, calls = older ++ first :: second :: newer →
      ∀ i j v w,
        ((after Failover.rpc f older).rpc first).1.result = .ok v →
        ((after Failover.rpc f older).rpc first).1.contacted.getLast? = some i →
        ((after Failover.rpc f (older ++ [first])).rpc second).1.result = .ok w →
        ((after Failover.rpc f (older ++ [first])).rpc second).1.contacted.getLast? = some j →
        i ≠ j → ∃ e, second i = .error e := by
  refine ⟨fun older call newer _ => ⟨after_endpoints f older, firstSuccess _ call⟩, ?_⟩
  intro older first second newer _ i j v w hfirst hi hsecond hj hne
  obtain ⟨before₁, idx₁, after₁, -, -, -, hcontacted₁, hsticky₁⟩ :=
    (firstSuccess (after Failover.rpc f older) first).answered v hfirst
  obtain ⟨before₂, idx₂, after₂, hsplit₂, hfailed₂, -, hcontacted₂, -⟩ :=
    (firstSuccess (after Failover.rpc f (older ++ [first])) second).answered w hsecond
  have hidx₁ : idx₁ = i := by simpa [hcontacted₁] using hi
  have hidx₂ : idx₂ = j := by simpa [hcontacted₂] using hj
  have hsticky : (after Failover.rpc f (older ++ [first])).sticky = i := by
    rw [after_concat, hsticky₁, hidx₁]
  apply hfailed₂
  rw [← hsticky]
  apply head_of_order _ hsplit₂
  rw [hsticky, hidx₂]
  exact hne

end Nuntius.RpcFailover
