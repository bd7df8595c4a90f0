import Nuntius.RateLimiter

/-!
# The rate limit on intervals

As long as the cap leaves every live bucket alone, a key gets on any closed interval at most the
tokens of a full bucket and those of the refill, and denied calls cost nothing.
-/

namespace Nuntius.PullApi
open ServedRequests TokenBuckets

variable {K : Type} [DecidableEq K]

def ask (c : K × ℚ) : Call K := ⟨c.1, c.2, .isAllowed⟩

/-- The answers of a new limiter to calls of `is_allowed`, each a key with its time. -/
def decisions (limit window : ℚ) (maxKeys : ℕ) (calls : List (K × ℚ)) : List Bool :=
  answers (fun r (c : K × ℚ) => r.isAllowed c.1 c.2) (RateLimiter.new limit window maxKeys) calls

theorem answers_map_ask (r : RateLimiter K) (calls : List (K × ℚ)) :
    answers RateLimiter.call r (calls.map ask) =
      (answers (fun r (c : K × ℚ) => r.isAllowed c.1 c.2) r calls).map .allowed := by
  induction calls generalizing r with
  | nil => rfl
  | cons c calls ih =>
    rw [List.map_cons, answers, answers, List.map_cons, ← ih]
    rfl

theorem answerBy_map_ask (limit rate : ℚ) (f : Forecast K ℚ) (calls : List (K × ℚ)) :
    answers (answerBy limit rate) f (calls.map ask) = (grants limit rate f calls).map .allowed := by
  induction calls generalizing f with
  | nil => rfl
  | cons c calls ih =>
    rw [List.map_cons, answers, grants, List.map_cons, ← ih]
    rfl

section Calls
variable {limit window : ℚ} {maxKeys : ℕ} {calls fewer : List (K × ℚ)}

theorem decisions_eq_grants (limit_nonneg : 0 ≤ limit) (window_pos : 0 < window)
    (inTime : InTime (calls.map ask)) (calm : Calm window maxKeys (calls.map ask)) :
    decisions limit window maxKeys calls =
      grants limit (limit / window) (fun _ _ => limit) calls := by
  have hinj : Function.Injective Answer.allowed := fun _ _ h => Answer.allowed.inj h
  apply hinj.list_map
  rw [decisions, ← answers_map_ask, ← answerBy_map_ask]
  exact answers_call limit_nonneg window_pos inTime calm

omit [DecidableEq K] in
theorem InTime.ordered (inTime : InTime (calls.map ask)) : ∃ now, Ordered now calls := by
  rw [InTime, List.pairwise_map] at inTime
  cases calls with
  | nil => exact ⟨0, List.pairwise_singleton ..⟩
  | cons c calls =>
    refine ⟨c.2, ordered_cons.mpr ⟨le_rfl, ?_⟩⟩
    obtain ⟨hfirst, hrest⟩ := List.pairwise_cons.mp inTime
    refine List.pairwise_cons.mpr ⟨?_, List.pairwise_map.mpr hrest⟩
    intro t ht
    obtain ⟨d, hd, rfl⟩ := List.mem_map.mp ht
    exact hfirst d hd

/-- Fewer calls use fewer keys. -/
theorem Calm.sublist {all some : List (Call K)} (calm : Calm window maxKeys all)
    (h : some.Sublist all) : Calm window maxKeys some := by
  intro older c newer heq
  rw [heq] at h
  obtain ⟨before, rest, hall, hbefore, hrest⟩ := List.append_sublist_iff.mp h
  obtain ⟨front, back, hsplit, hc, -⟩ := List.cons_sublist_iff.mp hrest
  obtain ⟨left, right, hfront⟩ := List.append_of_mem hc
  have hwhole : all = (before ++ left) ++ c :: (right ++ back) := by
    rw [hall, hsplit, hfront]
    simp
  have hold : (older ++ [c]).Sublist (before ++ left ++ [c]) :=
    (hbefore.trans (List.sublist_append_left before left)).append_right [c]
  refine le_trans (Finset.card_le_card ?_) (calm (before ++ left) c (right ++ back) hwhole)
  intro key hkey
  rw [keysWithin, List.mem_toFinset] at hkey ⊢
  exact ((hold.filter _).map Call.key).subset hkey

end Calls

/-- On every closed interval a key is allowed at most a full bucket and the refill of the
interval, and the calls that were denied might as well not have been made. -/
theorem rate_limit_on_intervals {limit window : ℚ} (one_le_limit : 1 ≤ limit)
    (window_pos : 0 < window) (maxKeys : ℕ) (calls : List (K × ℚ))
    (inTime : InTime (calls.map ask)) (calm : Calm window maxKeys (calls.map ask)) :
    (∀ key start w, 0 ≤ w →
      (grantedIn key start (start + w) calls (decisions limit window maxKeys calls) : ℚ) ≤
        limit + w * limit / window) ∧
    decisions limit window maxKeys
        ((granted calls (decisions limit window maxKeys calls)).map Prod.fst) =
      (granted calls (decisions limit window maxKeys calls)).map Prod.snd := by
  have limit_nonneg : 0 ≤ limit := zero_le_one.trans one_le_limit
  have rate_nonneg : 0 ≤ limit / window := div_nonneg limit_nonneg window_pos.le
  obtain ⟨now, hordered⟩ := inTime.ordered
  have hfull : Refills limit (limit / window) now (fun _ _ => limit : Forecast K ℚ) :=
    refills_full limit_nonneg rate_nonneg
  constructor
  · intro key start w hw
    rw [decisions_eq_grants limit_nonneg window_pos inTime calm]
    have hbound := grantedIn_le limit_nonneg rate_nonneg key hfull hordered
      (le_add_of_nonneg_right hw : start ≤ start + w)
    rwa [add_sub_cancel_left, ← mul_div_assoc] at hbound
  · have hsub := (granted_sublist calls (decisions limit window maxKeys calls)).map ask
    rw [decisions_eq_grants limit_nonneg window_pos (List.Pairwise.sublist hsub inTime)
      (calm.sublist hsub), decisions_eq_grants limit_nonneg window_pos inTime calm]
    exact grants_granted limit_nonneg rate_nonneg hfull hordered

/-- A key that asks more often than it may, and another one. -/
def demoAsks : List (ℕ × ℚ) := [(0, 0), (0, 0), (0, 1), (1, 2), (0, 5), (0, 6)]

theorem rate_limit_on_intervals_demo :
    (grantedIn 0 0 (0 + 5) demoAsks (decisions 2 10 2 demoAsks) : ℚ) ≤ 2 + 5 * 2 / 10 ∧
      decisions 2 10 2 ((granted demoAsks (decisions 2 10 2 demoAsks)).map Prod.fst) =
        (granted demoAsks (decisions 2 10 2 demoAsks)).map Prod.snd := by
  have hinTime : InTime (demoAsks.map ask) := by
    unfold InTime
    decide +kernel
  have hcalm : Calm 10 2 (demoAsks.map ask) := by
    refine (((((((eachTime_nil _).concat ?_).concat ?_).concat ?_).concat ?_).concat ?_).concat ?_)
    all_goals decide +kernel
  have hlimit : (1 : ℚ) ≤ 2 := by norm_num
  have hwindow : (0 : ℚ) < 10 := by norm_num
  have hboth := rate_limit_on_intervals hlimit hwindow 2 demoAsks hinTime hcalm
  exact ⟨hboth.1 0 0 5 (by norm_num), hboth.2⟩

end Nuntius.PullApi
