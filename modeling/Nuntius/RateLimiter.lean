import Mathlib.Data.Finset.Card
import Mathlib.Data.Rat.Floor
import Nuntius.OrderedDicts
import Nuntius.ServedRequests
import Nuntius.TokenBuckets

/-!
# The rate limiter of the host

A bucket of tokens per key, kept in the order of last use. Buckets that were idle for a whole
window are dropped, and beyond the cap also live ones. Times and token counts are exact. The
limiter is compared with forecasts, which know every bucket there ever was.
-/

namespace Nuntius.PullApi
open OrderedDicts ServedRequests TokenBuckets

variable {K : Type} [DecidableEq K]

/-! ### The limiter -/

structure Bucket where
  tokens : ℚ
  last : ℚ

structure RateLimiter (K : Type) where
  limit : ℚ
  window : ℚ
  maxKeys : ℕ
  clients : OrderedDict K Bucket

namespace RateLimiter

def new (limit window : ℚ) (maxKeys : ℕ) : RateLimiter K := ⟨limit, window, maxKeys, ∅⟩

def tokens (r : RateLimiter K) (key : K) (now : ℚ) : ℚ :=
  match r.clients.lookup key with
  | none => r.limit
  | some entry => min r.limit (entry.tokens + (now - entry.last) * (r.limit / r.window))

/-- The oldest bucket goes if it was idle up to the cutoff or the cap is passed. -/
def mayGo (cutoff : ℚ) (maxKeys : ℕ) (entry : Entry K Bucket) (count : ℕ) : Bool :=
  !(cutoff < entry.2.last && count ≤ maxKeys)

def evict (r : RateLimiter K) (now : ℚ) : RateLimiter K :=
  { r with clients := popItemsWhile (mayGo (now - r.window) r.maxKeys) r.clients }

/-- `is_allowed` up to the eviction. -/
def touch (r : RateLimiter K) (key : K) (now : ℚ) : Bool × RateLimiter K :=
  let tokens := r.tokens key now
  let allowed := decide (1 ≤ tokens)
  let entry : Bucket := ⟨if allowed then tokens - 1 else tokens, now⟩
  (allowed, { r with clients := moveToEnd key (setItem key entry r.clients) })

def isAllowed (r : RateLimiter K) (key : K) (now : ℚ) : Bool × RateLimiter K :=
  let (allowed, touched) := r.touch key now
  (allowed, touched.evict now)

/-- `int` cuts off towards zero. -/
def toInt (x : ℚ) : ℤ := if 0 ≤ x then ⌊x⌋ else ⌈x⌉

def remaining (r : RateLimiter K) (key : K) (now : ℚ) : ℤ := toInt (r.tokens key now)

end RateLimiter

/-- The limiter of the host, with 60 requests a minute. -/
def rateLimiter : RateLimiter (List Char) := .new 60 60 50000

/-! ### Calls -/

inductive Method where
  | isAllowed
  | remaining
  deriving DecidableEq

structure Call (K : Type) where
  key : K
  time : ℚ
  method : Method

inductive Answer where
  | allowed (ok : Bool)
  | remaining (count : ℤ)
  deriving DecidableEq

namespace RateLimiter

def call (r : RateLimiter K) (c : Call K) : Answer × RateLimiter K :=
  match c.method with
  | .isAllowed => (.allowed (r.isAllowed c.key c.time).1, (r.isAllowed c.key c.time).2)
  | .remaining => (.remaining (r.remaining c.key c.time), r)

/-- A limiter that never evicts. -/
def callKeeping (r : RateLimiter K) (c : Call K) : Answer × RateLimiter K :=
  match c.method with
  | .isAllowed => (.allowed (r.touch c.key c.time).1, (r.touch c.key c.time).2)
  | .remaining => (.remaining (r.remaining c.key c.time), r)

end RateLimiter

/-- What a limiter is for: it answers by a forecast of everybody's tokens. -/
def answerBy (limit rate : ℚ) (f : Forecast K ℚ) (c : Call K) : Answer × Forecast K ℚ :=
  match c.method with
  | .isAllowed => (.allowed (decide (1 ≤ f c.key c.time)), spend limit rate f c.key c.time)
  | .remaining => (.remaining (RateLimiter.toInt (f c.key c.time)), f)

def InTime (calls : List (Call K)) : Prop := calls.Pairwise fun c d => c.time ≤ d.time

/-- The keys that `is_allowed` was called with in the window that ends now. -/
def keysWithin (window now : ℚ) (calls : List (Call K)) : Finset K :=
  ((calls.filter fun c => c.method = .isAllowed ∧ now - window < c.time).map Call.key).toFinset

/-- At each call, no more keys than the cap were used within the last window. -/
def Calm (window : ℚ) (maxKeys : ℕ) (calls : List (Call K)) : Prop :=
  EachTime (fun older c => (keysWithin window c.time (older ++ [c])).card ≤ maxKeys) calls

/-! ### One call -/

section OneCall
variable {r : RateLimiter K} {older : List (Call K)}

theorem tokens_new (limit window : ℚ) (maxKeys : ℕ) :
    (RateLimiter.new limit window maxKeys : RateLimiter K).tokens = fun _ _ => limit := rfl

theorem tokens_touch (r : RateLimiter K) (key : K) (now : ℚ) :
    (r.touch key now).2.tokens = spend r.limit (r.limit / r.window) r.tokens key now := by
  funext k t
  rw [RateLimiter.tokens]
  simp only [RateLimiter.touch, lookup_moveToEnd_setItem, spend]
  by_cases hk : k = key
  · simp only [hk, if_true, decide_eq_true_eq]
    rfl
  · simp only [hk, if_false]
    rfl

/-- The buckets are those of earlier calls, the least recent first. -/
structure Recorded (older : List (Call K)) (r : RateLimiter K) : Prop where
  sorted : r.clients.entries.Pairwise fun d e => d.2.last ≤ e.2.last
  used : ∀ e ∈ r.clients.entries, ∃ c ∈ older, c.method = .isAllowed ∧ c.key = e.1 ∧
    c.time = e.2.last
  range : ∀ e ∈ r.clients.entries, 0 ≤ e.2.tokens ∧ e.2.tokens ≤ r.limit

/-- No call so far was made after this time. -/
def Later (older : List (Call K)) (now : ℚ) : Prop := ∀ c ∈ older, c.time ≤ now

omit [DecidableEq K] in
theorem Recorded.last_le (rec : Recorded older r) {now : ℚ} (later : Later older now)
    {e : Entry K Bucket} (he : e ∈ r.clients.entries) : e.2.last ≤ now := by
  obtain ⟨c, hc, -, -, htime⟩ := rec.used e he
  exact htime ▸ later c hc

theorem Recorded.tokens_range (rec : Recorded older r) (limit_nonneg : 0 ≤ r.limit)
    (window_pos : 0 < r.window) {now : ℚ} (later : Later older now) (key : K) :
    0 ≤ r.tokens key now ∧ r.tokens key now ≤ r.limit := by
  rw [RateLimiter.tokens]
  cases h : r.clients.lookup key with
  | none => exact ⟨limit_nonneg, le_rfl⟩
  | some entry =>
    have hmem := AList.mem_lookup_iff.mp (Option.mem_def.mpr h)
    have hage : 0 ≤ now - entry.last := sub_nonneg.mpr (rec.last_le later hmem)
    have hrate : 0 ≤ r.limit / r.window := div_nonneg limit_nonneg window_pos.le
    exact ⟨refill_nonneg limit_nonneg hrate (rec.range _ hmem).1 hage, refill_le_limit⟩

theorem Recorded.touch (rec : Recorded older r) (limit_nonneg : 0 ≤ r.limit)
    (window_pos : 0 < r.window) {c : Call K} (hc : c.method = .isAllowed)
    (later : Later older c.time) : Recorded (older ++ [c]) (r.touch c.key c.time).2 := by
  have hentries : (r.touch c.key c.time).2.clients.entries = r.clients.entries.kerase c.key ++
      [⟨c.key, if 1 ≤ r.tokens c.key c.time then r.tokens c.key c.time - 1
        else r.tokens c.key c.time, c.time⟩] := by
    simp [RateLimiter.touch, entries_moveToEnd_setItem]
  have hold := List.kerase_sublist c.key r.clients.entries
  constructor
  · rw [hentries, List.pairwise_append]
    refine ⟨rec.sorted.sublist hold, List.pairwise_singleton .., ?_⟩
    intro d hd e he
    rw [List.mem_singleton.mp he]
    exact rec.last_le later (hold.subset hd)
  · intro e he
    rw [hentries, List.mem_append, List.mem_singleton] at he
    rcases he with he | he
    · obtain ⟨c', hc', h⟩ := rec.used e (hold.subset he)
      exact ⟨c', List.mem_append_left _ hc', h⟩
    · exact ⟨c, List.mem_append_right _ (List.mem_singleton_self c), hc, by rw [he], by rw [he]⟩
  · intro e he
    rw [hentries, List.mem_append, List.mem_singleton] at he
    rcases he with he | he
    · exact rec.range e (hold.subset he)
    · have htokens := rec.tokens_range limit_nonneg window_pos later c.key
      rw [he]
      change _ ∧ _ ≤ r.limit
      dsimp only
      split
      case isTrue h => exact ⟨by linarith, by linarith⟩
      case isFalse => exact htokens

omit [DecidableEq K] in
theorem Recorded.evict (rec : Recorded older r) (now : ℚ) : Recorded older (r.evict now) := by
  have hsub : (r.evict now).clients.entries.Sublist r.clients.entries := popWhile_sublist ..
  exact ⟨rec.sorted.sublist hsub, fun e he => rec.used e (hsub.subset he),
    fun e he => rec.range e (hsub.subset he)⟩

/-! ### Eviction -/

omit [DecidableEq K] in
/-- As long as the cap allows, exactly the idle buckets go. -/
theorem popWhile_mayGo {cutoff : ℚ} {maxKeys : ℕ} {entries : List (Entry K Bucket)}
    (sorted : entries.Pairwise fun d e => d.2.last ≤ e.2.last)
    (few : (entries.filter fun e => cutoff < e.2.last).length ≤ maxKeys) :
    popWhile (RateLimiter.mayGo cutoff maxKeys) entries =
      entries.filter fun e => cutoff < e.2.last := by
  induction entries with
  | nil => rfl
  | cons e rest ih =>
    obtain ⟨hfirst, hrest⟩ := List.pairwise_cons.mp sorted
    by_cases h : cutoff < e.2.last
    · -- the first entry is live, and so are all that were used after it
      have hall : (e :: rest).filter (fun e => decide (cutoff < e.2.last)) = e :: rest := by
        rw [List.filter_eq_self]
        intro d hd
        rcases List.mem_cons.mp hd with hd | hd
        · simp [hd, h]
        · simpa using h.trans_le (hfirst d hd)
      rw [hall] at few ⊢
      have hstay : RateLimiter.mayGo cutoff maxKeys e (rest.length + 1) = false := by
        simpa [RateLimiter.mayGo, h] using few
      rw [popWhile, hstay]
      rfl
    · have hgo : RateLimiter.mayGo cutoff maxKeys e (rest.length + 1) = true := by
        simp [RateLimiter.mayGo, h]
      rw [List.filter_cons_of_neg (by simpa using h)] at few ⊢
      rw [popWhile, if_pos hgo, ih hrest few]

/-- The live buckets belong to keys used within the last window. -/
theorem Recorded.live_le (rec : Recorded older r) (window now : ℚ) :
    (r.clients.entries.filter fun e => now - window < e.2.last).length ≤
      (keysWithin window now older).card := by
  set live := r.clients.entries.filter fun e => now - window < e.2.last
  have hnodup : (live.map Sigma.fst).Nodup :=
    r.clients.nodupKeys.sublist List.filter_sublist
  rw [← List.length_map Sigma.fst, ← List.toFinset_card_of_nodup hnodup]
  apply Finset.card_le_card
  intro key hkey
  obtain ⟨e, he, rfl⟩ := List.mem_map.mp (List.mem_toFinset.mp hkey)
  obtain ⟨hmem, hlive⟩ := List.mem_filter.mp he
  obtain ⟨c, hc, hmethod, hkey', htime⟩ := rec.used e hmem
  refine List.mem_toFinset.mpr (List.mem_map.mpr ⟨c, List.mem_filter.mpr ⟨hc, ?_⟩, hkey'⟩)
  simpa [hmethod, htime] using hlive

/-- Dropping the idle buckets changes no forecast: they are full again. -/
theorem Recorded.tokens_evict (rec : Recorded older r) (window_pos : 0 < r.window) {now : ℚ}
    (few : (keysWithin r.window now older).card ≤ r.maxKeys) :
    AgreeFrom now (r.evict now).tokens r.tokens := by
  intro key t ht
  have hentries : (r.evict now).clients.entries =
      r.clients.entries.filter fun e => now - r.window < e.2.last :=
    popWhile_mayGo rec.sorted ((rec.live_le r.window now).trans few)
  rw [RateLimiter.tokens, RateLimiter.tokens, lookup_of_entries_filter hentries]
  cases h : r.clients.lookup key with
  | none => rfl
  | some entry =>
    by_cases hlive : now - r.window < entry.last
    · simp only [Option.filter_some, hlive, decide_true, if_true]
      rfl
    · have hmem := AList.mem_lookup_iff.mp (Option.mem_def.mpr h)
      obtain ⟨hnonneg, hle⟩ := rec.range _ hmem
      have hfull : r.limit ≤ entry.tokens + (t - entry.last) * (r.limit / r.window) := by
        have hage : r.window ≤ t - entry.last := by linarith
        have hrate : 0 ≤ r.limit / r.window := div_nonneg (hnonneg.trans hle) window_pos.le
        calc r.limit = r.window * (r.limit / r.window) := (mul_div_cancel₀ _ window_pos.ne').symm
          _ ≤ (t - entry.last) * (r.limit / r.window) := mul_le_mul_of_nonneg_right hage hrate
          _ ≤ entry.tokens + (t - entry.last) * (r.limit / r.window) :=
            le_add_of_nonneg_left hnonneg
      simp only [Option.filter_some, hlive, decide_false, Bool.false_eq_true, if_false]
      exact (min_eq_left hfull).symm

end OneCall

/-! ### Sequences of calls -/

omit [DecidableEq K] in
theorem InTime.each {calls : List (Call K)} (inTime : InTime calls) :
    EachTime (fun older c => Later older c.time) calls := by
  intro older c newer heq c' hc'
  rw [InTime, heq, List.pairwise_append] at inTime
  exact inTime.2.2 c' hc' c (List.mem_cons_self ..)

/-- The limiter has these parameters. -/
structure Configured (limit window : ℚ) (maxKeys : ℕ) (r : RateLimiter K) : Prop where
  limit_eq : r.limit = limit
  window_eq : r.window = window
  maxKeys_eq : r.maxKeys = maxKeys

section Sequences
variable {limit window : ℚ} {maxKeys : ℕ} {r : RateLimiter K} {older : List (Call K)} {c : Call K}

omit [DecidableEq K] in
theorem configured_new (limit window : ℚ) (maxKeys : ℕ) :
    Configured limit window maxKeys (.new limit window maxKeys : RateLimiter K) := ⟨rfl, rfl, rfl⟩

theorem Configured.call (conf : Configured limit window maxKeys r) (c : Call K) :
    Configured limit window maxKeys (r.call c).2 := by
  unfold RateLimiter.call
  cases c.method with
  | isAllowed => exact ⟨conf.limit_eq, conf.window_eq, conf.maxKeys_eq⟩
  | remaining => exact conf

omit [DecidableEq K] in
theorem recorded_new (limit window : ℚ) (maxKeys : ℕ) :
    Recorded [] (.new limit window maxKeys : RateLimiter K) :=
  ⟨List.Pairwise.nil, fun _ he => absurd he List.not_mem_nil,
    fun _ he => absurd he List.not_mem_nil⟩

omit [DecidableEq K] in
theorem Recorded.concat (rec : Recorded older r) (c : Call K) : Recorded (older ++ [c]) r where
  sorted := rec.sorted
  used e he := by
    obtain ⟨c', hc', h⟩ := rec.used e he
    exact ⟨c', List.mem_append_left _ hc', h⟩
  range := rec.range

theorem Recorded.call (rec : Recorded older r) (limit_nonneg : 0 ≤ r.limit)
    (window_pos : 0 < r.window) (later : Later older c.time) :
    Recorded (older ++ [c]) (r.call c).2 := by
  unfold RateLimiter.call
  cases hc : c.method with
  | isAllowed => exact (rec.touch limit_nonneg window_pos hc later).evict c.time
  | remaining => exact rec.concat c

/-- The limiter answers as the forecast would. -/
structure Follows (limit window : ℚ) (maxKeys : ℕ) (older : List (Call K)) (r : RateLimiter K)
    (f : Forecast K ℚ) : Prop where
  configured : Configured limit window maxKeys r
  recorded : Recorded older r
  agree : ∀ now, Later older now → AgreeFrom now r.tokens f

theorem Follows.call {f : Forecast K ℚ} (limit_nonneg : 0 ≤ limit) (window_pos : 0 < window)
    (follows : Follows limit window maxKeys older r f)
    (ok : Later older c.time ∧ (keysWithin window c.time (older ++ [c])).card ≤ maxKeys) :
    (r.call c).1 = (answerBy limit (limit / window) f c).1 ∧
      Follows limit window maxKeys (older ++ [c]) (r.call c).2
        (answerBy limit (limit / window) f c).2 := by
  obtain ⟨later, few⟩ := ok
  have hconf := follows.configured
  have hagree := follows.agree c.time later
  have hlimit : 0 ≤ r.limit := hconf.limit_eq ▸ limit_nonneg
  have hwindow : 0 < r.window := hconf.window_eq ▸ window_pos
  have hrec := follows.recorded.call hlimit hwindow later
  unfold answerBy
  cases hc : c.method with
  | isAllowed =>
    have htouch := follows.recorded.touch hlimit hwindow hc later
    rw [← hconf.window_eq, ← hconf.maxKeys_eq] at few
    have hevict := htouch.tokens_evict hwindow few
    rw [tokens_touch, hconf.limit_eq, hconf.window_eq] at hevict
    refine ⟨?_, hconf.call c, hrec, ?_⟩
    · simp only [RateLimiter.call, hc, RateLimiter.isAllowed, RateLimiter.touch,
        hagree c.key c.time le_rfl]
    · intro now hnow
      have hle : c.time ≤ now := hnow c (List.mem_append_right _ (List.mem_singleton_self c))
      simp only [RateLimiter.call, hc, RateLimiter.isAllowed]
      exact (hevict.trans (hagree.spend c.key)).mono hle
  | remaining =>
    refine ⟨?_, hconf.call c, hrec, ?_⟩
    · simp only [RateLimiter.call, hc, RateLimiter.remaining, hagree c.key c.time le_rfl]
    · intro now hnow
      simp only [RateLimiter.call, hc]
      exact follows.agree now fun c' hc' => hnow c' (List.mem_append_left _ hc')

/-- With few keys at a time the limiter is as good as one that knows every bucket. -/
theorem answers_call (limit_nonneg : 0 ≤ limit) (window_pos : 0 < window) {calls : List (Call K)}
    (inTime : InTime calls) (calm : Calm window maxKeys calls) :
    answers RateLimiter.call (.new limit window maxKeys) calls =
      answers (answerBy limit (limit / window)) (fun _ _ => limit) calls := by
  refine answers_eq_of_simulation (Follows limit window maxKeys)
    (fun follows ok => follows.call limit_nonneg window_pos ok) ?_ (inTime.each.and calm)
  refine ⟨configured_new limit window maxKeys, recorded_new limit window maxKeys, ?_⟩
  intro now _ key t _
  rw [tokens_new]

theorem answers_callKeeping (limit window : ℚ) (maxKeys : ℕ) (calls : List (Call K)) :
    answers RateLimiter.callKeeping (.new limit window maxKeys) calls =
      answers (answerBy limit (limit / window)) (fun _ _ => limit) calls := by
  refine answers_eq_of_simulation (P := fun _ _ => True)
    (fun _ r f => Configured limit window maxKeys r ∧ r.tokens = f) ?_
    ⟨configured_new limit window maxKeys, tokens_new limit window maxKeys⟩ (fun _ _ _ _ => trivial)
  intro older r f c ⟨conf, htokens⟩ _
  subst htokens
  unfold answerBy RateLimiter.callKeeping
  cases c.method with
  | isAllowed =>
    refine ⟨rfl, ⟨conf.limit_eq, conf.window_eq, conf.maxKeys_eq⟩, ?_⟩
    rw [← conf.limit_eq, ← conf.window_eq]
    exact tokens_touch r c.key c.time
  | remaining => exact ⟨rfl, conf, rfl⟩

omit [DecidableEq K] in
theorem length_evict_le (r : RateLimiter K) (now : ℚ) :
    (r.evict now).clients.entries.length ≤ r.maxKeys := by
  have hstop := popWhile_eq_nil_or (RateLimiter.mayGo (now - r.window) r.maxKeys) r.clients.entries
  change (popWhile _ r.clients.entries).length ≤ r.maxKeys
  rcases hstop with hnil | ⟨e, rest, hcons, hstay⟩
  · simp [hnil]
  · rw [hcons]
    simp only [RateLimiter.mayGo, Bool.not_eq_false', Bool.and_eq_true, decide_eq_true_eq] at hstay
    exact hstay.2

theorem configured_after (limit window : ℚ) (maxKeys : ℕ) (calls : List (Call K)) :
    Configured limit window maxKeys
      (after RateLimiter.call (.new limit window maxKeys) calls) :=
  after_invariant (P := fun _ _ => True) (fun _ r => Configured limit window maxKeys r)
    (configured_new limit window maxKeys) (fun conf _ => conf.call _) fun _ _ _ _ => trivial

theorem recorded_after (limit_nonneg : 0 ≤ limit) (window_pos : 0 < window) (maxKeys : ℕ)
    {calls : List (Call K)} (inTime : InTime calls) :
    Recorded calls (after RateLimiter.call (.new limit window maxKeys) calls) := by
  suffices h : Configured limit window maxKeys
      (after RateLimiter.call (.new limit window maxKeys) calls) ∧
      Recorded calls (after RateLimiter.call (.new limit window maxKeys) calls) from h.2
  refine after_invariant (fun older r => Configured limit window maxKeys r ∧ Recorded older r)
    ⟨configured_new limit window maxKeys, recorded_new limit window maxKeys⟩ ?_ inTime.each
  intro older r c ⟨conf, rec⟩ later
  exact ⟨conf.call c, rec.call (conf.limit_eq ▸ limit_nonneg) (conf.window_eq ▸ window_pos) later⟩

end Sequences

/-- Eviction cannot be seen as long as the keys of a window fit under the cap, and whatever the
calls, no more buckets than the cap are stored, each with between none and all of its tokens. -/
theorem eviction_unobservable {limit window : ℚ} (one_le_limit : 1 ≤ limit)
    (window_pos : 0 < window) (maxKeys : ℕ) :
    (∀ calls : List (Call K), InTime calls → Calm window maxKeys calls →
      answers RateLimiter.call (.new limit window maxKeys) calls =
        answers RateLimiter.callKeeping (.new limit window maxKeys) calls) ∧
    ∀ (older : List (Call K)) (c : Call K), c.method = .isAllowed →
      let stored := (after RateLimiter.call (.new limit window maxKeys)
        (older ++ [c])).clients.entries
      stored.length ≤ maxKeys ∧
        (InTime (older ++ [c]) → ∀ e ∈ stored, 0 ≤ e.2.tokens ∧ e.2.tokens ≤ limit) := by
  have limit_nonneg : 0 ≤ limit := zero_le_one.trans one_le_limit
  constructor
  · intro calls inTime calm
    rw [answers_call limit_nonneg window_pos inTime calm, answers_callKeeping]
  · intro older c hc
    dsimp only
    constructor
    · have hconf := configured_after limit window maxKeys older
      rw [after_concat]
      simp only [RateLimiter.call, hc, RateLimiter.isAllowed]
      exact (length_evict_le _ c.time).trans_eq hconf.maxKeys_eq
    · intro inTime e he
      have hrange := (recorded_after limit_nonneg window_pos maxKeys inTime).range e he
      rwa [(configured_after limit window maxKeys (older ++ [c])).limit_eq] at hrange

/-- Two keys of a limiter with room for one: the second comes when the first has been idle for a
window, and the first returns later. -/
def demoCalls : List (Call ℕ) :=
  [⟨0, 0, .isAllowed⟩, ⟨0, 1, .isAllowed⟩, ⟨0, 1, .isAllowed⟩, ⟨0, 2, .remaining⟩,
    ⟨1, 12, .isAllowed⟩, ⟨0, 30, .isAllowed⟩]

theorem eviction_unobservable_demo :
    answers RateLimiter.call (.new 2 10 1) demoCalls =
        answers RateLimiter.callKeeping (.new 2 10 1) demoCalls ∧
      (after RateLimiter.call (.new 2 10 1) demoCalls).clients.entries.length ≤ 1 := by
  have hinTime : InTime demoCalls := by
    unfold InTime demoCalls
    decide +kernel
  have hcalm : Calm 10 1 demoCalls := by
    refine (((((((eachTime_nil _).concat ?_).concat ?_).concat ?_).concat ?_).concat ?_).concat ?_)
    all_goals decide +kernel
  have hlimit : (1 : ℚ) ≤ 2 := by norm_num
  have hwindow : (0 : ℚ) < 10 := by norm_num
  have hboth := eviction_unobservable (K := ℕ) hlimit hwindow 1
  exact ⟨hboth.1 demoCalls hinTime hcalm, (hboth.2 demoCalls.dropLast _ rfl).1⟩

end Nuntius.PullApi
