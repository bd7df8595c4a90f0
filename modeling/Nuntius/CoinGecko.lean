import Nuntius.WireFormat

/-!
# CoinGecko's snapshot

One request brings the prices of all coins, and its answer is kept: asked for again after 30
seconds, served for 120, also while refreshes fail. The calls made so far say when a request is
due and which answer is served. What the HTTP client returns for a URL, an answer or an error, is
given with each call.
-/

namespace Nuntius.CoinGecko
open WireFormat

/-- The prices of an answer, by coin and then by currency. -/
abbrev CoinGeckoResponse (F : Type) := List (String × List (String × F))

variable {F : Type}

/-- 30 s, in nanoseconds. -/
def snapshotTtl : ℕ := 30 * 1000000000

/-- 120 s. -/
def maxSnapshotAge : ℕ := 120 * 1000000000

structure Snapshot (F : Type) where
  takenAt : ℕ
  serverTime : ℕ
  prices : CoinGeckoResponse F

structure Cache (F : Type) where
  snapshot : Option (Snapshot F)
  lastAttempt : Option ℕ

/-- A call with what it would learn: the clock where it checks the last attempt, notes a new one,
receives the answer and reads the snapshot, and what the client answers to a request. -/
structure Call (F : Type) where
  coinId : String
  checked : ℕ
  started : ℕ
  answer : String → Except String (CoinGeckoResponse F × ℕ)
  arrived : ℕ
  read : ℕ

def listedPrice (prices : CoinGeckoResponse F) (coinId : String) : Option F :=
  (prices.lookup coinId).bind fun m => m.lookup "usd"

def batchUrl (ids : List String) : String :=
  "https://api.coingecko.com/api/v3/simple/price?ids=" ++ ",".intercalate ids ++
    "&vs_currencies=usd"

def isDue (cache : Cache F) (now : ℕ) : Bool :=
  cache.lastAttempt.all fun t => snapshotTtl ≤ now - t

def readSnapshot (cache : Cache F) (now : ℕ) (coinId : String) : Except String (F × ℕ) :=
  match cache.snapshot with
  | none => .error "no CoinGecko snapshot yet"
  | some snap =>
    if maxSnapshotAge ≤ now - snap.takenAt then
      .error ("CoinGecko snapshot older than " ++ toString (maxSnapshotAge / 1000000000) ++ "s")
    else
      okOr ((listedPrice snap.prices coinId).map fun price => (price, snap.serverTime))
        ("no price from CoinGecko for " ++ coinId)

section Calls
variable (ids : List String)

/-- The attempt is noted before the request. One that fails is reported only while there is no
snapshot to fall back on. -/
def refresh (cache : Cache F) (c : Call F) : Cache F × Except String Unit :=
  match c.answer (batchUrl ids) with
  | .ok (prices, serverTime) => (⟨some ⟨c.arrived, serverTime, prices⟩, some c.started⟩, .ok ())
  | .error e =>
    (⟨cache.snapshot, some c.started⟩, if cache.snapshot.isSome then .ok () else .error e)

/-- The lock is held throughout, so a call finds the cache as the call before left it. -/
def quote (cache : Cache F) (c : Call F) : Cache F × Except String (F × ℕ) :=
  let refreshed := if isDue cache c.checked then refresh ids cache c else (cache, .ok ())
  (refreshed.1, refreshed.2.bind fun _ => readSnapshot refreshed.1 c.read c.coinId)

/-! ### What the calls tell -/

/-- The cache after the calls, the newest first. -/
def cacheAfter : List (Call F) → Cache F
  | [] => ⟨none, none⟩
  | c :: older => (quote ids (cacheAfter older) c).1

/-- The calls that made a request, the newest first. -/
def requested : List (Call F) → List (Call F)
  | [] => []
  | c :: older =>
    if isDue (cacheAfter ids older) c.checked then c :: requested older else requested older

/-- The call whose request was the last to be answered without an error. -/
def lastAnswered (calls : List (Call F)) : Option (Call F) :=
  (requested ids calls).find? fun c => (c.answer (batchUrl ids)).isOk

/-- The snapshot kept is what the call received. -/
def Keeps : Option (Snapshot F) → Option (Call F) → Prop
  | none, none => True
  | some snap, some w =>
    w.answer (batchUrl ids) = .ok (snap.prices, snap.serverTime) ∧ snap.takenAt = w.arrived
  | _, _ => False

def Spaced (calls : List (Call F)) : Prop :=
  calls.Pairwise fun new old => old.started + snapshotTtl ≤ new.started

variable {ids}

section Call
variable {cache : Cache F} {c : Call F}

theorem quote_of_not_due (hdue : ¬ isDue cache c.checked) :
    quote ids cache c = (cache, readSnapshot cache c.read c.coinId) := by
  simp [quote, hdue, Except.bind]

theorem cache_of_answered {prices : CoinGeckoResponse F} {serverTime : ℕ}
    (hdue : isDue cache c.checked) (hanswer : c.answer (batchUrl ids) = .ok (prices, serverTime)) :
    (quote ids cache c).1 = ⟨some ⟨c.arrived, serverTime, prices⟩, some c.started⟩ := by
  simp [quote, hdue, refresh, hanswer]

theorem cache_of_failed {e : String} (hdue : isDue cache c.checked)
    (hanswer : c.answer (batchUrl ids) = .error e) :
    (quote ids cache c).1 = ⟨cache.snapshot, some c.started⟩ := by
  simp [quote, hdue, refresh, hanswer]

/-- A call that reports a failed request has no snapshot to read either. -/
theorem quote_eq_ok {x : F × ℕ} :
    (quote ids cache c).2 = .ok x ↔
      readSnapshot (quote ids cache c).1 c.read c.coinId = .ok x := by
  by_cases hdue : isDue cache c.checked
  · cases hanswer : c.answer (batchUrl ids) with
    | ok answer => simp [quote, hdue, refresh, hanswer, Except.bind]
    | error e =>
      cases hsnap : cache.snapshot with
      | none => simp [quote, hdue, refresh, hanswer, hsnap, Except.bind, readSnapshot]
      | some snap => simp [quote, hdue, refresh, hanswer, hsnap, Except.bind]
  · rw [quote_of_not_due hdue]

end Call

theorem lastAttempt_cacheAfter (calls : List (Call F)) :
    (cacheAfter ids calls).lastAttempt = (requested ids calls).head?.map Call.started := by
  induction calls with
  | nil => rfl
  | cons c older ih =>
    rw [cacheAfter, requested]
    by_cases hdue : isDue (cacheAfter ids older) c.checked
    · rw [if_pos hdue]
      cases hanswer : c.answer (batchUrl ids) with
      | ok answer => rw [cache_of_answered hdue hanswer]; rfl
      | error e => rw [cache_of_failed hdue hanswer]; rfl
    · rw [if_neg hdue, quote_of_not_due hdue, ih]

theorem keeps_lastAnswered (calls : List (Call F)) :
    Keeps ids (cacheAfter ids calls).snapshot (lastAnswered ids calls) := by
  induction calls with
  | nil => trivial
  | cons c older ih =>
    rw [cacheAfter, lastAnswered, requested]
    by_cases hdue : isDue (cacheAfter ids older) c.checked
    · rw [if_pos hdue, List.find?_cons]
      cases hanswer : c.answer (batchUrl ids) with
      | ok answer =>
        rw [cache_of_answered hdue hanswer]
        exact ⟨hanswer, rfl⟩
      | error e =>
        rw [cache_of_failed hdue hanswer]
        exact ih
    · rw [if_neg hdue, quote_of_not_due hdue]
      exact ih

/-- Of requests that are spaced, the last one decides. -/
theorem isDue_iff {calls : List (Call F)} (spaced : Spaced (requested ids calls)) (now : ℕ) :
    isDue (cacheAfter ids calls) now = true ↔
      ∀ w ∈ requested ids calls, w.started + snapshotTtl ≤ now := by
  rw [isDue, lastAttempt_cacheAfter]
  cases hreq : requested ids calls with
  | nil => simp
  | cons last before =>
    rw [hreq] at spaced
    have hbefore := (List.pairwise_cons.mp spaced).1
    have hlast : snapshotTtl ≤ now - last.started ↔ last.started + snapshotTtl ≤ now := by
      simp only [snapshotTtl]
      omega
    simp only [List.head?_cons, Option.map_some, Option.all_some, decide_eq_true_eq, hlast,
      List.forall_mem_cons]
    exact ⟨fun h => ⟨h, fun w hw => by have := hbefore w hw; omega⟩, And.left⟩

theorem spaced_requested {calls : List (Call F)} (steady : ∀ c ∈ calls, c.checked ≤ c.started) :
    Spaced (requested ids calls) := by
  induction calls with
  | nil => exact .nil
  | cons c older ih =>
    obtain ⟨hc, holder⟩ := List.forall_mem_cons.mp steady
    rw [requested]
    split
    · next hdue =>
      have hstart := (isDue_iff (ih holder) _).mp hdue
      exact .cons (fun w hw => Nat.le_trans (hstart w hw) hc) (ih holder)
    · exact ih holder

theorem readSnapshot_eq_ok {cache : Cache F} {answered : Option (Call F)}
    (keeps : Keeps ids cache.snapshot answered) {now : ℕ} {coinId : String} {price : F}
    {serverTime : ℕ} :
    readSnapshot cache now coinId = .ok (price, serverTime) ↔
      ∃ w prices, answered = some w ∧ w.answer (batchUrl ids) = .ok (prices, serverTime) ∧
        now < w.arrived + maxSnapshotAge ∧ listedPrice prices coinId = some price := by
  rw [readSnapshot]
  match hsnap : cache.snapshot, answered with
  | none, none => simp
  | some snap, some w =>
    rw [hsnap] at keeps
    obtain ⟨hanswer, harrived⟩ := keeps
    have hage : maxSnapshotAge ≤ now - snap.takenAt ↔ ¬ now < w.arrived + maxSnapshotAge := by
      simp only [maxSnapshotAge, harrived]
      omega
    by_cases hfresh : now < w.arrived + maxSnapshotAge
    · simp [hage, hfresh, hanswer, and_comm]
    · simp [hage, hfresh]
  | none, some _ | some _, none => rw [hsnap] at keeps; exact keeps.elim

end Calls

/-- While the clock does not go back within a call, requests start 30 seconds apart or more, a
call makes one whenever none was started in the 30 seconds before, and it quotes the last answer
received without an error, exactly while that is younger than 120 seconds and lists the coin. -/
theorem quotes_last_answer_while_fresh (ids : List String) (c : Call F) (older : List (Call F))
    (steady : ∀ w ∈ c :: older, w.checked ≤ w.started) :
    Spaced (requested ids (c :: older)) ∧
    (isDue (cacheAfter ids older) c.checked = true ↔
      ∀ w ∈ requested ids older, w.started + snapshotTtl ≤ c.checked) ∧
    ∀ price serverTime, (quote ids (cacheAfter ids older) c).2 = .ok (price, serverTime) ↔
      ∃ w prices, lastAnswered ids (c :: older) = some w ∧
        w.answer (batchUrl ids) = .ok (prices, serverTime) ∧
        c.read < w.arrived + maxSnapshotAge ∧ listedPrice prices c.coinId = some price := by
  have holder := (List.forall_mem_cons.mp steady).2
  refine ⟨spaced_requested steady, isDue_iff (spaced_requested holder) _, ?_⟩
  intro price serverTime
  exact quote_eq_ok.trans (readSnapshot_eq_ok (keeps_lastAnswered (c :: older)))

def answeredCall : Call ℕ :=
  ⟨"bitcoin", 0, 0, fun _ => .ok ([("bitcoin", [("usd", 64000)])], 5), 1, 1⟩

def failedCall : Call ℕ :=
  ⟨"bitcoin", 40000000000, 40000000000, fun _ => .error "429", 40000000001, 40000000001⟩

/-- Forty seconds after an answer the next request fails, and the answer still serves. -/
theorem quotes_after_failed_request :
    (∀ w ∈ [failedCall, answeredCall], w.checked ≤ w.started) ∧
    (quote ["bitcoin"] (cacheAfter ["bitcoin"] [answeredCall]) failedCall).2 = .ok (64000, 5) := by
  have steady : ∀ w ∈ [failedCall, answeredCall], w.checked ≤ w.started := by decide
  have hquote := quotes_last_answer_while_fresh ["bitcoin"] failedCall [answeredCall] steady
  exact ⟨steady, (hquote.2.2 64000 5).mpr ⟨answeredCall, _, rfl, rfl, by decide, by decide⟩⟩

end Nuntius.CoinGecko
