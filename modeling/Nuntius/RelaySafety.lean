import Nuntius.RelayRecords

/-!
# The relayer submits verified, newer updates, one at a time

The state `SUBMITTING` of an asset stands for one outstanding intent, but for the time between
setting it and pushing the intent. The tick waits there for `getAddress`, and no other attempt
of the asset can be open.
-/

namespace Nuntius.Relaying
open TxQueue LabelledRuns

variable {V : Type} {p : Platform V} {labels : List (Event V)} {r r' : Relayer V} {e : Event V}

/-- How many intents of a symbol are queued or in flight. -/
def Relayer.outstandingFor (r : Relayer V) (symbol : JsString) : ℕ :=
  (r.txQueue.labels.map labelSymbol).count symbol

/-- The symbol whose intent is about to be pushed. -/
def Phase.preparing : Phase → Option JsString
  | .addressing t _ _ => some t.symbol
  | _ => none

def Relayer.InFlight (r : Relayer V) (symbol : JsString) : Prop :=
  r.Submitting symbol ∧ r.phase.preparing ≠ some symbol

instance (r : Relayer V) (symbol : JsString) : Decidable (r.InFlight symbol) :=
  inferInstanceAs (Decidable (_ ∧ _))

/-- An attempt marks its asset before it waits for `getAddress`, and not earlier. -/
def Marked (r : Relayer V) : Phase → Prop
  | .reading t | .lookingUp t _ _ | .judged t _ _ => ¬ r.Submitting t.symbol
  | .addressing t _ _ => r.Submitting t.symbol
  | _ => True

structure OneFlight (labels : List (Event V)) (r : Relayer V) : Prop where
  intents : ∀ l ∈ r.txQueue.labels, ∃ u ts, Polled labels u ∧ l = labelOf u.assetSymbol ts
  flight : ∀ s, r.outstandingFor s = if r.InFlight s then 1 else 0
  marked : Marked r r.phase

theorem OneFlight.marked_at (one : OneFlight labels r) {ph : Phase} (h : r.phase = ph) :
    Marked r ph := by
  rw [← h]
  exact one.marked

theorem inFlight_iff (h : r.phase.preparing = none) (s : JsString) :
    r.InFlight s ↔ r.Submitting s := by
  unfold Relayer.InFlight
  simp [h]

theorem Marked.submitting {ph : Phase} (h : Marked r ph) {s : JsString}
    (hs : ph.preparing = some s) : r.Submitting s := by
  cases ph with
  | addressing t calldata label =>
    cases hs
    exact h
  | _ => cases hs

/-- An asset that is not in flight may become unmarked while the tick waits. -/
theorem Marked.mono {ph : Phase} (h : Marked r ph) (free : ∀ s, r'.Submitting s → r.Submitting s)
    (kept : ∀ s, ph.preparing = some s → r'.Submitting s) : Marked r' ph := by
  cases ph with
  | reading t => exact fun hs => h (free _ hs)
  | lookingUp t signedTs signer => exact fun hs => h (free _ hs)
  | judged t signedTs valid => exact fun hs => h (free _ hs)
  | addressing t calldata label => exact kept t.symbol rfl
  | _ => trivial

section Carry
variable {labels' : List (Event V)}

/-- A step that moves no intent and no asset into or out of flight. -/
theorem OneFlight.carry (one : OneFlight labels r) (grown : labels ⊆ labels')
    (intents : r'.txQueue.labels = r.txQueue.labels) (flight : ∀ s, r'.InFlight s ↔ r.InFlight s)
    (marked : Marked r' r'.phase) : OneFlight labels' r' where
  intents := by
    intro l hl
    rw [intents] at hl
    obtain ⟨u, ts, hpolled, hlabel⟩ := one.intents l hl
    exact ⟨u, ts, hpolled.mono grown, hlabel⟩
  flight := by
    intro s
    have hcount := one.flight s
    unfold Relayer.outstandingFor at hcount ⊢
    rw [intents, hcount]
    simp only [flight]
  marked := marked

/-- The marks stay, and the tick goes on. -/
theorem OneFlight.toPhase (one : OneFlight labels r) (grown : labels ⊆ labels')
    (txQueue : r'.txQueue = r.txQueue) (marks : ∀ s, r'.Submitting s ↔ r.Submitting s)
    (preparing : r'.phase.preparing = r.phase.preparing) (marked : Marked r' r'.phase) :
    OneFlight labels' r' := by
  refine one.carry grown (by rw [txQueue]) ?_ marked
  intro s
  unfold Relayer.InFlight
  rw [preparing, marks]

/-- An attempt may give an asset up that is not in flight. -/
theorem OneFlight.giveUp (one : OneFlight labels r) (grown : labels ⊆ labels')
    (old : r.phase.preparing = none) {s : JsString} (free : ¬ r.Submitting s)
    (rest : List JsString) : OneFlight labels' (r.giveUp s rest) := by
  refine one.carry grown rfl ?_ trivial
  intro s'
  rw [inFlight_iff old, inFlight_iff rfl]
  refine (submitting_setState_idle s s').trans (and_iff_right_of_imp ?_)
  rintro hs rfl
  exact free hs

end Carry

/-! ### Every step keeps the flights apart -/

theorem OneFlight.upsertAll (prices : List (SignedPriceUpdate V)) {r : Relayer V}
    (one : OneFlight labels r) (phase : r.phase = .polling) :
    OneFlight labels (r.upsertAll p prices) := by
  have grown := List.Subset.refl labels
  induction prices generalizing r with
  | nil => exact one.toPhase grown rfl (fun _ => Iff.rfl) (by rw [phase]; rfl) trivial
  | cons u prices ih =>
    unfold Relayer.upsertAll
    split
    case h_1 => exact one.toPhase grown rfl (fun _ => Iff.rfl) (by rw [phase]; rfl) trivial
    case h_2 r' hr' =>
      have hup := upsertPrice_upserted hr'
      apply ih
      · refine one.toPhase grown hup.txQueue hup.submitting (by rw [hup.phase]) ?_
        rw [hup.phase, phase]
        trivial
      · exact hup.phase.trans phase

theorem OneFlight.opening (one : OneFlight labels r) {s : JsString} {rest : List JsString}
    (phase : r.phase = .looping (s :: rest)) {asset : AssetRelay V}
    (found : r.find s = some asset) {now : ℤ} (h : Opening p r asset now rest r') (e : Event V) :
    OneFlight (e :: labels) r' := by
  have grown := List.subset_cons_self e labels
  have old : r.phase.preparing = none := by rw [phase]; rfl
  have hs : asset.symbol = s := find_symbol found
  have unmarked : asset.state ≠ .submitting → ¬ r.Submitting asset.symbol := by
    intro free hsub
    rw [hs, submitting_find found] at hsub
    exact free hsub
  cases h with
  | skipped => exact one.toPhase grown rfl (fun _ => Iff.rfl) old.symm trivial
  | threw => exact one.toPhase grown rfl (fun _ => Iff.rfl) old.symm trivial
  | tooFew free => exact one.giveUp grown old (unmarked free) rest
  | passed free => exact one.toPhase grown rfl (fun _ => Iff.rfl) old.symm (unmarked free)

theorem OneFlight.comparison (one : OneFlight labels r) {t : Attempt}
    (phase : r.phase = .reading t) {latest : Option (SignedPriceUpdate V)} {onchainTs : ℕ}
    (h : Comparison p r t latest onchainTs r') (e : Event V) : OneFlight (e :: labels) r' := by
  have grown := List.subset_cons_self e labels
  have old : r.phase.preparing = none := by rw [phase]; rfl
  have free : ¬ r.Submitting t.symbol := one.marked_at phase
  cases h with
  | threw => exact one.toPhase grown rfl (fun _ => Iff.rfl) old.symm trivial
  | stale => exact one.giveUp grown old free t.rest
  | unsigned => exact one.toPhase grown rfl (fun _ => Iff.rfl) old.symm free
  | known => exact one.toPhase grown rfl (fun _ => Iff.rfl) old.symm free
  | unknown => exact one.toPhase grown rfl (fun _ => Iff.rfl) old.symm free

/-- What the code takes for granted of an update: that its symbol is not empty, that a call can
be encoded from an update whose signature recovers, and that `num_sources` is the same number to
`<` and to the encoding. -/
structure Regular (p : Platform V) (u : SignedPriceUpdate V) : Prop where
  named : u.assetSymbol ≠ []
  encodes : ∀ {signer signedTs}, recoverSigner p u = some signer →
    p.bigInt u.timestamp = some signedTs → (updateCalldata p u signedTs).isSome
  quorum : ∀ {n}, p.less u.numSources (p.literal MIN_SOURCES) = some false →
    p.uint8 u.numSources = some n → MIN_SOURCES ≤ n

theorem OneFlight.submission (one : OneFlight labels r) (held : Recorded p labels r)
    (regular : ∀ {u}, Polled labels u → Regular p u) {t : Attempt} {signedTs : ℤ}
    (phase : r.phase = .judged t signedTs true) {asset : AssetRelay V}
    (found : r.find t.symbol = some asset) (h : Submission p r t asset.latest signedTs r')
    (e : Event V) : OneFlight (e :: labels) r' := by
  have free : ¬ r.Submitting t.symbol := one.marked_at phase
  have grounded := held.grounded
  rw [phase] at grounded
  obtain ⟨u, hu, hver⟩ := grounded rfl
  have hlatest := hu.latest_eq (view_find AssetRelay.latest found)
  obtain ⟨w, hw, hpolled, -⟩ := held.stored hu.latest
  obtain rfl : u = w := Option.some.inj hw
  obtain ⟨signer, hrec, -⟩ := hver.signer
  cases h with
  | threw why =>
    -- neither the encoding nor the label throws once the asset is marked
    have hdata := (regular hpolled).encodes hrec hver.timestamp
    have htext := p.text_of_bigInt hver.timestamp
    obtain hnone | hnone := why u hlatest
    · simp [hnone] at hdata
    · simp [hnone] at htext
  | ready =>
    refine one.carry (List.subset_cons_self e labels) rfl ?_
      ((submitting_setState found).mpr (.inl rfl))
    intro s
    rw [inFlight_iff (r := r) (by rw [phase]; rfl)]
    change (r.setState t.symbol .submitting).Submitting s ∧ some t.symbol ≠ some s ↔ _
    rw [submitting_setState found]
    by_cases hs : s = t.symbol
    · simp [hs, free]
    · simp [hs, Ne.symm hs]

section Labels
variable (spaceless : ∀ {u}, Polled labels u → WhitespaceFree u.assetSymbol)
include spaceless

/-- The push closes the gap between the mark and the intent. -/
theorem OneFlight.enqueue (one : OneFlight labels r) (held : Recorded p labels r) {t : Attempt}
    {calldata label : JsString} (phase : r.phase = .addressing t calldata label)
    {latest : Option (SignedPriceUpdate V)} (h : Enqueued p t latest label r r') (e : Event V) :
    OneFlight (e :: labels) r' := by
  have grown := List.subset_cons_self e labels
  have hsub : r.Submitting t.symbol := one.marked.submitting (by rw [phase]; rfl)
  have grounded := held.grounded
  rw [phase] at grounded
  obtain ⟨u, signedTs, ts, hu, -, -, rfl⟩ := grounded
  obtain ⟨w, hw, hpolled, hsymbol, -⟩ := held.stored hu.latest
  obtain rfl : u = w := Option.some.inj hw
  have hlabel : labelSymbol (labelOf t.symbol ts) = t.symbol :=
    labelSymbol_labelOf (hsymbol ▸ spaceless hpolled) ts
  have new : r'.phase.preparing = none := by
    rw [h.phase]
    split <;> rfl
  refine ⟨?_, ?_, ?_⟩
  · rw [h.labels]
    intro l hl
    obtain hl | hl := List.mem_append.mp hl
    · obtain ⟨w, ts', hpolledw, hl'⟩ := one.intents l hl
      exact ⟨w, ts', hpolledw.mono grown, hl'⟩
    · refine ⟨u, ts, hpolled.mono grown, ?_⟩
      rw [List.mem_singleton.mp hl, hsymbol]
  · intro s
    have hcount := one.flight s
    have hold : r.InFlight s ↔ r.Submitting s ∧ t.symbol ≠ s := by
      unfold Relayer.InFlight
      rw [phase]
      simp [Phase.preparing]
    unfold Relayer.outstandingFor at hcount ⊢
    simp only [h.labels, List.map_append, List.count_append, hcount, hold, inFlight_iff new,
      h.submitting, List.map_cons, List.map_nil, hlabel]
    by_cases hs : t.symbol = s
    · subst hs
      simp [hsub]
    · simp [hs]
  · rw [h.phase]
    split <;> trivial

/-- A reported intent releases its asset, and no other. -/
theorem OneFlight.complete (one : OneFlight labels r)
    (named : ∀ {u}, Polled labels u → u.assetSymbol ≠ []) {q : Queue} {intent : TxIntent}
    (hlabels : r.txQueue.labels = intent.label :: q.labels) (e : Event V) :
    OneFlight (e :: labels) (({ r with txQueue := q } : Relayer V).onTxComplete intent) := by
  obtain ⟨u, ts, hpolled, hlabel⟩ := one.intents intent.label (by simp [hlabels])
  have hmatch : matchSymbol intent.label = some u.assetSymbol := by
    rw [hlabel]
    exact matchSymbol_labelOf (spaceless hpolled) (named hpolled) ts
  have hsymbol : labelSymbol intent.label = u.assetSymbol := by
    rw [hlabel]
    exact labelSymbol_labelOf (spaceless hpolled) ts
  have hcount : ∀ s, (q.labels.map labelSymbol).count s + (if u.assetSymbol = s then 1 else 0) =
      if r.InFlight s then 1 else 0 := by
    intro s
    have hflight := one.flight s
    unfold Relayer.outstandingFor at hflight
    rw [← hflight, hlabels, List.map_cons, hsymbol, List.count_cons]
    simp
  have hflight : r.InFlight u.assetSymbol := by
    have hc := hcount u.assetSymbol
    by_contra hnot
    simp [hnot] at hc
  have hsub : ∀ s,
      (({ r with txQueue := q } : Relayer V).setState u.assetSymbol .idle).Submitting s ↔
      s ≠ u.assetSymbol ∧ r.Submitting s := fun s => submitting_setState_idle u.assetSymbol s
  simp only [Relayer.onTxComplete, hmatch]
  refine ⟨?_, ?_, ?_⟩
  · intro l hl
    obtain ⟨w, ts', hpolledw, hl'⟩ := one.intents l (hlabels ▸ List.mem_cons_of_mem _ hl)
    exact ⟨w, ts', hpolledw.mono (List.subset_cons_self e labels), hl'⟩
  · intro s
    have hc := hcount s
    have hnew : (({ r with txQueue := q } : Relayer V).setState u.assetSymbol .idle).InFlight s ↔
        s ≠ u.assetSymbol ∧ r.InFlight s := by
      unfold Relayer.InFlight
      rw [hsub, and_assoc]
      rfl
    simp only [hnew]
    change (q.labels.map labelSymbol).count s = _
    by_cases hs : u.assetSymbol = s
    · subst hs
      simpa [hflight] using hc
    · simpa [hs, Ne.symm hs] using hc
  · refine one.marked.mono (fun s hs => ((hsub s).mp hs).2) ?_
    intro s hs
    refine (hsub s).mpr ⟨?_, one.marked.submitting hs⟩
    rintro rfl
    exact hflight.2 hs

theorem OneFlight.settle (one : OneFlight labels r)
    (named : ∀ {u}, Polled labels u → u.assetSymbol ≠ []) {ev : TxQueue.Event} {q : Queue}
    {done : Completion} (react : r.txQueue.react ev = some (q, done)) (e : Event V) :
    OneFlight (e :: labels) (r.settle q done) := by
  have hlabels := react_labels react
  cases done with
  | some c => exact one.complete spaceless named hlabels e
  | none =>
    exact one.carry (List.subset_cons_self e labels) hlabels.symm (fun _ => Iff.rfl) one.marked

theorem oneFlight_step (one : OneFlight labels r) (held : Recorded p labels r)
    (regular : ∀ {u}, Polled labels u → Regular p u) (now : Step p r e r') :
    OneFlight (e :: labels) r' := by
  have grown : labels ⊆ e :: labels := List.subset_cons_self e labels
  cases now with
  | tickStarted phase =>
    refine one.toPhase grown rfl (fun _ => Iff.rfl) ?_ ?_
    · rw [phase]
      change Phase.preparing (if r.signerSubscribed then .polling else .querying) = _
      split <;> rfl
    · change Marked _ (if r.signerSubscribed then .polling else .querying)
      split <;> trivial
  | @queried past phase =>
    have h := bootstrap_bootstrapped p r past
    refine one.toPhase grown h.txQueue (submitting_of_assets h.assets) ?_ ?_
    · obtain hph | hph := h.phase <;> rw [hph, phase] <;> rfl
    · obtain hph | hph := h.phase <;> rw [hph] <;> trivial
  | subscribed phase => exact one.toPhase grown rfl (fun _ => Iff.rfl) (by rw [phase]; rfl) trivial
  | @polled replies phase =>
    have here : OneFlight (.polled replies :: labels) r :=
      one.carry grown rfl (fun _ => Iff.rfl) one.marked
    exact here.upsertAll (fetchPrices replies) phase
  | attempted phase found => exact one.opening phase found (openAttempt_opening p r _ _ _) _
  | @chainRead t asset answer phase found =>
    have here : OneFlight labels (r.observe t.symbol (answer.getD 0)) := by
      refine one.toPhase (List.Subset.refl labels) rfl (submitting_observe t.symbol _) rfl ?_
      exact one.marked.mono (fun s hs => (submitting_observe t.symbol _ s).mp hs) fun s hs =>
        (submitting_observe t.symbol _ s).mpr (one.marked.submitting hs)
    exact here.comparison phase (compareTimestamps_comparison p _ t asset.latest (answer.getD 0)) _
  | @lookedUp t signedTs signer answer phase =>
    have free : ¬ r.Submitting t.symbol := one.marked_at phase
    unfold Relayer.judge
    split
    · have marks := submitting_of_assets (addSigner_assets r signer)
      refine one.toPhase grown (addSigner_txQueue r signer) marks (by rw [phase]; rfl) ?_
      exact fun hs => free ((marks t.symbol).mp hs)
    · exact one.toPhase grown rfl (fun _ => Iff.rfl) (by rw [phase]; rfl) free
  | @verified t signedTs valid asset phase found =>
    cases valid with
    | true =>
      exact one.submission held regular phase found
        (submit_submission p r t asset.latest signedTs) _
    | false =>
      exact one.giveUp grown (by rw [phase]; rfl) (one.marked_at phase) t.rest
  | queued phase found =>
    exact one.enqueue spaceless held phase (enqueue_enqueued p r _ _ _ _ _) _
  | tickEnded phase =>
    refine one.toPhase grown rfl (fun _ => Iff.rfl) ?_ trivial
    obtain phase | phase := phase <;> rw [phase] <;> rfl
  | queue react => exact one.settle spaceless (fun h => (regular h).named) react _
  | @enclaveRegistered who =>
    have marks := submitting_of_assets (addSigner_assets r (p.toLowerCase who))
    refine one.toPhase grown (addSigner_txQueue r _) marks (by rw [addSigner_phase]) ?_
    rw [addSigner_phase]
    exact one.marked.mono (fun s hs => (marks s).mp hs) fun s hs =>
      (marks s).mpr (one.marked.submitting hs)

end Labels

theorem oneFlight_run (run : RelayRun p labels r)
    (spaceless : ∀ {u}, Polled labels u → WhitespaceFree u.assetSymbol)
    (regular : ∀ {u}, Polled labels u → Regular p u) : OneFlight labels r := by
  induction run with
  | start =>
    refine ⟨?_, ?_, trivial⟩
    · intro l hl
      cases hl
    · intro s
      rw [if_neg]
      · rfl
      · rintro ⟨h, -⟩
        cases h
  | @step older r r' e before now ih =>
    have grown : older ⊆ e :: older := List.subset_cons_self e older
    have spacelessBefore : ∀ {u}, Polled older u → WhitespaceFree u.assetSymbol :=
      fun h => spaceless (h.mono grown)
    have regularBefore : ∀ {u}, Polled older u → Regular p u := fun h => regular (h.mono grown)
    exact oneFlight_step spacelessBefore (ih spacelessBefore regularBefore) (recorded_run before)
      regularBefore now

/-! ### Runs -/

/-- An update that an attempt may submit: it was polled for the symbol, has its sources, recovers
to an accepted signer and is newer than what the attempt has read, and this is its call. -/
structure Justifies (p : Platform V) (labels : List (Event V)) (symbol : JsString) (now : ℤ)
    (data : JsString) (u : SignedPriceUpdate V) : Prop where
  polled : Polled labels u
  named : u.assetSymbol = symbol
  sources : ∃ n, p.uint8 u.numSources = some n ∧ MIN_SOURCES ≤ n
  signer : ∃ signer, recoverSigner p u = some signer ∧ Accepted p labels signer
  newer : ∃ signedTs, p.bigInt u.timestamp = some signedTs ∧
    ReadBelow labels symbol now signedTs ∧ updateCalldata p u signedTs = some data

theorem uint8_of_calldata {u : SignedPriceUpdate V} {signedTs : ℤ} {data : JsString}
    (h : updateCalldata p u signedTs = some data) : ∃ n, p.uint8 u.numSources = some n := by
  obtain ⟨price, -, h⟩ := Option.bind_eq_some_iff.mp h
  obtain ⟨n, hn, -⟩ := Option.bind_eq_some_iff.mp h
  exact ⟨n, hn⟩

/-- When an intent is queued, an update justifies it and the gap to the last relay is kept. -/
theorem Recorded.queued (held : Recorded p labels r)
    (regular : ∀ {u}, Polled labels u → Regular p u) {symbol : JsString} {now : ℤ}
    {intent : TxIntent} (step : Step p r (.queued symbol now intent) r') :
    (∃ u, Justifies p labels symbol now intent.data u) ∧
      ∃ last, r.view AssetRelay.lastRelayedAt symbol = some last ∧ MIN_RELAY_GAP ≤ now - last := by
  cases step with
  | @queued t calldata label address asset phase found =>
    have grounded := held.grounded
    rw [phase] at grounded
    obtain ⟨u, signedTs, ts, hu, hver, hdata, -⟩ := grounded
    obtain ⟨w, hw, hpolled, hsymbol, -⟩ := held.stored hu.latest
    obtain rfl : u = w := Option.some.inj hw
    obtain ⟨n, hn⟩ := uint8_of_calldata hdata
    refine ⟨⟨u, hpolled, hsymbol, ⟨n, hn, ?_⟩, hver.signer, signedTs, hver.timestamp, hver.newer,
      hdata⟩, hu.gap⟩
    exact (regular hpolled).quorum hu.quorum hn

theorem queued_run (run : RelayRun p labels r)
    (regular : ∀ {u}, Polled labels u → Regular p u) {newer older : List (Event V)}
    {s : JsString} {now : ℤ} {i : TxIntent} (h : labels = newer ++ .queued s now i :: older) :
    (∃ u, Justifies p older s now i.data u) ∧
      ∀ {now' i'}, .queued s now' i' ∈ older → now' + MIN_RELAY_GAP ≤ now := by
  subst h
  have grown : older ⊆ newer ++ .queued s now i :: older := fun e he =>
    List.mem_append_right newer (List.mem_cons_of_mem _ he)
  have regularBefore : ∀ {u}, Polled older u → Regular p u := fun h => regular (h.mono grown)
  obtain ⟨r₀, r₁, before, step⟩ := run.fired
  have held := recorded_run before
  obtain ⟨hjust, last, hlast, hgap⟩ := held.queued regularBefore step
  refine ⟨hjust, ?_⟩
  intro now' i' hmem
  obtain ⟨last', hlast', hle⟩ := held.relayed hmem
  obtain rfl : last = last' := Option.some.inj (hlast.symm.trans hlast')
  omega

/-- In every run, with any poll results and any answers of the chain, and with completions at any
wait: no symbol has two outstanding intents; every queued intent is the call of an update that
was verified and newer in its attempt; two attempts that queue for one symbol read clocks at
least eight seconds apart; and between ticks a symbol is marked exactly if it has an intent. -/
theorem relayer_safe (p : Platform V) {labels : List (Event V)} {r : Relayer V}
    (run : RelayRun p labels r)
    (spaceless : ∀ {u}, Polled labels u → WhitespaceFree u.assetSymbol)
    (regular : ∀ {u}, Polled labels u → Regular p u) :
    (∀ s, r.outstandingFor s ≤ 1) ∧
      (∀ newer older s now i, labels = newer ++ .queued s now i :: older →
        ∃ u, Justifies p older s now i.data u) ∧
      (∀ newer between older s now now' i i',
        labels = newer ++ .queued s now' i' :: (between ++ .queued s now i :: older) →
        now + 8 ≤ now') ∧
      (r.phase = .idle → ∀ s, r.Submitting s ↔ r.outstandingFor s = 1) := by
  have one := oneFlight_run run spaceless regular
  refine ⟨?_, ?_, ?_, ?_⟩
  · intro s
    rw [one.flight]
    split <;> omega
  · intro newer older s now i h
    exact (queued_run run regular h).1
  · intro newer between older s now now' i i' h
    apply (queued_run run regular h).2
    exact List.mem_append_right between List.mem_cons_self
  · intro phase s
    rw [one.flight, ← inFlight_iff (by rw [phase]; rfl)]
    by_cases h : r.InFlight s
    · simp [h]
    · simp [h]

/-! ### Two runs -/

/-- Numbers and strings, for the runs below. A signature recovers to the address it spells. -/
inductive Value where
  | num (n : ℤ)
  | str (s : JsString)
deriving DecidableEq

def Value.integer : Value → Option ℤ
  | .num n => some n
  | .str _ => none

def Value.string : Value → Option JsString
  | .num _ => none
  | .str s => some s

/-- A comparison with what is not a number is false. -/
def Value.compare (f : ℤ → ℤ → Bool) (v w : Value) : Option Bool :=
  match v.integer, w.integer with
  | some a, some b => some (f a b)
  | _, _ => some false

def Value.text : Value → Option JsString
  | .num n => some (codeUnits (Nat.toDigits 10 n.toNat))
  | .str s => some s

def Value.uint8 (v : Value) : Option ℕ :=
  match v.integer with
  | some n => if 0 ≤ n ∧ n < 256 then some n.toNat else none
  | none => none

def valuePlatform : Platform Value where
  literal n := .num n
  nullish _ := false
  greater := Value.compare fun a b => decide (b < a)
  less := Value.compare fun a b => decide (a < b)
  bigInt := Value.integer
  text := Value.text
  toLowerCase := id
  uint8 := Value.uint8
  solidityPacked _ _ _ _ _ := some []
  keccak256 := id
  getBytes _ := []
  hashMessage _ := []
  recoverAddress _ := Value.string
  encodeFunctionData _ _ _ _ _ := Value.string
  integer := Value.integer
  text_of_bigInt := by
    intro v z _
    cases v <;> rfl
  nullish_integer _ := rfl
  bigInt_integer h := h
  greater_integer := by
    intro v w a b hv hw
    simp [Value.compare, hv, hw]

def signerName : JsString := units "0xa"

def priced (symbol : JsString) (timestamp : ℤ) (signer : JsString) : SignedPriceUpdate Value where
  assetId := .num 0
  assetSymbol := symbol
  price := .num 5
  priceHuman := .num 5
  timestamp := .num timestamp
  numSources := .num 3
  sourcesHash := .num 0
  signature := .str signer

/-- The asset of a symbol after its first update. -/
def firstRelay (u : SignedPriceUpdate Value) : AssetRelay Value :=
  ⟨u.assetSymbol, u.assetId, .fresh, some u, 0, 0⟩

def intentFor (u : SignedPriceUpdate Value) : TxIntent where
  recipient := []
  data := signerName
  label := labelOf u.assetSymbol (units "1000")
  retries := 0

/-- A tick that relays one update, whose transaction is confirmed before the tick ends. -/
def confirmedTick (symbol : JsString) : List (Event Value) :=
  [.tickEnded,
    .queue (.receipt (some ⟨some 1, []⟩)),
    .queue .sent,
    .queue (.nonceRead 0),
    .queued symbol 100 (intentFor (priced symbol 1000 signerName)),
    .verified symbol,
    .lookedUp signerName (some true),
    .chainRead symbol (.num 0) (some 0),
    .attempted (firstRelay (priced symbol 1000 signerName)) 100,
    .polled [.answered false (some [priced symbol 1000 signerName])],
    .subscribed,
    .queried (some []),
    .tickStarted]

theorem polled_confirmedTick {symbol : JsString} {u : SignedPriceUpdate Value}
    (h : Polled (confirmedTick symbol) u) : u = priced symbol 1000 signerName := by
  obtain ⟨replies, hmem, hu⟩ := h
  simp only [confirmedTick, List.mem_cons, reduceCtorEq, Event.polled.injEq, List.not_mem_nil,
    false_or, or_false] at hmem
  subst hmem
  simpa [fetchPrices, fetchFrom] using hu

theorem regular_priced {symbol : JsString} (named : symbol ≠ []) (timestamp : ℤ)
    (signer : JsString) : Regular valuePlatform (priced symbol timestamp signer) where
  named := named
  encodes _ _ := rfl
  quorum := by
    intro n _ hn
    cases hn
    decide

def kas : JsString := units "KAS"

theorem relayer_safe_confirmed : ∃ r u, RelayRun valuePlatform (confirmedTick kas) r ∧
    Justifies valuePlatform ((confirmedTick kas).drop 5) kas 100
      (intentFor (priced kas 1000 signerName)).data u ∧
    ∀ s, r.Submitting s ↔ r.outstandingFor s = 1 := by
  obtain ⟨r, run, phase⟩ := run_of_respondAll valuePlatform (confirmedTick kas)
    (fun r => r.phase = .idle) (by decide +kernel)
  have spaceless : ∀ {u}, Polled (confirmedTick kas) u → WhitespaceFree u.assetSymbol := by
    intro u hu
    rw [polled_confirmedTick hu]
    decide
  have regular : ∀ {u}, Polled (confirmedTick kas) u → Regular valuePlatform u := by
    intro u hu
    rw [polled_confirmedTick hu]
    exact regular_priced (by decide) 1000 signerName
  obtain ⟨-, justified, -, marked⟩ := relayer_safe valuePlatform run spaceless regular
  obtain ⟨u, hu⟩ := justified ((confirmedTick kas).take 4) ((confirmedTick kas).drop 5) kas 100
    (intentFor (priced kas 1000 signerName)) rfl
  exact ⟨r, u, run, hu, marked phase⟩

/-- An endpoint returns a validly signed update under the empty symbol, which the signature does
not cover. The label of its intent does not match `/updatePrice\((\S+)/`, so the completion is
lost and the asset stays marked without an intent. -/
theorem unnamed_symbol_stays_marked : ∃ labels r, RelayRun valuePlatform labels r ∧
    (∀ {u}, Polled labels u → WhitespaceFree u.assetSymbol) ∧ labels.head? = some .tickEnded ∧
    r.phase = .idle ∧ r.Submitting [] ∧ r.outstandingFor [] = 0 := by
  obtain ⟨r, run, hr⟩ := run_of_respondAll valuePlatform (confirmedTick [])
    (fun r => r.phase = .idle ∧ r.Submitting [] ∧ r.outstandingFor [] = 0) (by decide +kernel)
  refine ⟨confirmedTick [], r, run, ?_, rfl, hr⟩
  intro u hu
  rw [polled_confirmedTick hu]
  decide

/-- An update whose signature recovers but whose call cannot be encoded (a signature given as an
object) leaves its asset marked: the exception is thrown between the mark and the push. -/
theorem unencodable_stays_marked (run : RelayRun p labels r) {t : Attempt} {signedTs : ℤ}
    (phase : r.phase = .judged t signedTs true) {asset : AssetRelay V}
    (found : r.find t.symbol = some asset) {u : SignedPriceUpdate V}
    (latest : asset.latest = some u)
    (h : updateCalldata p u signedTs = none) :
    ∃ r', RelayRun p (.tickEnded :: .verified t.symbol :: labels) r' ∧ r'.phase = .idle ∧
      r'.Submitting t.symbol ∧ r'.txQueue = r.txQueue := by
  have hsubmit : r.submit p t asset.latest signedTs true =
      (r.setState t.symbol .submitting).abort := by
    simp [Relayer.submit, latest, h]
  refine ⟨_, (run.step (.verified phase found)).step (.tickEnded (.inr ?_)), rfl, ?_, ?_⟩
  · rw [hsubmit]
    rfl
  · rw [hsubmit]
    exact (submitting_setState found).mpr (.inl rfl)
  · rw [hsubmit]
    rfl

end Nuntius.Relaying
