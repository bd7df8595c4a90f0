import Nuntius.RelaySteps

/-!
# What the relayer has established when it waits

Every stored update was polled for its symbol, every cached signer was named by the chain, and an
attempt that waits has passed the checks before the wait. This holds in every run, whatever the
endpoints return and whatever the chain answers.
-/

namespace Nuntius.Relaying
open TxQueue LabelledRuns

variable {V : Type} {p : Platform V} {labels : List (Event V)} {r r' : Relayer V} {e : Event V}

/-! ### What a run has seen -/

def Polled (labels : List (Event V)) (u : SignedPriceUpdate V) : Prop :=
  ∃ replies, .polled replies ∈ labels ∧ u ∈ fetchPrices replies

/-- The chain named the address as a signer, in a past event, in a live one or in a lookup. -/
def Accepted (p : Platform V) (labels : List (Event V)) (signer : JsString) : Prop :=
  (∃ past who, .queried (some past) ∈ labels ∧ some who ∈ past ∧ p.toLowerCase who = signer) ∨
    (∃ who, .enclaveRegistered who ∈ labels ∧ p.toLowerCase who = signer) ∨
    .lookedUp signer (some true) ∈ labels

def Event.reads : Event V → Bool
  | .attempted _ _ | .chainRead _ _ _ => true
  | _ => false

/-- The attempt that was opened last is at this symbol and has read this clock. -/
def Opened (labels : List (Event V)) (symbol : JsString) (now : ℤ) : Prop :=
  ∃ since earlier asset, labels = since ++ .attempted asset now :: earlier ∧
    asset.symbol = symbol ∧ ∀ e ∈ since, e.reads = false

/-- The same attempt has read an on-chain timestamp below this one. -/
def ReadBelow (labels : List (Event V)) (symbol : JsString) (now signedTs : ℤ) : Prop :=
  ∃ since earlier assetId answer, labels = since ++ .chainRead symbol assetId answer :: earlier ∧
    (∀ e ∈ since, e.reads = false) ∧ Opened earlier symbol now ∧
    ((answer.getD 0 : ℕ) : ℤ) < signedTs

theorem Polled.mono {labels' : List (Event V)} {u : SignedPriceUpdate V} (h : Polled labels u)
    (grown : labels ⊆ labels') : Polled labels' u := by
  obtain ⟨replies, hmem, hu⟩ := h
  exact ⟨replies, grown hmem, hu⟩

theorem Accepted.mono {labels' : List (Event V)} {signer : JsString}
    (h : Accepted p labels signer) (grown : labels ⊆ labels') : Accepted p labels' signer := by
  obtain ⟨past, who, hmem, hwho⟩ | ⟨who, hmem, hwho⟩ | hmem := h
  · exact .inl ⟨past, who, grown hmem, hwho⟩
  · exact .inr (.inl ⟨who, grown hmem, hwho⟩)
  · exact .inr (.inr (grown hmem))

theorem Opened.cons {symbol : JsString} {now : ℤ} (h : Opened labels symbol now)
    (he : e.reads = false) : Opened (e :: labels) symbol now := by
  obtain ⟨since, earlier, asset, rfl, hs, hquiet⟩ := h
  refine ⟨e :: since, earlier, asset, rfl, hs, ?_⟩
  intro e' he'
  obtain rfl | he' := List.mem_cons.mp he'
  · exact he
  · exact hquiet e' he'

theorem ReadBelow.cons {symbol : JsString} {now signedTs : ℤ}
    (h : ReadBelow labels symbol now signedTs) (he : e.reads = false) :
    ReadBelow (e :: labels) symbol now signedTs := by
  obtain ⟨since, earlier, assetId, answer, rfl, hquiet, hopened, hlt⟩ := h
  refine ⟨e :: since, earlier, assetId, answer, rfl, ?_, hopened, hlt⟩
  intro e' he'
  obtain rfl | he' := List.mem_cons.mp he'
  · exact he
  · exact hquiet e' he'

/-! ### The records -/

/-- The update that an attempt is about passed the first checks of `tryRelay`. -/
structure Candidate (p : Platform V) (r : Relayer V) (t : Attempt) (u : SignedPriceUpdate V) :
    Prop where
  latest : r.view AssetRelay.latest t.symbol = some (some u)
  quorum : p.less u.numSources (p.literal MIN_SOURCES) = some false
  gap : ∃ last, r.view AssetRelay.lastRelayedAt t.symbol = some last ∧ MIN_RELAY_GAP ≤ t.now - last

structure Verified (p : Platform V) (labels : List (Event V)) (t : Attempt)
    (u : SignedPriceUpdate V) (signedTs : ℤ) : Prop where
  timestamp : p.bigInt u.timestamp = some signedTs
  newer : ReadBelow labels t.symbol t.now signedTs
  signer : ∃ signer, recoverSigner p u = some signer ∧ Accepted p labels signer

/-- What an attempt has established by the time it waits. -/
def Grounded (p : Platform V) (labels : List (Event V)) (r : Relayer V) : Phase → Prop
  | .reading t => Opened labels t.symbol t.now ∧ ∃ u, Candidate p r t u
  | .lookingUp t signedTs signer =>
    ∃ u, Candidate p r t u ∧ p.bigInt u.timestamp = some signedTs ∧
      ReadBelow labels t.symbol t.now signedTs ∧ recoverSigner p u = some signer
  | .judged t signedTs valid =>
    valid = true → ∃ u, Candidate p r t u ∧ Verified p labels t u signedTs
  | .addressing t calldata label =>
    ∃ u signedTs ts, Candidate p r t u ∧ Verified p labels t u signedTs ∧
      updateCalldata p u signedTs = some calldata ∧ label = labelOf t.symbol ts
  | _ => True

structure Recorded (p : Platform V) (labels : List (Event V)) (r : Relayer V) : Prop where
  stored : ∀ {s o}, r.view AssetRelay.latest s = some o →
    ∃ u, o = some u ∧ Polled labels u ∧ u.assetSymbol = s ∧
      r.view AssetRelay.assetId s = some u.assetId
  signers : ∀ signer ∈ r.validSigners, Accepted p labels signer
  relayed : ∀ {s now i}, .queued s now i ∈ labels →
    ∃ last, r.view AssetRelay.lastRelayedAt s = some last ∧ now ≤ last
  grounded : Grounded p labels r r.phase

theorem Candidate.of_sameRecords {t : Attempt} {u : SignedPriceUpdate V} (h : Candidate p r t u)
    (same : SameRecords r r') : Candidate p r' t u where
  latest := (same.latest t.symbol).trans h.latest
  quorum := h.quorum
  gap := by
    rw [same.lastRelayedAt]
    exact h.gap

theorem Verified.cons {t : Attempt} {u : SignedPriceUpdate V} {signedTs : ℤ}
    (h : Verified p labels t u signedTs) (he : e.reads = false) :
    Verified p (e :: labels) t u signedTs where
  timestamp := h.timestamp
  newer := h.newer.cons he
  signer := by
    obtain ⟨signer, hrec, hacc⟩ := h.signer
    exact ⟨signer, hrec, hacc.mono (List.subset_cons_self e labels)⟩

/-- What an attempt has established stays so while the tick waits. -/
theorem Grounded.cons {ph : Phase} (h : Grounded p labels r ph) (he : e.reads = false)
    (same : SameRecords r r') : Grounded p (e :: labels) r' ph := by
  cases ph with
  | reading t =>
    obtain ⟨hopened, u, hu⟩ := h
    exact ⟨hopened.cons he, u, hu.of_sameRecords same⟩
  | lookingUp t signedTs signer =>
    obtain ⟨u, hu, hts, hread, hrec⟩ := h
    exact ⟨u, hu.of_sameRecords same, hts, hread.cons he, hrec⟩
  | judged t signedTs valid =>
    intro hvalid
    obtain ⟨u, hu, hver⟩ := h hvalid
    exact ⟨u, hu.of_sameRecords same, hver.cons he⟩
  | addressing t calldata label =>
    obtain ⟨u, signedTs, ts, hu, hver, hdata, hlabel⟩ := h
    exact ⟨u, signedTs, ts, hu.of_sameRecords same, hver.cons he, hdata, hlabel⟩
  | _ => trivial

def Event.isQueued : Event V → Bool
  | .queued _ _ _ => true
  | _ => false

/-- More has happened, but no intent was queued. -/
structure Extends (labels labels' : List (Event V)) : Prop where
  grown : labels ⊆ labels'
  queued : ∀ {s now i}, .queued s now i ∈ labels' → .queued s now i ∈ labels

theorem Extends.refl (labels : List (Event V)) : Extends labels labels where
  grown := List.Subset.refl labels
  queued := id

theorem Extends.cons (labels : List (Event V)) {e : Event V} (he : e.isQueued = false) :
    Extends labels (e :: labels) where
  grown := List.subset_cons_self e labels
  queued := by
    intro s now i h
    obtain rfl | hmem := List.mem_cons.mp h
    · cases he
    · exact hmem

section Carry
variable {labels' : List (Event V)}

/-- A step that changes no record. -/
theorem Recorded.carry (held : Recorded p labels r) (ext : Extends labels labels')
    (same : SameRecords r r')
    (signers : ∀ signer ∈ r'.validSigners, signer ∈ r.validSigners ∨ Accepted p labels' signer)
    (grounded : Grounded p labels' r' r'.phase) : Recorded p labels' r' where
  stored := by
    intro s o ho
    rw [same.latest] at ho
    rw [same.assetId]
    obtain ⟨u, hu, hpolled, hs, hid⟩ := held.stored ho
    exact ⟨u, hu, hpolled.mono ext.grown, hs, hid⟩
  signers := by
    intro signer hs
    obtain hs | hs := signers signer hs
    · exact (held.signers signer hs).mono ext.grown
    · exact hs
  relayed := by
    intro s now i hmem
    rw [same.lastRelayedAt]
    exact held.relayed (ext.queued hmem)
  grounded := grounded

/-- The tick goes on to another wait. -/
theorem Recorded.toPhase (held : Recorded p labels r) (ext : Extends labels labels') {ph : Phase}
    (grounded : Grounded p labels' { r with phase := ph } ph) :
    Recorded p labels' { r with phase := ph } :=
  held.carry ext (.of_assets rfl) (fun _ hs => .inl hs) grounded

end Carry

/-- The update an attempt is about is the one its code reads. -/
theorem Candidate.latest_eq {t : Attempt} {u : SignedPriceUpdate V} (h : Candidate p r t u)
    {latest : Option (SignedPriceUpdate V)}
    (found : r.view AssetRelay.latest t.symbol = some latest) : latest = some u :=
  Option.some.inj (found.symm.trans h.latest)

/-! ### Every step keeps the records -/

theorem Recorded.upsert (held : Recorded p labels r) (phase : r.phase = .polling)
    {u : SignedPriceUpdate V} (polled : Polled labels u) (h : Upserted u r r') :
    Recorded p labels r' where
  stored := by
    intro s o ho
    obtain ⟨hlatest, hid⟩ | ⟨rfl, hlatest, hid⟩ := h.update s
    · rw [hlatest] at ho
      rw [hid]
      exact held.stored ho
    · rw [hlatest] at ho
      exact ⟨u, (Option.some.inj ho).symm, polled, rfl, hid⟩
  signers := by
    rw [h.validSigners]
    exact held.signers
  relayed := by
    intro s now i hmem
    obtain ⟨last, hlast, hle⟩ := held.relayed hmem
    exact ⟨last, h.lastRelayedAt hlast, hle⟩
  grounded := by
    rw [h.phase, phase]
    trivial

theorem Recorded.upsertAll (prices : List (SignedPriceUpdate V))
    (polled : ∀ u ∈ prices, Polled labels u) {r : Relayer V} (held : Recorded p labels r)
    (phase : r.phase = .polling) : Recorded p labels (r.upsertAll p prices) := by
  induction prices generalizing r with
  | nil => exact held.toPhase (.refl labels) trivial
  | cons u prices ih =>
    unfold Relayer.upsertAll
    split
    case h_1 => exact held.toPhase (.refl labels) trivial
    case h_2 r' hr' =>
      have hup := upsertPrice_upserted hr'
      apply ih
      · intro w hw
        exact polled w (List.mem_cons_of_mem u hw)
      · exact held.upsert phase (polled u List.mem_cons_self) hup
      · exact hup.phase.trans phase

theorem Recorded.opening (held : Recorded p labels r) {s : JsString} {asset : AssetRelay V}
    (found : r.find s = some asset) {now : ℤ} {rest : List JsString}
    (h : Opening p r asset now rest r') :
    Recorded p (.attempted asset now :: labels) r' := by
  have ext : Extends labels (.attempted asset now :: labels) := .cons labels rfl
  have hs : asset.symbol = s := find_symbol found
  cases h with
  | skipped => exact held.toPhase ext trivial
  | threw => exact held.toPhase ext trivial
  | tooFew =>
    exact held.carry ext (.giveUp r asset.symbol rest) (fun _ hs => .inl hs) trivial
  | passed free latest gap quorum =>
    refine held.toPhase ext ⟨⟨[], labels, asset, rfl, rfl, by simp⟩, _, ?_, quorum, _, ?_, gap⟩
    · rw [hs, ← latest]
      exact view_find AssetRelay.latest found
    · rw [hs]
      exact view_find AssetRelay.lastRelayedAt found

theorem Recorded.observe (held : Recorded p labels r) {t : Attempt} (phase : r.phase = .reading t)
    (n : ℕ) : Recorded p labels (r.observe t.symbol n) := by
  have same := SameRecords.observe r t.symbol n
  refine held.carry (.refl labels) same (fun _ hs => .inl hs) ?_
  have grounded := held.grounded
  change Grounded p labels _ r.phase
  rw [phase] at grounded ⊢
  obtain ⟨hopened, u, hu⟩ := grounded
  exact ⟨hopened, u, hu.of_sameRecords same⟩

theorem Recorded.comparison (held : Recorded p labels r) {t : Attempt}
    (phase : r.phase = .reading t) {latest : Option (SignedPriceUpdate V)}
    (found : r.view AssetRelay.latest t.symbol = some latest) (assetId : V) {answer : Option ℕ}
    (h : Comparison p r t latest (answer.getD 0) r') :
    Recorded p (.chainRead t.symbol assetId answer :: labels) r' := by
  have ext : Extends labels (.chainRead t.symbol assetId answer :: labels) := .cons labels rfl
  have grounded := held.grounded
  rw [phase] at grounded
  obtain ⟨opened, u, hu⟩ := grounded
  have hlatest := hu.latest_eq found
  have read : ∀ {signedTs : ℤ}, ((answer.getD 0 : ℕ) : ℤ) < signedTs →
      ReadBelow (.chainRead t.symbol assetId answer :: labels) t.symbol t.now signedTs :=
    fun hlt => ⟨[], labels, assetId, answer, rfl, by simp, opened, hlt⟩
  cases h with
  | threw => exact held.toPhase ext trivial
  | stale => exact held.carry ext (.giveUp r t.symbol t.rest) (fun _ hs => .inl hs) trivial
  | unsigned => exact held.toPhase ext nofun
  | @known u' signedTs signer hfound hts hlt hrec hmem =>
    obtain rfl : u = u' := Option.some.inj (hlatest.symm.trans hfound)
    have hacc := (held.signers signer hmem).mono ext.grown
    exact held.toPhase ext fun _ =>
      ⟨u, hu.of_sameRecords (.of_assets rfl), hts, read hlt, signer, hrec, hacc⟩
  | @unknown u' signedTs signer hfound hts hlt hrec =>
    obtain rfl : u = u' := Option.some.inj (hlatest.symm.trans hfound)
    exact held.toPhase ext ⟨u, hu.of_sameRecords (.of_assets rfl), hts, read hlt, hrec⟩

theorem Recorded.judge (held : Recorded p labels r) {t : Attempt} {signedTs : ℤ}
    {signer : JsString} (phase : r.phase = .lookingUp t signedTs signer) (answer : Option Bool) :
    Recorded p (.lookedUp signer answer :: labels) (r.judge t signedTs signer answer) := by
  have ext : Extends labels (.lookedUp signer answer :: labels) := .cons labels rfl
  have grounded := held.grounded
  rw [phase] at grounded
  obtain ⟨u, hu, hts, hread, hrec⟩ := grounded
  unfold Relayer.judge
  split
  case h_1 =>
    have hacc : Accepted p (.lookedUp signer (some true) :: labels) signer :=
      .inr (.inr List.mem_cons_self)
    have same : SameRecords r { r.addSigner signer with phase := .judged t signedTs true } :=
      .of_assets (addSigner_assets r signer)
    refine held.carry ext same ?_ fun _ =>
      ⟨u, hu.of_sameRecords same, hts, hread.cons rfl, signer, hrec, hacc⟩
    intro x hx
    obtain hx | rfl := mem_addSigner hx
    · exact .inl hx
    · exact .inr hacc
  case h_2 => exact held.toPhase ext nofun

theorem Recorded.submission (held : Recorded p labels r) {t : Attempt} {signedTs : ℤ}
    (phase : r.phase = .judged t signedTs true) {asset : AssetRelay V}
    (found : r.find t.symbol = some asset) (h : Submission p r t asset.latest signedTs r') :
    Recorded p (.verified t.symbol :: labels) r' := by
  have ext : Extends labels (.verified t.symbol :: labels) := .cons labels rfl
  have grounded := held.grounded
  rw [phase] at grounded
  obtain ⟨u, hu, hver⟩ := grounded rfl
  have latest := hu.latest_eq (view_find AssetRelay.latest found)
  have same := SameRecords.setState r t.symbol .submitting
  cases h with
  | threw => exact held.carry ext same (fun _ hs => .inl hs) trivial
  | @ready u' calldata ts hfound hdata =>
    obtain rfl : u = u' := Option.some.inj (latest.symm.trans hfound)
    exact held.carry ext same (fun _ hs => .inl hs)
      ⟨u, signedTs, ts, hu.of_sameRecords same, hver.cons rfl, hdata, rfl⟩

theorem Recorded.enqueue (held : Recorded p labels r) {t : Attempt} {calldata label : JsString}
    (phase : r.phase = .addressing t calldata label) {latest : Option (SignedPriceUpdate V)}
    (h : Enqueued p t latest label r r') (intent : TxIntent) :
    Recorded p (.queued t.symbol t.now intent :: labels) r' := by
  have grounded := held.grounded
  rw [phase] at grounded
  obtain ⟨u, signedTs, ts, hu, -⟩ := grounded
  obtain ⟨last, hlast, hgap⟩ := hu.gap
  have grown : labels ⊆ .queued t.symbol t.now intent :: labels := List.subset_cons_self _ labels
  refine ⟨?_, ?_, ?_, ?_⟩
  · intro s o ho
    rw [h.sameLatest] at ho
    rw [h.sameId]
    obtain ⟨w, hw, hpolled, hs, hid⟩ := held.stored ho
    exact ⟨w, hw, hpolled.mono grown, hs, hid⟩
  · rw [h.validSigners]
    intro signer hs
    exact (held.signers signer hs).mono grown
  · intro s now i hmem
    obtain heq | hmem := List.mem_cons.mp hmem
    · cases heq
      exact ⟨t.now, h.relayedNow hlast, Int.le_refl t.now⟩
    · obtain ⟨last', hlast', hle⟩ := held.relayed hmem
      by_cases hs : s = t.symbol
      · subst hs
        obtain rfl : last = last' := Option.some.inj (hlast.symm.trans hlast')
        refine ⟨t.now, h.relayedNow hlast, ?_⟩
        unfold MIN_RELAY_GAP at hgap
        omega
      · exact ⟨last', (h.relayedBefore hs).trans hlast', hle⟩
  · rw [h.phase]
    split <;> trivial

theorem settle_kept (r : Relayer V) (q : Queue) (done : Completion) :
    SameRecords r (r.settle q done) ∧ (r.settle q done).validSigners = r.validSigners ∧
      (r.settle q done).phase = r.phase := by
  cases done with
  | none => exact ⟨.of_assets rfl, rfl, rfl⟩
  | some c =>
    simp only [Relayer.settle, Relayer.onTxComplete]
    split
    case h_1 => exact ⟨.of_assets rfl, rfl, rfl⟩
    case h_2 symbol _ => exact ⟨.setState r symbol .idle, rfl, rfl⟩

theorem recorded_step (held : Recorded p labels r) (now : Step p r e r') :
    Recorded p (e :: labels) r' := by
  cases now with
  | tickStarted phase =>
    apply held.toPhase (.cons labels rfl)
    split <;> trivial
  | @queried past phase =>
    have h := bootstrap_bootstrapped p r past
    refine held.carry (.cons labels rfl) (.of_assets h.assets) ?_ ?_
    · intro signer hs
      obtain hs | ⟨logs, who, rfl, hmem, hwho⟩ := h.validSigners signer hs
      · exact .inl hs
      · exact .inr (.inl ⟨logs, who, List.mem_cons_self, hmem, hwho⟩)
    · obtain hph | hph := h.phase <;> rw [hph] <;> trivial
  | subscribed phase =>
    exact held.carry (.cons labels rfl) (.of_assets rfl) (fun _ hs => .inl hs) trivial
  | @polled replies phase =>
    have here : Recorded p (.polled replies :: labels) r := by
      refine held.carry (.cons labels rfl) (.of_assets rfl) (fun _ hs => .inl hs) ?_
      rw [phase]
      trivial
    refine here.upsertAll (fetchPrices replies) ?_ phase
    intro u hu
    exact ⟨replies, List.mem_cons_self, hu⟩
  | attempted phase found => exact held.opening found (openAttempt_opening p r _ _ _)
  | @chainRead t asset answer phase found =>
    refine (held.observe phase (answer.getD 0)).comparison phase ?_ asset.assetId
      (compareTimestamps_comparison p _ t asset.latest (answer.getD 0))
    rw [(SameRecords.observe r t.symbol (answer.getD 0)).latest]
    exact view_find AssetRelay.latest found
  | lookedUp phase => exact held.judge phase _
  | @verified t signedTs valid asset phase found =>
    cases valid with
    | true => exact held.submission phase found (submit_submission p r t asset.latest signedTs)
    | false =>
      exact held.carry (.cons labels rfl) (.giveUp r t.symbol t.rest) (fun _ hs => .inl hs) trivial
  | queued phase found => exact held.enqueue phase (enqueue_enqueued p r _ _ _ _ _) _
  | tickEnded phase => exact held.toPhase (.cons labels rfl) trivial
  | @queue ev q done react =>
    obtain ⟨same, hsigners, hphase⟩ := settle_kept r q done
    refine held.carry (.cons labels rfl) same ?_ ?_
    · rw [hsigners]
      exact fun _ hs => .inl hs
    · rw [hphase]
      exact held.grounded.cons rfl same
  | @enclaveRegistered who =>
    have same : SameRecords r (r.addSigner (p.toLowerCase who)) := .of_assets (addSigner_assets r _)
    refine held.carry (.cons labels rfl) same ?_ ?_
    · intro signer hs
      obtain hs | rfl := mem_addSigner hs
      · exact .inl hs
      · exact .inr (.inr (.inl ⟨who, List.mem_cons_self, rfl⟩))
    · rw [addSigner_phase]
      exact held.grounded.cons rfl same

theorem recorded_run (run : RelayRun p labels r) : Recorded p labels r := by
  induction run with
  | start =>
    refine ⟨?_, ?_, ?_, trivial⟩
    · intro s o h
      cases h
    · intro signer hs
      cases hs
    · intro s now i h
      cases h
  | step before now ih => exact recorded_step ih now

end Nuntius.Relaying
