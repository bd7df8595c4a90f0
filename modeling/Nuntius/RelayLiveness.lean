import Nuntius.RelaySafety

/-!
# When a valid update is relayed in its tick

The relayer keeps one update per symbol, the one with the greatest timestamp, and checks the
signature only of that one. So an update that claims a later time hides a valid one, whatever its
signature is. Where every update that is as late as the valid one is itself valid, and no update
makes the code throw, the tick relays one of them.
-/

namespace Nuntius.Relaying
open TxQueue LabelledRuns

variable {V : Type} {p : Platform V} {labels : List (Event V)} {r r' : Relayer V} {e : Event V}
  {registered : JsString → Prop}

/-- At least three sources, and a signature that recovers to a registered signer. -/
structure Valid (p : Platform V) (registered : JsString → Prop) (u : SignedPriceUpdate V) :
    Prop where
  sources : p.less u.numSources (p.literal MIN_SOURCES) = some false
  signer : ∃ signer, recoverSigner p u = some signer ∧ registered signer

/-- An update at which no expression of `tick` throws. -/
structure Calm (p : Platform V) (u : SignedPriceUpdate V) : Prop where
  timestamp : ∃ z, p.integer u.timestamp = some z
  sources : (p.less u.numSources (p.literal MIN_SOURCES)).isSome
  encodes : ∀ {signer signedTs}, recoverSigner p u = some signer →
    p.bigInt u.timestamp = some signedTs → (updateCalldata p u signedTs).isSome
  prints : Relayer.prints p u = true

/-! ### The latest update of a symbol -/

/-- The stored update of a symbol is at least this late. -/
def Covers (p : Platform V) (r : Relayer V) (s : JsString) (a : ℤ) : Prop :=
  ∃ w b, r.view AssetRelay.latest s = some (some w) ∧ p.integer w.timestamp = some b ∧ a ≤ b

def Dated (p : Platform V) (r : Relayer V) : Prop :=
  ∀ {s o}, r.view AssetRelay.latest s = some o → ∃ w b, o = some w ∧ p.integer w.timestamp = some b

theorem Dated.upsert (dated : Dated p r) {u : SignedPriceUpdate V} {a : ℤ}
    (ha : p.integer u.timestamp = some a) (h : Upserted u r r') : Dated p r' := by
  intro s o ho
  obtain ⟨hlatest, -⟩ | ⟨-, hlatest, -⟩ := h.update s
  · rw [hlatest] at ho
    exact dated ho
  · rw [hlatest] at ho
    exact ⟨u, a, (Option.some.inj ho).symm, ha⟩

theorem Covers.of_own {u : SignedPriceUpdate V} {a : ℤ} (ha : p.integer u.timestamp = some a)
    (h : Upserted u r r') (own : r'.view AssetRelay.latest u.assetSymbol = some (some u))
    (later : ∀ {b}, Covers p r u.assetSymbol b → b ≤ a) :
    Covers p r' u.assetSymbol a ∧ ∀ {s b}, Covers p r s b → Covers p r' s b := by
  have hown : Covers p r' u.assetSymbol a := ⟨u, a, own, ha, Int.le_refl a⟩
  refine ⟨hown, ?_⟩
  intro s b hb
  obtain ⟨hlatest, -⟩ | ⟨rfl, hlatest, -⟩ := h.update s
  · obtain ⟨w, c, hw, hc, hle⟩ := hb
    exact ⟨w, c, hlatest.trans hw, hc, hle⟩
  · exact ⟨u, a, hlatest, ha, later hb⟩

/-- Storing a dated update leaves every symbol at least as late, and its own as late as it. -/
theorem upsertPrice_covers (dated : Dated p r) {u : SignedPriceUpdate V} {a : ℤ}
    (ha : p.integer u.timestamp = some a) :
    ∃ r', r.upsertPrice p u = some r' ∧ Covers p r' u.assetSymbol a ∧
      ∀ {s b}, Covers p r s b → Covers p r' s b := by
  cases hfind : r.find u.assetSymbol with
  | none =>
    refine ⟨{ r with assets := r.assets ++ [⟨u.assetSymbol, u.assetId, .fresh, some u, 0, 0⟩] }, ?_,
      Covers.of_own ha (upserted_insert hfind) ?_ ?_⟩
    · simp [Relayer.upsertPrice, hfind]
    · unfold Relayer.view
      simp [find_append, hfind]
    · rintro b ⟨w, c, hw, -⟩
      simp [Relayer.view, hfind] at hw
  | some existing =>
    obtain ⟨w, c, hw, hc⟩ := dated (view_find AssetRelay.latest hfind)
    have hgreater : p.greater u.timestamp (Relayer.timestampOrZero p existing.latest) =
        some (decide (c < a)) := by
      rw [hw]
      simp only [Relayer.timestampOrZero, p.nullish_integer hc]
      exact p.greater_integer ha hc
    have hstored : r.view AssetRelay.latest u.assetSymbol = some (some w) := by
      rw [← hw]
      exact view_find AssetRelay.latest hfind
    by_cases hlt : c < a
    · refine ⟨_, by simp [Relayer.upsertPrice, hfind, hgreater, hlt],
        Covers.of_own ha (upserted_replace hfind) ?_ ?_⟩
      · rw [view_modify _ (by intro a; rfl), if_pos rfl, hfind]
        rfl
      · rintro b ⟨w', c', hw', hc', hle⟩
        rw [hstored] at hw'
        cases hw'
        rw [hc] at hc'
        cases hc'
        omega
    · refine ⟨r, by simp [Relayer.upsertPrice, hfind, hgreater, hlt], ⟨w, c, hstored, hc, by omega⟩,
        fun h => h⟩

/-- Storing dated updates does not throw, and leaves each symbol as late as its updates. -/
theorem upsertAll_covers (prices : List (SignedPriceUpdate V))
    (integers : ∀ u ∈ prices, ∃ a, p.integer u.timestamp = some a) {r : Relayer V}
    (dated : Dated p r) :
    (r.upsertAll p prices).phase = .looping ((r.upsertAll p prices).assets.map AssetRelay.symbol) ∧
      (∀ {s b}, Covers p r s b → Covers p (r.upsertAll p prices) s b) ∧
      ∀ u ∈ prices, ∀ {a}, p.integer u.timestamp = some a →
        Covers p (r.upsertAll p prices) u.assetSymbol a := by
  induction prices generalizing r with
  | nil =>
    refine ⟨rfl, fun h => h, ?_⟩
    intro u hu
    cases hu
  | cons u prices ih =>
    obtain ⟨a, ha⟩ := integers u List.mem_cons_self
    obtain ⟨r', hr', hown, hmono⟩ := upsertPrice_covers dated ha
    have hall : r.upsertAll p (u :: prices) = r'.upsertAll p prices := by
      simp [Relayer.upsertAll, hr']
    obtain ⟨hphase, hkept, hprices⟩ := ih (fun w hw => integers w (List.mem_cons_of_mem u hw))
      (dated.upsert ha (upsertPrice_upserted hr'))
    rw [hall]
    refine ⟨hphase, fun h => hkept (hmono h), ?_⟩
    intro w hw b hb
    obtain rfl | hw := List.mem_cons.mp hw
    · rw [ha] at hb
      cases hb
      exact hkept hown
    · exact hprices w hw hb

/-! ### A tick with a valid update -/

/-- In this tick an endpoint returned a valid update that is newer than the chain, for a symbol
that is neither in flight nor within the relay gap, and the chain answers. -/
structure Due (p : Platform V) (registered : JsString → Prop) (replies : List (EndpointReply V))
    (tick : List (Event V)) (u : SignedPriceUpdate V) (signedTs : ℤ) : Prop where
  returned : u ∈ fetchPrices replies
  valid : Valid p registered u
  timestamp : p.bigInt u.timestamp = some signedTs
  free : ∀ {asset now}, .attempted asset now ∈ tick → asset.symbol = u.assetSymbol →
    asset.state ≠ .submitting ∧ MIN_RELAY_GAP ≤ now - asset.lastRelayedAt
  reads : ∀ {s assetId answer}, .chainRead s assetId answer ∈ tick → ∃ c, answer = some c
  newer : ∀ {c : ℕ}, .chainRead u.assetSymbol u.assetId (some c) ∈ tick → (c : ℤ) < signedTs
  lookups : ∀ {signer answer}, .lookedUp signer answer ∈ tick →
    ∃ b, answer = some b ∧ (b = true ↔ registered signer)

/-- The tick queues a validly signed update of the symbol. -/
def Relayed (p : Platform V) (registered : JsString → Prop) (seen tick : List (Event V))
    (symbol : JsString) : Prop :=
  ∃ now intent w signer signedTs, .queued symbol now intent ∈ tick ∧ Polled seen w ∧
    w.assetSymbol = symbol ∧ recoverSigner p w = some signer ∧ registered signer ∧
    p.bigInt w.timestamp = some signedTs ∧ updateCalldata p w signedTs = some intent.data

/-- The symbol still comes up in the tick, and its verdict is not a refusal. -/
def Ahead (symbol : JsString) : Phase → Prop
  | .looping rest => symbol ∈ rest
  | .reading t | .lookingUp t _ _ | .addressing t _ _ => symbol = t.symbol ∨ symbol ∈ t.rest
  | .judged t _ valid => symbol = t.symbol ∧ valid = true ∨ symbol ∈ t.rest
  | _ => False

/-- Before the symbol is relayed: its stored update is valid and late enough, and no stored update
makes the code throw. -/
structure Pending (p : Platform V) (registered : JsString → Prop) (seen : List (Event V))
    (u : SignedPriceUpdate V) (signedTs : ℤ) (w : SignedPriceUpdate V) (r : Relayer V) :
    Prop where
  polled : Polled seen w
  named : w.assetSymbol = u.assetSymbol
  valid : Valid p registered w
  late : ∃ z, p.bigInt w.timestamp = some z ∧ signedTs ≤ z
  latest : r.view AssetRelay.latest u.assetSymbol = some (some w)
  assetId : r.view AssetRelay.assetId u.assetSymbol = some u.assetId
  calm : ∀ {s o}, r.view AssetRelay.latest s = some o → ∃ x, o = some x ∧ Calm p x
  ahead : Ahead u.assetSymbol r.phase

section Ticks
variable {replies : List (EndpointReply V)} {older tick seen : List (Event V)}
  {u w : SignedPriceUpdate V} {signedTs : ℤ}

/-- The stored updates stay while the tick goes on. -/
theorem Pending.carry (pending : Pending p registered seen u signedTs w r)
    (latest : ∀ s, r'.view AssetRelay.latest s = r.view AssetRelay.latest s)
    (assetId : ∀ s, r'.view AssetRelay.assetId s = r.view AssetRelay.assetId s)
    (ahead : Ahead u.assetSymbol r'.phase) : Pending p registered seen u signedTs w r' where
  polled := pending.polled
  named := pending.named
  valid := pending.valid
  late := pending.late
  latest := (latest u.assetSymbol).trans pending.latest
  assetId := (assetId u.assetSymbol).trans pending.assetId
  calm := by
    intro s o ho
    rw [latest] at ho
    exact pending.calm ho
  ahead := ahead

theorem Pending.same (pending : Pending p registered seen u signedTs w r) (same : SameRecords r r')
    (ahead : Ahead u.assetSymbol r'.phase) : Pending p registered seen u signedTs w r' :=
  pending.carry same.latest same.assetId ahead

/-- What a stored update is to the code that finds its asset. -/
theorem Pending.calm_find (pending : Pending p registered seen u signedTs w r) {s : JsString}
    {asset : AssetRelay V} (found : r.find s = some asset) :
    ∃ x, asset.latest = some x ∧ Calm p x :=
  pending.calm (view_find AssetRelay.latest found)

theorem Pending.latest_find (pending : Pending p registered seen u signedTs w r)
    {asset : AssetRelay V} (found : r.find u.assetSymbol = some asset) : asset.latest = some w :=
  Option.some.inj ((view_find AssetRelay.latest found).symm.trans pending.latest)

theorem Pending.eq_latest (pending : Pending p registered seen u signedTs w r) {s : JsString}
    (hs : u.assetSymbol = s) {x : SignedPriceUpdate V}
    (found : r.view AssetRelay.latest s = some (some x)) : w = x := by
  subst hs
  exact Option.some.inj (Option.some.inj (pending.latest.symm.trans found))

theorem Calm.text_numSources {x : SignedPriceUpdate V} (h : Calm p x) :
    (p.text x.numSources).isSome := by
  have hprints := h.prints
  simp only [Relayer.prints, Bool.and_eq_true] at hprints
  exact hprints.1.2

theorem Pending.opening (pending : Pending p registered seen u signedTs w r) {s : JsString}
    {rest : List JsString} (phase : r.phase = .looping (s :: rest)) {asset : AssetRelay V}
    (found : r.find s = some asset) {now : ℤ}
    (free : asset.symbol = u.assetSymbol →
      asset.state ≠ .submitting ∧ MIN_RELAY_GAP ≤ now - asset.lastRelayedAt)
    (h : Opening p r asset now rest r') : Pending p registered seen u signedTs w r' := by
  have hs : asset.symbol = s := find_symbol found
  obtain ⟨x, hx, calm⟩ := pending.calm_find found
  have ahead := pending.ahead
  rw [phase] at ahead
  obtain hsymbol | hrest := List.mem_cons.mp ahead
  · -- the attempt is at the symbol itself
    rw [← hsymbol] at found hs
    obtain rfl : x = w := Option.some.inj (hx.symm.trans (pending.latest_find found))
    obtain ⟨hfree, hgap⟩ := free hs
    cases h with
    | skipped why =>
      obtain why | why | why := why
      · exact absurd why hfree
      · simp [hx] at why
      · omega
    | @threw y hy why =>
      obtain rfl : x = y := Option.some.inj (hx.symm.trans hy)
      obtain why | why := why
      · simp [pending.valid.sources] at why
      · have htext := calm.text_numSources
        simp [why] at htext
    | @tooFew y _ hy why =>
      obtain rfl : x = y := Option.some.inj (hx.symm.trans hy)
      simp [pending.valid.sources] at why
    | passed => exact pending.same (.of_assets rfl) (.inl hs.symm)
  · cases h with
    | skipped => exact pending.same (.of_assets rfl) hrest
    | @threw y hy why =>
      obtain rfl : x = y := Option.some.inj (hx.symm.trans hy)
      obtain why | why := why
      · have hless := calm.sources
        simp [why] at hless
      · have htext := calm.text_numSources
        simp [why] at htext
    | tooFew => exact pending.same (.giveUp r asset.symbol rest) hrest
    | passed => exact pending.same (.of_assets rfl) (.inr hrest)

theorem Pending.comparison (pending : Pending p registered seen u signedTs w r) {t : Attempt}
    (phase : r.phase = .reading t) {latest : Option (SignedPriceUpdate V)}
    (found : r.view AssetRelay.latest t.symbol = some latest) {onchainTs : ℕ}
    (newer : t.symbol = u.assetSymbol → (onchainTs : ℤ) < signedTs)
    (h : Comparison p r t latest onchainTs r') : Pending p registered seen u signedTs w r' := by
  obtain ⟨x, rfl, calm⟩ := pending.calm found
  have ahead := pending.ahead
  rw [phase] at ahead
  cases h with
  | threw why =>
    obtain ⟨z, hz⟩ := calm.timestamp
    have hnone := why x rfl
    rw [p.bigInt_integer hz] at hnone
    cases hnone
  | @stale y ts hy hts why =>
    obtain hsymbol | hrest := ahead
    · obtain rfl : w = y := pending.eq_latest hsymbol (found.trans (congrArg some hy))
      obtain ⟨z, hz, hle⟩ := pending.late
      obtain rfl : z = ts := Option.some.inj (hz.symm.trans hts)
      have hlt := newer hsymbol.symm
      omega
    · exact pending.same (.giveUp r t.symbol t.rest) hrest
  | @unsigned y ts hy why =>
    obtain hsymbol | hrest := ahead
    · obtain rfl : w = y := pending.eq_latest hsymbol (found.trans (congrArg some hy))
      obtain ⟨signer, hrec, -⟩ := pending.valid.signer
      simp [hrec] at why
    · exact pending.same (.of_assets rfl) (.inr hrest)
  | known =>
    obtain hsymbol | hrest := ahead
    · exact pending.same (.of_assets rfl) (.inl ⟨hsymbol, rfl⟩)
    · exact pending.same (.of_assets rfl) (.inr hrest)
  | unknown => exact pending.same (.of_assets rfl) ahead

theorem Pending.judge (pending : Pending p registered seen u signedTs w r)
    (held : Recorded p labels r) {t : Attempt} {ts : ℤ} {signer : JsString}
    (phase : r.phase = .lookingUp t ts signer) {answer : Option Bool}
    (lookup : ∃ b, answer = some b ∧ (b = true ↔ registered signer)) :
    Pending p registered seen u signedTs w (r.judge t ts signer answer) := by
  have ahead := pending.ahead
  have grounded := held.grounded
  rw [phase] at ahead grounded
  obtain ⟨x, hx, -, -, hrec⟩ := grounded
  obtain ⟨b, rfl, hb⟩ := lookup
  cases b with
  | true =>
    refine pending.same (.of_assets (addSigner_assets r signer)) ?_
    obtain hsymbol | hrest := ahead
    · exact .inl ⟨hsymbol, rfl⟩
    · exact .inr hrest
  | false =>
    obtain hsymbol | hrest := ahead
    · obtain rfl : w = x := pending.eq_latest hsymbol hx.latest
      obtain ⟨signer', hrec', hreg⟩ := pending.valid.signer
      obtain rfl : signer = signer' := Option.some.inj (hrec.symm.trans hrec')
      cases hb.mpr hreg
    · exact pending.same (.of_assets rfl) (.inr hrest)

theorem Pending.submission (pending : Pending p registered seen u signedTs w r)
    (held : Recorded p labels r) {t : Attempt} {ts : ℤ} (phase : r.phase = .judged t ts true)
    {asset : AssetRelay V} (found : r.find t.symbol = some asset)
    (h : Submission p r t asset.latest ts r') : Pending p registered seen u signedTs w r' := by
  have ahead := pending.ahead
  have grounded := held.grounded
  rw [phase] at ahead grounded
  obtain ⟨x, hx, hver⟩ := grounded rfl
  have hlatest := hx.latest_eq (view_find AssetRelay.latest found)
  obtain ⟨x', hx', calm⟩ := pending.calm_find found
  obtain rfl : x = x' := Option.some.inj (hlatest.symm.trans hx')
  obtain ⟨signer, hrec, -⟩ := hver.signer
  cases h with
  | threw why =>
    have hdata := calm.encodes hrec hver.timestamp
    have htext := p.text_of_bigInt hver.timestamp
    obtain hnone | hnone := why x hlatest
    · simp [hnone] at hdata
    · simp [hnone] at htext
  | ready =>
    refine pending.same (.setState r t.symbol .submitting) ?_
    obtain ⟨hsymbol, -⟩ | hrest := ahead
    · exact .inl hsymbol
    · exact .inr hrest

/-- The push of the symbol's own intent is the aim; that of another symbol goes on. -/
theorem Pending.enqueue (pending : Pending p registered seen u signedTs w r)
    (held : Recorded p labels r) {t : Attempt} {calldata label : JsString}
    (phase : r.phase = .addressing t calldata label) {asset : AssetRelay V}
    (found : r.find t.symbol = some asset) (h : Enqueued p t asset.latest label r r')
    (address : JsString) :
    Relayed p registered seen [.queued t.symbol t.now ⟨address, calldata, label, 0⟩] u.assetSymbol ∨
      Pending p registered seen u signedTs w r' := by
  have ahead := pending.ahead
  have grounded := held.grounded
  rw [phase] at ahead grounded
  obtain hsymbol | hrest := ahead
  · left
    obtain ⟨x, ts, -, hx, hver, hdata, -⟩ := grounded
    obtain rfl : w = x := pending.eq_latest hsymbol hx.latest
    obtain ⟨signer, hrec, hreg⟩ := pending.valid.signer
    rw [hsymbol]
    exact ⟨t.now, ⟨address, calldata, label, 0⟩, w, signer, ts, List.mem_cons_self, pending.polled,
      pending.named.trans hsymbol, hrec, hreg, hver.timestamp, hdata⟩
  · right
    obtain ⟨x, hx, calm⟩ := pending.calm_find found
    refine pending.carry h.sameLatest h.sameId ?_
    rw [h.phase, hx, Option.any_some, calm.prints, if_pos rfl]
    exact hrest

theorem Relayed.mono {tick' : List (Event V)} {symbol : JsString}
    (h : Relayed p registered seen tick symbol) (grown : tick ⊆ tick') :
    Relayed p registered seen tick' symbol := by
  obtain ⟨now, intent, w, signer, ts, hmem, hw⟩ := h
  exact ⟨now, intent, w, signer, ts, grown hmem, hw⟩

/-- Until the symbol is relayed it stays pending. -/
theorem pending_step (pending : Pending p registered seen u signedTs w r)
    (held : Recorded p labels r) (due : Due p registered replies tick u signedTs)
    (within : e ∈ tick) (going : e ≠ .tickEnded) (now : Step p r e r') :
    Relayed p registered seen [e] u.assetSymbol ∨ Pending p registered seen u signedTs w r' := by
  have ahead := pending.ahead
  cases now with
  | tickStarted phase | queried phase | subscribed phase | polled phase =>
    rw [phase] at ahead
    exact ahead.elim
  | attempted phase found =>
    exact .inr (pending.opening phase found (due.free within) (openAttempt_opening p r _ _ _))
  | @chainRead t asset answer phase found =>
    right
    obtain ⟨c, rfl⟩ := due.reads within
    have same := SameRecords.observe r t.symbol c
    have found' : (r.observe t.symbol c).view AssetRelay.latest t.symbol = some asset.latest :=
      (same.latest t.symbol).trans (view_find AssetRelay.latest found)
    refine (pending.same same ahead).comparison phase found' ?_
      (compareTimestamps_comparison p _ t asset.latest c)
    intro hsymbol
    have hid := view_find AssetRelay.assetId found
    rw [hsymbol, pending.assetId] at hid
    apply due.newer
    rw [hsymbol, ← Option.some.inj hid] at within
    exact within
  | lookedUp phase => exact .inr (pending.judge held phase (due.lookups within))
  | @verified t ts valid asset phase found =>
    right
    cases valid with
    | true => exact pending.submission held phase found (submit_submission p r t asset.latest ts)
    | false =>
      rw [phase] at ahead
      obtain ⟨-, hfalse⟩ | hrest := ahead
      · cases hfalse
      · exact pending.same (.giveUp r t.symbol t.rest) hrest
  | queued phase found =>
    exact pending.enqueue held phase found (enqueue_enqueued p r _ _ _ _ _) _
  | tickEnded => exact absurd rfl going
  | @queue ev q done react =>
    obtain ⟨same, -, hphase⟩ := settle_kept r q done
    exact .inr (pending.same same (by rw [hphase]; exact ahead))
  | enclaveRegistered =>
    exact .inr (pending.same (.of_assets (addSigner_assets r _))
      (by rw [addSigner_phase]; exact ahead))

variable (due : Due p registered replies tick u signedTs)
  (calm : ∀ {w}, Polled (.polled replies :: older) w → Calm p w)
  (latest : ∀ {w z}, Polled (.polled replies :: older) w → w.assetSymbol = u.assetSymbol →
    p.integer w.timestamp = some z → signedTs ≤ z → Valid p registered w ∧ w.assetId = u.assetId)
include due calm latest

/-- After the poll, the latest update of the symbol is valid. -/
theorem pending_polled (before : RelayRun p older r) (now : Step p r (.polled replies) r') :
    ∃ w, Pending p registered (.polled replies :: older) u signedTs w r' := by
  have held := recorded_run before
  have held' := recorded_run (before.step now)
  have grown := List.subset_cons_self (.polled replies) older
  have returned : ∀ w ∈ fetchPrices replies, Polled (.polled replies :: older) w :=
    fun w hw => ⟨replies, List.mem_cons_self, hw⟩
  have dated : Dated p r := by
    intro s o ho
    obtain ⟨w, hw, hpolled, -⟩ := held.stored ho
    obtain ⟨b, hb⟩ := (calm (hpolled.mono grown)).timestamp
    exact ⟨w, b, hw, hb⟩
  obtain ⟨a, ha⟩ := (calm (returned u due.returned)).timestamp
  obtain rfl : a = signedTs :=
    Option.some.inj ((p.bigInt_integer ha).symm.trans due.timestamp)
  cases now with
  | polled phase =>
    obtain ⟨hphase, -, hcovers⟩ := upsertAll_covers (fetchPrices replies)
      (fun w hw => (calm (returned w hw)).timestamp) dated
    obtain ⟨w, b, hw, hb, hle⟩ := hcovers u due.returned ha
    obtain ⟨w', hw', hpolled, hsymbol, hid⟩ := held'.stored hw
    obtain rfl : w = w' := Option.some.inj hw'
    obtain ⟨hvalid, hsameId⟩ := latest hpolled hsymbol hb hle
    refine ⟨w, hpolled, hsymbol, hvalid, ⟨b, p.bigInt_integer hb, hle⟩, hw, hsameId ▸ hid, ?_, ?_⟩
    · intro s o ho
      obtain ⟨x, hx, hpolledx, -⟩ := held'.stored ho
      exact ⟨x, hx, calm hpolledx⟩
    · rw [hphase]
      obtain ⟨asset, hfound, -⟩ := Option.map_eq_some_iff.mp hw
      rw [← find_symbol hfound]
      exact List.mem_map_of_mem (List.mem_of_find?_eq_some hfound)

theorem pending_run (part : List (Event V)) (within : part ⊆ tick)
    (going : ∀ e ∈ part, e ≠ .tickEnded) {r : Relayer V}
    (run : RelayRun p (part ++ .polled replies :: older) r) :
    Relayed p registered (.polled replies :: older) part u.assetSymbol ∨
      ∃ w, Pending p registered (.polled replies :: older) u signedTs w r := by
  induction part generalizing r with
  | nil =>
    cases run with
    | step before now => exact .inr (pending_polled due calm latest before now)
  | cons e part ih =>
    have grown := List.subset_cons_self e part
    cases run with
    | step before now =>
      obtain hrelayed | ⟨w, pending⟩ :=
        ih (fun x hx => within (grown hx)) (fun x hx => going x (grown hx)) before
      · exact .inl (hrelayed.mono grown)
      · obtain hrelayed | pending' := pending_step pending (recorded_run before) due
          (within List.mem_cons_self) (going e List.mem_cons_self) now
        · refine .inl (hrelayed.mono ?_)
          intro x hx
          rw [List.mem_singleton.mp hx]
          exact List.mem_cons_self
        · exact .inr ⟨w, pending'⟩

end Ticks

/-- Where no update makes the code throw, and every update of the symbol that is as late as a valid
one is itself a valid update of the same asset, a tick that may relay the symbol queues a validly
signed update for it. -/
theorem valid_update_relayed (p : Platform V) (registered : JsString → Prop)
    {replies : List (EndpointReply V)} {older tick : List (Event V)} {r : Relayer V}
    {u : SignedPriceUpdate V} {signedTs : ℤ}
    (run : RelayRun p (.tickEnded :: (tick ++ .polled replies :: older)) r)
    (going : ∀ e ∈ tick, e ≠ .tickEnded) (due : Due p registered replies tick u signedTs)
    (calm : ∀ {w}, Polled (.polled replies :: older) w → Calm p w)
    (latest : ∀ {w z}, Polled (.polled replies :: older) w → w.assetSymbol = u.assetSymbol →
      p.integer w.timestamp = some z → signedTs ≤ z →
      Valid p registered w ∧ w.assetId = u.assetId) :
    Relayed p registered (.polled replies :: older) tick u.assetSymbol := by
  cases run with
  | step before now =>
    obtain hrelayed | ⟨w, pending⟩ :=
      pending_run due calm latest tick (List.Subset.refl tick) going before
    · exact hrelayed
    · have ahead := pending.ahead
      cases now with
      | tickEnded phase =>
        obtain phase | phase := phase
        · rw [phase] at ahead
          cases ahead
        · rw [phase] at ahead
          exact ahead.elim

/-! ### Two ticks -/

def forgerName : JsString := units "0xb"

def bootEvents : List (Event Value) := [.subscribed, .queried (some []), .tickStarted]

/-- One endpoint returns a forged update of the given time, another a valid one of time 1000. -/
def twoReplies (forgedAt : ℤ) : List (EndpointReply Value) :=
  [.answered false (some [priced kas forgedAt forgerName]),
    .answered false (some [priced kas 1000 signerName])]

/-- An attempt at an update, up to the verdict on its signer. -/
def verdictEvents (u : SignedPriceUpdate Value) (signer : JsString) (registered : Bool) :
    List (Event Value) :=
  [.verified kas, .lookedUp signer (some registered), .chainRead kas (.num 0) (some 0),
    .attempted (firstRelay u) 100]

def relayedTick : List (Event Value) :=
  .queued kas 100 (intentFor (priced kas 1000 signerName)) ::
    verdictEvents (priced kas 1000 signerName) signerName true

theorem due_verdictEvents (forgedAt : ℤ) (u : SignedPriceUpdate Value) {signer : JsString}
    {registered : Bool} (honest : registered = true ↔ signer = signerName) :
    Due valuePlatform (· = signerName) (twoReplies forgedAt) (verdictEvents u signer registered)
      (priced kas 1000 signerName) 1000 where
  returned := List.mem_cons_of_mem _ List.mem_cons_self
  valid := ⟨rfl, signerName, rfl, rfl⟩
  timestamp := rfl
  free := by
    intro asset now hmem _
    simp only [verdictEvents, List.mem_cons, reduceCtorEq, false_or, Event.attempted.injEq,
      List.not_mem_nil, or_false] at hmem
    obtain ⟨rfl, rfl⟩ := hmem
    exact ⟨by simp [firstRelay], by simp [firstRelay, MIN_RELAY_GAP]⟩
  reads := by
    intro s assetId answer hmem
    simp only [verdictEvents, List.mem_cons, reduceCtorEq, false_or, Event.chainRead.injEq,
      List.not_mem_nil, or_false] at hmem
    exact ⟨0, hmem.2.2⟩
  newer := by
    intro c hmem
    simp only [verdictEvents, List.mem_cons, reduceCtorEq, false_or, Event.chainRead.injEq,
      List.not_mem_nil, or_false, Option.some.injEq] at hmem
    rw [hmem.2.2]
    decide
  lookups := by
    intro signer' answer hmem
    simp only [verdictEvents, List.mem_cons, reduceCtorEq, false_or, Event.lookedUp.injEq,
      List.not_mem_nil, or_false] at hmem
    obtain ⟨rfl, rfl⟩ := hmem
    exact ⟨registered, rfl, honest⟩

theorem Due.cons_queued {replies : List (EndpointReply V)} {tick : List (Event V)}
    {u : SignedPriceUpdate V} {signedTs : ℤ} (due : Due p registered replies tick u signedTs)
    (symbol : JsString) (now : ℤ) (intent : TxIntent) :
    Due p registered replies (.queued symbol now intent :: tick) u signedTs where
  returned := due.returned
  valid := due.valid
  timestamp := due.timestamp
  free hmem := due.free (by simpa using hmem)
  reads hmem := due.reads (by simpa using hmem)
  newer hmem := due.newer (by simpa using hmem)
  lookups hmem := due.lookups (by simpa using hmem)

theorem valid_update_relayed_twoReplies : ∃ r,
    RelayRun valuePlatform
      (.tickEnded :: (relayedTick ++ .polled (twoReplies 500) :: bootEvents)) r ∧
    Relayed valuePlatform (· = signerName)
      (.polled (twoReplies 500) :: bootEvents) relayedTick kas := by
  obtain ⟨r, run, -⟩ := run_of_respondAll valuePlatform
    (.tickEnded :: (relayedTick ++ .polled (twoReplies 500) :: bootEvents)) (fun _ => True)
    (by decide +kernel)
  have polled : ∀ {w}, Polled (.polled (twoReplies 500) :: bootEvents) w →
      w = priced kas 500 forgerName ∨ w = priced kas 1000 signerName := by
    rintro w ⟨replies, hmem, hw⟩
    simp only [bootEvents, List.mem_cons, reduceCtorEq, Event.polled.injEq, List.not_mem_nil,
      or_false] at hmem
    subst hmem
    simpa [fetchPrices, twoReplies, fetchFrom] using hw
  refine ⟨r, run, valid_update_relayed valuePlatform (· = signerName) run ?_
    ((due_verdictEvents 500 _ (by simp)).cons_queued kas 100 _) ?_ ?_⟩
  · intro e he heq
    subst heq
    simp [relayedTick, verdictEvents] at he
  · intro w hw
    obtain rfl | rfl := polled hw
    · exact ⟨⟨500, rfl⟩, rfl, fun _ _ => rfl, rfl⟩
    · exact ⟨⟨1000, rfl⟩, rfl, fun _ _ => rfl, rfl⟩
  · intro w z hw _ hz hle
    obtain rfl | rfl := polled hw
    · cases hz
      omega
    · exact ⟨⟨rfl, signerName, rfl, rfl⟩, rfl⟩

/-- A forged update of time 2000 hides the valid one of time 1000: it is stored as the latest, its
signer is refused, and the tick queues nothing. -/
theorem forged_update_blocks : ∃ older tick replies r u signedTs,
    RelayRun valuePlatform (.tickEnded :: (tick ++ .polled replies :: older)) r ∧
    (∀ e ∈ tick, e ≠ .tickEnded) ∧ Due valuePlatform (· = signerName) replies tick u signedTs ∧
    ∀ now intent, .queued u.assetSymbol now intent ∉ tick := by
  obtain ⟨r, run, -⟩ := run_of_respondAll valuePlatform
    (.tickEnded :: (verdictEvents (priced kas 2000 forgerName) forgerName false ++
      .polled (twoReplies 2000) :: bootEvents)) (fun _ => True) (by decide +kernel)
  refine ⟨_, _, _, r, _, _, run, ?_, due_verdictEvents 2000 _ (by decide), ?_⟩
  · intro e he heq
    subst heq
    simp [verdictEvents] at he
  · intro now intent hmem
    simp [verdictEvents] at hmem

end Nuntius.Relaying
