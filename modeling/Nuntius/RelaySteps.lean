import Nuntius.Relayer

/-!
# What the code of the relayer does between two waits

For each piece of code, everything it can do to the state: which fields of which assets it
changes, where it goes on, and why. The invariants of the runs are read off from these.
-/

namespace Nuntius.Relaying
open TxQueue

variable {V : Type}

/-! ### Fields of assets -/

section Views
variable {β : Type} {r : Relayer V}

/-- A field of the asset of a symbol. -/
def Relayer.view (r : Relayer V) (g : AssetRelay V → β) (symbol : JsString) : Option β :=
  (r.find symbol).map g

theorem find_symbol {symbol : JsString} {a : AssetRelay V} (h : r.find symbol = some a) :
    a.symbol = symbol := by
  have ha := List.find?_some h
  simpa using ha

theorem view_find (g : AssetRelay V → β) {symbol : JsString} {a : AssetRelay V}
    (h : r.find symbol = some a) : r.view g symbol = some (g a) := by
  rw [Relayer.view, h, Option.map_some]

theorem find_modify (r : Relayer V) {f : AssetRelay V → AssetRelay V}
    (hf : ∀ a, (f a).symbol = a.symbol) (s s' : JsString) :
    (r.modify s f).find s' = (r.find s').map fun a => if s' = s then f a else a := by
  unfold Relayer.modify Relayer.find
  rw [List.find?_map]
  have hkey :
      ((fun a : AssetRelay V => a.symbol == s') ∘ fun a => if a.symbol == s then f a else a) =
      fun a => a.symbol == s' := by
    funext a
    by_cases ha : a.symbol = s
    · simp [ha, hf]
    · simp [ha]
  rw [hkey]
  apply Option.map_congr
  intro a ha
  have hs : a.symbol = s' := find_symbol (r := r) ha
  simp [hs]

theorem view_modify (r : Relayer V) {f : AssetRelay V → AssetRelay V}
    (hf : ∀ a, (f a).symbol = a.symbol) (g : AssetRelay V → β) (s s' : JsString) :
    (r.modify s f).view g s' =
      if s' = s then (r.find s).map (fun a => g (f a)) else r.view g s' := by
  unfold Relayer.view
  rw [find_modify r hf, Option.map_map]
  by_cases h : s' = s
  · subst h
    simp [Function.comp_def]
  · simp [h, Function.comp_def]

/-- A field that a change does not touch. -/
theorem view_modify_same (r : Relayer V) {f : AssetRelay V → AssetRelay V}
    (hf : ∀ a, (f a).symbol = a.symbol) {g : AssetRelay V → β} (hg : ∀ a, g (f a) = g a)
    (s s' : JsString) : (r.modify s f).view g s' = r.view g s' := by
  rw [view_modify r hf]
  simp only [hg]
  by_cases h : s' = s
  · rw [if_pos h, h]
    rfl
  · rw [if_neg h]

theorem view_setState {g : AssetRelay V → β} (hg : ∀ a st, g { a with state := st } = g a)
    (r : Relayer V) (s : JsString) (st : AssetState) (s' : JsString) :
    (r.setState s st).view g s' = r.view g s' := by
  unfold Relayer.setState
  apply view_modify_same
  · intro a
    rfl
  · intro a
    exact hg a st

theorem view_setState_state (r : Relayer V) (s : JsString) (st : AssetState) (s' : JsString) :
    (r.setState s st).view AssetRelay.state s' =
      if s' = s then (r.find s).map (fun _ => st) else r.view AssetRelay.state s' := by
  unfold Relayer.setState
  rw [view_modify]
  intro a
  rfl

theorem view_observe {g : AssetRelay V → β} (hg : ∀ a n, g { a with onchainTimestamp := n } = g a)
    (r : Relayer V) (s : JsString) (n : ℕ) (s' : JsString) :
    (r.observe s n).view g s' = r.view g s' := by
  unfold Relayer.observe
  apply view_modify_same
  · intro a
    rfl
  · intro a
    exact hg a n

theorem view_of_assets {r r' : Relayer V} (h : r'.assets = r.assets) (g : AssetRelay V → β)
    (s : JsString) : r'.view g s = r.view g s := by
  unfold Relayer.view Relayer.find
  rw [h]

@[simp] theorem addSigner_assets (r : Relayer V) (signer : JsString) :
    (r.addSigner signer).assets = r.assets := by
  unfold Relayer.addSigner
  split <;> rfl

@[simp] theorem addSigner_txQueue (r : Relayer V) (signer : JsString) :
    (r.addSigner signer).txQueue = r.txQueue := by
  unfold Relayer.addSigner
  split <;> rfl

@[simp] theorem addSigner_phase (r : Relayer V) (signer : JsString) :
    (r.addSigner signer).phase = r.phase := by
  unfold Relayer.addSigner
  split <;> rfl

theorem mem_addSigner {signer x : JsString} (h : x ∈ (r.addSigner signer).validSigners) :
    x ∈ r.validSigners ∨ x = signer := by
  unfold Relayer.addSigner at h
  split at h
  · exact .inl h
  · simpa using h

end Views

/-! ### The records of the assets -/

/-- What an attempt reads of an asset besides its state. -/
def AssetRelay.record (a : AssetRelay V) : V × Option (SignedPriceUpdate V) × ℤ :=
  (a.assetId, a.latest, a.lastRelayedAt)

section Records
variable {r r' : Relayer V}

def SameRecords (r r' : Relayer V) : Prop :=
  ∀ s, r'.view AssetRelay.record s = r.view AssetRelay.record s

theorem SameRecords.view {β : Type} (h : SameRecords r r')
    (g : V × Option (SignedPriceUpdate V) × ℤ → β) (s : JsString) :
    r'.view (fun a => g a.record) s = r.view (fun a => g a.record) s := by
  have hs := congrArg (Option.map g) (h s)
  unfold Relayer.view at hs ⊢
  rw [Option.map_map, Option.map_map] at hs
  exact hs

theorem SameRecords.assetId (h : SameRecords r r') (s : JsString) :
    r'.view AssetRelay.assetId s = r.view AssetRelay.assetId s :=
  h.view (fun x => x.1) s

theorem SameRecords.latest (h : SameRecords r r') (s : JsString) :
    r'.view AssetRelay.latest s = r.view AssetRelay.latest s :=
  h.view (fun x => x.2.1) s

theorem SameRecords.lastRelayedAt (h : SameRecords r r') (s : JsString) :
    r'.view AssetRelay.lastRelayedAt s = r.view AssetRelay.lastRelayedAt s :=
  h.view (fun x => x.2.2) s

theorem SameRecords.of_assets (h : r'.assets = r.assets) : SameRecords r r' :=
  view_of_assets h AssetRelay.record

theorem SameRecords.setState (r : Relayer V) (s : JsString) (st : AssetState) :
    SameRecords r (r.setState s st) :=
  view_setState (fun _ _ => rfl) r s st

theorem SameRecords.giveUp (r : Relayer V) (s : JsString) (rest : List JsString) :
    SameRecords r (r.giveUp s rest) :=
  view_setState (fun _ _ => rfl) r s .idle

theorem SameRecords.observe (r : Relayer V) (s : JsString) (n : ℕ) :
    SameRecords r (r.observe s n) :=
  view_observe (fun _ _ => rfl) r s n

end Records

/-! ### Marked assets -/

def Relayer.Submitting (r : Relayer V) (symbol : JsString) : Prop :=
  r.view AssetRelay.state symbol = some .submitting

instance (r : Relayer V) (symbol : JsString) : Decidable (r.Submitting symbol) :=
  inferInstanceAs (Decidable (_ = _))

section Marks
variable {r r' : Relayer V}

theorem submitting_find {s : JsString} {a : AssetRelay V} (h : r.find s = some a) :
    r.Submitting s ↔ a.state = .submitting := by
  unfold Relayer.Submitting
  rw [view_find _ h, Option.some.injEq]

theorem submitting_of_assets (h : r'.assets = r.assets) (s : JsString) :
    r'.Submitting s ↔ r.Submitting s := by
  unfold Relayer.Submitting
  rw [view_of_assets h]

theorem submitting_observe (s : JsString) (n : ℕ) (s' : JsString) :
    (r.observe s n).Submitting s' ↔ r.Submitting s' := by
  unfold Relayer.Submitting
  rw [view_observe (fun _ _ => rfl)]

theorem submitting_setState_idle (s s' : JsString) :
    (r.setState s .idle).Submitting s' ↔ s' ≠ s ∧ r.Submitting s' := by
  unfold Relayer.Submitting
  rw [view_setState_state]
  by_cases h : s' = s
  · simp [h]
  · simp [h]

theorem submitting_setState {s s' : JsString} {a : AssetRelay V} (found : r.find s = some a) :
    (r.setState s .submitting).Submitting s' ↔ s' = s ∨ r.Submitting s' := by
  unfold Relayer.Submitting
  rw [view_setState_state]
  by_cases h : s' = s
  · simp [h, found]
  · simp [h]

end Marks

/-! ### The signers -/

section Signers
variable (p : Platform V)

theorem replay_kept (past : List (Option JsString)) (r : Relayer V) :
    (r.replay p past).1.assets = r.assets ∧ (r.replay p past).1.txQueue = r.txQueue ∧
      ∀ signer ∈ (r.replay p past).1.validSigners, signer ∈ r.validSigners ∨
        ∃ who, some who ∈ past ∧ p.toLowerCase who = signer := by
  induction past generalizing r with
  | nil => exact ⟨rfl, rfl, fun signer h => .inl h⟩
  | cons log past ih =>
    cases log with
    | none => exact ⟨rfl, rfl, fun signer h => .inl h⟩
    | some who =>
      obtain ⟨hassets, hqueue, hsigners⟩ := ih (r.addSigner (p.toLowerCase who))
      refine ⟨hassets.trans (addSigner_assets r _), hqueue.trans (addSigner_txQueue r _), ?_⟩
      intro signer h
      obtain h | ⟨who', hmem, hwho⟩ := hsigners signer h
      · obtain h | rfl := mem_addSigner h
        · exact .inl h
        · exact .inr ⟨who, List.mem_cons_self, rfl⟩
      · exact .inr ⟨who', List.mem_cons_of_mem _ hmem, hwho⟩

/-- What the query for past events changes. -/
structure Bootstrapped (past : Option (List (Option JsString))) (r r' : Relayer V) : Prop where
  assets : r'.assets = r.assets
  txQueue : r'.txQueue = r.txQueue
  validSigners : ∀ signer ∈ r'.validSigners, signer ∈ r.validSigners ∨
    ∃ logs who, past = some logs ∧ some who ∈ logs ∧ p.toLowerCase who = signer
  phase : r'.phase = .subscribing ∨ r'.phase = .polling

theorem bootstrap_bootstrapped (r : Relayer V) (past : Option (List (Option JsString))) :
    Bootstrapped p past r (r.bootstrap p past) := by
  cases past with
  | none => exact ⟨rfl, rfl, fun _ h => .inl h, .inr rfl⟩
  | some logs =>
    obtain ⟨hassets, hqueue, hsigners⟩ := replay_kept p logs r
    have hlogs : ∀ signer ∈ (r.replay p logs).1.validSigners, signer ∈ r.validSigners ∨
        ∃ logs' who, some logs = some logs' ∧ some who ∈ logs' ∧ p.toLowerCase who = signer := by
      intro signer hs
      obtain hs | ⟨who, hmem, hwho⟩ := hsigners signer hs
      · exact .inl hs
      · exact .inr ⟨logs, who, rfl, hmem, hwho⟩
    cases hreplay : r.replay p logs with
    | mk r₁ complete =>
      rw [hreplay] at hassets hqueue hlogs
      simp only [Relayer.bootstrap, hreplay]
      cases complete with
      | true => exact ⟨hassets, hqueue, hlogs, .inl rfl⟩
      | false => exact ⟨hassets, hqueue, hlogs, .inr rfl⟩

end Signers

/-! ### Storing an update -/

/-- What storing one update does to the assets. -/
structure Upserted (u : SignedPriceUpdate V) (r r' : Relayer V) : Prop where
  update : ∀ s,
    r'.view AssetRelay.latest s = r.view AssetRelay.latest s ∧
        r'.view AssetRelay.assetId s = r.view AssetRelay.assetId s ∨
      s = u.assetSymbol ∧ r'.view AssetRelay.latest s = some (some u) ∧
        r'.view AssetRelay.assetId s = some u.assetId
  lastRelayedAt : ∀ {s last}, r.view AssetRelay.lastRelayedAt s = some last →
    r'.view AssetRelay.lastRelayedAt s = some last
  submitting : ∀ s, r'.Submitting s ↔ r.Submitting s
  txQueue : r'.txQueue = r.txQueue
  validSigners : r'.validSigners = r.validSigners
  phase : r'.phase = r.phase

theorem upserted_replace {r : Relayer V} {u : SignedPriceUpdate V} {existing : AssetRelay V}
    (h : r.find u.assetSymbol = some existing) :
    Upserted u r (r.modify u.assetSymbol fun a =>
      { a with
        latest := some u
        assetId := u.assetId
        state := if a.state = .idle then .fresh else a.state }) where
  update := by
    intro s
    rw [view_modify _ (by intro a; rfl), view_modify _ (by intro a; rfl), h]
    by_cases hs : s = u.assetSymbol
    · simp [hs]
    · simp [hs]
  lastRelayedAt := by
    intro s last h
    rw [view_modify_same _ (by intro a; rfl) (by intro a; rfl)]
    exact h
  submitting := by
    intro s
    unfold Relayer.Submitting
    rw [view_modify _ (by intro a; rfl)]
    split
    case isTrue hs =>
      subst hs
      unfold Relayer.view
      rw [h]
      cases hstate : existing.state <;> simp [hstate]
    case isFalse => exact Iff.rfl
  txQueue := rfl
  validSigners := rfl
  phase := rfl

theorem find_append (r : Relayer V) (a : AssetRelay V) (s : JsString) :
    ({ r with assets := r.assets ++ [a] } : Relayer V).find s =
      (r.find s).or (if a.symbol = s then some a else none) := by
  unfold Relayer.find
  rw [List.find?_append]
  by_cases h : a.symbol = s
  · simp [h]
  · simp [h]

/-- A new asset is found under its symbol, and nothing else changes. -/
theorem find_insert {r : Relayer V} {a : AssetRelay V} (h : r.find a.symbol = none)
    (s : JsString) :
    ({ r with assets := r.assets ++ [a] } : Relayer V).find s =
      if a.symbol = s then some a else r.find s := by
  rw [find_append]
  split_ifs with hs
  · rw [← hs, h, Option.none_or]
  · exact Option.or_none

theorem upserted_insert {r : Relayer V} {u : SignedPriceUpdate V}
    (h : r.find u.assetSymbol = none) :
    Upserted u r
      { r with assets := r.assets ++ [⟨u.assetSymbol, u.assetId, .fresh, some u, 0, 0⟩] } where
  update := by
    intro s
    unfold Relayer.view
    rw [find_insert h]
    by_cases hs : u.assetSymbol = s
    · simp [hs]
    · simp [hs]
  lastRelayedAt := by
    intro s last hlast
    unfold Relayer.view at hlast ⊢
    obtain ⟨a, ha, hal⟩ := Option.map_eq_some_iff.mp hlast
    rw [find_append, ha, Option.some_or, Option.map_some, hal]
  submitting := by
    intro s
    unfold Relayer.Submitting Relayer.view
    rw [find_insert h]
    by_cases hs : u.assetSymbol = s
    · subst hs
      simp [h]
    · simp [hs]
  txQueue := rfl
  validSigners := rfl
  phase := rfl

theorem Upserted.refl (u : SignedPriceUpdate V) (r : Relayer V) : Upserted u r r where
  update _ := .inl ⟨rfl, rfl⟩
  lastRelayedAt := id
  submitting _ := Iff.rfl
  txQueue := rfl
  validSigners := rfl
  phase := rfl

theorem upsertPrice_upserted {p : Platform V} {r r' : Relayer V} {u : SignedPriceUpdate V}
    (h : r.upsertPrice p u = some r') :
    Upserted u r r' := by
  unfold Relayer.upsertPrice at h
  split at h
  case h_1 existing hfind =>
    obtain ⟨newer, -, h⟩ := Option.bind_eq_some_iff.mp h
    split at h
    · cases h
      exact upserted_replace hfind
    · cases h
      exact .refl u r
  case h_2 hfind =>
    cases h
    exact upserted_insert hfind

/-! ### An attempt -/

section Attempts
variable (p : Platform V) (r : Relayer V)

/-- How the first part of an attempt ends. -/
inductive Opening (asset : AssetRelay V) (now : ℤ) (rest : List JsString) : Relayer V → Prop where
  | skipped (why : asset.state = .submitting ∨ asset.latest = none ∨
      now - asset.lastRelayedAt < MIN_RELAY_GAP) : Opening asset now rest (r.proceed rest)
  | threw {u : SignedPriceUpdate V} (latest : asset.latest = some u)
      (why : p.less u.numSources (p.literal MIN_SOURCES) = none ∨ p.text u.numSources = none) :
      Opening asset now rest r.abort
  | tooFew {u : SignedPriceUpdate V} (free : asset.state ≠ .submitting)
      (latest : asset.latest = some u)
      (why : p.less u.numSources (p.literal MIN_SOURCES) = some true) :
      Opening asset now rest (r.giveUp asset.symbol rest)
  | passed {u : SignedPriceUpdate V} (free : asset.state ≠ .submitting)
      (latest : asset.latest = some u) (gap : MIN_RELAY_GAP ≤ now - asset.lastRelayedAt)
      (quorum : p.less u.numSources (p.literal MIN_SOURCES) = some false) :
      Opening asset now rest { r with phase := .reading ⟨asset.symbol, now, rest⟩ }

theorem openAttempt_opening (asset : AssetRelay V) (now : ℤ) (rest : List JsString) :
    Opening p r asset now rest (r.openAttempt p asset now rest) := by
  unfold Relayer.openAttempt
  split
  case isTrue hstate => exact .skipped (.inl hstate)
  case isFalse free =>
    split
    case h_1 hlatest => exact .skipped (.inr (.inl hlatest))
    case h_2 u hlatest =>
      split
      case isTrue hgap => exact .skipped (.inr (.inr hgap))
      case isFalse hgap =>
        split
        case h_1 hless => exact .threw hlatest (.inl hless)
        case h_2 hless =>
          cases htext : p.text u.numSources with
          | none => exact .threw hlatest (.inr htext)
          | some text => exact .tooFew free hlatest hless
        case h_3 hless => exact .passed free hlatest (Int.not_lt.mp hgap) hless

/-- How the comparison with the on-chain timestamp and the check of the signature go on. -/
inductive Comparison (t : Attempt) (latest : Option (SignedPriceUpdate V)) (onchainTs : ℕ) :
    Relayer V → Prop where
  | threw (why : ∀ u, latest = some u → p.bigInt u.timestamp = none) :
      Comparison t latest onchainTs r.abort
  | stale {u : SignedPriceUpdate V} {signedTs : ℤ} (found : latest = some u)
      (timestamp : p.bigInt u.timestamp = some signedTs) (why : signedTs ≤ onchainTs) :
      Comparison t latest onchainTs (r.giveUp t.symbol t.rest)
  | unsigned {u : SignedPriceUpdate V} {signedTs : ℤ} (found : latest = some u)
      (why : recoverSigner p u = none) :
      Comparison t latest onchainTs { r with phase := .judged t signedTs false }
  | known {u : SignedPriceUpdate V} {signedTs : ℤ} {signer : JsString} (found : latest = some u)
      (timestamp : p.bigInt u.timestamp = some signedTs) (newer : onchainTs < signedTs)
      (recovers : recoverSigner p u = some signer) (cached : signer ∈ r.validSigners) :
      Comparison t latest onchainTs { r with phase := .judged t signedTs true }
  | unknown {u : SignedPriceUpdate V} {signedTs : ℤ} {signer : JsString} (found : latest = some u)
      (timestamp : p.bigInt u.timestamp = some signedTs) (newer : onchainTs < signedTs)
      (recovers : recoverSigner p u = some signer) :
      Comparison t latest onchainTs { r with phase := .lookingUp t signedTs signer }

theorem compareTimestamps_comparison (t : Attempt) (latest : Option (SignedPriceUpdate V))
    (onchainTs : ℕ) :
    Comparison p r t latest onchainTs (r.compareTimestamps p t latest onchainTs) := by
  unfold Relayer.compareTimestamps
  split
  case h_1 => exact .threw (by simp)
  case h_2 u =>
    split
    case h_1 hts =>
      apply Comparison.threw
      intro u' hu'
      rw [← Option.some.inj hu']
      exact hts
    case h_2 signedTs hts =>
      split
      case isTrue hle => exact .stale rfl hts hle
      case isFalse hlt =>
        unfold Relayer.verifySignature
        split
        case h_1 hrec => exact .unsigned rfl hrec
        case h_2 signer hrec =>
          split
          case isTrue hmem => exact .known rfl hts (Int.not_le.mp hlt) hrec (by simpa using hmem)
          case isFalse => exact .unknown rfl hts (Int.not_le.mp hlt) hrec

/-- How the submission of a verified update goes on. -/
inductive Submission (t : Attempt) (latest : Option (SignedPriceUpdate V)) (signedTs : ℤ) :
    Relayer V → Prop where
  | threw (why : ∀ u, latest = some u →
        updateCalldata p u signedTs = none ∨ p.text u.timestamp = none) :
      Submission t latest signedTs (r.setState t.symbol .submitting).abort
  | ready {u : SignedPriceUpdate V} {calldata ts : JsString} (found : latest = some u)
      (encodes : updateCalldata p u signedTs = some calldata) :
      Submission t latest signedTs
        { r.setState t.symbol .submitting with
          phase := .addressing t calldata (labelOf t.symbol ts) }

theorem submit_submission (t : Attempt) (latest : Option (SignedPriceUpdate V)) (signedTs : ℤ) :
    Submission p r t latest signedTs (r.submit p t latest signedTs true) := by
  cases latest with
  | none => exact .threw (by simp)
  | some u =>
    cases hdata : updateCalldata p u signedTs with
    | none =>
      simp only [Relayer.submit, if_true, hdata]
      apply Submission.threw
      intro u' hu'
      rw [← Option.some.inj hu']
      exact .inl hdata
    | some calldata =>
      cases htext : p.text u.timestamp with
      | none =>
        simp only [Relayer.submit, if_true, hdata, htext]
        apply Submission.threw
        intro u' hu'
        rw [← Option.some.inj hu']
        exact .inr htext
      | some ts =>
        simp only [Relayer.submit, if_true, hdata, htext]
        exact .ready rfl hdata

end Attempts

/-- What pushing an intent and remembering the time changes. -/
structure Enqueued (p : Platform V) (t : Attempt) (latest : Option (SignedPriceUpdate V))
    (label : JsString) (r r' : Relayer V) : Prop where
  sameLatest : ∀ s, r'.view AssetRelay.latest s = r.view AssetRelay.latest s
  sameId : ∀ s, r'.view AssetRelay.assetId s = r.view AssetRelay.assetId s
  submitting : ∀ s, r'.Submitting s ↔ r.Submitting s
  relayedNow : ∀ {last}, r.view AssetRelay.lastRelayedAt t.symbol = some last →
    r'.view AssetRelay.lastRelayedAt t.symbol = some t.now
  relayedBefore : ∀ {s}, s ≠ t.symbol →
    r'.view AssetRelay.lastRelayedAt s = r.view AssetRelay.lastRelayedAt s
  labels : r'.txQueue.labels = r.txQueue.labels ++ [label]
  validSigners : r'.validSigners = r.validSigners
  phase : r'.phase = if latest.any (Relayer.prints p) then .looping t.rest else .thrown

theorem enqueue_enqueued (p : Platform V) (r : Relayer V) (t : Attempt)
    (latest : Option (SignedPriceUpdate V)) (address calldata label : JsString) :
    Enqueued p t latest label r (r.enqueue p t latest address calldata label) := by
  have hassets : (r.enqueue p t latest address calldata label).assets =
      (r.modify t.symbol fun a => { a with lastRelayedAt := t.now }).assets := by
    unfold Relayer.enqueue
    dsimp only
    split <;> rfl
  refine ⟨?_, ?_, ?_, ?_, ?_, ?_, ?_, ?_⟩
  · intro s
    rw [view_of_assets hassets, view_modify_same r (by intro a; rfl) (by intro a; rfl)]
  · intro s
    rw [view_of_assets hassets, view_modify_same r (by intro a; rfl) (by intro a; rfl)]
  · intro s
    unfold Relayer.Submitting
    rw [view_of_assets hassets, view_modify_same r (by intro a; rfl) (by intro a; rfl)]
  · intro last hlast
    obtain ⟨a, ha, -⟩ := Option.map_eq_some_iff.mp hlast
    rw [view_of_assets hassets, view_modify r (by intro a; rfl), if_pos rfl, ha, Option.map_some]
  · intro s hs
    rw [view_of_assets hassets, view_modify r (by intro a; rfl), if_neg hs]
  · unfold Relayer.enqueue
    dsimp only
    split <;> exact push_labels r.txQueue address calldata label
  · unfold Relayer.enqueue
    dsimp only
    split <;> rfl
  · unfold Relayer.enqueue
    dsimp only
    split <;> rfl

end Nuntius.Relaying
