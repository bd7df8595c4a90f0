import Nuntius.BridgeServer

/-!
# Claims never go backwards

Over every run of the bridge the totals granted to a recipient do not decrease, and the mark of
the state is the largest of them. A claim that is refused, or dropped while it waits for a
chain, leaves the state it found.
-/

namespace Nuntius.BridgeServer
open HandoverPolicy OwnerApprovals InteractivePrograms CancellableTasks LabelledRuns ChainReads
open ClaimFlow BootRules BridgeBoot BridgeHandlers

variable {img : BridgeImage} {older labels : List Label} {b b' : Bridge} {l : Label}

/-- The total a request granted to the recipient. -/
def grantTo (ext : Externals) (r : Address) : Label → Option ℕ
  | .finished (.signClaim text) _ (.signClaim (.ok grant)) _ =>
    if ext.parseAddress text = some r then ext.parseU256 grant.cumulativeBurned else none
  | _ => none

/-- The totals granted to the recipient, the newest first. -/
def grantsTo (ext : Externals) (r : Address) (labels : List Label) : List ℕ :=
  labels.filterMap (grantTo ext r)

/-- Printed totals parse back. -/
def PrintsBack (ext : Externals) : Prop :=
  ∀ v < 2 ^ 256, ext.parseU256 (ext.printU256 v) = some v

/-- A grant is readable and recorded when the lock is released; a claim that is refused or
dropped releases the state it acquired. -/
def ClaimSound (ext : Externals) : Label → Prop
  | .finished (.signClaim text) _ (.signClaim (.ok grant)) released =>
    ∃ r total, ext.parseAddress text = some r ∧
      grant.cumulativeBurned = ext.printU256 total ∧
      ext.parseU256 grant.cumulativeBurned = some total ∧ released.highWater r = total
  | .finished (.signClaim _) acquired (.signClaim (.error _)) released => released = acquired
  | .dropped (.signClaim _) acquired _ released => released = acquired
  | _ => True

structure ClaimsSafe (ext : Externals) (labels : List Label) (st : BridgeState) : Prop where
  monotone : ∀ r, (grantsTo ext r labels).Pairwise (fun newer older => older ≤ newer)
  high_water : ∀ r, st.highWater r = (grantsTo ext r labels).foldr max 0
  sound : ∀ l ∈ labels, ClaimSound ext l

theorem le_foldr_max {l : List ℕ} {v : ℕ} (h : v ∈ l) : v ≤ l.foldr max 0 := by
  induction l with
  | nil => cases h
  | cons w l ih =>
    cases h with
    | head => exact Nat.le_max_left _ _
    | tail _ h => exact Nat.le_trans (ih h) (Nat.le_max_right _ _)

theorem grantsTo_cons_none {ext : Externals} {r : Address} (h : grantTo ext r l = none) :
    grantsTo ext r (l :: older) = grantsTo ext r older :=
  List.filterMap_cons_none h

theorem grantsTo_cons_some {ext : Externals} {r : Address} {total : ℕ}
    (h : grantTo ext r l = some total) :
    grantsTo ext r (l :: older) = total :: grantsTo ext r older :=
  List.filterMap_cons_some h

theorem grantsTo_append (ext : Externals) (r : Address) (newer older : List Label) :
    grantsTo ext r (newer ++ older) = grantsTo ext r newer ++ grantsTo ext r older :=
  List.filterMap_append

/-- A step that grants nothing and moves no mark. -/
theorem ClaimsSafe.carry {ext : Externals} {st st' : BridgeState} (h : ClaimsSafe ext older st)
    (hgrant : ∀ r, grantTo ext r l = none) (hsound : ClaimSound ext l)
    (hmark : ∀ r, st'.highWater r = st.highWater r) : ClaimsSafe ext (l :: older) st' where
  monotone r := by
    rw [grantsTo_cons_none (hgrant r)]
    exact h.monotone r
  high_water r := by
    rw [grantsTo_cons_none (hgrant r), hmark]
    exact h.high_water r
  sound := List.forall_mem_cons.mpr ⟨hsound, h.sound⟩

/-- A grant of at least the mark. -/
theorem ClaimsSafe.grant {ext : Externals} {st : BridgeState} (h : ClaimsSafe ext older st)
    {r : Address} {total : ℕ} (hgrant : grantTo ext r l = some total)
    (hothers : ∀ r', r' ≠ r → grantTo ext r' l = none) (hsound : ClaimSound ext l)
    (hmark : st.highWater r ≤ total) :
    ClaimsSafe ext (l :: older) (st.recordSigned r total) where
  monotone r' := by
    by_cases hr : r' = r
    · subst hr
      rw [grantsTo_cons_some hgrant]
      refine List.pairwise_cons.mpr ⟨?_, h.monotone r'⟩
      intro v hv
      have hv' := le_foldr_max hv
      rw [← h.high_water r'] at hv'
      exact Nat.le_trans hv' hmark
    · rw [grantsTo_cons_none (hothers r' hr)]
      exact h.monotone r'
  high_water r' := by
    by_cases hr : r' = r
    · subst hr
      rw [grantsTo_cons_some hgrant, BridgeState.highWater_recordSigned_self, List.foldr_cons,
        ← h.high_water r']
      exact Nat.max_comm _ _
    · rw [grantsTo_cons_none (hothers r' hr), BridgeState.highWater_recordSigned_of_ne _ _ hr]
      exact h.high_water r'
  sound := List.forall_mem_cons.mpr ⟨hsound, h.sound⟩

theorem grantTo_untouched {ext : Externals} {req : BridgeRequest} {reply : Reply}
    {acquired released : BridgeState} (plain : ∀ grant, reply ≠ .signClaim (.ok grant))
    (r : Address) : grantTo ext r (.finished req acquired reply released) = none := by
  unfold grantTo
  split
  · rename_i heq
    cases heq
    exact absurd rfl (plain _)
  · rfl

theorem claimSound_untouched {ext : Externals} {req : BridgeRequest} {reply : Reply}
    {st : BridgeState} (plain : ∀ grant, reply ≠ .signClaim (.ok grant)) :
    ClaimSound ext (.finished req st reply st) := by
  unfold ClaimSound
  split
  · rename_i heq
    cases heq
    exact absurd rfl (plain _)
  · rename_i heq
    cases heq
    rfl
  · rename_i heq
    cases heq
  · trivial

theorem grantTo_granted {ext : Externals} {text : String} {acquired released : BridgeState}
    {grant : ClaimGrant} {r : Address} (hasked : ext.parseAddress text = some r) (r' : Address) :
    grantTo ext r' (.finished (.signClaim text) acquired (.signClaim (.ok grant)) released) =
      if r = r' then ext.parseU256 grant.cumulativeBurned else none := by
  simp only [grantTo, hasked, Option.some.injEq]

/-- One handled request keeps the claims safe. -/
theorem claimsSafe_handled {env : RequestEnv} {st st' : BridgeState} {req : BridgeRequest}
    {reply : Reply} (back : PrintsBack img.ext) (safe : ClaimsSafe img.ext older st)
    (h : Handled (handlerCtx img env) st req reply st') :
    ClaimsSafe img.ext (.finished req st reply st' :: older) st' := by
  cases h with
  | untouched plain =>
    exact safe.carry (grantTo_untouched plain) (claimSound_untouched plain) fun _ => rfl
  | configured unbooted =>
    exact safe.carry (fun _ => rfl) trivial fun _ => BridgeState.highWater_setConfig ..
  | @granted text r grant total asked printed fits mark =>
    rw [handlerCtx_ext] at asked printed ⊢
    have hparse : img.ext.parseU256 grant.cumulativeBurned = some total := by
      rw [printed]
      exact back total fits
    have hrecorded : recorded img.ext st r grant = st.recordSigned r total := by
      rw [recorded, hparse]
    rw [hrecorded]
    refine safe.grant ?_ ?_ ⟨r, total, asked, printed, hparse, ?_⟩ mark
    · rw [grantTo_granted asked, if_pos rfl, hparse]
    · intro r' hr
      rw [grantTo_granted asked, if_neg hr.symm]
    · rw [BridgeState.highWater_recordSigned_self]
      exact Nat.max_eq_right mark

theorem claimsSafe_step (back : PrintsBack img.ext) (safe : ClaimsSafe img.ext older b.state)
    (h : AtomicStep img b l b') : ClaimsSafe img.ext (l :: older) b'.state := by
  cases h with
  | waiting => exact safe.carry (fun _ => rfl) trivial fun _ => rfl
  | unlocked => exact safe.carry (fun _ => rfl) trivial fun _ => rfl
  | finished env handled => exact claimsSafe_handled back safe handled
  | @dropped req =>
    refine safe.carry (fun _ => rfl) ?_ fun _ => rfl
    cases req <;> trivial
  | snapshot _ _ => exact safe.carry (fun _ => rfl) trivial fun _ => rfl
  | ticked _ _ => exact safe.carry (fun _ => rfl) trivial fun _ => rfl
  | installed _ _ _ =>
    exact safe.carry (fun _ => rfl) trivial fun _ => BridgeState.highWater_installKey ..
  | stale _ => exact safe.carry (fun _ => rfl) trivial fun _ => rfl
  | flagged _ => exact safe.carry (fun _ => rfl) trivial fun _ => rfl

theorem claimsSafe_start : ClaimsSafe img.ext [] (Bridge.start img).state where
  monotone _ := .nil
  high_water _ := rfl
  sound := by simp

/-- Whatever the requests, the chains and the timeouts do, claims never go backwards and what is
not granted leaves no trace. -/
theorem claims_never_go_back {s : Server} (back : PrintsBack img.ext)
    (run : ServerRun img labels s) : ClaimsSafe img.ext labels s.bridge.state := by
  refine (run_atomic run).1.invariant (fun labels b => ClaimsSafe img.ext labels b.state)
    claimsSafe_start ?_
  intro older b l b' _ safe now
  exact claimsSafe_step back safe now

/-! ### Two claims on a booted bridge -/

def demoClaim : BridgeRequest := .signClaim "recipient"

/-- The chains as before, with a burned total of one digit. -/
def demoAnswers (burned : Char) : ℕ → (q : HandlerQuery) → HandlerAnswer q
  | _, .rpc ⟨_, .call _ _ _⟩ => some (.str (demoWord burned))
  | n, .rpc q => demoChains n q
  | _, .setConfig _ => ()
  | _, .recordSigned _ _ => ()

def demoClaimRun (st : BridgeState) (burned : Char) : Transcript HandlerAnswer × Reply :=
  (handle (handlerCtx demoImage demoEnv) st demoClaim).exec (demoAnswers burned) 0

def demoClaimed : BridgeState :=
  applied handlerService (demoClaimRun demoBooted.state '5').1 demoBooted.state

def laterGrant : ClaimGrant := { demoGrant with cumulativeBurned := "7" }

theorem demo_claims_granted :
    (demoClaimRun demoBooted.state '5').2 = .signClaim (.ok demoGrant) ∧
      (demoClaimRun demoClaimed '7').2 = .signClaim (.ok laterGrant) := by
  decide +kernel

theorem demo_claim_runs {st : BridgeState} {burned : Char} {grant : ClaimGrant}
    (h : (demoClaimRun st burned).2 = .signClaim (.ok grant)) :
    Prog.Runs (handle (handlerCtx demoImage demoEnv) st demoClaim) (demoClaimRun st burned).1
      (.signClaim (.ok grant)) := by
  rw [← h]
  exact Prog.exec_runs (demoAnswers burned) 0 _

theorem demo_prints_back : PrintsBack demoExternals := by
  intro v _
  simp [demoExternals, Nat.repr, Nat.ofDigitChars_toDigits]

theorem grantsTo_waiting (ext : Externals) (r : Address) (req : BridgeRequest) (n : ℕ) :
    grantsTo ext r (List.replicate n (.waiting req)) = [] := by
  apply List.filterMap_eq_nil_iff.mpr
  intro l hl
  rw [List.eq_of_mem_replicate hl]
  rfl

theorem demo_claim_total {grant : ClaimGrant} {total : ℕ}
    (h : demoExternals.parseU256 grant.cumulativeBurned = some total)
    (acquired released : BridgeState) :
    grantTo demoExternals demoRecipient
      (.finished demoClaim acquired (.signClaim (.ok grant)) released) = some total := by
  rw [demoClaim, grantTo_granted (r := demoRecipient) (by decide +kernel), if_pos rfl, h]

/-- A claim for a total of 5, and when more was burned one for 7. -/
theorem claims_never_go_back_demo :
    ∃ labels s, ServerRun demoImage labels s ∧
      grantsTo demoExternals demoRecipient labels = [7, 5] ∧
      ClaimsSafe demoExternals labels s.bridge.state := by
  obtain ⟨hfirst, hlater⟩ := demo_claims_granted
  obtain ⟨n, booted⟩ := demo_boots
  obtain ⟨m, claimed⟩ := server_finishes booted (by simp [demoClaim]) (demo_claim_runs hfirst)
  obtain ⟨k, again⟩ := server_finishes claimed (by simp [demoClaim]) (demo_claim_runs hlater)
  refine ⟨_, _, again, ?_, claims_never_go_back demo_prints_back again⟩
  have hboot : grantsTo demoExternals demoRecipient demoBootLabels = [] := rfl
  have hseven : demoExternals.parseU256 laterGrant.cumulativeBurned = some 7 := by decide +kernel
  have hfive : demoExternals.parseU256 demoGrant.cumulativeBurned = some 5 := by decide +kernel
  rw [grantsTo_cons_some (demo_claim_total hseven _ _), grantsTo_append,
    grantsTo_cons_some (demo_claim_total hfive _ _), grantsTo_append, grantsTo_append, hboot,
    grantsTo_waiting, grantsTo_waiting, grantsTo_waiting]
  rfl

end Nuntius.BridgeServer
