import Nuntius.LabelledRuns
import Nuntius.TxQueue

/-!
# Nonces of the transaction queue

The wallet is used by the queue alone, so the next unused nonce is the number of its transactions
that were broadcast and not dropped. The queue counts broadcasts itself and asks the chain only
after an error that names the nonce. A dropped transaction is no such error: the count stays
ahead, and the next transaction leaves a gap.
-/

namespace Nuntius.TxQueue
open LabelledRuns

/-! ### The wallet -/

/-- The queue with the wallet's transactions: those that count for the next nonce, and how many
were dropped. -/
structure Wallet where
  queue : Queue
  live : ℕ
  dropped : ℕ

def Wallet.start (live : ℕ) : Wallet := ⟨.start, live, 0⟩

inductive WalletInput where
  | push (recipient data label : JsString)
  | event (e : Event)

/-- A broadcast counts, and a null receipt says that the transaction was dropped. A transaction
that is rejected, mined, reverted or waited for in vain changes nothing. -/
def liveAfter (live : ℕ) : Event → ℕ
  | .sent => live + 1
  | .receipt none => live - 1
  | _ => live

def droppedAfter (dropped : ℕ) : Event → ℕ
  | .receipt none => dropped + 1
  | _ => dropped

/-- The chain answers the question for the pending nonce by the next unused one. -/
def Truthful (live : ℕ) : Event → Prop
  | .nonceRead n => n = live
  | _ => True

def WalletStep (w : Wallet) (l : WalletInput) (w' : Wallet) : Prop :=
  match l with
  | .push recipient data label => w' = { w with queue := w.queue.push recipient data label }
  | .event e => Truthful w.live e ∧ ∃ done, w.queue.react e = some (w'.queue, done) ∧
      w'.live = liveAfter w.live e ∧ w'.dropped = droppedAfter w.dropped e

def Drain.isSending : Drain → Bool
  | .sending _ => true
  | _ => false

/-- `sendTransaction` is called. -/
def BeginsSend (w w' : Wallet) : Prop :=
  w.queue.drain.isSending = false ∧ w'.queue.drain.isSending = true

/-- A transaction is sent with the next unused nonce. -/
def RightNonce (w : Wallet) (_ : WalletInput) (w' : Wallet) : Prop :=
  BeginsSend w w' → w'.queue.nonce = some w'.live

/-- A transaction is sent only if none was dropped before. -/
def NoneDropped (w : Wallet) (_ : WalletInput) (w' : Wallet) : Prop :=
  BeginsSend w w' → w'.dropped = 0

/-! ### Where the count stands -/

/-- The count is unknown or right as long as nothing was dropped; after a drop it is one ahead
and nothing is being sent. -/
inductive CountOf (w : Wallet) : Prop
  | inStep (none_dropped : w.dropped = 0)
      (known : w.queue.nonce = none ∨ w.queue.nonce = some w.live)
      (sending : ∀ i, w.queue.drain = .sending i → w.queue.nonce = some w.live)
      (confirming : ∀ i, w.queue.drain = .confirming i → w.queue.nonce = some w.live ∧ 0 < w.live)
  | ahead (some_dropped : 0 < w.dropped) (count : w.queue.nonce = some (w.live + 1))
      (resting : w.queue.drain = .stopped ∨ w.queue.drain = .between ∨
        ∃ i, w.queue.drain = .backingOff i)

theorem countOf_start (live : ℕ) : CountOf (.start live) :=
  .inStep rfl (.inl rfl) (fun i h => by cases h) (fun i h => by cases h)

/-- The loop stops, asks for the nonce or sends. -/
theorem next_cases (q : Queue) :
    q.next.nonce = q.nonce ∧ (q.next.drain = .stopped ∨
      (∃ i, q.nonce = none ∧ q.next.drain = .syncing i) ∨
      ∃ i n, q.nonce = some n ∧ q.next.drain = .sending i) := by
  unfold Queue.next
  cases q.queue with
  | nil => exact ⟨rfl, .inl rfl⟩
  | cons i rest =>
    cases q.nonce with
    | none => exact ⟨rfl, .inr (.inl ⟨i, rfl, rfl⟩)⟩
    | some n => exact ⟨rfl, .inr (.inr ⟨i, n, rfl, rfl⟩)⟩

/-- The count stands well after the step, and a send that the step begins has the right nonce and
no drop before it. -/
def SoundSend (w w' : Wallet) : Prop :=
  CountOf w' ∧ (BeginsSend w w' → w'.queue.nonce = some w'.live ∧ w'.dropped = 0)

section Sound
variable {w w' : Wallet}

theorem soundSend_of_quiet (none_dropped : w'.dropped = 0)
    (known : w'.queue.nonce = none ∨ w'.queue.nonce = some w'.live)
    (sending : ∀ i, w'.queue.drain ≠ .sending i)
    (confirming : ∀ i, w'.queue.drain ≠ .confirming i) : SoundSend w w' := by
  refine ⟨.inStep none_dropped known (fun i h => absurd h (sending i))
    (fun i h => absurd h (confirming i)), fun h => ?_⟩
  have hsend := h.2
  cases hd : w'.queue.drain with
  | sending i => exact absurd hd (sending i)
  | stopped | between | syncing _ | confirming _ | backingOff _ =>
    rw [hd] at hsend
    cases hsend

theorem soundSend_of_ahead (some_dropped : 0 < w'.dropped)
    (count : w'.queue.nonce = some (w'.live + 1))
    (resting : w'.queue.drain = .stopped ∨ w'.queue.drain = .between ∨
      ∃ i, w'.queue.drain = .backingOff i) : SoundSend w w' := by
  refine ⟨.ahead some_dropped count resting, fun h => ?_⟩
  have hsend := h.2
  rcases resting with hd | hd | ⟨i, hd⟩
  all_goals
    rw [hd] at hsend
    cases hsend

theorem soundSend_of_sending (none_dropped : w'.dropped = 0)
    (known : w'.queue.nonce = some w'.live) {i : TxIntent}
    (sending : w'.queue.drain = .sending i) : SoundSend w w' := by
  refine ⟨.inStep none_dropped (.inr known) (fun _ _ => known) (fun j h => ?_),
    fun _ => ⟨known, none_dropped⟩⟩
  cases sending.symm.trans h

/-- The loop goes on. After a drop it would send with a count that is ahead. -/
theorem soundSend_next {q : Queue} (count : CountOf w)
    (idle : w.queue.drain = .stopped ∨ w.queue.drain = .between) (queue : w'.queue = q.next)
    (nonce : q.nonce = w.queue.nonce) (live : w'.live = w.live) (dropped : w'.dropped = w.dropped)
    (start : BeginsSend w w' → w'.queue.nonce = some w'.live ∨ w'.dropped = 0) :
    SoundSend w w' := by
  obtain ⟨hn, hd⟩ := next_cases q
  rw [← queue, nonce] at hn hd
  cases count with
  | inStep none_dropped known _ _ =>
    rw [← dropped] at none_dropped
    rw [← live, ← hn] at known
    rcases hd with hd | ⟨i, -, hd⟩ | ⟨i, n, hsome, hd⟩
    · exact soundSend_of_quiet none_dropped known (by simp [hd]) (by simp [hd])
    · exact soundSend_of_quiet none_dropped known (by simp [hd]) (by simp [hd])
    · rcases known with hnone | hlive
      · cases (hn.trans hsome).symm.trans hnone
      · exact soundSend_of_sending none_dropped hlive hd
  | ahead some_dropped ahead _ =>
    rw [← dropped] at some_dropped
    rw [← live] at ahead
    rcases hd with hd | ⟨i, hnone, -⟩ | ⟨i, n, -, hd⟩
    · exact soundSend_of_ahead some_dropped (hn.trans ahead) (.inl hd)
    · cases hnone.symm.trans ahead
    · have hbegins : BeginsSend w w' := by
        refine ⟨?_, by simp [hd, Drain.isSending]⟩
        rcases idle with h | h <;> rw [h] <;> rfl
      rcases start hbegins with hright | hnone
      · have := Option.some.inj (hright.symm.trans (hn.trans ahead))
        omega
      · omega

/-- An error that drops nothing keeps the count or forgets it. -/
theorem soundSend_caught (count : CountOf w) {i : TxIntent} {errMsg : JsString} {done : Completion}
    (busy : w.queue.drain = .syncing i ∨ w.queue.drain = .sending i ∨
      w.queue.drain = .confirming i)
    (caught : w.queue.caught i errMsg = (w'.queue, done))
    (live : w'.live = w.live) (dropped : w'.dropped = w.dropped) : SoundSend w w' := by
  obtain ⟨-, hn, hd⟩ := caught_cases caught
  cases count with
  | inStep none_dropped known _ _ =>
    have hknown : w'.queue.nonce = none ∨ w'.queue.nonce = some w'.live := by
      rcases hn with hn | ⟨-, hn⟩
      · rw [hn, live]
        exact known
      · exact .inl hn
    rcases hd with ⟨r, hd, -⟩ | ⟨-, hd, -⟩
    · exact soundSend_of_quiet (dropped.trans none_dropped) hknown (by simp [hd]) (by simp [hd])
    · exact soundSend_of_quiet (dropped.trans none_dropped) hknown (by simp [hd]) (by simp [hd])
  | ahead _ _ resting =>
    rcases busy with h | h | h <;> simp [h] at resting

/-- Once the receipt is null, the count is ahead: the error does not name the nonce. -/
theorem soundSend_drop (count : CountOf w) {i : TxIntent} {done : Completion}
    (busy : w.queue.drain = .confirming i)
    (caught : w.queue.caught i receiptIsNull = (w'.queue, done))
    (live : w'.live = w.live - 1) (dropped : w'.dropped = w.dropped + 1) : SoundSend w w' := by
  obtain ⟨-, hn, hd⟩ := caught_cases caught
  have hissue : isNonceIssue receiptIsNull = false := by decide
  cases count with
  | inStep none_dropped _ _ confirming =>
    obtain ⟨hlive, hpos⟩ := confirming i busy
    have hback : w.live = w'.live + 1 := by omega
    have hahead : w'.queue.nonce = some (w'.live + 1) := by
      rcases hn with hn | ⟨hnonce, -⟩
      · rw [hn, hlive, hback]
      · rw [hissue] at hnonce
        cases hnonce
    apply soundSend_of_ahead (by omega) hahead
    rcases hd with ⟨r, hd, -⟩ | ⟨-, hd, -⟩
    · exact .inr (.inl hd)
    · exact .inr (.inr ⟨_, hd⟩)
  | ahead _ _ resting => simp [busy] at resting

/-- `send` returns, or its retry is back in the queue. -/
theorem soundSend_between (count : CountOf w) (drain : w'.queue.drain = .between)
    (nonce : w'.queue.nonce = w.queue.nonce) (live : w'.live = w.live)
    (dropped : w'.dropped = w.dropped) : SoundSend w w' := by
  cases count with
  | inStep none_dropped known _ _ =>
    rw [← nonce, ← live] at known
    exact soundSend_of_quiet (dropped.trans none_dropped) known (by simp [drain]) (by simp [drain])
  | ahead some_dropped ahead _ =>
    rw [← dropped] at some_dropped
    rw [← nonce, ← live] at ahead
    exact soundSend_of_ahead some_dropped ahead (.inr (.inl drain))

/-- A step at which the loop stays where it is and the chain too. -/
theorem soundSend_still (count : CountOf w) (drain : w'.queue.drain = w.queue.drain)
    (nonce : w'.queue.nonce = w.queue.nonce) (live : w'.live = w.live)
    (dropped : w'.dropped = w.dropped) : SoundSend w w' := by
  refine ⟨?_, fun h => ?_⟩
  · cases count with
    | inStep none_dropped known sending confirming =>
      rw [← dropped] at none_dropped
      rw [← nonce, ← live] at known
      simp only [← nonce, ← live, ← drain] at sending confirming
      exact .inStep none_dropped known sending confirming
    | ahead some_dropped ahead resting =>
      rw [← dropped] at some_dropped
      rw [← nonce, ← live] at ahead
      rw [← drain] at resting
      exact .ahead some_dropped ahead resting
  · have hsend := h.2
    rw [drain, h.1] at hsend
    cases hsend

end Sound

/-- Whether every send is to have the right nonce or none is to follow a drop, the count stands
well and both hold. -/
theorem walletStep_sound {w w' : Wallet} {l : WalletInput} (count : CountOf w)
    (step : WalletStep w l w')
    (start : BeginsSend w w' → w'.queue.nonce = some w'.live ∨ w'.dropped = 0) :
    SoundSend w w' := by
  cases l with
  | push recipient data label =>
    subst step
    by_cases hd : w.queue.drain = .stopped
    · have hq := push_of_stopped hd recipient data label
      exact soundSend_next count (.inl hd) hq rfl rfl rfl start
    · exact soundSend_still count (by rw [push_of_busy hd]) (by rw [push_of_busy hd]) rfl rfl
  | event e =>
    obtain ⟨truthful, done, hreact, hlive, hdropped⟩ := step
    unfold Queue.react at hreact
    split at hreact
    case h_1 hd =>
      have hq := (Prod.mk.inj (Option.some.inj hreact)).1
      exact soundSend_next count (.inr hd) hq.symm rfl hlive hdropped start
    case h_2 i n hd =>
      have hq := (Prod.mk.inj (Option.some.inj hreact)).1
      cases count with
      | inStep none_dropped _ _ _ =>
        refine soundSend_of_sending (i := i) (hdropped.trans none_dropped) ?_ (by rw [← hq])
        rw [← hq, hlive]
        exact congrArg some truthful
      | ahead _ _ resting => simp [hd] at resting
    case h_3 hd => exact soundSend_caught count (.inl hd) (Option.some.inj hreact) hlive hdropped
    case h_4 i hd =>
      have hq := (Prod.mk.inj (Option.some.inj hreact)).1
      cases count with
      | inStep none_dropped _ sending _ =>
        have hcount : w'.queue.nonce = some w'.live := by
          rw [← hq, hlive]
          simp only [sending i hd, Option.map_some, liveAfter]
        have hpos : 0 < w'.live := hlive ▸ Nat.succ_pos _
        refine ⟨.inStep (hdropped.trans none_dropped) (.inr hcount) (fun j _ => hcount)
          (fun j _ => ⟨hcount, hpos⟩), fun h => ⟨hcount, hdropped.trans none_dropped⟩⟩
      | ahead _ _ resting => simp [hd] at resting
    case h_5 hd =>
      exact soundSend_caught count (.inr (.inl hd)) (Option.some.inj hreact) hlive hdropped
    case h_6 hd => exact soundSend_drop count hd (Option.some.inj hreact) hlive hdropped
    case h_7 r hd =>
      split at hreact
      all_goals
        have hq := (Prod.mk.inj (Option.some.inj hreact)).1
        exact soundSend_between count (by rw [← hq]) (by rw [← hq]) hlive hdropped
    case h_8 hd =>
      exact soundSend_caught count (.inr (.inr hd)) (Option.some.inj hreact) hlive hdropped
    case h_9 hd =>
      have hq := (Prod.mk.inj (Option.some.inj hreact)).1
      exact soundSend_between count (by rw [← hq]) (by rw [← hq]) hlive hdropped
    case h_10 => cases hreact

/-! ### The gap -/

/-- Every transaction has the next unused nonce if and only if none is sent after one was
dropped. -/
theorem nonces_without_gap_iff (live : ℕ) (labels : List WalletInput) (w : Wallet) :
    Always (.start live) WalletStep RightNonce labels w ↔
      Always (.start live) WalletStep NoneDropped labels w := by
  constructor
  · apply Always.of_invariant CountOf (countOf_start live)
    intro w l w' count step right
    have sound := walletStep_sound count step fun h => .inl (right h)
    exact ⟨sound.1, fun h => (sound.2 h).2⟩
  · apply Always.of_invariant CountOf (countOf_start live)
    intro w l w' count step undropped
    have sound := walletStep_sound count step fun h => .inr (undropped h)
    exact ⟨sound.1, fun h => (sound.2 h).1⟩

/-- The only intent of a fresh wallet at its first and at its second attempt. -/
def firstTry : TxIntent := ⟨[], [], [], 0⟩
def secondTry : TxIntent := ⟨[], [], [], 1⟩

/-- The first transaction is dropped, and its retry is sent with nonce 1 by a wallet whose next
unused nonce is 0. -/
theorem retry_after_drop_leaves_gap :
    ∃ w w', Run (.start 0) WalletStep [.event .woke, .event (.receipt none), .event .sent,
        .event (.nonceRead 0), .push [] [] []] w ∧
      WalletStep w (.event .resumed) w' ∧ BeginsSend w w' ∧
      w'.queue.nonce = some 1 ∧ w'.live = 0 := by
  have hcaught (q : Queue) : q.caught firstTry receiptIsNull =
      ({ q with drain := .backingOff secondTry }, none) := by
    have hrevert : isContractRevert receiptIsNull = false := by decide
    have hnonce : isNonceIssue receiptIsNull = false := by decide
    simp only [Queue.caught, hrevert, hnonce]
    rfl
  have hread : WalletStep ⟨⟨[], .syncing firstTry, none⟩, 0, 0⟩ (.event (.nonceRead 0))
      ⟨⟨[], .sending firstTry, some 0⟩, 0, 0⟩ := ⟨rfl, none, rfl, rfl, rfl⟩
  have hdrop : WalletStep ⟨⟨[], .confirming firstTry, some 1⟩, 1, 0⟩ (.event (.receipt none))
      ⟨⟨[], .backingOff secondTry, some 1⟩, 0, 1⟩ :=
    ⟨trivial, none, congrArg some (hcaught _), rfl, rfl⟩
  refine ⟨⟨⟨[secondTry], .between, some 1⟩, 0, 1⟩, ⟨⟨[], .sending secondTry, some 1⟩, 0, 1⟩, ?_,
    ⟨trivial, none, rfl, rfl, rfl⟩, ⟨rfl, rfl⟩, rfl, rfl⟩
  refine .step (.step (.step (.step (.step .start rfl) hread) ?_) hdrop) ?_
  · exact ⟨trivial, none, rfl, rfl, rfl⟩
  · exact ⟨trivial, none, rfl, rfl, rfl⟩

end Nuntius.TxQueue
