import Mathlib.Data.List.Infix
import Mathlib.Data.Option.Basic

/-!
# The transaction queue of the relayer

`TxQueue` sends its intents one after the other and reports each of them once: confirmed,
reverted or failed. Between two of its own steps anything else may happen, so the state says
where the loop of `drain` waits.
-/

namespace Nuntius.TxQueue

/-- A JavaScript string is a sequence of UTF-16 code units. -/
abbrev JsString := List UInt16

def codeUnits (s : List Char) : JsString := s.map fun c => UInt16.ofNat c.toNat

def units (s : String) : JsString := codeUnits s.toList

def includes (s needle : JsString) : Bool := s.tails.any fun t => needle.isPrefixOf t

/-- What `\s` matches. -/
def isWhitespace (c : UInt16) : Bool :=
  c == 0x20 || (0x9 ≤ c && c ≤ 0xd) || c == 0xa0 || c == 0x1680 || (0x2000 ≤ c && c ≤ 0x200a) ||
    c == 0x2028 || c == 0x2029 || c == 0x202f || c == 0x205f || c == 0x3000 || c == 0xfeff

def WhitespaceFree (s : JsString) : Prop := ∀ c ∈ s, isWhitespace c = false

instance (s : JsString) : Decidable (WhitespaceFree s) :=
  List.decidableBAll (fun c => isWhitespace c = false) s

/-! ### The queue -/

structure TxIntent where
  recipient : JsString
  data : JsString
  label : JsString
  retries : ℕ
deriving DecidableEq

inductive TxResult where
  | confirmed (hash : JsString)
  | reverted (reason : JsString)
  | failed (reason : JsString)

/-- Where `drain` stands: not running, back in its loop, or at one of the waits of `send`. -/
inductive Drain where
  | stopped
  | between
  | syncing (intent : TxIntent)
  | sending (intent : TxIntent)
  | confirming (intent : TxIntent)
  | backingOff (intent : TxIntent)

def Drain.current : Drain → Option TxIntent
  | .stopped | .between => none
  | .syncing i | .sending i | .confirming i | .backingOff i => some i

section Current
variable (i : TxIntent)

@[simp] theorem current_stopped : Drain.stopped.current = none := rfl
@[simp] theorem current_between : Drain.between.current = none := rfl
@[simp] theorem current_syncing : (Drain.syncing i).current = some i := rfl
@[simp] theorem current_sending : (Drain.sending i).current = some i := rfl
@[simp] theorem current_confirming : (Drain.confirming i).current = some i := rfl
@[simp] theorem current_backingOff : (Drain.backingOff i).current = some i := rfl

end Current

structure Queue where
  queue : List TxIntent
  drain : Drain
  nonce : Option ℕ

def Queue.start : Queue where
  queue := []
  drain := .stopped
  nonce := none

/-- The loop of `drain` up to the next wait. -/
def Queue.next (q : Queue) : Queue :=
  match q.queue with
  | [] => { q with drain := .stopped }
  | intent :: rest =>
    { q with queue := rest, drain := if q.nonce.isNone then .syncing intent else .sending intent }

def Queue.push (q : Queue) (recipient data label : JsString) : Queue :=
  let pushed := { q with queue := q.queue ++ [⟨recipient, data, label, 0⟩] }
  match q.drain with
  | .stopped => pushed.next
  | _ => pushed

def MAX_RETRIES : ℕ := 3

def isContractRevert (msg : JsString) : Bool :=
  ["StalePrice", "UpdateTooFrequent", "PriceChangeExceedsLimit", "InvalidSignature",
    "NoEnclaveRegistered", "revert", "CALL_EXCEPTION"].any fun s => includes msg (units s)

def isNonceIssue (msg : JsString) : Bool :=
  includes msg (units "nonce") || includes msg (units "replacement")

/-- What the queue reports of an intent. -/
abbrev Completion := Option (TxIntent × TxResult)

/-- The `catch` branch of `send`. -/
def Queue.caught (q : Queue) (intent : TxIntent) (errMsg : JsString) : Queue × Completion :=
  if isContractRevert errMsg then ({ q with drain := .between }, some (intent, .reverted errMsg))
  else
    let nonce := if isNonceIssue errMsg then none else q.nonce
    if intent.retries < MAX_RETRIES - 1 then
      ({ q with drain := .backingOff { intent with retries := intent.retries + 1 },
                  nonce := nonce },
        none)
    else ({ q with drain := .between, nonce := nonce }, some (intent, .failed errMsg))

structure Receipt where
  status : Option ℕ
  hash : JsString

def receiptIsNull : JsString := units "Receipt is null — TX dropped"

def onChainRevert (hash : JsString) : JsString := units "on-chain revert in tx " ++ hash

/-- What ends a wait: an answer of the chain, an error, the timer of a retry, or the end of
`send`. -/
inductive Event where
  | nonceRead (nonce : ℕ)
  | sent
  | receipt (receipt : Option Receipt)
  | failed (errMsg : JsString)
  | woke
  | resumed

def Queue.react (q : Queue) (e : Event) : Option (Queue × Completion) :=
  match q.drain, e with
  | .between, .resumed => some (q.next, none)
  | .syncing i, .nonceRead n => some ({ q with drain := .sending i, nonce := some n }, none)
  | .syncing i, .failed errMsg => some (q.caught i errMsg)
  | .sending i, .sent =>
    some ({ q with drain := .confirming i, nonce := q.nonce.map (· + 1) }, none)
  | .sending i, .failed errMsg => some (q.caught i errMsg)
  | .confirming i, .receipt none => some (q.caught i receiptIsNull)
  | .confirming i, .receipt (some r) =>
    if r.status ≠ some 1 then
      some ({ q with drain := .between }, some (i, .reverted (onChainRevert r.hash)))
    else some ({ q with drain := .between }, some (i, .confirmed r.hash))
  | .confirming i, .failed errMsg => some (q.caught i errMsg)
  | .backingOff i, .woke => some ({ q with queue := i :: q.queue, drain := .between }, none)
  | _, _ => none

/-- The intents that are queued or in flight, the oldest first. -/
def Queue.outstanding (q : Queue) : List TxIntent := q.drain.current.toList ++ q.queue

def Queue.labels (q : Queue) : List JsString := q.outstanding.map TxIntent.label

theorem next_labels {q : Queue} (h : q.drain.current = none) : q.next.labels = q.labels := by
  unfold Queue.next
  split
  case h_1 hq => simp [Queue.labels, Queue.outstanding, hq, h]
  case h_2 intent rest hq =>
    cases q.nonce with
    | none => simp [Queue.labels, Queue.outstanding, hq, h]
    | some n => simp [Queue.labels, Queue.outstanding, hq, h]

/-- A push to a stopped queue takes the first intent. -/
theorem push_of_stopped {q : Queue} (h : q.drain = .stopped) (recipient data label : JsString) :
    q.push recipient data label =
      Queue.next { q with queue := q.queue ++ [⟨recipient, data, label, 0⟩] } := by
  unfold Queue.push
  rw [h]

theorem push_of_busy {q : Queue} (h : q.drain ≠ .stopped) (recipient data label : JsString) :
    q.push recipient data label = { q with queue := q.queue ++ [⟨recipient, data, label, 0⟩] } := by
  unfold Queue.push
  cases hd : q.drain with
  | stopped => exact absurd hd h
  | between => rfl
  | syncing i => rfl
  | sending i => rfl
  | confirming i => rfl
  | backingOff i => rfl

theorem push_labels (q : Queue) (recipient data label : JsString) :
    (q.push recipient data label).labels = q.labels ++ [label] := by
  by_cases hd : q.drain = .stopped
  · rw [push_of_stopped hd, next_labels (by simp [hd])]
    simp [Queue.labels, Queue.outstanding]
  · rw [push_of_busy hd]
    simp [Queue.labels, Queue.outstanding]

/-- Everything an error can lead to: the intent is reported, or waits for another attempt; the
nonce is kept, or forgotten if the error names it. -/
theorem caught_cases {q q' : Queue} {i : TxIntent} {errMsg : JsString} {done : Completion}
    (h : q.caught i errMsg = (q', done)) :
    q'.queue = q.queue ∧
      (q'.nonce = q.nonce ∨ (isNonceIssue errMsg = true ∧ q'.nonce = none)) ∧
      ((∃ r, q'.drain = .between ∧ done = some (i, r)) ∨
        (i.retries < 2 ∧ q'.drain = .backingOff { i with retries := i.retries + 1 } ∧
          done = none)) := by
  have hnonce : (if isNonceIssue errMsg then none else q.nonce) = q.nonce ∨
      (isNonceIssue errMsg = true ∧ (if isNonceIssue errMsg then none else q.nonce) = none) := by
    cases isNonceIssue errMsg with
    | false => exact .inl rfl
    | true => exact .inr ⟨rfl, rfl⟩
  unfold Queue.caught at h
  split at h
  · cases h
    exact ⟨rfl, .inl rfl, .inl ⟨_, rfl, rfl⟩⟩
  · dsimp only at h
    split at h
    case isTrue hretry =>
      cases h
      exact ⟨rfl, hnonce, .inr ⟨hretry, rfl, rfl⟩⟩
    case isFalse =>
      cases h
      exact ⟨rfl, hnonce, .inl ⟨_, rfl, rfl⟩⟩

/-- An intent whose sending failed is reported, or stays outstanding for another attempt. -/
theorem caught_labels {q q' : Queue} {i : TxIntent} {errMsg : JsString} {done : Completion}
    (current : q.drain.current = some i) (h : q.caught i errMsg = (q', done)) :
    q.labels = done.toList.map (fun c => c.1.label) ++ q'.labels := by
  obtain ⟨hqueue, -, ⟨r, hdrain, hdone⟩ | ⟨-, hdrain, hdone⟩⟩ := caught_cases h
  · simp [Queue.labels, Queue.outstanding, current, hqueue, hdrain, hdone]
  · simp [Queue.labels, Queue.outstanding, current, hqueue, hdrain, hdone]

/-- Whatever the queue does, its oldest intent stays the oldest until it is reported, and it is
reported once. -/
theorem react_labels {q q' : Queue} {e : Event} {done : Completion}
    (h : q.react e = some (q', done)) :
    q.labels = done.toList.map (fun c => c.1.label) ++ q'.labels := by
  unfold Queue.react at h
  split at h
  case h_1 hd =>
    cases h
    rw [next_labels (by simp [hd])]
    rfl
  case h_2 hd | h_4 hd | h_9 hd =>
    cases h
    simp [Queue.labels, Queue.outstanding, hd]
  case h_3 hd | h_5 hd | h_6 hd | h_8 hd =>
    exact caught_labels (by simp [hd]) (Option.some.inj h)
  case h_7 hd =>
    split at h
    · cases h
      simp [Queue.labels, Queue.outstanding, hd]
    · cases h
      simp [Queue.labels, Queue.outstanding, hd]
  case h_10 => cases h

end Nuntius.TxQueue
