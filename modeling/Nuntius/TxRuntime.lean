import Nuntius.LabelledRuns
import Nuntius.TxQueue

/-!
# The queue and its drain loops

`push` starts a `drain` loop unless the object says that one is running, and every wait of a loop
lets other code in. There is never more than one loop, so intents are sent one at a time, in the
order they were pushed, and each is tried at most three times and reported once.
-/

namespace Nuntius.TxQueue
open LabelledRuns

/-! ### Loops -/

/-- The fields of the object, and where each call of `drain` stands that has not returned. -/
structure Runtime where
  queue : List TxIntent
  processing : Bool
  nonce : Option ℕ
  loops : List Drain

inductive Mark where
  | pushed (intent : TxIntent)
  | attempt (intent : TxIntent)
  | completed (intent : TxIntent) (result : TxResult)

/-- A call of `send` begins when a loop takes an intent. -/
def attemptMarks (before after : Drain) : List Mark :=
  if before.current.isNone then after.current.toList.map Mark.attempt else []

def completionMarks (done : Completion) : List Mark :=
  done.toList.map fun c => .completed c.1 c.2

namespace Runtime

def start : Runtime := ⟨[], false, none, []⟩

/-- The object as one loop finds it. -/
def view (rt : Runtime) (loop : Drain) : Queue := ⟨rt.queue, loop, rt.nonce⟩

def push (rt : Runtime) (recipient data label : JsString) : Runtime × List Mark :=
  if rt.processing then
    ({ rt with queue := rt.queue ++ [⟨recipient, data, label, 0⟩] },
      [.pushed ⟨recipient, data, label, 0⟩])
  else
    let q := (rt.view .stopped).push recipient data label
    (⟨q.queue, true, q.nonce, rt.loops ++ [q.drain]⟩,
      .pushed ⟨recipient, data, label, 0⟩ :: attemptMarks .stopped q.drain)

/-- A wait of the loop with the given index ends. A loop that finds nothing to do returns and
clears the flag. -/
def react (rt : Runtime) (index : ℕ) (e : Event) : Option (Runtime × List Mark) := do
  let loop ← rt.loops[index]?
  let (q, done) ← (rt.view loop).react e
  let marks := attemptMarks loop q.drain ++ completionMarks done
  match q.drain with
  | .stopped => some (⟨q.queue, false, q.nonce, rt.loops.eraseIdx index⟩, marks)
  | drain => some (⟨q.queue, rt.processing, q.nonce, rt.loops.set index drain⟩, marks)

/-- The intents in the queue or in the hands of a loop. -/
def outstanding (rt : Runtime) : List TxIntent :=
  rt.loops.flatMap (fun loop => loop.current.toList) ++ rt.queue

end Runtime

inductive Input where
  | push (recipient data label : JsString)
  | wait (index : ℕ) (e : Event)

def RuntimeStep (rt : Runtime) (l : Input × List Mark) (rt' : Runtime) : Prop :=
  match l.1 with
  | .push recipient data label => rt.push recipient data label = (rt', l.2)
  | .wait index e => rt.react index e = some (rt', l.2)

/-! ### The tally of a run -/

structure CompletedIntent where
  intent : TxIntent
  result : TxResult
  attempts : List TxIntent

/-- What was pushed, what was completed with the attempts made since the completion before, and
the attempts since the last completion. -/
structure Tally where
  pushed : List TxIntent
  completed : List CompletedIntent
  attempts : List TxIntent

namespace Tally

def empty : Tally := ⟨[], [], []⟩

def mark (t : Tally) : Mark → Tally
  | .pushed i => { t with pushed := t.pushed ++ [i] }
  | .attempt i => { t with attempts := t.attempts ++ [i] }
  | .completed i r => { t with completed := t.completed ++ [⟨i, r, t.attempts⟩], attempts := [] }

def markAll (t : Tally) (marks : List Mark) : Tally := marks.foldl mark t

end Tally

/-- The tally after a run, whose labels stand newest first. -/
def tally : List (Input × List Mark) → Tally
  | [] => .empty
  | l :: older => (tally older).markAll l.2

/-- The intent as it was pushed. -/
def TxIntent.original (i : TxIntent) : TxIntent := { i with retries := 0 }

/-! ### What a step can do -/

/-- The intent an attempt is going on for. -/
def Drain.attempted : Drain → Option TxIntent
  | .syncing i | .sending i | .confirming i => some i
  | .stopped | .between | .backingOff _ => none

/-- Everything the end of a wait can lead to. -/
inductive Move (q q' : Queue) : List Mark → Prop
  | finish (hd : q.drain = .between) (hq : q.queue = []) (hq' : q'.queue = [])
      (hd' : q'.drain = .stopped) : Move q q' []
  | take (i : TxIntent) (hd : q.drain = .between) (hq : q.queue = i :: q'.queue)
      (hd' : q'.drain.attempted = some i) : Move q q' [.attempt i]
  | proceed (i : TxIntent) (hd : q.drain.attempted = some i) (hd' : q'.drain.attempted = some i)
      (hq : q'.queue = q.queue) : Move q q' []
  | backOff (i : TxIntent) (hd : q.drain.attempted = some i) (hi : i.retries < 2)
      (hd' : q'.drain = .backingOff { i with retries := i.retries + 1 })
      (hq : q'.queue = q.queue) : Move q q' []
  | complete (i : TxIntent) (r : TxResult) (hd : q.drain.attempted = some i)
      (hd' : q'.drain = .between) (hq : q'.queue = q.queue) : Move q q' [.completed i r]
  | wake (i : TxIntent) (hd : q.drain = .backingOff i) (hd' : q'.drain = .between)
      (hq : q'.queue = i :: q.queue) : Move q q' []

theorem current_of_attempted {d : Drain} {i : TxIntent} (h : d.attempted = some i) :
    d.current = some i := by
  cases d with
  | stopped => cases h
  | between => cases h
  | backingOff j => cases h
  | syncing j => exact h
  | sending j => exact h
  | confirming j => exact h

theorem next_of_cons {q : Queue} {i : TxIntent} {rest : List TxIntent} (h : q.queue = i :: rest) :
    q.next.queue = rest ∧ q.next.drain.attempted = some i ∧ q.next.nonce = q.nonce := by
  unfold Queue.next
  rw [h]
  cases q.nonce with
  | none => exact ⟨rfl, rfl, rfl⟩
  | some n => exact ⟨rfl, rfl, rfl⟩

theorem next_of_nil {q : Queue} (h : q.queue = []) :
    q.next.queue = [] ∧ q.next.drain = .stopped ∧ q.next.nonce = q.nonce := by
  unfold Queue.next
  rw [h]
  exact ⟨rfl, rfl, rfl⟩

theorem caught_move {q q' : Queue} {i : TxIntent} {errMsg : JsString} {done : Completion}
    (hd : q.drain.attempted = some i) (h : q.caught i errMsg = (q', done)) :
    Move q q' (attemptMarks q.drain q'.drain ++ completionMarks done) := by
  have hmarks : attemptMarks q.drain q'.drain = [] := by
    rw [attemptMarks, current_of_attempted hd]
    rfl
  rw [hmarks, List.nil_append]
  obtain ⟨hqueue, -, ⟨r, hdrain, hdone⟩ | ⟨hretry, hdrain, hdone⟩⟩ := caught_cases h
  · rw [hdone]
    exact .complete i r hd hdrain hqueue
  · rw [hdone]
    exact .backOff i hd hretry hdrain hqueue

theorem react_move {q q' : Queue} {e : Event} {done : Completion}
    (h : q.react e = some (q', done)) :
    Move q q' (attemptMarks q.drain q'.drain ++ completionMarks done) := by
  unfold Queue.react at h
  split at h
  case h_1 hd =>
    cases h
    cases hq : q.queue with
    | nil =>
      obtain ⟨hq', hd', -⟩ := next_of_nil hq
      rw [hd, hd']
      exact .finish hd hq hq' hd'
    | cons i rest =>
      obtain ⟨hq', hd', -⟩ := next_of_cons hq
      rw [attemptMarks, hd, current_of_attempted hd']
      exact .take i hd (by rw [hq, hq']) hd'
  case h_2 i n hd | h_4 i hd =>
    cases h
    rw [attemptMarks, hd]
    exact .proceed i (by rw [hd]; rfl) rfl rfl
  case h_3 i errMsg hd | h_5 i errMsg hd | h_8 i errMsg hd =>
    exact caught_move (by rw [hd]; rfl) (Option.some.inj h)
  case h_6 i hd => exact caught_move (by rw [hd]; rfl) (Option.some.inj h)
  case h_7 i r hd =>
    split at h
    · cases h
      rw [attemptMarks, hd]
      exact .complete i _ (by rw [hd]; rfl) rfl rfl
    · cases h
      rw [attemptMarks, hd]
      exact .complete i _ (by rw [hd]; rfl) rfl rfl
  case h_9 i hd =>
    cases h
    rw [attemptMarks, hd]
    exact .wake i hd rfl rfl
  case h_10 => cases h

/-- A push, or the end of a wait. -/
def QueueStep (q : Queue) (marks : List Mark) (q' : Queue) : Prop :=
  (∃ recipient data label, q' = q.push recipient data label ∧
    marks = .pushed ⟨recipient, data, label, 0⟩ :: attemptMarks q.drain q'.drain) ∨
  Move q q' marks

/-! ### There is one loop -/

/-- The loops are those of the queue: none while it is stopped, and otherwise one. -/
structure OneLoop (rt : Runtime) (q : Queue) : Prop where
  queue : rt.queue = q.queue
  nonce : rt.nonce = q.nonce
  loops : (q.drain = .stopped ∧ rt.processing = false ∧ rt.loops = []) ∨
    (q.drain ≠ .stopped ∧ rt.processing = true ∧ rt.loops = [q.drain])

theorem attemptMarks_self (d : Drain) : attemptMarks d d = [] := by
  cases d <;> rfl

theorem OneLoop.view {rt : Runtime} {q : Queue} (h : OneLoop rt q) : rt.view q.drain = q := by
  rw [Runtime.view, h.queue, h.nonce]

theorem push_not_stopped (q : Queue) (recipient data label : JsString) :
    (q.push recipient data label).drain ≠ .stopped := by
  by_cases h : q.drain = .stopped
  · rw [push_of_stopped h]
    obtain ⟨i, rest, hcons⟩ := List.exists_cons_of_ne_nil
      (List.append_ne_nil_of_right_ne_nil q.queue
        (List.cons_ne_nil (⟨recipient, data, label, 0⟩ : TxIntent) []))
    obtain ⟨-, hnext, -⟩ := next_of_cons (q := { q with queue := q.queue ++ _ }) hcons
    intro hstopped
    rw [hstopped] at hnext
    cases hnext
  · rw [push_of_busy h]
    exact h

theorem OneLoop.push {rt rt' : Runtime} {q : Queue} {marks : List Mark}
    {recipient data label : JsString} (h : OneLoop rt q)
    (hstep : rt.push recipient data label = (rt', marks)) :
    ∃ q', QueueStep q marks q' ∧ OneLoop rt' q' := by
  unfold Runtime.push at hstep
  rcases h.loops with ⟨hd, hp, hl⟩ | ⟨hd, hp, hl⟩
  · rw [hp, if_neg Bool.false_ne_true, ← hd, h.view] at hstep
    obtain ⟨rfl, rfl⟩ := Prod.mk.inj hstep
    exact ⟨q.push recipient data label, .inl ⟨recipient, data, label, rfl, rfl⟩, rfl, rfl,
      .inr ⟨push_not_stopped q _ _ _, rfl, by rw [hl]; rfl⟩⟩
  · rw [hp, if_pos rfl] at hstep
    obtain ⟨rfl, rfl⟩ := Prod.mk.inj hstep
    refine ⟨q.push recipient data label, .inl ⟨recipient, data, label, rfl, ?_⟩, ?_⟩
    · rw [push_of_busy hd, attemptMarks_self]
    · rw [push_of_busy hd]
      exact ⟨by rw [h.queue], h.nonce, .inr ⟨hd, rfl, hl⟩⟩

theorem OneLoop.react {rt rt' : Runtime} {q : Queue} {marks : List Mark} {index : ℕ} {e : Event}
    (h : OneLoop rt q) (hstep : rt.react index e = some (rt', marks)) :
    ∃ q', QueueStep q marks q' ∧ OneLoop rt' q' := by
  simp only [Runtime.react, Option.bind_eq_bind, Option.bind_eq_some_iff, Prod.exists] at hstep
  obtain ⟨loop, hloop, q', done, hreact, hout⟩ := hstep
  rcases h.loops with ⟨-, -, hl⟩ | ⟨hd, hp, hl⟩
  · rw [hl] at hloop
    cases hloop
  · rw [hl, List.getElem?_singleton] at hloop
    split_ifs at hloop with hindex
    obtain rfl := Option.some.inj hloop
    subst hindex
    rw [h.view] at hreact
    refine ⟨q', .inr ?_, ?_⟩
    · have hmove := react_move hreact
      split at hout
      · obtain ⟨-, rfl⟩ := Prod.mk.inj (Option.some.inj hout)
        exact hmove
      · obtain ⟨-, rfl⟩ := Prod.mk.inj (Option.some.inj hout)
        exact hmove
    · split at hout
      · rename_i hstopped
        obtain ⟨rfl, -⟩ := Prod.mk.inj (Option.some.inj hout)
        exact ⟨rfl, rfl, .inl ⟨hstopped, rfl, by rw [hl]; rfl⟩⟩
      · rename_i hrunning
        obtain ⟨rfl, -⟩ := Prod.mk.inj (Option.some.inj hout)
        exact ⟨rfl, rfl, .inr ⟨hrunning, hp, by rw [hl]; rfl⟩⟩

theorem OneLoop.step {rt rt' : Runtime} {q : Queue} {l : Input × List Mark} (h : OneLoop rt q)
    (hstep : RuntimeStep rt l rt') : ∃ q', QueueStep q l.2 q' ∧ OneLoop rt' q' := by
  obtain ⟨input, marks⟩ := l
  cases input with
  | push recipient data label => exact h.push hstep
  | wait index e => exact h.react hstep

/-! ### The tally of the queue -/

/-- The attempts a queue has made for its oldest intent. -/
def Queue.tries (q : Queue) : ℕ :=
  match q.drain.attempted with
  | some i => i.retries + 1
  | none => (q.outstanding.head?.map TxIntent.retries).getD 0

/-- The tally is that of the queue: every intent is completed or outstanding, in order, and only
the oldest outstanding one has been tried. -/
structure Ledger (t : Tally) (q : Queue) : Prop where
  idle : q.drain = .stopped → q.queue = []
  kept : t.pushed = t.completed.map (fun c => c.intent.original) ++
    q.outstanding.map TxIntent.original
  done : ∀ c ∈ t.completed,
    c.attempts.length ≤ 3 ∧ ∀ a ∈ c.attempts, a.original = c.intent.original
  tries : t.attempts.length = q.tries
  same : ∀ a ∈ t.attempts, ∃ i, q.outstanding.head? = some i ∧ a.original = i.original
  bound : ∀ i, q.outstanding.head? = some i → i.retries ≤ 2
  fresh : ∀ i ∈ q.outstanding.tail, i.retries = 0

section Outstanding
variable {q : Queue} {i : TxIntent}

theorem outstanding_of_attempted (h : q.drain.attempted = some i) :
    q.outstanding = i :: q.queue := by
  rw [Queue.outstanding, current_of_attempted h]
  rfl

theorem outstanding_between (h : q.drain = .between) : q.outstanding = q.queue := by
  rw [Queue.outstanding, h]
  rfl

theorem outstanding_backingOff (h : q.drain = .backingOff i) : q.outstanding = i :: q.queue := by
  rw [Queue.outstanding, h]
  rfl

theorem outstanding_stopped (h : q.drain = .stopped) : q.outstanding = q.queue := by
  rw [Queue.outstanding, h]
  rfl

theorem tries_of_attempted (h : q.drain.attempted = some i) : q.tries = i.retries + 1 := by
  rw [Queue.tries, h]

theorem tries_of_not_attempted (h : q.drain.attempted = none) :
    q.tries = (q.outstanding.head?.map TxIntent.retries).getD 0 := by
  rw [Queue.tries, h]

end Outstanding

theorem ledger_start : Ledger .empty .start where
  idle _ := rfl
  kept := rfl
  done c hc := by cases hc
  tries := rfl
  same a ha := by cases ha
  bound i hi := by cases hi
  fresh i hi := by cases hi

section Moves
variable {t : Tally} {q q' : Queue}

/-- A step that leaves the outstanding intents and the number of attempts alone. -/
theorem Ledger.unchanged (h : Ledger t q) (hidle : q'.drain = .stopped → q'.queue = [])
    (hout : q'.outstanding = q.outstanding) (htries : q'.tries = q.tries) : Ledger t q' where
  idle := hidle
  kept := by rw [hout, h.kept]
  done := h.done
  tries := by rw [htries, h.tries]
  same := by rw [hout]; exact h.same
  bound := by rw [hout]; exact h.bound
  fresh := by rw [hout]; exact h.fresh

theorem not_stopped_of_attempted {i : TxIntent} (h : q.drain.attempted = some i) :
    q.drain ≠ .stopped := by
  intro hd
  rw [hd] at h
  cases h

theorem Ledger.take {i : TxIntent} (h : Ledger t q) (hd : q.drain = .between)
    (hq : q.queue = i :: q'.queue) (hd' : q'.drain.attempted = some i) :
    Ledger (t.mark (.attempt i)) q' := by
  have hout : q.outstanding = i :: q'.queue := by rw [outstanding_between hd, hq]
  have hout' : q'.outstanding = q.outstanding := by rw [outstanding_of_attempted hd', hout]
  have htries : t.attempts.length = i.retries := by
    rw [h.tries, tries_of_not_attempted (by rw [hd]; rfl), hout]
    rfl
  refine ⟨fun hs => absurd hs (not_stopped_of_attempted hd'), by rw [hout']; exact h.kept, h.done,
    ?_, ?_, by rw [hout']; exact h.bound, by rw [hout']; exact h.fresh⟩
  · rw [Tally.mark, List.length_append, List.length_singleton, htries, tries_of_attempted hd']
  · intro a ha
    rw [hout']
    rcases List.mem_append.mp ha with ha | ha
    · exact h.same a ha
    · rw [List.mem_singleton.mp ha, hout]
      exact ⟨i, rfl, rfl⟩

theorem Ledger.backOff {i : TxIntent} (h : Ledger t q) (hd : q.drain.attempted = some i)
    (hi : i.retries < 2) (hd' : q'.drain = .backingOff { i with retries := i.retries + 1 })
    (hq : q'.queue = q.queue) : Ledger t q' := by
  have hout := outstanding_of_attempted hd
  have hout' := outstanding_backingOff hd'
  rw [hq] at hout'
  have htries : q'.tries = i.retries + 1 := by
    rw [tries_of_not_attempted (by rw [hd']; rfl), hout']
    rfl
  refine ⟨fun hs => ?_, ?_, h.done, ?_, ?_, ?_, ?_⟩
  · rw [hd'] at hs
    cases hs
  · rw [h.kept, hout, hout']
    rfl
  · rw [h.tries, tries_of_attempted hd, htries]
  · intro a ha
    obtain ⟨j, hj, hsame⟩ := h.same a ha
    rw [hout] at hj
    obtain rfl := Option.some.inj hj
    exact ⟨{ i with retries := i.retries + 1 }, by rw [hout']; rfl, hsame⟩
  · intro j hj
    rw [hout'] at hj
    obtain rfl := Option.some.inj hj
    exact hi
  · have hfresh := h.fresh
    rw [hout] at hfresh
    rw [hout']
    exact hfresh

theorem Ledger.complete {i : TxIntent} {r : TxResult} (h : Ledger t q)
    (hd : q.drain.attempted = some i) (hd' : q'.drain = .between) (hq : q'.queue = q.queue) :
    Ledger (t.mark (.completed i r)) q' := by
  have hout := outstanding_of_attempted hd
  have hout' : q'.outstanding = q.queue := by rw [outstanding_between hd', hq]
  have hfresh := h.fresh
  rw [hout, List.tail_cons] at hfresh
  have hbound := h.bound i (by rw [hout]; rfl)
  refine ⟨fun hs => ?_, ?_, ?_, ?_, fun a ha => ?_, ?_, ?_⟩
  · rw [hd'] at hs
    cases hs
  · rw [Tally.mark, hout', h.kept, hout]
    simp
  · intro c hc
    rcases List.mem_append.mp hc with hc | hc
    · exact h.done c hc
    · rw [List.mem_singleton.mp hc]
      refine ⟨?_, ?_⟩
      · rw [h.tries, tries_of_attempted hd]
        omega
      · intro a ha
        obtain ⟨j, hj, hsame⟩ := h.same a ha
        rw [hout] at hj
        obtain rfl := Option.some.inj hj
        exact hsame
  · rw [tries_of_not_attempted (by rw [hd']; rfl), hout']
    cases hhead : q.queue.head? with
    | none => rfl
    | some j =>
      rw [Option.map_some, hfresh j (List.mem_of_mem_head? hhead)]
      rfl
  · cases ha
  · intro j hj
    rw [hout'] at hj
    rw [hfresh j (List.mem_of_mem_head? hj)]
    omega
  · intro j hj
    rw [hout'] at hj
    exact hfresh j (List.mem_of_mem_tail hj)

theorem Ledger.move {marks : List Mark} (h : Ledger t q) (hmove : Move q q' marks) :
    Ledger (t.markAll marks) q' := by
  cases hmove with
  | finish hd hq hq' hd' =>
    apply h.unchanged (fun _ => hq')
    · rw [outstanding_stopped hd', hq', outstanding_between hd, hq]
    · rw [tries_of_not_attempted (by rw [hd']; rfl), tries_of_not_attempted (by rw [hd]; rfl),
        outstanding_stopped hd', hq', outstanding_between hd, hq]
  | take i hd hq hd' => exact h.take hd hq hd'
  | proceed i hd hd' hq =>
    apply h.unchanged (fun hs => absurd hs (not_stopped_of_attempted hd'))
    · rw [outstanding_of_attempted hd', outstanding_of_attempted hd, hq]
    · rw [tries_of_attempted hd', tries_of_attempted hd]
  | backOff i hd hi hd' hq => exact h.backOff hd hi hd' hq
  | complete i r hd hd' hq => exact h.complete hd hd' hq
  | wake i hd hd' hq =>
    have hout : q'.outstanding = q.outstanding := by
      rw [outstanding_between hd', hq, outstanding_backingOff hd]
    apply h.unchanged _ hout
    · rw [tries_of_not_attempted (by rw [hd']; rfl), tries_of_not_attempted (by rw [hd]; rfl), hout]
    · intro hs
      rw [hd'] at hs
      cases hs

theorem Ledger.push_busy (h : Ledger t q) (hd : q.drain ≠ .stopped) {i : TxIntent}
    (hi : i.retries = 0) :
    Ledger (t.mark (.pushed i)) { q with queue := q.queue ++ [i] } := by
  have horiginal : i.original = i := by
    obtain ⟨recipient, data, label, retries⟩ := i
    dsimp only at hi
    rw [hi]
    rfl
  have hout : Queue.outstanding { q with queue := q.queue ++ [i] } = q.outstanding ++ [i] := by
    simp [Queue.outstanding]
  -- An intent pushed behind others changes nothing for the oldest, and one pushed to an empty
  -- queue is fresh.
  have hhead : ∀ j, (q.outstanding ++ [i]).head? = some j →
      q.outstanding.head? = some j ∨ (q.outstanding = [] ∧ j = i) := by
    intro j hj
    cases hq : q.outstanding with
    | nil =>
      rw [hq] at hj
      exact .inr ⟨rfl, (Option.some.inj hj).symm⟩
    | cons k rest =>
      rw [hq] at hj
      exact .inl hj
  refine ⟨fun hs => absurd hs hd, ?_, h.done, ?_, ?_, ?_, ?_⟩
  · rw [Tally.mark, hout, h.kept]
    simp [horiginal]
  · rw [Tally.mark, h.tries, Queue.tries, Queue.tries, hout]
    cases q.drain.attempted with
    | some j => rfl
    | none =>
      cases hq : q.outstanding with
      | nil => simp [hi]
      | cons k rest => rfl
  · intro a ha
    obtain ⟨j, hj, hsame⟩ := h.same a ha
    refine ⟨j, ?_, hsame⟩
    rw [hout, List.head?_append, hj, Option.some_or]
  · intro j hj
    rw [hout] at hj
    rcases hhead j hj with hj | ⟨-, rfl⟩
    · exact h.bound j hj
    · omega
  · intro j hj
    rw [hout] at hj
    have hfresh := h.fresh
    cases hq : q.outstanding with
    | nil =>
      rw [hq] at hj
      cases hj
    | cons k rest =>
      rw [hq, List.cons_append, List.tail_cons] at hj
      rw [hq, List.tail_cons] at hfresh
      rcases List.mem_append.mp hj with hj | hj
      · exact hfresh j hj
      · rw [List.mem_singleton.mp hj, hi]

theorem Ledger.push (h : Ledger t q) (recipient data label : JsString) :
    Ledger (t.markAll (.pushed ⟨recipient, data, label, 0⟩ ::
      attemptMarks q.drain (q.push recipient data label).drain)) (q.push recipient data label) := by
  by_cases hd : q.drain = .stopped
  · -- The loop starts and takes the intent at once, as if it had waited between two intents.
    have hbetween : Ledger t { q with drain := .between } := by
      apply h.unchanged
      · intro hs
        cases hs
      · rw [outstanding_stopped hd]
        rfl
      · rw [tries_of_not_attempted rfl, tries_of_not_attempted (by rw [hd]; rfl),
          outstanding_stopped hd]
        rfl
    have hpushed := hbetween.push_busy (i := ⟨recipient, data, label, 0⟩) (by simp) rfl
    have hcons : Queue.queue { q with queue := q.queue ++ [⟨recipient, data, label, 0⟩] } =
        [⟨recipient, data, label, 0⟩] := by
      rw [h.idle hd]
      rfl
    obtain ⟨hqueue, hattempted, -⟩ := next_of_cons hcons
    have hmarks : attemptMarks q.drain
        (Queue.next { q with queue := q.queue ++ [⟨recipient, data, label, 0⟩] }).drain =
          [.attempt ⟨recipient, data, label, 0⟩] := by
      rw [attemptMarks, current_of_attempted hattempted, hd]
      rfl
    rw [push_of_stopped hd, hmarks]
    apply hpushed.take rfl _ hattempted
    rw [hqueue]
    exact hcons
  · rw [push_of_busy hd, attemptMarks_self]
    exact h.push_busy hd rfl

theorem Ledger.step {marks : List Mark} (h : Ledger t q) (hstep : QueueStep q marks q') :
    Ledger (t.markAll marks) q' := by
  rcases hstep with ⟨recipient, data, label, rfl, rfl⟩ | hmove
  · exact h.push recipient data label
  · exact h.move hmove

end Moves

/-! ### Runs -/

/-- At every moment of every run there is at most one loop, and it runs as long as anything is
outstanding; what was pushed is what was completed followed by what is outstanding, in order; and
no intent was tried more than three times. -/
theorem intents_complete_once {labels : List (Input × List Mark)} {rt : Runtime}
    (run : Run Runtime.start RuntimeStep labels rt) :
    rt.loops.length ≤ 1 ∧ (rt.loops = [] → rt.outstanding = []) ∧
      (tally labels).pushed = (tally labels).completed.map (fun c => c.intent.original) ++
        rt.outstanding.map TxIntent.original ∧
      (∀ c ∈ (tally labels).completed,
        c.attempts.length ≤ 3 ∧ ∀ a ∈ c.attempts, a.original = c.intent.original) ∧
      (tally labels).attempts.length ≤ 3 ∧
      ∀ a ∈ (tally labels).attempts, ∃ i, rt.outstanding.head? = some i ∧
        a.original = i.original := by
  have hledger : ∃ q, OneLoop rt q ∧ Ledger (tally labels) q := by
    induction run with
    | start => exact ⟨.start, ⟨rfl, rfl, .inl ⟨rfl, rfl, rfl⟩⟩, ledger_start⟩
    | step before now ih =>
      obtain ⟨q, hloop, hledger⟩ := ih
      obtain ⟨q', hstep, hloop'⟩ := hloop.step now
      exact ⟨q', hloop', hledger.step hstep⟩
  obtain ⟨q, hloop, hledger⟩ := hledger
  have hout : rt.outstanding = q.outstanding := by
    rcases hloop.loops with ⟨hd, -, hl⟩ | ⟨-, -, hl⟩
    · rw [Runtime.outstanding, hl, hloop.queue, outstanding_stopped hd]
      rfl
    · rw [Runtime.outstanding, hl, hloop.queue, Queue.outstanding, List.flatMap_singleton]
  have htries : q.tries ≤ 3 := by
    unfold Queue.tries
    cases hd : q.drain.attempted with
    | some i =>
      have hbound := hledger.bound i (by rw [outstanding_of_attempted hd]; rfl)
      dsimp only
      omega
    | none =>
      cases hhead : q.outstanding.head? with
      | none => simp
      | some i =>
        have hbound := hledger.bound i hhead
        simp only [Option.map_some, Option.getD_some]
        omega
  rw [hout]
  refine ⟨?_, ?_, hledger.kept, hledger.done, by rw [hledger.tries]; exact htries, hledger.same⟩
  · rcases hloop.loops with ⟨-, -, hl⟩ | ⟨-, -, hl⟩
    · rw [hl]
      exact Nat.zero_le _
    · rw [hl]
      exact le_rfl
  · intro hnone
    rcases hloop.loops with ⟨hd, -, -⟩ | ⟨-, -, hl⟩
    · rw [outstanding_stopped hd, hledger.idle hd]
    · rw [hl] at hnone
      cases hnone

section Example

/-- A second intent is pushed while the first one waits for its retry. -/
def demoInputs : List Input :=
  [.push [1] [] [10], .wait 0 (.nonceRead 7), .wait 0 (.failed [0]), .push [2] [] [20],
    .wait 0 .woke, .wait 0 .resumed, .wait 0 .sent, .wait 0 (.receipt (some ⟨some 1, [9]⟩)),
    .wait 0 .resumed]

def runInput (rt : Runtime) : Input → Option (Runtime × List Mark)
  | .push recipient data label => some (rt.push recipient data label)
  | .wait index e => rt.react index e

/-- The labels of the inputs, the newest first, and where they lead. -/
def runInputs : List Input → Option (List (Input × List Mark) × Runtime)
  | [] => some ([], .start)
  | input :: older => do
    let (labels, rt) ← runInputs older
    let (rt', marks) ← runInput rt input
    some ((input, marks) :: labels, rt')

theorem run_of_runInputs {inputs : List Input} {labels : List (Input × List Mark)} {rt : Runtime}
    (h : runInputs inputs = some (labels, rt)) : Run Runtime.start RuntimeStep labels rt := by
  induction inputs generalizing labels rt with
  | nil =>
    obtain ⟨rfl, rfl⟩ := Prod.mk.inj (Option.some.inj h)
    exact .start
  | cons input older ih =>
    simp only [runInputs, Option.bind_eq_bind, Option.bind_eq_some_iff, Prod.exists] at h
    obtain ⟨labels', rt', hbefore, rt'', marks, hnow, hout⟩ := h
    obtain ⟨rfl, rfl⟩ := Prod.mk.inj (Option.some.inj hout)
    refine .step (ih hbefore) ?_
    cases input with
    | push recipient data label => exact Option.some.inj hnow
    | wait index e => exact hnow

theorem intents_complete_once_demo :
    ∃ labels rt, Run Runtime.start RuntimeStep labels rt ∧
      (tally labels).completed.length = 1 ∧ rt.outstanding.length = 1 ∧ rt.loops.length ≤ 1 := by
  have hdemo : (runInputs demoInputs.reverse).map (fun r =>
      ((tally r.1).completed.length, r.2.outstanding.length)) = some (1, 1) := by decide
  obtain ⟨⟨labels, rt⟩, hrun, hcounts⟩ := Option.map_eq_some_iff.mp hdemo
  have run := run_of_runInputs hrun
  obtain ⟨hcompleted, houtstanding⟩ := Prod.mk.inj hcounts
  exact ⟨labels, rt, run, hcompleted, houtstanding, (intents_complete_once run).1⟩

end Example

end Nuntius.TxQueue
