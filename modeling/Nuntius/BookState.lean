import Nuntius.BookReader
import Nuntius.LabelledRuns
import Nuntius.OrderedDicts
import Nuntius.SelfDelimiting

/-!
# The shared state of the books

All collectors write into one map, the latest book of each venue and symbol, and the pricing code
reads from it. Every thousandth insertion sweeps the map: what lies more than a minute from the
median of the timestamps is dropped, on either side of it. There is no clock, so what a sweep
keeps depends on what the venues have claimed.

The order of the entries stands for the iteration order of the map, which is arbitrary; what is
read is stated for the values in any order.
-/

namespace Nuntius.CobState
open CobCommon ConsolidatedBook OrderStatistics OrderedDicts LabelledRuns SelfDelimiting

variable {F : Type}

/-! ### The state -/

abbrev Books (F : Type) := OrderedDict String (OrderBookData F)

/-- The map and the counter of insertions. -/
structure BookState (F : Type) where
  books : Books F
  insertCount : UInt64

def newShared : BookState F := ⟨∅, 0⟩

def pruneEveryN : UInt64 := 1000

def defaultMaxAgeMs : I64 := I64.wrap 60000

def keyOf (exchangeId symbol : String) : String := exchangeId ++ ":" ++ symbol

def bookKey (book : OrderBookData F) : String := keyOf book.exchangeId book.symbol

def values (books : Books F) : List (OrderBookData F) := books.entries.map Sigma.snd

/-- The positive timestamps of the map. -/
def timestamps (books : Books F) : List I64 :=
  ((values books).map OrderBookData.exchangeTimestamp).filter fun t => decide (0 < t.val)

/-- Their upper median. -/
def referenceNowMs (books : Books F) : Option I64 :=
  if (timestamps books).isEmpty then none
  else (sorted (timestamps books))[(timestamps books).length / 2]?

/-- The test of `retain`. -/
def isKept (referenceMs maxAgeMs : I64) (book : OrderBookData F) : Bool :=
  if book.exchangeTimestamp.val ≤ 0 then false
  else decide ((referenceMs.sub book.exchangeTimestamp).abs.val ≤ maxAgeMs.val)

/-- The map after the sweep and the number of books dropped. -/
def pruneInPlace (books : Books F) (referenceMs maxAgeMs : I64) : Books F × ℕ :=
  let kept := retain (fun entry => isKept referenceMs maxAgeMs entry.2) books
  (kept, books.entries.length - kept.entries.length)

/-- Every thousandth insertion but the first sweeps the map. -/
def insert (state : BookState F) (book : OrderBookData F) : BookState F :=
  let books := state.books.insert (bookKey book) book
  let n := state.insertCount
  let books :=
    if 0 < n ∧ n % pruneEveryN = 0 then
      match referenceNowMs books with
      | some referenceMs => (pruneInPlace books referenceMs defaultMaxAgeMs).1
      | none => books
    else books
  ⟨books, n + 1⟩

def prune (state : BookState F) (maxAgeMs : I64) : BookState F × Option ℕ :=
  match referenceNowMs state.books with
  | none => (state, none)
  | some referenceMs =>
    let (books, removed) := pruneInPlace state.books referenceMs maxAgeMs
    ({ state with books := books }, some removed)

/-! ### Runs -/

inductive Event (F : Type) where
  | insert (book : OrderBookData F)
  | prune (maxAgeMs : I64)

def step (state : BookState F) : Event F → BookState F
  | .insert book => insert state book
  | .prune maxAgeMs => (prune state maxAgeMs).1

def BookRun : List (Event F) → BookState F → Prop :=
  Run newShared fun state e state' => state' = step state e

/-- The state after any events, the newest first. -/
def stateAfter (labels : List (Event F)) : BookState F :=
  labels.foldr (fun e s => step s e) newShared

theorem bookRun_stateAfter (labels : List (Event F)) : BookRun labels (stateAfter labels) := by
  induction labels with
  | nil => exact .start
  | cons e older ih => exact .step ih rfl

theorem BookRun.eq_stateAfter {labels : List (Event F)} {state : BookState F}
    (run : BookRun labels state) : state = stateAfter labels := by
  refine Run.unique ?_ run (bookRun_stateAfter labels)
  rintro s l s₁ s₂ rfl rfl
  rfl

/-- The map once the book of an event is in it, before any sweep. -/
def entered (books : Books F) : Event F → Books F
  | .insert book => books.insert (bookKey book) book
  | .prune _ => books

/-- An event that sweeps, if there is a timestamp to go by. -/
def Due (state : BookState F) : Event F → Prop
  | .insert _ => 0 < state.insertCount ∧ state.insertCount % pruneEveryN = 0
  | .prune _ => True

def Event.maxAge : Event F → I64
  | .insert _ => defaultMaxAgeMs
  | .prune maxAgeMs => maxAgeMs

/-- What an event does to the map. -/
theorem step_books (state : BookState F) (e : Event F) :
    (step state e).books = entered state.books e ∨
      ∃ referenceMs, Due state e ∧ referenceNowMs (entered state.books e) = some referenceMs ∧
        (step state e).books =
          retain (fun entry => isKept referenceMs e.maxAge entry.2) (entered state.books e) := by
  cases e with
  | insert book =>
    simp only [step, insert, entered, Due, Event.maxAge]
    by_cases hdue : 0 < state.insertCount ∧ state.insertCount % pruneEveryN = 0
    · rw [if_pos hdue]
      cases href : referenceNowMs (state.books.insert (bookKey book) book) with
      | none => exact .inl rfl
      | some referenceMs => exact .inr ⟨referenceMs, hdue, rfl, rfl⟩
    · rw [if_neg hdue]
      exact .inl rfl
  | prune maxAgeMs =>
    simp only [step, prune, entered, Due, Event.maxAge]
    cases href : referenceNowMs state.books with
    | none => exact .inl rfl
    | some referenceMs => exact .inr ⟨referenceMs, trivial, rfl, rfl⟩

/-- A book is there after an event if it was there before a sweep that keeps it. -/
theorem lookup_step {state : BookState F} {e : Event F} {key : String} {book : OrderBookData F}
    (h : (step state e).books.lookup key = some book) :
    (entered state.books e).lookup key = some book := by
  obtain hsame | ⟨referenceMs, -, -, hswept⟩ := step_books state e
  · rwa [hsame] at h
  · rw [hswept, lookup_retain, Option.filter_eq_some_iff] at h
    exact h.1

/-! ### The reference -/

theorem timestamps_pos {books : Books F} : ∀ t ∈ timestamps books, 0 < t.val := by
  intro t ht
  simpa using (List.mem_filter.mp ht).2

/-- The sweep goes by the same median as the reader. -/
theorem referenceNowMs_eq (books : Books F) :
    referenceNowMs books = ConsolidatedBook.referenceNowMs (timestamps books) := by
  rw [referenceNowMs_of_pos timestamps_pos, referenceNowMs]
  cases hts : timestamps books with
  | nil => rfl
  | cons t rest => rfl

theorem referenceNowMs_pos {books : Books F} {referenceMs : I64}
    (h : referenceNowMs books = some referenceMs) : 0 < referenceMs.val := by
  unfold referenceNowMs at h
  split at h
  · cases h
  · exact timestamps_pos referenceMs (mem_sorted.mp (List.mem_of_getElem? h))

/-- The test of a sweep as it reads, since no subtraction overflows. -/
theorem isKept_iff {referenceMs maxAgeMs : I64} (href : 0 < referenceMs.val)
    {book : OrderBookData F} :
    isKept referenceMs maxAgeMs book = true ↔
      0 < book.exchangeTimestamp.val ∧
        |referenceMs.val - book.exchangeTimestamp.val| ≤ maxAgeMs.val := by
  unfold isKept
  split
  · rename_i hle
    constructor
    · intro h
      cases h
    · intro h
      omega
  · rename_i hpos
    rw [not_le] at hpos
    obtain ⟨hmin, hmax⟩ := sub_fits href hpos
    have hsub : (referenceMs.sub book.exchangeTimestamp).val =
        referenceMs.val - book.exchangeTimestamp.val :=
      I64.wrap_val hmin ((le_abs_self _).trans hmax)
    have habs : (referenceMs.sub book.exchangeTimestamp).abs.val =
        |referenceMs.val - book.exchangeTimestamp.val| := by
      rw [I64.abs, hsub]
      have hlow : i64Min ≤ |referenceMs.val - book.exchangeTimestamp.val| :=
        le_trans (by decide) (abs_nonneg _)
      exact I64.wrap_val hlow hmax
    rw [habs, decide_eq_true_iff]
    exact ⟨fun h => ⟨hpos, h⟩, And.right⟩

/-- A strict majority of the timestamps within a window holds the reference there. -/
theorem referenceNowMs_majority {books : Books F} {lo hi : I64}
    (h : Majority (timestamps books) lo hi) :
    ∃ referenceMs, referenceNowMs books = some referenceMs ∧ lo.val ≤ referenceMs.val ∧
      referenceMs.val ≤ hi.val := by
  obtain ⟨ref, -, href, hlow, hhigh⟩ := referenceNowMs_of_majority timestamps_pos h
  exact ⟨ref, (referenceNowMs_eq books).trans href, hlow, hhigh⟩

/-! ### The latest books -/

/-- The last book that was inserted under a key; the newest event comes first. -/
def inserted (key : String) : List (Event F) → Option (OrderBookData F)
  | [] => none
  | .insert book :: older => if bookKey book = key then some book else inserted key older
  | .prune _ :: older => inserted key older

/-- The last book of a venue and a symbol. -/
def latest (exchangeId symbol : String) : List (Event F) → Option (OrderBookData F)
  | [] => none
  | .insert book :: older =>
    if book.exchangeId = exchangeId ∧ book.symbol = symbol then some book
    else latest exchangeId symbol older
  | .prune _ :: older => latest exchangeId symbol older

/-- The venues have no colon in their names. -/
def Plain (labels : List (Event F)) : Prop :=
  ∀ book, .insert book ∈ labels → ':' ∉ book.exchangeId.toList

/-- A key is read up to its first colon. -/
theorem keyOf_inj {exchangeId exchangeId' symbol symbol' : String}
    (h : ':' ∉ exchangeId.toList) (h' : ':' ∉ exchangeId'.toList) :
    keyOf exchangeId symbol = keyOf exchangeId' symbol' ↔
      exchangeId = exchangeId' ∧ symbol = symbol' := by
  constructor
  · intro heq
    have hlist : exchangeId.toList ++ [':'] ++ symbol.toList =
        exchangeId'.toList ++ [':'] ++ symbol'.toList := by
      simpa [keyOf, String.toList_append] using congrArg String.toList heq
    obtain ⟨hid, hsymbol⟩ := delimits_terminated ':' h h' hlist
    exact ⟨String.toList_inj.mp hid, String.toList_inj.mp hsymbol⟩
  · rintro ⟨rfl, rfl⟩
    rfl

theorem mem_of_inserted {key : String} {labels : List (Event F)} {book : OrderBookData F}
    (h : inserted key labels = some book) : .insert book ∈ labels ∧ bookKey book = key := by
  induction labels with
  | nil => cases h
  | cons e older ih =>
    cases e with
    | prune maxAgeMs =>
      obtain ⟨hmem, hkey⟩ := ih h
      exact ⟨List.mem_cons_of_mem _ hmem, hkey⟩
    | insert new =>
      rw [inserted] at h
      split at h
      · rename_i hkey
        cases h
        exact ⟨List.mem_cons_self, hkey⟩
      · obtain ⟨hmem, hkey⟩ := ih h
        exact ⟨List.mem_cons_of_mem _ hmem, hkey⟩

/-- Where no venue has a colon in its name, a key stands for one venue and one symbol. -/
theorem inserted_keyOf {labels : List (Event F)} (plain : Plain labels) {exchangeId : String}
    (h : ':' ∉ exchangeId.toList) (symbol : String) :
    inserted (keyOf exchangeId symbol) labels = latest exchangeId symbol labels := by
  induction labels with
  | nil => rfl
  | cons e older ih =>
    have hold := ih fun book hbook => plain book (List.mem_cons_of_mem _ hbook)
    cases e with
    | prune maxAgeMs => exact hold
    | insert book =>
      rw [inserted, latest, hold]
      refine if_congr ?_ rfl rfl
      exact keyOf_inj (plain book List.mem_cons_self) h

theorem latest_fields {exchangeId symbol : String} {labels : List (Event F)}
    {book : OrderBookData F} (h : latest exchangeId symbol labels = some book) :
    .insert book ∈ labels ∧ book.exchangeId = exchangeId ∧ book.symbol = symbol := by
  induction labels with
  | nil => cases h
  | cons e older ih =>
    cases e with
    | prune maxAgeMs =>
      obtain ⟨hmem, hfields⟩ := ih h
      exact ⟨List.mem_cons_of_mem _ hmem, hfields⟩
    | insert new =>
      rw [latest] at h
      split at h
      · rename_i hfields
        cases h
        exact ⟨List.mem_cons_self, hfields⟩
      · obtain ⟨hmem, hfields⟩ := ih h
        exact ⟨List.mem_cons_of_mem _ hmem, hfields⟩

/-- What is under a key before a sweep is what was last inserted there. -/
theorem inserted_of_entered {older : List (Event F)} {state : BookState F}
    (held : ∀ {key book}, state.books.lookup key = some book → inserted key older = some book)
    {e : Event F} {key : String} {book : OrderBookData F}
    (h : (entered state.books e).lookup key = some book) :
    inserted key (e :: older) = some book := by
  cases e with
  | prune maxAgeMs => exact held h
  | insert new =>
    rw [inserted]
    by_cases hkey : bookKey new = key
    · subst hkey
      have hnew : (state.books.insert (bookKey new) new).lookup (bookKey new) = some new :=
        AList.lookup_insert state.books
      rw [if_pos rfl, ← h]
      exact hnew.symm
    · have hold : (state.books.insert (bookKey new) new).lookup key = state.books.lookup key :=
        AList.lookup_insert_ne (Ne.symm hkey)
      rw [if_neg hkey]
      exact held (hold.symm.trans h)

theorem inserted_of_lookup {labels : List (Event F)} {state : BookState F}
    (run : BookRun labels state) :
    ∀ {key book}, state.books.lookup key = some book → inserted key labels = some book := by
  induction run with
  | start =>
    intro key book h
    simp [newShared] at h
  | step before now ih =>
    intro key book h
    subst now
    exact inserted_of_entered ih (lookup_step h)

theorem mem_values {books : Books F} {book : OrderBookData F} :
    book ∈ values books ↔ ∃ key, books.lookup key = some book := by
  constructor
  · intro h
    obtain ⟨⟨key, value⟩, hmem, rfl⟩ := List.mem_map.mp h
    exact ⟨key, AList.mem_lookup_iff.mpr hmem⟩
  · rintro ⟨key, h⟩
    exact List.mem_map.mpr ⟨⟨key, book⟩, AList.mem_lookup_iff.mp h, rfl⟩

/-- A sweep at this event finds the book under its key and does not keep it. -/
structure Drops (state : BookState F) (e : Event F) (book : OrderBookData F) (referenceMs : I64) :
    Prop where
  due : Due state e
  present : (entered state.books e).lookup (bookKey book) = some book
  reference : referenceNowMs (entered state.books e) = some referenceMs
  away : book.exchangeTimestamp.val ≤ 0 ∨
    e.maxAge.val < |referenceMs.val - book.exchangeTimestamp.val|

/-- One event either drops the book or leaves it to an earlier one to have done so. -/
theorem drops_of_missing {state : BookState F} {e : Event F} {key : String}
    {book : OrderBookData F} (hkey : bookKey book = key)
    (hin : (entered state.books e).lookup key = some book)
    (hout : (step state e).books.lookup key = none) :
    ∃ referenceMs, Drops state e book referenceMs := by
  subst hkey
  obtain hsame | ⟨referenceMs, hdue, href, hswept⟩ := step_books state e
  · rw [hsame, hin] at hout
    cases hout
  · rw [hswept, lookup_retain, hin] at hout
    have hnot : ¬ isKept referenceMs e.maxAge book = true := by
      intro hkept
      simp [Option.filter, hkept] at hout
    rw [isKept_iff (referenceNowMs_pos href), not_and_or, not_lt, not_le] at hnot
    exact ⟨referenceMs, hdue, hin, href, hnot⟩

/-- A book that was inserted last and is missing was dropped by a sweep. -/
theorem dropped_of_missing {labels : List (Event F)} {state : BookState F}
    (run : BookRun labels state) {key : String} {book : OrderBookData F}
    (hlast : inserted key labels = some book) (hout : state.books.lookup key = none) :
    ∃ newer e older before referenceMs, labels = newer ++ e :: older ∧ BookRun older before ∧
      Drops before e book referenceMs := by
  induction run with
  | start => cases hlast
  | @step older before after e beforeRun now ih =>
    subst now
    have hkey := (mem_of_inserted hlast).2
    cases hin : (entered before.books e).lookup key with
    | some found =>
      have hfound := inserted_of_entered (inserted_of_lookup beforeRun) hin
      obtain rfl : found = book := Option.some.inj (hfound.symm.trans hlast)
      obtain ⟨referenceMs, drops⟩ := drops_of_missing hkey hin hout
      exact ⟨[], e, older, before, referenceMs, rfl, beforeRun, drops⟩
    | none =>
      -- the event is not an insertion under this key, so the book was missing before it
      have hold : inserted key older = some book ∧ before.books.lookup key = none := by
        cases e with
        | prune maxAgeMs => exact ⟨hlast, hin⟩
        | insert new =>
          have hne : bookKey new ≠ key := by
            rintro rfl
            rw [entered, AList.lookup_insert] at hin
            cases hin
          rw [inserted, if_neg hne] at hlast
          rw [entered, AList.lookup_insert_ne (Ne.symm hne)] at hin
          exact ⟨hlast, hin⟩
      obtain ⟨newer, e', older', before', referenceMs, rfl, run', drops⟩ := ih hold.1 hold.2
      exact ⟨e :: newer, e', older', before', referenceMs, rfl, run', drops⟩

section Latest
variable {labels : List (Event F)} {state : BookState F}

theorem latest_of_values (run : BookRun labels state) (plain : Plain labels)
    {book : OrderBookData F} (hbook : book ∈ values state.books) :
    latest book.exchangeId book.symbol labels = some book := by
  obtain ⟨key, hlookup⟩ := mem_values.mp hbook
  have hlast := inserted_of_lookup run hlookup
  obtain ⟨hmem, rfl⟩ := mem_of_inserted hlast
  rw [← inserted_keyOf plain (plain book hmem)]
  exact hlast

theorem dropped_of_latest (run : BookRun labels state) (plain : Plain labels)
    {exchangeId symbol : String} {book : OrderBookData F}
    (hlatest : latest exchangeId symbol labels = some book) (hout : book ∉ values state.books) :
    ∃ newer e older before referenceMs, labels = newer ++ e :: older ∧ BookRun older before ∧
      Drops before e book referenceMs := by
  obtain ⟨hmem, rfl, rfl⟩ := latest_fields hlatest
  have hlast : inserted (bookKey book) labels = some book :=
    (inserted_keyOf plain (plain book hmem) _).trans hlatest
  apply dropped_of_missing run hlast
  cases hlookup : state.books.lookup (bookKey book) with
  | none => rfl
  | some found =>
    have hfound := inserted_of_lookup run hlookup
    obtain rfl : found = book := Option.some.inj (hfound.symm.trans hlast)
    exact absurd (mem_values.mpr ⟨_, hlookup⟩) hout

end Latest

/-- In every run the map holds of each venue and symbol only the last book that was inserted, and
one that is missing was found by a sweep without a timestamp or too far from the median. -/
theorem book_state_keeps_latest {labels : List (Event F)} {state : BookState F}
    (run : BookRun labels state) (plain : Plain labels) :
    (∀ book ∈ values state.books, latest book.exchangeId book.symbol labels = some book) ∧
      ∀ exchangeId symbol book, latest exchangeId symbol labels = some book →
        book ∉ values state.books →
        ∃ newer e older before referenceMs, labels = newer ++ e :: older ∧ BookRun older before ∧
          Drops before e book referenceMs :=
  ⟨fun _ hbook => latest_of_values run plain hbook,
    fun _ _ _ hlatest hout => dropped_of_latest run plain hlatest hout⟩

/-- Two books of the same hour and one of another age, then a sweep. -/
def threeBooks : List (Event ExtRat) :=
  [.prune defaultMaxAgeMs,
    .insert (stampedBook "c" 9000000000000000000),
    .insert (stampedBook "b" 1700000005000),
    .insert (stampedBook "a" 1700000000000)]

theorem plain_threeBooks : Plain threeBooks := by
  intro book h
  simp only [threeBooks, List.mem_cons, reduceCtorEq, Event.insert.injEq, List.not_mem_nil,
    false_or, or_false] at h
  obtain rfl | rfl | rfl := h
  · decide
  · decide
  · decide

theorem book_state_keeps_latest_three :
    ∃ newer e older before referenceMs, threeBooks = newer ++ e :: older ∧ BookRun older before ∧
      Drops before e (stampedBook "c" 9000000000000000000) referenceMs := by
  have hids : (values (stateAfter threeBooks).books).map OrderBookData.exchangeId = ["b", "a"] := by
    decide +kernel
  have hout : stampedBook "c" 9000000000000000000 ∉ values (stateAfter threeBooks).books := by
    intro hmem
    have hid : "c" ∈ (values (stateAfter threeBooks).books).map OrderBookData.exchangeId :=
      List.mem_map.mpr ⟨_, hmem, rfl⟩
    rw [hids] at hid
    exact absurd hid (by decide)
  exact (book_state_keeps_latest (bookRun_stateAfter threeBooks) plain_threeBooks).2 "c" "KAS_USDT"
    (stampedBook "c" 9000000000000000000) rfl hout

/-! ### What is read -/

/-- Whenever a sweep finds the book, a strict majority of the timestamps lies in a window all of
which is within the age allowed of the book. -/
structure Backed (labels : List (Event F)) (book : OrderBookData F) : Prop where
  dated : 0 < book.exchangeTimestamp.val
  majority : ∀ newer e older before, labels = newer ++ e :: older → BookRun older before →
    Due before e → (entered before.books e).lookup (bookKey book) = some book →
    ∃ lo hi, Majority (timestamps (entered before.books e)) lo hi ∧
      hi.val - e.maxAge.val ≤ book.exchangeTimestamp.val ∧
      book.exchangeTimestamp.val ≤ lo.val + e.maxAge.val

/-- No sweep drops a book that the majority backs. -/
theorem Backed.not_drops {labels : List (Event F)} {book : OrderBookData F}
    (backed : Backed labels book) {newer older : List (Event F)} {e : Event F}
    {before : BookState F} (heq : labels = newer ++ e :: older) (run : BookRun older before)
    {referenceMs : I64} (drops : Drops before e book referenceMs) : False := by
  obtain ⟨lo, hi, hmajority, hhigh, hlow⟩ :=
    backed.majority newer e older before heq run drops.due drops.present
  obtain ⟨ref, href, hlo, hhi⟩ := referenceNowMs_majority hmajority
  obtain rfl : ref = referenceMs := Option.some.inj (href.symm.trans drops.reference)
  have hdated := backed.dated
  obtain hnone | haway := drops.away
  · omega
  · have hnear : |ref.val - book.exchangeTimestamp.val| ≤ e.maxAge.val := by
      rw [abs_le]
      constructor <;> omega
    omega

section Read
variable [F64 F] {toUppercase : String → String} {symbolFilter : String}
  {books : List (OrderBookData F)}

theorem candidate_of_read {s : OrderBookSnapshot F}
    (hs : s ∈ readBooksFiltered toUppercase symbolFilter books) :
    ∃ book ∈ books, isCandidate toUppercase symbolFilter book = true ∧
      s = snapshotOf toUppercase book ∧ isBookUsable s = true := by
  cases href : ConsolidatedBook.referenceNowMs (candidateTs toUppercase symbolFilter books) with
  | none =>
    rw [readBooksFiltered, href] at hs
    cases hs
  | some referenceMs =>
    have hmem := (readBooksFiltered_perm href).mem_iff.mp hs
    rw [freshSnapshots_eq] at hmem
    obtain ⟨hsnapshot, husable⟩ := List.mem_filter.mp hmem
    obtain ⟨book, hbook, rfl⟩ := List.mem_map.mp hsnapshot
    obtain ⟨hmem, hcandidate⟩ := List.mem_filter.mp (List.mem_filter.mp hbook).1
    exact ⟨book, hmem, hcandidate, rfl, husable⟩

/-- A strict majority of the candidates that agree within five seconds is read. -/
theorem read_of_majority {honest : List (OrderBookData F)} (hnodup : honest.Nodup)
    (hsub : ∀ b ∈ honest, b ∈ candidates toUppercase symbolFilter books)
    (hmore : (candidates toUppercase symbolFilter books).length < 2 * honest.length)
    (hagree : ∀ b ∈ honest, ∀ b' ∈ honest,
      |b.exchangeTimestamp.val - b'.exchangeTimestamp.val| ≤ maxBookAgeMs) :
    ((honest.map (snapshotOf toUppercase)).filter isBookUsable).Subperm
      (readBooksFiltered toUppercase symbolFilter books) := by
  obtain ⟨part, hperm, hpart⟩ := List.subperm_of_subset hnodup hsub
  have hlength : (candidates toUppercase symbolFilter books).length < 2 * part.length := by
    rwa [hperm.length_eq]
  obtain ⟨first, hfirst, last, hlast, hrange, hkept⟩ :=
    exists_majority OrderBookData.exchangeTimestamp hlength
  obtain ⟨ref, hmem, href, hlow, hhigh⟩ :=
    referenceNowMs_of_majority candidateTs_pos (hkept _ hpart hlength)
  have hread : ((part.map (snapshotOf toUppercase)).filter isBookUsable).Subperm
      (readBooksFiltered toUppercase symbolFilter books) := by
    apply returned_of_fresh href hpart
    intro b hb
    rw [freshBookAgeMs_iff (candidateTs_pos ref hmem) (pos_of_mem_candidates (hpart.subset hb))]
    have hwidth := abs_le.mp (hagree last (hperm.subset hlast) first (hperm.subset hfirst))
    obtain ⟨hb₁, hb₂⟩ := hrange b hb
    rw [I64.le_iff] at hb₁ hb₂ hlow hhigh
    unfold maxBookAgeMs at hwidth
    rw [abs_le]
    constructor <;> omega
  exact ((hperm.map _).filter _).symm.subperm.trans hread

end Read

/-- In every run the reader gets no book but the last one of its venue and symbol, and where the
latest books of a strict majority of an asset's candidates agree within five seconds and had the
majority behind them at every sweep, all of them that are usable are read. -/
theorem reader_sees_latest [F64 F] {labels : List (Event F)} {state : BookState F}
    (run : BookRun labels state) (plain : Plain labels) {books : List (OrderBookData F)}
    (hperm : books.Perm (values state.books)) (toUppercase : String → String)
    (symbolFilter : String) :
    (∀ s ∈ readBooksFiltered toUppercase symbolFilter books, ∃ book,
      latest book.exchangeId book.symbol labels = some book ∧
      isCandidate toUppercase symbolFilter book = true ∧ s = snapshotOf toUppercase book ∧
      isBookUsable s = true) ∧
    ∀ honest : List (OrderBookData F), honest.Nodup →
      (∀ b ∈ honest, latest b.exchangeId b.symbol labels = some b ∧ Backed labels b ∧
        isCandidate toUppercase symbolFilter b = true) →
      (candidates toUppercase symbolFilter books).length < 2 * honest.length →
      (∀ b ∈ honest, ∀ b' ∈ honest,
        |b.exchangeTimestamp.val - b'.exchangeTimestamp.val| ≤ 5000) →
      ((honest.map (snapshotOf toUppercase)).filter isBookUsable).Subperm
        (readBooksFiltered toUppercase symbolFilter books) := by
  refine ⟨?_, ?_⟩
  · intro s hs
    obtain ⟨book, hbook, hcandidate, hsnapshot, husable⟩ := candidate_of_read hs
    have hlatest := latest_of_values run plain (hperm.mem_iff.mp hbook)
    exact ⟨book, hlatest, hcandidate, hsnapshot, husable⟩
  · intro honest hnodup hhonest hmore hagree
    refine read_of_majority hnodup ?_ hmore hagree
    intro b hb
    obtain ⟨hlatest, backed, hcandidate⟩ := hhonest b hb
    refine List.mem_filter.mpr ⟨hperm.mem_iff.mpr ?_, hcandidate⟩
    by_contra hout
    obtain ⟨newer, e, older, before, referenceMs, heq, run', drops⟩ :=
      dropped_of_latest run plain hlatest hout
    exact backed.not_drops heq run' drops

theorem backed_threeBooks {book : OrderBookData ExtRat} (dated : 0 < book.exchangeTimestamp.val)
    (late : 1699999945000 ≤ book.exchangeTimestamp.val)
    (early : book.exchangeTimestamp.val ≤ 1700000060000) : Backed threeBooks book := by
  refine ⟨dated, ?_⟩
  intro newer e older before heq run hdue _
  rw [run.eq_stateAfter] at hdue ⊢
  have hmajority : Majority (timestamps (stateAfter threeBooks.tail).books)
      (I64.wrap 1700000000000) (I64.wrap 1700000005000) := by decide +kernel
  -- the sweep is the last of the four events, and no insertion is due to make one
  rcases newer with _ | ⟨e₁, _ | ⟨e₂, _ | ⟨e₃, _ | ⟨e₄, newer⟩⟩⟩⟩
  · obtain ⟨rfl, rfl⟩ := List.cons.inj heq
    refine ⟨_, _, hmajority, ?_, ?_⟩
    · exact le_trans (by decide) late
    · exact early.trans (by decide)
  · obtain ⟨-, heq⟩ := List.cons.inj heq
    obtain ⟨rfl, rfl⟩ := List.cons.inj heq
    exact absurd hdue (by decide : ¬ ((0 : UInt64) < 2 ∧ 2 % pruneEveryN = 0))
  · obtain ⟨-, heq⟩ := List.cons.inj heq
    obtain ⟨-, heq⟩ := List.cons.inj heq
    obtain ⟨rfl, rfl⟩ := List.cons.inj heq
    exact absurd hdue (by decide : ¬ ((0 : UInt64) < 1 ∧ 1 % pruneEveryN = 0))
  · obtain ⟨-, heq⟩ := List.cons.inj heq
    obtain ⟨-, heq⟩ := List.cons.inj heq
    obtain ⟨-, heq⟩ := List.cons.inj heq
    obtain ⟨rfl, rfl⟩ := List.cons.inj heq
    exact absurd hdue (by decide : ¬ ((0 : UInt64) < 0 ∧ 0 % pruneEveryN = 0))
  · have hlength := congrArg List.length heq
    simp [threeBooks] at hlength

theorem reader_sees_latest_three :
    (([stampedBook "a" 1700000000000, stampedBook "b" 1700000005000].map (snapshotOf id)).filter
      isBookUsable).Subperm
        (readBooksFiltered id "KAS" (values (stateAfter threeBooks).books)) := by
  have hnodup : [stampedBook "a" 1700000000000, stampedBook "b" 1700000005000].Nodup := by
    have hne : stampedBook "a" 1700000000000 ≠ stampedBook "b" 1700000005000 := by
      intro h
      exact absurd (congrArg OrderBookData.exchangeId h) (by decide)
    simp [hne]
  refine (reader_sees_latest (bookRun_stateAfter threeBooks) plain_threeBooks (List.Perm.refl _) id
    "KAS").2 _ hnodup ?_ (by decide +kernel) (by decide +kernel)
  intro b hb
  obtain rfl | hb := List.mem_cons.mp hb
  · exact ⟨rfl, backed_threeBooks (by decide) (by decide) (by decide), by decide +kernel⟩
  · rw [List.mem_singleton.mp hb]
    exact ⟨rfl, backed_threeBooks (by decide) (by decide) (by decide), by decide +kernel⟩

end Nuntius.CobState
