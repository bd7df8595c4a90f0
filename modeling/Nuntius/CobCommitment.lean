import Nuntius.BookReader
import Nuntius.RestPath

/-!
# What the consolidated path commits to

The price and the count come from the books that pass the per-venue gate, the hash and
the clock from all books that were read. The two agree exactly when the gate rejects
no book.
-/

namespace Nuntius.OracleCycle
open WireFormat Aggregator CobCommon ConsolidatedBook

section Gate
variable {F : Type} [F64 F]

/-- The samples that reach the deviation filter of the gate. -/
def saneMids (books : List (OrderBookSnapshot F)) : List (PricePoint F) :=
  sanitize (books.filterMap midPoint)

def gateMedian (samples : List (PricePoint F)) : F :=
  middleFloat (sortFloats (samples.map PricePoint.price))

def gateThreshold (samples : List (PricePoint F)) : F :=
  outlierThreshold (gateMedian samples)
    (medianSorted ((sortFloats (samples.map PricePoint.price)).map
      (fun p => F64.abs (p - gateMedian samples)))) (F64.lit cobMidOutlierSigma) 0

/-- The deviation filter keeps this price. -/
def PassesDeviation (samples : List (PricePoint F)) (price : F) : Prop :=
  samples.length < 3 ∨ F64.isFinite (gateThreshold samples) = false ∨
    F64.le (F64.abs (price - gateMedian samples)) (gateThreshold samples) = true

/-- The gate keeps every book: each has a sane middle that the deviation filter keeps. -/
def RejectsNone (books : List (OrderBookSnapshot F)) : Prop :=
  ∀ b ∈ books, ∃ p, midPoint b = some p ∧ isSane p = true ∧ PassesDeviation (saneMids books) p.price

theorem mem_rejectOutliers {samples : List (PricePoint F)} {p : PricePoint F} :
    p ∈ rejectOutliers samples (F64.lit cobMidOutlierSigma) ↔
      p ∈ samples ∧ PassesDeviation samples p.price := by
  unfold rejectOutliers rejectOutliersWithCap PassesDeviation
  by_cases hlen : samples.length < 3
  · simp [hlen]
  · rw [if_neg hlen]
    change p ∈ (if F64.isFinite (gateThreshold samples) = true then
      samples.filter
        (fun p => F64.le (F64.abs (p.price - gateMedian samples)) (gateThreshold samples))
      else samples) ↔ _
    cases hfin : F64.isFinite (gateThreshold samples) with
    | true => simp [hlen, List.mem_filter]
    | false => simp

theorem midPoint_source {b : OrderBookSnapshot F} {p : PricePoint F} (h : midPoint b = some p) :
    p.source = b.source := by
  unfold midPoint at h
  cases hbid : b.bids.head? with
  | none => simp [hbid] at h
  | some bid =>
    cases hask : b.asks.head? with
    | none => simp [hbid, hask] at h
    | some ask =>
      simp only [hbid, hask, Option.bind_eq_bind, Option.bind_some, Option.some.injEq] at h
      rw [← h]

@[simp] theorem repairVolume_price (p : PricePoint F) : (repairVolume p).price = p.price := by
  unfold repairVolume
  split <;> rfl

@[simp] theorem repairVolume_source (p : PricePoint F) : (repairVolume p).source = p.source := by
  unfold repairVolume
  split <;> rfl

/-- With distinct sources a book is kept through its own sample only. -/
theorem mem_cleaned_sources {books : List (OrderBookSnapshot F)}
    (hdistinct : (books.map OrderBookSnapshot.source).Nodup) {b : OrderBookSnapshot F}
    (hb : b ∈ books) :
    b.source ∈ (cleanedMids books).map PricePoint.source ↔
      ∃ p, midPoint b = some p ∧ isSane p = true ∧ PassesDeviation (saneMids books) p.price := by
  constructor
  · intro hsource
    obtain ⟨p, hp, hpb⟩ := List.mem_map.mp hsource
    obtain ⟨hsane, hpass⟩ := mem_rejectOutliers.mp hp
    obtain ⟨q, hq, rfl⟩ := List.mem_map.mp hsane
    obtain ⟨hmid, hqsane⟩ := List.mem_filter.mp hq
    obtain ⟨b', hb', hqb'⟩ := List.mem_filterMap.mp hmid
    have hsrc : b'.source = b.source := by
      rw [← midPoint_source hqb', ← hpb, repairVolume_source]
    obtain rfl : b' = b := List.inj_on_of_nodup_map hdistinct hb' hb hsrc
    exact ⟨q, hqb', hqsane, by simpa [saneMids] using hpass⟩
  · rintro ⟨p, hmid, hsane, hpass⟩
    refine List.mem_map.mpr ⟨repairVolume p, mem_rejectOutliers.mpr ⟨?_, ?_⟩, ?_⟩
    · exact List.mem_map_of_mem
        (List.mem_filter.mpr ⟨List.mem_filterMap.mpr ⟨b, hb, hmid⟩, hsane⟩)
    · simpa [saneMids] using hpass
    · rw [repairVolume_source, midPoint_source hmid]

theorem survivingBooks_eq_iff {books : List (OrderBookSnapshot F)}
    (hdistinct : (books.map OrderBookSnapshot.source).Nodup) :
    survivingBooks books = books ↔ RejectsNone books := by
  rw [survivingBooks, List.filter_eq_self]
  constructor
  · intro h b hb
    exact (mem_cleaned_sources hdistinct hb).mp (of_decide_eq_true (h b hb))
  · intro h b hb
    exact decide_eq_true ((mem_cleaned_sources hdistinct hb).mpr (h b hb))

end Gate

section Commitment
variable {F : Type} [F64 F] {H : Digests F}

/-- The bytes that the commitment to a list of books hashes. -/
def commitmentBytes (H : Digests F) (books : List (OrderBookSnapshot F)) : List UInt8 :=
  (hashPoints 0 books).flatMap H.entry

/-- The time of a sample is not hashed. -/
theorem sourcesHash_hashPoints (ts : ℕ) (books : List (OrderBookSnapshot F)) :
    sourcesHash H (hashPoints ts books) = H.keccak256 (commitmentBytes H books) := by
  simp only [sourcesHash, commitmentBytes, hashPoints, List.flatMap_map]
  rfl

/-- Dropping an element whose image is not empty shortens the flattened list. -/
theorem eq_of_length_flatMap {α β : Type} {f : α → List β} (hf : ∀ a, f a ≠ []) {l l' : List α}
    (hsub : l.Sublist l') (hlen : (l.flatMap f).length = (l'.flatMap f).length) : l = l' := by
  have hle : ∀ {l l' : List α}, l.Sublist l' → (l.flatMap f).length ≤ (l'.flatMap f).length := by
    intro l l' h
    induction h with
    | slnil => exact le_rfl
    | cons a _ ih =>
      simp only [List.flatMap_cons, List.length_append]
      omega
    | cons_cons a _ ih =>
      simp only [List.flatMap_cons, List.length_append]
      omega
  induction hsub with
  | slnil => rfl
  | cons a hsub ih =>
    have hpos := List.length_pos_iff.mpr (hf a)
    have := hle hsub
    simp only [List.flatMap_cons, List.length_append] at hlen
    omega
  | cons_cons a hsub ih =>
    simp only [List.flatMap_cons, List.length_append, Nat.add_left_cancel_iff] at hlen
    rw [ih hlen]

theorem eq_of_commitmentBytes {kept books : List (OrderBookSnapshot F)} (hsub : kept.Sublist books)
    (h : commitmentBytes H books = commitmentBytes H kept) : kept = books := by
  simp only [commitmentBytes, hashPoints, List.flatMap_map] at h
  exact eq_of_length_flatMap (fun b => by simp [Digests.entry]) hsub (congrArg List.length h.symm)

/-- Everything the consolidated path puts into a stored price besides the price. -/
theorem cobCached_eq_some {asset : AssetConfig} {s : CycleState F}
    {books : List (OrderBookSnapshot F)} {c : CachedPrice F}
    (h : cobCached H asset s books = some c) :
    c.numSources = (survivingBooks books).length % 256 ∧
      c.sourcesHash = H.keccak256 (commitmentBytes H books) ∧
      cobSignedTs books = some c.signedTimestamp := by
  obtain ⟨raw, hraw, hfixed⟩ := Option.bind_eq_some_iff.mp h
  obtain ⟨priceFixed, -, rfl⟩ := Option.map_eq_some_iff.mp hfixed
  obtain ⟨fair, hfair, hmap⟩ := Option.bind_eq_some_iff.mp hraw
  obtain ⟨ts, hts, rfl⟩ := Option.map_eq_some_iff.mp hmap
  refine ⟨?_, sourcesHash_hashPoints ts books, hts⟩
  rw [numSources_of_gated hfair]

/-- The count is always that of the books that passed the gate. The hash and the clock are
theirs exactly when the gate rejected none, unless the two hashed inputs collide. -/
theorem cob_commits_to_survivors_iff (asset : AssetConfig) (s : CycleState F)
    {books : List (OrderBookSnapshot F)} (hdistinct : (books.map OrderBookSnapshot.source).Nodup)
    (hcollision : H.keccak256 (commitmentBytes H books) =
      H.keccak256 (commitmentBytes H (survivingBooks books)) →
      commitmentBytes H books = commitmentBytes H (survivingBooks books))
    {c : CachedPrice F} (h : cobCached H asset s books = some c) :
    c.numSources = (survivingBooks books).length % 256 ∧
      ((c.sourcesHash = sourcesHash H (hashPoints c.signedTimestamp (survivingBooks books)) ∧
        cobSignedTs (survivingBooks books) = some c.signedTimestamp) ↔ RejectsNone books) := by
  obtain ⟨hcount, hhash, hts⟩ := cobCached_eq_some h
  refine ⟨hcount, ?_⟩
  rw [← survivingBooks_eq_iff hdistinct, hhash, sourcesHash_hashPoints]
  constructor
  · rintro ⟨hsame, -⟩
    exact eq_of_commitmentBytes List.filter_sublist (hcollision hsame)
  · intro hall
    rw [hall]
    exact ⟨rfl, hts⟩

end Commitment

/-! ### A rejected venue in the commitment -/

/-- A book as a collector stores it, in steps of `10 ^ -5` from its best bid. -/
def stored (venue : String) (ts bid : ℤ) : OrderBookData ExtRat :=
  { stampedBook venue ts with
    bids := [bid, bid - 1, bid - 2].map fun n => ⟨.fin (n / 10 ^ 5), .fin 1⟩
    asks := [bid + 1, bid + 2, bid + 3].map fun n => ⟨.fin (n / 10 ^ 5), .fin 1⟩ }

def honestVenues : List (OrderBookData ExtRat) :=
  [stored "a" 1700000000000 10000, stored "b" 1700000001000 10002,
    stored "c" 1700000002000 10001]

/-- The digests decide nothing about whether a price is stored. -/
theorem exists_cobCached {asset : AssetConfig} {s : CycleState ExtRat}
    {books : List (OrderBookSnapshot ExtRat)}
    (h : (cobCached blankDigests asset s books).isSome = true) (H : Digests ExtRat) :
    ∃ c, cobCached H asset s books = some c := by
  rw [← Option.isSome_iff_exists, ← h]
  unfold cobCached
  cases cobRaw asset.minSources books with
  | none => rfl
  | some raw => simp

/-- Without a rejected book, hash and clock are those of the consolidated books, whatever the
digests. -/
theorem cob_commits_to_survivors_honest :
    let books := readBooksFiltered id "KAS" honestVenues
    books.map OrderBookSnapshot.source = ["a", "b", "c"] ∧
      ∀ H : Digests ExtRat, ∃ c, cobCached H demoAsset emptyState books = some c ∧
        c.sourcesHash = sourcesHash H (hashPoints c.signedTimestamp (survivingBooks books)) ∧
        cobSignedTs (survivingBooks books) = some c.signedTimestamp := by
  intro books
  have hdistinct : (books.map OrderBookSnapshot.source).Nodup := by decide +kernel
  have hall : survivingBooks books = books := by decide +kernel
  have hstored : (cobCached blankDigests demoAsset emptyState books).isSome = true := by
    decide +kernel
  refine ⟨by decide +kernel, ?_⟩
  intro H
  obtain ⟨c, hc⟩ := exists_cobCached hstored H
  have hcollision : commitmentBytes H books = commitmentBytes H (survivingBooks books) := by
    rw [hall]
  exact ⟨c, hc, (cob_commits_to_survivors_iff demoAsset emptyState hdistinct (fun _ => hcollision)
    hc).2.mpr ((survivingBooks_eq_iff hdistinct).mp hall)⟩

/-- Three honest venues and a rogue one, all of which the reader returns and the last of which
the gate rejects. The stored price counts three venues, but it hashes more than their bytes and
takes its time from all four, whatever the digests. -/
theorem cob_commits_to_rejected_venue :
    let books := readBooksFiltered id "KAS" (honestVenues ++ [stored "r" 1700000004000 20000])
    books.map OrderBookSnapshot.source = ["a", "b", "c", "r"] ∧
      (survivingBooks books).map OrderBookSnapshot.source = ["a", "b", "c"] ∧
      cobSignedTs (survivingBooks books) = some 1700000001 ∧
      ∀ H : Digests ExtRat, ∃ c, cobCached H demoAsset emptyState books = some c ∧
        c.numSources = 3 ∧ c.signedTimestamp = 1700000002 ∧
        c.sourcesHash = H.keccak256 (commitmentBytes H books) ∧
        commitmentBytes H books ≠ commitmentBytes H (survivingBooks books) := by
  intro books
  have hread : books.map OrderBookSnapshot.source = ["a", "b", "c", "r"] := by decide +kernel
  have hkept : (survivingBooks books).map OrderBookSnapshot.source = ["a", "b", "c"] := by
    decide +kernel
  have hstored : (cobCached blankDigests demoAsset emptyState books).isSome = true := by
    decide +kernel
  refine ⟨hread, hkept, by decide +kernel, ?_⟩
  intro H
  obtain ⟨c, hc⟩ := exists_cobCached hstored H
  obtain ⟨hcount, hhash, hts⟩ := cobCached_eq_some hc
  have hclock : cobSignedTs books = some 1700000002 := by decide +kernel
  refine ⟨c, hc, ?_, Option.some.inj (hts.symm.trans hclock), hhash, ?_⟩
  · rw [hcount, ← List.length_map, hkept]
    rfl
  · intro hsame
    have hall := eq_of_commitmentBytes List.filter_sublist hsame
    have hsources := congrArg (List.map OrderBookSnapshot.source) hall
    rw [hread] at hsources
    exact absurd (hkept.symm.trans hsources) (by decide)

end Nuntius.OracleCycle
