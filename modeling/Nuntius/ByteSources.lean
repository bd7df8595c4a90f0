import Mathlib.Data.List.Basic

/-!
# Byte streams that arrive in pieces

What a connection delivers is a list of bytes, cut into pieces the reader does not choose, and
then an ending. A read returns what is left of the piece at hand, up to the size asked for. The
loop that fills a buffer hides the cuts: its outcome depends on the bytes alone. On the other side
a sink takes bytes in order and may stop taking them after any byte.
-/

namespace Nuntius.ByteSources

/-- How a stream ends: it is closed, it fails, or nothing more ever arrives and a read waits. -/
inductive Ending where
  | closed
  | broken
  | silent
deriving DecidableEq, Repr

/-- The bytes still to come. An empty piece is a wait or an interrupted call: it delivers
nothing. -/
structure Source where
  pieces : List (List UInt8)
  ending : Ending
deriving DecidableEq, Repr

namespace Source

def bytes (s : Source) : List UInt8 := s.pieces.flatten

/-- What one read of at most `n` bytes finds, and the pieces behind it. -/
def next (n : ℕ) : List (List UInt8) → Option (List UInt8 × List (List UInt8))
  | [] => none
  | [] :: rest => next n rest
  | (b :: piece) :: rest => some ((b :: piece).take n, (b :: piece).drop n :: rest)

/-- One read. At the end of the stream it reports the ending; a closed stream is the read of
zero bytes. -/
def read (n : ℕ) (s : Source) : Except Ending (List UInt8) × Source :=
  match next n s.pieces with
  | none => (.error s.ending, { s with pieces := [] })
  | some (got, rest) => (.ok got, { s with pieces := rest })

theorem next_eq_none {n : ℕ} {pieces : List (List UInt8)} (h : pieces.flatten = []) :
    next n pieces = none := by
  induction pieces with
  | nil => rfl
  | cons piece pieces ih =>
    rw [List.flatten_cons, List.append_eq_nil_iff] at h
    rw [h.1]
    exact ih h.2

theorem next_eq_some {n : ℕ} (hn : 0 < n) {pieces : List (List UInt8)}
    (h : pieces.flatten ≠ []) :
    ∃ got rest, next n pieces = some (got, rest) ∧ got ≠ [] ∧ got.length ≤ n ∧
      pieces.flatten = got ++ rest.flatten := by
  induction pieces with
  | nil => exact absurd rfl h
  | cons piece pieces ih =>
    cases piece with
    | nil => exact ih h
    | cons b piece =>
      refine ⟨_, _, rfl, ?_, List.length_take_le n _, ?_⟩
      · rw [← List.length_pos_iff, List.length_take, List.length_cons]
        omega
      · rw [List.flatten_cons, List.flatten_cons, ← List.append_assoc, List.take_append_drop]

@[simp] theorem read_ending (n : ℕ) (s : Source) : (s.read n).2.ending = s.ending := by
  unfold read
  split <;> rfl

theorem read_of_nil {n : ℕ} {s : Source} (h : s.bytes = []) :
    (s.read n).1 = .error s.ending ∧ (s.read n).2.bytes = [] := by
  unfold read
  rw [next_eq_none h]
  exact ⟨rfl, rfl⟩

/-- While there are bytes, a read makes progress. -/
theorem read_of_ne_nil {n : ℕ} (hn : 0 < n) {s : Source} (h : s.bytes ≠ []) :
    ∃ got, (s.read n).1 = .ok got ∧ got ≠ [] ∧ got.length ≤ n ∧
      s.bytes = got ++ (s.read n).2.bytes := by
  obtain ⟨got, rest, hnext, hne, hle, hbytes⟩ := next_eq_some hn h
  unfold read
  rw [hnext]
  exact ⟨got, rfl, hne, hle, hbytes⟩

theorem read_of_eq_ok {n : ℕ} (hn : 0 < n) {s : Source} {got : List UInt8}
    (h : (s.read n).1 = .ok got) :
    got ≠ [] ∧ got.length ≤ n ∧ s.bytes = got ++ (s.read n).2.bytes := by
  have hne : s.bytes ≠ [] := by
    intro hnil
    rw [(read_of_nil hnil).1] at h
    cases h
  obtain ⟨got', hgot, hspec⟩ := read_of_ne_nil hn hne
  obtain rfl := Except.ok.inj (hgot.symm.trans h)
  exact hspec

theorem read_shrinks {n : ℕ} (hn : 0 < n) {s : Source} {got : List UInt8}
    (h : (s.read n).1 = .ok got) : (s.read n).2.bytes.length < s.bytes.length := by
  obtain ⟨hne, -, hbytes⟩ := read_of_eq_ok hn h
  have hlen := congrArg List.length hbytes
  have hpos := List.length_pos_iff.mpr hne
  rw [List.length_append] at hlen
  omega

/-- A read of one byte takes the first one. -/
theorem read_one {s : Source} {b : UInt8} {rest : List UInt8} (h : s.bytes = b :: rest) :
    (s.read 1).1 = .ok [b] ∧ (s.read 1).2.bytes = rest := by
  obtain ⟨got, hgot, hne, hle, hbytes⟩ :=
    read_of_ne_nil Nat.one_pos (h ▸ List.cons_ne_nil b rest : s.bytes ≠ [])
  obtain ⟨b', rfl⟩ : ∃ b', got = [b'] :=
    List.length_eq_one_iff.mp (Nat.le_antisymm hle (List.length_pos_iff.mpr hne))
  rw [h, List.singleton_append, List.cons.injEq] at hbytes
  rw [hgot, hbytes.1]
  exact ⟨rfl, hbytes.2.symm⟩

/-- `read_exact`: read until `n` bytes are there. -/
def readExact (n : ℕ) (s : Source) : Except Ending (List UInt8) × Source :=
  if hn : n = 0 then (.ok [], s)
  else
    match hread : (s.read n).1 with
    | .error e => (.error e, (s.read n).2)
    | .ok got =>
      have : n - got.length < n := by
        have hlen := List.length_pos_iff.mpr (read_of_eq_ok (Nat.pos_of_ne_zero hn) hread).1
        omega
      match (s.read n).2.readExact (n - got.length) with
      | (.error e, s') => (.error e, s')
      | (.ok more, s') => (.ok (got ++ more), s')
termination_by n

@[simp] theorem readExact_zero (s : Source) : s.readExact 0 = (.ok [], s) := by
  rw [readExact, dif_pos rfl]

theorem readExact_of_error {n : ℕ} (hn : n ≠ 0) {s : Source} {e : Ending}
    (h : (s.read n).1 = .error e) : s.readExact n = (.error e, (s.read n).2) := by
  rw [readExact, dif_neg hn]
  split
  · rename_i e' he
    rw [Except.error.inj (he.symm.trans h)]
  · rename_i got hgot
    cases hgot.symm.trans h

theorem readExact_of_ok {n : ℕ} (hn : n ≠ 0) {s : Source} {got : List UInt8}
    (h : (s.read n).1 = .ok got) :
    s.readExact n = (((s.read n).2.readExact (n - got.length)).1.map (got ++ ·),
      ((s.read n).2.readExact (n - got.length)).2) := by
  rw [readExact, dif_neg hn]
  split
  · rename_i e he
    cases he.symm.trans h
  · rename_i got' hgot
    obtain rfl := Except.ok.inj (hgot.symm.trans h)
    split <;> rename_i heq <;> rw [heq] <;> rfl

/-- The pieces do not matter: `n` bytes come if there are that many, and whatever came is gone. -/
theorem readExact_spec (n : ℕ) (s : Source) :
    (s.readExact n).1 = (if n ≤ s.bytes.length then .ok (s.bytes.take n) else .error s.ending) ∧
      (s.readExact n).2.bytes = s.bytes.drop n ∧ (s.readExact n).2.ending = s.ending := by
  induction n using Nat.strongRecOn generalizing s with
  | ind n ih =>
    by_cases hn : n = 0
    · subst hn
      simp
    · have hpos : 0 < n := Nat.pos_of_ne_zero hn
      by_cases hs : s.bytes = []
      · obtain ⟨hread, hrest⟩ := @read_of_nil n s hs
        rw [readExact_of_error hn hread, hrest, hs, read_ending, List.drop_nil]
        exact ⟨(if_neg (by rw [List.length_nil]; omega)).symm, rfl, rfl⟩
      · obtain ⟨got, hread, hne, hle, hbytes⟩ := read_of_ne_nil hpos hs
        have hlen := List.length_pos_iff.mpr hne
        obtain ⟨hfst, hrest, hend⟩ := ih (n - got.length) (by omega) (s.read n).2
        rw [readExact_of_ok hn hread, hfst, hrest, hend, read_ending, hbytes, List.length_append]
        refine ⟨?_, ?_, rfl⟩
        · by_cases hmany : n - got.length ≤ (s.read n).2.bytes.length
          · rw [if_pos hmany, if_pos (by omega), List.take_append,
              List.take_of_length_le hle]
            rfl
          · rw [if_neg hmany, if_neg (by omega)]
            rfl
        · rw [List.drop_append, List.drop_of_length_le hle, List.nil_append]

theorem readExact_of_le {n : ℕ} {s : Source} (h : n ≤ s.bytes.length) :
    s.readExact n = (.ok (s.bytes.take n), (s.readExact n).2) := by
  have hfst := (readExact_spec n s).1
  rw [if_pos h] at hfst
  exact Prod.ext hfst rfl

theorem readExact_of_lt {n : ℕ} {s : Source} (h : s.bytes.length < n) :
    s.readExact n = (.error s.ending, (s.readExact n).2) := by
  have hfst := (readExact_spec n s).1
  rw [if_neg (Nat.not_le.mpr h)] at hfst
  exact Prod.ext hfst rfl

@[simp] theorem readExact_bytes (n : ℕ) (s : Source) :
    (s.readExact n).2.bytes = s.bytes.drop n := (readExact_spec n s).2.1

@[simp] theorem readExact_ending (n : ℕ) (s : Source) :
    (s.readExact n).2.ending = s.ending := (readExact_spec n s).2.2

end Source

/-! ### The writing side -/

/-- What has been written, how many more bytes are taken if that is bounded, and whether a flush
succeeds. -/
structure Sink where
  written : List UInt8
  room : Option ℕ
  flushes : Bool
deriving DecidableEq, Repr

namespace Sink

/-- A sink that takes everything, such as a growing buffer. -/
def unbounded : Sink := ⟨[], none, true⟩

/-- `write_all`: the bytes, or as many of them as are taken before the failure. -/
def writeAll (bytes : List UInt8) (k : Sink) : Bool × Sink :=
  match k.room with
  | none => (true, { k with written := k.written ++ bytes })
  | some room =>
    if bytes.length ≤ room then
      (true, { k with written := k.written ++ bytes, room := some (room - bytes.length) })
    else (false, { k with written := k.written ++ bytes.take room, room := some 0 })

theorem writeAll_true {bytes : List UInt8} {k : Sink} (h : (k.writeAll bytes).1 = true) :
    (k.writeAll bytes).2.written = k.written ++ bytes := by
  unfold writeAll at h ⊢
  split at h <;> rename_i hroom
  · rfl
  · split_ifs at h ⊢
    rfl

/-- A failed write has delivered the beginning. -/
theorem writeAll_written (bytes : List UInt8) (k : Sink) :
    ∃ sent, sent <+: bytes ∧ (k.writeAll bytes).2.written = k.written ++ sent := by
  unfold writeAll
  split
  · exact ⟨bytes, List.prefix_rfl, rfl⟩
  · rename_i room _
    split_ifs
    · exact ⟨bytes, List.prefix_rfl, rfl⟩
    · exact ⟨bytes.take room, List.take_prefix room bytes, rfl⟩

end Sink

end Nuntius.ByteSources
