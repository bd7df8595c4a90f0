import Mathlib.Data.List.TakeWhile

/-!
# Words between separators

A list is split at every separator and the empty parts are dropped. What the first and the second
word are is said without the splitting: a word is a maximal run of elements that do not separate.
-/

namespace Nuntius.SeparatedWords

variable {α : Type} (sep : α → Bool)

/-- The parts between separators that are not empty. -/
def words (l : List α) : List (List α) := (l.splitOnP sep).filter fun part => !part.isEmpty

/-- `word` is the first word of `l`: separators in front of it and, unless the list ends, one
behind it. -/
structure FirstWord (l word rest : List α) : Prop where
  word_ne_nil : word ≠ []
  word_plain : ∀ a ∈ word, sep a = false
  rest_separated : ∀ a tail, rest = a :: tail → sep a = true
  split : ∃ lead, (∀ a ∈ lead, sep a = true) ∧ l = lead ++ (word ++ rest)

/-- `word` is the second word of `l`. -/
def SecondWord (l word : List α) : Prop :=
  ∃ first rest rest', FirstWord sep l first rest ∧ FirstWord sep rest word rest'

variable {sep}

@[simp] theorem words_nil : words sep [] = [] := by
  rw [words, List.splitOnP_nil]
  rfl

theorem words_cons_of_sep {a : α} (h : sep a = true) (l : List α) :
    words sep (a :: l) = words sep l := by
  have hsplit := List.splitOnP_append_cons ([] : List α) l h
  rw [List.nil_append, List.splitOnP_nil] at hsplit
  rw [words, hsplit, List.filter_append]
  rfl

theorem words_append_of_sep {lead : List α} (h : ∀ a ∈ lead, sep a = true) (l : List α) :
    words sep (lead ++ l) = words sep l := by
  induction lead with
  | nil => rfl
  | cons a lead ih =>
    rw [List.cons_append, words_cons_of_sep (h a List.mem_cons_self)]
    exact ih fun b hb => h b (List.mem_cons_of_mem a hb)

theorem FirstWord.words_eq {l word rest : List α} (h : FirstWord sep l word rest) :
    words sep l = word :: words sep rest := by
  obtain ⟨lead, hlead, rfl⟩ := h.split
  have hword : (!word.isEmpty) = true := by
    rw [Bool.not_eq_true', List.isEmpty_eq_false_iff]
    exact h.word_ne_nil
  rw [words_append_of_sep hlead]
  cases rest with
  | nil =>
    rw [List.append_nil, words_nil, words, List.splitOnP_eq_singleton h.word_plain,
      List.filter_cons, if_pos hword]
    rfl
  | cons a rest =>
    have ha := h.rest_separated a rest rfl
    rw [words_cons_of_sep ha, words, List.splitOnP_append_cons_of_forall_mem h.word_plain a ha,
      List.filter_cons, if_pos hword]
    rfl

/-- A list with a word has a first one. -/
theorem exists_firstWord {l : List α} (h : words sep l ≠ []) :
    ∃ word rest, FirstWord sep l word rest := by
  have hlead : ∀ a ∈ l.takeWhile sep, sep a = true := fun a ha => List.mem_takeWhile_imp ha
  have hsplit : l.takeWhile sep ++ l.dropWhile sep = l := List.takeWhile_append_dropWhile
  have hne : l.dropWhile sep ≠ [] := by
    intro hnil
    rw [hnil] at hsplit
    rw [← hsplit, words_append_of_sep hlead] at h
    exact h words_nil
  have hhead : sep ((l.dropWhile sep).head hne) = false := List.head_dropWhile_not sep hne
  generalize l.dropWhile sep = tail at hsplit hne hhead
  refine ⟨tail.takeWhile (!sep ·), tail.dropWhile (!sep ·), ?_, ?_, ?_, _, hlead, ?_⟩
  · cases tail with
    | nil => exact absurd rfl hne
    | cons a tail =>
      rw [List.head_cons] at hhead
      rw [List.takeWhile_cons_of_pos (by rw [hhead]; rfl)]
      exact List.cons_ne_nil _ _
  · intro a ha
    have := List.mem_takeWhile_imp ha
    rwa [Bool.not_eq_true'] at this
  · intro a rest hrest
    have hnot := List.head_dropWhile_not (!sep ·) (hrest ▸ List.cons_ne_nil a rest)
    simpa [hrest] using hnot
  · rw [List.takeWhile_append_dropWhile, hsplit]

/-- The second of the parts that are not empty is the second word. -/
theorem words_second {l word : List α} :
    (words sep l)[1]? = some word ↔ SecondWord sep l word := by
  constructor
  · intro h
    have hne : words sep l ≠ [] := by
      intro hnil
      rw [hnil] at h
      cases h
    obtain ⟨first, rest, hfirst⟩ := exists_firstWord hne
    rw [hfirst.words_eq, List.getElem?_cons_succ] at h
    have hne' : words sep rest ≠ [] := by
      intro hnil
      rw [hnil] at h
      cases h
    obtain ⟨second, rest', hsecond⟩ := exists_firstWord hne'
    rw [hsecond.words_eq, List.getElem?_cons_zero] at h
    obtain rfl := Option.some.inj h
    exact ⟨first, rest, rest', hfirst, hsecond⟩
  · rintro ⟨first, rest, rest', hfirst, hsecond⟩
    rw [hfirst.words_eq, hsecond.words_eq]
    rfl

end Nuntius.SeparatedWords
