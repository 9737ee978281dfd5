import Mathlib.Data.List.Flatten

/-!
# Uniquely decodable codes

A set of words is uniquely decodable when a sequence of letters comes from at most one list of
words. A set in which no word continues where another could start is an example.
-/
namespace Koja.Lib

open List

variable {α : Type*}

theorem intercalate_eq_flatMap (separator first : List α) (rest : List (List α)) :
    separator.intercalate (first :: rest) = first ++ rest.flatMap (separator ++ ·) := by
  induction rest generalizing first with
  | nil => simp
  | cons _ _ ih =>
    rw [intercalate_cons_of_ne_nil (by simp), ih]
    simp

/-- Where the letters with a property end is read off a text. -/
theorem split_unique {p : α → Prop} {first second rest rest' : List α} (all : ∀ a ∈ first, p a)
    (allSecond : ∀ a ∈ second, p a) (ends : ∀ a ∈ rest.head?, ¬p a)
    (ends' : ∀ a ∈ rest'.head?, ¬p a) (same : first ++ rest = second ++ rest') :
    first = second ∧ rest = rest' := by
  induction first generalizing second with
  | nil =>
    cases second with
    | nil => exact ⟨rfl, same⟩
    | cons a =>
      rw [nil_append] at same
      exact absurd (allSecond a (by simp)) (ends a (by rw [same]; rfl))
  | cons a _ ih =>
    rw [forall_mem_cons] at all
    cases second with
    | nil =>
      rw [nil_append] at same
      exact absurd all.1 (ends' a (by rw [← same]; rfl))
    | cons =>
      rw [forall_mem_cons] at allSecond
      simp only [cons_append, List.cons.injEq] at same
      obtain ⟨rfl, rfl⟩ := ih all.2 allSecond.2 same.2
      exact ⟨by rw [same.1], rfl⟩

/-- Two lists of code words with the same letters are the same list. -/
def UniquelyDecodable (word : List α → Prop) : Prop :=
  ∀ first second : List (List α), (∀ w ∈ first, word w) → (∀ w ∈ second, word w) →
    first.flatten = second.flatten → first = second

/-- Words with the same letters and the same lengths are cut at the same places. -/
theorem UniquelyDecodable.pieces {β : Type*} {word : List α → Prop}
    (decodable : UniquelyDecodable word) {letter : β → α} {first second : List (List β)}
    (firstWords : ∀ piece ∈ first, word (piece.map letter))
    (secondWords : ∀ piece ∈ second, word (piece.map letter))
    (same : first.flatten = second.flatten) : first = second := by
  have words : first.map (List.map letter) = second.map (List.map letter) := by
    refine decodable _ _ ?_ ?_ ?_
    · simpa using firstWords
    · simpa using secondWords
    · rw [← map_flatten, ← map_flatten, same]
  rw [eq_iff_flatten_eq]
  refine ⟨same, ?_⟩
  have lengths := congrArg (List.map List.length) words
  simpa [Function.comp_def] using lengths

/-- What a set of words needs to be cut without looking ahead: after its second letter a word
has no letter that starts a word, and a word of one letter starts no longer word. -/
structure CutByStarts (word : List α → Prop) (starts : α → Prop) : Prop where
  nonempty : ∀ w, word w → w ≠ []
  first : ∀ c w, word (c :: w) → starts c
  inside : ∀ c d w, word (c :: d :: w) → ∀ e ∈ w, ¬starts e
  alone : ∀ c d w, word [c] → ¬word (c :: d :: w)

section Cut

variable {word : List α → Prop} {starts : α → Prop}

/-- A word is not longer than another that the same letters start with. -/
theorem CutByStarts.not_longer (cut : CutByStarts word starts) {w more : List α}
    {rest : List (List α)} {other : List α} (here : word w) (longer : word (w ++ more))
    (words : ∀ v ∈ rest, word v) (same : rest.flatten = more ++ other) : more = [] := by
  cases more with
  | nil => rfl
  | cons e more =>
    exfalso
    -- The next word of the other reading starts with `e`.
    have start : starts e := by
      induction rest with
      | nil => simp at same
      | cons v =>
        rw [forall_mem_cons] at words
        cases v with
        | nil => exact absurd rfl (cut.nonempty [] words.1)
        | cons c v =>
          simp only [flatten_cons, cons_append, List.cons.injEq] at same
          exact same.1 ▸ cut.first c v words.1
    match w, here, longer with
    | [], here, _ => exact cut.nonempty [] here rfl
    | [c], here, longer => exact cut.alone c e more here longer
    | c :: d :: w, _, longer => exact cut.inside c d (w ++ e :: more) longer e (by simp) start

theorem CutByStarts.uniquelyDecodable (cut : CutByStarts word starts) : UniquelyDecodable word := by
  intro left
  induction left with
  | nil =>
    intro right _ rightWords same
    cases right with
    | nil => rfl
    | cons w =>
      have empty : w = [] := by simp_all
      exact absurd empty (cut.nonempty w (rightWords w mem_cons_self))
  | cons w _ ih =>
    intro right leftWords rightWords same
    rw [forall_mem_cons] at leftWords
    cases right with
    | nil =>
      have empty : w = [] := by simp_all
      exact absurd empty (cut.nonempty w leftWords.1)
    | cons v right =>
      rw [forall_mem_cons] at rightWords
      rw [flatten_cons] at same
      have sameWord : w = v := by
        rcases append_eq_append_iff.mp same with ⟨more, rfl, rest⟩ | ⟨more, rfl, rest⟩
        · have empty := cut.not_longer leftWords.1 rightWords.1 leftWords.2 rest
          simp [empty]
        · have empty := cut.not_longer rightWords.1 leftWords.1 rightWords.2 rest
          simp [empty]
      subst sameWord
      rw [ih right leftWords.2 rightWords.2 (append_cancel_left same)]

end Cut

end Koja.Lib
