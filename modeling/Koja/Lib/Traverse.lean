import Mathlib.Data.List.Forall2

/-!
# Traversals that may fail

What `List.mapM` and `List.foldlM` give in `Option`, and the partners of the members of two
related lists.
-/
namespace Koja.Lib

open List

variable {α β : Type} {related : α → β → Prop} {left : List α} {right : List β} {a : α}
  {f : α → Option β} {step : β → α → Option β}

theorem forall₂_mem_left (each : Forall₂ related left right) (inside : a ∈ left) :
    ∃ b ∈ right, related a b := by
  induction each with
  | nil => cases inside
  | cons head _ ih =>
    rcases mem_cons.1 inside with rfl | inside
    · exact ⟨_, mem_cons_self, head⟩
    · obtain ⟨b, isIn, holds⟩ := ih inside
      exact ⟨b, mem_cons_of_mem _ isIn, holds⟩

theorem forall₂_mem_right (each : Forall₂ related left right) {b : β} (inside : b ∈ right) :
    ∃ a ∈ left, related a b :=
  forall₂_mem_left each.flip inside

theorem mapM_eq_some_iff :
    left.mapM f = some right ↔ Forall₂ (fun item result => f item = some result) left right := by
  induction left generalizing right with
  | nil => simp [eq_comm]
  | cons _ _ ih =>
    simp only [mapM_cons, Option.bind_eq_bind, Option.bind_eq_some_iff, Option.pure_def,
      Option.some.injEq, forall₂_cons_left_iff, ih]
    constructor
    · rintro ⟨head, atHead, tail, atTail, rfl⟩
      exact ⟨head, tail, atHead, atTail, rfl⟩
    · rintro ⟨head, tail, atHead, atTail, rfl⟩
      exact ⟨head, atHead, tail, atTail, rfl⟩

theorem mapM_some_of_forall {g : α → β} (each : ∀ item ∈ left, f item = some (g item)) :
    left.mapM f = some (left.map g) :=
  mapM_eq_some_iff.mpr (forall₂_map_right_iff.mpr (forall₂_same.mpr each))

theorem mapM_none_of_mem (fails : f a = none) (inside : a ∈ left) : left.mapM f = none := by
  refine Option.eq_none_iff_forall_ne_some.mpr fun results mapped => ?_
  obtain ⟨result, _, same⟩ := forall₂_mem_left (mapM_eq_some_iff.mp mapped) inside
  cases fails.symm.trans same

theorem mapM_forall₂ (list : List α) (each : ∀ a ∈ list, ∃ b, f a = some b ∧ related a b) :
    ∃ mapped, list.mapM f = some mapped ∧ Forall₂ related list mapped := by
  induction list with
  | nil => exact ⟨[], rfl, .nil⟩
  | cons a _ ih =>
    obtain ⟨b, mappedA, relatedA⟩ := each a (by simp)
    obtain ⟨mapped, mappedList, relatedList⟩ := ih fun x inside => each x (by simp [inside])
    exact ⟨b :: mapped, by simp [mappedA, mappedList], .cons relatedA relatedList⟩

theorem foldlM_some {next : β → α → β}
    (each : ∀ item ∈ left, ∀ acc, step acc item = some (next acc item)) (start : β) :
    left.foldlM step start = some (left.foldl next start) := by
  induction left generalizing start with
  | nil => rfl
  | cons item _ ih =>
    rw [foldlM_cons, each item (by simp)]
    exact ih (fun item inside => each item (by simp [inside])) _

theorem foldlM_none (fails : ∀ acc, step acc a = none) (inside : a ∈ left) (start : β) :
    left.foldlM step start = none := by
  induction left generalizing start with
  | nil => cases inside
  | cons head _ ih =>
    rw [foldlM_cons]
    rcases mem_cons.1 inside with rfl | inside
    · rw [fails]; rfl
    · cases step start head with
      | none => rfl
      | some next => exact ih inside next

section
variable {ε α β : Type} {first : Except ε α} {next : α → Except ε β} {result : β}

@[simp]
theorem ok_bind (a : α) : (.ok a >>= next) = next a := rfl

@[simp]
theorem error_bind (error : ε) : (.error error >>= next) = .error error := rfl

@[simp]
theorem pure_eq_ok (a : α) : (pure a : Except ε α) = .ok a := rfl

theorem bind_eq_ok :
    (first >>= next) = .ok result ↔ ∃ middle, first = .ok middle ∧ next middle = .ok result := by
  cases first <;> simp

end

end Koja.Lib
