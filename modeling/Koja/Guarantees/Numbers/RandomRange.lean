import Mathlib.Data.Int.CardIntervalMod
import Koja.Source.Runtime.Random

/-!
# Random integers are in range and unbiased

A word below the bound gives `min` plus its remainder by the width of the range. The bound is a
multiple of the width, so every remainder is met equally often below it.
-/
namespace Koja.Guarantees.Numbers

open Koja.Source.Runtime

/-- No words make the call panic, a returned value is in the range, each value of the range is
returned for the same number of words, fewer than half of the words are rejected, and a rejected
word leaves the choice to the next ones. -/
structure UniformInRange (checks : Bool) (min max : Int) : Prop where
  safe : ∀ words, kojaRandomInt checks min max words ≠ .panicked
  inRange : ∀ words value, kojaRandomInt checks min max words = .returned value →
    min ≤ value ∧ value ≤ max
  even : ∃ count, 0 < count ∧ ∀ value, min ≤ value → value ≤ max →
    Nat.count (fun word => kojaRandomInt checks min max [word] = .returned value) (2 ^ 64) = count
  rejects : 2 * Nat.count (fun word => kojaRandomInt checks min max [word] = .waiting) (2 ^ 64) <
    2 ^ 64
  again : ∀ word words, kojaRandomInt checks min max [word] = .waiting →
    kojaRandomInt checks min max (word :: words) = kojaRandomInt checks min max words

/-- The widths a build computes: up to the largest `i64` with overflow checks, and all but that of
the whole 64-bit range without. -/
def WidthKnown (checks : Bool) (span : Nat) : Prop :=
  span < 2 ^ 63 ∨ checks = false ∧ span < 2 ^ 64 - 1

/-- Bounds of more than one value, `span` apart. -/
structure Bounds (min max : Int) (span : Nat) : Prop where
  low : -2 ^ 63 ≤ min
  high : max < 2 ^ 63
  wide : max = min + span
  positive : 0 < span

variable {checks : Bool} {min max : Int} {span : Nat}

/-! ## One call -/

theorem i64Result_fits {exact : Int} (low : -2 ^ 63 ≤ exact) (high : exact < 2 ^ 63) :
    i64Result checks exact = some exact :=
  if_pos ⟨low, high⟩

theorem i64Result_wraps {exact wrapped : Int} (outside : ¬ (-2 ^ 63 ≤ exact ∧ exact < 2 ^ 63))
    (low : -2 ^ 63 ≤ wrapped) (high : wrapped < 2 ^ 63) (same : (exact - wrapped) % 2 ^ 64 = 0) :
    i64Result false exact = some wrapped := by
  unfold i64Result
  rw [if_neg outside, if_neg Bool.false_ne_true, Int.bmod_def]
  split <;> exact congrArg some (by omega)

theorem randomBounds_unknown (bounds : Bounds min max span) (unknown : ¬ WidthKnown checks span) :
    randomBounds checks min max = none := by
  obtain ⟨low, high, wide, -⟩ := bounds
  unfold WidthKnown at unknown
  cases checks with
  | true =>
    have overflows : i64Result true (max - min) = none := by
      unfold i64Result
      rw [if_neg (by omega), if_pos rfl]
    simp [randomBounds, overflows]
  | false =>
    have whole : max - min = 2 ^ 64 - 1 := by
      have reached : ¬ span < 2 ^ 64 - 1 := fun less => unknown (.inr ⟨rfl, less⟩)
      omega
    rw [randomBounds, whole]
    rfl

section

theorem randomBounds_known (bounds : Bounds min max span) (known : WidthKnown checks span) :
    randomBounds checks min max = some (span + 1, u64Max - u64Max % (span + 1)) := by
  obtain ⟨-, -, wide, -⟩ := bounds
  unfold WidthKnown at known
  have width : u64Result checks (span + 1) = some (span + 1) :=
    if_pos (by unfold u64Max; omega)
  have subtracted : ∃ signed, i64Result checks (max - min) = some signed ∧
      (signed % 2 ^ 64).toNat = span := by
    by_cases narrow : span < 2 ^ 63
    · exact ⟨max - min, i64Result_fits (by omega) (by omega), by omega⟩
    · obtain ⟨rfl, -⟩ := known.resolve_left narrow
      exact ⟨max - min - 2 ^ 64, by apply i64Result_wraps <;> omega, by omega⟩
  obtain ⟨signed, subtracted, same⟩ := subtracted
  simp only [randomBounds, subtracted, Option.bind_eq_bind, Option.bind_some, same, width]
  exact if_neg span.succ_ne_zero

/-- Adding a remainder to `min` does not leave the range. -/
theorem i64Result_value (bounds : Bounds min max span) (known : WidthKnown checks span) {rest : Nat}
    (inside : rest ≤ span) :
    i64Result checks (min + Int.bmod rest (2 ^ 64)) = some (min + rest) := by
  obtain ⟨low, high, wide, -⟩ := bounds
  unfold WidthKnown at known
  rw [Int.bmod_def]
  split
  · rw [i64Result_fits (by omega) (by omega)]
    exact congrArg some (by omega)
  · obtain ⟨rfl, -⟩ := known.resolve_left (by omega)
    apply i64Result_wraps <;> omega

theorem kojaRandomInt_eq (bounds : Bounds min max span) (known : WidthKnown checks span)
    (words : List Nat) :
    kojaRandomInt checks min max words =
      randomLoop checks min (span + 1) (u64Max - u64Max % (span + 1)) words := by
  unfold kojaRandomInt
  rw [if_neg, randomBounds_known bounds known]
  · rfl
  · obtain ⟨-, -, wide, positive⟩ := bounds
    omega

/-- The words below the bound return `min` plus a remainder, the others are rejected. -/
theorem kojaRandomInt_cons (bounds : Bounds min max span) (known : WidthKnown checks span)
    (word : Nat) (words : List Nat) :
    kojaRandomInt checks min max (word :: words) =
      if word < u64Max - u64Max % (span + 1) then .returned (min + (word % (span + 1) : Nat))
      else kojaRandomInt checks min max words := by
  rw [kojaRandomInt_eq bounds known, kojaRandomInt_eq bounds known, randomLoop,
    i64Result_value bounds known (Nat.lt_succ_iff.mp (Nat.mod_lt _ span.succ_pos))]
  rfl

theorem kojaRandomInt_cases (bounds : Bounds min max span) (known : WidthKnown checks span)
    (words : List Nat) : kojaRandomInt checks min max words = .waiting ∨
    ∃ rest ≤ span, kojaRandomInt checks min max words = .returned (min + (rest : Nat)) := by
  induction words with
  | nil => exact .inl (kojaRandomInt_eq bounds known [])
  | cons word words ih =>
    rw [kojaRandomInt_cons bounds known]
    split_ifs
    · exact .inr ⟨_, Nat.lt_succ_iff.mp (Nat.mod_lt _ span.succ_pos), rfl⟩
    · exact ih

/-! ## Counting words -/

theorem count_returned (bounds : Bounds min max span) (known : WidthKnown checks span) {rest : Nat}
    (inside : rest ≤ span) :
    Nat.count (fun word => kojaRandomInt checks min max [word] = .returned (min + rest)) (2 ^ 64) =
      u64Max / (span + 1) := by
  have parts := Nat.mod_add_div u64Max (span + 1)
  have small : u64Max < 2 ^ 64 := by decide
  have same : Nat.count (fun word => kojaRandomInt checks min max [word] = .returned (min + rest))
      (2 ^ 64) = Nat.count (· ≡ rest [MOD span + 1]) ((span + 1) * (u64Max / (span + 1))) := by
    simp only [Nat.count_eq_card_filter_range]
    refine congrArg Finset.card (Finset.ext fun word => ?_)
    simp only [Finset.mem_filter, Finset.mem_range, Nat.ModEq,
      Nat.mod_eq_of_lt (Nat.lt_succ_of_le inside), kojaRandomInt_cons bounds known]
    split_ifs with accepted
    · rw [Drawn.returned.injEq]
      omega
    · rw [kojaRandomInt_eq bounds known]
      refine iff_of_false (fun returned => Drawn.noConfusion returned.2) ?_
      omega
  rw [same, Nat.count_modEq_card _ span.succ_pos, Nat.mul_mod_right, if_neg (Nat.not_lt_zero _),
    Nat.mul_div_cancel_left _ span.succ_pos, Nat.add_zero]

theorem count_waiting (bounds : Bounds min max span) (known : WidthKnown checks span) :
    Nat.count (fun word => kojaRandomInt checks min max [word] = .waiting) (2 ^ 64) =
      u64Max % (span + 1) + 1 := by
  have split : 2 ^ 64 = (u64Max - u64Max % (span + 1)) + (u64Max % (span + 1) + 1) := by
    rw [← Nat.add_assoc, Nat.sub_add_cancel (Nat.mod_le _ _)]
    rfl
  rw [split, Nat.count_add, Nat.count_of_forall_not, Nat.count_of_forall, Nat.zero_add]
  · intro word _
    rw [kojaRandomInt_cons bounds known, if_neg (by omega)]
    exact kojaRandomInt_eq bounds known []
  · intro word inside
    rw [kojaRandomInt_cons bounds known, if_pos inside]
    exact Drawn.noConfusion

theorem rejected_iff (known : WidthKnown checks span) :
    2 * (u64Max % (span + 1) + 1) < 2 ^ 64 ↔ span ≠ 2 ^ 63 - 1 := by
  constructor
  · rintro few rfl
    exact absurd few (by decide)
  · intro other
    have less : u64Max % (span + 1) < span + 1 := Nat.mod_lt _ span.succ_pos
    by_cases narrow : span < 2 ^ 63
    · omega
    · unfold WidthKnown u64Max at *
      rw [Nat.mod_eq_sub_mod (by omega), Nat.mod_eq_of_lt (by omega)]
      omega

theorem uniform_of_rejects (bounds : Bounds min max span) (known : WidthKnown checks span)
    (rejects : span ≠ 2 ^ 63 - 1) : UniformInRange checks min max := by
  have drawn := kojaRandomInt_cases bounds known
  have wide := bounds.wide
  refine ⟨?_, ?_, ⟨u64Max / (span + 1), Nat.div_pos ?_ span.succ_pos, ?_⟩, ?_, ?_⟩
  · intro words panicked
    obtain waiting | ⟨rest, -, returned⟩ := drawn words
    · cases waiting.symm.trans panicked
    · cases returned.symm.trans panicked
  · intro words value returned
    obtain waiting | ⟨rest, inside, drawn⟩ := drawn words
    · cases waiting.symm.trans returned
    · cases drawn.symm.trans returned
      omega
  · unfold WidthKnown u64Max at *
    omega
  · intro value first last
    obtain ⟨rest, rfl⟩ := Int.le.dest first
    exact count_returned bounds known (by omega)
  · rw [count_waiting bounds known]
    exact (rejected_iff known).mpr rejects
  · intro word words waiting
    rw [kojaRandomInt_cons bounds known] at waiting ⊢
    split_ifs at waiting ⊢
    rfl

end

/-- A range of one value needs no word. -/
theorem uniform_single (checks : Bool) (value : Int) : UniformInRange checks value value := by
  have drawn : ∀ words, kojaRandomInt checks value value words = .returned value :=
    fun _ => if_pos (le_refl value)
  refine ⟨?_, ?_, ⟨2 ^ 64, by decide, ?_⟩, ?_, ?_⟩ <;> simp only [drawn]
  · exact fun _ => Drawn.noConfusion
  · rintro _ _ ⟨⟩
    exact ⟨le_refl value, le_refl value⟩
  · intro other first last
    rw [le_antisymm last first]
    exact Nat.count_of_forall fun _ _ => rfl
  · rw [Nat.count_of_forall_not fun _ _ => Drawn.noConfusion]
    decide
  · exact fun _ _ waiting => Drawn.noConfusion waiting

/-- The range is met, and evenly, exactly if its width is known to the build and is not `2 ^ 63`,
for which half of the words are rejected. -/
theorem random_int_uniform_iff (checks : Bool) (min max : Int) (low : -2 ^ 63 ≤ min)
    (ordered : min ≤ max) (high : max < 2 ^ 63) :
    UniformInRange checks min max ↔
      WidthKnown checks (max - min).toNat ∧ (max - min).toNat ≠ 2 ^ 63 - 1 := by
  obtain ⟨span, wide⟩ := Int.le.dest ordered
  rw [show (max - min).toNat = span by omega]
  obtain rfl | positive := span.eq_zero_or_pos
  · obtain rfl : min = max := by omega
    exact iff_of_true (uniform_single checks min) ⟨.inl (by decide), by decide⟩
  have bounds : Bounds min max span := ⟨low, high, wide.symm, positive⟩
  constructor
  · intro uniform
    have known : WidthKnown checks span := by
      by_contra unknown
      refine uniform.safe [] ?_
      unfold kojaRandomInt
      rw [if_neg (by omega), randomBounds_unknown bounds unknown]
      rfl
    have rejects := uniform.rejects
    rw [count_waiting bounds known, rejected_iff known] at rejects
    exact ⟨known, rejects⟩
  · exact fun ⟨known, rejects⟩ => uniform_of_rejects bounds known rejects

/-- A die. -/
theorem die_uniform : UniformInRange true 1 6 :=
  (random_int_uniform_iff true 1 6 (by decide) (by decide) (by decide)).mpr
    ⟨.inl (by decide), by decide⟩

/-- The width of the whole range wraps to zero, or does not pass the overflow check. -/
theorem whole_range_panics :
    kojaRandomInt false (-2 ^ 63) (2 ^ 63 - 1) [] = .panicked ∧
      kojaRandomInt true (-2 ^ 63) (2 ^ 63 - 1) [] = .panicked := by
  decide

end Koja.Guarantees.Numbers
