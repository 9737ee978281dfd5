import Mathlib.Data.Nat.ModEq

/-!
Linear probing. A probe walks from a start slot along `advance` until a slot stops
it. Over a ring of `n` slots the walk visits every slot once in `n` steps, so a
probe that has not stopped by then never stops.
-/
namespace Koja.Lib

/-- The first slot on the walk from `slot` that stops the probe, if one does within
the given number of slots looked at. -/
def probe (stops : Nat → Bool) (advance : Nat → Nat) : Nat → Nat → Option Nat
  | 0, _ => none
  | steps + 1, slot =>
    if stops slot then some slot else probe stops advance steps (advance slot)

section
variable {stops : Nat → Bool} {advance : Nat → Nat}

theorem probe_eq_some_iff {steps start slot : Nat} : probe stops advance steps start = some slot ↔
      ∃ i, i < steps ∧ advance^[i] start = slot ∧ stops slot = true ∧
        ∀ j, j < i → stops (advance^[j] start) = false := by
  induction steps generalizing start with
  | zero => simp [probe]
  | succ _ ih =>
    unfold probe
    by_cases here : stops start = true
    · rw [if_pos here]
      constructor
      · rintro ⟨rfl⟩
        exact ⟨0, by omega, rfl, here, by omega⟩
      · rintro ⟨i, _, reached, _, clear⟩
        cases i with
        | zero => simpa using reached
        | succ => simpa [here] using clear 0 (by omega)
    · rw [if_neg here, ih]
      constructor
      · rintro ⟨i, bound, reached, stopped, clear⟩
        refine ⟨i + 1, by omega, reached, stopped, ?_⟩
        intro j before
        cases j with
        | zero => simpa using here
        | succ j => exact clear j (by omega)
      · rintro ⟨i, bound, reached, stopped, clear⟩
        cases i with
        | zero => exact absurd (by rw [← reached] at stopped; exact stopped) here
        | succ i =>
          exact ⟨i, by omega, reached, stopped, fun j before => clear (j + 1) (by omega)⟩

theorem probe_eq_none_iff {steps start : Nat} : probe stops advance steps start = none ↔
      ∀ i, i < steps → stops (advance^[i] start) = false := by
  induction steps generalizing start with
  | zero => simp [probe]
  | succ _ ih =>
    unfold probe
    by_cases here : stops start = true
    · rw [if_pos here]
      simp only [reduceCtorEq, false_iff]
      intro clear
      simpa [here] using clear 0 (by omega)
    · rw [if_neg here, ih]
      constructor
      · intro clear i bound
        cases i with
        | zero => simpa using here
        | succ i => exact clear i (by omega)
      · intro clear i bound
        exact clear (i + 1) (by omega)

end

/-- `advance` walks the ring of `n` slots in order, back to slot 0 after the last. -/
def Wraps (advance : Nat → Nat) (n : Nat) : Prop :=
  ∀ slot, slot < n → advance slot = (slot + 1) % n

section Ring
variable {stops : Nat → Bool} {advance : Nat → Nat} {n start : Nat}

theorem Wraps.iterate (wraps : Wraps advance n) (inside : start < n) (i : Nat) :
    advance^[i] start = (start + i) % n := by
  induction i with
  | zero => simp [Nat.mod_eq_of_lt inside]
  | succ i ih =>
    rw [Function.iterate_succ_apply', ih, wraps _ (Nat.mod_lt _ (by omega)), Nat.mod_add_mod]
    rfl

theorem Wraps.iterate_lt (wraps : Wraps advance n) (inside : start < n) (i : Nat) :
    advance^[i] start < n := by
  rw [wraps.iterate inside]
  exact Nat.mod_lt _ (by omega)

/-- Every slot of the ring is on the walk, within `n` steps. -/
theorem Wraps.exists_iterate (wraps : Wraps advance n) (inside : start < n) {slot : Nat}
    (slotInside : slot < n) :
    ∃ i, i < n ∧ advance^[i] start = slot := by
  by_cases ahead : start ≤ slot
  · refine ⟨slot - start, by omega, ?_⟩
    rw [wraps.iterate inside, Nat.add_sub_cancel' ahead, Nat.mod_eq_of_lt slotInside]
  · refine ⟨slot + n - start, by omega, ?_⟩
    have total : start + (slot + n - start) = slot + n := by omega
    rw [wraps.iterate inside, total, Nat.add_mod_right, Nat.mod_eq_of_lt slotInside]

theorem Wraps.iterate_inj (wraps : Wraps advance n) (inside : start < n) {i j : Nat}
    (iBound : i < n) (jBound : j < n) (same : advance^[i] start = advance^[j] start) :
    i = j := by
  rw [wraps.iterate inside, wraps.iterate inside] at same
  have congruent : i ≡ j [MOD n] := Nat.ModEq.add_left_cancel' start same
  rw [Nat.ModEq, Nat.mod_eq_of_lt iBound, Nat.mod_eq_of_lt jBound] at congruent
  exact congruent

theorem Wraps.probe_eq_none_iff (wraps : Wraps advance n) (inside : start < n) :
    probe stops advance n start = none ↔ ∀ slot, slot < n → stops slot = false := by
  rw [Koja.Lib.probe_eq_none_iff]
  constructor
  · intro clear slot slotInside
    obtain ⟨i, bound, rfl⟩ := wraps.exists_iterate inside slotInside
    exact clear i bound
  · intro clear i _
    exact clear _ (wraps.iterate_lt inside i)

end Ring

end Koja.Lib
