import Mathlib.Data.List.Basic

/-!
Sequences of calls to a component with state. A call either returns, with the next
state and an answer, or never returns (`none`), and then the sequence goes no
further. `Throughout` says something of every call of a sequence, at the state the
calls before it left.
-/
namespace Koja.Lib

variable {σ ι ω : Type} {call : σ → ι → Option (σ × ω)} {P Q : σ → ι → Prop}

/-- `P` at every call of the sequence, at the state the call is made in. -/
def Throughout (call : σ → ι → Option (σ × ω)) (P : σ → ι → Prop) : σ → List ι → Prop
  | _, [] => True
  | s, i :: rest => P s i ∧ ∀ s' answer, call s i = some (s', answer) → Throughout call P s' rest

instance Throughout.decidable [∀ s i, Decidable (P s i)] :
    ∀ s calls, Decidable (Throughout call P s calls)
  | _, [] => .isTrue trivial
  | s, i :: rest =>
    have (returned : σ × ω) := Throughout.decidable returned.1 rest
    decidable_of_iff (P s i ∧ ∀ returned ∈ call s i, Throughout call P returned.1 rest)
      (and_congr_right fun _ => Prod.forall)

/-- What a condition on the calls gives in every state of an invariant it keeps, it gives
along every sequence. -/
theorem Throughout.imp (inv : σ → Prop) (implies : ∀ s i, inv s → Q s i → P s i)
    (kept : ∀ s i s' answer, inv s → Q s i → call s i = some (s', answer) → inv s') {s : σ}
    {calls : List ι} (initially : inv s) (meets : Throughout call Q s calls) :
    Throughout call P s calls := by
  induction calls generalizing s with
  | nil => trivial
  | cons i _ ih =>
    refine ⟨implies s i initially meets.1, fun s' answer returned => ?_⟩
    exact ih (kept s i s' answer initially meets.1 returned) (meets.2 s' answer returned)

/-- Two conditions that say the same of a call in every state of an invariant, which
the calls meeting the second one keep, say the same of every sequence. -/
theorem throughout_iff (inv : σ → Prop) (same : ∀ s i, inv s → (P s i ↔ Q s i))
    (kept : ∀ s i s' answer, inv s → Q s i → call s i = some (s', answer) → inv s') {s : σ}
    {calls : List ι} (initially : inv s) :
    Throughout call P s calls ↔ Throughout call Q s calls := by
  induction calls generalizing s with
  | nil => exact Iff.rfl
  | cons i _ ih =>
    unfold Throughout
    rw [same s i initially]
    refine and_congr_right fun meets => ?_
    refine forall_congr' fun s' => forall_congr' fun answer => forall_congr' fun returned => ?_
    exact ih (kept s i s' answer initially meets returned)

/-- Calls that return into the invariant keep it. -/
theorem kept_of_returns {inv : σ → Prop}
    (returns : ∀ s i, inv s → Q s i → ∃ s' answer, call s i = some (s', answer) ∧ inv s') (s : σ)
    (i : ι) (s' : σ) (answer : ω) (holds : inv s) (meets : Q s i)
    (returned : call s i = some (s', answer)) : inv s' := by
  obtain ⟨_, _, called, kept⟩ := returns s i holds meets
  rw [called] at returned
  cases returned
  exact kept

/-- A condition on a part of the state that the calls act on alone can be followed there. -/
theorem throughout_along {τ ω' : Type} {callPart : τ → ι → Option (τ × ω')} {R : τ → ι → Prop}
    (part : σ → τ) (said : ω → ω') (commutes : ∀ s i, callPart (part s) i =
      (call s i).map fun returned => (part returned.1, said returned.2)) {s : σ} {calls : List ι} :
    Throughout call (fun s i => R (part s) i) s calls ↔ Throughout callPart R (part s) calls := by
  induction calls generalizing s with
  | nil => exact Iff.rfl
  | cons _ _ ih =>
    unfold Throughout
    refine and_congr_right fun _ => ?_
    constructor
    · intro after t answer returned
      rw [commutes, Option.map_eq_some_iff] at returned
      obtain ⟨⟨s', answer'⟩, called, same⟩ := returned
      cases same
      exact ih.mp (after s' answer' called)
    · intro after s' answer called
      refine ih.mpr (after (part s') (said answer) ?_)
      rw [commutes, called]
      rfl

/-- What a call returns, with more put beside it and taken away again. -/
theorem map_restored {α β : Type} {returned : Option α} {more : α → β} {less : β → α}
    (back : ∀ a, less (more a) = a := by intro; rfl) :
    returned = (returned.map more).map less := by
  rw [Option.map_map, show less ∘ more = id from funext back, Option.map_id, id_eq]

end Koja.Lib
