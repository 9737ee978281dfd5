import Mathlib.Data.List.Basic

/-!
Compare-and-swap retry loops. The loop loads a word, computes the word it wants
from the observation, and swaps; a failed swap hands back the fresh word and the
loop starts over from it. Other threads may change the word before every access,
so the words the accesses meet are an arbitrary list. Whatever they are, a loop
that ends behaves as one atomic guarded update at its last access.
-/
namespace Koja.Lib

variable {ω ω' : Type} {want : ω → Option ω} {observed : ω} {met : List ω}

/-- How a retry loop ends: it swapped `before` for `after`, or it gave up on the
word it last observed. -/
inductive CasOutcome (ω : Type) where
  | swapped (before after : ω)
  | refused (observed : ω)
  deriving DecidableEq, Repr

def CasOutcome.map (f : ω → ω') : CasOutcome ω → CasOutcome ω'
  | .swapped before after => .swapped (f before) (f after)
  | .refused observed => .refused (f observed)

/-- Attempt `i` failed: an update was wanted, and the word met was not the observed one. What an
attempt observes is what the attempt before it met. -/
def AttemptFailed (want : ω → Option ω) (observed : ω) (met : List ω) (i : Nat) : Prop :=
  ∃ seen found, (observed :: met)[i]? = some seen ∧ met[i]? = some found ∧
    want seen ≠ none ∧ found ≠ seen

/-- All attempts before the one that ends the loop fail: it is the first, or the first one fails
and the loop goes on from the word met there. -/
theorem ends_first_iff {ends : Nat → Prop} {current : ω} {later : List ω} :
    (∃ k, ends k ∧ ∀ i < k, AttemptFailed want observed (current :: later) i) ↔
      ends 0 ∨ (want observed ≠ none ∧ current ≠ observed) ∧
        ∃ k, ends (k + 1) ∧ ∀ i < k, AttemptFailed want current later i := by
  rw [← Nat.or_exists_add_one]
  simp only [Nat.forall_lt_succ_left', AttemptFailed]
  simp
  grind

section Loop
variable [DecidableEq ω] [DecidableEq ω']

/-- The loop from one observation. `met` lists the memory word at each of the
following swap attempts; a loop that outlives the list is still spinning. -/
def casLoop (want : ω → Option ω) (observed : ω) : List ω → Option (CasOutcome ω)
  | [] => if want observed = none then some (.refused observed) else none
  | current :: later =>
    match want observed with
    | none => some (.refused observed)
    | some next =>
      if current = observed then some (.swapped observed next)
      else casLoop want current later

/-- A loop swaps at the first attempt that meets the word it observed, and stores what is wanted
of that very word. -/
theorem casLoop_swapped_iff {before after : ω} :
    casLoop want observed met = some (.swapped before after) ↔
      ∃ k, ((observed :: met)[k]? = some before ∧ met[k]? = some before ∧
        want before = some after) ∧ ∀ i < k, AttemptFailed want observed met i := by
  induction met generalizing observed with
  | nil => simp [casLoop]
  | cons current later ih =>
    rw [ends_first_iff]
    simp only [casLoop, List.getElem?_cons_succ, ← ih]
    cases wanted : want observed <;> grind

/-- A loop gives up on the first observed word of which nothing is wanted. -/
theorem casLoop_refused_iff {rejected : ω} :
    casLoop want observed met = some (.refused rejected) ↔
      ∃ k, ((observed :: met)[k]? = some rejected ∧ want rejected = none) ∧
        ∀ i < k, AttemptFailed want observed met i := by
  induction met generalizing observed with
  | nil =>
    rw [← Nat.or_exists_add_one]
    simp [casLoop]
    grind
  | cons current later ih =>
    rw [ends_first_iff]
    simp only [casLoop, List.getElem?_cons_succ, ← ih]
    cases wanted : want observed <;> grind

/-- A loop over encoded words is the loop over the words. -/
theorem casLoop_map {f : ω → ω'} {want' : ω' → Option ω'} (injective : Function.Injective f)
    (wanted : ∀ word, want' (f word) = (want word).map f) :
    casLoop want' (f observed) (met.map f) = (casLoop want observed met).map (.map f) := by
  induction met generalizing observed with
  | nil =>
    simp only [List.map_nil, casLoop, wanted]
    cases want observed <;> rfl
  | cons current later ih =>
    simp only [List.map_cons, casLoop, wanted, injective.eq_iff, ih]
    cases want observed with
    | none => rfl
    | some next =>
      rw [apply_ite (Option.map _)]
      rfl

end Loop

end Koja.Lib
