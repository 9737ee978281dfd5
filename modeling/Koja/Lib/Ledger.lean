import Mathlib.Algebra.BigOperators.Group.List.Basic
import Koja.Lib.Runs

/-!
Conservation along runs. Every label brings something in and takes something out of
a stock kept by the state; if each step balances, so does every run. The measure is
any commutative monoid: multisets of values, or plain counts.
-/
namespace Koja.Lib

open List

variable {σ ε A : Type} [AddCommMonoid A]

/-- What the labels of a history amount to. -/
def total (measure : ε → A) (history : List ε) : A := (history.map measure).sum

@[simp]
theorem total_nil (measure : ε → A) : total measure [] = 0 := rfl

@[simp]
theorem total_snoc (measure : ε → A) (history : List ε) (label : ε) :
    total measure (history ++ [label]) = total measure history + measure label := by
  simp [total]

theorem total_add (left right : ε → A) (history : List ε) :
    total (fun label => left label + right label) history =
      total left history + total right history := by
  induction history with
  | nil => simp [total]
  | cons _ _ ih =>
    simp only [total, map_cons, sum_cons] at ih ⊢
    rw [ih, add_add_add_comm]

theorem total_hom {B : Type} [AddCommMonoid B] (convert : A →+ B) (measure : ε → A)
    (history : List ε) :
    total (fun label => convert (measure label)) history = convert (total measure history) := by
  induction history with
  | nil => simp [total]
  | cons _ _ ih =>
    simp only [total, map_cons, sum_cons] at ih ⊢
    rw [ih, map_add]

/-- If every step balances what enters against what leaves and what is kept, all that
ever entered has left or is still kept. -/
theorem Run.conserves {step : σ → ε → σ → Prop} {admits : List ε → σ → ε → Prop} {init : σ}
    (enters leaves : ε → A) (stock : σ → A) (empty : stock init = 0)
    (balanced : ∀ history s label s', Run step admits init history s → admits history s label →
      step s label s' → stock s + enters label = leaves label + stock s')
    {history : List ε} {s : σ} (run : Run step admits init history s) :
    total enters history = total leaves history + stock s := by
  induction run with
  | nil => simp [empty]
  | snoc before admitted stepped ih =>
    have balance := balanced _ _ _ _ before admitted stepped
    rw [total_snoc, total_snoc, ih, add_assoc, balance, add_assoc]

end Koja.Lib
