import Mathlib.Data.List.Basic

/-!
Histories of a labelled step relation. A run records every label it passed, so a
property of all interleavings is a property of all runs, and a quantity a claim
counts (values handed back, notices staged) is a function of the recorded labels.
`admits` restricts which label may be taken from which state; the step relation
itself stays as permissive as the modelled operations are.
-/
namespace Koja.Lib

open List

variable {σ ε : Type}

/-- `Run step admits init history s`: from `init` the labels of `history`, oldest
first, lead to `s`, each one admitted where it was taken. -/
inductive Run (step : σ → ε → σ → Prop) (admits : List ε → σ → ε → Prop) (init : σ) :
    List ε → σ → Prop
  | nil : Run step admits init [] init
  | snoc {history : List ε} {s s' : σ} {label : ε} :
      Run step admits init history s → admits history s label → step s label s' →
      Run step admits init (history ++ [label]) s'

section
variable {step : σ → ε → σ → Prop} {admits stricter : List ε → σ → ε → Prop} {init : σ}

/-- The invariant rule: what holds initially and survives every admitted step
holds after every run. -/
theorem Run.invariant (inv : List ε → σ → Prop) (initially : inv [] init)
    (preserved : ∀ history s label s', inv history s → admits history s label →
      step s label s' → inv (history ++ [label]) s')
    {history : List ε} {s : σ} (run : Run step admits init history s) : inv history s := by
  induction run with
  | nil => exact initially
  | snoc _ admitted stepped ih => exact preserved _ _ _ _ ih admitted stepped

/-- One more step, which says what is to be admitted. -/
theorem Run.extend {history : List ε} {s s' : σ} {label : ε} (run : Run step admits init history s)
    (stepped : step s label s') (admitted : admits history s label) :
    Run step admits init (history ++ [label]) s' :=
  run.snoc admitted stepped

theorem Run.weaken (weaker : ∀ history s label, stricter history s label → admits history s label)
    {history : List ε} {s : σ} (run : Run step stricter init history s) :
    Run step admits init history s := by
  induction run with
  | nil => exact .nil
  | snoc _ admitted stepped ih => exact ih.snoc (weaker _ _ _ admitted) stepped

end

/-! ## Registers read off a history -/

section Recall
variable {K V : Type} [DecidableEq K] (writes : ε → Option (K × (V → V))) (init : V)

/-- What the labels of a history have made of the register `key`, each label writing to
one register or none. -/
def replay (history : List ε) (key : K) : V :=
  history.foldl (fun value label =>
      match writes label with
      | none => value
      | some (written, change) => if written = key then change value else value)
    init

variable {writes init} {history : List ε} {label : ε} {key : K}

theorem replay_unwritten (unwritten : ∀ change, writes label ≠ some (key, change)) :
    replay writes init (history ++ [label]) key = replay writes init history key := by
  unfold replay
  rw [foldl_append, foldl_cons]
  split
  · rfl
  · next written change write =>
    split
    · next same =>
      subst same
      exact absurd write (unwritten change)
    · rfl

theorem replay_written {change : V → V} (written : writes label = some (key, change)) :
    replay writes init (history ++ [label]) key = change (replay writes init history key) := by
  unfold replay
  rw [foldl_append, foldl_cons, written]
  simp

theorem replay_append {tail : List ε} {value : V}
    (before : replay writes init history key = value) :
    replay writes init (history ++ tail) key = replay writes value tail key := by
  unfold replay at before ⊢
  rw [foldl_append, before]

/-- A label writes a register, or leaves it as it was. -/
theorem replay_snoc (writes : ε → Option (K × (V → V))) (init : V) (history : List ε) (label : ε)
    (key : K) :
    ((∀ change, writes label ≠ some (key, change)) ∧
      replay writes init (history ++ [label]) key = replay writes init history key) ∨
    ∃ change, writes label = some (key, change) ∧
      replay writes init (history ++ [label]) key = change (replay writes init history key) := by
  by_cases written : ∃ change, writes label = some (key, change)
  · obtain ⟨change, write⟩ := written
    exact .inr ⟨change, write, replay_written write⟩
  · have unwritten : ∀ change, writes label ≠ some (key, change) :=
      fun change write => written ⟨change, write⟩
    exact .inl ⟨unwritten, replay_unwritten unwritten⟩

end Recall

end Koja.Lib
