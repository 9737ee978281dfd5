import Mathlib.Tactic.Basic

/-!
# Structured commands over events

A command emits events one after another. It branches either way, raises a labelled exit that an
enclosing command handles, repeats a body until the body leaves by an exit, and stops. An
execution may be cut off anywhere, so a property of every execution is one of every prefix of it,
infinite ones included. `Wp` is the weakest precondition of a command over a state machine: as
long as the events meet what the machine assumes of them, none goes wrong, and the state an
execution leaves behind meets the postcondition of the way it ended.
-/
namespace Koja.Lib

/-- Commands over events of type `ι` with exits labelled by `ℓ`. -/
inductive Command (ι ℓ : Type) where
  | skip
  | emit (event : ι)
  | seq (first second : Command ι ℓ)
  /-- Either command runs. -/
  | choice (left right : Command ι ℓ)
  | raise (exit : ℓ)
  /-- The handler runs when the body leaves by the exit. -/
  | handle (exit : ℓ) (body handler : Command ι ℓ)
  /-- The body repeats until it leaves. -/
  | loop (body : Command ι ℓ)
  /-- Control does not come back. -/
  | halt
  deriving Repr

/-- The ways an execution ends; `cut` is an execution that was cut off. -/
inductive Outcome (ℓ : Type) where
  | next
  | raised (exit : ℓ)
  | halt
  | cut
  deriving DecidableEq, Repr

namespace Command

variable {ι ℓ : Type}

/-- Emit a list of events in order. -/
def emits : List ι → Command ι ℓ
  | [] => .skip
  | event :: rest => .seq (.emit event) (emits rest)

/-- A test: the command goes on, or leaves by the exit. -/
def test (exit : ℓ) : Command ι ℓ :=
  .choice .skip (.raise exit)

/-- The executions of a command, with the events they emit. -/
inductive Exec : Command ι ℓ → List ι → Outcome ℓ → Prop
  | cut (c : Command ι ℓ) : Exec c [] .cut
  | skip : Exec .skip [] .next
  | emit (event : ι) : Exec (.emit event) [event] .next
  | seqNext {a b : Command ι ℓ} {first rest : List ι} {o : Outcome ℓ} :
      Exec a first .next → Exec b rest o → Exec (.seq a b) (first ++ rest) o
  | seqStop {a b : Command ι ℓ} {events : List ι} {o : Outcome ℓ} :
      Exec a events o → o ≠ .next → Exec (.seq a b) events o
  | left {a b : Command ι ℓ} {events : List ι} {o : Outcome ℓ} :
      Exec a events o → Exec (.choice a b) events o
  | right {a b : Command ι ℓ} {events : List ι} {o : Outcome ℓ} :
      Exec b events o → Exec (.choice a b) events o
  | raise (exit : ℓ) : Exec (.raise exit) [] (.raised exit)
  | handled {exit : ℓ} {a b : Command ι ℓ} {first rest : List ι} {o : Outcome ℓ} :
      Exec a first (.raised exit) → Exec b rest o → Exec (.handle exit a b) (first ++ rest) o
  | unhandled {exit : ℓ} {a b : Command ι ℓ} {events : List ι} {o : Outcome ℓ} :
      Exec a events o → o ≠ .raised exit → Exec (.handle exit a b) events o
  | again {a : Command ι ℓ} {first rest : List ι} {o : Outcome ℓ} :
      Exec a first .next → Exec (.loop a) rest o → Exec (.loop a) (first ++ rest) o
  | loopStop {a : Command ι ℓ} {events : List ι} {o : Outcome ℓ} :
      Exec a events o → o ≠ .next → Exec (.loop a) events o
  | halt : Exec .halt [] .halt

end Command

/-- A state machine driven by events: what an event does, what is assumed of it where it happens,
and when it is in order. -/
structure Machine (ι σ : Type) where
  step : ι → σ → σ
  Assumes : ι → σ → Prop
  Good : ι → σ → Prop

namespace Machine

variable {ι σ : Type}

/-- The state after a list of events. -/
def after (m : Machine ι σ) : List ι → σ → σ
  | [], s => s
  | event :: rest, s => m.after rest (m.step event s)

/-- Every event of a list has a property where it happens. -/
def Along (m : Machine ι σ) (P : ι → σ → Prop) : List ι → σ → Prop
  | [], _ => True
  | event :: rest, s => P event s ∧ m.Along P rest (m.step event s)

theorem after_append (m : Machine ι σ) (first rest : List ι) (s : σ) :
    m.after (first ++ rest) s = m.after rest (m.after first s) := by
  induction first generalizing s with
  | nil => rfl
  | cons _ _ ih => exact ih _

theorem along_append {m : Machine ι σ} {P : ι → σ → Prop} {first rest : List ι} {s : σ} :
    m.Along P (first ++ rest) s ↔ m.Along P first s ∧ m.Along P rest (m.after first s) := by
  induction first generalizing s with
  | nil => exact (and_iff_right trivial).symm
  | cons _ _ ih =>
    simp only [List.cons_append, Along, after, ih, and_assoc]

end Machine

/-- What has to hold after a command, for each way it can end and control to go on. -/
structure Post (ℓ σ : Type) where
  next : σ → Prop
  raised : ℓ → σ → Prop

namespace Post

variable {ℓ σ : Type}

/-- The part of a postcondition an outcome has to meet. -/
def Holds (q : Post ℓ σ) : Outcome ℓ → σ → Prop
  | .next, s => q.next s
  | .raised exit, s => q.raised exit s
  | .halt, _ | .cut, _ => True

end Post

namespace Command

variable {ι ℓ σ : Type} {m : Machine ι σ} {q : Post ℓ σ} {s : σ}

/-- The weakest precondition of a command. -/
def Wp (m : Machine ι σ) (c : Command ι ℓ) (q : Post ℓ σ) (s : σ) : Prop :=
  ∀ events o, Exec c events o → m.Along m.Assumes events s →
    m.Along m.Good events s ∧ q.Holds o (m.after events s)

/-- An execution composed of two: the second starts where the first ended. -/
private theorem along_compose {first rest : List ι} {o : Outcome ℓ} {next : σ → Prop}
    (assumed : m.Along m.Assumes (first ++ rest) s)
    (opens : m.Along m.Assumes first s → m.Along m.Good first s ∧ next (m.after first s))
    (continues : next (m.after first s) → m.Along m.Assumes rest (m.after first s) →
      m.Along m.Good rest (m.after first s) ∧ q.Holds o (m.after rest (m.after first s))) :
    m.Along m.Good (first ++ rest) s ∧ q.Holds o (m.after (first ++ rest) s) := by
  obtain ⟨assumedFirst, assumedRest⟩ := Machine.along_append.mp assumed
  obtain ⟨good, reached⟩ := opens assumedFirst
  obtain ⟨later, holds⟩ := continues reached assumedRest
  rw [Machine.after_append]
  exact ⟨Machine.along_append.mpr ⟨good, later⟩, holds⟩

theorem wp_mono {c : Command ι ℓ} {p : Post ℓ σ} (wp : Wp m c p s)
    (next : ∀ t, p.next t → q.next t) (raised : ∀ exit t, p.raised exit t → q.raised exit t) :
    Wp m c q s := by
  intro events o exec assumed
  obtain ⟨good, holds⟩ := wp events o exec assumed
  refine ⟨good, ?_⟩
  cases o with
  | next => exact next _ holds
  | raised exit => exact raised exit _ holds
  | halt | cut => trivial

theorem wp_skip (holds : q.next s) : Wp m .skip q s := by
  intro events o exec _
  cases exec with
  | cut => exact ⟨trivial, trivial⟩
  | skip => exact ⟨trivial, holds⟩

theorem wp_emit {event : ι} (steps : m.Assumes event s → m.Good event s ∧ q.next (m.step event s)) :
    Wp m (.emit event) q s := by
  intro events o exec assumed
  cases exec with
  | cut => exact ⟨trivial, trivial⟩
  | emit => exact ⟨⟨(steps assumed.1).1, trivial⟩, (steps assumed.1).2⟩

theorem wp_seq {a b : Command ι ℓ} (wp : Wp m a { q with next := Wp m b q } s) :
    Wp m (.seq a b) q s := by
  intro events o exec assumed
  cases exec with
  | cut => exact ⟨trivial, trivial⟩
  | seqNext first rest =>
    exact along_compose assumed (wp _ _ first) fun continues => continues _ _ rest
  | seqStop stops ended =>
    obtain ⟨good, holds⟩ := wp _ _ stops assumed
    refine ⟨good, ?_⟩
    cases o with
    | next => exact absurd rfl ended
    | _ => exact holds

theorem wp_choice {a b : Command ι ℓ} (left : Wp m a q s) (right : Wp m b q s) :
    Wp m (.choice a b) q s := by
  intro events o exec
  cases exec with
  | cut => exact fun _ => ⟨trivial, trivial⟩
  | left taken => exact left _ _ taken
  | right taken => exact right _ _ taken

theorem wp_raise {exit : ℓ} (holds : q.raised exit s) : Wp m (.raise exit) q s := by
  intro events o exec _
  cases exec with
  | cut => exact ⟨trivial, trivial⟩
  | raise => exact ⟨trivial, holds⟩

theorem wp_test {exit : ℓ} (next : q.next s) (raised : q.raised exit s) : Wp m (test exit) q s :=
  wp_choice (wp_skip next) (wp_raise raised)

theorem wp_handle {exit : ℓ} {a b : Command ι ℓ}
    (wp : Wp m a { next := q.next, raised := fun other t =>
      (other = exit → Wp m b q t) ∧ (other ≠ exit → q.raised other t) } s) :
    Wp m (.handle exit a b) q s := by
  intro events o exec assumed
  cases exec with
  | cut => exact ⟨trivial, trivial⟩
  | handled first rest =>
    exact along_compose assumed (wp _ _ first) fun continues => continues.1 rfl _ _ rest
  | unhandled done other =>
    obtain ⟨good, holds⟩ := wp _ _ done assumed
    refine ⟨good, ?_⟩
    cases o with
    | raised => exact holds.2 fun same => other (congrArg _ same)
    | _ => exact holds

theorem wp_halt : Wp m .halt q s := by
  intro events o exec _
  cases exec <;> exact ⟨trivial, trivial⟩

/-- The loop rule: an invariant the body keeps. The loop is left by an exit of its body only. -/
theorem wp_loop {body : Command ι ℓ} (invariant : σ → Prop) (entry : invariant s)
    (keeps : ∀ t, invariant t → Wp m body { q with next := invariant } t) :
    Wp m (.loop body) q s := by
  intro events o exec
  generalize isLoop : Command.loop body = c at exec
  -- The induction is on the execution, which carries the later rounds of the loop.
  induction exec generalizing s with
  | cut => exact fun _ => ⟨trivial, trivial⟩
  | again first _ _ later =>
    cases isLoop
    exact fun assumed => along_compose assumed (keeps s entry _ _ first) fun kept => later kept rfl
  | loopStop stops goesOn =>
    cases isLoop
    intro assumed
    obtain ⟨good, holds⟩ := keeps s entry _ _ stops assumed
    refine ⟨good, ?_⟩
    rename_i o _
    cases o with
    | next => exact absurd rfl goesOn
    | _ => exact holds
  | _ => cases isLoop

end Command

end Koja.Lib
