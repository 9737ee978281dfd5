import Mathlib.Algebra.Ring.Nat
import Koja.Source.Runtime.TimerGate

/-!
# What the timer gate tells the worker loop

The gate holds the nanoseconds to the next fire in a `u64`, where the wait of a user can be up
to 2^63 milliseconds.
-/
namespace Koja.Guarantees.Runtime

open Koja.Source.Runtime List

variable {M : Type} {timers : Timers M} {now : Instant}

/-- The gate answers for the service at `now`. -/
def GateExact (timers : Timers M) (now : Instant) : Prop :=
  (timers.due now = true ↔ ∃ fire, timers.service.nextFire = some fire ∧ fire ≤ now) ∧
    timers.nextFire = timers.service.nextFire

/-- The next fire is less than `2^64 - 1` nanoseconds from the epoch, and `now`, if it is `2^64`
nanoseconds away or more, is past it also when both are counted in a `u64`. -/
def GateFits (timers : Timers M) (now : Instant) : Prop :=
  ∀ fire, timers.service.nextFire = some fire →
    timers.epoch ≤ fire ∧ fire - timers.epoch < 2 ^ 64 - 1 ∧
      (now - timers.epoch < 2 ^ 64 ∨ fire - timers.epoch ≤ (now - timers.epoch) % 2 ^ 64)

theorem after_epoch (epoch : Instant) (ops : List (TimerOp M)) :
    (Timers.after epoch ops).epoch = epoch := by
  unfold Timers.after
  induction ops using reverseRecOn with
  | nil => rfl
  | append_singleton ops op ih =>
    rw [foldl_append]
    exact ih

/-- The gate is refreshed by every operation. -/
theorem after_gate (epoch : Instant) (ops : List (TimerOp M)) : (Timers.after epoch ops).gate =
      (Timers.after epoch ops).service.nextFire.elim gateIdle
        (Timers.after epoch ops).nanosSinceEpoch := by
  unfold Timers.after
  induction ops using reverseRecOn with
  | nil => rfl
  | append_singleton ops op _ =>
    rw [foldl_append]
    rfl

theorem ofNat_eq_gateIdle (nanos : Nat) :
    UInt64.ofNat nanos = gateIdle ↔ nanos % 2 ^ 64 = 2 ^ 64 - 1 := by
  rw [← UInt64.toNat_inj]
  exact Iff.rfl

theorem gateExact_iff (later : timers.epoch ≤ now) (fresh : timers.gate =
      timers.service.nextFire.elim gateIdle timers.nanosSinceEpoch) :
    GateExact timers now ↔ GateFits timers now := by
  unfold GateExact GateFits Timers.due Timers.nextFire
  rw [fresh]
  cases timers.service.nextFire with
  | none => simp
  | some fire =>
    simp only [Option.elim_some, Timers.nanosSinceEpoch, Option.some.injEq, exists_eq_left',
      forall_eq', decide_eq_true_eq, ne_eq, ofNat_eq_gateIdle, UInt64.le_iff_toNat_le,
      UInt64.toNat_ofNat']
    unfold Instant at *
    split
    · refine iff_of_false (fun passed => nomatch passed.2) ?_
      omega
    · rw [Option.some.injEq]
      omega

/-- After any operations the gate answers exactly when the next fire fits in it. -/
theorem timer_gate_exact_iff (epoch now : Instant) (ops : List (TimerOp M)) (later : epoch ≤ now) :
    GateExact (Timers.after epoch ops) now ↔ GateFits (Timers.after epoch ops) now := by
  refine gateExact_iff ?_ (after_gate epoch ops)
  rw [after_epoch]
  exact later

/-- A wait of `2^63 - 1` milliseconds armed a millisecond after the epoch makes the gate 0: it is
due at once. -/
theorem far_deadline_due_at_once :
    (Timers.after 0 [.armDeadline 1 1000000 9223372036854775807] : Timers Unit).due 1000000 = true ∧
      (Timers.after 0 [.armDeadline 1 1000000 9223372036854775807] : Timers Unit).service.nextFire =
        some 9223372036854775808000000 ∧
      ¬ GateExact (Timers.after 0 [.armDeadline 1 1000000 9223372036854775807] : Timers Unit)
        1000000 := by
  refine ⟨rfl, rfl, fun gate => ?_⟩
  obtain ⟨fire, known, past⟩ := gate.1.mp rfl
  cases known
  exact absurd past (by decide)

/-- A wait of five milliseconds. -/
theorem five_milliseconds_exact :
    GateExact (Timers.after 0 [.armDeadline 1 1000000 5] : Timers Unit) 2000000 := by
  refine (timer_gate_exact_iff 0 2000000 [.armDeadline 1 1000000 5] (by decide)).mpr ?_
  rintro fire known
  cases known
  decide

end Koja.Guarantees.Runtime
