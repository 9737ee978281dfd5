import Mathlib.Algebra.Ring.Int.Defs
import Mathlib.Algebra.Ring.Nat

/-!
# Random integers

Source: `koja_random_int` of `koja-runtime-posix/src/system.rs`. The words are what `fill_random`
delivers, one per round. A build with overflow checks panics where one without them wraps.
-/
namespace Koja.Source.Runtime

def u64Max : Nat := 2 ^ 64 - 1

/-- The result of an `i64` operation. -/
def i64Result (checks : Bool) (exact : Int) : Option Int :=
  if -2 ^ 63 ≤ exact ∧ exact < 2 ^ 63 then some exact
  else if checks then none else some (exact.bmod (2 ^ 64))

/-- The result of a `u64` operation. -/
def u64Result (checks : Bool) (exact : Nat) : Option Nat :=
  if exact ≤ u64Max then some exact
  else if checks then none else some (exact % 2 ^ 64)

/-- What a call has come to when its words are used up. -/
inductive Drawn where
  | panicked
  | returned (value : Int)
  | waiting
  deriving DecidableEq, Repr

/-- `range` and `reject_above`; a remainder by zero panics. -/
def randomBounds (checks : Bool) (min max : Int) : Option (Nat × Nat) := do
  let span ← i64Result checks (max - min)
  let range ← u64Result checks ((span % 2 ^ 64).toNat + 1)
  if range = 0 then none else return (range, u64Max - u64Max % range)

/-- The loop of `koja_random_int`. -/
def randomLoop (checks : Bool) (min : Int) (range rejectAbove : Nat) : List Nat → Drawn
  | [] => .waiting
  | val :: words =>
    if val < rejectAbove then
      (i64Result checks (min + Int.bmod (val % range : Nat) (2 ^ 64))).elim .panicked .returned
    else randomLoop checks min range rejectAbove words

/-- `koja_random_int`. -/
def kojaRandomInt (checks : Bool) (min max : Int) (words : List Nat) : Drawn :=
  if min ≥ max then .returned min
  else (randomBounds checks min max).elim .panicked fun (range, rejectAbove) =>
    randomLoop checks min range rejectAbove words

end Koja.Source.Runtime
