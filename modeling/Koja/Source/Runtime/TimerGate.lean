import Koja.Source.Runtime.TimerService

/-!
# The native timer gate

`Timers` of `koja-runtime-posix/src/scheduler.rs`: the timer service behind its lock, and the
atomic word the worker loop reads in its place. `koja-runtime-core/src/timing.rs` turns a
user's milliseconds into a duration.
-/
namespace Koja.Source.Runtime

variable {M : Type}

/-- Nanoseconds of a duration; negative values behave as zero. -/
def durationFromUserMillis (milliseconds : Int64) : Nat := milliseconds.toInt.toNat * 1000000

/-- `u64::MAX` in the gate: nothing is pending. -/
def gateIdle : UInt64 := 18446744073709551615

/-- `gate` counts nanoseconds from `epoch`. -/
structure Timers (M : Type) where
  epoch : Instant
  gate : UInt64
  service : TimerService M

namespace Timers

def new (epoch : Instant) : Timers M := ⟨epoch, gateIdle, .new⟩

variable (timers : Timers M)

/-- The nanoseconds are truncated to `u64`. -/
def nanosSinceEpoch (instant : Instant) : UInt64 :=
  UInt64.ofNat (instant - timers.epoch)

/-- `Timers::with`: runs an operation on the service and refreshes the gate. -/
def withService (f : TimerService M → TimerService M) : Timers M :=
  let service := f timers.service
  { timers with
    service := service
    gate := service.nextFire.elim gateIdle timers.nanosSinceEpoch }

def due (now : Instant) : Bool :=
  timers.gate ≠ gateIdle ∧ timers.gate ≤ timers.nanosSinceEpoch now

def nextFire : Option Instant :=
  if timers.gate = gateIdle then none else some (timers.epoch + timers.gate.toNat)

end Timers

/-- What the adapter runs through `Timers::with`. -/
inductive TimerOp (M : Type) where
  | armDeadline (pid : Pid) (now : Instant) (milliseconds : Int64)
  | cancelDeadline (pid : Pid)
  | scheduleDeliver (now : Instant) (milliseconds : Int64) (targetPid : Pid) (envelope : M)
  | advance (now : Instant)
  | armGrace (deadline : Instant)

def TimerOp.apply (timers : TimerService M) : TimerOp M → TimerService M
  | .armDeadline pid now milliseconds =>
    timers.armDeadline pid (now + durationFromUserMillis milliseconds)
  | .cancelDeadline pid => timers.cancelDeadline pid
  | .scheduleDeliver now milliseconds targetPid envelope =>
    timers.scheduleDeliver (now + durationFromUserMillis milliseconds) targetPid envelope
  | .advance now => (timers.advance now).2
  | .armGrace deadline => timers.armGrace deadline

/-- The timers after some operations. -/
def Timers.after (epoch : Instant) (ops : List (TimerOp M)) : Timers M :=
  ops.foldl (fun timers op => timers.withService (op.apply ·)) (.new epoch)

end Koja.Source.Runtime
