import Koja.Source.Runtime.Machine
import Koja.Source.Runtime.Wire

/-!
# The native reactor

`koja-runtime-posix/src/reactor.rs`: one map from descriptors to wakers and the set of
descriptors known to the poller, and the operations on them composed with the process
table. A step is one hold of the `wakers` or the `registered` mutex, or one block of the
table. The poller is any: an arm may succeed or fail and a poll may report any
descriptors.
-/
namespace Koja.Source.Runtime
open Koja.Lib

variable {X : Type}

abbrev Fd := Int32

inductive Interest where
  | readable | writable
  deriving DecidableEq, Repr

inductive Readiness where
  | readable | writable | error
  deriving DecidableEq, Repr

/-- What to do when a descriptor becomes ready. -/
inductive Waker where
  | deliver (fd : Fd) (pid : Pid) (readiness : Readiness)
  | resume (pid : Pid)
  deriving DecidableEq, Repr

/-- The `IOReady` wire variant byte for a readiness direction. -/
def ioVariant : Readiness → UInt8
  | .readable => 0
  | .writable => 1
  | .error => 2

/-- The eight bytes of an `i64` store. -/
def littleEndian (value : UInt64) : List UInt8 :=
  (List.range 8).map fun byte => (value >>> (8 * byte).toUInt64).toUInt8

/-- The message `send_io_event` sends: the variant byte at offset 8 of the buffer and the
descriptor at offset 16. -/
def ioReadyEnvelope (variant : UInt8) (fd : Fd) : Envelope :=
  .fromPayload tagIoReady (variant :: List.replicate 7 0 ++ littleEndian fd.toInt64.toUInt64) .zero

structure NativeReactor where
  registered : Fd → Bool
  wakers : Fd → Option Waker

namespace NativeReactor

def new : NativeReactor := ⟨fun _ => false, fun _ => none⟩

variable (reactor : NativeReactor) (fd : Fd)

/-- The first hold of `register`. -/
def insertWaker (waker : Waker) : NativeReactor :=
  { reactor with wakers := Function.update reactor.wakers fd (some waker) }

/-- `arm`: the set follows what the poller answered. -/
def arm (armed : Bool) : NativeReactor :=
  { reactor with registered := Function.update reactor.registered fd armed }

/-- `register` after a failed arm: takes the waker back out if it is still the one this
call inserted. -/
def takeBack (waker : Waker) : Bool × NativeReactor :=
  if reactor.wakers fd = some waker then
    (true, { reactor with wakers := Function.update reactor.wakers fd none })
  else (false, reactor)

/-- The first hold of `deregister`. -/
def removeWaker : NativeReactor :=
  { reactor with wakers := Function.update reactor.wakers fd none }

/-- `disarm`, the second hold of `deregister`. -/
def disarm : NativeReactor :=
  { reactor with registered := Function.update reactor.registered fd false }

/-- The hold of `release_fd_and_close`, across the `close`. -/
def release : Option Waker × NativeReactor :=
  (reactor.wakers fd, (reactor.removeWaker fd).disarm fd)

/-- Fills a `Deliver` waker's readiness in from the fired event. -/
def withReadiness (waker : Waker) (readiness : Readiness) : Waker :=
  match waker with
  | .deliver fd pid _ => .deliver fd pid readiness
  | .resume pid => .resume pid

/-- The wakers a poll returns for the fired events. -/
def poll (events : List (Fd × Readiness)) : List Waker :=
  events.filterMap fun event => (reactor.wakers event.1).map (withReadiness · event.2)

end NativeReactor

/-! ## The table and the reactor -/

/-- What an operation on the reactor still has to do between two of its holds. -/
inductive IoPending where
  | insert (fd : Fd) (interest : Interest) (waker : Waker)
  | arm (fd : Fd) (interest : Interest) (waker : Waker)
  | takeBack (fd : Fd) (waker : Waker)
  | wake (waker : Waker)
  | disarm (fd : Fd)

structure IoSys (X : Type) where
  sys : Sys X Envelope
  reactor : NativeReactor
  doing : Multiset IoPending

def IoSys.init : IoSys X := ⟨.init, .new, 0⟩

inductive IoEvent (X : Type) where
  | table (event : Event X Envelope)
  | ioBlock (pid : Pid) (fd : Fd) (interest : Interest) (deadline : Option Instant)
      (outcome : Outcome X Envelope)
  | ioResumed (pid : Pid) (fd : Fd)
  | watchFd (pid : Pid) (fd : Fd) (interest : Interest)
  | unwatchFd (pid : Pid) (fd : Fd)
  | close (fd : Fd)
  | poll (events : List (Fd × Readiness))
  | insert (fd : Fd) (waker : Waker)
  | arm (fd : Fd) (waker : Waker) (armed : Bool)
  | takeBack (fd : Fd) (waker : Waker)
  | wake (waker : Waker) (outcome : Outcome X Envelope)
  | disarm (fd : Fd)

/-- The registration a park of `io_block` leaves to be done. -/
def ioBlockFollows (pid : Pid) (fd : Fd) (interest : Interest) :
    Outcome X Envelope → Multiset IoPending
  | .io .parked => {.insert fd interest (.resume pid)}
  | _ => 0

/-- The readiness `koja_rt_watch_fd` records with its interest. -/
def Interest.readiness : Interest → Readiness
  | .readable => .readable
  | .writable => .writable

/-- The table call a waker stands for: `Resume` promotes, `Deliver` sends `IOReady`. -/
def Waker.call : Waker → Call Envelope
  | .resume pid => .promoteIoWaiter pid
  | .deliver fd pid readiness => .deliver pid (ioReadyEnvelope (ioVariant readiness) fd)

/-- The waker of a descriptor that will never report again. -/
def Waker.hungUp : Waker → Waker
  | .resume pid => .resume pid
  | .deliver fd pid _ => .deliver fd pid .error

/-- `try_park_io` is called by `io_block` only. -/
inductive IoStep : IoSys X → IoEvent X → IoSys X → Prop
  | table {s : IoSys X} {event : Event X Envelope} {sys : Sys X Envelope}
      (step : Step s.sys event sys)
      (elsewhere : ∀ pid deadline outcome, event ≠ .call (.tryParkIo pid deadline) outcome) :
      IoStep s (.table event) { s with sys := sys }
  | ioBlock {s : IoSys X} (pid : Pid) (fd : Fd) (interest : Interest) (deadline : Option Instant) :
      IoStep s (.ioBlock pid fd interest deadline (s.sys.table.perform (.tryParkIo pid deadline)).1)
        { s with
          sys := s.sys.perform (.tryParkIo pid deadline)
          doing := ioBlockFollows pid fd interest
            (s.sys.table.perform (.tryParkIo pid deadline)).1 + s.doing }
  | ioResumed {s : IoSys X} (pid : Pid) (fd : Fd) : IoStep s (.ioResumed pid fd)
        { s with reactor := s.reactor.removeWaker fd, doing := .disarm fd ::ₘ s.doing }
  | watchFd {s : IoSys X} (pid : Pid) (fd : Fd) (interest : Interest) :
      IoStep s (.watchFd pid fd interest)
        { s with
          doing := .insert fd interest (.deliver fd pid interest.readiness) ::ₘ s.doing }
  | unwatchFd {s : IoSys X} (pid : Pid) (fd : Fd) : IoStep s (.unwatchFd pid fd)
        { s with reactor := s.reactor.removeWaker fd, doing := .disarm fd ::ₘ s.doing }
  | close {s : IoSys X} (fd : Fd) : IoStep s (.close fd)
        { s with
          reactor := (s.reactor.release fd).2
          doing := ((s.reactor.release fd).1.elim 0 fun waker => {.wake waker.hungUp}) + s.doing }
  | poll {s : IoSys X} (events : List (Fd × Readiness)) : IoStep s (.poll events)
        { s with doing := ((s.reactor.poll events).map .wake : List IoPending) + s.doing }
  | insert {s : IoSys X} {fd : Fd} {interest : Interest} {waker : Waker}
      {rest : Multiset IoPending} (next : s.doing = .insert fd interest waker ::ₘ rest) :
      IoStep s (.insert fd waker)
        { s with
          reactor := s.reactor.insertWaker fd waker
          doing := .arm fd interest waker ::ₘ rest }
  | arm {s : IoSys X} {fd : Fd} {interest : Interest} {waker : Waker} {rest : Multiset IoPending}
      (next : s.doing = .arm fd interest waker ::ₘ rest) (armed : Bool) :
      IoStep s (.arm fd waker armed)
        { s with
          reactor := s.reactor.arm fd armed
          doing := if armed then rest else .takeBack fd waker ::ₘ rest }
  | takeBack {s : IoSys X} {fd : Fd} {waker : Waker} {rest : Multiset IoPending}
      (next : s.doing = .takeBack fd waker ::ₘ rest) :
      IoStep s (.takeBack fd waker)
        { s with
          reactor := (s.reactor.takeBack fd waker).2
          doing := if (s.reactor.takeBack fd waker).1 then .wake waker.hungUp ::ₘ rest else rest }
  | wake {s : IoSys X} {waker : Waker} {rest : Multiset IoPending}
      (next : s.doing = .wake waker ::ₘ rest) :
      IoStep s (.wake waker (s.sys.table.perform waker.call).1)
        { s with sys := s.sys.perform waker.call, doing := rest }
  | disarm {s : IoSys X} {fd : Fd} {rest : Multiset IoPending}
      (next : s.doing = .disarm fd ::ₘ rest) :
      IoStep s (.disarm fd) { s with reactor := s.reactor.disarm fd, doing := rest }

/-- The block of the table a step is. -/
def IoEvent.onTable : IoEvent X → Option (Event X Envelope)
  | .table event => some event
  | .ioBlock pid _ _ deadline outcome => some (.call (.tryParkIo pid deadline) outcome)
  | .wake waker outcome => some (.call waker.call outcome)
  | _ => none

theorem IoStep.onTable {s after : IoSys X} {event : IoEvent X} (step : IoStep s event after) :
    (∃ inner, event.onTable = some inner ∧ Step s.sys inner after.sys) ∨
      (event.onTable = none ∧ after.sys = s.sys) := by
  cases step with
  | table step => exact .inl ⟨_, rfl, step⟩
  | ioBlock => exact .inl ⟨_, rfl, .call (.fresh (by simp))⟩
  | wake next =>
    rename_i waker rest
    refine .inl ⟨_, rfl, .call (.fresh ?_)⟩
    cases waker <;> simp [Waker.call]
  | _ => exact .inr ⟨rfl, rfl⟩

section
variable {admits : List (IoEvent X) → IoSys X → IoEvent X → Prop} {init s : IoSys X}
  {history : List (IoEvent X)}

theorem io_call (run : Run IoStep admits init history s) (call : Call Envelope)
    (admitted : admits history s (.table (.call call (s.sys.table.perform call).1)))
    (opens : ∀ pid token deadline callee,
      call ≠ .takeReplyOrPark pid token deadline callee := by simp)
    (elsewhere : ∀ pid deadline, call ≠ .tryParkIo pid deadline := by simp) :
    Run IoStep admits init (history ++ [.table (.call call (s.sys.table.perform call).1)])
      { s with sys := s.sys.perform call } := by
  refine run.snoc admitted (.table (.call (.fresh opens)) ?_)
  rintro pid deadline outcome same
  cases same
  exact elsewhere _ _ rfl

end

end Koja.Source.Runtime
