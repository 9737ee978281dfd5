import Koja.Source.Runtime.Lifecycle
import Koja.Source.Runtime.Mailbox

/-!
# Slots and the blocks under a slot hold

The per-slot half of `koja-runtime-core/src/process_table.rs`. A slot is its
lifecycle word, the hot state behind its mutex, the execution cell the claim
holder owns, and per-process scalars. Each definition below is what one hold of
the slot mutex does. A failed debug assertion is counted in `debugFailures`
instead of panicking. The scheduler trace is not modelled: nothing reads it back.
-/
namespace Koja.Source.Runtime

inductive Priority where
  | low | normal | high
  deriving DecidableEq, Repr

namespace Priority

def default : Priority := .normal

/-- The wire index, the enum's declaration order. -/
def index : Priority → UInt8
  | .low => 0
  | .normal => 1
  | .high => 2

/-- Unknown indices clamp to `normal`. -/
def fromIndex (index : UInt8) : Priority :=
  if index = 0 then .low else if index = 2 then .high else .normal

/-- Reductions granted per scheduling quantum. -/
def budget : Priority → UInt32
  | .low => 1000
  | .normal => 2000
  | .high => 4000

end Priority

inductive ExitReason where
  | normal | shutdown | killed | crashed
  deriving DecidableEq, Repr

structure CrashInfo where
  message : String
  backtrace : String
  deriving DecidableEq, Repr

structure ExitNotice where
  crashInfo : Option CrashInfo
  reason : ExitReason
  target : Pid
  watcher : Pid
  deriving DecidableEq, Repr

structure MonitorEntry where
  target : Pid
  token : Int64
  watcher : Pid
  deriving DecidableEq, Repr

/-- One in-flight `Ref.call` wait. -/
structure CallWaiter where
  callee : Pid
  caller : Pid
  token : Int64
  deriving DecidableEq, Repr

/-- The per-slot state behind the slot mutex. -/
structure HotState (M : Type) where
  awaitingReply : Option Int64
  crashInfo : Option CrashInfo
  deadline : Option Instant
  exitReason : ExitReason
  mailbox : Mailbox M
  waiting : WaitTarget

def HotState.default {M : Type} : HotState M where
  awaitingReply := none
  crashInfo := none
  deadline := none
  exitReason := .normal
  mailbox := .empty
  waiting := .receive

/-- The log floor word a slot holds before `Log.configure` runs. -/
def defaultLogLevel : UInt64 := 2

structure Slot (X M : Type) where
  context : Context
  execution : Option X
  hot : HotState M
  lifecycle : WordState
  logBusy : UInt64
  logLevel : UInt64
  parent : Pid
  priority : UInt8
  reductions : UInt32

def Slot.new {X M : Type} : Slot X M where
  context := .zero
  execution := none
  hot := .default
  lifecycle := LifecycleWord.new
  logBusy := 0
  logLevel := defaultLogLevel
  parent := 0
  priority := Priority.default.index
  reductions := 0

/-- Resources moved out of a dead process. -/
structure Reclaim (X M : Type) where
  execution : Option X
  mailbox : Mailbox M

structure ScheduleCounters where
  killsDeferred : UInt64 := 0
  parksRefused : UInt64 := 0
  staleClaimsSkipped : UInt64 := 0
  staleDeadlinesSkipped : UInt64 := 0
  undeliverableEnvelopes : UInt64 := 0
  violations : UInt64 := 0
  deriving DecidableEq, Repr

/-- The table's relaxed atomics, which any block may bump. -/
structure Tally where
  active : UInt64 := 0
  alive : UInt64 := 0
  counters : ScheduleCounters := {}
  debugFailures : Nat := 0
  deriving DecidableEq, Repr

namespace Tally

variable (tally : Tally)

def noteRefusedPark : Tally :=
  { tally with counters.parksRefused := tally.counters.parksRefused + 1 }

def noteViolation : Tally :=
  { tally with counters.violations := tally.counters.violations + 1 }

def noteStaleClaim : Tally :=
  { tally with counters.staleClaimsSkipped := tally.counters.staleClaimsSkipped + 1 }

def noteStaleDeadline : Tally :=
  { tally with counters.staleDeadlinesSkipped := tally.counters.staleDeadlinesSkipped + 1 }

def noteUndeliverable : Tally :=
  { tally with counters.undeliverableEnvelopes := tally.counters.undeliverableEnvelopes + 1 }

def noteDeferredKill : Tally :=
  { tally with counters.killsDeferred := tally.counters.killsDeferred + 1 }

/-- `debug_assert!(condition)`. -/
def debugAssert (condition : Bool) : Tally :=
  if condition then tally else { tally with debugFailures := tally.debugFailures + 1 }

end Tally

structure Wake where
  pid : Pid
  priority : Priority
  deriving DecidableEq, Repr

structure Delivery (M : Type) where
  leftover : Option M
  wake : Option Wake

structure ReplyDelivery (M : Type) where
  delivered : Bool
  leftover : Option M
  wake : Option Wake

/-- The outcome of a check-then-park. -/
inductive MailPark (M : Type) where
  | ready (message : M)
  | calleeDown
  | parked
  | refused
  | stale (message : M)

inductive IoPark where
  | parked | refused | systemMail
  deriving DecidableEq, Repr

/-- What the release at switch-out observed; `dead` goes on to reclaim the slot. -/
inductive Released where
  | parked
  | dead
  | requeue (wake : Wake)
  deriving DecidableEq, Repr

/-- A block under one slot hold: it may change that slot and the counters. -/
abbrev Hold (X M R : Type) := Slot X M → Tally → R × Slot X M × Tally

/-! ## Edges under a slot hold -/

section Holds
variable {X M : Type}

def Slot.wakePriority (slot : Slot X M) : Priority := Priority.fromIndex slot.priority

variable (pid : Pid) (generation : UInt32) (deadline : Option Instant)

/-- The park edge. Refused over a kill tombstone; a park from any other live state
than `running` counts as a violation. -/
def parkEdge (target : ProcessState) : Hold X M Bool := fun slot tally =>
  if slot.lifecycle.isAlive generation then
    match LifecycleWord.tryEdge slot.lifecycle generation .running target with
    | some word => (true, { slot with lifecycle := word }, tally)
    | none => (false, slot, tally.noteViolation.debugAssert false)
  else (false, slot, tally.noteRefusedPark)

/-- The wake edge, from the parked state the caller observed. -/
def wakeEdge (source : ProcessState) : Hold X M (Option Wake) := fun slot tally =>
  match LifecycleWord.tryEdge slot.lifecycle generation source .runnable with
  | none => (none, slot, tally.debugAssert false)
  | some word =>
    (some ⟨pid, slot.wakePriority⟩, { slot with lifecycle := word },
      if source = .waitingIo then { tally with active := tally.active - 1 } else tally)

def tryParkHold (target : WaitTarget) (deadline : Option Instant) :
    Hold X M Bool := fun slot tally =>
  match parkEdge generation .blocked slot tally with
  | (false, slot, tally) => (false, slot, tally)
  | (true, slot, tally) =>
    (true, { slot with hot.deadline := deadline, hot.waiting := target },
      { tally with active := tally.active - 1 })

def tryParkIoHold : Hold X M IoPark :=
  fun slot tally =>
    if slot.hot.mailbox.hasSystem then (.systemMail, slot, tally)
    else
      match parkEdge generation .waitingIo slot tally with
      | (false, slot, tally) => (.refused, slot, tally)
      | (true, slot, tally) => (.parked, { slot with hot.deadline := deadline }, tally)

def receiveOrParkHold : Hold X M (MailPark M) :=
  fun slot tally =>
    match slot.hot.mailbox.popReceived with
    | (some message, mailbox) => (.ready message, { slot with hot.mailbox := mailbox }, tally)
    | (none, _) =>
      match parkEdge generation .blocked slot tally with
      | (false, slot, tally) => (.refused, slot, tally)
      | (true, slot, tally) =>
        (.parked, { slot with hot.deadline := deadline, hot.waiting := .receive },
          { tally with active := tally.active - 1 })

/-- `calleeAlive` is the callee's liveness as loaded inside the hold. -/
def takeReplyOrParkHold [Message M] (generation : UInt32) (token : Int64)
    (deadline : Option Instant) (calleeAlive : Bool) : Hold X M (MailPark M) :=
  fun slot tally =>
    match slot.hot.mailbox.takeReply with
    | (some reply, mailbox) =>
      if Message.replyToken reply = token then
        (.ready reply,
          { slot with hot.mailbox := mailbox, hot.awaitingReply := none, hot.deadline := none },
          tally)
      else (.stale reply, { slot with hot.mailbox := mailbox }, tally)
    | (none, _) =>
      if calleeAlive then
        match parkEdge generation .blocked slot tally with
        | (false, slot, tally) => (.refused, slot, tally)
        | (true, slot, tally) =>
          (.parked, { slot with hot.deadline := deadline, hot.waiting := .reply },
            { tally with active := tally.active - 1 })
      else
        (.calleeDown, { slot with hot.awaitingReply := none, hot.deadline := none }, tally)

def popReceivedHold : Hold X M (Option M) := fun slot tally =>
  let (message, mailbox) := slot.hot.mailbox.popReceived
  (message, { slot with hot.mailbox := mailbox }, tally)

def takeReplyHold : Hold X M (Option M) := fun slot tally =>
  let (message, mailbox) := slot.hot.mailbox.takeReply
  (message, { slot with hot.mailbox := mailbox }, tally)

/-- The parked state a message wakes its receiver from, if any. -/
def wakeSource [Message M] (slot : Slot X M) (message : M) : Option ProcessState :=
  match slot.lifecycle.state with
  | some .blocked => if slot.hot.waiting = Mailbox.targetOf message then some .blocked else none
  | some .waitingIo => if Message.tag message = .lifecycle then some .waitingIo else none
  | _ => none

/-- The delivery body, with liveness already validated: route by tag, then wake. -/
def deliverLocked [Message M] (pid : Pid) (generation : UInt32) (message : M) :
    Hold X M (Delivery M) := fun slot tally =>
  let source := wakeSource slot message
  let (leftover, mailbox) := slot.hot.mailbox.push message
  let slot := { slot with hot.mailbox := mailbox }
  match source with
  | none => (⟨leftover, none⟩, slot, tally)
  | some source =>
    let (wake, slot, tally) := wakeEdge pid generation source slot tally
    (⟨leftover, wake⟩, slot, tally)

/-- The states a fired deadline can wake a process from. -/
def ProcessState.isParked : ProcessState → Bool
  | .blocked | .waitingIo => true
  | _ => false

def promoteExpiredHold (fireAt : Instant) : Hold X M (Option Wake) := fun slot tally =>
  match slot.lifecycle.state.filter (·.isParked) with
  | none => (none, slot, tally)
  | some parked =>
    if slot.lifecycle.generation = generation ∧ slot.hot.deadline = some fireAt then
      wakeEdge pid generation parked { slot with hot.deadline := none } tally
    else (none, slot, tally)

def promoteIoWaiterHold : Hold X M (Option Wake) :=
  fun slot tally =>
    if slot.lifecycle.generation ≠ generation ∨ slot.lifecycle.state ≠ some .waitingIo then
      (none, slot, tally)
    else wakeEdge pid generation .waitingIo { slot with hot.deadline := none } tally

def promoteCallWaiterHold (caller : Pid) (generation : UInt32) (token : Int64) :
    Hold X M (Option Wake) := fun slot tally =>
  if slot.lifecycle.generation = generation ∧ slot.lifecycle.state = some .blocked ∧
      slot.hot.waiting = .reply ∧ slot.hot.awaitingReply = some token then
    wakeEdge caller generation .blocked { slot with hot.deadline := none } tally
  else (none, slot, tally)

/-- Detaches a dead slot's resources and vacates it. -/
def reclaimLocked : Hold X M (Reclaim X M) := fun slot tally =>
  (⟨slot.execution, slot.hot.mailbox⟩,
    { slot with
      execution := none
      hot := .default
      lifecycle := LifecycleWord.vacate slot.lifecycle },
    (tally.debugAssert slot.execution.isSome).debugAssert (slot.lifecycle.state = some .dead))

/-- What the death edge's slot hold hands to its registry pass. -/
structure DeathStaged (X M : Type) where
  reason : ExitReason
  crashInfo : Option CrashInfo
  parent : Pid
  reclaim : Option (Reclaim X M)

/-- The death edge under the slot hold. `none` when the target is dead already. -/
def deathHold (forced : Option ExitReason) :
    Hold X M (Option (DeathStaged X M)) := fun slot tally =>
  match LifecycleWord.tryKill slot.lifecycle generation with
  | none => (none, slot, tally)
  | some word =>
    let prior := slot.lifecycle
    let slot := { slot with
      lifecycle := word
      hot.exitReason := forced.getD slot.hot.exitReason }
    let tally := { tally with alive := tally.alive - 1 }
    let tally :=
      if prior.state = some .running ∨ prior.state = some .waitingIo then
        { tally with active := tally.active - 1 }
      else tally
    if prior.onCpu then
      (some ⟨slot.hot.exitReason, slot.hot.crashInfo, slot.parent, none⟩, slot,
        tally.noteDeferredKill)
    else
      let (reclaim, vacated, tally) := reclaimLocked slot tally
      (some ⟨slot.hot.exitReason, slot.hot.crashInfo, slot.parent, some reclaim⟩, vacated, tally)

end Holds

end Koja.Source.Runtime
