import Koja.Source.Runtime.Slot

/-!
# The process table

The table-wide half of `koja-runtime-core/src/process_table.rs`. The definitions
follow the source's atomic blocks: one slot-mutex hold, one registry hold, or one
compare-and-swap on a lifecycle word. An operation made of several blocks is
their sequence, so that a step relation can interleave others between them.
-/
namespace Koja.Source.Runtime

inductive Mode where
  | running | draining
  deriving DecidableEq, Repr

/-- The cold global state behind the registry mutex. `free` is a stack with its top
at the head; a `children` entry is a nonempty ascending set. -/
structure Registry where
  callWaiters : List CallWaiter
  children : Pid → Option (List Pid)
  free : List UInt32
  mode : Mode
  monitors : List MonitorEntry
  nextMonitorToken : Int64
  pendingCallDowns : List CallWaiter
  pendingExitNotices : List ExitNotice
  pendingKills : List Pid

/-- The process store. `arena` is total over the `u32` indices a reader can ask
for: beyond `published` it holds the fresh slots a chunk is allocated with. -/
structure ProcessTable (X M : Type) where
  arena : UInt32 → Slot X M
  published : Nat
  tally : Tally
  mainPid : Pid
  registry : Registry

def Registry.new : Registry where
  callWaiters := []
  children := fun _ => none
  free := []
  mode := .running
  monitors := []
  nextMonitorToken := 1
  pendingCallDowns := []
  pendingExitNotices := []
  pendingKills := []

/-- `BTreeSet::insert` on an ascending list. -/
def insertPid (pid : Pid) (set : List Pid) : List Pid :=
  if pid ∈ set then set else set.orderedInsert (· ≤ ·) pid

variable (registry : Registry)

/-- `children.entry(parent).or_default().insert(pid)`. -/
def Registry.addChild (parent pid : Pid) : Registry :=
  { registry with
    children := Function.update registry.children parent
      (some (insertPid pid ((registry.children parent).getD []))) }

/-- Drops `pid` from its parent's entry, and the entry when it empties. -/
def Registry.removeChild (parent pid : Pid) : Registry :=
  match registry.children parent with
  | none => registry
  | some siblings =>
    let rest := siblings.erase pid
    { registry with
      children := Function.update registry.children parent
        (if rest.isEmpty then none else some rest) }

/-- The death edge's registry pass. -/
def Registry.notifyExit (pid parent : Pid) (reason : ExitReason)
    (crashInfo : Option CrashInfo) : Registry :=
  let watched := registry.monitors.filter (·.target = pid)
  let callDowns := registry.callWaiters.filter
    (fun waiter => waiter.callee = pid ∧ waiter.caller ≠ pid)
  let staged : Registry := { registry with
    monitors := registry.monitors.filter (fun entry => entry.target ≠ pid ∧ entry.watcher ≠ pid)
    pendingExitNotices := registry.pendingExitNotices ++
      watched.map (fun entry => ⟨crashInfo, reason, pid, entry.watcher⟩)
    callWaiters := registry.callWaiters.filter
      (fun waiter => waiter.callee ≠ pid ∧ waiter.caller ≠ pid)
    pendingCallDowns := registry.pendingCallDowns ++ callDowns
    children := Function.update registry.children pid none
    pendingKills := registry.pendingKills ++ (registry.children pid).getD [] }
  staged.removeChild parent pid

namespace ProcessTable

variable {X M : Type}

def new : ProcessTable X M where
  arena := fun _ => .new
  published := 0
  tally := {}
  mainPid := 0
  registry := .new

variable (t : ProcessTable X M) (pid : Pid)

/-- The slot `pid` points into and the generation it asks for, with no generation
check. `none` only for an index beyond the published length. -/
def slot : Option (Slot X M × UInt32) :=
  let (index, generation) := decode pid
  if index.toNat < t.published then some (t.arena index, generation) else none

/-- The slot at `pid`'s index, whoever occupies it. -/
abbrev slotOf : Slot X M := t.arena (slotIndex pid)

/-- Whether `pid` resolves to a live process. -/
def isAlive (t : ProcessTable X M) (pid : Pid) : Bool :=
  (t.slot pid).any fun (slot, generation) => slot.lifecycle.isAlive generation

/-- Writes back the slot a block worked on, and the counters. -/
def store (slot : Slot X M) (tally : Tally) :
    ProcessTable X M :=
  { t with arena := Function.update t.arena (slotIndex pid) slot, tally := tally }

def tallied (tally : Tally) : ProcessTable X M := { t with tally := tally }

/-- Runs a block under `pid`'s slot mutex after validating the generation. -/
def withHot {R : Type} (t : ProcessTable X M) (pid : Pid) (f : UInt32 → Hold X M R) :
    Option R × ProcessTable X M :=
  match t.slot pid with
  | none => (none, t)
  | some (slot, generation) =>
    if slot.lifecycle.generation ≠ generation then (none, t)
    else
      let (result, slot, tally) := f generation slot t.tally
      (some result, t.store pid slot tally)

def withRegistry (registry : Registry) : ProcessTable X M :=
  { t with registry := registry }

/-- Publishes one more slot. The index is truncated to `u32`. -/
def grow : UInt32 × ProcessTable X M :=
  (t.published.toUInt32, { t with published := t.published + 1 })

/-- Pops a free index, or grows the arena. -/
def takeIndex : UInt32 × ProcessTable X M :=
  match t.registry.free with
  | index :: rest => (index, t.withRegistry { t.registry with free := rest })
  | [] => t.grow

/-- The slot a spawn leaves behind at `index`, occupied at `generation`. -/
def occupied (index generation : UInt32) (execution : X) (parent : Option Pid) : Slot X M :=
  let parentSlot := parent.bind t.slot
  { t.arena index with
    parent := parent.getD 0
    context := parentSlot.elim .zero (·.1.context)
    logLevel := parentSlot.elim defaultLogLevel (·.1.logLevel)
    logBusy := 0
    priority := Priority.default.index
    execution := some execution
    lifecycle := LifecycleWord.occupy generation }

/-- Registers a new process in a free or freshly grown slot, or hands `execution`
back over the spawner's tombstone. -/
def spawn (execution : X) (parent : Option Pid) :
    Except X Pid × ProcessTable X M :=
  if parent.any (fun parent => !t.isAlive parent) then (.error execution, t)
  else
    let (index, t) := t.takeIndex
    let prior := (t.arena index).lifecycle
    let generation := max prior.generation 1
    let pid := encode index generation
    let registry := parent.elim t.registry (t.registry.addChild · pid)
    let tally := t.tally.debugAssert (prior.state = none)
    (.ok pid,
      { t with
        arena := Function.update t.arena index (t.occupied index generation execution parent)
        registry := registry
        tally := { tally with alive := tally.alive + 1 }
        mainPid := if t.mainPid = 0 then pid else t.mainPid })

def tryClaim (t : ProcessTable X M) (pid : Pid) : Bool × ProcessTable X M :=
  match t.slot pid with
  | none => (false, t.tallied t.tally.noteStaleClaim)
  | some (slot, generation) =>
    match LifecycleWord.tryClaim slot.lifecycle generation with
    | none => (false, t.tallied t.tally.noteStaleClaim)
    | some word =>
      (true, t.store pid { slot with lifecycle := word, reductions := slot.wakePriority.budget }
        { t.tally with active := t.tally.active + 1 })

/-- `unwrap_or_else` of the park family: a stale PID is a refused park. -/
def orRefused {R : Type} (refused : R) : Option R × ProcessTable X M → R × ProcessTable X M
  | (some park, t) => (park, t)
  | (none, t) => (refused, t.tallied t.tally.noteRefusedPark)

def tryPark (target : WaitTarget) (deadline : Option Instant) : Bool × ProcessTable X M :=
  orRefused false (t.withHot pid (tryParkHold · target deadline))

def tryParkIo (deadline : Option Instant) :
    IoPark × ProcessTable X M :=
  orRefused .refused (t.withHot pid (tryParkIoHold · deadline))

def receiveOrPark (deadline : Option Instant) :
    MailPark M × ProcessTable X M :=
  orRefused .refused (t.withHot pid (receiveOrParkHold · deadline))

def popReceived : Option M × ProcessTable X M :=
  let (message, t) := t.withHot pid fun _ => popReceivedHold
  (message.join, t)

def takeReply : Option M × ProcessTable X M :=
  let (message, t) := t.withHot pid fun _ => takeReplyHold
  (message.join, t)

/-- The setters under the slot hold: one definition over the field they write. -/
def modifyHot (f : HotState M → HotState M) :
    ProcessTable X M :=
  (t.withHot pid fun _ slot tally => ((), { slot with hot := f slot.hot }, tally)).2

def clearDeadline : ProcessTable X M :=
  t.modifyHot pid fun hot => { hot with deadline := none }

def setAwaitingReply (token : Int64) : ProcessTable X M :=
  t.modifyHot pid fun hot => { hot with awaitingReply := some token }

/-- The slot hold of `clear_awaiting_reply`; the waiter entry is evicted after it. -/
def clearAwaitingReplyBlock : ProcessTable X M :=
  t.modifyHot pid fun hot => { hot with awaitingReply := none }

def setExitReason (reason : ExitReason) : ProcessTable X M :=
  t.modifyHot pid fun hot => { hot with exitReason := reason }

def setCrashInfo (crashInfo : CrashInfo) :
    ProcessTable X M :=
  t.modifyHot pid fun hot => { hot with crashInfo := some crashInfo }

/-- The lock-free scalar setters: one generation check, then the store. -/
def modifyScalars (f : Slot X M → Slot X M) :
    ProcessTable X M :=
  match t.slot pid with
  | none => t
  | some (slot, generation) =>
    if slot.lifecycle.generation = generation then t.store pid (f slot) t.tally else t

def setPriority (priority : Priority) : ProcessTable X M :=
  t.modifyScalars pid fun slot => { slot with priority := priority.index }

def setContext (context : Context) : ProcessTable X M :=
  t.modifyScalars pid fun slot => { slot with context := context }

def setLogLevel (level : UInt64) : ProcessTable X M :=
  t.modifyScalars pid fun slot => { slot with logLevel := level }

/-- Marks `pid` as running its log handlers; `false` when it already was. -/
def logEnter : Bool × ProcessTable X M :=
  ((t.slot pid).any fun (slot, generation) =>
      slot.lifecycle.generation = generation ∧ slot.logBusy = 0,
    t.modifyScalars pid fun slot => { slot with logBusy := 1 })

def logLeave : ProcessTable X M :=
  t.modifyScalars pid fun slot => { slot with logBusy := 0 }

/-- The spawning process of `pid`. `none` for the entry process and stale PIDs. -/
def parent (t : ProcessTable X M) (pid : Pid) : Option Pid :=
  match t.slot pid with
  | none => none
  | some (slot, generation) =>
    if slot.lifecycle.generation ≠ generation then none
    else if slot.parent = 0 then none
    else some slot.parent

/-- The delivery under the slot hold, when the live target passes `accepts`. -/
def deliverIf [Message M] (t : ProcessTable X M) (pid : Pid) (message : M)
    (accepts : HotState M → Bool) : Option (Delivery M) × ProcessTable X M :=
  match t.slot pid with
  | none => (none, t)
  | some (slot, generation) =>
    if slot.lifecycle.isAlive generation && accepts slot.hot then
      let (delivery, slot, tally) := deliverLocked pid generation message slot t.tally
      (some delivery, t.store pid slot tally)
    else (none, t)

/-- Routes `message` into `pid`'s mailbox, or bounces it off a dead or stale target. -/
def deliver [Message M] (t : ProcessTable X M) (pid : Pid) (message : M) :
    Delivery M × ProcessTable X M :=
  match t.deliverIf pid message fun _ => true with
  | (some delivery, t) => (delivery, t)
  | (none, t) => (⟨some message, none⟩, t.tallied t.tally.noteUndeliverable)

/-- Slots `message` as the reply for the in-flight call `token`, or hands it back. -/
def deliverReply [Message M] (t : ProcessTable X M) (pid : Pid) (token : Int64) (message : M) :
    ReplyDelivery M × ProcessTable X M :=
  match t.deliverIf pid message fun hot => hot.awaitingReply = some token with
  | (some delivery, t) => (⟨true, delivery.leftover, delivery.wake⟩, t)
  | (none, t) => (⟨false, some message, none⟩, t)

def promoteExpired (fireAt : Instant) :
    Option Wake × ProcessTable X M :=
  match t.withHot pid (promoteExpiredHold pid · fireAt) with
  | (some (some wake), t) => (some wake, t)
  | (_, t) => (none, t.tallied t.tally.noteStaleDeadline)

def promoteIoWaiter : Option Wake × ProcessTable X M :=
  let (wake, t) := t.withHot pid (promoteIoWaiterHold pid)
  (wake.join, t)

def promoteCallWaiter (caller : Pid) (token : Int64) :
    Option Wake × ProcessTable X M :=
  let (wake, t) := t.withHot caller (promoteCallWaiterHold caller · token)
  (wake.join, t)

/-- Cooperative preemption: marks a running process runnable. -/
def yieldRunning : ProcessTable X M :=
  match t.slot pid with
  | none => t
  | some (slot, generation) =>
    match LifecycleWord.tryEdge slot.lifecycle generation .running .runnable with
    | none => t
    | some word =>
      t.store pid { slot with lifecycle := word } { t.tally with active := t.tally.active - 1 }

/-- The release of `after_switch`, routed by the state it observed. -/
def release (t : ProcessTable X M) (pid : Pid) : Released × ProcessTable X M :=
  match t.slot pid with
  | none => (.parked, t)
  | some (slot, generation) =>
    match LifecycleWord.release slot.lifecycle generation with
    | none => (.parked, t)
    | some word =>
      (match slot.lifecycle.state with
        | some .created | some .runnable => .requeue ⟨pid, slot.wakePriority⟩
        | some .dead => .dead
        | _ => .parked,
      t.store pid { slot with lifecycle := word } t.tally)

/-- The slot hold of `reclaim`, on the slot the release worked on. -/
def reclaim (t : ProcessTable X M) (pid : Pid) : Reclaim X M × ProcessTable X M :=
  let (reclaim, slot, tally) := reclaimLocked (t.arena (slotIndex pid)) t.tally
  (reclaim, t.store pid slot tally)

/-- Returns a slot index to the freelist. -/
def pushFree : ProcessTable X M :=
  t.withRegistry { t.registry with free := slotIndex pid :: t.registry.free }

/-- The slot hold of the death edge. `none`: already dead or stale. -/
def death (forced : Option ExitReason) :
    Option (DeathStaged X M) × ProcessTable X M :=
  let (staged, t) := t.withHot pid (deathHold · forced)
  (staged.join, t)

/-- The registry pass of the death edge. -/
def deathPass (staged : DeathStaged X M) :
    ProcessTable X M :=
  let t := t.withRegistry (t.registry.notifyExit pid staged.parent staged.reason staged.crashInfo)
  if staged.reclaim.isSome then t.pushFree pid else t

/-- Registers a wait unless it is registered or an endpoint is dead. -/
def ensureCallWaiter (caller callee : Pid) (token : Int64) :
    ProcessTable X M :=
  if !(t.registry.callWaiters.any fun waiter => waiter.caller = caller ∧ waiter.token = token) &&
      t.isAlive callee && t.isAlive caller then
    t.withRegistry
      { t.registry with callWaiters := t.registry.callWaiters ++ [⟨callee, caller, token⟩] }
  else t

/-- The slot hold of `take_reply_or_park`. -/
def takeReplyOrParkBlock [Message M] (t : ProcessTable X M) (pid : Pid) (token : Int64)
    (deadline : Option Instant) (callee : Pid) : MailPark M × ProcessTable X M :=
  orRefused .refused (t.withHot pid (takeReplyOrParkHold · token deadline (t.isAlive callee)))

def evictCallWaiter (caller : Pid) : ProcessTable X M :=
  t.withRegistry
    { t.registry with callWaiters := t.registry.callWaiters.filter (·.caller ≠ caller) }

def takeCallDowns : List CallWaiter × ProcessTable X M :=
  (t.registry.pendingCallDowns, t.withRegistry { t.registry with pendingCallDowns := [] })

/-- The first registry hold of `monitor`: mints the token and decides aliveness. -/
def registerMonitor (watcher target : Pid) : (Int64 × Bool) × ProcessTable X M :=
  let token := t.registry.nextMonitorToken
  let registry := { t.registry with nextMonitorToken := token + 1 }
  if t.isAlive target then
    ((token, true),
      t.withRegistry { registry with monitors := registry.monitors ++ [⟨target, token, watcher⟩] })
  else ((token, false), t.withRegistry registry)

/-- The slot hold of `monitor` on a dead target: the reason its slot still records. -/
def monitorReason (target : Pid) : ExitReason × Option CrashInfo :=
  match t.slot target with
  | none => (.normal, none)
  | some (slot, generation) =>
    if slot.lifecycle.generation = generation ∧ slot.lifecycle.state = some .dead then
      (slot.hot.exitReason, slot.hot.crashInfo)
    else (.normal, none)

/-- The second registry hold of `monitor`: stages the immediate notice. -/
def stageNotice (notice : ExitNotice) : ProcessTable X M :=
  t.withRegistry
    { t.registry with pendingExitNotices := t.registry.pendingExitNotices ++ [notice] }

def demonitor (token : Int64) : ProcessTable X M :=
  t.withRegistry { t.registry with monitors := t.registry.monitors.filter (·.token ≠ token) }

def takeExitNotices : List ExitNotice × ProcessTable X M :=
  (t.registry.pendingExitNotices, t.withRegistry { t.registry with pendingExitNotices := [] })

def takePendingKills : List Pid × ProcessTable X M :=
  (t.registry.pendingKills, t.withRegistry { t.registry with pendingKills := [] })

def enterDraining : Bool × ProcessTable X M :=
  (t.registry.mode ≠ .draining, t.withRegistry { t.registry with mode := .draining })

/-- One load of `kill_all`'s scan: the PID of a live slot. -/
def livePid (index : UInt32) : Option Pid :=
  let word := (t.arena index).lifecycle
  if index.toNat < t.published ∧ word.state.any (· ≠ .dead) then
    some (encode index word.generation)
  else none

/-! ### Operations of several blocks, with nobody in between -/

/-- The "last resort" termination primitive. -/
def kill : Option (Reclaim X M) × ProcessTable X M :=
  match t.death pid (some .killed) with
  | (none, t) => (none, t)
  | (some staged, t) => (staged.reclaim, t.deathPass pid staged)

/-- The self-death edge; its reclaim, if any, is dropped. -/
def markDeadIfAlive : Bool × ProcessTable X M :=
  match t.death pid none with
  | (none, t) => (false, t)
  | (some staged, t) => (true, t.deathPass pid staged)

/-- What became of a process at its owner's switch-out. -/
inductive SwitchOutcome (X M : Type) where
  | parked
  | reclaimed (reclaim : Reclaim X M)
  | requeue (wake : Wake)

def afterSwitch : SwitchOutcome X M × ProcessTable X M :=
  match t.release pid with
  | (.requeue wake, t) => (.requeue wake, t)
  | (.parked, t) => (.parked, t)
  | (.dead, t) =>
    let (reclaim, t) := t.reclaim pid
    (.reclaimed reclaim, t.pushFree pid)

def takeReplyOrPark [Message M] (t : ProcessTable X M) (pid : Pid) (token : Int64)
    (deadline : Option Instant) (callee : Pid) : MailPark M × ProcessTable X M :=
  let t := t.ensureCallWaiter pid callee token
  match t.takeReplyOrParkBlock pid token deadline callee with
  | (.ready reply, t) => (.ready reply, t.evictCallWaiter pid)
  | (.calleeDown, t) => (.calleeDown, t.evictCallWaiter pid)
  | (park, t) => (park, t)

def clearAwaitingReply : ProcessTable X M :=
  (t.clearAwaitingReplyBlock pid).evictCallWaiter pid

def monitor (watcher target : Pid) : Int64 × ProcessTable X M :=
  match t.registerMonitor watcher target with
  | ((token, true), t) => (token, t)
  | ((token, false), t) =>
    let (reason, crashInfo) := t.monitorReason target
    (token, t.stageNotice ⟨crashInfo, reason, target, watcher⟩)

/-- The PIDs of all currently live processes. The scan's bound is truncated to `u32`. -/
def livePids : List Pid :=
  (List.range t.published.toUInt32.toNat).filterMap fun index => t.livePid index.toUInt32

/-- Kills a batch in order, collecting the detached resources. -/
def killEach (t : ProcessTable X M) : List Pid → List (Reclaim X M) × ProcessTable X M
  | [] => ([], t)
  | pid :: rest =>
    let (reclaim, t) := t.kill pid
    let (reclaims, t) := t.killEach rest
    (reclaim.toList ++ reclaims, t)

def killAll : List (Reclaim X M) × ProcessTable X M :=
  t.killEach t.livePids

end ProcessTable

end Koja.Source.Runtime
