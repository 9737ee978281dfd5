import Koja.Source.Runtime.ProcessTable

/-!
# Calls on one process

Every operation of the table that names a process and works on its slot in one
block, as data, so that a statement can range over all of them. `Touch` says once
what such a block can do to the slot it names, guards included: the results about
slots go by its cases and never unfold an operation again.
-/
namespace Koja.Source.Runtime

/-- The one-block operations, and the slot block of those made of several. -/
inductive Call (M : Type) where
  | deliver (pid : Pid) (message : M)
  | deliverReply (pid : Pid) (token : Int64) (message : M)
  | tryClaim (pid : Pid)
  | tryPark (pid : Pid) (target : WaitTarget) (deadline : Option Instant)
  | tryParkIo (pid : Pid) (deadline : Option Instant)
  | receiveOrPark (pid : Pid) (deadline : Option Instant)
  | takeReplyOrPark (pid : Pid) (token : Int64) (deadline : Option Instant) (callee : Pid)
  | popReceived (pid : Pid)
  | takeReply (pid : Pid)
  | promoteExpired (pid : Pid) (fireAt : Instant)
  | promoteIoWaiter (pid : Pid)
  | promoteCallWaiter (pid : Pid) (token : Int64)
  | yieldRunning (pid : Pid)
  | afterSwitch (pid : Pid)
  | kill (pid : Pid)
  | markDeadIfAlive (pid : Pid)
  | clearDeadline (pid : Pid)
  | setAwaitingReply (pid : Pid) (token : Int64)
  | clearAwaitingReply (pid : Pid)
  | setExitReason (pid : Pid) (reason : ExitReason)
  | setCrashInfo (pid : Pid) (crashInfo : CrashInfo)
  | setPriority (pid : Pid) (priority : Priority)
  | setContext (pid : Pid) (context : Context)
  | setLogLevel (pid : Pid) (level : UInt64)
  | logEnter (pid : Pid)
  | logLeave (pid : Pid)

/-- What a block hands back. -/
inductive Outcome (X M : Type) where
  | done
  | flag (value : Bool)
  | message (message : Option M)
  | mail (park : MailPark M)
  | io (park : IoPark)
  | delivery (delivery : Delivery M)
  | reply (delivery : ReplyDelivery M)
  | wake (wake : Option Wake)
  | released (released : Released)
  | died (staged : Option (DeathStaged X M))

variable {X M : Type}

namespace Call

/-- The process a call names. -/
def pid : Call M → Pid
  | deliver pid _ | deliverReply pid _ _ | tryClaim pid | tryPark pid _ _ | tryParkIo pid _
  | receiveOrPark pid _ | takeReplyOrPark pid _ _ _ | popReceived pid | takeReply pid
  | promoteExpired pid _ | promoteIoWaiter pid | promoteCallWaiter pid _ | yieldRunning pid
  | afterSwitch pid | kill pid | markDeadIfAlive pid | clearDeadline pid
  | setAwaitingReply pid _ | clearAwaitingReply pid | setExitReason pid _
  | setCrashInfo pid _ | setPriority pid _ | setContext pid _ | setLogLevel pid _
  | logEnter pid | logLeave pid => pid

/-- The reason a death edge records, for the two calls that take it. -/
def forces : Call M → Option (Option ExitReason)
  | kill _ => some (some .killed)
  | markDeadIfAlive _ => some none
  | _ => none

/-- The write of the setters that hold the slot mutex. -/
def hotUpdate : Call M → Option (HotState M → HotState M)
  | clearDeadline _ => some fun hot => { hot with deadline := none }
  | setAwaitingReply _ token => some fun hot => { hot with awaitingReply := some token }
  | clearAwaitingReply _ => some fun hot => { hot with awaitingReply := none }
  | setExitReason _ reason => some fun hot => { hot with exitReason := reason }
  | setCrashInfo _ crashInfo => some fun hot => { hot with crashInfo := some crashInfo }
  | _ => none

/-- The write of the lock-free setters. -/
def scalarUpdate : Call M → Option (Slot X M → Slot X M)
  | setPriority _ priority => some fun slot => { slot with priority := priority.index }
  | setContext _ context => some fun slot => { slot with context := context }
  | setLogLevel _ level => some fun slot => { slot with logLevel := level }
  | logLeave _ => some fun slot => { slot with logBusy := 0 }
  | _ => none

end Call

/-- Runs a call's block on the table. -/
def ProcessTable.perform [Message M] (t : ProcessTable X M) :
    Call M → Outcome X M × ProcessTable X M
  | .deliver pid message => Prod.map .delivery id (t.deliver pid message)
  | .deliverReply pid token message => Prod.map .reply id (t.deliverReply pid token message)
  | .tryClaim pid => Prod.map .flag id (t.tryClaim pid)
  | .tryPark pid target deadline => Prod.map .flag id (t.tryPark pid target deadline)
  | .tryParkIo pid deadline => Prod.map .io id (t.tryParkIo pid deadline)
  | .receiveOrPark pid deadline => Prod.map .mail id (t.receiveOrPark pid deadline)
  | .takeReplyOrPark pid token deadline callee =>
    Prod.map .mail id (t.takeReplyOrParkBlock pid token deadline callee)
  | .popReceived pid => Prod.map .message id (t.popReceived pid)
  | .takeReply pid => Prod.map .message id (t.takeReply pid)
  | .promoteExpired pid fireAt => Prod.map .wake id (t.promoteExpired pid fireAt)
  | .promoteIoWaiter pid => Prod.map .wake id (t.promoteIoWaiter pid)
  | .promoteCallWaiter pid token => Prod.map .wake id (t.promoteCallWaiter pid token)
  | .yieldRunning pid => (.done, t.yieldRunning pid)
  | .afterSwitch pid => Prod.map .released id (t.release pid)
  | .kill pid => Prod.map .died id (t.death pid (some .killed))
  | .markDeadIfAlive pid => Prod.map .died id (t.death pid none)
  | .clearDeadline pid => (.done, t.clearDeadline pid)
  | .setAwaitingReply pid token => (.done, t.setAwaitingReply pid token)
  | .clearAwaitingReply pid => (.done, t.clearAwaitingReplyBlock pid)
  | .setExitReason pid reason => (.done, t.setExitReason pid reason)
  | .setCrashInfo pid crashInfo => (.done, t.setCrashInfo pid crashInfo)
  | .setPriority pid priority => (.done, t.setPriority pid priority)
  | .setContext pid context => (.done, t.setContext pid context)
  | .setLogLevel pid level => (.done, t.setLogLevel pid level)
  | .logEnter pid => Prod.map .flag id (t.logEnter pid)
  | .logLeave pid => (.done, t.logLeave pid)

namespace Slot

variable (slot : Slot X M) (pid : Pid)

/-- The slot still belongs to the generation `pid` names. -/
def Current : Prop := slot.lifecycle.generation = generationOf pid

/-- The slot's occupant is the live process `pid`. -/
def Alive : Prop :=
  slot.lifecycle.isAlive (generationOf pid) = true

/-- The slot's occupant is `pid`, in state `state`. -/
def In (state : ProcessState) : Prop :=
  slot.Current pid ∧ slot.lifecycle.state = some state

instance (slot : Slot X M) (pid : Pid) : Decidable (slot.Current pid) :=
  inferInstanceAs (Decidable (_ = _))

instance (slot : Slot X M) (pid : Pid) : Decidable (slot.Alive pid) :=
  inferInstanceAs (Decidable (_ = _))

instance (slot : Slot X M) (pid : Pid) (state : ProcessState) :
    Decidable (slot.In pid state) :=
  inferInstanceAs (Decidable (_ ∧ _))

theorem alive_iff {slot : Slot X M} {pid : Pid} : slot.Alive pid ↔
      slot.Current pid ∧ ∃ state, slot.lifecycle.state = some state ∧ state ≠ .dead :=
  LifecycleWord.isAlive_iff

theorem Alive.current {slot : Slot X M} {pid : Pid} (alive : slot.Alive pid) : slot.Current pid :=
  (alive_iff.mp alive).1

theorem Alive.not_dead {slot : Slot X M} {pid : Pid} (alive : slot.Alive pid) :
    slot.lifecycle.state ≠ some .dead := by
  obtain ⟨-, state, occupied, live⟩ := alive_iff.mp alive
  simpa [occupied] using live

/-- The slot after an edge of its state alone. -/
def withState (state : ProcessState) : Slot X M :=
  { slot with lifecycle := { slot.lifecycle with state := some state } }

/-- The slot with `message` routed into its mailbox. -/
def posted [Message M] (slot : Slot X M) (message : M) : Slot X M :=
  { slot with hot.mailbox := (slot.hot.mailbox.push message).2 }

/-- The slot a reclaim leaves behind. -/
def vacated : Slot X M :=
  { slot with
    execution := none
    hot := .default
    lifecycle := LifecycleWord.vacate slot.lifecycle }

/-- The slot of a process killed on the cpu. -/
def marked (forced : Option ExitReason) : Slot X M :=
  { slot with
    hot.exitReason := forced.getD slot.hot.exitReason
    lifecycle := { slot.lifecycle with state := some .dead } }

/-- The resources a reclaim moves out. -/
def resources : Reclaim X M := ⟨slot.execution, slot.hot.mailbox⟩

/-- What a death edge on the slot stages for its registry pass. -/
def staged (forced : Option ExitReason) (reclaim : Option (Reclaim X M)) : DeathStaged X M :=
  ⟨forced.getD slot.hot.exitReason, slot.hot.crashInfo, slot.parent, reclaim⟩

/-- How the release of `pid` routes the process. -/
def releasedAs : Released :=
  match slot.lifecycle.state with
  | some .created | some .runnable => .requeue ⟨pid, slot.wakePriority⟩
  | some .dead => .dead
  | _ => .parked

end Slot

/-- A delivery body: the message is routed, and a matching parked receiver woken. -/
inductive Posted [Message M] (pid : Pid) (slot : Slot X M) (message : M) :
    Option Wake → Slot X M → Prop
  | quiet (asleep : wakeSource slot message = none) :
      Posted pid slot message none (slot.posted message)
  | waking {source : ProcessState} (wakes : wakeSource slot message = some source) :
      Posted pid slot message (some ⟨pid, slot.wakePriority⟩)
        ((slot.posted message).withState .runnable)

/-- `Touch t call outcome slot after`: on table `t`, the block of `call` finds
`slot`, hands back `outcome` and leaves `after`. -/
inductive Touch [Message M] (t : ProcessTable X M) :
    Call M → Outcome X M → Slot X M → Slot X M → Prop
  | delivered {pid message wake slot after} (alive : slot.Alive pid)
      (posted : Posted pid slot message wake after) :
      Touch t (.deliver pid message)
        (.delivery ⟨(slot.hot.mailbox.push message).1, wake⟩) slot after
  | bounced {pid message slot} (gone : ¬ slot.Alive pid) :
      Touch t (.deliver pid message) (.delivery ⟨some message, none⟩) slot slot
  | replied {pid token message wake slot after} (alive : slot.Alive pid)
      (awaited : slot.hot.awaitingReply = some token)
      (posted : Posted pid slot message wake after) :
      Touch t (.deliverReply pid token message)
        (.reply ⟨true, (slot.hot.mailbox.push message).1, wake⟩) slot after
  | replyBounced {pid token message slot}
      (gone : ¬ (slot.Alive pid ∧ slot.hot.awaitingReply = some token)) :
      Touch t (.deliverReply pid token message) (.reply ⟨false, some message, none⟩) slot slot
  | claimed {pid slot} (current : slot.Current pid) (idle : slot.lifecycle.onCpu = false)
      (ready : slot.lifecycle.state = some .created ∨ slot.lifecycle.state = some .runnable) :
      Touch t (.tryClaim pid) (.flag true) slot
        { slot with
          lifecycle := ⟨slot.lifecycle.generation, true, some .running⟩
          reductions := slot.wakePriority.budget }
  | claimMissed {pid slot} (refused : ¬ (slot.Current pid ∧ slot.lifecycle.onCpu = false ∧
        (slot.lifecycle.state = some .created ∨ slot.lifecycle.state = some .runnable))) :
      Touch t (.tryClaim pid) (.flag false) slot slot
  | parked {pid target deadline slot} (running : slot.In pid .running) :
      Touch t (.tryPark pid target deadline) (.flag true) slot
        { slot.withState .blocked with hot.deadline := deadline, hot.waiting := target }
  | parkRefused {pid target deadline slot} (refused : ¬ slot.In pid .running) :
      Touch t (.tryPark pid target deadline) (.flag false) slot slot
  | ioParked {pid deadline slot} (running : slot.In pid .running)
      (empty : slot.hot.mailbox.system = []) :
      Touch t (.tryParkIo pid deadline) (.io .parked) slot
        { slot.withState .waitingIo with hot.deadline := deadline }
  | ioSystemMail {pid deadline slot} (current : slot.Current pid)
      (mail : slot.hot.mailbox.system ≠ []) :
      Touch t (.tryParkIo pid deadline) (.io .systemMail) slot slot
  | ioRefused {pid deadline slot} (refused : ¬ slot.In pid .running) :
      Touch t (.tryParkIo pid deadline) (.io .refused) slot slot
  | received {pid deadline message mailbox slot} (current : slot.Current pid)
      (popped : slot.hot.mailbox.popReceived = (some message, mailbox)) :
      Touch t (.receiveOrPark pid deadline) (.mail (.ready message)) slot
        { slot with hot.mailbox := mailbox }
  | receiveParked {pid deadline slot} (running : slot.In pid .running)
      (noSystem : slot.hot.mailbox.system = []) (noBusiness : slot.hot.mailbox.business = []) :
      Touch t (.receiveOrPark pid deadline) (.mail .parked) slot
        { slot.withState .blocked with hot.deadline := deadline, hot.waiting := .receive }
  | receiveRefused {pid deadline slot} (refused : ¬ slot.In pid .running) :
      Touch t (.receiveOrPark pid deadline) (.mail .refused) slot slot
  | replyReady {pid token deadline callee reply slot} (current : slot.Current pid)
      (slotted : slot.hot.mailbox.reply = some reply)
      (matching : Message.replyToken reply = token) :
      Touch t (.takeReplyOrPark pid token deadline callee) (.mail (.ready reply)) slot
        { slot with
          hot.mailbox.reply := none
          hot.awaitingReply := none
          hot.deadline := none }
  | replyStale {pid token deadline callee reply slot} (current : slot.Current pid)
      (slotted : slot.hot.mailbox.reply = some reply)
      (mismatch : Message.replyToken reply ≠ token) :
      Touch t (.takeReplyOrPark pid token deadline callee) (.mail (.stale reply)) slot
        { slot with hot.mailbox.reply := none }
  | replyCalleeDown {pid token deadline callee slot} (current : slot.Current pid)
      (empty : slot.hot.mailbox.reply = none) (down : t.isAlive callee = false) :
      Touch t (.takeReplyOrPark pid token deadline callee) (.mail .calleeDown) slot
        { slot with hot.awaitingReply := none, hot.deadline := none }
  | replyParked {pid token deadline callee slot} (running : slot.In pid .running)
      (empty : slot.hot.mailbox.reply = none) (up : t.isAlive callee = true) :
      Touch t (.takeReplyOrPark pid token deadline callee) (.mail .parked) slot
        { slot.withState .blocked with hot.deadline := deadline, hot.waiting := .reply }
  | replyRefused {pid token deadline callee slot} (refused : ¬ slot.In pid .running)
      (up : slot.Current pid → slot.lifecycle.state ≠ none → t.isAlive callee = true) :
      Touch t (.takeReplyOrPark pid token deadline callee) (.mail .refused) slot slot
  | popped {pid slot} (current : slot.Current pid) :
      Touch t (.popReceived pid) (.message slot.hot.mailbox.popReceived.1) slot
        { slot with hot.mailbox := slot.hot.mailbox.popReceived.2 }
  | popMissed {pid slot} (stale : ¬ slot.Current pid) :
      Touch t (.popReceived pid) (.message none) slot slot
  | replyTaken {pid slot} (current : slot.Current pid) :
      Touch t (.takeReply pid) (.message slot.hot.mailbox.reply) slot
        { slot with hot.mailbox.reply := none }
  | takeMissed {pid slot} : Touch t (.takeReply pid) (.message none) slot slot
  | expired {pid fireAt source slot} (parked : slot.In pid source)
      (parkable : source = .blocked ∨ source = .waitingIo)
      (due : slot.hot.deadline = some fireAt) :
      Touch t (.promoteExpired pid fireAt) (.wake (some ⟨pid, slot.wakePriority⟩)) slot
        { slot.withState .runnable with hot.deadline := none }
  | expiredMissed {pid fireAt slot} : Touch t (.promoteExpired pid fireAt) (.wake none) slot slot
  | ioPromoted {pid slot} (parked : slot.In pid .waitingIo) :
      Touch t (.promoteIoWaiter pid) (.wake (some ⟨pid, slot.wakePriority⟩)) slot
        { slot.withState .runnable with hot.deadline := none }
  | ioPromoteMissed {pid slot} : Touch t (.promoteIoWaiter pid) (.wake none) slot slot
  | callPromoted {pid token slot} (parked : slot.In pid .blocked)
      (waiting : slot.hot.waiting = .reply) (awaited : slot.hot.awaitingReply = some token) :
      Touch t (.promoteCallWaiter pid token) (.wake (some ⟨pid, slot.wakePriority⟩)) slot
        { slot.withState .runnable with hot.deadline := none }
  | callPromoteMissed {pid token slot}
      (refused : ¬ (slot.In pid .blocked ∧ slot.hot.waiting = .reply ∧
        slot.hot.awaitingReply = some token)) :
      Touch t (.promoteCallWaiter pid token) (.wake none) slot slot
  | yielded {pid slot} (running : slot.In pid .running) :
      Touch t (.yieldRunning pid) .done slot (slot.withState .runnable)
  | yieldMissed {pid slot} (refused : ¬ slot.In pid .running) :
      Touch t (.yieldRunning pid) .done slot slot
  | released {pid slot} (current : slot.Current pid) (held : slot.lifecycle.onCpu = true) :
      Touch t (.afterSwitch pid) (.released (slot.releasedAs pid)) slot
        { slot with lifecycle.onCpu := false }
  | releaseMissed {pid slot} (refused : ¬ (slot.Current pid ∧ slot.lifecycle.onCpu = true)) :
      Touch t (.afterSwitch pid) (.released .parked) slot slot
  | marked {call forced slot} (ends : call.forces = some forced) (alive : slot.Alive call.pid)
      (held : slot.lifecycle.onCpu = true) :
      Touch t call (.died (some (slot.staged forced none))) slot (slot.marked forced)
  | reclaimed {call forced slot} (ends : call.forces = some forced)
      (alive : slot.Alive call.pid) (idle : slot.lifecycle.onCpu = false) :
      Touch t call (.died (some (slot.staged forced (some slot.resources)))) slot slot.vacated
  | deathMissed {call forced slot} (ends : call.forces = some forced)
      (gone : ¬ slot.Alive call.pid) :
      Touch t call (.died none) slot slot
  | hotSet {call write slot} (sets : call.hotUpdate = some write)
      (current : slot.Current call.pid) :
      Touch t call .done slot { slot with hot := write slot.hot }
  | hotMissed {call write slot} (sets : call.hotUpdate = some write)
      (stale : slot.Current call.pid → slot.lifecycle.state = none) :
      Touch t call .done slot slot
  | scalarSet {call write slot} (sets : call.scalarUpdate = some write)
      (current : slot.Current call.pid) :
      Touch t call .done slot (write slot)
  | scalarMissed {call} {write : Slot X M → Slot X M} {slot}
      (sets : call.scalarUpdate = some write) :
      Touch t call .done slot slot
  | logEntered {pid slot} (current : slot.Current pid) :
      Touch t (.logEnter pid) (.flag (slot.logBusy = 0)) slot { slot with logBusy := 1 }
  | logRefused {pid slot} : Touch t (.logEnter pid) (.flag false) slot slot

/-! ## Every call is local -/

/-- A call changes the slot it names, by `Touch`, and the counters, nothing else. -/
structure Local [Message M] (t : ProcessTable X M) (call : Call M) (outcome : Outcome X M)
    (after : ProcessTable X M) : Prop where
  registry : after.registry = t.registry
  published : after.published = t.published
  mainPid : after.mainPid = t.mainPid
  frame : ∀ index, index ≠ slotIndex call.pid → after.arena index = t.arena index
  touch : Touch t call outcome (t.arena (slotIndex call.pid)) (after.arena (slotIndex call.pid))

end Koja.Source.Runtime
