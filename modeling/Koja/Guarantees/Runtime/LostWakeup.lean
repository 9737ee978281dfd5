import Koja.Guarantees.Runtime.Occupancy
import Koja.Source.Runtime.Wire

/-!
# No lost wakeup

A parked process has nothing waiting in the part of its mailbox it is parked on.
The mailbox check and the park edge share one slot hold, and so do a delivery and
the wake it owes, so the property is an invariant of every single slot. It holds
for every interleaving of every block of the table but `try_park`, which parks
without looking and leaves the check to its caller.
-/
namespace Koja.Guarantees.Runtime
open Koja.Lib Koja.Source.Runtime
open Slot (withState posted marked vacated)

variable {X M : Type}

/-- Whatever the process is parked on is empty. -/
structure NoLostWakeup (slot : Slot X M) : Prop where
  receive : slot.lifecycle.state = some .blocked → slot.hot.waiting = .receive →
    slot.hot.mailbox.system = [] ∧ slot.hot.mailbox.business = []
  reply : slot.lifecycle.state = some .blocked → slot.hot.waiting = .reply →
    slot.hot.mailbox.reply = none
  io : slot.lifecycle.state = some .waitingIo → slot.hot.mailbox.system = []

/-- The one park that does not look at the mailbox. -/
def ParksUnchecked : Event X M → Prop
  | .call (.tryPark _ _ _) _ => True
  | _ => False

/-- A slot whose process is not parked has nothing to lose. -/
theorem NoLostWakeup.unparked {slot : Slot X M} (notBlocked : slot.lifecycle.state ≠ some .blocked)
    (notWaiting : slot.lifecycle.state ≠ some .waitingIo) : NoLostWakeup slot where
  receive := fun blocked => absurd blocked notBlocked
  reply := fun blocked => absurd blocked notBlocked
  io := fun waiting => absurd waiting notWaiting

/-- A block that leaves the state and what the process waits on alone, and only
empties the mailbox further, loses no wakeup. -/
theorem NoLostWakeup.drained {slot after : Slot X M} (before : NoLostWakeup slot)
    (state : after.lifecycle.state = slot.lifecycle.state)
    (waiting : after.hot.waiting = slot.hot.waiting)
    (system : slot.hot.mailbox.system = [] → after.hot.mailbox.system = [])
    (business : slot.hot.mailbox.business = [] → after.hot.mailbox.business = [])
    (reply : slot.hot.mailbox.reply = none → after.hot.mailbox.reply = none) :
    NoLostWakeup after where
  receive := by
    rw [state, waiting]
    intro blocked receiving
    obtain ⟨noSystem, noBusiness⟩ := before.receive blocked receiving
    exact ⟨system noSystem, business noBusiness⟩
  reply := by
    rw [state, waiting]
    intro blocked replying
    exact reply (before.reply blocked replying)
  io := by
    rw [state]
    intro waitingIo
    exact system (before.io waitingIo)

theorem popReceived_drains (mailbox : Mailbox M) :
    (mailbox.system = [] → mailbox.popReceived.2.system = []) ∧
      (mailbox.business = [] → mailbox.popReceived.2.business = []) := by
  unfold Mailbox.popReceived
  split
  · next message rest system =>
    refine ⟨?_, fun empty => empty⟩
    intro empty
    rw [empty] at system
    cases system
  · split
    · next message rest business =>
      refine ⟨fun empty => empty, ?_⟩
      intro empty
      rw [empty] at business
      cases business
    · exact ⟨fun empty => empty, fun empty => empty⟩

section
variable [Message M]

/-- A delivery that wakes nobody went to a part nobody waits on. -/
theorem NoLostWakeup.posted {pid : Pid} {slot after : Slot X M} {message : M} {wake : Option Wake}
    (before : NoLostWakeup slot) (posted : Posted pid slot message wake after) :
    NoLostWakeup after := by
  cases posted with
  | waking => exact .unparked (by simp [withState]) (by simp [withState])
  | quiet asleep =>
    obtain ⟨system, business, reply⟩ := Mailbox.push_parts slot.hot.mailbox message
    unfold wakeSource at asleep
    refine ⟨?_, ?_, ?_⟩
    · intro blocked receiving
      change slot.lifecycle.state = some .blocked at blocked
      change slot.hot.waiting = .receive at receiving
      have isReply : Message.tag message = .reply := by
        by_contra other
        simp [blocked, receiving, Mailbox.targetOf, other] at asleep
      obtain ⟨noSystem, noBusiness⟩ := before.receive blocked receiving
      have routed : Mailbox.isBusiness message = false := by simp [Mailbox.isBusiness, isReply]
      constructor
      · simpa [Slot.posted, isReply, noSystem] using system
      · simpa [Slot.posted, routed, noBusiness] using business
    · intro blocked replying
      change slot.lifecycle.state = some .blocked at blocked
      change slot.hot.waiting = .reply at replying
      have notReply : Message.tag message ≠ .reply := by
        intro isReply
        simp [blocked, replying, Mailbox.targetOf, isReply] at asleep
      simpa [Slot.posted, notReply, before.reply blocked replying] using reply
    · intro waiting
      change slot.lifecycle.state = some .waitingIo at waiting
      have notSystem : Message.tag message ≠ .lifecycle := by
        intro isSystem
        simp [waiting, isSystem] at asleep
      simpa [Slot.posted, notSystem, before.io waiting] using system

/-- No block on a slot but `try_park` loses a wakeup. -/
theorem NoLostWakeup.touched {t : ProcessTable X M} {call : Call M} {outcome : Outcome X M}
    {slot after : Slot X M} (before : NoLostWakeup slot)
    (checked : ¬ ParksUnchecked (.call call outcome : Event X M))
    (touch : Touch t call outcome slot after) : NoLostWakeup after := by
  cases touch with
  | delivered alive posted | replied alive awaited posted => exact before.posted posted
  | bounced | replyBounced | claimMissed | parkRefused | ioSystemMail | ioRefused
  | receiveRefused | replyRefused | popMissed | takeMissed | expiredMissed | ioPromoteMissed
  | callPromoteMissed | yieldMissed | logRefused | releaseMissed | deathMissed | hotMissed
  | scalarMissed => exact before
  | claimed | expired | ioPromoted | callPromoted | yielded | marked | reclaimed =>
    exact .unparked (by simp [withState, marked, vacated, LifecycleWord.vacate])
      (by simp [withState, marked, vacated, LifecycleWord.vacate])
  | parked => exact absurd trivial checked
  | ioParked _ empty =>
    refine ⟨?_, ?_, fun _ => empty⟩
    · simp [withState]
    · simp [withState]
  | receiveParked _ noSystem noBusiness =>
    refine ⟨fun _ _ => ⟨noSystem, noBusiness⟩, ?_, ?_⟩
    · simp
    · simp [withState]
  | replyParked _ empty =>
    refine ⟨?_, fun _ _ => empty, ?_⟩
    · simp
    · simp [withState]
  | received _ popped =>
    have drains := popReceived_drains slot.hot.mailbox
    have reply := Mailbox.popReceived_reply slot.hot.mailbox
    rw [popped] at drains reply
    exact before.drained rfl rfl drains.1 drains.2 fun empty => reply.trans empty
  | popped =>
    have drains := popReceived_drains slot.hot.mailbox
    exact before.drained rfl rfl drains.1 drains.2
      fun empty => (Mailbox.popReceived_reply _).trans empty
  | replyReady | replyStale | replyTaken =>
    exact before.drained rfl rfl (fun empty => empty) (fun empty => empty) fun _ => rfl
  | replyCalleeDown | released | logEntered =>
    exact before.drained rfl rfl (fun empty => empty) (fun empty => empty) fun empty => empty
  | hotSet sets =>
    obtain ⟨mailbox, waiting⟩ := hotUpdate_mailbox sets slot.hot
    exact before.drained rfl waiting (by simp [mailbox]) (by simp [mailbox]) (by simp [mailbox])
  | scalarSet sets =>
    obtain ⟨word, hot, -, -⟩ := scalarUpdate_frame sets slot
    exact before.drained (by rw [word]) (by rw [hot]) (by simp [hot]) (by simp [hot])
      (by simp [hot])

/-- **No lost wakeup.** In every state reachable by any interleaving of the table's
blocks, whoever issues them, a process blocked on its receive queues finds both
empty, one blocked on a reply finds none slotted, and one waiting on I/O has no
system message. -/
theorem no_lost_wakeup {history : List (Event X M)} {s : Sys X M}
    (run : Run Step (fun _ _ event => ¬ ParksUnchecked event) Sys.init history s) (index : UInt32) :
    NoLostWakeup (s.table.arena index) := by
  induction run with
  | nil => exact .unparked nofun nofun
  | snoc run checked step here =>
    cases step_slot (reachable_grown run).fresh step index with
    | same _ same =>
      rw [same]
      exact here
    | touched _ touch => exact here.touched checked touch
    | occupied _ _ word => exact .unparked (by simp [word]) (by simp [word])
    | vacated _ _ empty =>
      rw [empty]
      exact .unparked (by simp [vacated, LifecycleWord.vacate])
        (by simp [vacated, LifecycleWord.vacate])

end

/-- The guarantee is met by a process that did park: spawned, claimed, and parked
on its empty receive queues. -/
theorem no_lost_wakeup_parked : ∃ (history : List (Event Unit Envelope)) (s : Sys Unit Envelope),
      Run Step (fun _ _ event => ¬ ParksUnchecked event) Sys.init history s ∧
      (s.table.arena 0).lifecycle.state = some .blocked ∧ NoLostWakeup (s.table.arena 0) := by
  have start : Run Step (fun _ _ event => ¬ ParksUnchecked event)
      (Sys.init : Sys Unit Envelope) [] Sys.init := .nil
  have spawned := run_spawn start () none id
  have claimed := run_call spawned (.tryClaim (encode 0 1)) id
  have parked := run_call claimed (.receiveOrPark (encode 0 1) none) id
  exact ⟨_, _, parked, rfl, no_lost_wakeup parked 0⟩

end Koja.Guarantees.Runtime
