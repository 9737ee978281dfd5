import Koja.Source.Eval.Receive
import Koja.Source.Runtime.Wire

/-!
# Matching mail and the interpreter's `receive`

A round of `execute_receive` looks at one message only: when that one has no arm, the process
parks whatever is queued behind it.
-/
namespace Koja.Guarantees.Runtime

open Koja.Source.Ir Koja.Source.Runtime Koja.Source.Eval List Option

variable {X M : Type}

/-- The queued messages in the order `receive` takes them. -/
def queuedMail (slot : Slot X M) : List M := slot.hot.mailbox.system ++ slot.hot.mailbox.business

/-- A pop takes the first queued message. -/
theorem popReceivedHold_queued (slot : Slot X M) (tally : Tally) :
    (popReceivedHold slot tally).1 = (queuedMail slot).head? ∧
      queuedMail (popReceivedHold slot tally).2.1 = (queuedMail slot).tail ∧
      (popReceivedHold slot tally).2.1.lifecycle = slot.lifecycle := by
  unfold popReceivedHold Mailbox.popReceived queuedMail
  cases system : slot.hot.mailbox.system with
  | cons => exact ⟨rfl, rfl, rfl⟩
  | nil => cases business : slot.hot.mailbox.business <;> simp [system, business]

variable [Message M]

/-- The round enters the arm of the first queued message that has one and discards what was
ahead of it; it parks only when no queued message has an arm. -/
def TakesMatchingMail (arms : List ReceiveArm) (slot : Slot X M)
    (round : ReceiveRound M × Slot X M × Tally) : Prop :=
  (∀ skipped message rest arm, queuedMail slot = skipped ++ message :: rest →
    (∀ other ∈ skipped, dispatchReceived arms other = none) →
    dispatchReceived arms message = some (arm, message) →
      round.1 = .entered arm message ∧ queuedMail round.2.1 = rest) ∧
  (round.2.1.lifecycle.state = some .blocked →
    ∀ message ∈ queuedMail slot, dispatchReceived arms message = none)

/-- The message the round looks at has an arm, or no queued message has. -/
def FrontDecides (arms : List ReceiveArm) (slot : Slot X M) : Prop :=
  ∀ front rest, queuedMail slot = front :: rest → dispatchReceived arms front = none →
    ∀ message ∈ rest, dispatchReceived arms message = none

theorem dispatchReceived_message {arms : List ReceiveArm} {message payload : M}
    {arm : ReceiveArm} (found : dispatchReceived arms message = some (arm, payload)) :
    payload = message := by
  obtain ⟨_, _, found⟩ := bind_eq_some_iff.mp found
  obtain ⟨_, _, same⟩ := map_eq_some_iff.mp found
  exact (Prod.mk.inj same).2.symm

section
variable (generation : UInt32) (arms : List ReceiveArm) (after : Option (Instant × IRBlockId))
  (now : Instant) (slot : Slot X M) (tally : Tally)

/-- A front message with an arm is taken. -/
theorem executeReceive_entered {arm : ReceiveArm} {message : M}
    (found : (queuedMail slot).head?.bind (dispatchReceived arms) = some (arm, message)) :
    (executeReceive generation arms after now slot tally).1 = .entered arm message ∧
      queuedMail (executeReceive generation arms after now slot tally).2.1 =
        (queuedMail slot).tail ∧
      (executeReceive generation arms after now slot tally).2.1.lifecycle = slot.lifecycle := by
  obtain ⟨popped, left, word⟩ := popReceivedHold_queued slot tally
  unfold executeReceive
  dsimp only
  rw [popped, found]
  cases after <;> exact ⟨rfl, left, word⟩

/-- Otherwise the round enters no arm. -/
theorem executeReceive_unentered
    (missed : (queuedMail slot).head?.bind (dispatchReceived arms) = none)
    (arm : ReceiveArm) (message : M) :
    (executeReceive generation arms after now slot tally).1 ≠ .entered arm message := by
  unfold executeReceive
  dsimp only
  rw [(popReceivedHold_queued slot tally).1, missed]
  cases after.filter (·.1 ≤ now) <;> exact fun impossible => nomatch impossible

/-- A round takes the first message with an arm exactly when that message is at the front, or
when there is none. -/
theorem receive_takes_matching_mail_iff (running : slot.lifecycle.state = some .running) :
    TakesMatchingMail arms slot (executeReceive generation arms after now slot tally) ↔
      FrontDecides arms slot := by
  have entered := @executeReceive_entered _ _ _ generation arms after now slot tally
  have unentered := executeReceive_unentered generation arms after now slot tally
  unfold TakesMatchingMail FrontDecides
  generalize queuedMail slot = queue at entered unentered ⊢
  cases front : queue.head?.bind (dispatchReceived arms) with
  | some pair =>
    obtain ⟨first, head, found⟩ := bind_eq_some_iff.mp front
    obtain ⟨rest, rfl⟩ := head?_eq_some_iff.mp head
    obtain ⟨enters, left, word⟩ := entered front
    refine iff_of_true ⟨?_, ?_⟩ ?_
    · intro skipped message others arm same unmatched matched
      cases skipped with
      | cons =>
        cases same
        cases (unmatched _ (mem_cons_self ..)).symm.trans found
      | nil =>
        cases same
        cases found.symm.trans matched
        exact ⟨enters, left⟩
    · intro blocked
      rw [word, running] at blocked
      cases blocked
    · intro _ _ same unmatched
      cases same
      cases unmatched.symm.trans found
  | none =>
    constructor
    · rintro ⟨takes, -⟩ first rest rfl - message member
      cases searched : (first :: rest).findSome? (dispatchReceived arms) with
      | none => exact findSome?_eq_none_iff.mp searched message (.tail _ member)
      | some pair =>
        obtain ⟨skipped, taken, behind, split, matched, unmatched⟩ :=
          findSome?_eq_some_iff.mp searched
        obtain rfl := dispatchReceived_message matched
        exact absurd (takes _ _ _ _ split unmatched matched).1 (unentered front _ _)
    · intro decides
      have unmatched : ∀ message ∈ queue, dispatchReceived arms message = none := by
        intro message member
        cases queue with
        | nil => cases member
        | cons first rest =>
          rcases mem_cons.mp member with rfl | later
          · exact front
          · exact decides first rest rfl front message later
      refine ⟨?_, fun _ => unmatched⟩
      rintro skipped message others arm rfl - matched
      cases (unmatched message (by simp)).symm.trans matched

end

/-- A running process with a business message behind a lifecycle event. -/
def busyReceiver : Slot Unit Envelope :=
  let mailbox : Mailbox Envelope :=
    ⟨[.fromPayload tagBusiness [] .zero], none, [.fromPayload tagLifecycle [] .zero]⟩
  { (Slot.new : Slot Unit Envelope) with
    lifecycle.state := some .running
    hot.mailbox := mailbox }

/-- With an arm for business messages only, the lifecycle event is popped and dropped and the
process parks over the business message. -/
theorem receive_parks_over_matching_mail :
    ¬ TakesMatchingMail [⟨7, 0, .unit, .business⟩] busyReceiver
        (executeReceive 0 [⟨7, 0, .unit, .business⟩] none 0 busyReceiver {}) ∧
      (executeReceive 0 [⟨7, 0, .unit, .business⟩] none 0 busyReceiver {}).2.1.lifecycle.state =
        some .blocked := by
  refine ⟨fun takes => ?_, rfl⟩
  cases takes.2 rfl (.fromPayload tagBusiness [] .zero) (by decide)

/-- With arms for both, the event is taken first. -/
theorem receive_takes_event_first :
    TakesMatchingMail [⟨7, 0, .unit, .business⟩, ⟨8, 1, .unit, .lifecycle⟩] busyReceiver
      (executeReceive 0 [⟨7, 0, .unit, .business⟩, ⟨8, 1, .unit, .lifecycle⟩] none 0
        busyReceiver {}) :=
  (receive_takes_matching_mail_iff _ _ _ _ _ _ rfl).mpr fun _ _ same unmatched => by
    cases same
    cases unmatched

end Koja.Guarantees.Runtime
