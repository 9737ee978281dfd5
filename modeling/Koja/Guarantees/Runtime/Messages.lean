import Mathlib.Algebra.Order.Group.Multiset
import Mathlib.Tactic.Abel
import Koja.Lib.Ledger
import Koja.Guarantees.Runtime.Tombstone

/-!
# Messages are conserved and stay in order

A message handed to `deliver` or `deliver_reply` comes back as a leftover, sits in the
target's mailbox, is returned by one of the target's receives, or leaves inside the
mailbox of the target's reclaim. The account below is kept per process, from its spawn
on, and read off the labels of the run.
-/
namespace Koja.Guarantees.Runtime
open Koja.Lib Koja.Source.Runtime List
open Mailbox (isBusiness push)

variable {X M : Type} {message : M} {slot after : Slot X M} {t : ProcessTable X M} {call : Call M}
  {outcome : Outcome X M} {pid : Pid} {event : Event X M} {parent : Option Pid} {execution : X}

/-! ## What labels move -/

/-- The messages that went to and came from one process, in order. -/
structure Letters (M : Type) where
  /-- Given to `deliver` and `deliver_reply`. -/
  handed : List M := []
  /-- Handed back by them. -/
  leftover : List M := []
  /-- Taken in by them without a leftover. -/
  queued : List M := []
  /-- Returned by `receive_or_park` and `pop_received`. -/
  received : List M := []
  /-- Returned by the reply takes, stale ones included. -/
  taken : List M := []
  /-- The mailboxes reclaims moved out. -/
  reclaimed : List (Mailbox M) := []

def Letters.append (first next : Letters M) : Letters M where
  handed := first.handed ++ next.handed
  leftover := first.leftover ++ next.leftover
  queued := first.queued ++ next.queued
  received := first.received ++ next.received
  taken := first.taken ++ next.taken
  reclaimed := first.reclaimed ++ next.reclaimed

theorem Letters.append_none (sent : Letters M) : sent.append {} = sent := by
  simp [append]

/-- What one label moves. -/
def letters : Event X M → Letters M
  | .call (.deliver _ message) (.delivery delivery) =>
    { handed := [message]
      leftover := delivery.leftover.toList
      queued := if delivery.leftover.isNone then [message] else [] }
  | .call (.deliverReply _ _ message) (.reply delivery) =>
    { handed := [message]
      leftover := delivery.leftover.toList
      queued := if delivery.leftover.isNone then [message] else [] }
  | .call (.receiveOrPark _ _) (.mail (.ready message)) => { received := [message] }
  | .call (.popReceived _) (.message message) => { received := message.toList }
  | .call (.takeReplyOrPark _ _ _ _) (.mail (.ready message)) => { taken := [message] }
  | .call (.takeReplyOrPark _ _ _ _) (.mail (.stale message)) => { taken := [message] }
  | .call (.takeReply _) (.message message) => { taken := message.toList }
  | .call (.kill _) (.died (some staged)) | .call (.markDeadIfAlive _) (.died (some staged)) =>
    { reclaimed := staged.reclaim.toList.map (·.mailbox) }
  | .reclaim _ reclaim => { reclaimed := [reclaim.mailbox] }
  | _ => {}

/-- The process a label's messages belong to. -/
def addressee : Event X M → Option Pid
  | .call call _ => some call.pid
  | .reclaim pid _ => some pid
  | _ => none

def lettersFor (event : Event X M) (pid : Pid) : Letters M :=
  if addressee event = some pid then letters event else {}

/-- A spawn opens a new account under its PID, everything else adds to one. -/
def letterWrite : Event X M → Option (Pid × (Letters M → Letters M))
  | .spawn _ _ (.ok pid) => some (pid, fun _ => {})
  | event => (addressee event).map fun pid => (pid, (·.append (letters event)))

variable (history : List (Event X M))

/-- The messages of the process that `pid` named last. -/
def lettersOf (pid : Pid) : Letters M :=
  replay letterWrite {} history pid

theorem lettersOf_spawn (execution : X) (parent : Option Pid)
    (pid : Pid) : lettersOf (history ++ [.spawn execution parent (.ok pid)]) pid = {} :=
  @replay_written _ _ _ _ letterWrite {} history _ pid (fun _ => {}) rfl

theorem lettersOf_snoc {event : Event X M} {pid : Pid}
    (unspawned : ∀ execution parent, event ≠ .spawn execution parent (.ok pid)) :
    lettersOf (history ++ [event]) pid = (lettersOf history pid).append (lettersFor event pid) := by
  by_cases mine : addressee event = some pid
  · have wrote : letterWrite event = some (pid, (·.append (letters event))) := by
      cases event <;> first | cases mine; rfl | cases mine
    rw [lettersFor, if_pos mine]
    exact replay_written wrote
  · rw [lettersFor, if_neg mine, Letters.append_none]
    refine replay_unwritten ?_
    intro change wrote
    unfold letterWrite at wrote
    split at wrote
    · cases wrote
      exact unspawned _ _ rfl
    · obtain ⟨other, named, same⟩ := Option.map_eq_some_iff.mp wrote
      cases same
      exact mine named

/-- The account of a process that has done nothing but receive once. -/
theorem lettersOf_first_pop (execution : X) (parent : Option Pid) (pid : Pid) (message : Option M) :
    lettersOf (history ++ [.spawn execution parent (.ok pid)] ++
      [.call (.popReceived pid) (.message message)]) pid = { received := message.toList } := by
  have mine : lettersFor (.call (.popReceived pid) (.message message) : Event X M) pid =
      { received := message.toList } := if_pos rfl
  rw [lettersOf_snoc _ (by simp), lettersOf_spawn, mine]
  rfl

/-! ## What a label does to a mailbox -/

/-- All messages of a mailbox. -/
def contents (box : Mailbox M) : Multiset M :=
  (box.system : Multiset M) + (box.business : Multiset M) + (box.reply.toList : Multiset M)

/-- The messages that have come to rest outside the mailbox: handed back, returned to the
process, or moved out with its resources. -/
def Letters.arrived (sent : Letters M) : Multiset M :=
  (sent.leftover : Multiset M) + sent.received + sent.taken + (sent.reclaimed.map contents).sum

theorem Letters.arrived_append (first next : Letters M) :
    (first.append next).arrived = first.arrived + next.arrived := by
  simp only [arrived, append, ← Multiset.coe_add, map_append, sum_append]
  abel

/-- The queues hold the classes they are for. -/
structure Sorted [Message M] (box : Mailbox M) : Prop where
  business : ∀ message ∈ box.business, Mailbox.isBusiness message = true
  system : ∀ message ∈ box.system, Message.tag message = .lifecycle

def isLifecycle [Message M] (message : M) : Bool := Message.tag message = .lifecycle

theorem lifecycle_not_business [Message M] (tag : Message.tag message = .lifecycle) :
    isBusiness message = false := by
  simp [isBusiness, tag]

theorem business_not_lifecycle [Message M]
    (isBusiness : isBusiness message = true) : isLifecycle message = false := by
  by_contra tag
  rw [lifecycle_not_business (by simpa [isLifecycle] using tag)] at isBusiness
  cases isBusiness

/-- `Carries sent box after`: moving `sent` takes the mailbox `box` to `after`. -/
inductive Carries [Message M] : Letters M → Mailbox M → Mailbox M → Prop
  | quiet {box} : Carries {} box box
  | bounced {box} (message : M) : Carries { handed := [message], leftover := [message] } box box
  | accepted {box} (message : M) : Carries
        { handed := [message]
          leftover := (box.push message).1.toList
          queued := if (box.push message).1.isNone then [message] else [] }
        box (box.push message).2
  | received {box after message} (popped : box.popReceived = (some message, after)) :
      Carries { received := [message] } box after
  | taken {box message} (slotted : box.reply = some message) :
      Carries { taken := [message] } box { box with reply := none }
  | reclaimed {box} : Carries { reclaimed := [box] } box .empty

/-- A pop takes the head of the system queue, or of the business queue behind an empty
system queue. -/
theorem popReceived_some {box after : Mailbox M}
    (popped : box.popReceived = (some message, after)) :
    after.reply = box.reply ∧
      ((box.system = message :: after.system ∧ after.business = box.business) ∨
        (box.system = [] ∧ after.system = [] ∧ box.business = message :: after.business)) := by
  unfold Mailbox.popReceived at popped
  split at popped
  · next rest system =>
    cases popped
    exact ⟨rfl, .inl ⟨system, rfl⟩⟩
  · next system =>
    split at popped
    · next rest business =>
      cases popped
      exact ⟨rfl, .inr ⟨system, system, business⟩⟩
    · cases popped

section Carried
variable [Message M] {sent : Letters M} {box after : Mailbox M}

theorem push_contents (message : M) : contents box + {message} =
      ((box.push message).1.toList : Multiset M) + contents (box.push message).2 := by
  unfold push contents
  split <;> simp only [← Multiset.coe_add] <;> abel

theorem Carries.balance (carries : Carries sent box after) :
    contents box + sent.handed = sent.arrived + contents after := by
  unfold Letters.arrived
  cases carries with
  | quiet => simp
  | bounced =>
    exact add_comm _ _
  | accepted message => simpa using push_contents message
  | received popped =>
    obtain ⟨reply, ⟨system, business⟩ | ⟨noSystem, still, business⟩⟩ := popReceived_some popped
    · simp [contents, reply, system, business]
    · simp [contents, reply, noSystem, still, business]
  | taken slotted =>
    simp only [contents, slotted, Option.toList_none, Multiset.coe_nil, add_zero]
    exact add_comm _ _
  | reclaimed => simp [contents, Mailbox.empty]

theorem Carries.sorted (carries : Carries sent box after) (sorted : Sorted box) : Sorted after := by
  cases carries with
  | quiet | bounced => exact sorted
  | accepted message =>
    obtain ⟨system, business, -⟩ := Mailbox.push_parts box message
    constructor
    · rw [business]
      refine forall_mem_append.mpr ⟨sorted.business, ?_⟩
      split
      · next isBusiness => simpa using isBusiness
      · nofun
    · rw [system]
      refine forall_mem_append.mpr ⟨sorted.system, ?_⟩
      split
      · next isLifecycle => simpa using isLifecycle
      · nofun
  | received popped =>
    obtain ⟨-, ⟨system, business⟩ | ⟨noSystem, still, business⟩⟩ := popReceived_some popped
    · refine ⟨fun other member => sorted.business other (business ▸ member), ?_⟩
      intro other member
      exact sorted.system other (system ▸ mem_cons_of_mem _ member)
    · refine ⟨?_, fun other member => sorted.system other (noSystem.trans still.symm ▸ member)⟩
      intro other member
      exact sorted.business other (business ▸ mem_cons_of_mem _ member)
  | taken => exact ⟨sorted.business, sorted.system⟩
  | reclaimed => exact ⟨by simp [Mailbox.empty], by simp [Mailbox.empty]⟩

/-- Both queues are first in, first out, and a reclaim takes them whole. -/
theorem Carries.order (carries : Carries sent box after) (sorted : Sorted box) :
    box.business ++ sent.queued.filter isBusiness =
      sent.received.filter isBusiness ++ sent.reclaimed.flatMap (·.business) ++
        after.business ∧
    box.system ++ sent.queued.filter isLifecycle =
      sent.received.filter isLifecycle ++ sent.reclaimed.flatMap (·.system) ++ after.system := by
  cases carries with
  | quiet | bounced | taken => simp
  | accepted message =>
    cases tag : Message.tag message <;> simp [push, isBusiness, isLifecycle, tag]
  | received popped =>
    obtain ⟨-, ⟨system, business⟩ | ⟨noSystem, still, business⟩⟩ := popReceived_some popped
    · have tag := sorted.system _ (system ▸ mem_cons_self)
      simp [system, business, lifecycle_not_business tag, isLifecycle, tag]
    · have isBusiness := sorted.business _ (business ▸ mem_cons_self)
      simp [noSystem, still, business, isBusiness, business_not_lifecycle isBusiness]
  | reclaimed => simp [Mailbox.empty]

/-- A business message is received from behind an empty system queue. -/
theorem Carries.business_behind (carries : Carries sent box after) (sorted : Sorted box)
    (received : message ∈ sent.received) (isBusiness : isBusiness message = true) :
    box.system = [] := by
  cases carries with
  | received popped =>
    obtain ⟨-, ⟨system, -⟩ | ⟨noSystem, -⟩⟩ := popReceived_some popped
    · have tag := sorted.system _ (system ▸ mem_cons_self)
      rw [mem_singleton.mp received, lifecycle_not_business tag] at isBusiness
      cases isBusiness
    · exact noSystem
  | _ => cases received

theorem Carries.one_reclaim (carries : Carries sent box after) : sent.reclaimed.length ≤ 1 := by
  cases carries <;> simp

theorem Carries.of_empty (carries : Carries sent .empty after)
    (unqueued : sent.queued = []) (kept : sent.reclaimed = []) :
    sent.received = [] ∧ sent.taken = [] := by
  cases carries with
  | received popped => cases popped
  | taken slotted => cases slotted
  | _ => exact ⟨rfl, rfl⟩

end Carried

theorem letters_done : letters (.call call (.done : Outcome X M)) = {} := by
  cases call <;> rfl

theorem touch_mail [Message M] (touch : Touch t call outcome slot after) :
    Carries (letters (.call call outcome)) slot.hot.mailbox after.hot.mailbox := by
  cases touch with
  | delivered alive posted | replied alive awaited posted =>
    obtain ⟨-, -, -, mailbox⟩ := posted_frame posted
    rw [mailbox]
    exact .accepted _
  | bounced | replyBounced => exact .bounced _
  | received _ popped => exact .received popped
  | replyReady current slotted | replyStale current slotted => exact .taken slotted
  | popped =>
    cases found : slot.hot.mailbox.popReceived with
    | mk message rest =>
      cases message with
      | some => exact .received found
      | none =>
        have same := (Mailbox.popReceived_none (congrArg Prod.fst found)).2.2
        rw [found] at same
        subst same
        exact .quiet
  | replyTaken =>
    cases found : slot.hot.mailbox.reply with
    | some => exact .taken found
    | none =>
      have same : { slot.hot.mailbox with reply := none } = slot.hot.mailbox := by rw [← found]
      change Carries {} slot.hot.mailbox { slot.hot.mailbox with reply := none }
      rw [same]
      exact .quiet
  | marked ends | deathMissed ends =>
    cases call with
    | kill | markDeadIfAlive => exact .quiet
    | _ => cases ends
  | reclaimed ends =>
    cases call with
    | kill | markDeadIfAlive => exact .reclaimed
    | _ => cases ends
  | hotSet sets =>
    rw [letters_done, (hotUpdate_mailbox sets slot.hot).1]
    exact .quiet
  | scalarSet sets =>
    obtain ⟨-, hot, -⟩ := scalarUpdate_frame sets slot
    rw [letters_done, hot]
    exact .quiet
  | hotMissed | scalarMissed =>
    rw [letters_done]
    exact .quiet
  | _ => exact .quiet

/-- A call that moves a mailbox out vacates the slot of its live process; any other keeps
the occupant. -/
theorem touch_reclaimed [Message M] (touch : Touch t call outcome slot after) :
    ((letters (.call call outcome)).reclaimed = [] ∧
      after.lifecycle.generation = slot.lifecycle.generation ∧
        (after.lifecycle.state = none ↔ slot.lifecycle.state = none)) ∨
    ((letters (.call call outcome)).reclaimed ≠ [] ∧ slot.Alive call.pid ∧
      after = slot.vacated) := by
  cases touch_effect touch with
  | quiet kept _ _ _ missed =>
    refine .inl ⟨?_, kept.generation, kept.vacant⟩
    cases touch with
    | reclaimed ends alive | marked ends alive => exact absurd alive (missed _ ends)
    | deathMissed | hotSet | hotMissed | scalarSet | scalarMissed => cases call <;> rfl
    | _ => rfl
  | claimed kept | released kept => exact .inl ⟨rfl, kept.generation, kept.vacant⟩
  | releaseMissed same =>
    rw [same]
    exact .inl ⟨rfl, rfl, Iff.rfl⟩
  | marked ends alive _ same =>
    refine .inl ⟨?_, by rw [same]; rfl, by simp [same, Slot.marked, alive_occupied alive]⟩
    cases call with
    | kill | markDeadIfAlive => rfl
    | _ => cases ends
  | reclaimed ends alive _ same =>
    refine .inr ⟨?_, alive, same⟩
    cases call with
    | kill | markDeadIfAlive => exact cons_ne_nil _ _
    | _ => cases ends

/-- A call takes a message in only for a live process. -/
theorem touch_queued [Message M] (touch : Touch t call outcome slot after)
    (queued : (letters (.call call outcome)).queued ≠ []) : slot.Alive call.pid := by
  cases touch with
  | delivered alive | replied alive | marked ends alive | reclaimed ends alive => exact alive
  | deathMissed | hotSet | hotMissed | scalarSet | scalarMissed =>
    cases call <;> exact absurd rfl queued
  | _ => exact absurd rfl queued

theorem stale_mail [Message M] (touch : Touch t call outcome slot after)
    (stale : ¬ slot.Current call.pid) :
    Carries (letters (.call call outcome)) .empty .empty := by
  have notAlive : ¬ slot.Alive call.pid := fun alive => stale alive.current
  cases touch with
  | bounced | replyBounced => exact .bounced _
  | delivered alive | replied alive | marked ends alive | reclaimed ends alive =>
    exact absurd alive notAlive
  | received current | replyReady current | replyStale current | popped current
  | replyTaken current => exact absurd current stale
  | deathMissed | hotSet | hotMissed | scalarSet | scalarMissed => cases call <;> exact .quiet
  | _ => exact .quiet

/-! ## What a step does to a process's mailbox -/

/-- The slot is occupied by the process `pid` names. -/
def Houses (slot : Slot X M) (pid : Pid) : Prop :=
  slot.Current pid ∧ slot.lifecycle.state ≠ none

/-- The mailbox of the process `pid` names, empty if the slot is another's. -/
def boxOf (slot : Slot X M) (pid : Pid) : Mailbox M :=
  if slot.Current pid then slot.hot.mailbox else .empty

theorem boxOf_current (current : slot.Current pid) :
    boxOf slot pid = slot.hot.mailbox := if_pos current

theorem boxOf_stale (stale : ¬ slot.Current pid) : boxOf slot pid = .empty := if_neg stale

theorem boxOf_empty (empty : slot.hot.mailbox = .empty) : boxOf slot pid = .empty := by
  unfold boxOf
  split
  · exact empty
  · rfl

theorem boxOf_vacated (slot : Slot X M) (pid : Pid) : boxOf slot.vacated pid = .empty :=
  boxOf_empty rfl

theorem vacated_not_houses (slot : Slot X M) (pid : Pid) : ¬ Houses slot.vacated pid :=
  fun houses => houses.2 rfl

variable [Message M]

/-- The mail side of a step, for one process. -/
structure MailStep (pid : Pid) (event : Event X M) (slot after : Slot X M) : Prop where
  carries : Carries (lettersFor event pid) (boxOf slot pid) (boxOf after pid)
  stays : (lettersFor event pid).reclaimed = [] → (Houses after pid ↔ Houses slot pid)
  leaves : (lettersFor event pid).reclaimed ≠ [] → Houses slot pid ∧ ¬ Houses after pid
  lives : (lettersFor event pid).queued ≠ [] → Houses slot pid

/-- A label about other processes moves no mail of this one. -/
theorem MailStep.apart (other : addressee event ≠ some pid)
    (box : boxOf after pid = boxOf slot pid) (houses : Houses after pid ↔ Houses slot pid) :
    MailStep pid event slot after := by
  have noLetters : lettersFor event pid = {} := if_neg other
  refine ⟨?_, fun _ => houses, ?_, ?_⟩
  · rw [noLetters, box]
    exact .quiet
  · rw [noLetters]
    exact fun moved => absurd rfl moved
  · rw [noLetters]
    exact fun moved => absurd rfl moved

theorem touch_other (touch : Touch t call outcome slot after)
    (names : slotIndex call.pid = slotIndex pid) (other : call.pid ≠ pid) :
    boxOf after pid = boxOf slot pid ∧ (Houses after pid ↔ Houses slot pid) := by
  by_cases current : slot.Current call.pid
  · have foreign : ¬ slot.Current pid := fun mine =>
      other (Pid.ext names (current.symm.trans mine))
    have homeless : ¬ Houses slot pid := fun houses => foreign houses.1
    rw [boxOf_stale foreign]
    rcases touch_reclaimed touch with ⟨-, generation, -⟩ | ⟨-, -, vacated⟩
    · have still : ¬ after.Current pid := fun mine => foreign (generation.symm.trans mine)
      exact ⟨boxOf_stale still, fun houses => absurd houses.1 still,
        fun houses => absurd houses homeless⟩
    · rw [vacated]
      exact ⟨boxOf_vacated slot pid, fun houses => absurd houses (vacated_not_houses slot pid),
        fun houses => absurd houses homeless⟩
  · rw [touch_stale touch current]
    exact ⟨rfl, Iff.rfl⟩

theorem touch_own (touch : Touch t call outcome slot after) :
    MailStep call.pid (.call call outcome) slot after := by
  have mine : lettersFor (.call call outcome : Event X M) call.pid =
      letters (.call call outcome) := if_pos rfl
  have lives : (lettersFor (.call call outcome : Event X M) call.pid).queued ≠ [] →
      Houses slot call.pid := by
    rw [mine]
    intro queued
    have alive := touch_queued touch queued
    exact ⟨alive.current, alive_occupied alive⟩
  rcases touch_reclaimed touch with ⟨kept, generation, vacant⟩ | ⟨moved, alive, vacated⟩
  · refine ⟨?_, ?_, fun moved => absurd (mine ▸ kept) moved, lives⟩
    · rw [mine]
      by_cases current : slot.Current call.pid
      · rw [boxOf_current current, boxOf_current (generation.trans current)]
        exact touch_mail touch
      · have still : ¬ after.Current call.pid := fun mine =>
          current (generation.symm.trans mine)
        rw [boxOf_stale current, boxOf_stale still]
        exact stale_mail touch current
    · intro _
      unfold Houses Slot.Current
      rw [generation, ne_eq, vacant]
  · have carries := touch_mail touch
    rw [vacated] at carries ⊢
    refine ⟨?_, fun kept => absurd (mine ▸ kept) moved, fun _ =>
      ⟨⟨alive.current, alive_occupied alive⟩, vacated_not_houses slot call.pid⟩, lives⟩
    rw [mine, boxOf_current alive.current, boxOf_vacated]
    exact carries

theorem step_mail {s after : Sys X M} {event : Event X M} (sound : Sound s)
    (fits : IndexFits s event) (step : Step s event after) (pid : Pid)
    (unspawned : ∀ execution parent, event ≠ .spawn execution parent (.ok pid)) :
    MailStep pid event (s.table.arena (slotIndex pid)) (after.table.arena (slotIndex pid)) := by
  have moved := step_slot sound.grown.fresh step (slotIndex pid)
  have tidy := sound.slots (slotIndex pid)
  generalize after.table.arena (slotIndex pid) = now at *
  generalize here : s.table.arena (slotIndex pid) = slot at *
  cases moved with
  | same apart same _ unreclaimed =>
    subst same
    refine .apart ?_ rfl Iff.rfl
    intro mine
    cases event with
    | call =>
      cases mine
      exact apart _ _ rfl rfl
    | reclaim =>
      cases mine
      exact unreclaimed _ _ rfl rfl
    | _ => cases mine
  | touched names touch =>
    rename_i call outcome
    by_cases own : call.pid = pid
    · subst own
      exact touch_own touch
    · obtain ⟨box, houses⟩ := touch_other touch names own
      refine .apart ?_ box houses
      intro mine
      exact own (Option.some.inj mine)
  | occupied names generation word hot =>
    have vacant := sound.spawn_step fits step
    rw [names, here] at vacant
    have foreign : ¬ now.Current pid := by
      intro current
      unfold Slot.Current at current
      rw [word] at current
      exact unspawned _ _ (by rw [Pid.ext names current])
    refine .apart (by simp [addressee]) ?_ ?_
    · rw [boxOf_stale foreign, boxOf_empty (tidy.mail vacant)]
    · exact ⟨fun houses => absurd houses.1 foreign, fun houses => absurd vacant houses.2⟩
  | vacated names parcel empty =>
    rename_i other reclaim
    have doomed := sound.reclaim_step step
    rw [names, here] at doomed
    subst empty
    by_cases own : other = pid
    · subst own
      have current : slot.Current other := by rw [Slot.Current, doomed]
      have mine : lettersFor (.reclaim other reclaim : Event X M) other =
          { reclaimed := [slot.hot.mailbox] } := by
        rw [parcel]
        exact if_pos rfl
      refine ⟨?_, ?_, ?_, ?_⟩
      · rw [mine, boxOf_current current, boxOf_vacated]
        exact .reclaimed
      · rw [mine]
        exact fun kept => by cases kept
      · exact fun _ => ⟨⟨current, by simp [doomed]⟩, vacated_not_houses slot other⟩
      · rw [mine]
        exact fun queued => absurd rfl queued
    · have foreign : ¬ slot.Current pid := by
        intro current
        unfold Slot.Current at current
        rw [doomed] at current
        exact own (Pid.ext names current)
      refine .apart ?_ ?_ ?_
      · intro mine
        exact own (Option.some.inj mine)
      · rw [boxOf_vacated, boxOf_stale foreign]
      · exact ⟨fun houses => absurd houses (vacated_not_houses slot pid),
          fun houses => absurd houses.1 foreign⟩

/-! ## The account of one process -/

/-- Where the messages of the process `pid` names are: handed back, returned to it,
reclaimed once, or in its mailbox. -/
structure Delivered (history : List (Event X M)) (slot : Slot X M) (pid : Pid) :
    Prop where
  sorted : Sorted (boxOf slot pid)
  balance : ((lettersOf history pid).handed : Multiset M) =
    (lettersOf history pid).arrived + contents (boxOf slot pid)
  business : (lettersOf history pid).queued.filter Mailbox.isBusiness =
    (lettersOf history pid).received.filter Mailbox.isBusiness ++
      (lettersOf history pid).reclaimed.flatMap (·.business) ++ (boxOf slot pid).business
  system : (lettersOf history pid).queued.filter isLifecycle =
    (lettersOf history pid).received.filter isLifecycle ++
      (lettersOf history pid).reclaimed.flatMap (·.system) ++ (boxOf slot pid).system
  housed : Houses slot pid → (lettersOf history pid).reclaimed = []
  once : (lettersOf history pid).reclaimed.length ≤ 1
  gone : Issued history pid → ¬ Houses slot pid → (lettersOf history pid).reclaimed ≠ []

/-- An account opens empty, over an empty mailbox. -/
theorem Delivered.opened {history : List (Event X M)}
    (noLetters : lettersOf history pid = {}) (empty : boxOf slot pid = .empty)
    (houses : Issued history pid → Houses slot pid) : Delivered history slot pid := by
  refine ⟨?_, ?_, ?_, ?_, ?_, ?_, fun issued gone => absurd (houses issued) gone⟩
  · rw [empty]
    exact ⟨nofun, nofun⟩
  · rw [noLetters, empty]
    rfl
  · rw [noLetters, empty]
    rfl
  · rw [noLetters, empty]
    rfl
  · rw [noLetters]
    exact fun _ => rfl
  · rw [noLetters]
    exact Nat.zero_le _

theorem Delivered.init (pid : Pid) :
    Delivered [] ((Sys.init : Sys X M).table.slotOf pid) pid := by
  refine .opened rfl (boxOf_empty rfl) ?_
  rintro ⟨_, _, member⟩
  cases member

theorem MailStep.settled
    (mail : MailStep pid event slot after) (tidy : SlotSound slot) (gone : ¬ Houses slot pid) :
    (lettersFor event pid).queued = [] ∧ (lettersFor event pid).reclaimed = [] ∧
      (lettersFor event pid).received = [] ∧ boxOf slot pid = .empty := by
  have queued : (lettersFor event pid).queued = [] := by
    by_contra queued
    exact gone (mail.lives queued)
  have kept : (lettersFor event pid).reclaimed = [] := by
    by_contra moved
    exact gone (mail.leaves moved).1
  have empty : boxOf slot pid = .empty := by
    unfold boxOf
    split
    · next current =>
      refine tidy.mail ?_
      by_contra occupied
      exact gone ⟨current, occupied⟩
    · rfl
  have carries := mail.carries
  rw [empty] at carries
  exact ⟨queued, kept, (carries.of_empty queued kept).1, empty⟩

variable {history : List (Event X M)}

theorem Delivered.step (before : Delivered history slot pid) (tidy : SlotSound slot)
    (mail : MailStep pid event slot after)
    (unspawned : ∀ execution parent, event ≠ .spawn execution parent (.ok pid)) :
    Delivered (history ++ [event]) after pid := by
  have sent := lettersOf_snoc history unspawned
  obtain ⟨business, system⟩ := mail.carries.order before.sorted
  refine ⟨mail.carries.sorted before.sorted, ?_, ?business, ?system, ?_, ?_, ?_⟩
  case business | system =>
    rw [sent]
    simp only [Letters.append, filter_append, before.business, before.system]
    by_cases houses : Houses slot pid
    · rw [before.housed houses]
      simp only [flatMap_nil, nil_append, append_assoc, business, system]
    · obtain ⟨queued, kept, received, empty⟩ := mail.settled tidy houses
      simp only [queued, kept, received, filter_nil, flatMap_nil, append_nil,
        nil_append] at business system ⊢
      simp only [business, system]
  · have moved := mail.carries.balance
    rw [sent, Letters.arrived_append, Letters.append, ← Multiset.coe_add, before.balance,
      add_assoc, moved, add_assoc]
  · intro houses
    have kept : (lettersFor event pid).reclaimed = [] := by
      by_contra moved
      exact (mail.leaves moved).2 houses
    rw [sent]
    simp [Letters.append, kept, before.housed ((mail.stays kept).mp houses)]
  · rw [sent]
    by_cases houses : Houses slot pid
    · simpa [Letters.append, before.housed houses] using mail.carries.one_reclaim
    · simpa [Letters.append, (mail.settled tidy houses).2.1] using before.once
  · intro issued gone
    rw [sent]
    by_cases houses : Houses slot pid
    · have moved : (lettersFor event pid).reclaimed ≠ [] :=
        fun kept => gone ((mail.stays kept).mpr houses)
      simp [Letters.append, moved]
    · have earlier : Issued history pid := by
        obtain ⟨execution, parent, member⟩ := issued
        rcases mem_append.mp member with old | new
        · exact ⟨execution, parent, old⟩
        · exact absurd (mem_singleton.mp new).symm (unspawned _ _)
      simp [Letters.append, before.gone earlier houses]

variable {s : Sys X M}

theorem spawn_mail {after : Sys X M}
    (sound : Sound s) (fits : IndexFits s (.spawn execution parent (.ok pid)))
    (step : Step s (.spawn execution parent (.ok pid)) after) :
    boxOf (s.table.arena (slotIndex pid)) pid = .empty ∧
      Houses (after.table.arena (slotIndex pid)) pid ∧
      boxOf (after.table.arena (slotIndex pid)) pid = .empty := by
  have moved := step_slot sound.grown.fresh step (slotIndex pid)
  have vacant := sound.spawn_step fits step
  have mail := (sound.slots (slotIndex pid)).mail vacant
  generalize after.table.arena (slotIndex pid) = now at *
  cases moved with
  | same _ _ unborn => exact absurd rfl (unborn _ _ _ rfl)
  | occupied _ _ word hot =>
    have current : now.Current pid := by rw [Slot.Current, word]
    exact ⟨boxOf_empty mail, ⟨current, by simp [word]⟩, boxOf_empty (by rw [hot, mail])⟩

theorem Delivered.born {after : Sys X M}
    (sound : Sound s) (fits : IndexFits s (.spawn execution parent (.ok pid)))
    (step : Step s (.spawn execution parent (.ok pid)) after) :
    Delivered (history ++ [.spawn execution parent (.ok pid)])
      (after.table.slotOf pid) pid := by
  obtain ⟨-, houses, empty⟩ := spawn_mail sound fits step
  exact .opened (lettersOf_spawn history execution parent pid) empty fun _ => houses

theorem reachable_delivered (run : Run Step (fun _ s event => IndexFits s event) Sys.init history s)
    (pid : Pid) :
    Sound s ∧ Delivered history (s.table.slotOf pid) pid := by
  induction run with
  | nil => exact ⟨Sound.init, Delivered.init pid⟩
  | @snoc _ _ _ event _ fits step ih =>
    obtain ⟨sound, before⟩ := ih
    refine ⟨sound.step fits step, ?_⟩
    by_cases born : ∃ execution parent, event = .spawn execution parent (.ok pid)
    · obtain ⟨execution, parent, rfl⟩ := born
      exact Delivered.born sound fits step
    · have unspawned : ∀ execution parent, event ≠ .spawn execution parent (.ok pid) :=
        fun execution parent same => born ⟨execution, parent, same⟩
      exact before.step (sound.slots _) (step_mail sound fits step pid unspawned) unspawned

/-- Over a whole run and all processes a PID has named in it. -/
theorem mail_conserved (run : Run Step (fun _ s event => IndexFits s event) Sys.init history s)
    (pid : Pid) :
    total (fun event => ((lettersFor event pid).handed : Multiset M)) history =
      total (fun event => (lettersFor event pid).arrived) history +
        contents (boxOf (s.table.slotOf pid) pid) := by
  apply run.conserves
  · unfold boxOf
    split <;> rfl
  · intro history s event after run fits step
    have sound := (reachable_delivered run pid).1
    by_cases born : ∃ execution parent, event = .spawn execution parent (.ok pid)
    · obtain ⟨execution, parent, rfl⟩ := born
      obtain ⟨before, -, opened⟩ := spawn_mail sound fits step
      rw [before, opened]
      rfl
    · have unspawned : ∀ execution parent, event ≠ .spawn execution parent (.ok pid) :=
        fun execution parent same => born ⟨execution, parent, same⟩
      exact (step_mail sound fits step pid unspawned).carries.balance

/-- Every message handed over for a PID is in exactly one place, over the whole run and
for the process the PID names now, whose account starts at its spawn: it was handed back,
is in the process's mailbox, was returned to the process, or is in the mailbox of the one
reclaim that follows the process's end. What the process has received of a class is a
prefix of what was queued for it of that class, and it receives business messages only
from behind an empty lifecycle queue. -/
theorem messages_conserved {history : List (Event X M)} {s : Sys X M}
    (run : Run Step (fun _ s event => IndexFits s event) Sys.init history s) (pid : Pid) :
    (total (fun event => ((lettersFor event pid).handed : Multiset M)) history =
      total (fun event => (lettersFor event pid).arrived) history +
        contents (boxOf (s.table.arena (slotIndex pid)) pid)) ∧
    ((lettersOf history pid).handed : Multiset M) = (lettersOf history pid).arrived +
      contents (boxOf (s.table.arena (slotIndex pid)) pid) ∧
    (lettersOf history pid).reclaimed.length ≤ 1 ∧
    (Issued history pid → ((lettersOf history pid).reclaimed = [] ↔
      Houses (s.table.arena (slotIndex pid)) pid)) ∧
    (lettersOf history pid).received.filter Mailbox.isBusiness <+:
      (lettersOf history pid).queued.filter Mailbox.isBusiness ∧
    (lettersOf history pid).received.filter isLifecycle <+:
      (lettersOf history pid).queued.filter isLifecycle ∧
    ∀ event after message, Step s event after → message ∈ (lettersFor event pid).received →
      Mailbox.isBusiness message = true →
        (boxOf (s.table.arena (slotIndex pid)) pid).system = [] := by
  obtain ⟨sound, delivered⟩ := reachable_delivered run pid
  refine ⟨mail_conserved run pid, delivered.balance, delivered.once, ?_, ?_, ?_, ?_⟩
  · intro issued
    refine ⟨?_, delivered.housed⟩
    intro kept
    by_contra gone
    exact delivered.gone issued gone kept
  · rw [delivered.business, append_assoc]
    exact prefix_append _ _
  · rw [delivered.system, append_assoc]
    exact prefix_append _ _
  · intro event after message step received isBusiness
    cases event with
    | call call outcome =>
      have mail := @step_mail _ _ _ _ _ (.call call outcome) sound trivial step pid (by simp)
      exact mail.carries.business_behind delivered.sorted received isBusiness
    | _ =>
      unfold lettersFor at received
      split at received <;> cases received

/-- A message of the business class. -/
def letter (text : UInt8) : Envelope := .fromPayload tagBusiness [text] .zero

/-- Two messages are delivered and one is received. -/
theorem messages_conserved_received :
    ∃ (history : List (Event Unit Envelope)) (s : Sys Unit Envelope),
      Run Step (fun _ s event => IndexFits s event) Sys.init history s ∧
      (lettersOf history firstPid).handed = [letter 1, letter 2] ∧
      (lettersOf history firstPid).received = [letter 1] ∧
      ((lettersOf history firstPid).handed : Multiset Envelope) =
        (lettersOf history firstPid).arrived +
          contents (boxOf (s.table.arena (slotIndex firstPid)) firstPid) := by
  have start : Run Step (fun _ s event => IndexFits s event)
      (Sys.init : Sys Unit Envelope) [] Sys.init := .nil
  have spawned := run_spawn start () none (.inr (by decide))
  have first := run_call spawned (.deliver firstPid (letter 1)) trivial
  have second := run_call first (.deliver firstPid (letter 2)) trivial
  have popped := run_call second (.popReceived firstPid) trivial
  exact ⟨_, _, popped, rfl, rfl, (messages_conserved popped firstPid).2.1⟩

/-- With every `u32` index live, the next spawn is handed the slot, the PID and the
mailbox of a live process: the new process receives a message nobody handed to it. -/
theorem overrun_inherits_mail : ∃ (history : List (Event Unit Envelope)) (s : Sys Unit Envelope),
      Run Step (fun _ _ _ => True) Sys.init history s ∧
      (lettersOf history firstPid).handed = [] ∧
      (lettersOf history firstPid).received = [letter 1] := by
  obtain ⟨history, booted⟩ := boot_run (fun _ _ _ => True)
    (fun _ _ _ _ _ _ => trivial) (2 ^ 32) (Nat.le_refl _)
  have sent := run_call booted (.deliver firstPid (letter 1)) trivial
  have again := run_spawn sent () none trivial
  have popped := run_call again (.popReceived firstPid) trivial
  have account := lettersOf_first_pop
    (history ++ [.call (.deliver firstPid (letter 1)) (.delivery ⟨none, none⟩)])
    () none firstPid (some (letter 1))
  exact ⟨_, _, popped, congrArg Letters.handed account, congrArg Letters.received account⟩

end Koja.Guarantees.Runtime
