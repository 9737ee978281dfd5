import Koja.Source.Runtime.Scheduler
import Koja.Source.Runtime.TimerService
import Koja.Guarantees.Runtime.ExclusiveClaim
import Koja.Guarantees.Runtime.Messages

/-!
# No spurious receive wake

A process parked in `receive` waits for queue traffic and for the deadline it recorded, if
any. Deadlines are armed, cancelled and drained under another lock, so a fired entry may
arrive at any later point: `promote_expired` compares it with the recorded deadline, and a
park without one is woken by a delivery alone.
-/
namespace Koja.Guarantees.Runtime
open Koja.Lib Koja.Source.Runtime List

variable {X M : Type}

/-! ## Receives in progress -/

/-- How far a process is with a receive that parked: still off the cpu, or resumed and
about to take its message. `expired` is the drain that promoted it, if one did. -/
inductive Receive where
  | idle
  | parked (deadline expired : Option Instant)
  | resumed (deadline expired : Option Instant)
  deriving DecidableEq, Repr

def Receive.resume : Receive → Receive
  | .parked deadline expired => .resumed deadline expired
  | receive => receive

def Receive.expire (now : Instant) : Receive → Receive
  | .parked deadline _ => .parked deadline (some now)
  | receive => receive

/-- What a label does to the receive of a process. -/
def receiveWrite : TimedEvent X M → Option (Pid × (Receive → Receive))
  | .table (.call (.receiveOrPark pid deadline) (.mail .parked)) =>
    some (pid, fun _ => .parked deadline none)
  | .table (.call (.tryClaim pid) (.flag true)) => some (pid, Receive.resume)
  | .table (.call (.popReceived pid) _) => some (pid, fun _ => .idle)
  | .table (.spawn _ _ (.ok pid)) => some (pid, fun _ => .idle)
  | .promoteDue now pid _ (.wake (some _)) => some (pid, Receive.expire now)
  | _ => none

/-- The receive `pid` has in progress. -/
def receive (history : List (TimedEvent X M)) (pid : Pid) : Receive :=
  replay receiveWrite .idle history pid

/-- The calls of a process on its own wait and its own queues. -/
def ownWait : Call M → Bool
  | .receiveOrPark _ _ | .takeReplyOrPark _ _ _ _ | .tryPark _ _ _ | .tryParkIo _ _
  | .popReceived _ | .clearDeadline _ | .yieldRunning _ => true
  | _ => false

/-- A process makes its own calls on a worker that holds its claim, and after a receive
that parked none until it is resumed: the claim it parked under is spent, so only another
claim of the same PID could be executing. Resumed, `koja_rt_receive` and
`koja_rt_receive_timeout` clear the deadline and pop. -/
def ReceiveOrder (history : List (TimedEvent X M)) (s : Timed X M) : TimedEvent X M → Prop
  | .table (.call call _) => ownWait call = true → call.pid ∈ s.sys.claims ∧
        match receive history call.pid with
        | .idle => True
        | .parked _ _ => 1 < s.sys.claims.count call.pid
        | .resumed _ _ => call = .clearDeadline call.pid ∨ call = .popReceived call.pid
  | _ => True

section
variable {history : List (TimedEvent X M)} {s : Timed X M} {call : Call M} {outcome : Outcome X M}
  {deadline expired : Option Instant}

theorem order_parked (several : 1 < s.sys.claims.count call.pid)
    (parked : receive history call.pid = .parked deadline expired) :
    ReceiveOrder history s (.table (.call call outcome)) :=
  fun _ => ⟨Multiset.count_pos.mp (Nat.lt_of_succ_lt several), by rw [parked]; exact several⟩

end

/-- The runs in which receives wake for a reason. -/
structure Receiving (history : List (TimedEvent X M)) (s : Timed X M) (event : TimedEvent X M) :
    Prop where
  fits : ∀ inner, event.onTable = some inner → IndexFits s.sys inner
  order : ReceiveOrder history s event

/-! ## What a call does to a receive -/

/-- Something is queued for `receive`. -/
def Fed (mailbox : Mailbox M) : Prop := mailbox.system ≠ [] ∨ mailbox.business ≠ []

theorem Fed.popped {mailbox : Mailbox M} (fed : Fed mailbox) : mailbox.popReceived.1 ≠ none := by
  intro empty
  obtain ⟨noSystem, noBusiness, -⟩ := Mailbox.popReceived_none empty
  exact fed.elim (· noSystem) (· noBusiness)

theorem Fed.push [Message M] {mailbox : Mailbox M} (fed : Fed mailbox) (message : M) :
    Fed (mailbox.push message).2 := by
  obtain ⟨system, business, -⟩ := mailbox.push_parts message
  unfold Fed
  rw [system, business]
  rcases fed with queued | queued
  · exact .inl (append_ne_nil_of_left_ne_nil queued _)
  · exact .inr (append_ne_nil_of_left_ne_nil queued _)

theorem fed_of_target [Message M] (mailbox : Mailbox M) {message : M}
    (target : Mailbox.targetOf message = .receive) : Fed (mailbox.push message).2 := by
  unfold Mailbox.targetOf at target
  unfold Fed Mailbox.push
  cases tag : Message.tag message <;> simp [tag] at target ⊢

/-- A promotion by the drain at `now` was due: the recorded deadline had passed, and that
drain handed it out. -/
def Expired (history : List (TimedEvent X M)) (pid : Pid) (deadline expired : Option Instant) :
    Prop :=
  ∃ fireAt now due, deadline = some fireAt ∧ expired = some now ∧ fireAt ≤ now ∧
    .advance now due ∈ history ∧ .promote pid fireAt ∈ due

theorem Expired.snoc {history : List (TimedEvent X M)} {pid : Pid}
    {deadline expired : Option Instant} (due : Expired history pid deadline expired)
    (event : TimedEvent X M) : Expired (history ++ [event]) pid deadline expired := by
  obtain ⟨fireAt, now, batch, recorded, drain, passed, member, handed⟩ := due
  exact ⟨fireAt, now, batch, recorded, drain, passed, mem_append_left _ member, handed⟩

/-- How a live process stands that has a receive in progress: parked as it asked to, or
ready with a message or for a deadline that passed. -/
def Stands (history : List (TimedEvent X M)) (pid : Pid) (slot : Slot X M) : Receive → Prop
  | .idle => True
  | .parked deadline expired =>
    (slot.lifecycle.state = some .blocked ∧ slot.hot.waiting = .receive ∧
        slot.hot.deadline = deadline) ∨
      (slot.lifecycle.state = some .runnable ∧
        (Fed slot.hot.mailbox ∨ Expired history pid deadline expired))
  | .resumed deadline expired => slot.lifecycle.state = some .running ∧
      (Fed slot.hot.mailbox ∨ Expired history pid deadline expired)

section Steps
variable {history : List (TimedEvent X M)} {pid : Pid} {slot now : Slot X M} {t : ProcessTable X M}
  {call : Call M} {outcome : Outcome X M} {progress : Receive} {s after : Timed X M}
  {event : TimedEvent X M} {sys : Sys X M} {instant fireAt : Instant} {expired : Option Instant}

/-- A step that keeps the state and the wait, and takes nothing from the queues. -/
theorem Stands.kept (stands : Stands history pid slot progress) (event : TimedEvent X M)
    (fed : Fed slot.hot.mailbox → Fed now.hot.mailbox := by exact id)
    (state : now.lifecycle.state = slot.lifecycle.state := by rfl)
    (waiting : now.hot.waiting = slot.hot.waiting := by rfl)
    (deadline : now.hot.deadline = slot.hot.deadline := by rfl) :
    Stands (history ++ [event]) pid now progress := by
  cases progress with
  | idle => trivial
  | parked =>
    rcases stands with ⟨blocked, receiving, recorded⟩ | ⟨ready, reason⟩
    · exact .inl ⟨state.trans blocked, waiting.trans receiving, deadline.trans recorded⟩
    · exact .inr ⟨state.trans ready, reason.imp fed (·.snoc event)⟩
  | resumed =>
    obtain ⟨running, reason⟩ := stands
    exact ⟨state.trans running, reason.imp fed (·.snoc event)⟩

/-- A delivery wakes a parked receive with what it queued, or just queues. -/
theorem Stands.posted [Message M] {message : M} {wake : Option Wake}
    (stands : Stands history pid slot progress)
    (event : TimedEvent X M) (posted : Posted pid slot message wake now) :
    Stands (history ++ [event]) pid now progress := by
  cases posted with
  | quiet => exact stands.kept event (·.push message)
  | waking wakes =>
    obtain ⟨state, woken⟩ := wakeSource_eq_some wakes
    cases progress with
    | idle => trivial
    | parked =>
      refine .inr ⟨rfl, .inl ?_⟩
      rcases stands with ⟨blocked, receiving, -⟩ | ⟨ready, -⟩
      · rcases woken with ⟨-, target⟩ | ⟨rfl, -⟩
        · exact fed_of_target _ (target.symm.trans receiving)
        · rw [blocked] at state
          cases state
      · rw [ready] at state
        rcases woken with ⟨rfl, -⟩ | ⟨rfl, -⟩ <;> cases state
    | resumed =>
      rw [stands.1] at state
      rcases woken with ⟨rfl, -⟩ | ⟨rfl, -⟩ <;> cases state

/-- What a call's label makes of a receive in progress. -/
def called (call : Call M) (outcome : Outcome X M) (progress : Receive) : Receive :=
  (receiveWrite (.table (.call call outcome) : TimedEvent X M)).elim progress (·.2 progress)

/-- The calls a process makes for itself at this point of a receive. -/
def Allowed (call : Call M) : Receive → Prop
  | .idle => True
  | .parked _ _ => False
  | .resumed _ _ => call = .clearDeadline call.pid ∨ call = .popReceived call.pid

/-- Setters and death edges are no part of a receive. -/
theorem called_other
    (other : call.hotUpdate.isSome = true ∨ (call.scalarUpdate (X := X)).isSome = true ∨
      call.forces.isSome = true) : called call outcome progress = progress := by
  cases call <;> first | rfl | simp [Call.hotUpdate, Call.scalarUpdate, Call.forces] at other

theorem touch_alive_back [Message M] (touch : Touch t call outcome slot now)
    (alive : now.Alive pid) : slot.Alive pid := by
  rcases touch_word touch with within | ⟨forced, -, -, rfl⟩
  · obtain ⟨current, state, occupied, live⟩ := Slot.alive_iff.mp alive
    refine Slot.alive_iff.mpr ⟨within.generation.symm.trans current, ?_⟩
    rcases within.edge with kept | ⟨source, target, before, -, legal⟩
    · exact ⟨state, kept.symm.trans occupied, live⟩
    · refine ⟨source, before, ?_⟩
      rintro rfl
      cases target <;> cases legal
  · exact absurd alive (vacated_not_alive slot pid)

theorem Stands.touched [Message M] (touch : Touch t call outcome slot now)
    (stands : Stands history call.pid slot progress) (event : TimedEvent X M)
    (alive : now.Alive call.pid) (undrained : ∀ pid fireAt, call ≠ .promoteExpired pid fireAt)
    (order : ownWait call = true → Allowed call progress) :
    Stands (history ++ [event]) call.pid now (called call outcome progress) := by
  cases touch with
  | delivered _ posted | replied _ _ posted => exact stands.posted event posted
  | claimed _ idle ready =>
    cases progress with
    | idle => trivial
    | parked =>
      rcases stands with ⟨blocked, -⟩ | ⟨-, reason⟩
      · rcases ready with state | state <;> cases blocked.symm.trans state
      · exact ⟨rfl, reason.imp id (·.snoc event)⟩
    | resumed =>
      rcases ready with state | state <;> cases stands.1.symm.trans state
  | receiveParked => exact .inl ⟨rfl, rfl, rfl⟩
  | popped current | popMissed stale => trivial
  | parked running | ioParked running | received current | replyReady current
  | replyStale current | replyCalleeDown current | replyParked running | yielded running =>
    cases progress with
    | idle => trivial
    | parked => exact (order rfl).elim
    | resumed => exact (order rfl).elim (fun same => nomatch same) (fun same => nomatch same)
  | expired => exact absurd rfl (undrained _ _)
  | ioPromoted parked =>
    cases progress with
    | idle => trivial
    | parked =>
      rcases stands with ⟨blocked, -⟩ | ⟨ready, -⟩
      · cases blocked.symm.trans parked.2
      · cases ready.symm.trans parked.2
    | resumed => cases stands.1.symm.trans parked.2
  | callPromoted parked waiting =>
    cases progress with
    | idle => trivial
    | parked =>
      rcases stands with ⟨-, receiving, -⟩ | ⟨ready, -⟩
      · cases receiving.symm.trans waiting
      · cases ready.symm.trans parked.2
    | resumed => cases stands.1.symm.trans parked.2
  | marked => exact absurd alive (marked_not_alive _ _ _)
  | reclaimed => exact absurd alive (vacated_not_alive _ _)
  | hotSet sets current =>
    cases call <;> simp only [Call.hotUpdate, Option.some.injEq, reduceCtorEq] at sets <;>
      subst sets
    case clearDeadline =>
      cases progress with
      | idle => trivial
      | parked => exact (order rfl).elim
      | resumed => exact ⟨stands.1, stands.2.imp id (·.snoc event)⟩
    all_goals exact stands.kept event
  | hotMissed sets | deathMissed sets | scalarMissed sets =>
    rw [called_other (by rw [sets]; simp)]
    exact stands.kept event
  | scalarSet sets =>
    obtain ⟨word, hot, -⟩ := scalarUpdate_frame sets slot
    rw [called_other (by rw [sets]; simp)]
    exact stands.kept event (by rw [hot]; exact id) (by rw [word]) (by rw [hot]) (by rw [hot])
  | _ => exact stands.kept event

/-- A call's label writes the receive of the process it names, if any. -/
theorem receiveWrite_call {key : Pid} {change : Receive → Receive}
    (write : receiveWrite (.table (.call call outcome) : TimedEvent X M) = some (key, change)) :
    key = call.pid := by
  unfold receiveWrite at write
  split at write <;> simp_all [Call.pid]

theorem receive_called :
    receive (history ++ [.table (.call call outcome)]) call.pid =
      called call outcome (receive history call.pid) := by
  unfold called
  cases write : receiveWrite (.table (.call call outcome) : TimedEvent X M) with
  | none => exact replay_unwritten (fun change => by rw [write]; simp)
  | some entry =>
    obtain ⟨key, change⟩ := entry
    cases receiveWrite_call write
    exact replay_written write

/-- Only calls and spawns under a PID, and promotions of it, write its receive. -/
theorem receive_other {event : Event X M}
    (apart : ∀ call outcome, event = .call call outcome → call.pid ≠ pid)
    (unspawned : ∀ execution parent, event ≠ .spawn execution parent (.ok pid)) :
    receive (history ++ [.table event]) pid = receive history pid := by
  apply replay_unwritten
  intro change write
  cases event with
  | call call outcome => exact apart call outcome rfl (receiveWrite_call write).symm
  | spawn execution parent result =>
    cases result with
    | error => cases write
    | ok =>
      cases write
      exact unspawned execution parent rfl
  | _ => cases write

theorem receive_spawned {execution : X} {parent : Option Pid} :
    receive (history ++ [.table (.spawn execution parent (.ok pid))]) pid = .idle :=
  @replay_written _ _ _ _ receiveWrite .idle history _ pid (fun _ => .idle) rfl

/-- What every state of the runs in question keeps: who has a receive in progress stands
accordingly, and what was drained was due. -/
structure Served (history : List (TimedEvent X M)) (s : Timed X M) : Prop where
  sound : Sound s.sys
  claimed : Claimed s.sys
  due : ∀ now pid fireAt, (now, .promote pid fireAt) ∈ s.due →
    fireAt ≤ now ∧ ∃ batch, .advance now batch ∈ history ∧ .promote pid fireAt ∈ batch
  stands : ∀ pid, (s.sys.table.arena (slotIndex pid)).Alive pid →
    Stands history pid (s.sys.table.arena (slotIndex pid)) (receive history pid)

theorem Served.init : Served ([] : List (TimedEvent X M)) Timed.init where
  sound := Sound.init
  claimed := Claimed.init
  due := fun _ _ _ member => absurd member (Multiset.notMem_zero _)
  stands := fun _ _ => trivial

/-- No process makes calls of its own while it is parked: it has one claim, and parked
under it. -/
theorem Served.allowed (served : Served history s)
    (order : ReceiveOrder history s (.table (.call call outcome))) (own : ownWait call = true) :
    Allowed call (receive history call.pid) := by
  obtain ⟨-, order⟩ := order own
  unfold Allowed
  split
  · trivial
  · next parked =>
    rw [parked] at order
    have once := Multiset.nodup_iff_count_le_one.mp (Multiset.Nodup.of_map _ served.claimed.once)
      call.pid
    exact absurd order (Nat.not_lt.mpr once)
  · next resumed =>
    rw [resumed] at order
    exact order

/-- A step on the table under any label: what a call under `pid` does to its slot is left to
show, and any other call on the slot is stale. -/
theorem Served.label_step [Message M] (served : Served history s) {inner : Event X M}
    (step : Step s.sys inner sys)
    (alive : (sys.table.arena (slotIndex pid)).Alive pid)
    (others : (∀ call outcome, inner = .call call outcome → call.pid ≠ pid) →
      (∀ execution parent, inner ≠ .spawn execution parent (.ok pid)) →
      receive (history ++ [event]) pid = receive history pid)
    (born : ∀ execution parent, inner = .spawn execution parent (.ok pid) →
      receive (history ++ [event]) pid = .idle)
    (own : ∀ t call outcome now, inner = .call call outcome → call.pid = pid →
      Touch t call outcome (s.sys.table.arena (slotIndex pid)) now → now.Alive pid →
      Stands history pid (s.sys.table.arena (slotIndex pid)) (receive history pid) →
      Stands (history ++ [event]) pid now (receive (history ++ [event]) pid)) :
    Stands (history ++ [event]) pid (sys.table.arena (slotIndex pid))
      (receive (history ++ [event]) pid) := by
  have moved := step_slot served.sound.grown.fresh step (slotIndex pid)
  generalize sys.table.arena (slotIndex pid) = now at moved alive ⊢
  generalize here : s.sys.table.arena (slotIndex pid) = slot at moved
  cases moved with
  | same apart same unspawned =>
    rw [same] at alive ⊢
    rw [others (fun call outcome label named => apart call outcome label (by rw [named]))
      (fun execution parent label => unspawned execution parent pid label rfl)]
    subst here
    exact (served.stands pid alive).kept _
  | touched names touch =>
    rename_i call outcome
    subst here
    have lived := touch_alive_back touch alive
    have stands := served.stands pid lived
    by_cases same : call.pid = pid
    · exact own _ call outcome now rfl same touch alive stands
    · rw [others (by rintro _ _ ⟨⟩; exact same) nofun,
        touch_apart touch names lived.current same]
      exact stands.kept _
  | occupied names _ word =>
    have current := alive.current
    unfold Slot.Current at current
    rw [word] at current
    rw [born _ _ (by rw [Pid.ext names current])]
    trivial
  | vacated _ _ empty =>
    rw [empty] at alive
    exact absurd alive (vacated_not_alive _ _)

theorem Served.table_step [Message M] (served : Served history s) {event : Event X M}
    (order : ReceiveOrder history s (.table event)) (step : Step s.sys event sys)
    (undrained : ∀ pid fireAt outcome, event ≠ .call (.promoteExpired pid fireAt) outcome)
    (alive : (sys.table.slotOf pid).Alive pid) :
    Stands (history ++ [.table event]) pid (sys.table.slotOf pid)
      (receive (history ++ [.table event]) pid) := by
  refine served.label_step step alive receive_other ?_ ?_
  · rintro execution parent rfl
    exact receive_spawned
  · rintro t call outcome now rfl rfl touch lives stands
    rw [receive_called]
    refine stands.touched touch _ lives ?_ (served.allowed order)
    rintro pid fireAt rfl
    exact undrained _ _ _ rfl

/-- A call that is no process's own, applied to a drained entry. -/
theorem Served.deliver_step [Message M] (served : Served history s) {named : Pid} {envelope : M}
    (step : Step s.sys (.call (.deliver named envelope) outcome) sys)
    (alive : (sys.table.slotOf pid).Alive pid) :
    Stands (history ++ [.deliverDue instant named envelope outcome]) pid
      (sys.table.slotOf pid)
      (receive (history ++ [.deliverDue instant named envelope outcome]) pid) := by
  have unwritten : receive (history ++ [.deliverDue instant named envelope outcome]) pid =
      receive history pid := replay_unwritten (fun change => nofun)
  refine served.label_step step alive (fun _ _ => unwritten) nofun ?_
  rintro t _ _ now ⟨⟩ rfl touch lives stands
  rw [unwritten]
  exact stands.touched touch _ lives (by simp) (fun own => nomatch own)

/-- A promotion wakes the park that recorded its instant, or nobody. -/
theorem Stands.promoted [Message M] (stands : Stands history pid slot progress)
    (touch : Touch t (.promoteExpired pid fireAt) outcome slot now) (drained : fireAt ≤ instant ∧
      ∃ batch, .advance instant batch ∈ history ∧ .promote pid fireAt ∈ batch)
    (written : receive history pid = progress) :
    Stands (history ++ [.promoteDue instant pid fireAt outcome]) pid now
      (receive (history ++ [.promoteDue instant pid fireAt outcome]) pid) := by
  cases touch with
  | expiredMissed =>
    have unwritten : receive (history ++ [.promoteDue instant pid fireAt (.wake none)]) pid =
        progress := (replay_unwritten (fun change => by simp [receiveWrite])).trans written
    rw [unwritten]
    exact stands.kept _
  | marked ends | reclaimed ends | deathMissed ends => cases ends
  | hotSet sets | hotMissed sets | scalarSet sets | scalarMissed sets => cases sets
  | expired parked parkable due =>
    have expires : receive (history ++ [.promoteDue instant pid fireAt
        (.wake (some ⟨pid, slot.wakePriority⟩))]) pid = Receive.expire instant progress := by
      rw [← written]
      exact @replay_written _ _ _ _ receiveWrite .idle history _ pid _ rfl
    rw [expires]
    cases progress with
    | idle => trivial
    | parked =>
      refine .inr ⟨rfl, .inr ?_⟩
      rcases stands with ⟨-, -, recorded⟩ | ⟨ready, -⟩
      · obtain ⟨passed, batch, member, handed⟩ := drained
        exact ⟨fireAt, instant, batch, recorded.symm.trans due, rfl, passed,
          mem_append_left _ member, handed⟩
      · have state := ready.symm.trans parked.2
        rcases parkable with rfl | rfl <;> cases state
    | resumed =>
      have state := stands.1.symm.trans parked.2
      rcases parkable with rfl | rfl <;> cases state

theorem Served.promote_step [Message M] {named : Pid} (served : Served history s)
    (step : Step s.sys (.call (.promoteExpired named fireAt) outcome) sys)
    (drained : (instant, .promote named fireAt) ∈ s.due)
    (alive : (sys.table.slotOf pid).Alive pid) :
    Stands (history ++ [.promoteDue instant named fireAt outcome]) pid
      (sys.table.slotOf pid)
      (receive (history ++ [.promoteDue instant named fireAt outcome]) pid) := by
  refine served.label_step step alive ?_ nofun ?_
  · intro apart _
    have different : named ≠ pid := apart _ _ rfl
    apply replay_unwritten
    intro change write
    unfold receiveWrite at write
    split at write <;> simp_all
  · rintro t _ _ now ⟨⟩ rfl touch lives stands
    exact stands.promoted touch (served.due _ _ _ drained) rfl

theorem Served.step [Message M] (served : Served history s)
    (admitted : Receiving history s event) (step : TimedStep s event after) :
    Served (history ++ [event]) after := by
  obtain ⟨fits, order⟩ := admitted
  have older : ∀ {instant pid fireAt}, (instant, .promote pid fireAt) ∈ s.due → fireAt ≤ instant ∧
      ∃ batch, .advance instant batch ∈ history ++ [event] ∧ .promote pid fireAt ∈ batch := by
    intro instant pid fireAt member
    obtain ⟨passed, batch, drained, handed⟩ := served.due instant pid fireAt member
    exact ⟨passed, batch, mem_append_left _ drained, handed⟩
  have idle : after.sys = s.sys → receiveWrite event = none → ∀ pid,
      (after.sys.table.slotOf pid).Alive pid →
      Stands (history ++ [event]) pid (after.sys.table.slotOf pid)
        (receive (history ++ [event]) pid) := by
    intro same unwritten pid alive
    have kept : receive (history ++ [event]) pid = receive history pid :=
      replay_unwritten (fun change => by rw [unwritten]; simp)
    rw [kept]
    rw [same] at alive ⊢
    exact (served.stands pid alive).kept event
  have sound : Sound after.sys ∧ Claimed after.sys := by
    rcases step.onTable with ⟨inner, label, inside⟩ | ⟨-, same⟩
    · have fit := fits inner label
      exact ⟨served.sound.step fit inside, served.claimed.step served.sound fit inside⟩
    · rw [same]
      exact ⟨served.sound, served.claimed⟩
  cases step with
  | table inside undrained =>
    exact ⟨sound.1, sound.2, fun _ _ _ member => older member,
      fun pid alive => served.table_step order inside undrained alive⟩
  | armDeadline | cancelDeadline | scheduleDeliver =>
    exact ⟨sound.1, sound.2, fun _ _ _ member => older member, idle rfl rfl⟩
  | advance =>
    refine ⟨sound.1, sound.2, ?_, idle rfl rfl⟩
    intro drained pid fireAt member
    rcases Multiset.mem_add.mp member with old | new
    · exact older old
    · obtain ⟨entry, handed, same⟩ := mem_map.mp (Multiset.mem_coe.mp new)
      cases same
      exact ⟨s.timers.advance_due _ handed, _,
        mem_append_right _ (mem_singleton_self _), handed⟩
  | promoteDue next =>
    refine ⟨sound.1, sound.2, ?_, ?_⟩
    · intro instant pid fireAt member
      exact older (by rw [next]; exact Multiset.mem_cons_of_mem member)
    · intro pid alive
      exact served.promote_step (.call (.fresh (by simp)))
        (by rw [next]; exact Multiset.mem_cons_self _ _) alive
  | deliverDue next =>
    refine ⟨sound.1, sound.2, ?_, ?_⟩
    · intro instant pid fireAt member
      exact older (by rw [next]; exact Multiset.mem_cons_of_mem member)
    · intro pid alive
      exact served.deliver_step (.call (.fresh (by simp))) alive

/-- What makes a receive parked without a deadline runnable is a delivery to it. -/
theorem touch_wakes [Message M] (touch : Touch t call outcome slot now)
    (own : call.pid = pid) (blocked : slot.In pid .blocked) (ready : now.In pid .runnable)
    (stands : Stands history pid slot (.parked none expired)) :
    ∃ message result, some (Event.call call outcome) =
        some (Event.call (.deliver pid message) result) ∨
      ∃ token, some (Event.call call outcome) =
        some (Event.call (.deliverReply pid token message) result) := by
  obtain ⟨-, receiving, undated⟩ : slot.lifecycle.state = some .blocked ∧
      slot.hot.waiting = .receive ∧ slot.hot.deadline = none := by
    rcases stands with parked | ⟨ready, -⟩
    · exact parked
    · cases blocked.2.symm.trans ready
  cases own
  cases touch with
  | delivered => exact ⟨_, _, .inl rfl⟩
  | replied => exact ⟨_, _, .inr ⟨_, rfl⟩⟩
  | expired _ _ due => cases undated.symm.trans due
  | callPromoted _ waiting => cases receiving.symm.trans waiting
  | ioPromoted parked => cases blocked.2.symm.trans parked.2
  | yielded running => cases blocked.2.symm.trans running.2
  | claimed | parked | ioParked | receiveParked | replyParked | marked | reclaimed => cases ready.2
  | scalarSet sets =>
    have state := ready.2
    rw [(scalarUpdate_frame sets slot).1] at state
    cases blocked.2.symm.trans state
  | _ => cases blocked.2.symm.trans ready.2

/-- A parked receive without a deadline leaves its park by a delivery alone. -/
theorem Served.woken [Message M] (served : Served history s) (step : TimedStep s event after)
    (parked : receive history pid = .parked none expired)
    (blocked : (s.sys.table.arena (slotIndex pid)).In pid .blocked)
    (ready : (after.sys.table.arena (slotIndex pid)).In pid .runnable) :
    ∃ message outcome, event.onTable = some (.call (.deliver pid message) outcome) ∨
      ∃ token, event.onTable = some (.call (.deliverReply pid token message) outcome) := by
  have stands := served.stands pid (Slot.alive_iff.mpr ⟨blocked.1, _, blocked.2, nofun⟩)
  rw [parked] at stands
  rcases step.onTable with ⟨inner, label, inside⟩ | ⟨-, same⟩
  · rw [label]
    have moved := step_slot served.sound.grown.fresh inside (slotIndex pid)
    generalize after.sys.table.arena (slotIndex pid) = now at moved ready
    generalize s.sys.table.arena (slotIndex pid) = slot at moved blocked stands
    have stuck : now ≠ slot := by
      rintro rfl
      cases blocked.2.symm.trans ready.2
    cases moved with
    | same _ same => exact absurd same stuck
    | touched names touch =>
      rename_i call outcome
      have own : call.pid = pid := by
        by_contra different
        exact stuck (touch_apart touch names blocked.1 different)
      exact touch_wakes touch own blocked ready stands
    | occupied _ _ word =>
      have state := ready.2
      rw [word] at state
      cases state
    | vacated _ _ empty =>
      rw [empty] at ready
      cases ready.2
  · rw [same] at ready
    cases blocked.2.symm.trans ready.2

/-- What a pop under a live PID returns is the head of its queues. -/
theorem pop_step [Message M] (served : Served history s) {popped : Option M}
    (step : TimedStep s (.table (.call (.popReceived pid) (.message popped))) after)
    (alive : (s.sys.table.arena (slotIndex pid)).Alive pid) :
    popped = (s.sys.table.arena (slotIndex pid)).hot.mailbox.popReceived.1 := by
  cases step with
  | table inside undrained =>
    rename_i sys
    have moved := step_slot served.sound.grown.fresh inside (slotIndex pid)
    generalize sys.table.arena (slotIndex pid) = now at moved
    generalize label : Event.call (.popReceived pid) (.message popped) = event at moved
    cases moved with
    | same apart => exact absurd rfl (apart _ _ label.symm)
    | touched _ touch =>
      cases label
      cases touch with
      | popped => rfl
      | popMissed stale => exact absurd alive.current stale
    | _ => cases label

/-- A fired deadline that wakes a park is the one the park recorded. -/
theorem promote_step_due [Message M] (served : Served history s) {deadline : Option Instant}
    {wake : Wake}
    (stands : Stands history pid (s.sys.table.slotOf pid) (.parked deadline expired))
    (step : TimedStep s (.promoteDue instant pid fireAt (.wake (some wake))) after) :
    deadline = some fireAt ∧ fireAt ≤ instant := by
  generalize label : TimedEvent.promoteDue instant pid fireAt (.wake (some wake)) = event at step
  cases step with
  | promoteDue next =>
    simp only [TimedEvent.promoteDue.injEq] at label
    obtain ⟨rfl, rfl, rfl, result⟩ := label
    have passed := (served.due instant pid fireAt
      (by rw [next]; exact Multiset.mem_cons_self _ _)).1
    have touch := (perform_local s.sys.table (.promoteExpired pid fireAt)
      (served.sound.grown.fresh _)).touch
    rw [← result] at touch
    change Touch _ _ _ (s.sys.table.slotOf pid) _ at touch
    generalize (s.sys.table.perform (.promoteExpired pid fireAt)).2.arena _ = now at touch
    refine ⟨?_, passed⟩
    cases touch with
    | expired parked parkable due =>
      rcases stands with ⟨-, -, recorded⟩ | ⟨ready, -⟩
      · exact recorded.symm.trans due
      · have state := ready.symm.trans parked.2
        rcases parkable with rfl | rfl <;> cases state
  | _ => cases label

theorem receivedTag_some {wireByte : M → UInt8} {message : M} :
    receivedTag wireByte (some message) ≠ -1 := by
  intro same
  have bits : (wireByte message).toUInt64.toInt64.toUInt64.toNat = (-1 : Int64).toUInt64.toNat :=
    congrArg (fun tag => tag.toUInt64.toNat) same
  have value : (wireByte message).toUInt64.toInt64.toUInt64.toNat = (wireByte message).toNat := by
    simp
  have minus : (-1 : Int64).toUInt64.toNat = 2 ^ 64 - 1 := by decide
  have small := (wireByte message).toNat_lt
  rw [value, minus] at bits
  omega

/-- In every run in which growth hands out fresh indices and processes keep to the order
of `koja_rt_receive`, whatever is armed, cancelled and fired when: a process parked without a
deadline is made runnable by a delivery only, and pops a message once resumed; a process
parked with a deadline that pops none was promoted by a drain that came no earlier than
the deadline and handed it out; and a fired deadline wakes no park but one that recorded
it. -/
theorem no_spurious_receive_wake [Message M] (run : Run TimedStep Receiving Timed.init history s) :
    (∀ pid expired event after, receive history pid = .parked none expired →
      (s.sys.table.arena (slotIndex pid)).In pid .blocked → TimedStep s event after →
      (after.sys.table.arena (slotIndex pid)).In pid .runnable →
      ∃ message outcome, event.onTable = some (.call (.deliver pid message) outcome) ∨
        ∃ token, event.onTable = some (.call (.deliverReply pid token message) outcome)) ∧
    (∀ pid expired popped after, receive history pid = .resumed none expired →
      (s.sys.table.arena (slotIndex pid)).Alive pid →
      TimedStep s (.table (.call (.popReceived pid) (.message popped))) after →
      popped ≠ none ∧ ∀ wireByte, receivedTag wireByte popped ≠ -1) ∧
    (∀ pid deadline expired after, receive history pid = .resumed (some deadline) expired →
      (s.sys.table.arena (slotIndex pid)).Alive pid →
      TimedStep s (.table (.call (.popReceived pid) (.message none))) after →
      ∃ now due, expired = some now ∧ deadline ≤ now ∧ .advance now due ∈ history ∧
        .promote pid deadline ∈ due) ∧
    ∀ pid deadline expired now fireAt wake after, receive history pid = .parked deadline expired →
      (s.sys.table.arena (slotIndex pid)).Alive pid →
      TimedStep s (.promoteDue now pid fireAt (.wake (some wake))) after →
      deadline = some fireAt ∧ fireAt ≤ now := by
  have served : Served history s := by
    apply run.invariant Served Served.init
    intro history s event after served admitted step
    exact served.step admitted step
  refine ⟨?_, ?_, ?_, ?_⟩
  · intro pid expired event after parked blocked step ready
    exact served.woken step parked blocked ready
  · intro pid expired popped after resumed alive step
    have stands := served.stands pid alive
    rw [resumed] at stands
    have took : popped ≠ none := by
      rw [pop_step served step alive]
      rcases stands.2 with fed | ⟨_, _, _, expired, -⟩
      · exact fed.popped
      · cases expired
    refine ⟨took, ?_⟩
    intro wireByte
    cases popped with
    | none => exact absurd rfl took
    | some message => exact receivedTag_some
  · intro pid deadline expired after resumed alive step
    have stands := served.stands pid alive
    rw [resumed] at stands
    rcases stands.2 with fed | ⟨fireAt, now, due, recorded, drain, passed, member, handed⟩
    · exact absurd (pop_step served step alive).symm fed.popped
    · cases recorded
      exact ⟨now, due, drain, passed, member, handed⟩
  · intro pid deadline expired now fireAt wake after parked alive step
    have stands := served.stands pid alive
    rw [parked] at stands
    exact promote_step_due served stands step

end Steps

/-- A process parks in a receive without a deadline, is switched out, sent a message and
resumed: it pops the message. -/
theorem no_spurious_receive_wake_delivered :
    ∃ (history : List (TimedEvent Unit Envelope)) (s after : Timed Unit Envelope)
      (popped : Option Envelope),
      Run TimedStep Receiving Timed.init history s ∧
      receive history firstPid = .resumed none none ∧
      (s.sys.table.arena (slotIndex firstPid)).Alive firstPid ∧
      TimedStep s (.table (.call (.popReceived firstPid) (.message popped))) after ∧
      popped ≠ none := by
  have spawned := (.nil : Run TimedStep Receiving
    (Timed.init : Timed Unit Envelope) [] Timed.init).extend (.table (.spawn () none) (by simp))
    ⟨fun _ same => by cases same; exact .inr (by decide), trivial⟩
  have claimed := timed_call spawned (.tryClaim firstPid)
    ⟨fun _ same => by cases same; trivial, nofun⟩
  have parked := timed_call claimed (.receiveOrPark firstPid none)
    ⟨fun _ same => by cases same; trivial, fun _ => ⟨by decide, trivial⟩⟩
  have released := timed_call parked (.afterSwitch firstPid)
    ⟨fun _ same => by cases same; trivial, nofun⟩
  have sent := timed_call released (.deliver firstPid (letter 1))
    ⟨fun _ same => by cases same; trivial, nofun⟩
  have resumed := timed_call sent (.tryClaim firstPid)
    ⟨fun _ same => by cases same; trivial, nofun⟩
  have taken := (no_spurious_receive_wake resumed).2.1 firstPid none _ _ rfl rfl
    (timedStep_call _ (.popReceived firstPid))
  exact ⟨_, _, _, some (letter 1), resumed, rfl, rfl,
    timedStep_call _ (.popReceived firstPid), taken.1⟩

/-- Every index is live, the first process runs, and another is spawned over it. -/
def overrunTimed : Timed Unit Envelope :=
  ⟨((booted (2 ^ 32)).perform (.tryClaim firstPid)).spawn () none, .new, 0⟩

theorem overrunTimed_run : ∃ history : List (TimedEvent Unit Envelope),
    Run TimedStep ReceiveOrder Timed.init history overrunTimed ∧
      receive history firstPid = .idle := by
  obtain ⟨history, booting⟩ := boot_run
    (fun _ _ event => ∃ execution parent result, event = .spawn execution parent result)
    (fun _ _ execution parent result _ => ⟨execution, parent, result, rfl⟩) (2 ^ 32)
    (Nat.le_refl _)
  have lifted : Run TimedStep ReceiveOrder Timed.init (history.map .table)
      ⟨booted (2 ^ 32), .new, 0⟩ := by
    refine timed_lift ?_ booting
    rintro history s event ⟨execution, parent, result, rfl⟩
    exact ⟨trivial, by simp⟩
  have claimed := timed_call lifted (.tryClaim firstPid) nofun
  exact ⟨_, claimed.extend (.table (.spawn () none) (by simp)) trivial,
    receive_spawned⟩

/-- With every `u32` index live, a process is spawned over a running one under the same PID:
one of the two parks in a receive without a deadline, the other takes the message that
wakes it, and the resumed receive finds none. -/
theorem overrun_wakes_empty :
    ∃ (history : List (TimedEvent Unit Envelope)) (s after : Timed Unit Envelope),
      Run TimedStep ReceiveOrder Timed.init history s ∧
      receive history firstPid = .resumed none none ∧
      (s.sys.table.arena (slotIndex firstPid)).Alive firstPid ∧
      ReceiveOrder history s (.table (.call (.popReceived firstPid) (.message none))) ∧
      TimedStep s (.table (.call (.popReceived firstPid) (.message none))) after := by
  obtain ⟨history, run, idle⟩ := overrunTimed_run
  have claimed := timed_call run (.tryClaim firstPid) nofun
  have parked := timed_call claimed (.receiveOrPark firstPid none)
    (fun _ => ⟨by decide, by
      dsimp only [Call.pid]
      rw [receive, replay_append idle]
      trivial⟩)
  have sent := timed_call parked (.deliver firstPid (letter 1)) nofun
  rw [append_assoc, append_assoc] at sent
  have stolen := timed_call sent (.receiveOrPark firstPid none)
    (order_parked (by decide) ((replay_append idle).trans rfl))
  have released := timed_call stolen (.afterSwitch firstPid) nofun
  have resumed := timed_call released (.tryClaim firstPid) nofun
  rw [append_assoc, append_assoc, append_assoc] at resumed
  exact ⟨_, _, _, resumed, (replay_append idle).trans rfl, rfl,
    fun _ => ⟨by decide, by
      dsimp only [Call.pid]
      rw [receive, replay_append idle]
      exact .inr rfl⟩,
    timedStep_call _ (.popReceived firstPid)⟩

end Koja.Guarantees.Runtime
