import Koja.Source.Runtime.Reactor
import Koja.Guarantees.Runtime.Messages

/-!
# I/O waiters

`io_block` parks a process and leaves a `Resume` waker under its descriptor. The map has
one entry a descriptor, and every `register`, `deregister` and `close` of that descriptor
writes it. A waiter keeps its entry as long as nobody else uses its descriptor.
-/
namespace Koja.Guarantees.Runtime
open Koja.Lib Koja.Source.Runtime Multiset
open Function (update_self update_of_ne)
open NativeReactor (release takeBack)

variable {X : Type}

/-! ## The descriptor a process is blocked on -/

/-- A parked `io_block` puts the process on its descriptor until it has resumed; a spawn
starts a new process under the PID. -/
def blockWrite : IoEvent X → Option (Pid × (Option Fd → Option Fd))
  | .ioBlock pid fd _ _ (.io .parked) => some (pid, fun _ => some fd)
  | .ioResumed pid _ => some (pid, fun _ => none)
  | .table (.spawn _ _ (.ok pid)) => some (pid, fun _ => none)
  | _ => none

variable (history : List (IoEvent X))

def blockedOn (pid : Pid) : Option Fd :=
  replay blockWrite none history pid

variable (s : IoSys X)

/-- The process is inside an `io_block` on the descriptor. -/
def Uses (pid : Pid) (fd : Fd) : Prop :=
  blockedOn history pid = some fd ∧ Houses (s.sys.table.arena (slotIndex pid)) pid

/-- The registration an unfinished operation belongs to. -/
def registering : IoPending → Option (Fd × Waker)
  | .insert fd _ waker | .arm fd _ waker | .takeBack fd waker => some (fd, waker)
  | .wake _ | .disarm _ => none

/-- Nobody is inside an `io_block` on the descriptor or has an operation on it
unfinished. -/
structure FdIdle (fd : Fd) : Prop where
  unused : ∀ pid, ¬ Uses history s pid fd
  unregistering : ∀ item ∈ s.doing, ∀ waker, registering item ≠ some (fd, waker)
  settled : .disarm fd ∉ s.doing

/-- The order a process's own code gives its calls: it runs them, is in one `io_block` at a
time, and comes back from one after its registration is done and a worker runs it again. -/
def IoOrder : IoEvent X → Prop
  | .ioBlock pid _ _ _ _ | .watchFd pid _ _ | .unwatchFd pid _ =>
    pid ∈ s.sys.claims ∧ blockedOn history pid = none
  | .ioResumed pid fd =>
    pid ∈ s.sys.claims ∧ Uses history s pid fd ∧
      ¬ (s.sys.table.arena (slotIndex pid)).In pid .waitingIo ∧
      ¬ (s.sys.table.arena (slotIndex pid)).In pid .runnable ∧
      ∀ item ∈ s.doing, ∀ fd, registering item ≠ some (fd, .resume pid)
  | _ => True

/-- Calls that write a descriptor's entry start on an idle descriptor only. -/
def OneUser : IoEvent X → Prop
  | .ioBlock _ fd _ _ _ | .watchFd _ fd _ | .unwatchFd _ fd => FdIdle history s fd
  | _ => True

/-- The waiter is the registered `Resume` waker of its descriptor, or its registration or
its wake is in flight. -/
def Tended (pid : Pid) (fd : Fd) : Prop :=
  (s.reactor.wakers fd = some (.resume pid) ∧
    (s.reactor.registered fd = true ∨ (∃ interest, .arm fd interest (.resume pid) ∈ s.doing) ∨
      .takeBack fd (.resume pid) ∈ s.doing)) ∨
  (∃ interest, .insert fd interest (.resume pid) ∈ s.doing) ∨
  .wake (.resume pid) ∈ s.doing

/-! ## What a step of the table does to a waiter -/

theorem promoteIoWaiter_promotes (fresh : Fresh t) :
    ¬ ((t.promoteIoWaiter pid).2.arena (slotIndex pid)).In pid .waitingIo := by
  unfold ProcessTable.promoteIoWaiter
  rcases t.withHot_cases pid (promoteIoWaiterHold pid) with ⟨run, missed⟩ | ⟨current, run⟩
  · rw [run]
    exact not_in_of_missed (fresh _) missed
  · rw [run]
    intro waiting
    rcases promoteIoWaiterHold_cases t.tally current with ⟨state, counted, hold⟩ | ⟨state, hold⟩
    · simp [hold, ProcessTable.store, Slot.In, Slot.withState] at waiting
    · simp only [hold, ProcessTable.store, update_self] at waiting
      exact state waiting.2

section Table
variable {M : Type} [Message M] {pid : Pid} {event : Event X M} {t : ProcessTable X M}

/-- A process housed after a step was housed before it, or was spawned by it. -/
theorem houses_back {s after : Sys X M} (fresh : Fresh s.table)
    (step : Step s event after) (houses : Houses (after.table.arena (slotIndex pid)) pid) :
    Houses (s.table.arena (slotIndex pid)) pid ∨
      ∃ execution parent, event = .spawn execution parent (.ok pid) := by
  have moved := step_slot fresh step (slotIndex pid)
  generalize s.table.arena (slotIndex pid) = slot at moved
  cases moved with
  | same _ same => exact .inl (same ▸ houses)
  | touched _ touch =>
    left
    rcases touch_reclaimed touch with ⟨-, generation, vacant⟩ | ⟨-, -, vacated⟩
    · exact ⟨generation.symm.trans houses.1, fun empty => houses.2 (vacant.mpr empty)⟩
    · exact absurd (vacated ▸ houses) (vacated_not_houses slot pid)
  | occupied names generation word hot placed spawner scalars =>
    rename_i execution parent spawned
    have current := houses.1
    unfold Slot.Current at current
    rw [word] at current
    rw [Pid.ext names current]
    exact .inr ⟨execution, parent, rfl⟩
  | vacated _ _ empty =>
    exact absurd (empty ▸ houses) (vacated_not_houses slot pid)

/-- Only `try_park_io` makes a slot wait for I/O. -/
theorem touch_waitingIo {call : Call M} {outcome : Outcome X M}
    {slot after : Slot X M} (touch : Touch t call outcome slot after)
    (names : slotIndex call.pid = slotIndex pid) (waiting : after.In pid .waitingIo) :
    slot.In pid .waitingIo ∨ ∃ deadline, call = .tryParkIo pid deadline ∧ outcome = .io .parked :=
      by
  have never : ∀ {state : ProcessState}, after.lifecycle.state = some state →
      state ≠ .waitingIo → slot.In pid .waitingIo ∨
        ∃ deadline, call = .tryParkIo pid deadline ∧ outcome = .io .parked := by
    intro state now other
    have same := waiting.2
    rw [now, Option.some.injEq] at same
    exact absurd same other
  cases touch with
  | delivered alive posted | replied alive awaited posted =>
    cases posted with
    | quiet => exact .inl waiting
    | waking => exact never rfl (by decide)
  | claimed | parked | receiveParked | replyParked | expired | ioPromoted | callPromoted
  | yielded | marked => exact never rfl (by decide)
  | ioParked running empty =>
    rename_i parks deadline
    have same : parks = pid := Pid.ext names (running.1.symm.trans waiting.1)
    subst same
    exact .inr ⟨deadline, rfl, rfl⟩
  | reclaimed => cases waiting.2
  | scalarSet sets =>
    have word := (scalarUpdate_frame sets slot).1
    left
    unfold Slot.In Slot.Current at waiting
    rw [word] at waiting
    exact waiting
  | _ => exact .inl waiting

/-- A process that waits for I/O after a step is not newly spawned, and waited before it or
was parked by it. -/
theorem waiting_back {s after : Sys X M} (fresh : Fresh s.table)
    (step : Step s event after) (waiting : (after.table.arena (slotIndex pid)).In pid .waitingIo) :
    ((s.table.arena (slotIndex pid)).In pid .waitingIo ∧
        ∀ execution parent, event ≠ .spawn execution parent (.ok pid)) ∨
      ∃ deadline, event = .call (.tryParkIo pid deadline) (.io .parked) := by
  have moved := step_slot fresh step (slotIndex pid)
  cases moved with
  | same _ same unspawned =>
    refine .inl ⟨same ▸ waiting, ?_⟩
    rintro execution parent rfl
    exact unspawned execution parent pid rfl rfl
  | touched names touch =>
    rcases touch_waitingIo touch names waiting with before | ⟨deadline, rfl, rfl⟩
    · exact .inl ⟨before, by simp⟩
    · exact .inr ⟨deadline, rfl⟩
  | occupied _ _ word =>
    have state := waiting.2
    rw [word] at state
    cases state
  | vacated _ _ empty =>
    rw [empty] at waiting
    cases waiting.2

end Table

/-! ## What a step does to the users of a descriptor -/

section Steps
variable {history : List (IoEvent X)} {s after : IoSys X} {event : IoEvent X} {pid : Pid} {fd : Fd}
  {item : IoPending}

/-- A process comes to use a descriptor by parking in an `io_block` on it. -/
theorem uses_back (grown : Grown s.sys) (step : IoStep s event after)
    (uses : Uses (history ++ [event]) after pid fd) :
    (Uses history s pid fd ∧ ∀ other, event ≠ .ioResumed pid other) ∨
      ∃ interest deadline, event = .ioBlock pid fd interest deadline (.io .parked) := by
  obtain ⟨blocked, houses⟩ := uses
  have housed : Houses (s.sys.table.slotOf pid) pid ∨
      ∃ execution parent, event = .table (.spawn execution parent (.ok pid)) := by
    rcases step.onTable with ⟨inner, label, inside⟩ | ⟨-, same⟩
    · rcases houses_back grown.fresh inside houses with before | ⟨execution, parent, rfl⟩
      · exact .inl before
      · cases event <;> simp only [IoEvent.onTable, Option.some.injEq, reduceCtorEq] at label
        exact .inr ⟨execution, parent, by rw [label]⟩
    · exact .inl (same ▸ houses)
  unfold blockedOn at blocked
  rcases replay_snoc blockWrite none history event pid with
    ⟨unwritten, kept⟩ | ⟨change, written, changed⟩
  · rw [kept] at blocked
    rcases housed with housed | ⟨execution, parent, rfl⟩
    · refine .inl ⟨⟨blocked, housed⟩, ?_⟩
      rintro other rfl
      exact unwritten _ rfl
    · exact absurd rfl (unwritten _)
  · rw [changed] at blocked
    unfold blockWrite at written
    split at written
    · rename_i parks on interest deadline
      obtain ⟨rfl, rfl⟩ := written
      cases blocked
      exact .inr ⟨interest, deadline, rfl⟩
    all_goals
      simp only [Option.some.injEq, reduceCtorEq] at written
    all_goals
      obtain ⟨rfl, rfl⟩ := written
      cases blocked

/-- A close puts nothing in flight but the wake of the waker it claimed. -/
theorem closed_wakes {claimed : Option Waker}
    (member : item ∈ (claimed.elim 0 fun waker => {.wake waker.hungUp} : Multiset IoPending)) :
    ∃ waker, item = .wake waker := by
  cases claimed with
  | none => cases member
  | some waker => exact ⟨waker.hungUp, mem_singleton.mp member⟩

/-- What is in flight after a step was before it, or the step began it. -/
inductive InFlight (s : IoSys X) (event : IoEvent X) : IoPending → Prop
  | was {item : IoPending} (member : item ∈ s.doing) : InFlight s event item
  | next {item before : IoPending} {fd : Fd} {waker : Waker} (member : before ∈ s.doing)
      (same : registering before = some (fd, waker)) (goesOn : registering item = some (fd,
        waker)) :
      InFlight s event item
  | wakes {waker : Waker} : InFlight s event (.wake waker)
  | blocks {pid : Pid} {fd : Fd} {interest : Interest} {deadline : Option Instant}
      (label : event = .ioBlock pid fd interest deadline (.io .parked)) :
      InFlight s event (.insert fd interest (.resume pid))
  | watches {pid : Pid} {fd : Fd} {interest : Interest} {readiness : Readiness}
      (label : event = .watchFd pid fd interest) :
      InFlight s event (.insert fd interest (.deliver fd pid readiness))
  | leaves {pid : Pid} {fd : Fd} (label : event = .ioResumed pid fd) : InFlight s event (.disarm fd)
  | unwatches {pid : Pid} {fd : Fd} (label : event = .unwatchFd pid fd) :
      InFlight s event (.disarm fd)

theorem step_inFlight (step : IoStep s event after)
    (member : item ∈ after.doing) : InFlight s event item := by
  have older : ∀ {first : IoPending} {rest : Multiset IoPending}, s.doing = first ::ₘ rest →
      item ∈ rest → InFlight s event item := by
    intro first rest next member
    exact .was (by rw [next]; exact mem_cons_of_mem member)
  cases step with
  | table => exact .was member
  | ioBlock =>
    rcases mem_add.mp member with begun | member
    · unfold ioBlockFollows at begun
      split at begun
      · next parked =>
        rw [mem_singleton.mp begun]
        exact .blocks (by rw [parked])
      · simp at begun
    · exact .was member
  | ioResumed | watchFd | unwatchFd =>
    rcases mem_cons.mp member with rfl | member
    · first | exact .leaves rfl | exact .watches rfl | exact .unwatches rfl
    · exact .was member
  | close =>
    rcases mem_add.mp member with begun | member
    · obtain ⟨waker, rfl⟩ := closed_wakes begun
      exact .wakes
    · exact .was member
  | poll =>
    rcases mem_add.mp member with begun | member
    · obtain ⟨waker, -, rfl⟩ := List.mem_map.mp (mem_coe.mp begun)
      exact .wakes
    · exact .was member
  | insert next =>
    rcases mem_cons.mp member with rfl | member
    · exact .next (by rw [next]; exact mem_cons_self _ _) rfl rfl
    · exact older next member
  | arm next =>
    split at member
    · exact older next member
    · rcases mem_cons.mp member with rfl | member
      · exact .next (by rw [next]; exact mem_cons_self _ _) rfl rfl
      · exact older next member
  | takeBack next =>
    split at member
    · rcases mem_cons.mp member with rfl | member
      · exact .wakes
      · exact older next member
    · exact older next member
  | wake next | disarm next => exact older next member

/-! ## Waiters on descriptors of their own -/

/-- Every waiter is tended, and a descriptor in use is its user's alone. -/
structure Tending (history : List (IoEvent X)) (s : IoSys X) : Prop where
  grown : Grown s.sys
  alone : ∀ pid other fd, Uses history s pid fd → Uses history s other fd → pid = other
  owned : ∀ pid fd item waker, Uses history s pid fd → item ∈ s.doing →
    registering item = some (fd, waker) → waker = .resume pid
  settled : ∀ pid fd, Uses history s pid fd → .disarm fd ∉ s.doing
  tended : ∀ pid, (s.sys.table.arena (slotIndex pid)).In pid .waitingIo →
    ∃ fd, blockedOn history pid = some fd ∧ Tended s pid fd

theorem Tending.init : Tending ([] : List (IoEvent X)) IoSys.init where
  grown := Grown.init
  alone := fun _ _ _ uses => by cases uses.1
  owned := fun _ _ _ _ uses => by cases uses.1
  settled := fun _ _ uses => by cases uses.1
  tended := fun _ waiting => by cases waiting.2

theorem Tended.kept (tended : Tended s pid fd)
    (wakers : after.reactor.wakers fd = s.reactor.wakers fd)
    (registered : after.reactor.registered fd = s.reactor.registered fd)
    (kept : ∀ item ∈ s.doing, item = .wake (.resume pid) ∨
      registering item = some (fd, .resume pid) → item ∈ after.doing) :
    Tended after pid fd := by
  rcases tended with ⟨entry, armed | ⟨interest, arms⟩ | takesBack⟩ | ⟨interest, inserts⟩ | wakes
  · exact .inl ⟨wakers.trans entry, .inl (registered.trans armed)⟩
  · exact .inl ⟨wakers.trans entry, .inr (.inl ⟨interest, kept _ arms (.inr rfl)⟩)⟩
  · exact .inl ⟨wakers.trans entry, .inr (.inr (kept _ takesBack (.inr rfl)))⟩
  · exact .inr (.inl ⟨interest, kept _ inserts (.inr rfl)⟩)
  · exact .inr (.inr (kept _ wakes (.inl rfl)))

/-- A step that carries out an item of another descriptor and no wake of the waiter keeps
what tends it. -/
theorem Tended.other {rest : Multiset IoPending} (tended : Tended s pid fd)
    (next : s.doing = item ::ₘ rest) (wakers : after.reactor.wakers fd = s.reactor.wakers fd)
    (registered : after.reactor.registered fd = s.reactor.registered fd)
    (unregistered : ∀ waker, registering item ≠ some (fd, waker))
    (unwoken : item ≠ .wake (.resume pid)) (left : rest ≤ after.doing) :
    Tended after pid fd := by
  refine tended.kept wakers registered ?_
  intro other member kind
  rw [next] at member
  rcases mem_cons.mp member with rfl | member
  · rcases kind with woken | registers
    · exact absurd woken unwoken
    · exact absurd registers (unregistered _)
  · exact mem_of_le left member

/-- A waiter that still waits after a step is still tended. -/
theorem Tending.waiter (tending : Tending history s) (ordered : IoOrder history s event)
    (oneUser : OneUser history s event) (step : IoStep s event after) (uses : Uses history s pid fd)
    (waiting : (s.sys.table.slotOf pid).In pid .waitingIo)
    (waits : (after.sys.table.slotOf pid).In pid .waitingIo) (tended : Tended s pid fd) :
    Tended after pid fd := by
  cases step with
  | table => exact tended
  | ioBlock | poll =>
    exact tended.kept rfl rfl fun item member _ => mem_add.mpr (.inr member)
  | ioResumed _ on =>
    -- the entry removed is the resumed process's own
    have different : fd ≠ on := by
      rintro rfl
      obtain ⟨-, resumed, running, -⟩ := ordered
      obtain rfl := tending.alone _ _ _ uses resumed
      exact running waiting
    exact tended.kept (update_of_ne different _ _) rfl
      fun item member _ => mem_cons_of_mem member
  | watchFd =>
    exact tended.kept rfl rfl fun item member _ => mem_cons_of_mem member
  | unwatchFd _ on =>
    have different : fd ≠ on := by
      rintro rfl
      exact oneUser.unused pid uses
    exact tended.kept (update_of_ne different _ _) rfl
      fun item member _ => mem_cons_of_mem member
  | close on =>
    by_cases here : fd = on
    · subst here
      rcases tended with ⟨entry, -⟩ | ⟨interest, inserts⟩ | wakes
      · refine .inr (.inr (mem_add.mpr (.inl ?_)))
        simp [release, entry, Waker.hungUp]
      · exact .inr (.inl ⟨interest, mem_add.mpr (.inr inserts)⟩)
      · exact .inr (.inr (mem_add.mpr (.inr wakes)))
    · exact tended.kept (update_of_ne here _ _) (update_of_ne here _ _)
        fun item member _ => mem_add.mpr (.inr member)
  | insert next =>
    rename_i on interest waker rest
    by_cases here : fd = on
    · subst here
      have own := tending.owned pid fd _ waker uses (by rw [next]; exact mem_cons_self _ _) rfl
      subst own
      exact .inl ⟨update_self _ _ _, .inr (.inl ⟨interest, mem_cons_self _ _⟩)⟩
    · refine tended.other next (update_of_ne here _ _) rfl ?_ (by simp) (le_cons_self _ _)
      intro other same
      cases same
      exact here rfl
  | arm next armed =>
    rename_i on interest waker rest
    have left : rest ≤ if armed then rest else .takeBack on waker ::ₘ rest := by
      split
      · exact le_refl _
      · exact le_cons_self _ _
    by_cases here : fd = on
    · subst here
      have own := tending.owned pid fd _ waker uses (by rw [next]; exact mem_cons_self _ _) rfl
      subst own
      rcases tended with ⟨entry, -⟩ | ⟨interest, inserts⟩ | wakes
      · refine .inl ⟨entry, ?_⟩
        cases armed with
        | true => exact .inl (update_self _ _ _)
        | false => exact .inr (.inr (mem_cons_self _ _))
      · rw [next] at inserts
        refine .inr (.inl ⟨interest, mem_of_le left ?_⟩)
        exact (mem_cons.mp inserts).resolve_left (by simp)
      · rw [next] at wakes
        refine .inr (.inr (mem_of_le left ?_))
        exact (mem_cons.mp wakes).resolve_left (by simp)
    · refine tended.other next rfl (update_of_ne here _ _) ?_ (by simp) left
      intro other same
      cases same
      exact here rfl
  | takeBack next =>
    rename_i on waker rest
    by_cases here : fd = on
    · subst here
      have own := tending.owned pid fd _ waker uses (by rw [next]; exact mem_cons_self _ _) rfl
      subst own
      by_cases entry : s.reactor.wakers fd = some (.resume pid)
      · refine .inr (.inr ?_)
        simp [takeBack, entry, Waker.hungUp]
      · simp only [takeBack, if_neg entry]
        refine .inr ?_
        rw [Tended, next] at tended
        rcases tended with ⟨claimed, -⟩ | ⟨interest, inserts⟩ | wakes
        · exact absurd claimed entry
        · exact .inl ⟨interest, (mem_cons.mp inserts).resolve_left (by simp)⟩
        · exact .inr ((mem_cons.mp wakes).resolve_left (by simp))
    · refine tended.other next ?_ ?_ ?_ (by simp) ?_
      · unfold takeBack
        split
        · exact update_of_ne here _ _
        · rfl
      · unfold takeBack
        split <;> rfl
      · intro other same
        cases same
        exact here rfl
      · split
        · exact le_cons_self _ _
        · exact le_refl _
  | wake next =>
    refine tended.other next rfl rfl (by simp [registering]) ?_ (le_refl _)
    intro same
    cases same
    exact promoteIoWaiter_promotes tending.grown.fresh waits
  | disarm next =>
    rename_i on rest
    have different : fd ≠ on := by
      rintro rfl
      exact tending.settled pid fd uses (by rw [next]; exact mem_cons_self _ _)
    exact tended.other next rfl (update_of_ne different _ _) (by simp [registering])
      (by simp) (le_refl _)

theorem ioBlock_inserts {interest : Interest} {deadline : Option Instant}
    (step : IoStep s (.ioBlock pid fd interest deadline (.io .parked)) after) :
    .insert fd interest (.resume pid) ∈ after.doing := by
  generalize label : IoEvent.ioBlock pid fd interest deadline (.io .parked) = event at step
  cases step with
  | ioBlock =>
    simp only [IoEvent.ioBlock.injEq] at label
    obtain ⟨rfl, rfl, rfl, rfl, outcome⟩ := label
    refine mem_add.mpr (.inl ?_)
    rw [← outcome]
    exact mem_singleton_self _
  | _ => cases label

theorem blockedOn_parked (history : List (IoEvent X)) (pid : Pid) (fd : Fd) (interest : Interest)
    (deadline : Option Instant) :
    blockedOn (history ++ [.ioBlock pid fd interest deadline (.io .parked)]) pid = some fd := by
  have written : blockWrite (.ioBlock pid fd interest deadline (.io .parked) : IoEvent X) =
      some (pid, fun _ => some fd) := rfl
  exact replay_written written

/-- Before a step a waiter waited, and the step spawned nobody under its PID; or it is the
step's own park. -/
theorem waiter_back (grown : Grown s.sys) (step : IoStep s event after)
    (waits : (after.sys.table.slotOf pid).In pid .waitingIo) :
    ((s.sys.table.slotOf pid).In pid .waitingIo ∧
        ∀ execution parent, event ≠ .table (.spawn execution parent (.ok pid))) ∨
      ∃ fd interest deadline, event = .ioBlock pid fd interest deadline (.io .parked) := by
  rcases step.onTable with ⟨inner, label, inside⟩ | ⟨outside, same⟩
  · rcases waiting_back grown.fresh inside waits with ⟨before, unspawned⟩ | ⟨deadline, rfl⟩
    · refine .inl ⟨before, ?_⟩
      rintro execution parent rfl
      simp only [IoEvent.onTable, Option.some.injEq] at label
      exact unspawned execution parent label.symm
    · cases step with
      | table _ elsewhere =>
        simp only [IoEvent.onTable, Option.some.injEq] at label
        exact absurd label (elsewhere pid deadline (.io .parked))
      | ioBlock _ fd interest =>
        simp only [IoEvent.onTable, Option.some.injEq, Event.call.injEq]
          at label
        obtain ⟨⟨rfl, rfl⟩, outcome⟩ := label
        exact .inr ⟨fd, interest, _, by rw [outcome]⟩
      | wake next =>
        rename_i waker rest
        simp only [IoEvent.onTable, Option.some.injEq, Event.call.injEq] at label
        cases waker <;> cases label.1
      | _ => cases label
  · rw [same] at waits
    refine .inl ⟨waits, ?_⟩
    rintro execution parent rfl
    cases outside

theorem Tending.step (tending : Tending history s) (ordered : IoOrder history s event)
    (oneUser : OneUser history s event) (step : IoStep s event after) :
    Tending (history ++ [event]) after where
  grown := by
    rcases step.onTable with ⟨inner, -, inside⟩ | ⟨-, same⟩
    · exact tending.grown.step inside
    · exact same ▸ tending.grown
  alone := by
    intro pid other fd uses others
    rcases uses_back tending.grown step uses with ⟨was, -⟩ | ⟨_, _, rfl⟩
    · rcases uses_back tending.grown step others with ⟨were, -⟩ | ⟨_, _, rfl⟩
      · exact tending.alone pid other fd was were
      · exact absurd was (oneUser.unused pid)
    · rcases uses_back tending.grown step others with ⟨were, -⟩ | ⟨_, _, same⟩
      · exact absurd were (oneUser.unused other)
      · cases same
        rfl
  owned := by
    intro pid fd item waker uses member registers
    rcases uses_back tending.grown step uses with ⟨was, -⟩ | ⟨_, _, rfl⟩
    · cases step_inFlight step member with
      | was member => exact tending.owned pid fd item waker was member registers
      | next member same goesOn =>
        rw [registers] at goesOn
        cases goesOn
        exact tending.owned pid fd _ waker was member same
      | wakes | leaves | unwatches => cases registers
      | blocks label | watches label =>
        subst label
        cases registers
        exact absurd was (oneUser.unused pid)
    · cases step_inFlight step member with
      | was member => exact absurd registers (oneUser.unregistering item member waker)
      | next member same goesOn =>
        rw [registers] at goesOn
        cases goesOn
        exact absurd same (oneUser.unregistering _ member waker)
      | wakes | leaves | unwatches => cases registers
      | blocks label =>
        cases label
        cases registers
        rfl
      | watches label => cases label
  settled := by
    intro pid fd uses member
    rcases uses_back tending.grown step uses with ⟨was, unresumed⟩ | ⟨_, _, rfl⟩
    · cases step_inFlight step member with
      | was member => exact tending.settled pid fd was member
      | next _ _ goesOn => cases goesOn
      | leaves label =>
        subst label
        obtain rfl := tending.alone _ _ _ was ordered.2.1
        exact unresumed fd rfl
      | unwatches label =>
        subst label
        exact oneUser.unused pid was
    · cases step_inFlight step member with
      | was member => exact oneUser.settled member
      | next _ _ goesOn => cases goesOn
      | leaves label | unwatches label => cases label
  tended := by
    intro pid waits
    rcases waiter_back tending.grown step waits with ⟨waiting, unspawned⟩ |
      ⟨fd, interest, deadline, rfl⟩
    · obtain ⟨fd, blocked, tended⟩ := tending.tended pid waiting
      have uses : Uses history s pid fd := ⟨blocked, waiting.1, by simp [waiting.2]⟩
      rcases replay_snoc blockWrite none history event pid with
        ⟨-, kept⟩ | ⟨change, written, changed⟩
      · exact ⟨fd, kept.trans blocked,
        tending.waiter ordered oneUser step uses waiting waits tended⟩
      · unfold blockWrite at written
        split at written
        · rename_i parks on interest deadline
          obtain ⟨rfl, rfl⟩ := written
          exact ⟨on, changed, .inr (.inl ⟨interest, ioBlock_inserts step⟩)⟩
        · obtain ⟨rfl, rfl⟩ := written
          exact absurd waiting ordered.2.2.1
        · obtain ⟨rfl, rfl⟩ := written
          exact absurd rfl (unspawned _ _)
        · cases written
    · exact ⟨fd, blockedOn_parked _ _ _ _ _, .inr (.inl ⟨interest, ioBlock_inserts step⟩)⟩

/-- In every run in which processes keep to the order of their own calls and start a call on
a descriptor only while nobody else is in the middle of one on it, whatever is closed, polled,
sent and killed when: a process that waits for I/O is in an `io_block` on some descriptor, and
is its registered `Resume` waker or has its registration or its wake in flight. -/
theorem io_waiter_tended
    (run : Run IoStep (fun history s event => IoOrder history s event ∧ OneUser history s event)
      IoSys.init history s) (waiting : (s.sys.table.arena (slotIndex pid)).In pid .waitingIo) :
    ∃ fd, blockedOn history pid = some fd ∧ Tended s pid fd := by
  have tending : Tending history s := by
    apply run.invariant Tending Tending.init
    intro history s event after tending admitted step
    exact tending.step admitted.1 admitted.2 step
  exact tending.tended pid waiting

end Steps

/-! ## Two processes on one descriptor -/

/-- The descriptor the processes below block on. -/
def socket : Fd := 3

/-- Two processes, both running. -/
def clients : Sys Unit Envelope :=
  (((Sys.init.spawn () none).spawn () none).perform (.tryClaim firstPid)).perform
    (.tryClaim secondPid)

/-- The first has blocked on the descriptor, registered and switched out. -/
def reading : IoSys Unit :=
  ⟨(clients.perform (.tryParkIo firstPid none)).perform (.afterSwitch firstPid),
    (NativeReactor.new.insertWaker socket (.resume firstPid)).arm socket true, 0⟩

theorem reading_run : ∃ history : List (IoEvent Unit),
    Run IoStep (fun history s event => IoOrder history s event ∧ OneUser history s event)
      IoSys.init history reading ∧
    blockedOn history firstPid = some socket ∧ blockedOn history secondPid = none := by
  have first := (.nil : Run IoStep
    (fun history s event => IoOrder history s event ∧ OneUser history s event)
    (IoSys.init : IoSys Unit) [] IoSys.init).extend (.table (.spawn () none) (by simp))
    ⟨trivial, trivial⟩
  have second := first.extend (.table (.spawn () none) (by simp)) ⟨trivial, trivial⟩
  have runs := io_call second (.tryClaim firstPid) ⟨trivial, trivial⟩
  have bothRun := io_call runs (.tryClaim secondPid) ⟨trivial, trivial⟩
  have parked := bothRun.extend (.ioBlock firstPid socket .readable none) ⟨⟨by decide, rfl⟩, by
      refine ⟨?_, nofun, nofun⟩
      rintro pid ⟨blocked, -⟩
      change (if _ then none else if _ then none else none) = some socket at blocked
      split_ifs at blocked⟩
  have inserted := parked.extend
    (@IoStep.insert _ _ socket .readable (.resume firstPid) 0 rfl) ⟨trivial, trivial⟩
  have armed := inserted.extend
    (@IoStep.arm _ _ socket .readable (.resume firstPid) 0 rfl true) ⟨trivial, trivial⟩
  have switched := io_call armed (.afterSwitch firstPid) ⟨trivial, trivial⟩
  exact ⟨_, switched, rfl, rfl⟩

/-- A process blocked on a descriptor of its own is its registered waker. -/
theorem io_waiter_tended_armed : ∃ history : List (IoEvent Unit),
      Run IoStep (fun history s event => IoOrder history s event ∧ OneUser history s event)
        IoSys.init history reading ∧
      (reading.sys.table.arena (slotIndex firstPid)).In firstPid .waitingIo ∧
      ∃ fd, blockedOn history firstPid = some fd ∧ Tended reading firstPid fd := by
  obtain ⟨history, run, -⟩ := reading_run
  exact ⟨history, run, by decide, io_waiter_tended run (by decide)⟩

/-- The second process blocks on the same descriptor, to write. -/
def writing : IoSys Unit :=
  ⟨(reading.sys.perform (.tryParkIo secondPid none)).perform (.afterSwitch secondPid),
    (reading.reactor.insertWaker socket (.resume secondPid)).arm socket true, 0⟩

/-- A reader waits on a socket and a writer blocks on it too: the writer's waker replaces
the reader's, and nothing in flight will wake the reader. -/
theorem second_waiter_strands :
    ∃ history : List (IoEvent Unit), Run IoStep IoOrder IoSys.init history writing ∧
      (writing.sys.table.arena (slotIndex firstPid)).In firstPid .waitingIo ∧
      (writing.sys.table.arena (slotIndex firstPid)).hot.deadline = none ∧
      blockedOn history firstPid = some socket ∧
      writing.reactor.wakers socket = some (.resume secondPid) ∧ writing.doing = 0 ∧
      ¬ Tended writing firstPid socket := by
  obtain ⟨history, run, reader, writer⟩ := reading_run
  have ordered : Run IoStep IoOrder IoSys.init history reading :=
    run.weaken fun _ _ _ admitted => admitted.1
  have parked := ordered.extend (.ioBlock secondPid socket .writable none) ⟨by decide, writer⟩
  have inserted := parked.extend
    (@IoStep.insert _ _ socket .writable (.resume secondPid) 0 rfl) trivial
  have armed := inserted.extend
    (@IoStep.arm _ _ socket .writable (.resume secondPid) 0 rfl true) trivial
  have switched := io_call armed (.afterSwitch secondPid) trivial
  rw [List.append_assoc, List.append_assoc, List.append_assoc] at switched
  refine ⟨_, switched, by decide, rfl, (replay_append reader).trans rfl, rfl, rfl, ?_⟩
  rintro (⟨entry, -⟩ | ⟨interest, inserts⟩ | wakes)
  · cases entry
  · cases inserts
  · cases wakes

end Koja.Guarantees.Runtime
