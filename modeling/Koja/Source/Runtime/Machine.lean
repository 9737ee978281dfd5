import Koja.Lib.Runs
import Koja.Source.Runtime.Locality

/-!
# The table as a step relation

Every step is one atomic block of `process_table.rs`, issued by any worker on any
PID. Beside the table the state keeps what the workers hold: won claims not yet
released, the rest of operations between two of their blocks, and batches drained
from the registry. The relation itself restricts nobody; who may issue which call
when is a condition on the labels of a run.
-/
namespace Koja.Source.Runtime
open Koja.Lib ProcessTable

variable {X M : Type}

/-- What an operation still has to do between two of its blocks. -/
inductive Pending (X M : Type) where
  | deathPass (pid : Pid) (forced : Option ExitReason) (staged : DeathStaged X M)
  | reclaim (pid : Pid)
  | pushFree (pid : Pid) (reclaim : Reclaim X M)
  | monitorReason (watcher target : Pid) (token : Int64)
  | stageNotice (notice : ExitNotice) (token : Int64)
  | takeReplyOrPark (caller : Pid) (token : Int64) (deadline : Option Instant) (callee : Pid)
  | evictCallWaiter (caller : Pid)

/-- The table and what its workers hold. `killBatch` and `callBatch` are the drained
entries whose `kill` or `promote_call_waiter` has not been issued yet. -/
structure Sys (X M : Type) where
  table : ProcessTable X M
  claims : Multiset Pid
  pending : Multiset (Pending X M)
  killBatch : Multiset Pid
  callBatch : Multiset CallWaiter

def Sys.init : Sys X M := ⟨.new, 0, 0, 0, 0⟩

/-- One step's label: the block, its arguments and what it handed back or removed. -/
inductive Event (X M : Type) where
  | call (call : Call M) (outcome : Outcome X M)
  | spawn (execution : X) (parent : Option Pid) (result : Except X Pid)
  | deathPass (pid : Pid) (forced : Option ExitReason) (staged : DeathStaged X M)
      (monitors : List MonitorEntry)
  | reclaim (pid : Pid) (reclaim : Reclaim X M)
  | pushFree (pid : Pid) (reclaim : Reclaim X M)
  | registerMonitor (watcher target : Pid) (token : Int64) (registered : Bool)
  | monitorReason (watcher target : Pid) (token : Int64)
  | stageNotice (notice : ExitNotice) (token : Int64)
  | demonitor (token : Int64) (monitors : List MonitorEntry)
  | takeExitNotices (notices : List ExitNotice)
  | takePendingKills (pids : List Pid)
  | ensureCallWaiter (caller callee : Pid) (token : Int64) (deadline : Option Instant)
  | evictCallWaiter (caller : Pid)
  | takeCallDowns (waiters : List CallWaiter)
  | enterDraining (entered : Bool)
  | livePid (index : UInt32) (found : Option Pid)

/-- The blocks a call leaves to be done. -/
def Call.follows : Call M → Outcome X M → Multiset (Pending X M)
  | .afterSwitch pid, .released .dead => {.reclaim pid}
  | .kill pid, .died (some staged) => {.deathPass pid (some .killed) staged}
  | .markDeadIfAlive pid, .died (some staged) => {.deathPass pid none staged}
  | .takeReplyOrPark pid _ _ _, .mail (.ready _) => {.evictCallWaiter pid}
  | .takeReplyOrPark pid _ _ _, .mail .calleeDown => {.evictCallWaiter pid}
  | .clearAwaitingReply pid, _ => {.evictCallWaiter pid}
  | _, _ => 0

/-- The claims held after a call: a won `try_claim` adds one, `after_switch` gives it
back. -/
def Call.claims (held : Multiset Pid) : Call M → Outcome X M → Multiset Pid
  | .tryClaim pid, .flag true => pid ::ₘ held
  | .afterSwitch pid, _ => held.erase pid
  | _, _ => held

/-- Where a call comes from: any worker at any time, a drained batch, or the second
block of `take_reply_or_park`. -/
inductive Picked : Sys X M → Call M → Sys X M → Prop
  | fresh {s : Sys X M} {call : Call M}
      (opens : ∀ pid token deadline callee, call ≠ .takeReplyOrPark pid token deadline callee) :
      Picked s call s
  | batchKill {s : Sys X M} {pid : Pid} {rest : Multiset Pid} (next : s.killBatch = pid ::ₘ rest) :
      Picked s (.kill pid) { s with killBatch := rest }
  | batchPromote {s : Sys X M} {waiter : CallWaiter} {rest : Multiset CallWaiter}
      (next : s.callBatch = waiter ::ₘ rest) :
      Picked s (.promoteCallWaiter waiter.caller waiter.token) { s with callBatch := rest }
  | replyHold {s : Sys X M} {caller callee : Pid} {token : Int64} {deadline : Option Instant}
      {rest : Multiset (Pending X M)}
      (next : s.pending = .takeReplyOrPark caller token deadline callee ::ₘ rest) :
      Picked s (.takeReplyOrPark caller token deadline callee) { s with pending := rest }

/-- The state after a call's block. -/
def Sys.perform [Message M] (s : Sys X M) (call : Call M) : Sys X M :=
  let (outcome, table) := s.table.perform call
  { s with
    table := table
    claims := call.claims s.claims outcome
    pending := call.follows outcome + s.pending }

/-- The state after a spawn, refused or not. -/
def Sys.spawn (s : Sys X M) (execution : X) (parent : Option Pid) : Sys X M :=
  { s with table := (s.table.spawn execution parent).2 }

/-- The state after the first block of `monitor`; a target found dead leaves the rest of
the call to be done. -/
def Sys.registerMonitor (s : Sys X M) (watcher target : Pid) : Sys X M :=
  { s with
    table := (s.table.registerMonitor watcher target).2
    pending :=
      if (s.table.registerMonitor watcher target).1.2 then s.pending
      else .monitorReason watcher target (s.table.registerMonitor watcher target).1.1 ::ₘ
        s.pending }

/-- One atomic block. -/
inductive Step [Message M] : Sys X M → Event X M → Sys X M → Prop
  | call {s picked : Sys X M} {call : Call M} (origin : Picked s call picked) :
      Step s (.call call (picked.table.perform call).1) (picked.perform call)
  | spawn {s : Sys X M} (execution : X) (parent : Option Pid) :
      Step s (.spawn execution parent (s.table.spawn execution parent).1) (s.spawn execution parent)
  | deathPass {s : Sys X M} {pid forced staged rest}
      (next : s.pending = .deathPass pid forced staged ::ₘ rest) :
      Step s (.deathPass pid forced staged s.table.registry.monitors)
        { s with table := s.table.deathPass pid staged, pending := rest }
  | reclaim {s : Sys X M} {pid rest} (next : s.pending = .reclaim pid ::ₘ rest) :
      Step s (.reclaim pid (s.table.reclaim pid).1)
        { s with
          table := (s.table.reclaim pid).2
          pending := .pushFree pid (s.table.reclaim pid).1 ::ₘ rest }
  | pushFree {s : Sys X M} {pid reclaim rest} (next : s.pending = .pushFree pid reclaim ::ₘ rest) :
      Step s (.pushFree pid reclaim)
        { s with table := s.table.pushFree pid, pending := rest }
  | registerMonitor {s : Sys X M} (watcher target : Pid) : Step s
        (.registerMonitor watcher target (s.table.registerMonitor watcher target).1.1
          (s.table.registerMonitor watcher target).1.2)
        (s.registerMonitor watcher target)
  | monitorReason {s : Sys X M} {watcher target token rest}
      (next : s.pending = .monitorReason watcher target token ::ₘ rest) :
      Step s (.monitorReason watcher target token)
        { s with
          pending := .stageNotice
            ⟨(s.table.monitorReason target).2, (s.table.monitorReason target).1, target, watcher⟩
            token ::ₘ rest }
  | stageNotice {s : Sys X M} {notice token rest}
      (next : s.pending = .stageNotice notice token ::ₘ rest) :
      Step s (.stageNotice notice token)
        { s with table := s.table.stageNotice notice, pending := rest }
  | demonitor {s : Sys X M} (token : Int64) : Step s (.demonitor token s.table.registry.monitors)
        { s with table := s.table.demonitor token }
  | takeExitNotices {s : Sys X M} : Step s (.takeExitNotices s.table.takeExitNotices.1)
        { s with table := s.table.takeExitNotices.2 }
  | takePendingKills {s : Sys X M} : Step s (.takePendingKills s.table.takePendingKills.1)
        { s with
          table := s.table.takePendingKills.2
          killBatch := s.killBatch + s.table.takePendingKills.1 }
  | ensureCallWaiter {s : Sys X M} (caller callee : Pid) (token : Int64)
      (deadline : Option Instant) :
      Step s (.ensureCallWaiter caller callee token deadline)
        { s with
          table := s.table.ensureCallWaiter caller callee token
          pending := .takeReplyOrPark caller token deadline callee ::ₘ s.pending }
  | evictCallWaiter {s : Sys X M} {caller rest}
      (next : s.pending = .evictCallWaiter caller ::ₘ rest) :
      Step s (.evictCallWaiter caller)
        { s with table := s.table.evictCallWaiter caller, pending := rest }
  | takeCallDowns {s : Sys X M} : Step s (.takeCallDowns s.table.takeCallDowns.1)
        { s with
          table := s.table.takeCallDowns.2
          callBatch := s.callBatch + s.table.takeCallDowns.1 }
  | enterDraining {s : Sys X M} : Step s (.enterDraining s.table.enterDraining.1)
        { s with table := s.table.enterDraining.2 }
  | livePid {s : Sys X M} (index : UInt32) : Step s (.livePid index (s.table.livePid index)) s

section
variable [Message M] {admits : List (Event X M) → Sys X M → Event X M → Prop} {init s : Sys X M}
  {history : List (Event X M)}

theorem run_call (run : Run Step admits init history s) (call : Call M)
    (admitted : admits history s (.call call (s.table.perform call).1))
    (opens : ∀ pid token deadline callee, call ≠ .takeReplyOrPark pid token deadline callee := by
      simp) :
    Run Step admits init (history ++ [.call call (s.table.perform call).1]) (s.perform call) :=
  run.snoc admitted (.call (.fresh opens))

theorem run_spawn (run : Run Step admits init history s) (execution : X) (parent : Option Pid)
    (admitted : admits history s (.spawn execution parent (s.table.spawn execution parent).1)) :
    Run Step admits init (history ++ [.spawn execution parent (s.table.spawn execution parent).1])
      (s.spawn execution parent) :=
  run.snoc admitted (.spawn execution parent)

theorem run_deathPass (run : Run Step admits init history s) (pid : Pid)
    (forced : Option ExitReason) (staged : DeathStaged X M)
    (rest : Multiset (Pending X M)) (next : s.pending = .deathPass pid forced staged ::ₘ rest)
    (admitted : admits history s (.deathPass pid forced staged s.table.registry.monitors)) :
    Run Step admits init (history ++ [.deathPass pid forced staged s.table.registry.monitors])
      { s with table := s.table.deathPass pid staged, pending := rest } :=
  run.snoc admitted (.deathPass next)

end

/-! ## What a successful spawn does -/

/-- `Spawned t execution parent index after`: the spawn took slot `index`. -/
structure Spawned (t : ProcessTable X M) (execution : X) (parent : Option Pid) (index : UInt32)
    (after : ProcessTable X M) : Prop where
  alive : ∀ spawner, parent = some spawner → t.isAlive spawner = true
  source : (t.registry.free = index :: after.registry.free ∧ after.published = t.published) ∨
    (t.registry.free = [] ∧ after.registry.free = [] ∧ index = t.published.toUInt32 ∧
      after.published = t.published + 1)
  frame : ∀ other, other ≠ index → after.arena other = t.arena other
  word : (after.arena index).lifecycle =
    ⟨max (t.arena index).lifecycle.generation 1, false, some .created⟩
  execution : (after.arena index).execution = some execution
  spawner : (after.arena index).parent = parent.getD 0
  hot : (after.arena index).hot = (t.arena index).hot
  scalars : (after.arena index).priority = Priority.default.index ∧ (after.arena index).logBusy = 0
  children : after.registry.children = parent.elim t.registry.children fun spawner =>
    (t.registry.addChild spawner
      (encode index (max (t.arena index).lifecycle.generation 1))).children
  monitors : after.registry.monitors = t.registry.monitors
  tokens : after.registry.nextMonitorToken = t.registry.nextMonitorToken
  notices : after.registry.pendingExitNotices = t.registry.pendingExitNotices
  callWaiters : after.registry.callWaiters = t.registry.callWaiters
  callDowns : after.registry.pendingCallDowns = t.registry.pendingCallDowns
  kills : after.registry.pendingKills = t.registry.pendingKills
  tally : after.tally =
    { t.tally.debugAssert ((t.arena index).lifecycle.state = none) with
      alive := (t.tally.debugAssert ((t.arena index).lifecycle.state = none)).alive + 1 }

/-- Spawn refuses over a dead spawner's PID and changes nothing, or occupies one slot. -/
theorem spawn_cases (t : ProcessTable X M) (execution : X) (parent : Option Pid) :
    (∃ spawner, parent = some spawner ∧ t.isAlive spawner = false ∧
      t.spawn execution parent = (.error execution, t)) ∨
    ∃ index after, Spawned t execution parent index after ∧ t.spawn execution parent =
        (.ok (encode index (max (t.arena index).lifecycle.generation 1)), after) := by
  unfold spawn
  by_cases refused : parent.any (fun parent => !t.isAlive parent) = true
  · left
    cases parent with
    | none => simp at refused
    | some spawner =>
      have dead : t.isAlive spawner = false := by simpa using refused
      refine ⟨spawner, rfl, dead, ?_⟩
      rw [if_pos refused]
  · right
    rw [if_neg refused]
    have alive : ∀ spawner, parent = some spawner → t.isAlive spawner = true := by
      rintro spawner rfl
      simpa using refused
    unfold takeIndex
    cases free : t.registry.free <;> refine ⟨_, _, ?_, rfl⟩ <;> cases parent <;> exact {
      alive := alive
      source := by simp [free, withRegistry, Registry.addChild]
      frame := fun other different => Function.update_of_ne different _ _
      word := by simp [occupied, LifecycleWord.occupy, withRegistry]
      execution := by simp [occupied]
      spawner := by simp [occupied]
      hot := by simp [occupied, withRegistry]
      scalars := by simp [occupied]
      children := rfl
      monitors := rfl
      tokens := rfl
      notices := rfl
      callWaiters := rfl
      callDowns := rfl
      kills := rfl
      tally := rfl }

/-! ## Operations of several blocks -/

variable [Message M] (s : Sys X M) (pid : Pid)

/-- The labels, in this order and with no step in between, lead from one state to the other. -/
abbrev Trace (s : Sys X M) (labels : List (Event X M)) (after : Sys X M) : Prop :=
  Run Step (fun _ _ _ => True) s labels after

/-- The blocks of a death edge: the slot hold and, where it applies, the registry pass. -/
def deathBlocks (call : Call M) (forced : Option ExitReason) (staged : Option (DeathStaged X M))
    (monitors : List MonitorEntry) : List (Event X M) :=
  .call call (.died staged) :: staged.toList.map (.deathPass call.pid forced · monitors)

/-- The blocks of `live_pids`: one look at each published slot. -/
def scanBlocks : List (Event X M) :=
  (List.range s.table.published.toUInt32.toNat).map fun index =>
    .livePid index.toUInt32 (s.table.livePid index.toUInt32)

/-- The blocks of `after_switch`, by what it answers. -/
def switchBlocks : SwitchOutcome X M → List (Event X M)
  | .requeue wake => [.call (.afterSwitch pid) (.released (.requeue wake))]
  | .parked => [.call (.afterSwitch pid) (.released .parked)]
  | .reclaimed reclaim =>
    [.call (.afterSwitch pid) (.released .dead), .reclaim pid reclaim, .pushFree pid reclaim]

/-- The blocks of `take_reply_or_park`, by what it answers. -/
def replyBlocks (token : Int64) (deadline : Option Instant) (callee : Pid) (park : MailPark M) :
    List (Event X M) :=
  [.ensureCallWaiter pid callee token deadline,
    .call (.takeReplyOrPark pid token deadline callee) (.mail park)] ++
  match park with
  | .ready _ | .calleeDown => [.evictCallWaiter pid]
  | .parked | .refused | .stale _ => []

/-- The blocks of `monitor`: a target found dead has its notice staged at once. -/
def monitorBlocks (target : Pid) (token : Int64) (notice : Option ExitNotice) :
    List (Event X M) :=
  .registerMonitor pid target token notice.isNone :: notice.toList.flatMap fun notice =>
    [.monitorReason pid target token, .stageNotice notice token]

variable {s}

theorem Trace.append {labels more : List (Event X M)} {middle after : Sys X M}
    (first : Trace s labels middle) (second : Trace middle more after) :
    Trace s (labels ++ more) after := by
  induction second with
  | nil => rwa [List.append_nil]
  | snoc _ _ stepped ih =>
    rw [← List.append_assoc]
    exact ih.snoc trivial stepped

theorem Trace.single {label : Event X M} {after : Sys X M} (step : Step s label after) :
    Trace s [label] after :=
  Run.nil.snoc trivial step

variable (s)

theorem kill_trace : ∃ staged monitors,
    Trace s (deathBlocks (.kill pid) (some .killed) staged monitors)
      { s with table := (s.table.kill pid).2 } ∧
    (s.table.kill pid).1 = staged.bind (·.reclaim) := by
  have hold := Trace.single (.call (.fresh (by simp) : Picked s (.kill pid) s))
  simp only [Sys.perform, perform, Prod.map] at hold
  unfold kill
  generalize s.table.death pid (some .killed) = held at hold ⊢
  rcases held with ⟨_ | staged, t⟩
  · refine ⟨none, [], ?_, rfl⟩
    simpa [deathBlocks, Call.follows, Call.claims] using hold
  · exact ⟨some staged, _, hold.append (.single (.deathPass rfl)), rfl⟩

theorem killEach_trace (pids : List Pid) :
    ∃ deaths : List (Pid × Option (DeathStaged X M) × List MonitorEntry),
      deaths.map (·.1) = pids ∧
      Trace s (deaths.flatMap fun death =>
          deathBlocks (.kill death.1) (some .killed) death.2.1 death.2.2)
        { s with table := (s.table.killEach pids).2 } ∧
      (s.table.killEach pids).1 = deaths.filterMap fun death => death.2.1.bind (·.reclaim) := by
  induction pids generalizing s with
  | nil => exact ⟨[], rfl, .nil, rfl⟩
  | cons pid rest ih =>
    obtain ⟨staged, monitors, first, answered⟩ := kill_trace s pid
    obtain ⟨deaths, names, more, collected⟩ := ih { s with table := (s.table.kill pid).2 }
    refine ⟨(pid, staged, monitors) :: deaths, by rw [List.map_cons, names], first.append more, ?_⟩
    simp only [killEach, answered, collected, List.filterMap_cons]
    cases staged.bind (·.reclaim) <;> rfl

theorem scan_trace : Trace s (scanBlocks s) s := by
  unfold scanBlocks
  generalize List.range s.table.published.toUInt32.toNat = indices
  induction indices with
  | nil => exact .nil
  | cons index _ ih => exact (Trace.single (.livePid index.toUInt32)).append ih

/-- Run with nobody in between, an operation is the sequence of its own blocks: it leaves no block
pending, hands back what they did and, but for the claim given back at a switch, changes only the
table. -/
theorem operations_interleave :
    (∃ staged monitors, Trace s (deathBlocks (.kill pid) (some .killed) staged monitors)
        { s with table := (s.table.kill pid).2 } ∧
      (s.table.kill pid).1 = staged.bind (·.reclaim)) ∧
    (∃ deaths : List (Pid × Option (DeathStaged X M) × List MonitorEntry),
      deaths.map (·.1) = s.table.livePids ∧
      Trace s (scanBlocks s ++ deaths.flatMap fun death =>
          deathBlocks (.kill death.1) (some .killed) death.2.1 death.2.2)
        { s with table := s.table.killAll.2 } ∧
      s.table.killAll.1 = deaths.filterMap fun death => death.2.1.bind (·.reclaim)) ∧
    (∃ staged monitors, Trace s (deathBlocks (.markDeadIfAlive pid) none staged monitors)
        { s with table := (s.table.markDeadIfAlive pid).2 } ∧
      (s.table.markDeadIfAlive pid).1 = staged.isSome) ∧
    Trace s (switchBlocks pid (s.table.afterSwitch pid).1)
      { s with table := (s.table.afterSwitch pid).2, claims := s.claims.erase pid } ∧
    (∀ token deadline callee,
      Trace s (replyBlocks pid token deadline callee
          (s.table.takeReplyOrPark pid token deadline callee).1)
        { s with table := (s.table.takeReplyOrPark pid token deadline callee).2 }) ∧
    Trace s [.call (.clearAwaitingReply pid) .done, .evictCallWaiter pid]
      { s with table := s.table.clearAwaitingReply pid } ∧
    ∀ target, ∃ notice, Trace s (monitorBlocks pid target (s.table.monitor pid target).1 notice)
      { s with table := (s.table.monitor pid target).2 } := by
  refine ⟨kill_trace s pid, ?_, ?_, ?_, fun token deadline callee => ?_, ?_, fun target => ?_⟩
  · obtain ⟨deaths, names, kills, collected⟩ := killEach_trace s s.table.livePids
    exact ⟨deaths, names, (scan_trace s).append kills, collected⟩
  · have hold := Trace.single (.call (.fresh (by simp) : Picked s (.markDeadIfAlive pid) s))
    simp only [Sys.perform, perform, Prod.map] at hold
    unfold markDeadIfAlive
    generalize s.table.death pid none = held at hold ⊢
    rcases held with ⟨_ | staged, t⟩
    · refine ⟨none, [], ?_, rfl⟩
      simpa [deathBlocks, Call.follows, Call.claims] using hold
    · exact ⟨some staged, _, hold.append (.single (.deathPass rfl)), rfl⟩
  · have hold := Trace.single (.call (.fresh (by simp) : Picked s (.afterSwitch pid) s))
    simp only [Sys.perform, perform, Prod.map] at hold
    unfold afterSwitch
    generalize s.table.release pid = released at hold ⊢
    rcases released with ⟨_ | _ | _, t⟩
    case dead => exact (hold.append (.single (.reclaim rfl))).append (.single (.pushFree rfl))
    all_goals simpa [switchBlocks, Call.follows, Call.claims] using hold
  · have hold := (Trace.single (.ensureCallWaiter (s := s) pid callee token deadline)).append
      (.single (.call (.replyHold rfl)))
    simp only [Sys.perform, perform, Prod.map] at hold
    simp only [takeReplyOrPark]
    generalize takeReplyOrParkBlock (s.table.ensureCallWaiter pid callee token) pid token deadline
      callee = taken at hold ⊢
    rcases taken with ⟨_ | _ | _ | _, t⟩
    case ready | calleeDown => exact hold.append (.single (.evictCallWaiter rfl))
    all_goals simpa [replyBlocks, Call.follows, Call.claims] using hold
  · exact (Trace.single (.call (.fresh (by simp)))).append (.single (.evictCallWaiter rfl))
  · have hold := Trace.single (.registerMonitor (s := s) pid target)
    simp only [Sys.registerMonitor] at hold
    unfold monitor
    generalize s.table.registerMonitor pid target = registered at hold ⊢
    rcases registered with ⟨⟨token, _ | _⟩, t⟩
    · exact ⟨some _, (hold.append (.single (.monitorReason rfl))).append
        (.single (.stageNotice rfl))⟩
    · exact ⟨none, hold⟩

end Koja.Source.Runtime
