import Mathlib.Algebra.BigOperators.Group.Multiset.Basic
import Mathlib.Tactic.Abel
import Koja.Lib.Ledger
import Koja.Guarantees.Runtime.Boundary

/-!
# Monitors and exit notices

A `monitor` call either leaves an entry in the registry or is still on its way to
staging the notice of a target it found dead. An entry leaves the registry when its
target's registry pass turns it into a notice, when `demonitor` removes it, or when its
watcher's pass evicts it. The flow balances in every run; and while fresh indices are
handed out, an entry's target is alive or its pass is still to come.
-/
namespace Koja.Guarantees.Runtime
open Koja.Lib Koja.Source.Runtime Multiset

variable {X M : Type} {s after : Sys X M} {event : Event X M}

/-! ## What a step does to the monitors -/

/-- The `monitor` call an unfinished operation is, for a target found dead. -/
def monitoring : Pending X M → Option MonitorEntry
  | .monitorReason watcher target token => some ⟨target, token, watcher⟩
  | .stageNotice notice token => some ⟨notice.target, token, notice.watcher⟩
  | _ => none

/-- The `monitor` calls that have not completed. -/
def calling (s : Sys X M) : Multiset MonitorEntry := s.pending.filterMap monitoring

theorem calling_cons {item : Pending X M} {others : Multiset (Pending X M)}
    (next : s.pending = item ::ₘ others) :
    calling s = (monitoring item).elim (others.filterMap monitoring)
      (· ::ₘ others.filterMap monitoring) :=
  filterMap_of_cons monitoring next

/-- The labels that touch monitors or notices. -/
def isWatch : Event X M → Bool
  | .registerMonitor _ _ _ _ | .stageNotice _ _ | .deathPass _ _ _ _ | .demonitor _ _
  | .takeExitNotices _ => true
  | _ => false

/-- The monitor side of a step. -/
inductive WatchStep : Sys X M → Event X M → Sys X M → Prop
  | quiet {s after : Sys X M} {event : Event X M} (label : isWatch event = false)
      (monitors : after.table.registry.monitors = s.table.registry.monitors)
      (notices : after.table.registry.pendingExitNotices = s.table.registry.pendingExitNotices)
      (tokens : after.table.registry.nextMonitorToken = s.table.registry.nextMonitorToken)
      (calls : calling after = calling s) : WatchStep s event after
  | registered {s after : Sys X M} {watcher target : Pid} {token : Int64}
      (minted : token = s.table.registry.nextMonitorToken)
      (alive : s.table.isAlive target = true)
      (monitors : after.table.registry.monitors =
        s.table.registry.monitors ++ [⟨target, token, watcher⟩])
      (notices : after.table.registry.pendingExitNotices = s.table.registry.pendingExitNotices)
      (tokens : after.table.registry.nextMonitorToken = token + 1)
      (calls : calling after = calling s) :
      WatchStep s (.registerMonitor watcher target token true) after
  | tooLate {s after : Sys X M} {watcher target : Pid} {token : Int64}
      (minted : token = s.table.registry.nextMonitorToken)
      (monitors : after.table.registry.monitors = s.table.registry.monitors)
      (notices : after.table.registry.pendingExitNotices = s.table.registry.pendingExitNotices)
      (tokens : after.table.registry.nextMonitorToken = token + 1)
      (calls : calling after = ⟨target, token, watcher⟩ ::ₘ calling s) :
      WatchStep s (.registerMonitor watcher target token false) after
  | staged {s after : Sys X M} {notice : ExitNotice} {token : Int64}
      (monitors : after.table.registry.monitors = s.table.registry.monitors)
      (notices : after.table.registry.pendingExitNotices =
        s.table.registry.pendingExitNotices ++ [notice])
      (tokens : after.table.registry.nextMonitorToken = s.table.registry.nextMonitorToken)
      (calls : calling s = ⟨notice.target, token, notice.watcher⟩ ::ₘ calling after) :
      WatchStep s (.stageNotice notice token) after
  | passed {s after : Sys X M} {pid : Pid} {forced : Option ExitReason}
      {staged : DeathStaged X M}
      (monitors : after.table.registry.monitors = s.table.registry.monitors.filter
        (fun entry => entry.target ≠ pid ∧ entry.watcher ≠ pid))
      (notices : after.table.registry.pendingExitNotices = s.table.registry.pendingExitNotices ++
          (s.table.registry.monitors.filter (·.target = pid)).map
            (fun entry => ⟨staged.crashInfo, staged.reason, pid, entry.watcher⟩))
      (tokens : after.table.registry.nextMonitorToken = s.table.registry.nextMonitorToken)
      (calls : calling after = calling s) :
      WatchStep s (.deathPass pid forced staged s.table.registry.monitors) after
  | removed {s after : Sys X M} {token : Int64} (monitors : after.table.registry.monitors =
        s.table.registry.monitors.filter (·.token ≠ token))
      (notices : after.table.registry.pendingExitNotices = s.table.registry.pendingExitNotices)
      (tokens : after.table.registry.nextMonitorToken = s.table.registry.nextMonitorToken)
      (calls : calling after = calling s) :
      WatchStep s (.demonitor token s.table.registry.monitors) after
  | taken {s after : Sys X M} (monitors : after.table.registry.monitors = s.table.registry.monitors)
      (notices : after.table.registry.pendingExitNotices = [])
      (tokens : after.table.registry.nextMonitorToken = s.table.registry.nextMonitorToken)
      (calls : calling after = calling s) :
      WatchStep s (.takeExitNotices s.table.registry.pendingExitNotices) after

theorem follows_monitoring (call : Call M) (outcome : Outcome X M) :
    (call.follows outcome).filterMap monitoring = 0 := by
  unfold Call.follows
  split <;> rfl

theorem picked_calling {call : Call M} {picked : Sys X M} (origin : Picked s call picked) :
    calling picked = calling s := by
  cases origin with
  | fresh | batchKill | batchPromote => rfl
  | replyHold next => exact (calling_cons next).symm

theorem deathPass_monitors (t : ProcessTable X M) (pid : Pid) (staged : DeathStaged X M) :
    (t.deathPass pid staged).registry.monitors = t.registry.monitors.filter
        (fun entry => entry.target ≠ pid ∧ entry.watcher ≠ pid) ∧
      (t.deathPass pid staged).registry.pendingExitNotices = t.registry.pendingExitNotices ++
        (t.registry.monitors.filter (·.target = pid)).map
          (fun entry => ⟨staged.crashInfo, staged.reason, pid, entry.watcher⟩) ∧
      (t.deathPass pid staged).registry.nextMonitorToken = t.registry.nextMonitorToken := by
  unfold ProcessTable.deathPass Registry.notifyExit Registry.removeChild
  split <;> (dsimp only; split <;> exact ⟨rfl, rfl, rfl⟩)

theorem step_watch [Message M] (fresh : Fresh s.table) (step : Step s event after) :
    WatchStep s event after := by
  cases step with
  | call origin =>
    rename_i picked call
    have registry := picked_registry fresh origin
    refine .quiet rfl (by rw [registry]) (by rw [registry]) (by rw [registry]) ?_
    change (call.follows _ + picked.pending).filterMap monitoring = _
    rw [filterMap_add, follows_monitoring, zero_add]
    exact picked_calling origin
  | spawn execution parent =>
    unfold Sys.spawn
    rcases spawn_cases s.table execution parent with ⟨spawner, -, -, refused⟩ |
      ⟨index, table, spawned, placed⟩
    · rw [refused]
      exact .quiet rfl rfl rfl rfl rfl
    · rw [placed]
      exact .quiet rfl spawned.monitors spawned.notices spawned.tokens rfl
  | deathPass next =>
    obtain ⟨monitors, notices, tokens⟩ := deathPass_monitors s.table _ _
    exact .passed monitors notices tokens (calling_cons next).symm
  | reclaim next | monitorReason next =>
    refine .quiet rfl rfl rfl rfl ?_
    refine (calling_cons rfl).trans ?_
    exact (calling_cons next).symm
  | pushFree next | evictCallWaiter next =>
    exact .quiet rfl rfl rfl rfl (calling_cons next).symm
  | registerMonitor =>
    unfold Sys.registerMonitor ProcessTable.registerMonitor
    split
    · next alive => exact .registered rfl alive rfl rfl rfl rfl
    · exact .tooLate rfl rfl rfl rfl ((calling_cons rfl).trans rfl)
  | stageNotice next => exact .staged rfl rfl rfl (calling_cons next)
  | ensureCallWaiter =>
    unfold ProcessTable.ensureCallWaiter
    split <;> exact .quiet rfl rfl rfl rfl ((calling_cons rfl).trans rfl)
  | demonitor => exact .removed rfl rfl rfl rfl
  | takeExitNotices => exact .taken rfl rfl rfl rfl
  | takePendingKills | takeCallDowns | enterDraining | livePid =>
    exact .quiet rfl rfl rfl rfl rfl

/-! ## The flow of monitors -/

/-- The `monitor` call a label is, with the token it returned. -/
def registeredBy : Event X M → Multiset MonitorEntry
  | .registerMonitor watcher target token _ => {⟨target, token, watcher⟩}
  | _ => 0

/-- The monitors a label turns into staged notices. -/
def noticedBy : Event X M → Multiset MonitorEntry
  | .deathPass pid _ _ monitors => (monitors.filter (·.target = pid) : List MonitorEntry)
  | .stageNotice notice token => {⟨notice.target, token, notice.watcher⟩}
  | _ => 0

/-- The entries a `demonitor` removes. -/
def demonitoredBy : Event X M → Multiset MonitorEntry
  | .demonitor token monitors => (monitors.filter (·.token = token) : List MonitorEntry)
  | _ => 0

/-- The entries a watcher's own registry pass evicts, their targets' not having run. -/
def evictedBy : Event X M → Multiset MonitorEntry
  | .deathPass pid _ _ monitors =>
    (monitors.filter (fun entry => entry.target ≠ pid ∧ entry.watcher = pid) : List MonitorEntry)
  | _ => 0

variable (history : List (Event X M))

def registered : Multiset MonitorEntry := total registeredBy history

def noticed : Multiset MonitorEntry := total noticedBy history

def demonitored : Multiset MonitorEntry :=
  total demonitoredBy history

def evicted : Multiset MonitorEntry := total evictedBy history

/-- The monitors of a state: registered entries and calls not yet completed. -/
def standing (s : Sys X M) : Multiset MonitorEntry :=
  (s.table.registry.monitors : Multiset MonitorEntry) + calling s

theorem unwatched_flow (label : isWatch event = false) :
    registeredBy event = 0 ∧ noticedBy event = 0 ∧ demonitoredBy event = 0 ∧
      evictedBy event = 0 := by
  cases event with
  | registerMonitor | stageNotice | deathPass | demonitor | takeExitNotices => cases label
  | _ => exact ⟨rfl, rfl, rfl, rfl⟩

variable (monitors : List MonitorEntry)

/-- A registry pass parts the entries into those it turns into notices, those it
evicts, and those it keeps. -/
theorem pass_parts (pid : Pid) : (monitors : Multiset MonitorEntry) =
      ((monitors.filter (·.target = pid) : List MonitorEntry) : Multiset MonitorEntry) +
        (monitors.filter (fun entry => entry.target ≠ pid ∧ entry.watcher = pid) :
          List MonitorEntry) +
        (monitors.filter (fun entry => entry.target ≠ pid ∧ entry.watcher ≠ pid) :
          List MonitorEntry) := by
  have others := filter_add_not (fun entry : MonitorEntry => entry.watcher = pid)
    (filter (fun entry => ¬ entry.target = pid) monitors)
  rw [filter_comm, filter_filter, filter_comm, filter_filter] at others
  rw [add_assoc]
  refine (filter_add_not (fun entry : MonitorEntry => entry.target = pid) monitors).symm.trans ?_
  exact congrArg _ others.symm

theorem demonitor_parts (token : Int64) :
    (monitors : Multiset MonitorEntry) =
      ((monitors.filter (·.token = token) : List MonitorEntry) : Multiset MonitorEntry) +
        (monitors.filter (·.token ≠ token) : List MonitorEntry) := by
  have parted := filter_add_not (fun entry : MonitorEntry => entry.token = token) monitors
  exact parted.symm

/-- Every step balances: a monitor that enters stands, is turned into a notice, is
removed or is evicted. -/
theorem monitors_balance [Message M] (fresh : Fresh s.table) (step : Step s event after) :
    standing s + registeredBy event =
      noticedBy event + demonitoredBy event + evictedBy event + standing after := by
  unfold standing
  cases step_watch fresh step with
  | quiet label monitors _ _ calls =>
    obtain ⟨unwatched, unnoticed, kept, unevicted⟩ := unwatched_flow label
    rw [unwatched, unnoticed, kept, unevicted, monitors, calls]
    simp
  | registered _ _ monitors _ _ calls =>
    rw [monitors, calls, ← coe_add]
    abel
  | tooLate _ monitors _ _ calls | staged monitors _ _ calls =>
    rw [monitors, calls, ← singleton_add]
    simp only [noticedBy]
    abel
  | passed monitors notices tokens calls =>
    rename_i pid forced staged
    rw [monitors, calls]
    conv_lhs => rw [pass_parts s.table.registry.monitors pid]
    simp only [noticedBy, evictedBy]
    abel
  | removed monitors notices tokens calls =>
    rename_i token
    rw [monitors, calls]
    conv_lhs => rw [demonitor_parts s.table.registry.monitors token]
    simp only [demonitoredBy]
    abel
  | taken monitors _ _ calls =>
    rw [monitors, calls]
    abel

variable {history : List (Event X M)} {admits : List (Event X M) → Sys X M → Event X M → Prop}

theorem monitors_conserved [Message M] (run : Run Step admits Sys.init history s) :
    registered history = noticed history + demonitored history + evicted history + standing s := by
  have balance := run.conserves registeredBy
    (fun event => noticedBy event + demonitoredBy event + evictedBy event) standing rfl
    (fun _ _ _ _ before _ step => monitors_balance (reachable_grown before).fresh step)
  rw [total_add, total_add] at balance
  exact balance

/-! ## The notices themselves -/

/-- Whom a notice is addressed to, and whose exit it reports. -/
def noticePair (notice : ExitNotice) : Pid × Pid := (notice.watcher, notice.target)

def watchPair (entry : MonitorEntry) : Pid × Pid := (entry.watcher, entry.target)

/-- The notices a drain hands over. -/
def takenBy : Event X M → Multiset (Pid × Pid)
  | .takeExitNotices notices => (notices.map noticePair : List (Pid × Pid))
  | _ => 0

/-- The notices ever staged: drained, or still waiting for the driver. -/
def stagedNotices (history : List (Event X M)) (s : Sys X M) : Multiset (Pid × Pid) :=
  total takenBy history + (s.table.registry.pendingExitNotices.map noticePair : List (Pid × Pid))

theorem pass_notices (pid : Pid) (staged : DeathStaged X M) :
    ((monitors.filter (·.target = pid)).map
        (fun entry => (⟨staged.crashInfo, staged.reason, pid, entry.watcher⟩ : ExitNotice))).map
          noticePair =
      (monitors.filter (·.target = pid)).map watchPair := by
  rw [List.map_map]
  refine List.map_congr_left ?_
  intro entry member
  have target : entry.target = pid := by simpa using (List.mem_filter.mp member).2
  simp [noticePair, watchPair, target]

/-- A monitor counted as noticed is one notice staged. -/
theorem notices_balance [Message M] (fresh : Fresh s.table) (step : Step s event after) :
    (s.table.registry.pendingExitNotices.map noticePair : Multiset (Pid × Pid)) +
        (noticedBy event).map watchPair =
      takenBy event +
        (after.table.registry.pendingExitNotices.map noticePair : List (Pid × Pid)) := by
  cases step_watch fresh step with
  | quiet label _ notices =>
    have untaken : takenBy event = 0 := by
      cases event with
      | takeExitNotices => cases label
      | _ => rfl
    obtain ⟨-, unnoticed, -⟩ := unwatched_flow label
    rw [unnoticed, untaken, notices]
    simp
  | registered minted alive monitors notices tokens calls
  | tooLate minted monitors notices tokens calls | removed _ notices | taken _ notices =>
    rw [notices]
    simp [noticedBy, takenBy]
  | staged _ notices =>
    rw [notices, List.map_append, ← coe_add]
    simp [noticedBy, takenBy, noticePair, watchPair]
  | passed monitors notices tokens calls =>
    rw [notices, List.map_append, pass_notices]
    simp [noticedBy, takenBy]

theorem notices_conserved [Message M] (run : Run Step admits Sys.init history s) :
    (noticed history).map watchPair = stagedNotices history s := by
  have balance := run.conserves (fun event => mapAddMonoidHom watchPair (noticedBy event)) takenBy
    (fun s => (s.table.registry.pendingExitNotices.map noticePair : List (Pid × Pid))) rfl
    (fun _ _ _ _ before _ step => notices_balance (reachable_grown before).fresh step)
  rw [total_hom] at balance
  exact balance

/-! ## Tokens -/

/-- The number of `monitor` calls. -/
def monitorCalls (history : List (Event X M)) : Nat := (registered history).card

/-- Every call so far returned one of the tokens counted up from 1, the next one being
the next to come. -/
structure Minted (history : List (Event X M)) (s : Sys X M) : Prop where
  next : s.table.registry.nextMonitorToken = Int64.ofNat (monitorCalls history + 1)
  old : ∀ entry ∈ registered history, ∃ earlier < monitorCalls history,
    entry.token = Int64.ofNat (earlier + 1)
  once : monitorCalls history ≤ 2 ^ 64 → (registered history).Nodup

theorem ofNat_inj {m n : Nat} (same : Int64.ofNat m = Int64.ofNat n) : m % 2 ^ 64 = n % 2 ^ 64 := by
  have bits := congrArg (fun token => token.toBitVec.toNat) same
  simpa using bits

theorem Minted.step [Message M]
    (minted : Minted history s) (fresh : Fresh s.table) (step : Step s event after) :
    Minted (history ++ [event]) after := by
  have same : registeredBy event = 0 →
      after.table.registry.nextMonitorToken = s.table.registry.nextMonitorToken →
      Minted (history ++ [event]) after := by
    intro unwatched tokens
    have kept : registered (history ++ [event]) = registered history := by
      rw [registered, total_snoc, unwatched, add_zero, registered]
    constructor <;> rw [monitorCalls, kept]
    · rw [tokens]
      exact minted.next
    · exact minted.old
    · exact minted.once
  have more : ∀ {entry : MonitorEntry}, registeredBy event = {entry} →
      entry.token = s.table.registry.nextMonitorToken →
      after.table.registry.nextMonitorToken = entry.token + 1 →
      Minted (history ++ [event]) after := by
    intro entry one token tokens
    have added : registered (history ++ [event]) = entry ::ₘ registered history := by
      rw [registered, total_snoc, one, add_comm, singleton_add, registered]
    have counted : monitorCalls (history ++ [event]) = monitorCalls history + 1 := by
      rw [monitorCalls, added, card_cons, monitorCalls]
    rw [minted.next] at token
    refine ⟨?_, ?_, ?_⟩
    · rw [tokens, token, counted]
      simp
    · intro other member
      rw [added] at member
      rcases mem_cons.mp member with rfl | old
      · exact ⟨monitorCalls history, by omega, token⟩
      · obtain ⟨earlier, before, named⟩ := minted.old other old
        exact ⟨earlier, by omega, named⟩
    · intro room
      rw [added, nodup_cons]
      refine ⟨?_, minted.once (by omega)⟩
      intro old
      obtain ⟨earlier, before, named⟩ := minted.old entry old
      have clash := ofNat_inj (token.symm.trans named)
      omega
  cases step_watch fresh step with
  | quiet label _ _ tokens => exact same (unwatched_flow label).1 tokens
  | registered next _ _ _ tokens | tooLate next _ _ tokens => exact more rfl next tokens
  | staged monitors notices tokens calls | passed monitors notices tokens calls
  | removed monitors notices tokens calls | taken monitors notices tokens calls =>
    exact same rfl tokens

theorem reachable_minted [Message M] (run : Run Step admits Sys.init history s) :
    Minted history s := by
  induction run with
  | nil => exact ⟨rfl, by simp [registered], by simp [registered]⟩
  | snoc run _ step minted => exact minted.step (reachable_grown run).fresh step

/-! ## The guarantee -/

/-- Whoever is monitored is alive, or its registry pass is still to come. -/
def Watched (s : Sys X M) : Prop :=
  ∀ entry ∈ s.table.registry.monitors, (s.table.arena (slotIndex entry.target)).Alive entry.target ∨
      ∃ staged, (entry.target, staged) ∈ passes s

/-- A monitor was there and outlasts the step's pass, or is registered while its target lives. -/
theorem monitor_back [Message M] (fresh : Fresh s.table) (step : Step s event after)
    {entry : MonitorEntry} (member : entry ∈ after.table.registry.monitors) :
    (entry ∈ s.table.registry.monitors ∧ Spares event entry.watcher ∧ Spares event entry.target) ∨
      event = .registerMonitor entry.watcher entry.target entry.token true ∧
        (s.table.slotOf entry.target).Alive entry.target := by
  cases step_watch fresh step with
  | quiet label monitors =>
    rw [monitors] at member
    refine .inl ⟨member, ?_, ?_⟩ <;> rintro forced staged monitors rfl <;> cases label
  | registered _ alive monitors =>
    rw [monitors] at member
    rcases List.mem_append.mp member with old | new
    · exact .inl ⟨old, by simp [Spares], by simp [Spares]⟩
    · cases List.mem_singleton.mp new
      exact .inr ⟨rfl, (isAlive_iff fresh).mp alive⟩
  | passed monitors =>
    rw [monitors] at member
    obtain ⟨old, spared⟩ := List.mem_filter.mp member
    refine .inl ⟨old, ?_, ?_⟩ <;> rintro forced staged monitors same <;> cases same <;>
      simp at spared
  | removed monitors =>
    rw [monitors] at member
    exact .inl ⟨(List.mem_filter.mp member).1, by simp [Spares], by simp [Spares]⟩
  | tooLate minted monitors notices tokens calls | staged monitors notices tokens calls
  | taken monitors =>
    rw [monitors] at member
    exact .inl ⟨member, by simp [Spares], by simp [Spares]⟩

theorem Watched.step [Message M] (watched : Watched s) (sound : Sound s)
    (fits : IndexFits s event) (step : Step s event after) : Watched after := by
  intro entry member
  rcases monitor_back sound.grown.fresh step member with ⟨old, -, unpassed⟩ | ⟨-, alive⟩
  · exact Present.step (watched entry old) sound fits step unpassed
  · exact sound.alive_step fits step alive

/-- **Exactly one exit notice per monitor.** As long as growth hands out fresh indices:
once a target is dead and neither its registry pass nor the `monitor` call is
outstanding, every call that returned `token` was turned into one notice, or its entry
was removed by `demonitor` or evicted by its watcher's pass before the target's ran.
With fewer than 2^64 calls no two of them share a token, so it is exactly one of the
three. The notices staged are those, and each has its `monitor` call. -/
theorem one_notice_per_monitor [Message M] {history : List (Event X M)}
    (run : Run Step (fun _ s event => IndexFits s event) Sys.init history s) :
    (∀ entry, s.table.isAlive entry.target = false → ¬ PassPending s entry.target →
      entry ∉ calling s →
      (registered history).count entry = (noticed history).count entry +
          (demonitored history).count entry + (evicted history).count entry ∧
        (monitorCalls history ≤ 2 ^ 64 → entry ∈ registered history →
          ((noticed history).count entry = 1 ∧ entry ∉ demonitored history ∧
              entry ∉ evicted history) ∨
            (entry ∉ noticed history ∧ (entry ∈ demonitored history ∨ entry ∈ evicted history)))) ∧
    (noticed history).map watchPair = stagedNotices history s ∧
    ∀ watcher target, (watcher, target) ∈ stagedNotices history s →
      ∃ token, ⟨target, token, watcher⟩ ∈ registered history := by
  obtain ⟨sound, watched⟩ : Sound s ∧ Watched s := by
    induction run with
    | nil => exact ⟨Sound.init, nofun⟩
    | snoc _ fits step ih => exact ⟨ih.1.step fits step, ih.2.step ih.1 fits step⟩
  have balance := monitors_conserved run
  have staged := notices_conserved run
  refine ⟨?_, staged, ?_⟩
  · intro entry down passed completed
    have gone : entry ∉ standing s := by
      intro member
      rcases mem_add.mp member with listed | unfinished
      · rcases watched entry (mem_coe.mp listed) with alive | waiting
        · rw [← isAlive_iff sound.grown.fresh, down] at alive
          cases alive
        · exact passed (passPending_iff.mpr waiting)
      · exact completed unfinished
    have counts : (registered history).count entry = (noticed history).count entry +
        (demonitored history).count entry + (evicted history).count entry := by
      rw [balance, count_add, count_add, count_add, count_eq_zero_of_notMem gone, Nat.add_zero]
    refine ⟨counts, ?_⟩
    intro few called
    have one := count_eq_one_of_mem ((reachable_minted run).once few) called
    rw [← count_eq_zero (s := noticed history), ← count_pos, ← count_pos]
    omega
  · intro watcher target told
    rw [← staged] at told
    obtain ⟨entry, member, pair⟩ := mem_map.mp told
    cases pair
    refine ⟨entry.token, ?_⟩
    rw [balance, add_assoc, add_assoc]
    exact mem_add.mpr (.inl member)

/-- A monitored process is killed and announced: its watcher is sent one notice. -/
theorem one_notice_per_monitor_killed :
    ∃ (history : List (Event Unit Envelope)) (s : Sys Unit Envelope),
      Run Step (fun _ s event => IndexFits s event) Sys.init history s ∧
      s.table.isAlive firstPid = false ∧ ¬ PassPending s firstPid ∧ calling s = 0 ∧
      registered history = {⟨firstPid, 1, secondPid⟩} ∧
      ((registered history).count ⟨firstPid, 1, secondPid⟩ =
        (noticed history).count ⟨firstPid, 1, secondPid⟩ +
          (demonitored history).count ⟨firstPid, 1, secondPid⟩ +
          (evicted history).count ⟨firstPid, 1, secondPid⟩) := by
  have start : Run Step (fun _ s event => IndexFits s event)
      (Sys.init : Sys Unit Envelope) [] Sys.init := .nil
  have target := run_spawn start () none (.inr (by decide))
  have watcher := run_spawn target () none (.inr (by decide))
  have watched := watcher.extend (.registerMonitor secondPid firstPid) trivial
  have killed := run_call watched (.kill firstPid) trivial
  have passed := run_deathPass killed firstPid (some .killed)
    ⟨.killed, none, 0, some ⟨some (), .empty⟩⟩ 0 rfl trivial
  have told := (one_notice_per_monitor passed).1 ⟨firstPid, 1, secondPid⟩ rfl
    (no_passPending rfl _) (notMem_zero _)
  exact ⟨_, _, passed, rfl, no_passPending rfl _, rfl, rfl, told.1⟩

/-- With every `u32` index live, a process is spawned into the slot of one that is dead
and about to be reclaimed, under the same PID. The reclaim then vacates the slot
without a death edge: whoever monitored the new process is never told. -/
theorem overrun_loses_notice : ∃ (history : List (Event Unit Envelope)) (s : Sys Unit Envelope),
      Run Step (fun _ _ _ => True) Sys.init history s ∧
      s.table.isAlive firstPid = false ∧ (∀ pid, ¬ PassPending s pid) ∧ calling s = 0 ∧
      (⟨firstPid, 1, secondPid⟩ : MonitorEntry) ∈ registered history ∧
      (registered history).count ⟨firstPid, 1, secondPid⟩ ≠
        (noticed history).count ⟨firstPid, 1, secondPid⟩ +
          (demonitored history).count ⟨firstPid, 1, secondPid⟩ +
          (evicted history).count ⟨firstPid, 1, secondPid⟩ := by
  obtain ⟨history, booted⟩ := boot_run (fun _ _ _ => True)
    (fun _ _ _ _ _ _ => trivial) (2 ^ 32) (Nat.le_refl _)
  have claimed := run_call booted (.tryClaim firstPid) trivial
  have killed := run_call claimed (.kill firstPid) trivial
  have passed := run_deathPass killed firstPid (some .killed) ⟨.killed, none, 0, none⟩ 0 rfl trivial
  have released := run_call passed (.afterSwitch firstPid) trivial
  have overwritten := run_spawn released () none trivial
  have watched := overwritten.extend (.registerMonitor secondPid firstPid) trivial
  have vacated := watched.extend (@Step.reclaim _ _ _ _ firstPid 0 rfl) trivial
  have balance : registered _ = noticed _ + demonitored _ + evicted _ +
      {⟨firstPid, 1, secondPid⟩} := monitors_conserved vacated
  refine ⟨_, _, vacated, rfl, no_passPending rfl, rfl, ?_, ?_⟩
  · rw [balance]
    exact mem_add.mpr (.inr (mem_singleton_self _))
  · rw [balance, count_add, count_add, count_add, count_singleton_self]
    omega

end Koja.Guarantees.Runtime
