import Koja.Guarantees.Runtime.CallWaiters
import Koja.Guarantees.Runtime.Monitors

/-!
# Registry hygiene

The registry pass of a death removes every entry the dead process is an endpoint of, so
an entry of the registry outlives its endpoints only if it was made after the pass.
`ensure_call_waiter` checks both endpoints under the registry hold; `monitor` checks its
target alone.
-/
namespace Koja.Guarantees.Runtime
open Koja.Lib Koja.Source.Runtime List

variable {X M : Type} {s after : Sys X M} {event : Event X M}

/-- Whoever registers a monitor is alive. -/
def WatcherAlive (s : Sys X M) : Event X M → Prop
  | .registerMonitor watcher _ _ true => (s.table.arena (slotIndex watcher)).Alive watcher
  | _ => True

/-- Both ends of every entry are alive, or wait for their registry pass. -/
structure Attended (s : Sys X M) : Prop where
  monitors : ∀ entry ∈ s.table.registry.monitors, Present s entry.watcher ∧ Present s entry.target
  waiters : ∀ waiter ∈ s.table.registry.callWaiters,
    Present s waiter.caller ∧ Present s waiter.callee

theorem Attended.init : Attended (Sys.init : Sys X M) where
  monitors := fun _ member => absurd member not_mem_nil
  waiters := fun _ member => absurd member not_mem_nil

section
variable [Message M]

theorem Attended.monitors_step (attended : Attended s) (sound : Sound s) (fits : IndexFits s event)
    (watcher : WatcherAlive s event) (step : Step s event after) :
    ∀ entry ∈ after.table.registry.monitors,
      Present after entry.watcher ∧ Present after entry.target := by
  intro entry member
  rcases monitor_back sound.grown.fresh step member with ⟨old, unpassed, unpassed'⟩ | ⟨rfl, alive⟩
  · obtain ⟨watching, watched⟩ := attended.monitors entry old
    exact ⟨watching.step sound fits step unpassed, watched.step sound fits step unpassed'⟩
  · exact ⟨sound.alive_step fits step watcher, sound.alive_step fits step alive⟩

theorem Attended.waiters_step (attended : Attended s) (sound : Sound s) (fits : IndexFits s event)
    (step : Step s event after) :
    ∀ waiter ∈ after.table.registry.callWaiters,
      Present after waiter.caller ∧ Present after waiter.callee := by
  intro waiter member
  rcases callWaiter_back sound.grown.fresh step member with
    ⟨old, unpassed, unpassed'⟩ | ⟨-, calling, called⟩
  · obtain ⟨calling, called⟩ := attended.waiters waiter old
    exact ⟨calling.step sound fits step unpassed, called.step sound fits step unpassed'⟩
  · exact ⟨sound.alive_step fits step calling, sound.alive_step fits step called⟩

/-- In every run in which processes register monitors while they are alive: once every
death edge has completed its registry pass, both ends of every monitor and of every
waiting call are alive. -/
theorem registry_hygiene {history : List (Event X M)}
    (run : Run Step (fun _ s event => IndexFits s event ∧ WatcherAlive s event)
      Sys.init history s) (settled : ∀ pid, ¬ PassPending s pid) :
    (∀ entry ∈ s.table.registry.monitors,
      s.table.isAlive entry.watcher = true ∧ s.table.isAlive entry.target = true) ∧
    ∀ waiter ∈ s.table.registry.callWaiters,
      s.table.isAlive waiter.caller = true ∧ s.table.isAlive waiter.callee = true := by
  obtain ⟨sound, attended⟩ : Sound s ∧ Attended s := by
    clear settled
    induction run with
    | nil => exact ⟨Sound.init, Attended.init⟩
    | snoc _ admitted step ih =>
      obtain ⟨sound, attended⟩ := ih
      exact ⟨sound.step admitted.1 step, attended.monitors_step sound admitted.1 admitted.2 step,
        attended.waiters_step sound admitted.1 step⟩
  have alive : ∀ {pid : Pid}, Present s pid → s.table.isAlive pid = true := by
    rintro pid (alive | waiting)
    · exact (isAlive_iff sound.grown.fresh).mpr alive
    · exact absurd (passPending_iff.mpr waiting) (settled pid)
  exact ⟨fun entry member => ⟨alive (attended.monitors entry member).1,
      alive (attended.monitors entry member).2⟩,
    fun waiter member => ⟨alive (attended.waiters waiter member).1,
      alive (attended.waiters waiter member).2⟩⟩

end

/-- A process monitors another and waits for its reply: all of them are alive. -/
theorem registry_hygiene_waiting : ∃ (history : List (Event Unit Envelope)) (s : Sys Unit Envelope),
      Run Step (fun _ s event => IndexFits s event ∧ WatcherAlive s event) Sys.init history s ∧
      (∀ pid, ¬ PassPending s pid) ∧
      s.table.registry.monitors = [⟨firstPid, 1, secondPid⟩] ∧
      s.table.registry.callWaiters = [⟨firstPid, secondPid, 7⟩] ∧
      s.table.isAlive secondPid = true := by
  have start : Run Step (fun _ s event => IndexFits s event ∧ WatcherAlive s event)
      (Sys.init : Sys Unit Envelope) [] Sys.init := .nil
  have target := run_spawn start () none ⟨.inr (by decide), trivial⟩
  have watcher := run_spawn target () none ⟨.inr (by decide), trivial⟩
  have watched := watcher.extend (.registerMonitor secondPid firstPid) ⟨trivial, rfl⟩
  have waiting := watched.extend (.ensureCallWaiter secondPid firstPid 7 none) ⟨trivial, trivial⟩
  exact ⟨_, _, waiting, no_passPending rfl, rfl, rfl,
    ((registry_hygiene waiting (no_passPending rfl)).1 ⟨firstPid, 1, secondPid⟩
      (mem_singleton_self _)).1⟩

/-- A process killed on the cpu registers a monitor after its own registry pass: the entry
has a dead watcher, and nothing is left to remove it. -/
theorem killed_watcher_registers : ∃ (history : List (Event Unit Envelope)) (s : Sys Unit Envelope),
      Run Step (fun _ s event => IndexFits s event) Sys.init history s ∧
      (∀ pid, ¬ PassPending s pid) ∧
      ∃ entry ∈ s.table.registry.monitors, s.table.isAlive entry.watcher = false := by
  have start : Run Step (fun _ s event => IndexFits s event)
      (Sys.init : Sys Unit Envelope) [] Sys.init := .nil
  have target := run_spawn start () none (.inr (by decide))
  have watcher := run_spawn target () none (.inr (by decide))
  have claimed := run_call watcher (.tryClaim secondPid) trivial
  have killed := run_call claimed (.kill secondPid) trivial
  have passed := run_deathPass killed secondPid (some .killed) ⟨.killed, none, 0, none⟩ 0 rfl
    trivial
  have watched := passed.extend (.registerMonitor secondPid firstPid) trivial
  exact ⟨_, _, watched, no_passPending rfl, ⟨firstPid, 1, secondPid⟩,
    mem_singleton_self _, rfl⟩

end Koja.Guarantees.Runtime
