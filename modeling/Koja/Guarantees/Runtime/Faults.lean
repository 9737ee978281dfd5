import Koja.Guarantees.Runtime.Occupancy

/-!
# Violations and debug assertions

The runtime's own oracle: the `violations` counter of `park_edge` and the debug
assertions of `park_edge`, `wake_edge`, `occupy`, `vacate` and `reclaim_locked`. Each
block either leaves both alone or is given a slot in a state its guard excludes.
-/
namespace Koja.Guarantees.Runtime
open Koja.Source.Runtime ProcessTable

variable {X M : Type}

/-- No violation counted and no debug assertion failed in between. -/
def SameFaults (before after : Tally) : Prop :=
  after.counters.violations = before.counters.violations ∧
    after.debugFailures = before.debugFailures

theorem SameFaults.refl (tally : Tally) : SameFaults tally tally := ⟨rfl, rfl⟩

theorem SameFaults.trans {first second third : Tally} (one : SameFaults first second)
    (two : SameFaults second third) : SameFaults first third :=
  ⟨two.1.trans one.1, two.2.trans one.2⟩

theorem debugAssert_faults {tally : Tally} {condition : Bool} (holds : condition = true) :
    SameFaults tally (tally.debugAssert condition) := by
  rw [holds]
  exact .refl _

/-! ## Holds -/

section Holds
variable {slot : Slot X M} {tally : Tally} {generation : UInt32} {pid : Pid}
  {deadline : Option Instant}

/-- A park by a process that runs, unless it was killed, is no violation. -/
theorem parkEdge_faults {target : ProcessState}
    (running : slot.lifecycle.isAlive generation = true → slot.lifecycle.state = some .running) :
    SameFaults tally (parkEdge generation target slot tally).2.2 := by
  unfold parkEdge
  split
  · next alive =>
    have same := (LifecycleWord.isAlive_iff.mp alive).1
    rw [LifecycleWord.tryEdge_eq, if_pos ⟨same, running alive⟩]
    exact .refl _
  · exact ⟨rfl, rfl⟩

/-- A wake from the state the slot is in keeps its pinned source. -/
theorem wakeEdge_faults {source : ProcessState}
    (pinned : slot.lifecycle.generation = generation ∧ slot.lifecycle.state = some source) :
    SameFaults tally (wakeEdge pid generation source slot tally).2.2 := by
  unfold wakeEdge
  rw [LifecycleWord.tryEdge_eq, if_pos pinned]
  dsimp only
  split <;> exact ⟨rfl, rfl⟩

theorem tryParkHold_faults
    (running : slot.lifecycle.isAlive generation = true → slot.lifecycle.state = some .running)
    {target : WaitTarget} :
    SameFaults tally (tryParkHold generation target deadline slot tally).2.2 := by
  have edge := @parkEdge_faults _ _ _ tally _ .blocked running
  fun_cases tryParkHold generation target deadline slot tally <;> simp_all [SameFaults]

theorem tryParkIoHold_faults
    (running : slot.lifecycle.isAlive generation = true → slot.lifecycle.state = some .running) :
    SameFaults tally (tryParkIoHold generation deadline slot tally).2.2 := by
  have edge := @parkEdge_faults _ _ _ tally _ .waitingIo running
  fun_cases tryParkIoHold generation deadline slot tally <;> simp_all [SameFaults]

theorem receiveOrParkHold_faults
    (running : slot.lifecycle.isAlive generation = true → slot.lifecycle.state = some .running) :
    SameFaults tally (receiveOrParkHold generation deadline slot tally).2.2 := by
  have edge := @parkEdge_faults _ _ _ tally _ .blocked running
  fun_cases receiveOrParkHold generation deadline slot tally <;> simp_all [SameFaults]

theorem takeReplyOrParkHold_faults [Message M] {token : Int64} {calleeAlive : Bool}
    (running : slot.lifecycle.isAlive generation = true → slot.lifecycle.state = some .running) :
    SameFaults tally
      (takeReplyOrParkHold generation token deadline calleeAlive slot tally).2.2 := by
  have edge := @parkEdge_faults _ _ _ tally _ .blocked running
  fun_cases takeReplyOrParkHold generation token deadline calleeAlive slot tally <;>
    simp_all [SameFaults]

theorem deliverLocked_faults [Message M] {message : M}
    (alive : slot.lifecycle.isAlive generation = true) :
    SameFaults tally (deliverLocked pid generation message slot tally).2.2 := by
  unfold deliverLocked
  dsimp only
  split
  · exact .refl _
  · next source wakes =>
    have pinned := (wakeSource_eq_some wakes).1
    exact wakeEdge_faults ⟨(LifecycleWord.isAlive_iff.mp alive).1, pinned⟩

theorem promoteExpiredHold_faults {fireAt : Instant} :
    SameFaults tally (promoteExpiredHold pid generation fireAt slot tally).2.2 := by
  fun_cases promoteExpiredHold pid generation fireAt slot tally with
  | case1 | case3 => exact .refl _
  | case2 _ observed due =>
    exact wakeEdge_faults ⟨due.1, (Option.filter_eq_some_iff.mp observed).1⟩

theorem promoteIoWaiterHold_faults :
    SameFaults tally (promoteIoWaiterHold pid generation slot tally).2.2 := by
  unfold promoteIoWaiterHold
  split
  · exact .refl _
  · next waiting =>
    simp only [not_or, not_not] at waiting
    exact wakeEdge_faults waiting

theorem promoteCallWaiterHold_faults {token : Int64} :
    SameFaults tally (promoteCallWaiterHold pid generation token slot tally).2.2 := by
  unfold promoteCallWaiterHold
  split
  · next waiting => exact wakeEdge_faults ⟨waiting.1, waiting.2.1⟩
  · exact .refl _

theorem reclaimLocked_faults (held : slot.execution ≠ none)
    (dead : slot.lifecycle.state = some .dead) :
    SameFaults tally (reclaimLocked slot tally).2.2 := by
  have first : SameFaults tally (tally.debugAssert slot.execution.isSome) :=
    debugAssert_faults (Option.isSome_iff_ne_none.mpr held)
  exact first.trans (debugAssert_faults (by simp [dead]))

theorem deathHold_faults {forced : Option ExitReason}
    (held : slot.lifecycle.state ≠ none → slot.execution ≠ none) :
    SameFaults tally (deathHold generation forced slot tally).2.2 := by
  unfold deathHold
  split
  · exact .refl _
  · next word edge =>
    obtain ⟨alive, ⟨⟩⟩ := Option.ite_none_right_eq_some.mp edge
    obtain ⟨-, state, occupied, -⟩ := LifecycleWord.isAlive_iff.mp alive
    have counted : ∀ running : Prop, [Decidable running] → SameFaults tally (if running then
          { { tally with alive := tally.alive - 1 } with active := tally.active - 1 }
        else { tally with alive := tally.alive - 1 }) := by
      intro running _
      split <;> exact ⟨rfl, rfl⟩
    dsimp only
    split
    · exact (counted _).trans ⟨rfl, rfl⟩
    · exact (counted _).trans (reclaimLocked_faults (held (by simp [occupied])) rfl)

end Holds

/-! ## Calls and steps -/

/-- The calls that take a park edge. -/
def isPark : Call M → Bool
  | .tryPark _ _ _ | .tryParkIo _ _ | .receiveOrPark _ _ | .takeReplyOrPark _ _ _ _ => true
  | _ => false

/-- Parks come from a process that is claimed and running, unless a kill has just
landed on it. -/
def ParksRunning (s : Sys X M) : Event X M → Prop
  | .call call _ => isPark call = true → (s.table.arena (slotIndex call.pid)).Alive call.pid →
      (s.table.arena (slotIndex call.pid)).lifecycle.state = some .running ∧
        (s.table.arena (slotIndex call.pid)).lifecycle.onCpu = true
  | _ => True

theorem parksRunning_other {s : Sys X M} {call : Call M} {outcome : Outcome X M}
    (other : isPark call = false) : ParksRunning s (.call call outcome) := by
  intro park
  rw [other] at park
  cases park

section Calls
variable {t : ProcessTable X M} {pid : Pid}

theorem withHot_faults {R : Type} {f : UInt32 → Hold X M R}
    (body : (t.slotOf pid).Current pid → SameFaults t.tally
      (f (generationOf pid) (t.slotOf pid) t.tally).2.2) :
    SameFaults t.tally (t.withHot pid f).2.tally := by
  unfold withHot
  rw [slot_eq]
  split
  · exact .refl _
  · next slot generation found =>
    split at found
    · obtain ⟨rfl, rfl⟩ := found
      split
      · exact .refl _
      · next current => exact body (not_not.mp current)
    · cases found

theorem orRefused_faults {R : Type} {refused : R} {result : Option R × ProcessTable X M}
    {tally : Tally} (before : SameFaults tally result.2.tally) :
    SameFaults tally (orRefused refused result).2.tally := by
  obtain ⟨park, t⟩ := result
  cases park with
  | none => exact before.trans ⟨rfl, rfl⟩
  | some => exact before

theorem modifyScalars_faults (write : Slot X M → Slot X M) :
    SameFaults t.tally (t.modifyScalars pid write).tally := by
  unfold modifyScalars
  split
  · exact .refl _
  · split <;> exact .refl _

theorem deliverIf_faults [Message M] (t : ProcessTable X M) (pid : Pid) (message : M)
    (accepts : HotState M → Bool) :
    SameFaults t.tally (t.deliverIf pid message accepts).2.tally := by
  unfold deliverIf
  split
  · exact .refl _
  · split
    · next accepted =>
      exact deliverLocked_faults (Bool.and_eq_true_iff.mp accepted).1
    · exact .refl _

/-- A call's block counts no violation and fails no assertion: parks come from a
running process, and an occupied slot holds its execution. -/
theorem perform_faults [Message M] (t : ProcessTable X M) (call : Call M)
    (held : (t.slotOf call.pid).lifecycle.state ≠ none →
      (t.slotOf call.pid).execution ≠ none)
    (running : isPark call = true → (t.slotOf call.pid).Alive call.pid →
      (t.slotOf call.pid).lifecycle.state = some .running) :
    SameFaults t.tally (t.perform call).2.tally := by
  cases call with
  | deliver pid message =>
    have before := deliverIf_faults t pid message fun _ => true
    change SameFaults t.tally (t.deliver pid message).2.tally
    unfold deliver
    split
    · next delivered =>
      rw [delivered] at before
      exact before
    · next bounced =>
      rw [bounced] at before
      exact before.trans ⟨rfl, rfl⟩
  | deliverReply pid token message =>
    have before := deliverIf_faults t pid message fun hot => hot.awaitingReply = some token
    change SameFaults t.tally (t.deliverReply pid token message).2.tally
    unfold deliverReply
    split
    all_goals
      next delivered =>
        rw [delivered] at before
        exact before
  | tryClaim pid =>
    change SameFaults t.tally (t.tryClaim pid).2.tally
    unfold tryClaim
    split
    · exact ⟨rfl, rfl⟩
    · split <;> exact ⟨rfl, rfl⟩
  | tryPark =>
    exact orRefused_faults (withHot_faults fun _ => tryParkHold_faults (running rfl))
  | tryParkIo =>
    exact orRefused_faults (withHot_faults fun _ => tryParkIoHold_faults (running rfl))
  | receiveOrPark =>
    exact orRefused_faults (withHot_faults fun _ => receiveOrParkHold_faults (running rfl))
  | takeReplyOrPark =>
    exact orRefused_faults (withHot_faults fun _ => takeReplyOrParkHold_faults (running rfl))
  | popReceived pid =>
    change SameFaults t.tally (t.withHot pid fun _ => popReceivedHold).2.tally
    exact withHot_faults fun _ => .refl _
  | takeReply pid =>
    change SameFaults t.tally (t.withHot pid fun _ => takeReplyHold).2.tally
    exact withHot_faults fun _ => .refl _
  | promoteExpired pid fireAt =>
    have before : SameFaults t.tally (t.withHot pid (promoteExpiredHold pid · fireAt)).2.tally :=
      withHot_faults fun _ => promoteExpiredHold_faults
    change SameFaults t.tally (t.promoteExpired pid fireAt).2.tally
    unfold promoteExpired
    split
    · next woken =>
      rw [woken] at before
      exact before
    · next missed =>
      rw [missed] at before
      exact before.trans ⟨rfl, rfl⟩
  | promoteIoWaiter => exact withHot_faults fun _ => promoteIoWaiterHold_faults
  | promoteCallWaiter pid token =>
    change SameFaults t.tally (t.withHot pid (promoteCallWaiterHold pid · token)).2.tally
    exact withHot_faults fun _ => promoteCallWaiterHold_faults
  | yieldRunning pid =>
    change SameFaults t.tally (t.yieldRunning pid).tally
    unfold yieldRunning
    split
    · exact .refl _
    · split <;> exact ⟨rfl, rfl⟩
  | afterSwitch pid =>
    change SameFaults t.tally (t.release pid).2.tally
    unfold release
    split
    · exact .refl _
    · split <;> exact ⟨rfl, rfl⟩
  | kill pid =>
    change SameFaults t.tally (t.withHot pid (deathHold · (some .killed))).2.tally
    exact withHot_faults fun _ => deathHold_faults held
  | markDeadIfAlive pid =>
    change SameFaults t.tally (t.withHot pid (deathHold · none)).2.tally
    exact withHot_faults fun _ => deathHold_faults held
  | clearDeadline pid | setAwaitingReply pid token | clearAwaitingReply pid
  | setExitReason pid reason | setCrashInfo pid crashInfo =>
    exact withHot_faults fun _ => .refl _
  | setPriority pid priority | setContext pid context | setLogLevel pid level | logEnter pid
  | logLeave => exact modifyScalars_faults _

/-- Every step of a run that never outgrows the indices and parks only running
processes leaves the oracle alone. -/
theorem step_faults [Message M] {s after : Sys X M} {event : Event X M} (sound : Sound s)
    (fits : IndexFits s event) (parks : ParksRunning s event) (step : Step s event after) :
    SameFaults s.table.tally after.table.tally := by
  have occupied : ∀ index, (s.table.arena index).lifecycle.state ≠ none →
      (s.table.arena index).execution ≠ none :=
    fun index state empty => state ((sound.slots index).execution.mpr empty)
  cases step with
  | call origin =>
    rw [picked_table origin]
    exact perform_faults s.table _ (occupied _) fun park alive => (parks park alive).1
  | spawn execution parent =>
    unfold Sys.spawn
    rcases spawn_cases s.table execution parent with ⟨spawner, -, -, refused⟩ |
      ⟨index, table, spawned, placed⟩
    · rw [refused]
      exact .refl _
    · rw [placed] at fits ⊢
      obtain ⟨vacant, -⟩ := sound.spawn_vacant spawned fits
      have asserted : SameFaults s.table.tally
          (s.table.tally.debugAssert ((s.table.arena index).lifecycle.state = none)) :=
        debugAssert_faults (by simp [vacant])
      rw [spawned.tally]
      exact asserted.trans ⟨rfl, rfl⟩
  | deathPass =>
    unfold deathPass
    split <;> exact .refl _
  | reclaim next =>
    rename_i pid rest
    have member : pid ∈ reclaims s := by
      rw [reclaims_cons (unfinished_cons_core next rfl)]
      exact Multiset.mem_cons_self _ _
    have word := sound.doomed _ member
    exact reclaimLocked_faults (occupied _ (by simp [word])) (by rw [word])
  | registerMonitor =>
    unfold Sys.registerMonitor registerMonitor
    split <;> exact .refl _
  | ensureCallWaiter =>
    unfold ensureCallWaiter
    split <;> exact .refl _
  | pushFree | monitorReason | stageNotice | demonitor | takeExitNotices | takePendingKills
  | evictCallWaiter | takeCallDowns | enterDraining | livePid => exact .refl _

end Calls

end Koja.Guarantees.Runtime
