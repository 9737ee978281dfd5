import Koja.Source.Runtime.Scheduler
import Koja.Guarantees.Runtime.ExclusiveClaim
import Koja.Guarantees.Runtime.Messages

/-!
# Handles

A PID packs a slot index and a generation. Through a PID whose process is reclaimed no
operation reaches a slot, and a process starts on a slot that keeps nothing of the
process before it. PIDs are valid, that is positive and never handed out twice, as long
as generations stay in the positive half of an `i64`.
-/
namespace Koja.Guarantees.Runtime
open Koja.Lib Koja.Source.Runtime List

variable {X M : Type} {s after : Sys X M} {event : Event X M} {history : List (Event X M)}
  {t : ProcessTable X M} {pid : Pid}

/-! ## Inert handles -/

section
variable [Message M]

/-- No call of the history went through `pid`. -/
def Unused (history : List (Event X M)) (pid : Pid) : Prop :=
  ∀ call outcome, .call call outcome ∈ history → call.pid ≠ pid

/-- A vacant slot has the hot state it was reset to, unless someone used the PID its next
process will have. -/
def Pristine (history : List (Event X M)) (index : UInt32) (slot : Slot X M) : Prop :=
  slot.lifecycle.state = none → Unused history (encode index slot.lifecycle.generation) →
    slot.hot = .default

theorem Pristine.step {index : UInt32} {slot now : Slot X M} (before : Pristine history index slot)
    (moved : SlotStep t index event slot now) : Pristine (history ++ [event]) index now := by
  intro vacant unused
  have earlier : ∀ {pid : Pid}, Unused (history ++ [event]) pid → Unused history pid :=
    fun unused call outcome member => unused call outcome (mem_append_left _ member)
  cases moved with
  | same _ same =>
    subst same
    exact before vacant (earlier unused)
  | touched names touch =>
    rename_i call outcome
    by_cases current : slot.Current call.pid
    · rcases touch_reclaimed touch with ⟨-, generation, iff⟩ | ⟨-, -, vacated⟩
      · -- the call went through the very PID the next process gets
        have named : call.pid = encode index now.lifecycle.generation := by
          rw [generation, eq_encode_iff]
          exact ⟨names, current.symm⟩
        exact absurd named (unused call outcome (mem_append_right _ (mem_singleton_self _)))
      · rw [vacated]
        rfl
    · rw [touch_stale touch current] at vacant unused ⊢
      exact before vacant (earlier unused)
  | occupied _ _ word =>
    rw [word] at vacant
    cases vacant
  | vacated _ _ empty =>
    rw [empty]
    rfl

/-- Only a spawn publishes a slot, the one it is handed. -/
theorem published_step (fresh : Fresh s.table) (step : Step s event after) :
    after.table.published = s.table.published ∨
      ∃ execution parent pid, event = .spawn execution parent (.ok pid) ∧
        slotIndex pid = s.table.published.toUInt32 ∧
        after.table.published = s.table.published + 1 := by
  cases step with
  | call origin =>
    rw [picked_table origin]
    exact .inl (perform_local s.table _ (fresh _)).published
  | spawn execution parent =>
    unfold Sys.spawn
    rcases spawn_cases s.table execution parent with ⟨spawner, -, -, refused⟩ |
      ⟨index, table, spawned, placed⟩
    · rw [refused]
      exact .inl rfl
    · rw [placed]
      rcases spawned.source with ⟨-, same⟩ | ⟨-, -, index, grown⟩
      · exact .inl same
      · exact .inr ⟨_, _, _, rfl, by rw [slotIndex_encode, index], grown⟩
  | deathPass => exact .inl (deathPass_published _ _ _)
  | registerMonitor =>
    unfold Sys.registerMonitor ProcessTable.registerMonitor
    split <;> exact .inl rfl
  | ensureCallWaiter =>
    unfold ProcessTable.ensureCallWaiter
    split <;> exact .inl rfl
  | reclaim | pushFree | monitorReason | stageNotice | evictCallWaiter | demonitor
  | takeExitNotices | takePendingKills | takeCallDowns | enterDraining | livePid => exact .inl rfl

/-- Every published slot has been occupied, and so left generation 0. -/
def Begun (s : Sys X M) : Prop :=
  ∀ index : UInt32, index.toNat < s.table.published → (s.table.arena index).lifecycle.generation ≠ 0

theorem Begun.step (begun : Begun s) (sound : Sound s) (fits : IndexFits s event)
    (room : NoWrap s event) (step : Step s event after) : Begun after := by
  have kept : ∀ index : UInt32, index.toNat < s.table.published →
      (after.table.arena index).lifecycle.generation ≠ 0 := by
    intro index present
    have positive := UInt32.pos_iff_ne_zero.mpr (begun index present)
    exact UInt32.pos_iff_ne_zero.mp (moved_on positive sound room step)
  intro index present
  rcases published_step sound.grown.fresh step with same | ⟨execution, parent, pid, rfl, names,
    grown⟩
  · exact kept index (same ▸ present)
  · by_cases old : index.toNat < s.table.published
    · exact kept index old
    · -- the one new slot is the one just occupied
      have last : index = slotIndex pid := by
        rw [names]
        apply UInt32.toNat_inj.mp
        have small := index.toNat_lt
        simp only [UInt32.toNat_ofNat']
        omega
      have word := spawn_known sound.grown.fresh step
      rw [last]
      exact ((sound.step fits step).slots _).generation (by simp [word])

theorem reachable_pristine
    (run : Run Step (fun _ s event => IndexFits s event ∧ NoWrap s event) Sys.init history s) :
    Sound s ∧ Begun s ∧ ∀ index, Pristine history index (s.table.arena index) := by
  induction run with
  | nil => exact ⟨Sound.init, fun _ present => absurd present (Nat.not_lt_zero _), fun _ _ _ => rfl⟩
  | snoc _ admitted step ih =>
    obtain ⟨sound, begun, pristine⟩ := ih
    exact ⟨sound.step admitted.1 step, begun.step sound admitted.1 admitted.2 step,
      fun index => (pristine index).step (step_slot sound.grown.fresh step index)⟩

/-- A spawn on a slot whose next PID nobody used starts from a clean slot. -/
theorem spawn_clean {execution : X} {parent : Option Pid} (sound : Sound s) (begun : Begun s)
    (pristine : ∀ index, Pristine history index (s.table.arena index))
    (fits : IndexFits s (.spawn execution parent (.ok pid)))
    (step : Step s (.spawn execution parent (.ok pid)) after) (unused : Unused history pid) :
    (after.table.arena (slotIndex pid)).hot = .default ∧
      (after.table.arena (slotIndex pid)).priority = Priority.default.index ∧
      (after.table.arena (slotIndex pid)).logBusy = 0 := by
  have moved := step_slot sound.grown.fresh step (slotIndex pid)
  have vacant := sound.spawn_step fits step
  have clean : generationOf pid = max (s.table.arena (slotIndex pid)).lifecycle.generation 1 →
      (s.table.arena (slotIndex pid)).hot = .default := by
    intro next
    by_cases absent : s.table.published ≤ (slotIndex pid).toNat
    · rw [sound.grown.fresh _ absent]
      rfl
    · have started := begun (slotIndex pid) (Nat.lt_of_not_le absent)
      rw [max_one_of_ne_zero started] at next
      refine pristine (slotIndex pid) vacant ?_
      rw [← next, encode_halves]
      exact unused
  cases moved with
  | same _ _ unborn => exact absurd rfl (unborn _ _ _ rfl)
  | occupied _ generation _ hot _ _ scalars =>
    rw [hot]
    exact ⟨clean generation, scalars⟩

/-- A block through a stale PID changes no slot and leaves nothing to be done that would. -/
theorem stale_block (fresh : Fresh t) (call : Call M)
    (stale : ¬ (t.slotOf call.pid).Current call.pid) :
    (t.perform call).2.arena = t.arena ∧
      ∀ item ∈ call.follows (t.perform call).1, ∃ caller, item = .evictCallWaiter caller := by
  have isLocal := perform_local t call (fresh _)
  have notAlive : ¬ (t.slotOf call.pid).Alive call.pid :=
    fun alive => stale alive.current
  constructor
  · funext index
    by_cases here : index = slotIndex call.pid
    · rw [here]
      exact touch_stale isLocal.touch stale
    · exact isLocal.frame index here
  · have effect := touch_effect isLocal.touch
    generalize (t.perform call).1 = outcome at *
    cases effect with
    | quiet _ _ _ follows => exact follows
    | claimed _ current | released _ current => exact absurd current stale
    | releaseMissed =>
      intro item member
      cases member
    | marked _ alive | reclaimed _ alive => exact absurd alive notAlive

/-- The operations made of several blocks, run through a stale PID. -/
theorem stale_operation (fresh : Fresh t) (stale : ¬ (t.slotOf pid).Current pid) :
    (t.kill pid).2.arena = t.arena ∧ (t.markDeadIfAlive pid).2.arena = t.arena ∧
      (t.afterSwitch pid).2.arena = t.arena ∧ (t.clearAwaitingReply pid).arena = t.arena ∧
      ∀ token deadline callee, (t.takeReplyOrPark pid token deadline callee).2.arena = t.arena := by
  refine ⟨?_, ?_, ?_, ?_, ?_⟩
  · have same : (t.death pid (some .killed)).2.arena = t.arena :=
      (stale_block fresh (.kill pid) stale).1
    unfold ProcessTable.kill
    generalize t.death pid (some .killed) = result at same
    obtain ⟨_ | staged, table⟩ := result
    · exact same
    · exact (deathPass_arena _ _ _).trans same
  · have same : (t.death pid none).2.arena = t.arena :=
      (stale_block fresh (.markDeadIfAlive pid) stale).1
    unfold ProcessTable.markDeadIfAlive
    generalize t.death pid none = result at same
    obtain ⟨_ | staged, table⟩ := result
    · exact same
    · exact (deathPass_arena _ _ _).trans same
  · have block := stale_block fresh (.afterSwitch pid) stale
    change (t.release pid).2.arena = t.arena ∧ ∀ item ∈
      (Call.afterSwitch pid : Call M).follows (.released (t.release pid).1 : Outcome X M),
        _ at block
    unfold ProcessTable.afterSwitch
    generalize t.release pid = result at block
    obtain ⟨_ | _ | wake, table⟩ := result
    · exact block.1
    · obtain ⟨caller, impossible⟩ := block.2 (.reclaim pid) (Multiset.mem_singleton_self _)
      cases impossible
    · exact block.1
  · exact (stale_block fresh (.clearAwaitingReply pid) stale).1
  · intro token deadline callee
    have arena := ensureCallWaiter_arena t pid callee token
    have published : (t.ensureCallWaiter pid callee token).published = t.published := by
      unfold ProcessTable.ensureCallWaiter
      split <;> rfl
    have still : Fresh (t.ensureCallWaiter pid callee token) := by
      intro index absent
      rw [arena]
      exact fresh index (published ▸ absent)
    have same := (stale_block still (.takeReplyOrPark pid token deadline callee)
      (by rw [ProcessTable.slotOf, arena]; exact stale)).1
    change ((t.ensureCallWaiter pid callee token).takeReplyOrParkBlock pid token deadline
      callee).2.arena = _ at same
    rw [arena] at same
    unfold ProcessTable.takeReplyOrPark
    dsimp only
    generalize (t.ensureCallWaiter pid callee token).takeReplyOrParkBlock pid token deadline
      callee = result at same
    obtain ⟨park, table⟩ := result
    cases park <;> exact same

/-- Through a PID whose process is reclaimed no operation changes any slot, block by block
or run as a whole; and a process spawned under a PID nobody used before starts with an
empty mailbox, no awaited reply, no deadline, reason `Normal`, no crash capture, the
default priority and a clear log mark. -/
theorem stale_handles_inert {history : List (Event X M)}
    (run : Run Step (fun _ s event => IndexFits s event ∧ NoWrap s event) Sys.init history s) :
    (∀ pid, Issued history pid → ¬ Houses (s.table.arena (slotIndex pid)) pid →
      (∀ call : Call M, call.pid = pid → (s.table.perform call).2.arena = s.table.arena ∧
        ∀ item ∈ call.follows (s.table.perform call).1, ∃ caller, item = .evictCallWaiter caller) ∧
      (s.table.kill pid).2.arena = s.table.arena ∧
      (s.table.markDeadIfAlive pid).2.arena = s.table.arena ∧
      (s.table.afterSwitch pid).2.arena = s.table.arena ∧
      (s.table.clearAwaitingReply pid).arena = s.table.arena ∧
      ∀ token deadline callee,
        (s.table.takeReplyOrPark pid token deadline callee).2.arena = s.table.arena) ∧
    ∀ execution parent pid after, Step s (.spawn execution parent (.ok pid)) after →
      IndexFits s (.spawn execution parent (.ok pid)) → Unused history pid →
        (after.table.arena (slotIndex pid)).hot = .default ∧
          (after.table.arena (slotIndex pid)).priority = Priority.default.index ∧
          (after.table.arena (slotIndex pid)).logBusy = 0 := by
  obtain ⟨sound, begun, pristine⟩ := reachable_pristine run
  constructor
  · intro pid issued gone
    have stale : ¬ (s.table.arena (slotIndex pid)).Current pid := by
      intro current
      rcases reachable_known (fun _ _ _ admitted => admitted) run issued with
        ⟨-, occupied⟩ | larger
      · exact gone ⟨current, occupied⟩
      · rw [current] at larger
        exact absurd larger (UInt32.lt_irrefl _)
    refine ⟨?_, stale_operation sound.grown.fresh stale⟩
    rintro call rfl
    exact stale_block sound.grown.fresh call stale
  · intro execution parent pid after step fits unused
    exact spawn_clean sound begun pristine fits step unused

/-- A process is killed off the cpu and its slot is taken again: its PID reaches nothing. -/
theorem stale_handles_inert_reused :
    ∃ (history : List (Event Unit Envelope)) (s : Sys Unit Envelope),
      Run Step (fun _ s event => IndexFits s event ∧ NoWrap s event) Sys.init history s ∧
      Issued history firstPid ∧ Houses (s.table.arena 0) (encode 0 2) ∧
      ¬ Houses (s.table.arena (slotIndex firstPid)) firstPid ∧
      (s.table.perform (.deliver firstPid (letter 1))).2.arena = s.table.arena := by
  have start : Run Step (fun _ s event => IndexFits s event ∧ NoWrap s event)
      (Sys.init : Sys Unit Envelope) [] Sys.init := .nil
  have spawned := run_spawn start () none ⟨.inr (by decide), trivial⟩
  have killed := run_call spawned (.kill firstPid) ⟨trivial, fun _ => by decide⟩
  have passed := run_deathPass killed firstPid (some .killed)
    ⟨.killed, none, 0, some ⟨some (), .empty⟩⟩ 0 rfl ⟨trivial, trivial⟩
  have reused := run_spawn passed () none ⟨.inl (by decide), trivial⟩
  have inert := (stale_handles_inert reused).1 firstPid ⟨(), none, mem_cons_self⟩
    (fun houses => absurd houses.1 (by decide))
  exact ⟨_, _, reused, ⟨(), none, mem_cons_self⟩, ⟨rfl, by decide⟩,
    fun houses => absurd houses.1 (by decide), (inert.1 (.deliver firstPid (letter 1)) rfl).1⟩

/-- With every `u32` index live again after a reuse, the next spawn is handed the reused
slot of a reclaimed process, under its occupant's PID and over its occupant's mail. -/
theorem overrun_starts_dirty :
    ∃ (history : List (Event Unit Envelope)) (s after : Sys Unit Envelope) (pid : Pid),
      Run Step (fun _ s event => NoWrap s event) Sys.init history s ∧
      ¬ Houses (s.table.arena (slotIndex firstPid)) firstPid ∧
      Step s (.spawn () none (.ok pid)) after ∧ slotIndex pid = slotIndex firstPid ∧
      (after.table.arena (slotIndex pid)).hot.mailbox.business = [letter 1] := by
  obtain ⟨history, booted⟩ := boot_run (fun _ s event => NoWrap s event)
    (fun _ _ _ _ _ _ => trivial) (2 ^ 32) (Nat.le_refl _)
  have killed := run_call booted (.kill firstPid) (fun _ => by decide)
  have passed := run_deathPass killed firstPid (some .killed)
    ⟨.killed, none, 0, some ⟨some (), .empty⟩⟩ 0 rfl trivial
  have reused := run_spawn passed () none trivial
  have sent := run_call reused (.deliver (encode 0 2) (letter 1)) trivial
  exact ⟨_, _, _, encode 0 2, sent, fun houses => absurd houses.1 (by decide),
    .spawn () none, rfl, rfl⟩

end

/-! ## Valid PIDs -/

/-- A spawn opens a generation that is positive in the high half of an `i64`. -/
def GenerationFits (s : Sys X M) : Event X M → Prop
  | .spawn _ _ (.ok pid) => (s.table.arena (slotIndex pid)).lifecycle.generation.toNat < 2 ^ 31
  | _ => True

/-- The PID a label hands out. -/
def returnedPid : Event X M → Option Pid
  | .spawn _ _ (.ok pid) => some pid
  | _ => none

theorem issued_iff : Issued history pid ↔ pid ∈ history.filterMap returnedPid := by
  rw [mem_filterMap]
  constructor
  · rintro ⟨execution, parent, member⟩
    exact ⟨_, member, rfl⟩
  · rintro ⟨event, member, returned⟩
    unfold returnedPid at returned
    split at returned
    · cases returned
      exact ⟨_, _, member⟩
    · cases returned

/-- An occupant's PID is positive and larger than any index. -/
theorem Sound.large (sound : Sound s) (current : (s.table.arena (slotIndex pid)).Current pid)
    (occupied : (s.table.arena (slotIndex pid)).lifecycle.state ≠ none)
    (small : (s.table.arena (slotIndex pid)).lifecycle.generation.toNat < 2 ^ 31) :
    2 ^ 32 ≤ pid.toInt := by
  have started := (sound.slots _).generation occupied
  have positive := UInt32.lt_iff_toNat_lt.mp (UInt32.pos_iff_ne_zero.mpr started)
  rw [← encode_of_current current, toInt_encode small]
  omega

/-- What a run whose generations fit keeps: occupants have positive generations, and the
PIDs handed out are accounted for and were all different. -/
structure Numbered (history : List (Event X M)) (s : Sys X M) : Prop where
  sound : Sound s
  young : ∀ index, (s.table.arena index).lifecycle.state ≠ none →
    (s.table.arena index).lifecycle.generation.toNat < 2 ^ 31
  known : ∀ pid, Issued history pid →
    Known (generationOf pid) (s.table.arena (slotIndex pid)).lifecycle
  valid : ∀ pid, Issued history pid → 2 ^ 32 ≤ pid.toInt
  distinct : (history.filterMap returnedPid).Nodup

theorem Numbered.init : Numbered ([] : List (Event X M)) Sys.init where
  sound := Sound.init
  young := fun _ occupied => absurd rfl occupied
  known := by
    rintro pid ⟨_, _, member⟩
    cases member
  valid := by
    rintro pid ⟨_, _, member⟩
    cases member
  distinct := nodup_nil

section
variable [Message M]

/-- Who occupies a slot was spawned under the PID the slot's word packs. -/
theorem reachable_issued {admits : List (Event X M) → Sys X M → Event X M → Prop}
    (run : Run Step admits Sys.init history s) (index : UInt32)
    (occupied : (s.table.arena index).lifecycle.state ≠ none) :
    Issued history (encode index (s.table.arena index).lifecycle.generation) := by
  induction run with
  | nil => exact absurd rfl occupied
  | @snoc _ s after event run _ step issued =>
    have moved := step_slot (reachable_grown run).fresh step index
    generalize (after.table.arena index) = now at moved occupied ⊢
    cases moved with
    | same _ same =>
      rw [same] at occupied ⊢
      exact (issued occupied).snoc _
    | touched _ touch =>
      rcases touch_word touch with within | ⟨-, -, -, rfl⟩
      · rw [within.generation]
        exact (issued (within.occupied_back occupied)).snoc _
      · exact absurd rfl occupied
    | occupied names _ word =>
      rw [word, ← names, encode_halves]
      exact ⟨_, _, mem_append_right _ (mem_singleton_self _)⟩
    | vacated _ _ empty =>
      rw [empty] at occupied
      exact absurd rfl occupied

/-- A spawn hands out a PID that no process had before it. -/
theorem spawn_unissued {execution : X} {parent : Option Pid} (sound : Sound s)
    (fits : IndexFits s (.spawn execution parent (.ok pid)))
    (step : Step s (.spawn execution parent (.ok pid)) after) :
    ¬ Known (generationOf pid) (s.table.slotOf pid).lifecycle := by
  have vacant := sound.spawn_step fits step
  have moved := step_slot sound.grown.fresh step (slotIndex pid)
  rintro (⟨-, occupied⟩ | larger)
  · exact occupied vacant
  · generalize label : Event.spawn execution parent (.ok pid) = event at moved
    cases moved with
    | occupied _ generation =>
      cases label
      have least := lt_max_one larger
      rw [← generation] at least
      exact UInt32.lt_irrefl _ least
    | same _ _ unspawned => exact unspawned _ _ _ label.symm rfl
    | _ => cases label

/-- Generations below `2 ^ 31` are far from wrapping. -/
theorem Numbered.noWrap (numbered : Numbered history s) (step : Step s event after) :
    NoWrap s event := by
  unfold NoWrap
  split
  · rename_i call staged
    have moved := step_slot numbered.sound.grown.fresh step (slotIndex call.pid)
    generalize label : Event.call call (.died (some staged)) = event at moved
    generalize after.table.arena (slotIndex call.pid) = now at moved
    generalize here : s.table.arena (slotIndex call.pid) = slot at moved ⊢
    cases moved with
    | touched _ touch =>
      cases label
      have occupied : slot.lifecycle.state ≠ none := by
        cases touch with
        | reclaimed _ alive | marked _ alive => exact alive_occupied alive
      have small := numbered.young _ (by rw [here]; exact occupied)
      rw [here] at small
      omega
    | same apart => exact absurd rfl (apart _ _ label.symm)
    | _ => cases label
  · have word := numbered.sound.reclaim_step step
    have small := numbered.young _ (by rw [word]; simp)
    omega
  · trivial

theorem Numbered.step (numbered : Numbered history s)
    (fits : IndexFits s event) (small : GenerationFits s event) (step : Step s event after) :
    Numbered (history ++ [event]) after := by
  have sound := numbered.sound.step fits step
  have room := numbered.noWrap step
  have known : ∀ pid, Issued (history ++ [event]) pid →
      Known (generationOf pid) (after.table.slotOf pid).lifecycle :=
    fun pid issued => issued.known_step (numbered.known pid) numbered.sound fits room step
  have young : ∀ index, (after.table.arena index).lifecycle.state ≠ none →
      (after.table.arena index).lifecycle.generation.toNat < 2 ^ 31 := by
    intro index occupied
    have moved := step_slot numbered.sound.grown.fresh step index
    have before := numbered.young index
    generalize (after.table.arena index) = now at moved occupied ⊢
    generalize here : (s.table.arena index) = slot at moved before
    cases moved with
    | same _ same =>
      rw [same] at occupied ⊢
      exact before occupied
    | touched _ touch =>
      rcases touch_word touch with within | ⟨-, -, -, rfl⟩
      · rw [within.generation]
        exact before (within.occupied_back occupied)
      · exact absurd rfl occupied
    | occupied names generation word =>
      change (s.table.arena (slotIndex _)).lifecycle.generation.toNat < 2 ^ 31 at small
      rw [names, here] at small
      rw [word, generation]
      exact toNat_max_one_lt small (by decide)
    | vacated _ _ empty =>
      rw [empty] at occupied
      exact absurd rfl occupied
  refine ⟨sound, young, known, ?_, ?_⟩
  · intro pid issued
    rcases issued.of_snoc with old | ⟨execution, parent, rfl⟩
    · exact numbered.valid pid old
    · have word := spawn_known numbered.sound.grown.fresh step
      have occupied : (after.table.slotOf pid).lifecycle.state ≠ none := by
        rw [word]
        simp
      exact sound.large (by rw [Slot.Current, word]) occupied (young _ occupied)
  · rw [filterMap_append]
    cases returned : returnedPid event with
    | none =>
      rw [filterMap_cons_none returned]
      simpa using numbered.distinct
    | some =>
      rw [filterMap_cons_some returned, filterMap_nil, ← concat_eq_append]
      refine numbered.distinct.concat ?_
      intro again
      unfold returnedPid at returned
      split at returned
      · cases returned
        exact spawn_unissued numbered.sound fits step (numbered.known _ (issued_iff.mpr again))
      · cases returned

/-- In every run that neither outgrows the indices nor opens a generation of `2 ^ 31` or
more: every PID a spawn returned is at least `2 ^ 32`, no two are the same, and the PID of
a process on a worker is taken for a process by the entry points that ask. -/
theorem pids_valid {history : List (Event X M)}
    (run : Run Step (fun _ s event => IndexFits s event ∧ GenerationFits s event)
      Sys.init history s) :
    (∀ pid, Issued history pid → 2 ^ 32 ≤ pid.toInt ∧ pid ≠ 0 ∧ pid ≠ hostPid) ∧
    (history.filterMap returnedPid).Nodup ∧
    ∀ pid ∈ s.claims, spawnParent pid = some pid ∧ kojaRtYieldCheck pid = .yields ∧
      kojaRtReductionsGrant s.table pid = max (s.table.reductionsLeft pid) 1 := by
  have numbered : Numbered history s := by
    apply run.invariant Numbered Numbered.init
    intro history s event after numbered admitted step
    exact numbered.step admitted.1 admitted.2 step
  obtain ⟨-, claimed⟩ := reachable_claimed (fun _ _ _ admitted => admitted.1) run
  refine ⟨?_, numbered.distinct, ?_⟩
  · intro pid issued
    have large := numbered.valid pid issued
    refine ⟨large, ?_, ?_⟩
    all_goals
      rintro rfl
      exact absurd large (by decide)
  · intro pid member
    obtain ⟨current, held⟩ := claimed.granted pid member
    have occupied : (s.table.arena (slotIndex pid)).lifecycle.state ≠ none := by
      intro vacant
      rw [(numbered.sound.slots _).idle vacant] at held
      cases held
    have large := numbered.sound.large current occupied (numbered.young _ occupied)
    have positive : 0 < pid := by
      rw [Int64.lt_iff_toInt_lt]
      change 0 < pid.toInt
      omega
    have notNegative : ¬ pid < 0 := by
      rw [Int64.lt_iff_toInt_lt]
      change ¬ pid.toInt < 0
      omega
    exact ⟨if_pos positive, if_neg notNegative, if_neg notNegative⟩

/-- A process spawned and resumed is a process to the runtime's entry points. -/
theorem pids_valid_resumed : ∃ (history : List (Event Unit Envelope)) (s : Sys Unit Envelope),
      Run Step (fun _ s event => IndexFits s event ∧ GenerationFits s event) Sys.init history s ∧
      firstPid ∈ s.claims ∧ spawnParent firstPid = some firstPid := by
  have start : Run Step (fun _ s event => IndexFits s event ∧ GenerationFits s event)
      (Sys.init : Sys Unit Envelope) [] Sys.init := .nil
  have spawned := run_spawn start () none ⟨.inr (by decide), by
    change (0 : UInt32).toNat < 2 ^ 31
    decide⟩
  have claimed := run_call spawned (.tryClaim firstPid) ⟨trivial, trivial⟩
  have member : firstPid ∈ (((Sys.init : Sys Unit Envelope).spawn () none).perform
      (.tryClaim firstPid)).claims := by
    change firstPid ∈ firstPid ::ₘ (0 : Multiset Pid)
    exact Multiset.mem_cons_self _ _
  exact ⟨_, _, claimed, member, ((pids_valid claimed).2.2 firstPid member).1⟩

/-- The PID of the first slot's first generation that does not fit. -/
def negativePid : Pid := encode 0 (2 ^ 31).toUInt32

/-- After `2 ^ 31 - 1` reuses of one slot a spawn returns a negative PID, and its process,
on a worker, passes for the host thread. And with every `u32` index live, a spawn returns
a PID a second time. -/
theorem pid_invalid : (∃ (history : List (Event Unit Envelope)) (s : Sys Unit Envelope),
      Run Step (fun _ _ _ => True) Sys.init history s ∧ Issued history negativePid ∧
      negativePid < 0 ∧ negativePid ∈ s.claims ∧ spawnParent negativePid = none ∧
      kojaRtYieldCheck negativePid = .grant Priority.normal.budget) ∧
    ∃ (history : List (Event Unit Envelope)) (s after : Sys Unit Envelope),
      Run Step (fun _ _ _ => True) Sys.init history s ∧ Issued history firstPid ∧
      Step s (.spawn () none (.ok firstPid)) after := by
  constructor
  · obtain ⟨history, run⟩ := cycle_run (fun _ _ _ => True) (fun _ _ _ => trivial)
      (fun _ _ _ _ => trivial) (fun _ _ _ _ _ _ => trivial) (2 ^ 31 - 1) (by decide)
    have issued := reachable_issued run 0 (by decide)
    have claimed := run_call run (.tryClaim negativePid) trivial
    refine ⟨_, _, claimed, issued.snoc _, by decide, ?_, by decide, by decide⟩
    change negativePid ∈ negativePid ::ₘ (0 : Multiset Pid)
    exact Multiset.mem_cons_self _ _
  · obtain ⟨history, run⟩ := boot_run (fun _ _ _ => True) (fun _ _ _ _ _ _ => trivial) (2 ^ 32)
      (Nat.le_refl _)
    exact ⟨_, _, _, run, reachable_issued run 0 (by decide), .spawn () none⟩

end

end Koja.Guarantees.Runtime
