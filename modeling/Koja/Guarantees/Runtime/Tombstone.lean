import Koja.Guarantees.Runtime.Boundary
import Koja.Guarantees.Runtime.Faults

/-!
# Tombstones and legal edges

Every block moves a slot's state along at most one edge of `is_legal_transition`
within a generation, and a dead slot is left by reclamation alone, which moves the
generation on. So a generation that was once dead is never live again, as long as
generations do not wrap.
-/
namespace Koja.Guarantees.Runtime
open Koja.Lib Koja.Source.Runtime

variable {X M : Type} {before after : WordState}

/-! ## Edges -/

/-- What a step may do to a lifecycle word: one legal edge within the generation, or
the opening of an occupancy. -/
structure LegalEdge (before after : WordState) : Prop where
  edge : after.generation = before.generation → ∀ source, before.state = some source →
    ∃ target, after.state = some target ∧ (target = source ∨ isLegalTransition source target = true)
  opens : before.state = none → after.state = none ∨ after.state = some .created

/-- Same generation, and the same state or one legal edge on. -/
structure WithinGeneration (before after : WordState) : Prop where
  generation : after.generation = before.generation
  edge : after.state = before.state ∨ ∃ source target, before.state = some source ∧
    after.state = some target ∧ isLegalTransition source target = true

theorem WithinGeneration.of_state
    (generation : after.generation = before.generation) (state : after.state = before.state) :
    WithinGeneration before after :=
  ⟨generation, .inl state⟩

theorem WithinGeneration.of_edge {source target : ProcessState} {onCpu : Bool}
    (state : before.state = some source) (legal : isLegalTransition source target = true) :
    WithinGeneration before ⟨before.generation, onCpu, some target⟩ :=
  ⟨rfl, .inr ⟨source, target, state, rfl, legal⟩⟩

theorem WithinGeneration.occupied_back
    (within : WithinGeneration before after) (occupied : after.state ≠ none) :
    before.state ≠ none := by
  intro vacant
  rcases within.edge with kept | ⟨source, target, state, -⟩
  · exact occupied (kept.trans vacant)
  · rw [vacant] at state
    cases state

theorem WithinGeneration.legal (within : WithinGeneration before after) :
    LegalEdge before after where
  edge := by
    intro _ source state
    rcases within.edge with same | ⟨source, target, current, after', legal⟩
    · exact ⟨source, same.trans state, .inl rfl⟩
    · rw [state, Option.some.injEq] at current
      subst current
      exact ⟨target, after', .inr legal⟩
  opens := by
    intro vacant
    rcases within.edge with same | ⟨source, target, occupied, -⟩
    · exact .inl (same.trans vacant)
    · rw [vacant] at occupied
      cases occupied

theorem legal_vacated (word : WordState) (occupied : word.state ≠ none) :
    LegalEdge word (LifecycleWord.vacate word) where
  edge := by
    intro same
    have bumped : word.generation + 1 ≠ word.generation := by
      intro wrapped
      have numbers := congrArg UInt32.toNat wrapped
      change (word.generation.toNat + 1) % 2 ^ 32 = _ at numbers
      omega
    exact absurd same bumped
  opens := fun vacant => absurd vacant occupied

section

variable {pid : Pid} {slot : Slot X M} {s after : Sys X M} {event : Event X M}
  {generation index : UInt32} {history : List (Event X M)}

theorem posted_within [Message M] {after : Slot X M} {message : M} {wake : Option Wake}
    (posted : Posted pid slot message wake after) :
    WithinGeneration slot.lifecycle after.lifecycle := by
  cases posted with
  | quiet => exact .of_state rfl rfl
  | waking wakes =>
    obtain ⟨state, ⟨rfl, -⟩ | ⟨rfl, -⟩⟩ := wakeSource_eq_some wakes
    · exact .of_edge state rfl
    · exact .of_edge state rfl

/-- A call moves the word within its generation, or kills an idle process and vacates
its slot. -/
theorem touch_word [Message M] {t : ProcessTable X M} {call : Call M} {outcome : Outcome X M}
    {after : Slot X M} (touch : Touch t call outcome slot after) :
    WithinGeneration slot.lifecycle after.lifecycle ∨
      ∃ forced, outcome = .died (some (slot.staged forced (some slot.resources))) ∧
        slot.Alive call.pid ∧ after = slot.vacated := by
  cases touch with
  | reclaimed _ alive => exact .inr ⟨_, rfl, alive, rfl⟩
  | delivered _ posted | replied _ _ posted => exact .inl (posted_within posted)
  | claimed _ _ ready =>
    left
    rcases ready with state | state
    · exact .of_edge state rfl
    · exact .of_edge state rfl
  | parked running | ioParked running | receiveParked running | replyParked running
  | yielded running => exact .inl (.of_edge running.2 rfl)
  | expired parked parkable =>
    left
    rcases parkable with rfl | rfl
    · exact .of_edge parked.2 rfl
    · exact .of_edge parked.2 rfl
  | ioPromoted parked | callPromoted parked => exact .inl (.of_edge parked.2 rfl)
  | marked _ alive =>
    left
    obtain ⟨-, state, occupied, live⟩ := Slot.alive_iff.mp alive
    refine .of_edge occupied ?_
    cases state <;> first | rfl | exact absurd rfl live
  | scalarSet sets =>
    obtain ⟨word, -⟩ := scalarUpdate_frame sets slot
    rw [word]
    exact .inl (.of_state rfl rfl)
  | _ => exact .inl (.of_state rfl rfl)

/-- No slot's generation is bumped past `u32::MAX`. -/
def NoWrap (s : Sys X M) : Event X M → Prop
  | .call call (.died (some staged)) => staged.reclaim.isSome = true →
      (s.table.arena (slotIndex call.pid)).lifecycle.generation.toNat + 1 < 2 ^ 32
  | .reclaim pid _ => (s.table.arena (slotIndex pid)).lifecycle.generation.toNat + 1 < 2 ^ 32
  | _ => True

/-- What a step does to a word: it stays within its generation, is vacated, which bumps the
generation, or is opened for a new process. -/
inductive WordStep (fits room : Prop) (before after : WordState) : Prop
  | within (within : WithinGeneration before after)
  | vacated (occupied : before.state ≠ none) (bound : room → before.generation.toNat + 1 < 2 ^ 32)
      (bumped : after = LifecycleWord.vacate before)
  | opened (vacant : fits → before.state = none)
      (generation : after.generation = max before.generation 1)
      (created : after.state = some .created)

theorem step_word [Message M] (sound : Sound s) (step : Step s event after) (index : UInt32) :
    WordStep (IndexFits s event) (NoWrap s event) (s.table.arena index).lifecycle
      (after.table.arena index).lifecycle := by
  have moved := step_slot sound.grown.fresh step index
  generalize (after.table.arena index) = slotAfter at moved ⊢
  generalize here : (s.table.arena index) = slot at moved ⊢
  cases moved with
  | same _ same =>
    rw [same]
    exact .within (.of_state rfl rfl)
  | touched names touch =>
    rcases touch_word touch with within | ⟨forced, rfl, alive, rfl⟩
    · exact .within within
    · refine .vacated (alive_occupied alive) (fun room => ?_) rfl
      have bound := room rfl
      rw [names, here] at bound
      exact bound
  | occupied names opened word =>
    refine .opened (fun fits => ?_) (by rw [word, opened]) (by rw [word])
    have vacant := sound.spawn_step fits step
    rw [names, here] at vacant
    exact vacant
  | vacated names _ empty =>
    have word := sound.reclaim_step step
    rw [names, here] at word
    refine .vacated (by simp [word]) (fun room => ?_) (by rw [empty]; rfl)
    change (s.table.arena _).lifecycle.generation.toNat + 1 < 2 ^ 32 at room
    rw [names, here] at room
    exact room

theorem step_legal [Message M] (sound : Sound s) (fits : IndexFits s event)
    (step : Step s event after)
    (index : UInt32) :
    LegalEdge (s.table.arena index).lifecycle (after.table.arena index).lifecycle := by
  cases step_word sound step index with
  | within within => exact within.legal
  | vacated occupied _ bumped =>
    rw [bumped]
    exact legal_vacated _ occupied
  | opened vacant _ created =>
    refine ⟨fun _ source occupied => ?_, fun _ => .inr created⟩
    rw [vacant fits] at occupied
    cases occupied

/-! ## Tombstones -/

/-- The word of a slot whose `generation` has died: dead still, or of a larger
generation. -/
def Buried (generation : UInt32) (word : WordState) : Prop :=
  (word.generation = generation ∧ word.state = some .dead) ∨ generation < word.generation

theorem bumped_lt (room : generation.toNat + 1 < 2 ^ 32) : generation < generation + 1 := by
  change _ < (generation.toNat + 1) % 2 ^ 32
  rw [Nat.mod_eq_of_lt room]
  exact Nat.lt_succ_self _

theorem moved_on [Message M] (larger : generation < (s.table.arena index).lifecycle.generation)
    (sound : Sound s) (room : NoWrap s event) (step : Step s event after) :
    generation < (after.table.arena index).lifecycle.generation := by
  cases step_word sound step index with
  | within within =>
    rw [within.generation]
    exact larger
  | vacated _ bound bumped =>
    rw [bumped]
    exact UInt32.lt_trans larger (bumped_lt (bound room))
  | opened _ opened =>
    rw [opened]
    exact lt_max_one larger

/-- An occupied slot stays within its generation, or moves on. -/
theorem occupied_step [Message M] (occupied : (s.table.arena index).lifecycle.state ≠ none)
    (sound : Sound s)
    (fits : IndexFits s event) (room : NoWrap s event) (step : Step s event after) :
    WithinGeneration (s.table.arena index).lifecycle (after.table.arena index).lifecycle ∨
      (s.table.arena index).lifecycle.generation <
        (after.table.arena index).lifecycle.generation := by
  cases step_word sound step index with
  | within within => exact .inl within
  | vacated _ bound bumped =>
    rw [bumped]
    exact .inr (bumped_lt (bound room))
  | opened vacant => exact absurd (vacant fits) occupied

theorem Buried.step [Message M] (buried : Buried generation (s.table.arena index).lifecycle)
    (sound : Sound s)
    (fits : IndexFits s event) (room : NoWrap s event) (step : Step s event after) :
    Buried generation (after.table.arena index).lifecycle := by
  rcases buried with ⟨rfl, dead⟩ | larger
  · have occupied : (s.table.arena index).lifecycle.state ≠ none := by simp [dead]
    rcases occupied_step occupied sound fits room step with within | larger
    · refine .inl ⟨within.generation, ?_⟩
      rcases within.edge with kept | ⟨source, target, state, -, legal⟩
      · exact kept.trans dead
      · rw [dead, Option.some.injEq] at state
        subst state
        cases target <;> cases legal
    · exact .inr larger
  · exact .inr (moved_on larger sound room step)

theorem Buried.not_alive (buried : Buried (generationOf pid) slot.lifecycle) :
    ¬ slot.Alive pid := by
  intro alive
  obtain ⟨current, state, occupied, live⟩ := Slot.alive_iff.mp alive
  rcases buried with ⟨-, dead⟩ | larger
  · rw [dead] at occupied
    cases occupied
    exact live rfl
  · have same : slot.lifecycle.generation = generationOf pid := current
    rw [same] at larger
    exact absurd larger (UInt32.lt_irrefl _)

/-- The word of a slot whose `generation` has been handed out: occupied at it, or of a
larger generation. -/
def Known (generation : UInt32) (word : WordState) : Prop :=
  (word.generation = generation ∧ word.state ≠ none) ∨ generation < word.generation

/-- A PID that was handed out and is not alive never will be. -/
theorem Known.buried (known : Known (generationOf pid) slot.lifecycle) (down : ¬ slot.Alive pid) :
    Buried (generationOf pid) slot.lifecycle := by
  rcases known with ⟨same, occupied⟩ | larger
  · left
    refine ⟨same, ?_⟩
    cases state : slot.lifecycle.state with
    | none => exact absurd state occupied
    | some found =>
      by_contra notDead
      refine down (Slot.alive_iff.mpr ⟨same, found, state, ?_⟩)
      rintro rfl
      exact notDead rfl
  · exact .inr larger

theorem Known.of_current (current : slot.Current pid) (occupied : slot.lifecycle.state ≠ none) :
    Known (generationOf pid) slot.lifecycle :=
  .inl ⟨current, occupied⟩

theorem Known.step [Message M] (known : Known generation (s.table.arena index).lifecycle)
    (sound : Sound s)
    (fits : IndexFits s event) (room : NoWrap s event) (step : Step s event after) :
    Known generation (after.table.arena index).lifecycle := by
  rcases known with ⟨rfl, occupied⟩ | larger
  · rcases occupied_step occupied sound fits room step with within | larger
    · refine .inl ⟨within.generation, ?_⟩
      rcases within.edge with kept | ⟨source, target, -, moved, -⟩
      · rw [kept]
        exact occupied
      · simp [moved]
    · exact .inr larger
  · exact .inr (moved_on larger sound room step)

/-- A PID known to be handed out is alive after a step only if it was before. -/
theorem Known.alive_back [Message M]
    (known : Known (generationOf pid) (s.table.slotOf pid).lifecycle)
    (sound : Sound s) (fits : IndexFits s event) (room : NoWrap s event)
    (step : Step s event after) (alive : (after.table.slotOf pid).Alive pid) :
    (s.table.slotOf pid).Alive pid := by
  by_contra down
  exact ((known.buried down).step sound fits room step).not_alive alive

/-- Some spawn of the history returned `pid`. -/
def Issued (history : List (Event X M)) (pid : Pid) : Prop :=
  ∃ execution parent, .spawn execution parent (.ok pid) ∈ history

theorem Issued.snoc (issued : Issued history pid) (event : Event X M) :
    Issued (history ++ [event]) pid := by
  obtain ⟨execution, parent, member⟩ := issued
  exact ⟨execution, parent, List.mem_append_left _ member⟩

theorem Issued.of_snoc (issued : Issued (history ++ [event]) pid) :
    Issued history pid ∨ ∃ execution parent, event = .spawn execution parent (.ok pid) := by
  obtain ⟨execution, parent, member⟩ := issued
  rcases List.mem_append.mp member with old | new
  · exact .inl ⟨execution, parent, old⟩
  · exact .inr ⟨execution, parent, (List.mem_singleton.mp new).symm⟩

/-- A PID a program can hold: one that a spawn returned, or the invalid PID 0 that
`koja_rt_spawn` returns when it refuses. -/
def Handle (history : List (Event X M)) (pid : Pid) : Prop := Issued history pid ∨ pid = 0

theorem Handle.snoc (handle : Handle history pid) (event : Event X M) :
    Handle (history ++ [event]) pid :=
  handle.imp_left (·.snoc event)

/-- PID 0, which stands for no parent, names nobody. -/
theorem Sound.zero_not_alive (sound : Sound s) :
    ¬ (s.table.arena (slotIndex 0)).Alive (0 : Pid) := by
  intro alive
  have generation := (sound.slots _).generation (alive_occupied alive)
  exact generation alive.current

/-- What a handle names is alive after a step only if it was before. -/
theorem Handle.alive_back [Message M] (handle : Handle history pid) (known : Issued history pid →
      Known (generationOf pid) (s.table.slotOf pid).lifecycle) (sound : Sound s)
    (fits : IndexFits s event) (room : NoWrap s event) (step : Step s event after)
    (alive : (after.table.slotOf pid).Alive pid) :
    (s.table.slotOf pid).Alive pid := by
  rcases handle with issued | rfl
  · exact (known issued).alive_back sound fits room step alive
  · exact absurd alive (sound.step fits step).zero_not_alive

theorem spawn_known [Message M] {execution : X} {parent : Option Pid}
    (fresh : Fresh s.table) (step : Step s (.spawn execution parent (.ok pid)) after) :
    (after.table.arena (slotIndex pid)).lifecycle = ⟨generationOf pid, false, some .created⟩ := by
  have moved := step_move fresh step
  generalize label : Event.spawn execution parent (.ok pid) = event at moved
  cases moved with
  | spawned spawned =>
    cases label
    rw [slotIndex_encode, generationOf_encode]
    exact spawned.word
  | quiet plain =>
    subst label
    cases plain
  | _ => cases label

theorem Issued.known_step [Message M] (issued : Issued (history ++ [event]) pid)
    (known : Issued history pid →
      Known (generationOf pid) (s.table.slotOf pid).lifecycle) (sound : Sound s)
    (fits : IndexFits s event) (room : NoWrap s event) (step : Step s event after) :
    Known (generationOf pid) (after.table.slotOf pid).lifecycle := by
  rcases issued.of_snoc with old | ⟨execution, parent, rfl⟩
  · exact (known old).step sound fits room step
  · left
    rw [spawn_known sound.grown.fresh step]
    exact ⟨rfl, by simp⟩

theorem reachable_known [Message M] {admits : List (Event X M) → Sys X M → Event X M → Prop}
    (fits : ∀ history s event, admits history s event → IndexFits s event ∧ NoWrap s event)
    (run : Run Step admits Sys.init history s) (issued : Issued history pid) :
    Known (generationOf pid) (s.table.slotOf pid).lifecycle := by
  induction run with
  | nil =>
    obtain ⟨_, _, member⟩ := issued
    cases member
  | snoc run admitted step known =>
    obtain ⟨fit, room⟩ := fits _ _ _ admitted
    have sound := reachable_sound (fun history s event admitted =>
      (fits history s event admitted).1)
      run
    exact issued.known_step known sound fit room step

/-! ## The guarantee -/

/-- **Tombstones and legal edges.** In every run in which parks come from running
processes, growth hands out fresh indices and no generation wraps: no violation is
counted and no debug assertion fails, every step takes legal edges only, and a
generation found dead is never live in any later state. -/
theorem tombstone_legal_edges [Message M] {history : List (Event X M)} {s : Sys X M} (run : Run Step
      (fun _ s event => ParksRunning s event ∧ IndexFits s event ∧ NoWrap s event)
      Sys.init history s) :
    (s.table.tally.counters.violations = 0 ∧ s.table.tally.debugFailures = 0) ∧
    (∀ event after, ParksRunning s event → IndexFits s event → NoWrap s event →
      Step s event after → ∀ index,
        LegalEdge (s.table.arena index).lifecycle (after.table.arena index).lifecycle) ∧
    ∀ later later', Run Step
        (fun _ s event => ParksRunning s event ∧ IndexFits s event ∧ NoWrap s event)
        s later later' →
      ∀ index, (s.table.arena index).lifecycle.state = some .dead →
        Buried (s.table.arena index).lifecycle.generation (later'.table.arena index).lifecycle := by
  obtain ⟨sound, faults⟩ : Sound s ∧ SameFaults {} s.table.tally := by
    induction run with
    | nil => exact ⟨Sound.init, SameFaults.refl _⟩
    | snoc _ admitted step ih =>
      obtain ⟨parks, fits, -⟩ := admitted
      exact ⟨ih.1.step fits step, ih.2.trans (step_faults ih.1 fits parks step)⟩
  refine ⟨faults, ?_, ?_⟩
  · intro event after _ fits _ step index
    exact step_legal sound fits step index
  · intro later later' onward index dead
    refine (onward.invariant (fun _ now => Sound now ∧
      Buried (s.table.arena index).lifecycle.generation (now.table.arena index).lifecycle)
      ⟨sound, .inl ⟨rfl, dead⟩⟩ ?_).2
    rintro _ now event after ⟨sound, buried⟩ ⟨-, fits, room⟩ step
    exact ⟨sound.step fits step, buried.step sound fits room step⟩

end

/-- A process killed on the cpu is found dead, and its generation stays buried. -/
theorem tombstone_legal_edges_killed :
    ∃ (history : List (Event Unit Envelope)) (s : Sys Unit Envelope),
      Run Step (fun _ s event => ParksRunning s event ∧ IndexFits s event ∧ NoWrap s event)
        Sys.init history s ∧
      (s.table.arena 0).lifecycle = ⟨1, true, some .dead⟩ ∧
      (s.table.tally.counters.violations = 0 ∧ s.table.tally.debugFailures = 0) := by
  have start : Run Step (fun _ s event => ParksRunning s event ∧ IndexFits s event ∧ NoWrap s event)
      (Sys.init : Sys Unit Envelope) [] Sys.init := .nil
  have spawned := run_spawn start () none ⟨trivial, .inr (by decide), trivial⟩
  have claimed := run_call spawned (.tryClaim firstPid)
    ⟨parksRunning_other rfl, trivial, trivial⟩
  have killed := run_call claimed (.kill firstPid)
    ⟨parksRunning_other rfl, trivial, fun taken => Bool.noConfusion taken⟩
  exact ⟨_, _, killed, rfl, (tombstone_legal_edges killed).1⟩

/-- The PID of the first slot's last generation. -/
def lastPid : Pid := encode 0 (2 ^ 32 - 1).toUInt32

/-- With every `u32` index live, a process killed on the cpu is raised again: the next
spawn is handed its slot at the generation that died. And a process that dies at the
last generation leaves its slot to generation 0, so that its PID can be live again. -/
theorem dead_generation_returns :
    (∃ (history later : List (Event Unit Envelope)) (s after : Sys Unit Envelope),
      Run Step (fun _ s event => ParksRunning s event) Sys.init history s ∧
      Run Step (fun _ s event => ParksRunning s event) s later after ∧
      (s.table.arena 0).lifecycle = ⟨1, true, some .dead⟩ ∧
      (after.table.arena 0).lifecycle = ⟨1, false, some .created⟩ ∧
      after.table.tally.debugFailures ≠ 0) ∧
    ∃ (history later : List (Event Unit Envelope)) (s after : Sys Unit Envelope),
      Run Step (fun _ s event => ParksRunning s event) Sys.init history s ∧
      Run Step (fun _ s event => ParksRunning s event) s later after ∧
      (s.table.arena 0).lifecycle = ⟨UInt32.ofNat (2 ^ 32 - 1), true, some .dead⟩ ∧
      (after.table.arena 0).lifecycle = ⟨0, false, none⟩ := by
  constructor
  · obtain ⟨history, run⟩ := boot_run (fun _ s event => ParksRunning s event)
      (fun _ _ _ _ _ _ => trivial) (2 ^ 32) (Nat.le_refl _)
    have claimed := run_call run (.tryClaim firstPid) (parksRunning_other rfl)
    have killed := run_call claimed (.kill firstPid) (parksRunning_other rfl)
    have raised := run_spawn (.nil : Run Step (fun _ s event => ParksRunning s event)
      (((booted (2 ^ 32)).perform (.tryClaim firstPid)).perform (.kill firstPid)) [] _)
      () none trivial
    exact ⟨_, _, _, _, killed, raised, rfl, rfl, by decide⟩
  · obtain ⟨history, run⟩ := cycle_run (fun _ s event => ParksRunning s event)
      (fun _ _ _ => trivial) (fun _ _ _ _ => parksRunning_other rfl)
      (fun _ _ _ _ _ _ => trivial) (2 ^ 32 - 2) (by decide)
    have claimed := run_call run (.tryClaim lastPid) (parksRunning_other rfl)
    have killed := run_call claimed (.kill lastPid) (parksRunning_other rfl)
    have released := run_call (.nil : Run Step (fun _ s event => ParksRunning s event)
      (((cycled (2 ^ 32 - 2 + 1 : Nat).toUInt32 true).perform (.tryClaim lastPid)).perform
        (.kill lastPid)) [] _) (.afterSwitch lastPid) (parksRunning_other rfl)
    have reclaimed := released.extend (@Step.reclaim _ _ _ _ lastPid (.deathPass lastPid
      (some .killed) ⟨.killed, none, 0, none⟩ ::ₘ 0) rfl) trivial
    exact ⟨_, _, _, _, killed, reclaimed, rfl, rfl⟩

end Koja.Guarantees.Runtime
