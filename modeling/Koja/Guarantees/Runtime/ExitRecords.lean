import Koja.Guarantees.Runtime.Messages
import Koja.Guarantees.Runtime.Monitors

/-!
# The record of a death

A slot records the reason of its occupant's death, and the crash capture if there is
one. The registry pass of the death edge and every `monitor` call that comes too late
put what they found there into their notices. The record of a dead slot stands until
the slot is reclaimed unless the process's own exit path, still running, writes it
again; and a capture comes with the reason `Crashed` unless a kill lands between the
capture and the death edge.
-/
namespace Koja.Guarantees.Runtime
open Koja.Lib Koja.Source.Runtime List
open Multiset (mem_cons notMem_zero mem_cons_self)

variable {X M : Type} {s after : Sys X M} {event : Event X M} {forced : Option ExitReason}
  {pid : Pid} {notice : ExitNotice} {crashInfo : Option CrashInfo} {reason : ExitReason}

/-! ## What a step does to the records -/

/-- What a call does to the record of the slot it names. -/
inductive RecordTouch : Call M → Outcome X M → Slot X M → Slot X M → Prop
  | kept {call outcome slot after} (reason : after.hot.exitReason = slot.hot.exitReason)
      (crashInfo : after.hot.crashInfo = slot.hot.crashInfo) : RecordTouch call outcome slot after
  | reason {pid reason outcome slot after} (current : slot.Current pid)
      (hot : after.hot = { slot.hot with exitReason := reason }) :
      RecordTouch (.setExitReason pid reason) outcome slot after
  | crashInfo {pid crashInfo outcome slot after} (current : slot.Current pid)
      (hot : after.hot = { slot.hot with crashInfo := some crashInfo }) :
      RecordTouch (.setCrashInfo pid crashInfo) outcome slot after
  | died {call forced slot} (ends : call.forces = some forced) (alive : slot.Alive call.pid) :
      RecordTouch call (.died (some (slot.staged forced none))) slot (slot.marked forced)
  | reclaimed {call forced slot} (ends : call.forces = some forced) (alive : slot.Alive call.pid) :
      RecordTouch call (.died (some (slot.staged forced (some slot.resources)))) slot slot.vacated

variable {call : Call M} {outcome : Outcome X M} {slot : Slot X M}

theorem touch_record [Message M] {t : ProcessTable X M}
    {now : Slot X M} (touch : Touch t call outcome slot now) :
    RecordTouch call outcome slot now := by
  have posted : ∀ {pid : Pid} {message : M} {wake : Option Wake}, Posted pid slot message wake now →
      now.hot.exitReason = slot.hot.exitReason ∧ now.hot.crashInfo = slot.hot.crashInfo := by
    intro pid message wake posted
    cases posted <;> exact ⟨rfl, rfl⟩
  cases touch with
  | delivered _ posting | replied _ _ posting => exact .kept (posted posting).1 (posted posting).2
  | marked ends alive => exact .died ends alive
  | reclaimed ends alive => exact .reclaimed ends alive
  | hotSet sets current =>
    cases call <;> simp only [Call.hotUpdate, Option.some.injEq, reduceCtorEq] at sets <;>
      subst sets
    case setExitReason => exact .reason current rfl
    case setCrashInfo => exact .crashInfo current rfl
    all_goals exact .kept rfl rfl
  | scalarSet sets =>
    obtain ⟨-, hot, -⟩ := scalarUpdate_frame sets slot
    exact .kept (by rw [hot]) (by rw [hot])
  | _ => exact .kept rfl rfl

/-- What a step leaves to be done that was not before it. -/
inductive Opens (s : Sys X M) : Event X M → Pending X M → Prop
  | follow {call : Call M} {outcome : Outcome X M} {item : Pending X M}
      (left : item ∈ call.follows outcome) : Opens s (.call call outcome) item
  | pushFree {pid : Pid} {reclaim : Reclaim X M} :
      Opens s (.reclaim pid reclaim) (.pushFree pid reclaim)
  | monitorReason {watcher target : Pid} {token : Int64} (down : s.table.isAlive target = false) :
      Opens s (.registerMonitor watcher target token false) (.monitorReason watcher target token)
  | stageNotice {watcher target : Pid} {token : Int64} :
      Opens s (.monitorReason watcher target token)
        (.stageNotice ⟨(s.table.monitorReason target).2, (s.table.monitorReason target).1,
          target, watcher⟩ token)
  | replyHold {caller callee : Pid} {token : Int64} {deadline : Option Instant} :
      Opens s (.ensureCallWaiter caller callee token deadline)
        (.takeReplyOrPark caller token deadline callee)

theorem pending_step [Message M] (step : Step s event after) {item : Pending X M}
    (member : item ∈ after.pending) : item ∈ s.pending ∨ Opens s event item := by
  have trimmed : ∀ {first : Pending X M} {rest : Multiset (Pending X M)},
      s.pending = first ::ₘ rest → item ∈ rest → item ∈ s.pending := by
    intro first rest next member
    rw [next]
    exact Multiset.mem_cons_of_mem member
  cases step with
  | call origin =>
    rcases Multiset.mem_add.mp member with new | old
    · exact .inr (.follow new)
    · left
      cases origin with
      | fresh | batchKill | batchPromote => exact old
      | replyHold next => exact trimmed next old
  | deathPass next | pushFree next | stageNotice next | evictCallWaiter next =>
    exact .inl (trimmed next member)
  | reclaim next | monitorReason next =>
    rcases mem_cons.mp member with rfl | old
    · exact .inr (by constructor)
    · exact .inl (trimmed next old)
  | ensureCallWaiter =>
    rcases mem_cons.mp member with rfl | old
    · exact .inr .replyHold
    · exact .inl old
  | registerMonitor =>
    unfold Sys.registerMonitor ProcessTable.registerMonitor at member
    unfold ProcessTable.registerMonitor
    split at member
    · exact .inl member
    · next down =>
      rw [if_neg down]
      rcases mem_cons.mp member with rfl | old
      · exact .inr (.monitorReason (Bool.not_eq_true _ ▸ down))
      · exact .inl old
  | spawn | demonitor | takeExitNotices | takePendingKills | takeCallDowns | enterDraining
  | livePid => exact .inl member

/-- Only a death edge leaves a registry pass to be run, with what it staged. -/
theorem follows_deathPass {staged : DeathStaged X M}
    (left : .deathPass pid forced staged ∈ call.follows outcome) :
    pid = call.pid ∧ call.forces = some forced ∧ outcome = .died (some staged) := by
  unfold Call.follows at left
  split at left <;> simp only [Multiset.mem_singleton, notMem_zero, reduceCtorEq] at left
  all_goals
    obtain ⟨rfl, rfl, rfl⟩ := left
    exact ⟨rfl, rfl, rfl⟩

theorem follows_notice :
    (∀ watcher target token, .monitorReason watcher target token ∉ call.follows outcome) ∧
      ∀ notice token, .stageNotice notice token ∉ call.follows outcome := by
  unfold Call.follows
  split <;> simp

/-- The notices a step stages. -/
def stagedBy : Event X M → List ExitNotice
  | .deathPass pid _ staged monitors => (monitors.filter (·.target = pid)).map
      fun entry => ⟨staged.crashInfo, staged.reason, pid, entry.watcher⟩
  | .stageNotice notice _ => [notice]
  | _ => []

/-- The notices in the registry are those that were there and those just staged. -/
theorem notices_step [Message M] (fresh : Fresh s.table) (step : Step s event after)
    (member : notice ∈ after.table.registry.pendingExitNotices) :
    notice ∈ s.table.registry.pendingExitNotices ∨ notice ∈ stagedBy event := by
  cases step_watch fresh step with
  | quiet _ _ notices | registered _ _ _ notices | tooLate minted monitors notices
  | removed monitors notices => exact .inl (notices ▸ member)
  | staged monitors notices | passed monitors notices =>
    rw [notices] at member
    exact mem_append.mp member
  | taken _ notices =>
    rw [notices] at member
    cases member

/-- A notice comes from a registry pass or from a `monitor` call that came too late. -/
theorem staged_pending [Message M] (step : Step s event after) (staging : notice ∈ stagedBy event) :
    (∃ forced staged, .deathPass notice.target forced staged ∈ s.pending ∧
        notice.reason = staged.reason ∧ notice.crashInfo = staged.crashInfo) ∨
      ∃ token, .stageNotice notice token ∈ s.pending := by
  cases step with
  | deathPass next =>
    rename_i pid forced staged rest
    obtain ⟨entry, -, rfl⟩ := mem_map.mp staging
    have pending : .deathPass pid forced staged ∈ s.pending := by
      rw [next]
      exact mem_cons_self _ _
    exact .inl ⟨forced, staged, pending, rfl, rfl⟩
  | stageNotice next =>
    rename_i staged token rest
    rw [mem_singleton.mp staging]
    refine .inr ⟨token, ?_⟩
    rw [next]
    exact mem_cons_self _ _
  | _ => cases staging

/-! ## The record of a dead slot -/

/-- No setter of the record reaches a slot that is dead already. -/
def RecordsLive (s : Sys X M) : Event X M → Prop
  | .call (.setExitReason pid _) _ | .call (.setCrashInfo pid _) _ =>
    ¬ (s.table.arena (slotIndex pid)).In pid .dead
  | _ => True

/-- Processes monitor PIDs they hold. -/
def MonitorsHandle (history : List (Event X M)) : Event X M → Prop
  | .registerMonitor _ target _ _ => Handle history target
  | _ => True

/-- The runs in which a death keeps its record. -/
structure Recording (history : List (Event X M)) (s : Sys X M) (event : Event X M) : Prop where
  fits : IndexFits s event
  room : NoWrap s event
  live : RecordsLive s event
  handle : MonitorsHandle history event

/-- `pid` is dead in its slot with this record, or the slot was reclaimed since. -/
def Filed (pid : Pid) (reason : ExitReason) (crashInfo : Option CrashInfo) (slot : Slot X M) :
    Prop :=
  (slot.In pid .dead ∧ slot.hot.exitReason = reason ∧ slot.hot.crashInfo = crashInfo) ∨
    generationOf pid < slot.lifecycle.generation

theorem Filed.of_houses (filed : Filed pid reason crashInfo slot) (houses : Houses slot pid) :
    slot.In pid .dead ∧ slot.hot.exitReason = reason ∧ slot.hot.crashInfo = crashInfo := by
  rcases filed with record | larger
  · exact record
  · have current : slot.lifecycle.generation = generationOf pid := houses.1
    rw [current] at larger
    exact absurd larger (UInt32.lt_irrefl _)

/-- What is on its way into a notice agrees with the slot it was read from, as long as
the slot is not reclaimed. -/
structure Filing (history : List (Event X M)) (s : Sys X M) : Prop where
  sound : Sound s
  known : ∀ pid, Issued history pid →
    Known (generationOf pid) (s.table.arena (slotIndex pid)).lifecycle
  passing : ∀ pid forced staged, .deathPass pid forced staged ∈ s.pending →
    Filed pid staged.reason staged.crashInfo (s.table.arena (slotIndex pid))
  reading : ∀ watcher target token, .monitorReason watcher target token ∈ s.pending →
    target = 0 ∨ Buried (generationOf target) (s.table.arena (slotIndex target)).lifecycle
  staging : ∀ notice token, .stageNotice notice token ∈ s.pending → notice.target = 0 ∨
    Filed notice.target notice.reason notice.crashInfo (s.table.arena (slotIndex notice.target))

theorem Filing.init : Filing ([] : List (Event X M)) Sys.init where
  sound := Sound.init
  known := by
    rintro pid ⟨_, _, member⟩
    cases member
  passing := fun _ _ _ member => absurd member (notMem_zero _)
  reading := fun _ _ _ member => absurd member (notMem_zero _)
  staging := fun _ _ member => absurd member (notMem_zero _)

/-- What a late `monitor` reads off its dead target is the record. -/
theorem read_filed (sound : Sound s) {target : Pid}
    (buried : Buried (generationOf target) (s.table.slotOf target).lifecycle) :
    Filed target (s.table.monitorReason target).1 (s.table.monitorReason target).2
      (s.table.slotOf target) := by
  rcases buried with ⟨current, dead⟩ | larger
  · have present : (slotIndex target).toNat < s.table.published :=
      sound.grown.present (by rw [dead]; simp)
    unfold ProcessTable.monitorReason
    rw [ProcessTable.slot_eq, if_pos present]
    dsimp only
    rw [if_pos ⟨current, dead⟩]
    exact .inl ⟨⟨current, dead⟩, rfl, rfl⟩
  · exact .inr larger

section
variable [Message M] {history : List (Event X M)}

theorem Filed.step
    (filed : Filed pid reason crashInfo (s.table.arena (slotIndex pid))) (sound : Sound s)
    (fits : IndexFits s event) (room : NoWrap s event) (live : RecordsLive s event)
    (step : Step s event after) :
    Filed pid reason crashInfo (after.table.arena (slotIndex pid)) := by
  rcases filed with ⟨dead, record⟩ | larger
  · have buried : Buried (generationOf pid) (s.table.arena (slotIndex pid)).lifecycle :=
      .inl dead
    rcases buried.step sound fits room step with still | larger
    · refine .inl ⟨still, ?_⟩
      have moved := step_slot sound.grown.fresh step (slotIndex pid)
      generalize (after.table.arena (slotIndex pid)) = now at moved still ⊢
      generalize here : (s.table.arena (slotIndex pid)) = slot at moved dead record
      cases moved with
      | same _ same =>
        rw [same]
        exact record
      | touched names touch =>
        rename_i call outcome
        have own : slot.Current call.pid → call.pid = pid := by
          intro current
          exact Pid.ext names (current.symm.trans dead.1)
        have gone : ¬ slot.Alive call.pid := fun alive => alive.not_dead dead.2
        cases touch_record touch with
        | kept reason crashInfo =>
          rw [reason, crashInfo]
          exact record
        | reason current hot | crashInfo current hot =>
          cases own current
          rw [← here] at dead
          exact absurd dead live
        | died _ alive | reclaimed _ alive => exact absurd alive gone
      | occupied _ _ _ hot =>
        rw [hot]
        exact record
      | vacated _ _ empty =>
        rw [empty] at still
        cases still.2
    · exact .inr larger
  · exact .inr (moved_on larger sound room step)

/-- What a death edge stages is read off the slot it found. -/
theorem died_staged {staged : DeathStaged X M} {now : Slot X M}
    (fresh : Fresh s.table) (step : Step s (.call call (.died (some staged))) after)
    (ends : call.forces = some forced) (here : s.table.arena (slotIndex call.pid) = slot)
    (there : after.table.arena (slotIndex call.pid) = now) :
    slot.Alive call.pid ∧ ((staged = slot.staged forced none ∧ now = slot.marked forced) ∨
      (staged = slot.staged forced (some slot.resources) ∧ now = slot.vacated)) := by
  have moved := step_slot fresh step (slotIndex call.pid)
  rw [here, there] at moved
  generalize label : Event.call call (.died (some staged)) = event at moved
  cases moved with
  | touched _ touch =>
    cases label
    cases touch with
    | marked ends' alive =>
      cases ends.symm.trans ends'
      exact ⟨alive, .inl ⟨rfl, rfl⟩⟩
    | reclaimed ends' alive =>
      cases ends.symm.trans ends'
      exact ⟨alive, .inr ⟨rfl, rfl⟩⟩
  | same apart => exact absurd rfl (apart _ _ label.symm)
  | _ => cases label

/-- A death edge files what it stages, or the slot is reclaimed at once. -/
theorem death_filed {staged : DeathStaged X M}
    (sound : Sound s) (room : NoWrap s (.call call (.died (some staged))))
    (ends : call.forces = some forced) (step : Step s (.call call (.died (some staged))) after) :
    Filed call.pid staged.reason staged.crashInfo (after.table.arena (slotIndex call.pid)) := by
  obtain ⟨alive, parcel⟩ := died_staged sound.grown.fresh step ends rfl rfl
  have current := alive.current
  obtain ⟨rfl, marked⟩ | ⟨rfl, vacated⟩ := parcel
  · rw [marked]
    exact .inl ⟨⟨current, rfl⟩, rfl, rfl⟩
  · rw [vacated]
    right
    rw [← show _ = generationOf call.pid from current]
    exact bumped_lt (room rfl)

theorem Filing.step (filing : Filing history s) (admitted : Recording history s event)
    (step : Step s event after) :
    Filing (history ++ [event]) after := by
  obtain ⟨fits, room, live, handle⟩ := admitted
  have sound := filing.sound
  have filed : ∀ {pid : Pid} {reason : ExitReason} {crashInfo : Option CrashInfo},
      Filed pid reason crashInfo (s.table.slotOf pid) →
      Filed pid reason crashInfo (after.table.slotOf pid) :=
    fun filed => filed.step sound fits room live step
  refine ⟨sound.step fits step, ?_, ?_, ?_, ?_⟩
  · intro pid issued
    exact issued.known_step (filing.known pid) sound fits room step
  · intro pid forced staged member
    rcases pending_step step member with old | opened
    · exact filed (filing.passing pid forced staged old)
    · cases opened with
      | follow left =>
        obtain ⟨rfl, ends, rfl⟩ := follows_deathPass left
        exact death_filed sound room ends step
  · intro watcher target token member
    rcases pending_step step member with old | opened
    · exact (filing.reading watcher target token old).imp_right
        fun buried => buried.step sound fits room step
    · cases opened with
      | follow left => exact absurd left (follows_notice.1 _ _ _)
      | monitorReason down =>
        rcases handle with issued | none
        · right
          refine ((filing.known target issued).buried ?_).step sound fits room step
          rw [← isAlive_iff sound.grown.fresh, down]
          exact Bool.false_ne_true
        · exact .inl none
  · intro notice token member
    rcases pending_step step member with old | opened
    · exact (filing.staging notice token old).imp_right filed
    · cases opened with
      | follow left => exact absurd left (follows_notice.2 _ _)
      | stageNotice =>
        rename_i watcher target
        have pending : .monitorReason watcher target token ∈ s.pending := by
          cases step with
          | monitorReason next =>
            rw [next]
            exact mem_cons_self _ _
        exact (filing.reading watcher target token pending).imp_right
          fun buried => filed (read_filed sound buried)

/-- What a step stages about a target that is not reclaimed is what its slot records. -/
theorem Filing.staged (filing : Filing history s) (step : Step s event after)
    (staging : notice ∈ stagedBy event)
    (houses : Houses (s.table.slotOf notice.target) notice.target) :
    (s.table.slotOf notice.target).In notice.target .dead ∧
      (s.table.slotOf notice.target).hot.exitReason = notice.reason ∧
      (s.table.slotOf notice.target).hot.crashInfo = notice.crashInfo := by
  refine Filed.of_houses ?_ houses
  rcases staged_pending step staging with ⟨forced, staged, pending, reason, crashInfo⟩ |
    ⟨token, pending⟩
  · rw [reason, crashInfo]
    exact filing.passing _ _ _ pending
  · rcases filing.staging notice token pending with vacant | filed
    · -- PID 0 has generation 0, which no occupant has
      have generation := (filing.sound.slots _).generation houses.2
      rw [vacant] at houses generation
      exact absurd houses.1 generation
    · exact filed

/-- Two notices tell the same of a death. -/
def Agree (first second : ExitNotice) : Prop :=
  first.reason = second.reason ∧ first.crashInfo = second.crashInfo

theorem Filing.onward (filing : Filing history s) {later : List (Event X M)} {final : Sys X M}
    (run : Run Step (fun later => Recording (history ++ later)) s later final)
    (filed : Filed pid reason crashInfo (s.table.slotOf pid)) :
    Filing (history ++ later) final ∧
      Filed pid reason crashInfo (final.table.slotOf pid) := by
  apply run.invariant (fun later s => Filing (history ++ later) s ∧
    Filed pid reason crashInfo (s.table.slotOf pid))
  · rw [append_nil]
    exact ⟨filing, filed⟩
  · rintro later s event after ⟨filing, filed⟩ admitted step
    rw [← append_assoc]
    exact ⟨filing.step admitted step,
      filed.step filing.sound admitted.fits admitted.room admitted.live step⟩

/-- In every run in which no setter of the record reaches a dead slot: the record of a
dead slot stands until the slot is reclaimed, and any two notices about one target, staged
in one step or with any steps between, each before the reclaim, agree. -/
theorem one_recorded_reason {history : List (Event X M)}
    (run : Run Step Recording Sys.init history s) :
    (∀ later final, Run Step (fun later => Recording (history ++ later)) s later final →
      ∀ pid, (s.table.arena (slotIndex pid)).In pid .dead →
        Filed pid (s.table.arena (slotIndex pid)).hot.exitReason
          (s.table.arena (slotIndex pid)).hot.crashInfo (final.table.arena (slotIndex pid))) ∧
    ∀ event after, Recording history s event → Step s event after → ∀ first ∈ stagedBy event,
        Houses (s.table.arena (slotIndex first.target)) first.target →
        (∀ second ∈ stagedBy event, second.target = first.target → Agree first second) ∧
        ∀ later mid event' after',
          Run Step (fun later => Recording (history ++ [event] ++ later)) after later mid →
          Step mid event' after' → ∀ second ∈ stagedBy event', second.target = first.target →
            Houses (mid.table.arena (slotIndex first.target)) first.target →
            Agree first second := by
  have filing : Filing history s := by
    induction run with
    | nil => exact Filing.init
    | snoc _ admitted step filing => exact filing.step admitted step
  constructor
  · intro later final onward pid dead
    exact (filing.onward onward (.inl ⟨dead, rfl, rfl⟩)).2
  · intro event after admitted step first staging houses
    have record := filing.staged step staging houses
    constructor
    · intro second staging' target
      have record' := filing.staged step staging' (by rw [target]; exact houses)
      rw [target] at record'
      exact ⟨record.2.1.symm.trans record'.2.1, record.2.2.symm.trans record'.2.2⟩
    · intro later mid event' after' onward step' second staging' target houses'
      have filed : Filed first.target first.reason first.crashInfo
          (after.table.arena (slotIndex first.target)) :=
        Filed.step (.inl record) filing.sound admitted.fits admitted.room admitted.live step
      obtain ⟨filing', filed'⟩ := (filing.step admitted step).onward onward filed
      have record' := filing'.staged step' staging' (by rw [target]; exact houses')
      rw [target] at record'
      obtain ⟨-, reason, crashInfo⟩ := filed'.of_houses houses'
      exact ⟨reason.symm.trans record'.2.1, crashInfo.symm.trans record'.2.2⟩

end

/-- The first process, watched by the second, is killed on the cpu. -/
def killedWatched : Sys Unit Envelope :=
  ((((Sys.init.spawn () none).spawn () none).perform (.tryClaim firstPid)).registerMonitor
    secondPid firstPid).perform (.kill firstPid)

theorem killedWatched_run : ∃ history : List (Event Unit Envelope),
    Run Step Recording Sys.init history killedWatched ∧ Issued history firstPid := by
  have start : Run Step Recording (Sys.init : Sys Unit Envelope) [] Sys.init := .nil
  have spawned := run_spawn start () none ⟨.inr (by decide), trivial, trivial, trivial⟩
  have second := run_spawn spawned () none ⟨.inr (by decide), trivial, trivial, trivial⟩
  have claimed := run_call second (.tryClaim firstPid)
    ⟨trivial, trivial, trivial, trivial⟩
  have watched := claimed.extend (.registerMonitor secondPid firstPid)
    ⟨trivial, trivial, trivial, .inl ⟨(), none, mem_cons_self⟩⟩
  have killed := run_call watched (.kill firstPid)
    ⟨trivial, fun taken => Bool.noConfusion taken, trivial, trivial⟩
  exact ⟨_, killed, (), none, mem_cons_self⟩

/-- What the killed process's registry pass is handed. -/
def killedStaged : DeathStaged Unit Envelope := ⟨.killed, none, 0, none⟩

/-- The pass of the killed process. -/
def killedPass : Event Unit Envelope :=
  .deathPass firstPid (some .killed) killedStaged [⟨firstPid, 1, secondPid⟩]

/-- The killed process's death is announced. -/
def announced : Sys Unit Envelope :=
  { killedWatched with
    table := killedWatched.table.deathPass firstPid killedStaged
    pending := 0 }

theorem killedPass_step : Step killedWatched killedPass announced :=
  .deathPass rfl

/-- A process killed on the cpu: its watcher's notice and a later one tell the same. -/
theorem one_recorded_reason_killed :
    ∃ (history later : List (Event Unit Envelope)) (mid after : Sys Unit Envelope)
      (event : Event Unit Envelope),
      Run Step Recording Sys.init history killedWatched ∧
      Run Step (fun later => Recording (history ++ [killedPass] ++ later)) announced later mid ∧
      Step mid event after ∧
      ∃ first ∈ stagedBy killedPass, ∃ second ∈ stagedBy event, Agree first second := by
  obtain ⟨history, killed, issued⟩ := killedWatched_run
  have held : Handle (history ++ [killedPass] ++ []) firstPid := by
    rw [append_nil]
    exact .inl (issued.snoc _)
  have start : Run Step (fun later => Recording (history ++ [killedPass] ++ later)) announced []
      announced := .nil
  have watched := start.extend (.registerMonitor secondPid firstPid)
    ⟨trivial, trivial, trivial, held⟩
  have late := watched.extend (@Step.monitorReason _ _ _ _ secondPid firstPid 2 0 rfl)
    ⟨trivial, trivial, trivial, trivial⟩
  have told := (one_recorded_reason killed).2 killedPass announced
    ⟨trivial, trivial, trivial, trivial⟩ killedPass_step ⟨none, .killed, firstPid, secondPid⟩
    (mem_singleton_self _) ⟨rfl, by decide⟩
  have agree := told.2 _ _ _ _ late
    (@Step.stageNotice _ _ _ _ ⟨none, .killed, firstPid, secondPid⟩ 2 0 rfl) _
    (mem_singleton_self _) rfl ⟨rfl, by decide⟩
  exact ⟨history, _, _, _, _, killed, late,
    @Step.stageNotice _ _ _ _ ⟨none, .killed, firstPid, secondPid⟩ 2 0 rfl,
    _, mem_singleton_self _, _, mem_singleton_self _, agree⟩

/-- A process killed on the cpu runs on into its exit path, which records its own reason
over the kill's: the watcher was told `Killed`, a later one is told `Crashed`. -/
theorem exit_path_rewrites_record :
    ∃ (history later : List (Event Unit Envelope)) (mid after : Sys Unit Envelope)
      (event : Event Unit Envelope),
      Run Step (fun history s event => IndexFits s event ∧ NoWrap s event ∧
        MonitorsHandle history event) Sys.init history killedWatched ∧
      (killedWatched.table.arena (slotIndex firstPid)).In firstPid .dead ∧
      Step killedWatched killedPass announced ∧
      Run Step (fun later s event => IndexFits s event ∧ NoWrap s event ∧
        MonitorsHandle (history ++ [killedPass] ++ later) event) announced later mid ∧
      (mid.table.arena (slotIndex firstPid)).In firstPid .dead ∧
      (mid.table.arena (slotIndex firstPid)).hot.exitReason ≠
        (killedWatched.table.arena (slotIndex firstPid)).hot.exitReason ∧
      Step mid event after ∧
      ∃ first ∈ stagedBy killedPass, ∃ second ∈ stagedBy event,
        second.target = first.target ∧ ¬ Agree first second := by
  obtain ⟨history, killed, issued⟩ := killedWatched_run
  have rewritten := run_call (.nil : Run Step (fun later s event => IndexFits s event ∧
    NoWrap s event ∧ MonitorsHandle (history ++ [killedPass] ++ later) event) announced [] _)
    (.setExitReason firstPid .crashed) ⟨trivial, trivial, trivial⟩
  have held : ∀ event, Handle (history ++ [killedPass] ++ ([] ++ [event])) firstPid := by
    intro event
    exact .inl ((issued.snoc _).snoc _)
  have watched := rewritten.extend (.registerMonitor secondPid firstPid) ⟨trivial, trivial, held _⟩
  have late := watched.extend (@Step.monitorReason _ _ _ _ secondPid firstPid 2 0 rfl)
    ⟨trivial, trivial, trivial⟩
  refine ⟨history, _, _, _, _, killed.weaken ?_, ⟨rfl, rfl⟩, killedPass_step, late, ⟨rfl, rfl⟩,
    by decide, @Step.stageNotice _ _ _ _ ⟨none, .crashed, firstPid, secondPid⟩ 2 0 rfl,
    ⟨none, .killed, firstPid, secondPid⟩, mem_singleton_self _,
    ⟨none, .crashed, firstPid, secondPid⟩, mem_singleton_self _, rfl,
    fun agree => absurd agree.1 (by decide)⟩
  intro history s event admitted
  exact ⟨admitted.fits, admitted.room, admitted.handle⟩

/-! ## Captures -/

/-- A crash capture comes with the reason `Crashed`. -/
def Attributed (reason : ExitReason) (crashInfo : Option CrashInfo) : Prop :=
  crashInfo ≠ none → reason = .crashed

/-- The exit path records the reason `Crashed` before its capture and none after it, and a
kill finds a live process without a capture. -/
def CaptureLast (s : Sys X M) : Event X M → Prop
  | .call (.setCrashInfo pid _) _ => (s.table.arena (slotIndex pid)).Current pid →
      (s.table.arena (slotIndex pid)).hot.exitReason = .crashed
  | .call (.setExitReason pid reason) _ => (s.table.arena (slotIndex pid)).Current pid →
      reason = .crashed ∨ (s.table.arena (slotIndex pid)).hot.crashInfo = none
  | .call (.kill pid) _ => (s.table.arena (slotIndex pid)).Alive pid →
      (s.table.arena (slotIndex pid)).hot.crashInfo = none
  | _ => True

/-- Every record, and every notice on its way, attributes its capture. -/
structure Attributing (s : Sys X M) : Prop where
  grown : Grown s
  slots : ∀ index, Attributed (s.table.arena index).hot.exitReason
    (s.table.arena index).hot.crashInfo
  passing : ∀ pid forced staged, .deathPass pid forced staged ∈ s.pending →
    Attributed staged.reason staged.crashInfo
  staging : ∀ notice token, .stageNotice notice token ∈ s.pending →
    Attributed notice.reason notice.crashInfo

theorem Attributing.init : Attributing (Sys.init : Sys X M) where
  grown := Grown.init
  slots := fun _ captured => absurd rfl captured
  passing := fun _ _ _ member => absurd member (notMem_zero _)
  staging := fun _ _ member => absurd member (notMem_zero _)

theorem attributed_default : Attributed (HotState.default : HotState M).exitReason
    (HotState.default : HotState M).crashInfo :=
  fun captured => absurd rfl captured

/-- What a death edge stages attributes its capture. -/
theorem staged_attributed {reclaim : Option (Reclaim X M)} (ends : call.forces = some forced)
    (attributed : Attributed slot.hot.exitReason slot.hot.crashInfo)
    (uncaught : ∀ pid, call = .kill pid → slot.hot.crashInfo = none) :
    Attributed (slot.staged forced reclaim).reason (slot.staged forced reclaim).crashInfo := by
  cases call <;> simp only [Call.forces, Option.some.injEq, reduceCtorEq] at ends <;> subst ends
  · intro captured
    exact absurd (uncaught _ rfl) captured
  · exact attributed

section
variable [Message M]

theorem Attributing.slot_step {index : UInt32} (attributing : Attributing s)
    (ordered : CaptureLast s event) (step : Step s event after) :
    Attributed (after.table.arena index).hot.exitReason
      (after.table.arena index).hot.crashInfo := by
  have moved := step_slot attributing.grown.fresh step index
  have before := attributing.slots index
  generalize (after.table.arena index) = now at moved ⊢
  generalize here : (s.table.arena index) = slot at moved before
  cases moved with
  | same _ same =>
    rw [same]
    exact before
  | touched names touch =>
    subst names here
    cases touch_record touch with
    | kept reason crashInfo =>
      rw [reason, crashInfo]
      exact before
    | reason current hot =>
      rw [hot]
      exact fun captured => (ordered current).resolve_right captured
    | crashInfo current hot =>
      rw [hot]
      exact fun _ => ordered current
    | died ends alive =>
      have staged : Attributed ((s.table.arena _).staged _ none).reason _ :=
        staged_attributed ends before (by rintro pid rfl; exact ordered alive)
      exact staged
    | reclaimed => exact attributed_default
  | occupied _ _ _ hot =>
    rw [hot]
    exact before
  | vacated _ _ empty =>
    rw [empty]
    exact attributed_default

theorem Attributing.step (attributing : Attributing s) (ordered : CaptureLast s event)
    (step : Step s event after) : Attributing after := by
  refine ⟨attributing.grown.step step, fun _ => attributing.slot_step ordered step, ?_, ?_⟩
  · intro pid forced staged member
    rcases pending_step step member with old | opened
    · exact attributing.passing pid forced staged old
    · cases opened with
      | follow left =>
        obtain ⟨rfl, ends, rfl⟩ := follows_deathPass left
        obtain ⟨alive, parcel⟩ := died_staged attributing.grown.fresh step ends rfl rfl
        rcases parcel with ⟨rfl, -⟩ | ⟨rfl, -⟩
        all_goals
          refine staged_attributed ends (attributing.slots _) ?_
          rintro pid rfl
          exact ordered alive
  · intro notice token member
    rcases pending_step step member with old | opened
    · exact attributing.staging notice token old
    · cases opened with
      | follow left => exact absurd left (follows_notice.2 _ _)
      | stageNotice =>
        unfold ProcessTable.monitorReason
        split
        · exact fun captured => absurd rfl captured
        · rename_i slot generation found
          rw [ProcessTable.slot_eq] at found
          split at found
          · cases found
            split
            · exact attributing.slots _
            · exact fun captured => absurd rfl captured
          · cases found

/-- In every run in which a kill never lands between a process's capture and its death
edge, every notice staged that carries a crash capture has the reason `Crashed`. -/
theorem capture_means_crashed {history : List (Event X M)}
    (run : Run Step (fun _ s event => CaptureLast s event) Sys.init history s) :
    (∀ event ∈ history, ∀ notice ∈ stagedBy event,
      notice.crashInfo ≠ none → notice.reason = .crashed) ∧
    ∀ notice ∈ s.table.registry.pendingExitNotices,
      notice.crashInfo ≠ none → notice.reason = .crashed := by
  refine (run.invariant (fun history s => Attributing s ∧
    (∀ event ∈ history, ∀ notice ∈ stagedBy event, Attributed notice.reason notice.crashInfo) ∧
    ∀ notice ∈ s.table.registry.pendingExitNotices, Attributed notice.reason notice.crashInfo)
    ⟨Attributing.init, fun _ member => absurd member not_mem_nil,
      fun _ member => absurd member not_mem_nil⟩ ?_).2
  rintro history s event after ⟨attributing, staged, waiting⟩ ordered step
  have now : ∀ notice ∈ stagedBy event, Attributed notice.reason notice.crashInfo := by
    intro notice staging
    rcases staged_pending step staging with
      ⟨forced, parcel, pending, reason, crashInfo⟩ | ⟨token, pending⟩
    · rw [reason, crashInfo]
      exact attributing.passing _ _ _ pending
    · exact attributing.staging _ _ pending
  refine ⟨attributing.step ordered step, ?_, ?_⟩
  · intro event' member
    rcases mem_append.mp member with old | new
    · exact staged event' old
    · rw [mem_singleton.mp new]
      exact now
  · intro notice member
    rcases notices_step attributing.grown.fresh step member with old | new
    · exact waiting notice old
    · exact now notice new

end

/-- A capture of a failed assertion. -/
def capture : CrashInfo := ⟨"assertion failed", "main.koja:1"⟩

/-- The first process, watched by the second, has recorded its crash and is about to
die. -/
def captured : Sys Unit Envelope :=
  (((((Sys.init.spawn () none).spawn () none).perform (.tryClaim firstPid)).registerMonitor
    secondPid firstPid).perform (.setExitReason firstPid .crashed)).perform
    (.setCrashInfo firstPid capture)

theorem captured_run : ∃ history : List (Event Unit Envelope),
    Run Step (fun _ s event => CaptureLast s event) Sys.init history captured := by
  have start : Run Step (fun _ s event => CaptureLast s event)
      (Sys.init : Sys Unit Envelope) [] Sys.init := .nil
  have second := run_spawn (run_spawn start () none trivial) () none trivial
  have claimed := run_call second (.tryClaim firstPid) trivial
  have watched := claimed.extend (.registerMonitor secondPid firstPid) trivial
  have crashed := run_call watched (.setExitReason firstPid .crashed) (fun _ => .inl rfl)
  exact ⟨_, run_call crashed (.setCrashInfo firstPid capture) (fun _ => rfl)⟩

/-- A process that dies of its crash: its watcher is told `Crashed`, with the capture. -/
theorem capture_means_crashed_told :
    ∃ (history : List (Event Unit Envelope)) (s : Sys Unit Envelope),
      Run Step (fun _ s event => CaptureLast s event) Sys.init history s ∧
      ∃ notice ∈ s.table.registry.pendingExitNotices,
        notice.crashInfo ≠ none ∧ notice.reason = .crashed := by
  obtain ⟨history, run⟩ := captured_run
  have died := run_call run (.markDeadIfAlive firstPid) trivial
  have passed := run_deathPass died firstPid none ⟨.crashed, some capture, 0, none⟩ 0 rfl trivial
  have told : (⟨some capture, .crashed, firstPid, secondPid⟩ : ExitNotice) ∈
      [(⟨some capture, .crashed, firstPid, secondPid⟩ : ExitNotice)] := mem_singleton_self _
  exact ⟨_, _, passed, _, told, by decide, (capture_means_crashed passed).2 _ told (by decide)⟩

/-- A process is killed between recording its capture and its death edge: the notice
carries the capture with the reason `Killed`. -/
theorem killed_with_capture : ∃ (history : List (Event Unit Envelope)) (s : Sys Unit Envelope),
      Run Step (fun _ _ _ => True) Sys.init history s ∧
      ∃ notice ∈ s.table.registry.pendingExitNotices,
        notice.crashInfo = some capture ∧ notice.reason = .killed := by
  obtain ⟨history, run⟩ := captured_run
  have killed := run_call (run.weaken (fun _ _ _ _ => trivial)) (.kill firstPid) trivial
  have passed := run_deathPass killed firstPid (some .killed) ⟨.killed, some capture, 0, none⟩ 0
    rfl trivial
  have told : (⟨some capture, .killed, firstPid, secondPid⟩ : ExitNotice) ∈
      [(⟨some capture, .killed, firstPid, secondPid⟩ : ExitNotice)] := mem_singleton_self _
  exact ⟨_, _, passed, _, told, rfl, rfl⟩

end Koja.Guarantees.Runtime
