import Koja.Lib.Forest
import Koja.Guarantees.Runtime.Tombstone

/-!
# The kill cascade

The registry's `children`, the deaths between their slot hold and their registry
pass, and the kills staged or drained are a forest whose deaths cascade. Every step
of the table is a few steps of that forest, so what the forest keeps in sight the
table keeps in sight.
-/
namespace Koja.Guarantees.Runtime
open Koja.Lib Koja.Source.Runtime List Function
open Forest (place_self place_of_ne)

variable {X M : Type} {s after picked : Sys X M} {pid child parent : Pid} {event : Event X M}
  {registry : Registry} {f : Forest Pid} {staged : DeathStaged X M}

/-! ## Deaths waiting for their registry pass -/

/-- The deaths waiting for their pass are of distinct processes, none of which can be
live again. -/
structure Graves (s : Sys X M) : Prop where
  buried : ∀ pid staged, (pid, staged) ∈ passes s →
    Buried (generationOf pid) (s.table.arena (slotIndex pid)).lifecycle
  once : ((passes s).map Prod.fst).Nodup

theorem Graves.init : Graves (Sys.init : Sys X M) where
  buried := by simp [passes, unfinished, Sys.init]
  once := by simp [passes, unfinished, Sys.init]

theorem Graves.unlisted (graves : Graves s)
    (alive : (s.table.slotOf pid).Alive pid) (staged : DeathStaged X M) :
    (pid, staged) ∉ passes s :=
  fun member => (graves.buried pid staged member).not_alive alive

theorem Graves.step [Message M] (graves : Graves s) (sound : Sound s)
    (fits : IndexFits s event) (room : NoWrap s event) (step : Step s event after) :
    Graves after := by
  have still : ∀ pid staged, (pid, staged) ∈ passes s →
      Buried (generationOf pid) (after.table.arena (slotIndex pid)).lifecycle :=
    fun pid staged member => (graves.buried pid staged member).step sound fits room step
  have kept : passes after = passes s → Graves after := by
    intro same
    refine ⟨?_, ?_⟩
    · rw [same]
      exact still
    · rw [same]
      exact graves.once
  have grown : ∀ {pid : Pid} {staged : DeathStaged X M}, passes after = (pid, staged) ::ₘ passes s →
      (s.table.arena (slotIndex pid)).Alive pid →
      Buried (generationOf pid) (after.table.arena (slotIndex pid)).lifecycle →
      Graves after := by
    intro pid staged added alive buried
    refine ⟨?_, ?_⟩
    · intro other parcel member
      rw [added] at member
      rcases Multiset.mem_cons.mp member with same | old
      · cases same
        exact buried
      · exact still other parcel old
    · rw [added, Multiset.map_cons, Multiset.nodup_cons]
      refine ⟨?_, graves.once⟩
      intro listed
      obtain ⟨⟨_, parcel⟩, member, rfl⟩ := Multiset.mem_map.mp listed
      exact graves.unlisted alive parcel member
  cases step_move sound.grown.fresh step with
  | quiet _ _ _ _ _ _ _ rest | claimed _ _ _ _ _ _ _ rest | releaseMissed _ _ _ _ _ rest =>
    exact kept (passes_same rest)
  | released _ _ _ _ _ _ _ rest =>
    apply kept
    split at rest
    · exact passes_cons rest
    · exact passes_same rest
  | marked _ _ _ alive _ _ slot _ rest =>
    refine grown (passes_cons rest) alive ?_
    rw [slot]
    exact .inl ⟨alive.current, rfl⟩
  | reclaimed names _ _ alive _ parcel slot _ rest =>
    refine grown (passes_cons rest) alive ?_
    rw [slot]
    right
    have bound : (s.table.arena (slotIndex _)).lifecycle.generation.toNat + 1 < 2 ^ 32 :=
      room (by rw [parcel]; rfl)
    rw [names] at bound
    have current : (s.table.arena (slotIndex _)).lifecycle.generation = generationOf _ :=
      alive.current
    rw [← current]
    exact bumped_lt bound
  | spawned => exact kept rfl
  | deathPass arena published free claims rest =>
    rename_i pid forced staged monitors
    have dropped : passes s = (pid, staged) ::ₘ passes after := passes_cons rest
    refine ⟨?_, ?_⟩
    · intro pid staged member
      apply still pid staged
      rw [dropped]
      exact Multiset.mem_cons_of_mem member
    · have once := graves.once
      rw [dropped, Multiset.map_cons, Multiset.nodup_cons] at once
      exact once.2
  | reclaim _ _ _ _ before now =>
    exact kept ((passes_cons now).trans (passes_cons before).symm)
  | pushFree _ _ _ _ rest => exact kept (passes_cons rest).symm

/-! ## The registry's children -/

/-- The processes the registry lists under `parent`. -/
def listed (registry : Registry) (parent : Pid) : List Pid :=
  (registry.children parent).getD []

/-- Entries are nonempty sets. -/
def Tidy (registry : Registry) : Prop :=
  ∀ parent siblings, registry.children parent = some siblings → siblings ≠ [] ∧ siblings.Nodup

theorem Tidy.nodup (tidy : Tidy registry) (parent : Pid) : (listed registry parent).Nodup := by
  unfold listed
  cases entry : registry.children parent with
  | none => exact nodup_nil
  | some siblings => exact (tidy parent siblings entry).2

theorem mem_insertPid {set : List Pid} : child ∈ insertPid pid set ↔ child ∈ set ∨ child = pid := by
  unfold insertPid
  split
  · next member =>
    constructor
    · exact .inl
    · rintro (old | rfl)
      · exact old
      · exact member
  · rw [mem_orderedInsert, or_comm]

theorem nodup_insertPid {set : List Pid} (nodup : set.Nodup) : (insertPid pid set).Nodup := by
  unfold insertPid
  split
  · exact nodup
  · next absent =>
    exact (perm_orderedInsert _ _ _).nodup_iff.mpr (nodup_cons.mpr ⟨absent, nodup⟩)

theorem mem_listed_addChild {spawner : Pid} :
    child ∈ listed (registry.addChild spawner pid) parent ↔
      child ∈ listed registry parent ∨ spawner = parent ∧ child = pid := by
  unfold listed Registry.addChild
  by_cases here : parent = spawner
  · subst here
    simp [mem_insertPid]
  · simp [update_of_ne here, Ne.symm here]

theorem Tidy.addChild (tidy : Tidy registry) (spawner pid : Pid) :
    Tidy (registry.addChild spawner pid) := by
  intro parent siblings entry
  unfold Registry.addChild at entry
  by_cases here : parent = spawner
  · subst here
    simp only [update_self, Option.some.injEq] at entry
    subst entry
    refine ⟨?_, nodup_insertPid (tidy.nodup parent)⟩
    exact ne_nil_of_mem (mem_insertPid.mpr (.inr rfl))
  · simp only [update_of_ne here] at entry
    exact tidy parent siblings entry

theorem mem_listed_removeChild (tidy : Tidy registry) {above pid parent child : Pid} :
    child ∈ listed (registry.removeChild above pid) parent ↔
      child ∈ listed registry parent ∧ ¬ (parent = above ∧ child = pid) := by
  unfold listed Registry.removeChild
  cases entry : registry.children above with
  | none =>
    by_cases here : parent = above
    · subst here
      simp [entry]
    · simp [here]
  | some siblings =>
    have nodup := (tidy above siblings entry).2
    by_cases here : parent = above
    · subst here
      have rest : (if (siblings.erase pid).isEmpty then none
          else some (siblings.erase pid)).getD [] = siblings.erase pid := by
        split
        · next empty => simpa using (isEmpty_iff.mp empty).symm
        · rfl
      simp only [update_self, rest, entry, nodup.mem_erase_iff]
      simp [and_comm]
    · simp [here]

theorem Tidy.removeChild (tidy : Tidy registry) (above pid : Pid) :
    Tidy (registry.removeChild above pid) := by
  intro parent siblings entry
  unfold Registry.removeChild at entry
  cases found : registry.children above with
  | none =>
    rw [found] at entry
    exact tidy parent siblings entry
  | some set =>
    rw [found] at entry
    by_cases here : parent = above
    · subst here
      simp only [update_self] at entry
      split at entry
      · cases entry
      · next nonempty =>
        cases entry
        refine ⟨?_, (tidy parent set found).2.erase pid⟩
        simpa using nonempty
    · simp only [update_of_ne here] at entry
      exact tidy parent siblings entry

/-- The pass of `pid` with its own entry gone, before its parent's is looked at. -/
theorem Tidy.dropped (tidy : Tidy registry) (pid : Pid) :
    Tidy { registry with children := update registry.children pid none } := by
  intro parent siblings entry
  by_cases here : parent = pid
  · subst here
    simp at entry
  · simp only [update_of_ne here] at entry
    exact tidy parent siblings entry

theorem notifyExit_children (pid above : Pid) (reason : ExitReason) (crashInfo : Option CrashInfo) :
    (registry.notifyExit pid above reason crashInfo).children = (Registry.removeChild
        { registry with children := update registry.children pid none }
        above pid).children := by
  unfold Registry.notifyExit Registry.removeChild
  dsimp only
  split <;> rfl

theorem notifyExit_kills (registry : Registry) (pid above : Pid) (reason : ExitReason)
    (crashInfo : Option CrashInfo) :
    (registry.notifyExit pid above reason crashInfo).pendingKills =
      registry.pendingKills ++ listed registry pid := by
  unfold Registry.notifyExit Registry.removeChild
  dsimp only
  split <;> rfl

theorem mem_listed_notifyExit (tidy : Tidy registry)
    {above : Pid} {reason : ExitReason} {crashInfo : Option CrashInfo} :
    child ∈ listed (registry.notifyExit pid above reason crashInfo) parent ↔
      child ∈ listed registry parent ∧ parent ≠ pid ∧ ¬ (parent = above ∧ child = pid) := by
  have removed := @mem_listed_removeChild _ (tidy.dropped pid) above pid parent child
  unfold listed at removed ⊢
  rw [notifyExit_children, removed]
  by_cases here : parent = pid
  · subst here
    simp
  · simp [here]

/-! ## The table as a forest -/

/-- `pid` is a live process that records `parent` as its spawner; 0 for none. -/
def Recorded (s : Sys X M) (pid parent : Pid) : Prop :=
  (s.table.arena (slotIndex pid)).Alive pid ∧ (s.table.arena (slotIndex pid)).parent = parent

/-- The kill of `pid` is staged, or drained and not yet issued. -/
def KillStaged (s : Sys X M) (pid : Pid) : Prop :=
  pid ∈ s.table.registry.pendingKills ∨ pid ∈ s.killBatch

/-- The forest `f` is what the table records of its processes' descent. -/
structure Mirrors (f : Forest Pid) (s : Sys X M) : Prop where
  live : ∀ pid parent, f.standing pid = .live parent ↔ Recorded s pid parent
  fallen : ∀ pid parent, f.standing pid = .fallen parent ↔
    ∃ staged, (pid, staged) ∈ passes s ∧ staged.parent = parent
  children : ∀ parent child, child ∈ f.children parent ↔ child ∈ listed s.table.registry parent
  doomed : ∀ pid, pid ∈ f.doomed ↔ KillStaged s pid
  tidy : Tidy s.table.registry

theorem Mirrors.init : Mirrors ⟨fun _ => .absent, fun _ => ∅, ∅⟩ (Sys.init : Sys X M) where
  live := by
    intro pid parent
    constructor
    · intro absurd
      cases absurd
    · rintro ⟨alive, -⟩
      exact absurd alive (Slot.new_not_alive pid)
  fallen := by simp [passes, unfinished, Sys.init]
  children := by simp [listed, Sys.init, ProcessTable.new, Registry.new]
  doomed := by simp [KillStaged, Sys.init, ProcessTable.new, Registry.new]
  tidy := by simp [Tidy, Sys.init, ProcessTable.new, Registry.new]

/-- The steps of the forest one step of the table stands for. -/
def Follows (f : Forest Pid) (after : Sys X M) : Prop :=
  ∃ g, Relation.ReflTransGen (Forest.Step 0) f g ∧ Mirrors g after

theorem Mirrors.live_iff (mirrors : Mirrors f s) (pid : Pid) :
    f.Live pid ↔ (s.table.slotOf pid).Alive pid := by
  constructor
  · rintro ⟨parent, standing⟩
    exact ((mirrors.live pid parent).mp standing).1
  · intro alive
    exact ⟨_, (mirrors.live pid _).mpr ⟨alive, rfl⟩⟩

/-- Steps that leave descent and deaths alone may still issue the kill of a process
that is not alive. -/
theorem Mirrors.quiet (mirrors : Mirrors f s)
    (recorded : ∀ pid parent, Recorded after pid parent ↔ Recorded s pid parent)
    (passing : passes after = passes s)
    (children : after.table.registry.children = s.table.registry.children)
    (issued : ∀ pid, KillStaged s pid → (s.table.slotOf pid).Alive pid →
      KillStaged after pid) : Follows f after := by
  refine ⟨_, .single (.seenTo { pid | KillStaged after pid } ?_), ?_⟩
  · intro pid waiting live
    exact issued pid ((mirrors.doomed pid).mp waiting) ((mirrors.live_iff pid).mp live)
  · refine ⟨?_, ?_, ?_, fun _ => Iff.rfl, ?_⟩
    · intro pid parent
      rw [recorded]
      exact mirrors.live pid parent
    · rw [passing]
      exact mirrors.fallen
    · unfold listed
      rw [children]
      exact mirrors.children
    · unfold Tidy
      rw [children]
      exact mirrors.tidy

theorem recorded_kept (kept : ∀ index, Kept (s.table.arena index) (after.table.arena index))
    (pid parent : Pid) : Recorded after pid parent ↔ Recorded s pid parent := by
  unfold Recorded
  rw [(kept _).alive, (kept _).parent]

/-- A step on one slot, for a process that is not its occupant before or after. -/
theorem recorded_frame {index : UInt32} {t : ProcessTable X M} {other : Pid}
    (frame : ∀ other, other ≠ index → t.arena other = s.table.arena other)
    (apart : slotIndex other = index →
      ¬ (s.table.arena index).Alive other ∧ ¬ (t.arena index).Alive other) (parent : Pid) :
    Recorded { s with table := t } other parent ↔ Recorded s other parent := by
  unfold Recorded
  by_cases here : slotIndex other = index
  · simp [here, apart here]
  · rw [frame _ here]

theorem recorded_arena (arena : after.table.arena = s.table.arena) (pid parent : Pid) :
    Recorded after pid parent ↔ Recorded s pid parent := by
  unfold Recorded
  rw [arena]

/-- A death: the slot is marked or vacated, and its pass is left to come. -/
theorem Mirrors.died (mirrors : Mirrors f s) (graves : Graves s)
    (shift : Shift (slotIndex pid) s after) (alive : (s.table.slotOf pid).Alive pid)
    (parent : staged.parent = (s.table.slotOf pid).parent)
    (gone : ∀ other, ¬ (after.table.arena (slotIndex pid)).Alive other)
    (passing : passes after = (pid, staged) ::ₘ passes s)
    (issued : ∀ other, other ≠ pid → KillStaged s other → KillStaged after other) :
    Follows f after := by
  have standing : f.standing pid = .live staged.parent :=
    (mirrors.live pid _).mpr ⟨alive, parent.symm⟩
  have children : after.table.registry.children = s.table.registry.children := by
    rw [shift.registry]
  refine ⟨_, .tail (.single (.died pid staged.parent standing))
    (.seenTo { other | KillStaged after other } ?_), ?_⟩
  · intro other waiting live
    refine issued other ?_ ((mirrors.doomed other).mp waiting)
    rintro rfl
    obtain ⟨above, placed⟩ := live
    change f.place other _ other = _ at placed
    rw [place_self] at placed
    cases placed
  · refine ⟨?_, ?_, ?_, fun _ => Iff.rfl, ?_⟩
    · intro other above
      change f.place pid _ other = _ ↔ _
      by_cases here : other = pid
      · subst here
        rw [place_self]
        simp [Recorded, gone]
      · -- another generation of the same slot is alive neither before nor after
        rw [place_of_ne here, mirrors.live]
        exact (recorded_frame shift.frame (fun slot =>
          ⟨fun lived => here (alive_unique slot lived alive), gone other⟩) above).symm
    · intro other above
      change f.place pid _ other = _ ↔ _
      rw [passing]
      by_cases here : other = pid
      · subst here
        rw [place_self]
        constructor
        · intro same
          cases same
          exact ⟨staged, Multiset.mem_cons_self _ _, rfl⟩
        · rintro ⟨parcel, member, rfl⟩
          rcases Multiset.mem_cons.mp member with same | old
          · cases same
            rfl
          · exact absurd old (graves.unlisted alive parcel)
      · rw [place_of_ne here, mirrors.fallen]
        simp [here]
    · unfold listed
      rw [children]
      exact mirrors.children
    · unfold Tidy
      rw [children]
      exact mirrors.tidy

/-- A spawn under a live parent, into a slot nobody occupies. -/
theorem Mirrors.born (mirrors : Mirrors f s) (sound : Sound s) (graves : Graves s)
    {execution : X} {parent : Option Pid} {index : UInt32} {table : ProcessTable X M}
    (spawned : Spawned s.table execution parent index table)
    (fits : s.table.registry.free ≠ [] ∨ s.table.published < 2 ^ 32) :
    Follows f { s with table := table } := by
  have vacant := (sound.spawn_vacant spawned fits).1
  generalize named : encode index (max (s.table.arena index).lifecycle.generation 1) = pid
  have atIndex : slotIndex pid = index := by rw [← named, slotIndex_encode]
  have ofGeneration : generationOf pid = max (s.table.arena index).lifecycle.generation 1 := by
    rw [← named, generationOf_encode]
  have unborn : ∀ other, ¬ (s.table.arena index).Alive other :=
    fun other alive => alive_occupied alive vacant
  have alive : (table.arena index).Alive pid := by
    refine Slot.alive_iff.mpr ⟨?_, .created, ?_, by decide⟩
    · rw [Slot.Current, spawned.word, ofGeneration]
    · rw [spawned.word]
  have unburied : ∀ staged, (pid, staged) ∉ passes s := by
    intro staged member
    rcases graves.buried pid staged member with ⟨-, dead⟩ | larger
    · rw [atIndex, vacant] at dead
      cases dead
    · rw [atIndex, ofGeneration] at larger
      exact absurd (lt_max_one larger) (UInt32.lt_irrefl _)
  have new : f.standing pid = .absent := by
    cases standing : f.standing pid with
    | absent => rfl
    | live above =>
      have recorded := (mirrors.live pid above).mp standing
      rw [Recorded, atIndex] at recorded
      exact absurd recorded.1 (unborn pid)
    | fallen above =>
      obtain ⟨staged, member, -⟩ := (mirrors.fallen pid above).mp standing
      exact absurd member (unburied staged)
  refine ⟨_, .single (.born pid parent new ?_), ?_⟩
  · intro above under
    rw [mirrors.live_iff]
    exact (isAlive_iff sound.grown.fresh).mp (spawned.alive above under)
  · refine ⟨?_, ?_, ?_, ?_, ?_⟩
    · intro other above
      change f.place pid _ other = _ ↔ _
      by_cases here : other = pid
      · subst here
        rw [place_self, Recorded, atIndex, spawned.spawner]
        simp [alive]
      · rw [place_of_ne here, mirrors.live]
        refine (recorded_frame spawned.frame (fun slot => ⟨unborn other, ?_⟩) above).symm
        exact fun lived => here (alive_unique (slot.trans atIndex.symm) lived alive)
    · intro other above
      change f.place pid _ other = _ ↔ _
      by_cases here : other = pid
      · subst here
        rw [place_self]
        constructor
        · intro absurd
          cases absurd
        · rintro ⟨staged, member, -⟩
          exact absurd member (unburied staged)
      · rw [place_of_ne here]
        exact mirrors.fallen other above
    · intro above child
      change child ∈ f.children above ∨ parent = some above ∧ child = pid ↔ _
      rw [mirrors.children above child]
      unfold listed
      rw [spawned.children]
      cases parent with
      | none => simp
      | some =>
        rw [named, Option.some.injEq]
        exact mem_listed_addChild.symm
    · intro other
      unfold KillStaged
      rw [spawned.kills]
      exact mirrors.doomed other
    · unfold Tidy
      rw [spawned.children]
      cases parent with
      | none => exact mirrors.tidy
      | some spawner => exact mirrors.tidy.addChild spawner _

/-- The registry pass: the children are doomed and the dead process leaves its
parent's entry. -/
theorem Mirrors.announced (mirrors : Mirrors f s) (graves : Graves s)
    (arena : after.table.arena = s.table.arena) (children : after.table.registry.children =
      (s.table.registry.notifyExit pid staged.parent staged.reason staged.crashInfo).children)
    (kills : after.table.registry.pendingKills =
      s.table.registry.pendingKills ++ listed s.table.registry pid)
    (batch : after.killBatch = s.killBatch) (passing : passes s = (pid, staged) ::ₘ passes after) :
    Follows f after := by
  have waiting : (pid, staged) ∈ passes s := by
    rw [passing]
    exact Multiset.mem_cons_self _ _
  have dead := (graves.buried pid staged waiting).not_alive
  have once := graves.once
  rw [passing, Multiset.map_cons, Multiset.nodup_cons] at once
  have spent : ∀ parcel, (pid, parcel) ∉ passes after :=
    fun parcel member => once.1 (Multiset.mem_map.mpr ⟨_, member, rfl⟩)
  refine ⟨_, .single (.announced pid staged.parent
    ((mirrors.fallen pid _).mpr ⟨staged, waiting, rfl⟩)), ?_⟩
  refine ⟨?_, ?_, ?_, ?_, ?_⟩
  · intro other above
    change f.place pid _ other = _ ↔ _
    rw [recorded_arena arena]
    by_cases here : other = pid
    · subst here
      rw [place_self]
      simp [Recorded, dead]
    · rw [place_of_ne here]
      exact mirrors.live other above
  · intro other above
    change f.place pid _ other = _ ↔ _
    by_cases here : other = pid
    · subst here
      rw [place_self]
      simp [spent]
    · rw [place_of_ne here, mirrors.fallen, passing]
      simp [here]
  · intro above child
    change child ∈ f.children above ∧ _ ↔ _
    rw [mirrors.children above child, listed.eq_def after.table.registry, children]
    exact (mem_listed_notifyExit mirrors.tidy).symm
  · intro other
    change other ∈ f.doomed ∨ other ∈ f.children pid ↔ _
    rw [mirrors.doomed other, mirrors.children pid other]
    unfold KillStaged
    rw [kills, batch, mem_append]
    tauto
  · unfold Tidy
    rw [children, notifyExit_children]
    exact (mirrors.tidy.dropped pid).removeChild staged.parent pid

theorem picked_batch {call : Call M} (origin : Picked s call picked) :
    picked.killBatch = s.killBatch ∨
      ∃ pid, call = .kill pid ∧ s.killBatch = pid ::ₘ picked.killBatch := by
  cases origin with
  | batchKill next => exact .inr ⟨_, rfl, next⟩
  | fresh | batchPromote | replyHold => exact .inl rfl

/-- A call ends one occupancy or none, and may issue one drained kill. -/
theorem Mirrors.call [Message M] {call : Call M} (mirrors : Mirrors f s)
    (sound : Sound s) (graves : Graves s) (origin : Picked s call picked) :
    Follows f (picked.perform call) := by
  have moved := call_move sound.grown.fresh origin
  have registry := picked_registry sound.grown.fresh origin
  have issued : ∀ other, call ≠ .kill other → KillStaged s other →
      KillStaged (picked.perform call) other := by
    intro other notKill waiting
    unfold KillStaged
    rw [registry]
    rcases waiting with staged | drained
    · exact .inl staged
    · rcases picked_batch origin with same | ⟨pid, kills, next⟩
      · rw [← same] at drained
        exact .inr drained
      · rw [next] at drained
        rcases Multiset.mem_cons.mp drained with rfl | rest
        · exact absurd kills notKill
        · exact .inr rest
  have children : (picked.perform call).table.registry.children =
      s.table.registry.children := by rw [registry]
  generalize (picked.table.perform call).1 = outcome at moved
  cases moved with
  | quiet _ kept _ _ _ _ _ rest missed =>
    refine mirrors.quiet (recorded_kept kept) (passes_same rest) children ?_
    intro other waiting alive
    refine issued other ?_ waiting
    rintro rfl
    exact missed _ _ _ rfl rfl alive
  | claimed shift kept _ _ _ _ _ rest =>
    refine mirrors.quiet (recorded_kept (shift.kept kept)) (passes_same rest) children ?_
    exact fun other waiting _ => issued other (by simp) waiting
  | released shift _ kept _ _ _ _ rest =>
    refine mirrors.quiet (recorded_kept (shift.kept kept)) ?_ children ?_
    · split at rest
      · exact passes_cons rest
      · exact passes_same rest
    · exact fun other waiting _ => issued other (by simp) waiting
  | releaseMissed _ arena _ _ _ rest =>
    refine mirrors.quiet (recorded_arena arena) (passes_same rest) children ?_
    exact fun other waiting _ => issued other (by simp) waiting
  | marked names _ shift alive _ parcel slot _ rest =>
    refine mirrors.died graves shift alive (by rw [parcel]; rfl) ?_ (passes_cons rest) ?_
    · rw [slot]
      exact marked_not_alive _ _
    · intro other apart
      refine issued other ?_
      rintro rfl
      exact apart names
  | reclaimed names _ shift alive _ parcel slot _ rest =>
    refine mirrors.died graves shift alive (by rw [parcel]; rfl) ?_ (passes_cons rest) ?_
    · rw [slot]
      exact vacated_not_alive _
    · intro other apart
      refine issued other ?_
      rintro rfl
      exact apart names

theorem deathPass_kin (t : ProcessTable X M) (pid : Pid) (staged : DeathStaged X M) :
    (t.deathPass pid staged).registry.children =
        (t.registry.notifyExit pid staged.parent staged.reason staged.crashInfo).children ∧
      (t.deathPass pid staged).registry.pendingKills =
        t.registry.pendingKills ++ listed t.registry pid := by
  unfold ProcessTable.deathPass
  split <;> exact ⟨rfl, notifyExit_kills _ _ _ _ _⟩

theorem Mirrors.step [Message M] (mirrors : Mirrors f s) (sound : Sound s)
    (graves : Graves s) (fits : IndexFits s event) (step : Step s event after) :
    Follows f after := by
  have still : ∀ {after : Sys X M}, after.table.arena = s.table.arena →
      unfinished after = unfinished s →
      after.table.registry.children = s.table.registry.children →
      (∀ pid, KillStaged s pid → KillStaged after pid) → Follows f after :=
    fun arena rest children issued => mirrors.quiet (recorded_arena arena) (passes_same rest)
      children fun pid waiting _ => issued pid waiting
  cases step with
  | call origin => exact mirrors.call sound graves origin
  | spawn execution parent =>
    unfold Sys.spawn
    rcases spawn_cases s.table execution parent with ⟨spawner, -, -, refused⟩ |
      ⟨index, table, spawned, placed⟩
    · rw [refused]
      exact ⟨f, .refl, mirrors⟩
    · rw [placed] at fits ⊢
      exact mirrors.born sound graves spawned fits
  | deathPass next =>
    obtain ⟨children, kills⟩ := deathPass_kin s.table _ _
    exact mirrors.announced graves (deathPass_arena _ _ _) children kills rfl
      (passes_cons (unfinished_cons_core next rfl))
  | reclaim next =>
    rename_i pid rest
    have before := unfinished_cons_core next rfl
    refine mirrors.quiet ?_ ?_ rfl fun pid waiting _ => waiting
    swap
    · refine (passes_cons (unfinished_cons_core rfl rfl)).trans ?_
      exact (passes_cons before).symm
    have dead := sound.doomed pid (by rw [reclaims_cons before]; exact Multiset.mem_cons_self _ _)
    intro other
    refine recorded_frame (fun _ apart => update_of_ne apart _ _) fun _ => ⟨?_, ?_⟩
    · exact fun alive => alive.not_dead (by rw [dead])
    · change ¬ ((update _ _ _ : UInt32 → Slot X M) _).Alive other
      rw [update_self]
      exact vacated_not_alive _ other
  | pushFree next =>
    exact mirrors.quiet (recorded_arena rfl) (passes_cons (unfinished_cons_core next rfl)).symm rfl
      fun pid waiting _ => waiting
  | registerMonitor =>
    unfold Sys.registerMonitor ProcessTable.registerMonitor
    split
    · exact still rfl rfl rfl fun _ waiting => waiting
    · exact still rfl (unfinished_cons_other rfl rfl) rfl fun _ waiting => waiting
  | monitorReason next =>
    exact still rfl ((unfinished_cons_other rfl rfl).trans (unfinished_cons_other next rfl).symm)
      rfl fun _ waiting => waiting
  | stageNotice next | evictCallWaiter next =>
    exact still rfl (unfinished_cons_other next rfl).symm rfl fun _ waiting => waiting
  | ensureCallWaiter =>
    unfold ProcessTable.ensureCallWaiter
    split <;> exact still rfl (unfinished_cons_other rfl rfl) rfl fun _ waiting => waiting
  | takePendingKills =>
    refine still rfl rfl rfl ?_
    intro pid waiting
    right
    rw [Multiset.mem_add]
    exact waiting.symm
  | demonitor | takeExitNotices | takeCallDowns | enterDraining | livePid =>
    exact still rfl rfl rfl fun _ waiting => waiting

/-! ## The guarantee -/

/-- No death is between its slot hold and its registry pass, and no kill is staged or
drained. -/
def CascadeSettled (s : Sys X M) : Prop :=
  (∀ pid, ¬ PassPending s pid) ∧ s.table.registry.pendingKills = [] ∧ s.killBatch = 0

theorem Sound.parent_of_alive (sound : Sound s) (alive : (s.table.slotOf pid).Alive pid) :
    s.table.parent pid = if (s.table.slotOf pid).parent = 0 then none
      else some (s.table.slotOf pid).parent := by
  have current : (s.table.slotOf pid).lifecycle.generation = generationOf pid :=
    alive.current
  have present := sound.grown.present (alive_occupied alive)
  unfold ProcessTable.parent
  rw [ProcessTable.slot_eq, if_pos present]
  simp [current]

theorem recorded_iff (sound : Sound s) :
    s.table.isAlive pid = true ∧ s.table.parent pid = some parent ↔
      Recorded s pid parent ∧ parent ≠ 0 := by
  rw [isAlive_iff sound.grown.fresh]
  constructor
  · rintro ⟨alive, reported⟩
    rw [sound.parent_of_alive alive] at reported
    split at reported
    · cases reported
    · next notOrigin =>
      cases reported
      exact ⟨⟨alive, rfl⟩, notOrigin⟩
  · rintro ⟨⟨alive, rfl⟩, notOrigin⟩
    rw [sound.parent_of_alive alive, if_neg notOrigin]
    exact ⟨alive, rfl⟩

/-- The table of every run is mirrored by a forest that keeps all its children in
sight. -/
theorem reachable_tended [Message M] {history : List (Event X M)}
    (run : Run Step (fun _ s event => IndexFits s event ∧ NoWrap s event) Sys.init history s) :
    Sound s ∧ Graves s ∧ ∃ f, Mirrors f s ∧ Forest.Tended 0 f := by
  induction run with
  | nil => exact ⟨Sound.init, Graves.init, _, Mirrors.init, nofun, nofun, nofun⟩
  | snoc _ admitted step ih =>
    obtain ⟨fits, room⟩ := admitted
    obtain ⟨sound, graves, f, mirrors, tended⟩ := ih
    obtain ⟨g, steps, mirrored⟩ := mirrors.step sound graves fits step
    exact ⟨sound.step fits step, graves.step sound fits room step, g, mirrored, tended.steps steps⟩

/-- **No orphan escapes the kill cascade.** As long as growth hands out fresh indices
and no generation wraps, a live process whose recorded parent is not alive is under
that parent in the registry with the parent's pass still to come, or its kill is staged
or drained. Once the cascade has settled every live process's parent is alive, and the
registry maps live parents to their live children. -/
theorem no_orphan_escapes [Message M] {history : List (Event X M)}
    (run : Run Step (fun _ s event => IndexFits s event ∧ NoWrap s event) Sys.init history s) :
    (∀ child parent, s.table.isAlive child = true → s.table.parent child = some parent →
      s.table.isAlive parent = false →
        (child ∈ listed s.table.registry parent ∧ PassPending s parent) ∨
          child ∈ s.table.registry.pendingKills ∨ child ∈ s.killBatch) ∧
    (CascadeSettled s →
      (∀ child parent, s.table.isAlive child = true → s.table.parent child = some parent →
        s.table.isAlive parent = true) ∧
      (∀ parent siblings, s.table.registry.children parent = some siblings →
        s.table.isAlive parent = true ∧ siblings ≠ []) ∧
      ∀ parent child, child ∈ listed s.table.registry parent ↔
        s.table.isAlive child = true ∧ s.table.parent child = some parent) := by
  obtain ⟨sound, graves, f, mirrors, tended⟩ := reachable_tended run
  constructor
  · intro child parent alive under down
    obtain ⟨recorded, notOrigin⟩ := (recorded_iff sound).mp ⟨alive, under⟩
    have standing := (mirrors.live child parent).mpr recorded
    rcases tended.inSight child parent standing notOrigin with ⟨member, present⟩ | doomed
    · refine .inl ⟨(mirrors.children parent child).mp member, ?_⟩
      cases above : f.standing parent with
      | absent => exact absurd above present
      | live =>
        have up := (isAlive_iff sound.grown.fresh).mpr ((mirrors.live _ _).mp above).1
        rw [down] at up
        cases up
      | fallen =>
        obtain ⟨staged, waiting, -⟩ := (mirrors.fallen _ _).mp above
        exact passPending_iff.mpr ⟨staged, waiting⟩
    · exact .inr ((mirrors.doomed child).mp doomed)
  · rintro ⟨announced, noKills, noBatch⟩
    have noFallen : ∀ pid parent, f.standing pid ≠ .fallen parent := by
      intro pid parent fallen
      obtain ⟨staged, waiting, -⟩ := (mirrors.fallen _ _).mp fallen
      exact announced pid (passPending_iff.mpr ⟨staged, waiting⟩)
    have noDoomed : f.doomed = ∅ := by
      refine Set.eq_empty_iff_forall_notMem.mpr ?_
      intro pid doomed
      rcases (mirrors.doomed pid).mp doomed with staged | drained
      · rw [noKills] at staged
        cases staged
      · rw [noBatch] at drained
        exact absurd drained (Multiset.notMem_zero _)
    obtain ⟨parents, keys, exactly⟩ := tended.settled noFallen noDoomed
    have alive_of_live : ∀ pid, f.Live pid → s.table.isAlive pid = true :=
      fun pid live => (isAlive_iff sound.grown.fresh).mpr ((mirrors.live_iff pid).mp live)
    refine ⟨?_, ?_, ?_⟩
    · intro child parent alive under
      obtain ⟨recorded, notOrigin⟩ := (recorded_iff sound).mp ⟨alive, under⟩
      exact alive_of_live parent
        (parents child parent ((mirrors.live child parent).mpr recorded) notOrigin)
    · intro parent siblings entry
      obtain ⟨nonempty, -⟩ := mirrors.tidy parent siblings entry
      obtain ⟨child, member⟩ := exists_mem_of_ne_nil siblings nonempty
      refine ⟨alive_of_live parent (keys child parent ?_), nonempty⟩
      rw [mirrors.children, listed, entry]
      exact member
    · intro parent child
      rw [← mirrors.children, recorded_iff sound, ← mirrors.live]
      by_cases origin : parent = 0
      · subst origin
        have childless : child ∉ f.children 0 := fun member =>
          sound.zero_not_alive ((mirrors.live_iff 0).mp (keys child 0 member))
        simp [childless]
      · simp [origin, exactly child parent origin]

/-- A child whose parent was just killed is still listed under it. -/
theorem no_orphan_escapes_killed_parent :
    ∃ (history : List (Event Unit Envelope)) (s : Sys Unit Envelope),
      Run Step (fun _ s event => IndexFits s event ∧ NoWrap s event) Sys.init history s ∧
      s.table.isAlive secondPid = true ∧ s.table.parent secondPid = some firstPid ∧
      s.table.isAlive firstPid = false ∧
      ((secondPid ∈ listed s.table.registry firstPid ∧ PassPending s firstPid) ∨
        secondPid ∈ s.table.registry.pendingKills ∨ secondPid ∈ s.killBatch) := by
  have start : Run Step (fun _ s event => IndexFits s event ∧ NoWrap s event)
      (Sys.init : Sys Unit Envelope) [] Sys.init := .nil
  have parent := run_spawn start () none ⟨.inr (by decide), trivial⟩
  have child := run_spawn parent () (some firstPid) ⟨.inr (by decide), trivial⟩
  have killed := run_call child (.kill firstPid) ⟨trivial, fun _ => by decide⟩
  exact ⟨_, _, killed, rfl, rfl, rfl, (no_orphan_escapes killed).1 secondPid firstPid rfl rfl rfl⟩

/-- With every `u32` index live, a child killed on the cpu is overwritten by another
child of the same parent under the same PID, before its registry pass. The pass then
takes the new child off its parent's entry, and the parent's own death misses it: the
cascade is settled and the child lives on under a dead parent. -/
theorem overrun_orphan_escapes : ∃ (history : List (Event Unit Envelope)) (s : Sys Unit Envelope),
      Run Step (fun _ s event => NoWrap s event) Sys.init history s ∧ CascadeSettled s ∧
      s.table.isAlive secondPid = true ∧ s.table.parent secondPid = some firstPid ∧
      s.table.isAlive firstPid = false := by
  obtain ⟨history, booted⟩ := boot_run (fun _ s event => NoWrap s event)
    (fun _ _ _ _ _ _ => trivial) (2 ^ 32) (Nat.le_refl _)
  have claimed := run_call booted (.tryClaim secondPid) trivial
  have killed := run_call claimed (.kill secondPid) (fun taken => Bool.noConfusion taken)
  have overwritten := run_spawn killed () none trivial
  have again := run_spawn overwritten () (some firstPid) trivial
  have passed := run_deathPass again secondPid (some .killed)
    ⟨.killed, none, firstPid, none⟩ 0 rfl trivial
  have orphaned := run_call passed (.kill firstPid) (fun _ => by decide)
  have settled := run_deathPass orphaned firstPid (some .killed)
    ⟨.killed, none, 0, some ⟨some (), .empty⟩⟩ 0 rfl trivial
  exact ⟨_, _, settled, ⟨no_passPending rfl, rfl, rfl⟩, rfl, rfl, rfl⟩

end Koja.Guarantees.Runtime
