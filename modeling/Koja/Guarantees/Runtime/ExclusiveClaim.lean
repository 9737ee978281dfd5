import Mathlib.Algebra.BigOperators.Group.Multiset.Basic
import Mathlib.Tactic.Abel
import Koja.Lib.Ledger
import Koja.Guarantees.Runtime.Boundary

/-!
# Exclusive claims and exactly-once reclamation

The claims outstanding are the `on_cpu` flags set, one for one. What `spawn` is handed
stays in its slot until a death edge or the owner's switch-out moves it into a
`Reclaim`, which is handed back together with the slot's index: the flow of
executions into the table, through unfinished reclaims and out again balances in
every run, whatever each of them is counted as.
-/
namespace Koja.Guarantees.Runtime
open Koja.Lib Koja.Source.Runtime Multiset

variable {X M : Type} {admits : List (Event X M) → Sys X M → Event X M → Prop}
  {history : List (Event X M)}

/-! ## Claims -/

theorem encode_of_current {slot : Slot X M} {pid : Pid} (current : slot.Current pid) :
    encode (slotIndex pid) slot.lifecycle.generation = pid := by
  have generation : slot.lifecycle.generation = generationOf pid := current
  rw [generation, encode_halves]

/-- The outstanding claims are the `on_cpu` flags, one for each. -/
structure Claimed (s : Sys X M) : Prop where
  once : (s.claims.map slotIndex).Nodup
  granted : ∀ pid ∈ s.claims, (s.table.arena (slotIndex pid)).Current pid ∧
    (s.table.arena (slotIndex pid)).lifecycle.onCpu = true
  owned : ∀ index, (s.table.arena index).lifecycle.onCpu = true →
    encode index (s.table.arena index).lifecycle.generation ∈ s.claims

theorem Claimed.init : Claimed (Sys.init : Sys X M) where
  once := by simp [Sys.init]
  granted := by simp [Sys.init]
  owned := by simp [Sys.init, ProcessTable.new, Slot.new, LifecycleWord.new]

section Preservation
variable {s after : Sys X M} {index : UInt32}

variable {pid : Pid}

/-- The holder of a set `on_cpu` flag is the current occupant. -/
theorem Claimed.mem_iff (claimed : Claimed s) : pid ∈ s.claims ↔ (s.table.slotOf pid).Current pid ∧
      (s.table.slotOf pid).lifecycle.onCpu = true := by
  constructor
  · exact claimed.granted pid
  · rintro ⟨current, held⟩
    have member := claimed.owned _ held
    rwa [encode_of_current current] at member

/-- A step that sets and clears no flag, and moves no claimed slot on, keeps the
claims. -/
theorem Claimed.unflagged (claimed : Claimed s) (claims : after.claims = s.claims)
    (cpu : ∀ index, (after.table.arena index).lifecycle.onCpu =
      (s.table.arena index).lifecycle.onCpu)
    (generation : ∀ index, (s.table.arena index).lifecycle.onCpu = true →
      (after.table.arena index).lifecycle.generation =
        (s.table.arena index).lifecycle.generation) : Claimed after where
  once := by
    rw [claims]
    exact claimed.once
  granted := by
    intro pid member
    rw [claims] at member
    obtain ⟨current, held⟩ := claimed.granted pid member
    refine ⟨?_, (cpu _).trans held⟩
    unfold Slot.Current
    rw [generation _ held]
    exact current
  owned := by
    intro index held
    rw [cpu] at held
    rw [claims, generation index held]
    exact claimed.owned index held

/-- A step on one unclaimed slot keeps the claims if it leaves the slot unclaimed. -/
theorem Claimed.unflagged_at (claimed : Claimed s) (claims : after.claims = s.claims)
    (frame : ∀ other, other ≠ index → after.table.arena other = s.table.arena other)
    (before : (s.table.arena index).lifecycle.onCpu = false)
    (now : (after.table.arena index).lifecycle.onCpu = false) : Claimed after := by
  refine claimed.unflagged claims ?_ ?_
  · intro other
    by_cases here : other = index
    · rw [here, before, now]
    · rw [frame other here]
  · intro other held
    have different : other ≠ index := by
      rintro rfl
      cases before.symm.trans held
    rw [frame other different]

theorem Claimed.won (claimed : Claimed s) (shift : Shift (slotIndex pid) s after)
    (current : (s.table.slotOf pid).Current pid)
    (idle : (s.table.slotOf pid).lifecycle.onCpu = false)
    (word : (after.table.slotOf pid).lifecycle =
      ⟨(s.table.slotOf pid).lifecycle.generation, true, some .running⟩)
    (claims : after.claims = pid ::ₘ s.claims) : Claimed after := by
  have apart : ∀ other ∈ s.claims, slotIndex other ≠ slotIndex pid := by
    intro other member same
    obtain ⟨-, held⟩ := claimed.granted other member
    rw [same, idle] at held
    cases held
  refine ⟨?_, ?_, ?_⟩
  · rw [claims, map_cons]
    refine nodup_cons.mpr ⟨?_, claimed.once⟩
    intro member
    obtain ⟨other, present, same⟩ := mem_map.mp member
    exact apart other present same
  · intro other member
    rw [claims] at member
    rcases mem_cons.mp member with rfl | member
    · unfold Slot.Current
      rw [word]
      exact ⟨current, rfl⟩
    · rw [shift.frame _ (apart other member)]
      exact claimed.granted other member
  · intro index held
    rw [claims]
    by_cases here : index = slotIndex pid
    · rw [here, word]
      change encode _ (s.table.slotOf pid).lifecycle.generation ∈ _
      rw [encode_of_current current]
      exact mem_cons_self _ _
    · rw [shift.frame index here] at held ⊢
      exact mem_cons_of_mem (claimed.owned index held)

theorem Claimed.released (claimed : Claimed s) (shift : Shift (slotIndex pid) s after)
    (current : (s.table.slotOf pid).Current pid)
    (held : (s.table.slotOf pid).lifecycle.onCpu = true)
    (idle : (after.table.slotOf pid).lifecycle.onCpu = false)
    (claims : after.claims = s.claims.erase pid) : Claimed after := by
  have split : s.claims = pid ::ₘ s.claims.erase pid :=
    (cons_erase (claimed.mem_iff.mpr ⟨current, held⟩)).symm
  have once := claimed.once
  rw [split, map_cons] at once
  obtain ⟨apart, rest⟩ := nodup_cons.mp once
  refine ⟨?_, ?_, ?_⟩
  · rw [claims]
    exact rest
  · intro other member
    rw [claims] at member
    have different : slotIndex other ≠ slotIndex pid := by
      intro same
      exact apart (same ▸ mem_map_of_mem slotIndex member)
    rw [shift.frame _ different]
    exact claimed.granted other (mem_of_mem_erase member)
  · intro index flagged
    have different : index ≠ slotIndex pid := by
      rintro rfl
      cases idle.symm.trans flagged
    rw [shift.frame index different] at flagged ⊢
    have member := claimed.owned index flagged
    rw [split] at member
    rw [claims]
    exact (mem_cons.mp member).resolve_left fun here =>
      different (eq_encode_iff.mp here.symm).1.symm

theorem Claimed.step [Message M] {event : Event X M} (claimed : Claimed s) (sound : Sound s)
    (fits : IndexFits s event) (step : Step s event after) : Claimed after := by
  cases step_move sound.grown.fresh step with
  | quiet _ kept cpu _ _ _ claims =>
    exact claimed.unflagged claims cpu fun index _ => (kept index).generation
  | claimed shift _ current idle _ word claims =>
    exact claimed.won shift current idle word claims
  | released shift _ _ current held word claims =>
    exact claimed.released shift current held (by rw [word]) claims
  | releaseMissed refused arena _ _ claims =>
    have missing : after.claims = s.claims := by
      rw [claims]
      exact erase_of_notMem fun member => refused (claimed.granted _ member)
    exact claimed.unflagged missing (fun _ => by rw [arena]) (fun _ _ => by rw [arena])
  | marked names ends shift alive held parcel slot claims rest =>
    rename_i call pid forced staged
    have same : ∀ index, (after.table.arena index).lifecycle.onCpu =
        (s.table.arena index).lifecycle.onCpu ∧
        (after.table.arena index).lifecycle.generation =
          (s.table.arena index).lifecycle.generation := by
      intro index
      by_cases here : index = slotIndex pid
      · rw [here, slot]
        exact ⟨rfl, rfl⟩
      · rw [shift.frame index here]
        exact ⟨rfl, rfl⟩
    exact claimed.unflagged claims (fun index => (same index).1) fun index _ => (same index).2
  | reclaimed _ _ shift _ idle _ slot claims =>
    exact claimed.unflagged_at claims shift.frame idle (by rw [slot]; rfl)
  | spawned spawned =>
    obtain ⟨vacant, -⟩ := sound.spawn_vacant spawned fits
    refine claimed.unflagged_at rfl spawned.frame ((sound.slots _).idle vacant) ?_
    rw [spawned.word]
  | deathPass arena published free claims rest | pushFree arena published free claims rest =>
    exact claimed.unflagged claims (fun _ => by rw [arena]) (fun _ _ => by rw [arena])
  | reclaim shift _ slot claims before now =>
    obtain ⟨-, reclaiming⟩ := reclaim_traded before now
    have word := sound.doomed _ (by rw [reclaiming]; exact mem_cons_self _ _)
    exact claimed.unflagged_at claims shift.frame (by rw [word]) (by rw [slot]; rfl)

end Preservation

/-- The claims of every state of a run that never outgrows the indices. -/
theorem reachable_claimed [Message M]
    (fits : ∀ history s event, admits history s event → IndexFits s event) {s : Sys X M}
    (run : Run Step admits Sys.init history s) :
    Sound s ∧ Claimed s := by
  induction run with
  | nil => exact ⟨Sound.init, Claimed.init⟩
  | snoc _ admitted step ih =>
    have fit := fits _ _ _ admitted
    exact ⟨ih.1.step fit step, ih.2.step ih.1 fit step⟩

/-! ## Executions -/

section Executions
variable {A : Type} [AddCommMonoid A] (weigh : Option X → A) (pid : Pid) {s after : Sys X M}
  {event : Event X M} {parent : Option Pid}

/-- What a label hands to the table as `pid`. -/
def entrusted : Event X M → A
  | .spawn execution _ (.ok fresh) => if fresh = pid then weigh (some execution) else 0
  | _ => 0

/-- What a label hands back of `pid`: the end of a `kill` that reclaimed, or of the
switch-out of a dead process. -/
def returned : Event X M → A
  | .deathPass dead _ staged _ =>
    if dead = pid then staged.reclaim.elim 0 (weigh ·.execution) else 0
  | .pushFree dead reclaim => if dead = pid then weigh reclaim.execution else 0
  | _ => 0

/-- What an unfinished block is about to hand back of `pid`. -/
def carried : Pending X M → A
  | .deathPass dead _ staged =>
    if dead = pid then staged.reclaim.elim 0 (weigh ·.execution) else 0
  | .pushFree dead reclaim => if dead = pid then weigh reclaim.execution else 0
  | _ => 0

def inFlight (s : Sys X M) : A := ((unfinished s).map (carried weigh pid)).sum

/-- What the slot of `pid` holds while `pid` occupies it. -/
def stored (s : Sys X M) : A :=
  if (s.table.arena (slotIndex pid)).Current pid ∧
      (s.table.arena (slotIndex pid)).lifecycle.state ≠ none then
    weigh (s.table.arena (slotIndex pid)).execution
  else 0

variable {weigh pid}

theorem plain_flow (label : isPlain event = true) :
    entrusted weigh pid event = 0 ∧ returned weigh pid event = 0 := by
  cases event with
  | spawn _ _ result =>
    cases result with
    | error => exact ⟨rfl, rfl⟩
    | ok => cases label
  | deathPass | reclaim | pushFree => cases label
  | _ => exact ⟨rfl, rfl⟩

theorem inFlight_cons {item : Pending X M} {others : Multiset (Pending X M)}
    (rest : unfinished s = item ::ₘ others) :
    inFlight weigh pid s = carried weigh pid item + (others.map (carried weigh pid)).sum := by
  rw [inFlight, rest, map_cons, sum_cons]

theorem inFlight_same (rest : unfinished after = unfinished s) :
    inFlight weigh pid after = inFlight weigh pid s := by
  rw [inFlight, rest, inFlight]

theorem stored_same {slot now : Slot X M} (here : s.table.slotOf pid = slot)
    (there : after.table.slotOf pid = now)
    (generation : now.lifecycle.generation = slot.lifecycle.generation)
    (vacant : now.lifecycle.state = none ↔ slot.lifecycle.state = none)
    (execution : now.execution = slot.execution) :
    stored weigh pid after = stored weigh pid s := by
  have current : now.Current pid ↔ slot.Current pid := by
    unfold Slot.Current
    rw [generation]
  simp only [stored, here, there, current, vacant, execution, ne_eq]

theorem stored_kept (kept : ∀ index, Kept (s.table.arena index) (after.table.arena index)) :
    stored weigh pid after = stored weigh pid s :=
  stored_same rfl rfl (kept _).generation (kept _).vacant (kept _).execution

/-- Vacating a slot takes out what its occupant was entrusted with, and nothing of
anybody else's. -/
theorem stored_vacated {dead : Pid} (shift : Shift (slotIndex dead) s after)
    (current : (s.table.arena (slotIndex dead)).Current dead)
    (occupied : (s.table.arena (slotIndex dead)).lifecycle.state ≠ none)
    (slot : after.table.arena (slotIndex dead) = (s.table.arena (slotIndex dead)).vacated) :
    stored weigh pid s =
      (if dead = pid then weigh (s.table.arena (slotIndex dead)).execution else 0) +
        stored weigh pid after := by
  by_cases here : slotIndex pid = slotIndex dead
  · have vacant : (after.table.arena (slotIndex pid)).lifecycle.state = none := by
      rw [here, slot]
      rfl
    have gone : stored weigh pid after = 0 := by simp [stored, vacant]
    rw [gone, add_zero]
    by_cases same : dead = pid
    · subst same
      rw [if_pos rfl, stored, if_pos ⟨current, occupied⟩]
    · rw [if_neg same, stored, if_neg]
      rintro ⟨other, -⟩
      refine same (Pid.ext here.symm ?_)
      rw [here] at other
      exact current.symm.trans other
  · have different : dead ≠ pid := by
      rintro rfl
      exact here rfl
    rw [if_neg different, zero_add]
    exact (stored_same rfl (shift.frame _ here) rfl Iff.rfl rfl).symm

/-- Occupying a vacant slot puts in what the new occupant was entrusted with. -/
theorem stored_spawned {execution : X}
    {table : ProcessTable X M} (spawned : Spawned s.table execution parent index table)
    (vacant : (s.table.arena index).lifecycle.state = none) :
    stored weigh pid s + (if encode index (max (s.table.arena index).lifecycle.generation 1) = pid
      then weigh (some execution) else 0) = stored weigh pid { s with table := table } := by
  by_cases here : slotIndex pid = index
  · subst here
    have empty : stored weigh pid s = 0 := by simp [stored, vacant]
    have current : (table.slotOf pid).Current pid ↔
        max (s.table.slotOf pid).lifecycle.generation 1 = generationOf pid := by
      unfold Slot.Current
      rw [spawned.word]
    rw [empty, zero_add, stored]
    simp only [current, spawned.word, spawned.execution]
    by_cases same : encode (slotIndex pid)
        (max (s.table.slotOf pid).lifecycle.generation 1) = pid
    · have generation := (eq_encode_iff.mp same.symm).2
      rw [if_pos same, if_pos ⟨generation.symm, by simp⟩]
    · rw [if_neg same, if_neg]
      rintro ⟨generation, -⟩
      exact same (eq_encode_iff.mpr ⟨rfl, generation.symm⟩).symm
  · have different : encode index (max (s.table.arena index).lifecycle.generation 1) ≠ pid := by
      intro same
      exact here (eq_encode_iff.mp same.symm).1
    rw [if_neg different, add_zero]
    exact (stored_same rfl (spawned.frame _ here) rfl Iff.rfl rfl).symm

/-- Every step balances: what `spawn` takes in is in the slot, in an unfinished
reclaim, or handed back. -/
theorem executions_balance [Message M] (sound : Sound s)
    (fits : IndexFits s event) (step : Step s event after) :
    inFlight weigh pid s + stored weigh pid s + entrusted weigh pid event =
      returned weigh pid event + (inFlight weigh pid after + stored weigh pid after) := by
  cases step_move sound.grown.fresh step with
  | quiet label kept _ _ _ _ _ rest =>
    rw [(plain_flow label).1, (plain_flow label).2, inFlight_same rest, stored_kept kept, add_zero,
      zero_add]
  | claimed shift kept _ _ _ _ _ rest =>
    rw [inFlight_same rest, stored_kept (shift.kept kept)]
    exact add_comm _ _
  | released shift _ kept _ _ _ _ rest =>
    have same : inFlight weigh pid after = inFlight weigh pid s := by
      split at rest
      · rw [inFlight_cons rest]
        exact zero_add _
      · exact inFlight_same rest
    rw [same, stored_kept (shift.kept kept)]
    exact add_comm _ _
  | releaseMissed _ arena _ _ _ rest =>
    rw [inFlight_same rest, stored_kept (fun index => by rw [arena]; exact .refl _)]
    exact add_comm _ _
  | marked names ends shift alive held parcel slot claims rest =>
    rename_i call dead forced staged
    have still : stored weigh pid after = stored weigh pid s := by
      by_cases here : slotIndex pid = slotIndex dead
      · have occupied := alive_occupied alive
        rw [← here] at slot occupied
        exact stored_same rfl slot rfl (by simpa [Slot.marked] using occupied) rfl
      · exact stored_same rfl (shift.frame _ here) rfl Iff.rfl rfl
    have carriesNothing : carried weigh pid (.deathPass dead forced staged) = 0 := by
      rw [parcel]
      simp [carried, Slot.staged]
    rw [inFlight_cons rest, carriesNothing, zero_add, still]
    exact add_comm _ _
  | reclaimed names ends shift alive idle parcel slot claims rest =>
    rename_i call dead forced staged
    have current := alive.current
    have moved : carried weigh pid (.deathPass dead forced staged) =
        if dead = pid then weigh (s.table.slotOf dead).execution else 0 := by
      rw [parcel]
      rfl
    rw [inFlight_cons rest, moved, stored_vacated shift current (alive_occupied alive) slot]
    change inFlight weigh pid s + (_ + stored weigh pid after) + 0 =
      0 + (_ + inFlight weigh pid s + stored weigh pid after)
    abel
  | spawned spawned =>
    obtain ⟨vacant, -⟩ := sound.spawn_vacant spawned fits
    rw [add_assoc]
    change inFlight weigh pid s + (_ + ite _ _ _) = 0 + (inFlight weigh pid s + _)
    rw [stored_spawned spawned vacant, zero_add]
  | deathPass arena _ _ _ rest | pushFree arena _ _ _ rest =>
    rw [inFlight_cons rest, stored_kept (fun index => by rw [arena]; exact .refl _)]
    change _ + inFlight weigh pid after + _ + 0 = _
    rw [add_zero, add_assoc]
    rfl
  | reclaim shift parcel slot claims before now =>
    rename_i dead reclaim others
    obtain ⟨-, reclaiming⟩ := reclaim_traded before now
    have word := sound.doomed dead (by rw [reclaiming]; exact mem_cons_self _ _)
    have current : (s.table.slotOf dead).Current dead := by
      unfold Slot.Current
      rw [word]
    have moved : carried weigh pid (.pushFree dead reclaim : Pending X M) =
        if dead = pid then weigh (s.table.slotOf dead).execution else 0 := by
      rw [parcel]
      rfl
    rw [inFlight_cons before, inFlight_cons now, moved,
      stored_vacated shift current (by simp [word]) slot]
    change 0 + _ + (_ + stored weigh pid after) + 0 = 0 + (_ + _ + stored weigh pid after)
    abel

end Executions

/-- All that was ever entrusted to the table as `pid` is handed back, about to be, or
still in the slot. -/
theorem executions_conserved [Message M]
    (fits : ∀ history s event, admits history s event → IndexFits s event) {s : Sys X M}
    (run : Run Step admits Sys.init history s) {A : Type}
    [AddCommMonoid A] (weigh : Option X → A) (pid : Pid) :
    total (entrusted weigh pid) history = total (returned weigh pid) history +
      (inFlight weigh pid s + stored weigh pid s) := by
  apply run.conserves (entrusted weigh pid) (returned weigh pid)
    (fun s => inFlight weigh pid s + stored weigh pid s)
  · simp [inFlight, unfinished, stored, Sys.init, ProcessTable.new, Slot.new, LifecycleWord.new]
  · intro history s event after before admitted step
    have fit := fits history s event admitted
    exact executions_balance (reachable_sound fits before) fit step

/-! ## The guarantee -/

/-- `after_switch` and `mark_dead_if_alive` are issued by the holder of a claim, and
`after_switch` uses the claim up. -/
def ByHolder (s : Sys X M) : Event X M → Prop
  | .call (.afterSwitch pid) _ => pid ∈ s.claims
  | .call (.markDeadIfAlive pid) _ => pid ∈ s.claims
  | _ => True

/-- A self-death leaves its reclaim to the switch-out. -/
def SelfDeathDefers (s : Sys X M) : Prop :=
  ∀ pid staged, .deathPass pid none staged ∈ unfinished s → staged.reclaim = none

theorem selfDeath_step [Message M] {s after : Sys X M} {event : Event X M}
    (defers : SelfDeathDefers s) (sound : Sound s) (claimed : Claimed s)
    (holder : ByHolder s event) (step : Step s event after) : SelfDeathDefers after := by
  intro pid staged member
  suffices waited : .deathPass pid none staged ∈ unfinished s ∨ staged.reclaim = none from
    waited.elim (defers pid staged) id
  cases step_move sound.grown.fresh step with
  | quiet label kept cpu fresh published free claims rest
  | claimed shift kept current idle ready word claims rest
  | releaseMissed _ _ _ _ _ rest => exact .inl (rest ▸ member)
  | released _ _ _ _ _ _ _ rest =>
    rw [rest] at member
    left
    split at member
    · exact (mem_cons.mp member).resolve_left (by simp)
    · exact member
  | marked _ _ _ _ _ parcel _ _ rest =>
    rw [rest] at member
    refine (mem_cons.mp member).symm.imp_right ?_
    rintro ⟨⟩
    rw [parcel]
    rfl
  | reclaimed names ends shift alive idle parcel slot claims rest =>
    rename_i call dead forced parcelled
    rw [rest] at member
    refine (mem_cons.mp member).symm.imp_right ?_
    rintro ⟨⟩
    -- only `mark_dead_if_alive` forces no reason, and its caller holds the claim
    cases call with
    | markDeadIfAlive owner =>
      obtain rfl : owner = pid := names
      cases idle.symm.trans (claimed.granted owner holder).2
    | _ => simp [Call.forces] at ends
  | spawned => exact .inl member
  | deathPass arena published free claims rest | pushFree arena published free claims rest =>
    exact .inl (rest ▸ mem_cons_of_mem member)
  | reclaim _ _ _ _ before now =>
    rw [now] at member
    rw [before]
    exact .inl (mem_cons_of_mem ((mem_cons.mp member).resolve_left (by simp)))

/-- The execution a `Reclaim` hands back, as a multiset. -/
def asValues (execution : Option X) : Multiset X := (execution.toList : Multiset X)

/-- One for each occupancy. -/
def asOne (_ : Option X) : Nat := 1

/-- Claims, executions and the freelist in a reached state. -/
structure ExclusiveReclamation (history : List (Event X M)) (s : Sys X M) : Prop where
  exclusive : (s.claims.map decode).Nodup
  granted : ∀ pid ∈ s.claims, (s.table.arena (slotIndex pid)).Current pid ∧
    (s.table.arena (slotIndex pid)).lifecycle.onCpu = true
  executions : ∀ pid, total (entrusted asValues pid) history =
    total (returned asValues pid) history + (inFlight asValues pid s + stored asValues pid s)
  occupancies : ∀ pid, total (entrusted asOne pid) history =
    total (returned asOne pid) history + (inFlight asOne pid s + stored asOne pid s)
  selfDeath : ∀ pid staged, .deathPass pid none staged ∈ s.pending → staged.reclaim = none
  owed : ∀ pid, (s.table.arena (slotIndex pid)).In pid .dead →
    pid ∈ s.claims ∨ .reclaim pid ∈ s.pending
  distinct : s.table.registry.free.Nodup
  vacant : ∀ index ∈ s.table.registry.free, (s.table.arena index).lifecycle.state = none

/-- What a step hands out, takes back and pushes onto the freelist. -/
structure ReturnsOnce (s : Sys X M) (event : Event X M) (after : Sys X M) : Prop where
  occupies : ∀ execution parent pid, event = .spawn execution parent (.ok pid) →
    (s.table.arena (slotIndex pid)).lifecycle.state = none
  refuses : ∀ execution parent back, event = .spawn execution parent (.error back) →
    back = execution ∧ after = s
  unclaimed : ∀ pid, returned asOne pid event ≠ 0 →
    ∀ claim ∈ s.claims, slotIndex claim ≠ slotIndex pid
  pushes : ∀ pid, returned asOne pid event ≠ 0 → returned asOne pid event = 1 ∧
      after.table.registry.free = slotIndex pid :: s.table.registry.free
  pops : (∀ pid, returned asOne pid event = 0) → after.table.registry.free <:+ s.table.registry.free

section
variable {s after : Sys X M} {event : Event X M}

theorem dead_owed (sound : Sound s) (claimed : Claimed s) {pid : Pid}
    (dead : (s.table.slotOf pid).In pid .dead) :
    pid ∈ s.claims ∨ .reclaim pid ∈ s.pending := by
  obtain ⟨current, state⟩ := dead
  by_cases held : (s.table.slotOf pid).lifecycle.onCpu = true
  · exact .inl (claimed.mem_iff.mpr ⟨current, held⟩)
  · right
    have listed := sound.reclaimed _ state (by simpa using held)
    obtain ⟨other, member, same⟩ := mem_map.mp listed
    have word := sound.doomed other member
    have generation : generationOf other = generationOf pid := by
      rw [same] at word
      unfold Slot.Current at current
      rw [word] at current
      exact current
    obtain rfl := Pid.ext same generation
    obtain ⟨item, unfinishedItem, owes⟩ := (mem_filterMap _ _).mp member
    have pending : item ∈ s.pending := mem_of_mem_filter unfinishedItem
    cases item with
    | reclaim owner =>
      obtain rfl : owner = other := by simpa [reclaimer] using owes
      exact pending
    | _ => cases owes

/-- Nobody holds a claim on a slot whose index is on its way to the freelist. -/
theorem pushed_unclaimed (sound : Sound s) (claimed : Claimed s)
    (pushed : index ∈ pushes s) : ∀ claim ∈ s.claims, slotIndex claim ≠ index := by
  rintro claim member rfl
  have vacant := sound.vacant _ (mem_add.mpr (.inr pushed))
  cases ((sound.slots _).idle vacant).symm.trans (claimed.granted claim member).2

theorem spawn_refused [Message M] {execution back : X}
    (step : Step s (.spawn execution parent (.error back)) after) :
    back = execution ∧ after = s := by
  generalize label : Event.spawn execution parent (Except.error back) = event at step
  cases step with
  | spawn execution parent =>
    simp only [Event.spawn.injEq] at label
    obtain ⟨rfl, rfl, failed⟩ := label
    unfold Sys.spawn
    rcases spawn_cases s.table execution parent with ⟨-, -, -, refused⟩ | ⟨_, _, -, placed⟩
    · rw [refused] at failed ⊢
      simpa using failed
    · rw [placed] at failed
      cases failed
  | _ => cases label

theorem returns_once [Message M] (sound : Sound s) (claimed : Claimed s)
    (fits : IndexFits s event) (step : Step s event after) : ReturnsOnce s event after := by
  have refuses : ∀ execution parent back, event = .spawn execution parent (.error back) →
      back = execution ∧ after = s := by
    rintro execution parent back rfl
    exact spawn_refused step
  have untouched : after.table.registry.free = s.table.registry.free →
      (∀ pid, returned asOne pid event = 0) →
      (∀ execution parent pid, event ≠ .spawn execution parent (.ok pid)) →
      ReturnsOnce s event after := by
    intro free nothing other
    refine ⟨fun e p pid same => absurd same (other e p pid), refuses, ?_, ?_, ?_⟩
    · exact fun pid returns => absurd (nothing pid) returns
    · exact fun pid returns => absurd (nothing pid) returns
    · intro _
      rw [free]
  have freed : ∀ dead, after.table.registry.free = slotIndex dead :: s.table.registry.free →
      slotIndex dead ∈ pushes s →
      (∀ pid, returned asOne pid event = if dead = pid then 1 else 0) →
      (∀ execution parent pid, event ≠ .spawn execution parent (.ok pid)) →
      ReturnsOnce s event after := by
    intro dead free pushed one other
    have only : ∀ pid, returned asOne pid event ≠ 0 → dead = pid := by
      intro pid returns
      rw [one] at returns
      by_contra different
      exact returns (if_neg different)
    refine ⟨fun e p pid same => absurd same (other e p pid), refuses, ?_, ?_, ?_⟩
    · intro pid returns
      rw [← only pid returns]
      exact pushed_unclaimed sound claimed pushed
    · intro pid returns
      obtain rfl := only pid returns
      exact ⟨by rw [one, if_pos rfl], free⟩
    · intro nothing
      have kept := nothing dead
      rw [one, if_pos rfl] at kept
      cases kept
  cases step_move sound.grown.fresh step with
  | quiet label _ _ _ _ free =>
    refine untouched free (fun pid => (plain_flow label).2) ?_
    rintro execution parent pid rfl
    cases label
  | claimed shift kept current idle ready word claims rest
  | released shift routed kept current held word claims rest
  | marked names ends shift alive held parcel slot claims rest
  | reclaimed names ends shift alive idle parcel slot claims rest
  | reclaim shift =>
    exact untouched (by rw [shift.registry]) (fun _ => rfl) (by simp)
  | releaseMissed _ _ _ free =>
    exact untouched free (fun _ => rfl) (by simp)
  | spawned spawned =>
    obtain ⟨vacant, -⟩ := sound.spawn_vacant spawned fits
    refine ⟨?_, refuses, fun _ returns => absurd rfl returns, fun _ returns => absurd rfl returns,
      ?_⟩
    · intro _ _ pid same
      simp only [Event.spawn.injEq, Except.ok.injEq] at same
      rw [← same.2.2, slotIndex_encode]
      exact vacant
    · intro _
      rcases spawned.source with ⟨free, -⟩ | ⟨-, free, -⟩
      · rw [free]
        exact List.suffix_cons _ _
      · rw [free]
        exact List.nil_suffix
  | deathPass arena published free claims rest =>
    rename_i dead forced staged monitors
    obtain ⟨pushed, -⟩ := deathPass_traded rest
    cases handed : staged.reclaim with
    | none =>
      refine untouched (by rw [free, handed]; rfl) ?_ (by simp)
      intro pid
      simp [returned, handed]
    | some =>
      refine freed dead (by rw [free, handed]; rfl) ?_ ?_ (by simp)
      · rw [pushed, handed]
        exact mem_cons_self _ _
      · intro pid
        simp [returned, handed, asOne]
  | pushFree arena published free claims rest =>
    rename_i dead reclaim
    obtain ⟨pushed, -⟩ := pushFree_traded rest
    refine freed dead free ?_ (fun _ => rfl) (by simp)
    rw [pushed]
    exact mem_cons_self _ _

/-- **Exclusive claims, exactly-once reclamation.** In every run in which owners
release and kill themselves only under their claim and growth hands out fresh
indices: claims are exclusive, every execution handed to `spawn` is in its slot, in
one unfinished reclaim, or handed back, every occupancy's index is pushed once, and
each step keeps to it. -/
theorem exclusive_exact_reclamation [Message M] {history : List (Event X M)}
    (run : Run Step (fun _ s event => ByHolder s event ∧ IndexFits s event) Sys.init history s) :
    ExclusiveReclamation history s ∧
      ∀ event after, ByHolder s event → IndexFits s event → Step s event after →
        ReturnsOnce s event after := by
  have fits : ∀ (history : List (Event X M)) (s : Sys X M) event,
      ByHolder s event ∧ IndexFits s event → IndexFits s event :=
    fun _ _ _ admitted => admitted.2
  obtain ⟨sound, claimed⟩ := reachable_claimed fits run
  have defers : SelfDeathDefers s := by
    clear sound claimed
    induction run with
    | nil => simp [SelfDeathDefers, unfinished, Sys.init]
    | snoc run admitted step defers =>
      obtain ⟨sound, claimed⟩ := reachable_claimed fits run
      exact selfDeath_step defers sound claimed admitted.1 step
  refine ⟨?_, fun event after _ fits step => returns_once sound claimed fits step⟩
  refine ⟨?_, claimed.granted, executions_conserved fits run asValues,
    executions_conserved fits run asOne, ?_, ?_, ?_, ?_⟩
  · have once := claimed.once
    rw [show s.claims.map slotIndex = (s.claims.map decode).map Prod.fst by
      rw [map_map]; rfl] at once
    exact once.of_map
  · intro pid staged member
    exact defers pid staged (mem_filter.mpr ⟨member, rfl⟩)
  · exact fun pid dead => dead_owed sound claimed dead
  · exact (nodup_add.mp sound.distinct).1
  · exact fun index member => sound.vacant index (mem_add.mpr (.inl member))

end

/-- A process killed while a worker runs it: its execution stays put, owed to the
claim holder's switch-out. -/
theorem exclusive_exact_reclamation_deferred :
    ∃ (history : List (Event Unit Envelope)) (s : Sys Unit Envelope),
      Run Step (fun _ s event => ByHolder s event ∧ IndexFits s event) Sys.init history s ∧
      s.claims = {firstPid} ∧ (s.table.arena 0).In firstPid .dead ∧
      stored asValues firstPid s = {()} ∧ ExclusiveReclamation history s := by
  have start : Run Step (fun _ s event => ByHolder s event ∧ IndexFits s event)
      (Sys.init : Sys Unit Envelope) [] Sys.init := .nil
  have spawned := run_spawn start () none ⟨trivial, .inr (by decide)⟩
  have claimed := run_call spawned (.tryClaim firstPid) ⟨trivial, trivial⟩
  have killed := run_call claimed (.kill firstPid) ⟨trivial, trivial⟩
  exact ⟨_, _, killed, rfl, ⟨rfl, rfl⟩, rfl, (exclusive_exact_reclamation killed).1⟩

/-- Once every `u32` index is live, a spawn is handed the first slot again: it meets an
occupied slot, and one of the two executions entrusted under that PID is gone. -/
theorem overrun_loses_execution :
    ∃ (history : List (Event Unit Envelope)) (s after : Sys Unit Envelope),
      Run Step (fun _ s event => ByHolder s event) Sys.init history s ∧
      Step s (.spawn () none (.ok firstPid)) after ∧
      ¬ ReturnsOnce s (.spawn () none (.ok firstPid)) after ∧
      ¬ ExclusiveReclamation (history ++ [.spawn () none (.ok firstPid)]) after := by
  obtain ⟨history, run⟩ := boot_run (fun _ s event => ByHolder s event ∧ IndexFits s event)
    (fun _ _ _ _ _ room => ⟨trivial, spawn_fits room _ _ _⟩) (2 ^ 32) (Nat.le_refl _)
  have step : Step (booted (2 ^ 32)) (.spawn () none (.ok firstPid))
      ((booted (2 ^ 32)).spawn () none) := .spawn () none
  refine ⟨history, _, _, run.weaken fun _ _ _ admitted => admitted.1, step, ?_, ?_⟩
  · intro once
    have vacant := once.occupies () none firstPid rfl
    cases vacant
  · intro balanced
    -- before the spawn one occupancy was counted, and stored; after it two, and one stored
    have before := executions_conserved (fun _ _ _ admitted => admitted.2) run asOne firstPid
    have now := balanced.occupancies firstPid
    have unreturned : total (returned asOne firstPid) (history ++ [.spawn () none (.ok firstPid)]) =
          total (returned asOne firstPid) history := total_snoc _ _ _
    have entrustedAgain : total (entrusted asOne firstPid)
        (history ++ [.spawn () none (.ok firstPid)]) =
          total (entrusted asOne firstPid) history + 1 := total_snoc _ _ _
    rw [entrustedAgain] at now
    change _ = _ + (0 + 1) at before now
    omega

end Koja.Guarantees.Runtime
