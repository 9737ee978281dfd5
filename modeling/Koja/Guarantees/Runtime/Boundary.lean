import Koja.Source.Runtime.Wire
import Koja.Guarantees.Runtime.Occupancy

/-!
# A table that outgrows its indices

`grow` counts slots in a `usize` and hands out the count truncated to `u32`, so with
every `u32` index live the next spawn is handed index 0 again. The runs built here
fill the table, without a death, to exactly that point: slot 1 is a child of slot 0,
everything else is unrelated. The state they reach is given in full, so what follows
in it can be evaluated.
-/
namespace Koja.Guarantees.Runtime
open Koja.Lib Koja.Source.Runtime Function
open ProcessTable (spawn takeIndex occupied slotOf slot_eq withHot death deathPass pushFree)

/-- The PID of the first spawn, and of the spawn that comes back to its slot. -/
def firstPid : Pid := encode 0 1

def secondPid : Pid := encode 1 1

/-- The spawner of the `n`-th process. -/
def bootParent (n : Nat) : Option Pid := if n = 1 then some firstPid else none

/-- A slot nobody has touched since its spawn. -/
def bootSlot (index : UInt32) : Slot Unit Envelope :=
  { (Slot.new : Slot Unit Envelope) with
    execution := some ()
    lifecycle := ⟨1, false, some .created⟩
    parent := if index = 1 then firstPid else 0 }

/-- The table after `n` spawns and nothing else. -/
def booted (n : Nat) : Sys Unit Envelope where
  table :=
    { arena := fun index => if index.toNat < n then bootSlot index else Slot.new
      published := n
      tally := { alive := n.toUInt64 }
      mainPid := if n = 0 then 0 else firstPid
      registry := { Registry.new with
        children := fun parent =>
          if parent = firstPid ∧ 1 < n then some [secondPid] else none } }
  claims := 0
  pending := 0
  killBatch := 0
  callBatch := 0

theorem booted_zero : booted 0 = Sys.init := by
  simp [booted, Sys.init, ProcessTable.new, Registry.new]

theorem spawn_grown {X M : Type} (t : ProcessTable X M) (execution : X) (parent : Option Pid)
    (full : t.registry.free = [])
    (accepted : parent.any (fun parent => !t.isAlive parent) = false) :
    t.spawn execution parent = (.ok (encode t.published.toUInt32
          (max (t.arena t.published.toUInt32).lifecycle.generation 1)),
        { arena := update t.arena t.published.toUInt32
            ({ t with published := t.published + 1 }.occupied t.published.toUInt32
              (max (t.arena t.published.toUInt32).lifecycle.generation 1) execution parent)
          published := t.published + 1
          tally :=
            { t.tally.debugAssert ((t.arena t.published.toUInt32).lifecycle.state = none) with
              alive := (t.tally.debugAssert
                ((t.arena t.published.toUInt32).lifecycle.state = none)).alive + 1 }
          mainPid := if t.mainPid = 0 then encode t.published.toUInt32
            (max (t.arena t.published.toUInt32).lifecycle.generation 1) else t.mainPid
          registry := parent.elim t.registry (t.registry.addChild · (encode t.published.toUInt32
            (max (t.arena t.published.toUInt32).lifecycle.generation 1))) }) := by
  unfold spawn takeIndex
  rw [if_neg (by simp [accepted])]
  simp only [full]
  rfl

theorem table_ext {X M : Type} {t t' : ProcessTable X M} (arena : t.arena = t'.arena)
    (published : t.published = t'.published) (tally : t.tally = t'.tally)
    (mainPid : t.mainPid = t'.mainPid) (registry : t.registry = t'.registry) : t = t' := by
  cases t
  congr

section
variable {n : Nat}

theorem booted_accepts (n : Nat) :
    (bootParent n).any (fun parent => !(booted n).table.isAlive parent) = false := by
  unfold bootParent
  split
  · next second =>
    subst second
    rfl
  · rfl

theorem booted_occupied (whole : n.toUInt32.toNat = n) :
    ({ (booted n).table with published := n + 1 }).occupied n.toUInt32 1 () (bootParent n) =
      bootSlot n.toUInt32 := by
  by_cases second : n = 1
  · subst second
    rfl
  · have other : n.toUInt32 ≠ 1 := by
      intro same
      exact second (by rw [← whole, same]; rfl)
    simp [occupied, bootParent, second, booted, whole, bootSlot, other,
      LifecycleWord.occupy, Slot.new]

theorem toUInt32_whole (room : n < 2 ^ 32) : n.toUInt32.toNat = n := by
  exact Nat.mod_eq_of_lt room

theorem booted_fresh (room : n < 2 ^ 32) : (booted n).table.arena n.toUInt32 = Slot.new := by
  simp [booted, toUInt32_whole room]

theorem booted_pid (room : n < 2 ^ 32) : ((booted n).table.spawn () (bootParent n)).1 = .ok
    (encode n.toUInt32 1) := by
  rw [spawn_grown _ _ _ rfl (booted_accepts n)]
  change Except.ok (encode n.toUInt32
    (max ((booted n).table.arena n.toUInt32).lifecycle.generation 1)) = _
  rw [booted_fresh room]
  rfl

theorem booted_table (room : n < 2 ^ 32) :
    ((booted n).table.spawn () (bootParent n)).2 = (booted (n + 1)).table := by
  have whole := toUInt32_whole room
  have empty := booted_fresh room
  have generation : max ((booted n).table.arena n.toUInt32).lifecycle.generation 1 = 1 := by
    rw [empty]
    rfl
  rw [spawn_grown _ _ _ rfl (booted_accepts n)]
  apply table_ext
  · change update (booted n).table.arena n.toUInt32 (occupied _ n.toUInt32
      (max ((booted n).table.arena n.toUInt32).lifecycle.generation 1) _ _) = _
    rw [generation]
    funext index
    by_cases here : index = n.toUInt32
    · rw [here, update_self]
      refine (booted_occupied whole).trans ?_
      simp [booted, whole]
    · have apart : index.toNat ≠ n := by
        intro same
        exact here (UInt32.toNat_inj.mp (same.trans whole.symm))
      rw [update_of_ne here]
      have bound : index.toNat < n + 1 ↔ index.toNat < n := by omega
      simp only [booted, bound]
  · rfl
  · have asserted : (booted n).table.tally.debugAssert
        (((booted n).table.arena (booted n).table.published.toUInt32).lifecycle.state = none) =
        { alive := n.toUInt64 } := by
      change Tally.debugAssert _ (((booted n).table.arena n.toUInt32).lifecycle.state = none) = _
      rw [empty]
      rfl
    simp only [asserted]
    simp [booted]
  · change (if (booted n).table.mainPid = 0 then encode n.toUInt32
      (max ((booted n).table.arena n.toUInt32).lifecycle.generation 1) else _) = _
    cases n with
    | zero | succ => rfl
  · change (bootParent n).elim (booted n).table.registry (Registry.addChild _ · (encode n.toUInt32
      (max ((booted n).table.arena n.toUInt32).lifecycle.generation 1))) = _
    unfold bootParent
    by_cases second : n = 1
    · subst second
      change Registry.addChild (booted 1).table.registry firstPid secondPid = _
      simp only [Registry.addChild, booted, Registry.mk.injEq, true_and, and_true]
      funext parent
      by_cases first : parent = firstPid
      · simp [first, insertPid]
      · simp [first]
    · rw [if_neg second]
      have bound : 1 < n + 1 ↔ 1 < n := by omega
      simp only [booted, bound, Option.elim]

theorem booted_next (room : n < 2 ^ 32) : (booted n).spawn () (bootParent n) = booted (n + 1) := by
  unfold Sys.spawn
  rw [booted_table room]
  rfl

end

theorem spawn_fits {s : Sys Unit Envelope} (room : s.table.published < 2 ^ 32)
    (execution : Unit) (parent : Option Pid) (result : Except Unit Pid) :
    IndexFits s (.spawn execution parent result) := by
  cases result with
  | error => trivial
  | ok => exact .inr room

variable (admits : List (Event Unit Envelope) → Sys Unit Envelope → Event Unit Envelope → Prop)

/-- Any number of spawns up to the last free index is a run, under every admission
that lets spawns through until then. -/
theorem boot_run (spawns : ∀ history s execution parent result, s.table.published < 2 ^ 32 →
      admits history s (.spawn execution parent result)) (n : Nat) (room : n ≤ 2 ^ 32) :
    ∃ history, Run Step admits Sys.init history (booted n) := by
  induction n with
  | zero =>
    rw [booted_zero]
    exact ⟨[], .nil⟩
  | succ n ih =>
    obtain ⟨history, run⟩ := ih (by omega)
    have next := run_spawn run () (bootParent n) (spawns _ _ _ _ _ (by change n < _; omega))
    rw [booted_next (by omega)] at next
    exact ⟨_, next⟩

/-! ## Generations at their end

`vacate` bumps the generation with wrap-around. One process at a time, spawned and
killed over and over, brings the first slot to any generation. -/

/-- The first slot alone was ever used, stands at `generation` and holds what `live`
says. -/
def cycled (generation : UInt32) (live : Bool) : Sys Unit Envelope where
  table :=
    { arena := fun index =>
        if index = 0 then
          { (Slot.new : Slot Unit Envelope) with
            execution := if live then some () else none
            lifecycle := ⟨generation, false, if live then some .created else none⟩ }
        else Slot.new
      published := 1
      tally := { alive := if live then 1 else 0 }
      mainPid := firstPid
      registry := { Registry.new with free := if live then [] else [0] } }
  claims := 0
  pending := 0
  killBatch := 0
  callBatch := 0

section
variable {generation : UInt32}

theorem cycled_spawn (used : max generation 1 = generation) :
    (cycled generation false).table.spawn () none =
      (.ok (encode 0 generation), (cycled generation true).table) := by
  refine Prod.ext ?_ (table_ext ?_ rfl rfl rfl rfl)
  · change Except.ok (encode 0 (max generation 1)) = Except.ok (encode 0 generation)
    rw [used]
  · change update (cycled generation false).table.arena 0
      { bootSlot 0 with lifecycle := ⟨max generation 1, false, some .created⟩ } = _
    rw [used]
    funext index
    by_cases first : index = 0
    · rw [first]
      rfl
    · simp [cycled, first]

/-- What the kill of the slot's occupant leaves for its registry pass. -/
def cycledStaged : DeathStaged Unit Envelope :=
  ⟨.killed, none, 0, some ⟨some (), .empty⟩⟩

theorem cycled_kill : (cycled generation true).table.perform (.kill (encode 0 generation)) =
      (.died (some cycledStaged),
        { (cycled (generation + 1) false).table with registry := Registry.new }) := by
  have found : (cycled generation true).table.slot (encode 0 generation) =
      some ((cycled generation true).table.arena 0, generation) := by
    rw [slot_eq, slotOf, slotIndex_encode, generationOf_encode]
    rfl
  have edge : deathHold generation (some .killed) ((cycled generation true).table.arena 0)
      (cycled generation true).table.tally =
      (some cycledStaged, (cycled (generation + 1) false).table.arena 0, {}) := by
    have killed : LifecycleWord.tryKill ((cycled generation true).table.arena 0).lifecycle
        generation = some ⟨generation, false, some .dead⟩ :=
      if_pos (LifecycleWord.isAlive_iff.mpr ⟨rfl, .created, rfl, by simp⟩)
    unfold deathHold
    rw [killed]
    refine Prod.ext ?_ (Prod.ext ?_ ?_)
    · rfl
    · rfl
    · change Tally.mk 0 ((1 : UInt64) - 1) {} 0 = Tally.mk 0 0 {} 0
      decide
  have held : (cycled generation true).table.withHot (encode 0 generation)
      (deathHold · (some .killed)) =
      (some (some cycledStaged), (cycled generation true).table.store (encode 0 generation)
        ((cycled (generation + 1) false).table.arena 0) {}) := by
    unfold withHot
    rw [found]
    have current : ((cycled generation true).table.arena 0).lifecycle.generation =
      generation := rfl
    simp only [current, ne_eq, not_true_eq_false, if_false, edge]
  change Prod.map Outcome.died id (death _ _ _) = _
  unfold death
  rw [held]
  refine Prod.ext rfl (table_ext ?_ rfl rfl rfl rfl)
  change update _ (slotIndex (encode 0 generation)) _ = _
  rw [slotIndex_encode]
  funext index
  by_cases first : index = 0
  · rw [first, update_self]
  · simp [cycled, first]

theorem cycled_pass (generation : UInt32) :
    { (cycled (generation + 1) false).table with registry := Registry.new }.deathPass
      (encode 0 generation) cycledStaged = (cycled (generation + 1) false).table := by
  have idle : Registry.new.notifyExit (encode 0 generation) 0 .killed none = Registry.new := by
    simp [Registry.notifyExit, Registry.new, Registry.removeChild]
  unfold deathPass pushFree
  simp only [cycledStaged, idle, slotIndex_encode]
  rfl

theorem cycled_first : (Sys.init.table.spawn () none).2 = (cycled 1 true).table := by
  refine table_ext ?_ rfl rfl rfl rfl
  change update (fun _ => Slot.new) 0 (bootSlot 0) = _
  funext index
  by_cases first : index = 0
  · rw [first]
    rfl
  · simp [cycled, first]

end

/-- Spawning and killing one process brings it to any generation. -/
theorem cycle_run (spawns : ∀ history s result, admits history s (.spawn () none result))
    (kills : ∀ history s pid outcome, admits history s (.call (.kill pid) outcome))
    (passes : ∀ history s pid forced staged monitors,
      admits history s (.deathPass pid forced staged monitors)) (n : Nat) (room : n + 1 < 2 ^ 32) :
    ∃ history, Run Step admits Sys.init history (cycled (n + 1).toUInt32 true) := by
  induction n with
  | zero =>
    have spawned := run_spawn (.nil : Run Step admits Sys.init [] Sys.init) () none (spawns _ _ _)
    unfold Sys.spawn at spawned
    rw [cycled_first] at spawned
    exact ⟨_, spawned⟩
  | succ n ih =>
    obtain ⟨history, run⟩ := ih (by omega)
    have bumped : (n + 1).toUInt32 + 1 = (n + 1 + 1).toUInt32 := by simp [Nat.toUInt32]
    have used : max (n + 1 + 1).toUInt32 1 = (n + 1 + 1).toUInt32 := by
      change (if _ ≤ (1 : UInt32) then 1 else _) = _
      rw [if_neg]
      rw [UInt32.le_iff_toNat_le, UInt32.toNat_ofNat', Nat.mod_eq_of_lt room]
      change ¬ n + 1 + 1 ≤ 1
      omega
    have killed := run_call run (.kill (encode 0 (n + 1).toUInt32)) (kills _ _ _ _)
    have reached : (cycled (n + 1).toUInt32 true).perform (.kill (encode 0 (n + 1).toUInt32)) =
        { cycled (n + 1 + 1).toUInt32 false with
          table := { (cycled (n + 1 + 1).toUInt32 false).table with registry := Registry.new }
          pending := .deathPass (encode 0 (n + 1).toUInt32) (some .killed) cycledStaged ::ₘ 0 } :=
            by
      unfold Sys.perform
      rw [cycled_kill, bumped]
      rfl
    rw [reached] at killed
    have settled := cycled_pass (n + 1).toUInt32
    rw [bumped] at settled
    have passed := run_deathPass killed _ _ _ 0 rfl (passes _ _ _ _ _ _)
    rw [settled] at passed
    have spawned := run_spawn passed () none (spawns _ _ _)
    unfold Sys.spawn at spawned
    rw [cycled_spawn used] at spawned
    exact ⟨_, spawned⟩

end Koja.Guarantees.Runtime
