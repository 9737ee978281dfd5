import Koja.Guarantees.Runtime.Moves

/-!
# Occupancy

What every run keeps about the slots: which were ever occupied, what a vacant one
looks like, and whose business the indices on the freelist and in unfinished
reclaims are. It holds whoever issues the calls; the one condition is that growing
the arena hands out a fresh index.
-/
namespace Koja.Guarantees.Runtime
open Koja.Lib Koja.Source.Runtime Multiset

variable {X M : Type} {s after : Sys X M} {index generation : UInt32} {pid other : Pid}
  {slot : Slot X M} {execution : X} {parent : Option Pid} {table : ProcessTable X M}
  {event : Event X M} {admits : List (Event X M) → Sys X M → Event X M → Prop}
  {history : List (Event X M)} {forced : Option ExitReason} {staged : DeathStaged X M}

/-! ## Indices in circulation -/

/-- Every slot beyond the published length is untouched, and every index in
circulation is below it. -/
structure Grown (s : Sys X M) : Prop where
  fresh : Fresh s.table
  free : ∀ index ∈ s.table.registry.free, index.toNat < s.table.published
  pushed : ∀ index ∈ pushes s, index.toNat < s.table.published
  reclaiming : ∀ pid ∈ reclaims s, (slotIndex pid).toNat < s.table.published

theorem Grown.init : Grown (Sys.init : Sys X M) where
  fresh := fun _ _ => rfl
  free := by simp [Sys.init, ProcessTable.new, Registry.new]
  pushed := by simp [pushes_init]
  reclaiming := by
    rw [reclaims_init]
    simp

theorem Grown.present (grown : Grown s) (occupied : (s.table.arena index).lifecycle.state ≠ none) :
    index.toNat < s.table.published := by
  by_contra absent
  rw [grown.fresh index (Nat.le_of_not_lt absent)] at occupied
  exact occupied rfl

theorem Grown.present_of_held (grown : Grown s)
    (held : (s.table.arena index).lifecycle.onCpu = true) :
    index.toNat < s.table.published := by
  by_contra absent
  rw [grown.fresh index (Nat.le_of_not_lt absent)] at held
  cases held

theorem alive_unique (names : slotIndex pid = slotIndex other) (alive : slot.Alive pid)
    (lived : slot.Alive other) : pid = other :=
  Pid.ext names (alive.current.symm.trans lived.current)

theorem alive_occupied (alive : slot.Alive pid) : slot.lifecycle.state ≠ none := by
  obtain ⟨-, state, occupied, -⟩ := Slot.alive_iff.mp alive
  simp [occupied]

/-- Slots left dead or vacant are nobody's. -/
theorem marked_not_alive (slot : Slot X M) (forced : Option ExitReason) (pid : Pid) :
    ¬ (slot.marked forced).Alive pid :=
  fun alive => alive.not_dead rfl

theorem vacated_not_alive (slot : Slot X M) (pid : Pid) : ¬ slot.vacated.Alive pid :=
  fun alive => alive_occupied alive rfl

/-- A step that leaves the published length and the slots beyond it alone. -/
theorem Grown.kept (grown : Grown s) (published : after.table.published = s.table.published)
    (beyond : ∀ other, s.table.published ≤ other.toNat →
      after.table.arena other = s.table.arena other)
    (free : ∀ other ∈ after.table.registry.free, other.toNat < s.table.published)
    (pushed : ∀ other ∈ pushes after, other.toNat < s.table.published)
    (reclaiming : ∀ pid ∈ reclaims after, (slotIndex pid).toNat < s.table.published) :
    Grown after := by
  rw [← published] at beyond free pushed reclaiming
  refine ⟨?_, free, pushed, reclaiming⟩
  intro other absent
  rw [beyond other absent]
  exact grown.fresh other (published ▸ absent)

theorem Grown.shift (grown : Grown s)
    (shift : Shift index s after) (present : index.toNat < s.table.published)
    (pushed : ∀ other ∈ pushes after, other.toNat < s.table.published)
    (reclaiming : ∀ pid ∈ reclaims after, (slotIndex pid).toNat < s.table.published) :
    Grown after := by
  refine grown.kept shift.published ?_ (by rw [shift.registry]; exact grown.free) pushed reclaiming
  intro other beyond
  refine shift.frame other ?_
  rintro rfl
  omega

theorem toNat_toUInt32_le (n : Nat) : n.toUInt32.toNat ≤ n := by
  exact Nat.mod_le _ _

theorem Grown.spawned (grown : Grown s) (spawned : Spawned s.table execution parent index table) :
    Grown { s with table := table } := by
  have longer : s.table.published ≤ table.published := by
    rcases spawned.source with ⟨-, published⟩ | ⟨-, -, -, published⟩ <;> omega
  have below : index.toNat < table.published := by
    rcases spawned.source with ⟨free, published⟩ | ⟨-, -, rfl, published⟩
    · rw [published]
      exact grown.free index (by simp [free])
    · have truncated := toNat_toUInt32_le s.table.published
      omega
  refine ⟨?_, ?_, ?_, ?_⟩
  · intro other beyond
    have different : other ≠ index := by
      rintro rfl
      exact absurd below (Nat.not_lt.mpr beyond)
    rw [spawned.frame other different]
    exact grown.fresh other (Nat.le_trans longer beyond)
  · intro other member
    apply Nat.lt_of_lt_of_le _ longer
    rcases spawned.source with ⟨free, -⟩ | ⟨-, free, -⟩
    · exact grown.free other (by rw [free]; exact List.mem_cons_of_mem _ member)
    · simp [free] at member
  · intro other member
    exact Nat.lt_of_lt_of_le (grown.pushed other member) longer
  · intro pid member
    exact Nat.lt_of_lt_of_le (grown.reclaiming pid member) longer

theorem Grown.step [Message M] (grown : Grown s) (step : Step s event after) : Grown after := by
  have below := grown.pushed
  have reclaimed := grown.reclaiming
  cases step_move grown.fresh step with
  | quiet _ _ _ fresh published free _ rest =>
    obtain ⟨pushed, reclaiming⟩ := traded_same rest
    exact grown.kept published fresh (free ▸ grown.free) (pushed ▸ below) (reclaiming ▸ reclaimed)
  | claimed shift kept current idle ready word claims rest =>
    rename_i pid
    obtain ⟨pushed, reclaiming⟩ := traded_same rest
    have occupied : (s.table.slotOf pid).lifecycle.state ≠ none := by
      rcases ready with state | state <;> simp [state]
    exact grown.shift shift (grown.present occupied) (pushed ▸ below) (reclaiming ▸ reclaimed)
  | released shift routed kept current held word claims rest =>
    obtain ⟨pushed, reclaiming⟩ := released_traded rest
    have present := grown.present_of_held held
    refine grown.shift shift present (pushed ▸ below) ?_
    rw [reclaiming]
    split
    · exact forall_mem_cons.mpr ⟨present, reclaimed⟩
    · exact reclaimed
  | releaseMissed _ arena published free _ rest =>
    obtain ⟨pushed, reclaiming⟩ := traded_same rest
    exact grown.kept published (fun _ _ => by rw [arena]) (free ▸ grown.free) (pushed ▸ below)
      (reclaiming ▸ reclaimed)
  | marked _ _ shift alive _ parcel _ _ rest =>
    obtain ⟨pushed, reclaiming⟩ := marked_traded (by rw [parcel]; rfl) rest
    exact grown.shift shift (grown.present (alive_occupied alive)) (pushed ▸ below)
      (reclaiming ▸ reclaimed)
  | reclaimed _ _ shift alive _ parcel _ _ rest =>
    obtain ⟨pushed, reclaiming⟩ := reclaimed_traded (by rw [parcel]; rfl) rest
    have present := grown.present (alive_occupied alive)
    refine grown.shift shift present ?_ (reclaiming ▸ reclaimed)
    rw [pushed]
    exact forall_mem_cons.mpr ⟨present, below⟩
  | spawned spawned => exact grown.spawned spawned
  | deathPass arena published free _ rest =>
    obtain ⟨pushed, reclaiming⟩ := deathPass_traded rest
    rw [pushed] at below
    refine grown.kept published (fun _ _ => by rw [arena]) ?_ ?_ (reclaiming ▸ reclaimed)
    · rw [free]
      split
      · next freed =>
        rw [if_pos freed] at below
        exact List.forall_mem_cons.mpr ⟨(forall_mem_cons.mp below).1, grown.free⟩
      · exact grown.free
    · split at below
      · exact (forall_mem_cons.mp below).2
      · exact below
  | reclaim shift _ _ _ before now =>
    obtain ⟨pushed, reclaiming⟩ := reclaim_traded before now
    rw [reclaiming, forall_mem_cons] at reclaimed
    refine grown.shift shift reclaimed.1 ?_ reclaimed.2
    rw [pushed]
    exact forall_mem_cons.mpr ⟨reclaimed.1, below⟩
  | pushFree arena published free _ rest =>
    obtain ⟨pushed, reclaiming⟩ := pushFree_traded rest
    rw [pushed, forall_mem_cons] at below
    refine grown.kept published (fun _ _ => by rw [arena]) ?_ below.2 (reclaiming ▸ reclaimed)
    rw [free]
    exact List.forall_mem_cons.mpr ⟨below.1, grown.free⟩

/-- The occupied, claimed and circulating slots of every reachable state. -/
theorem reachable_grown [Message M] (run : Run Step admits Sys.init history s) : Grown s :=
  run.invariant (fun _ s => Grown s) Grown.init fun _ _ _ _ grown _ step => grown.step step

/-! ## Occupancy -/

theorem max_one_ne_zero (generation : UInt32) : max generation 1 ≠ 0 := by
  change (if generation ≤ 1 then 1 else generation) ≠ 0
  split
  · decide
  · next large =>
    rintro rfl
    exact large (by decide)

theorem max_one_of_ne_zero (started : generation ≠ 0) : max generation 1 = generation := by
  change (if generation ≤ 1 then 1 else generation) = generation
  split
  · next small =>
    have positive := UInt32.lt_iff_toNat_lt.mp (UInt32.pos_iff_ne_zero.mpr started)
    exact UInt32.le_antisymm (UInt32.le_iff_toNat_le.mpr positive) small
  · rfl

theorem toNat_max_one_lt {bound : Nat} (small : generation.toNat < bound) (more : 1 < bound) :
    (max generation 1).toNat < bound := by
  change (if generation ≤ 1 then 1 else generation).toNat < bound
  split
  · exact more
  · exact small

theorem lt_max_one {older : UInt32} (larger : older < generation) : older < max generation 1 := by
  change older < if generation ≤ 1 then 1 else generation
  split
  · next small => exact UInt32.lt_of_lt_of_le larger small
  · exact larger

/-- Growing the arena hands out an index no slot has: the truncation of `grow` is
harmless. -/
def IndexFits (s : Sys X M) : Event X M → Prop
  | .spawn _ _ (.ok _) => s.table.registry.free ≠ [] ∨ s.table.published < 2 ^ 32
  | _ => True

/-- A vacant slot holds no execution, no claim and no mail; an occupied one has a
generation a PID can carry. -/
structure SlotSound (slot : Slot X M) : Prop where
  execution : slot.lifecycle.state = none ↔ slot.execution = none
  idle : slot.lifecycle.state = none → slot.lifecycle.onCpu = false
  mail : slot.lifecycle.state = none → slot.hot.mailbox = .empty
  generation : slot.lifecycle.state ≠ none → slot.lifecycle.generation ≠ 0

theorem SlotSound.kept {after : Slot X M} (sound : SlotSound slot) (kept : Kept slot after)
    (cpu : slot.lifecycle.state = none → after.lifecycle.onCpu = false) : SlotSound after where
  execution := by
    rw [kept.vacant, kept.execution]
    exact sound.execution
  idle := fun vacant => cpu (kept.vacant.mp vacant)
  mail := fun vacant => kept.mail (kept.vacant.mp vacant) (sound.mail (kept.vacant.mp vacant))
  generation := by
    intro occupied
    rw [kept.generation]
    exact sound.generation fun vacant => occupied (kept.vacant.mpr vacant)

theorem SlotSound.vacated : SlotSound slot.vacated where
  execution := by simp [Slot.vacated, LifecycleWord.vacate]
  idle := fun _ => rfl
  mail := fun _ => rfl
  generation := by simp [Slot.vacated, LifecycleWord.vacate]

theorem SlotSound.new : SlotSound (Slot.new : Slot X M) where
  execution := by simp [Slot.new, LifecycleWord.new]
  idle := fun _ => rfl
  mail := fun _ => rfl
  generation := by simp [Slot.new, LifecycleWord.new]

theorem SlotSound.marked
    (sound : SlotSound slot) (alive : slot.Alive pid) : SlotSound (slot.marked forced) where
  execution := by
    have occupied := alive_occupied alive
    have held : slot.execution ≠ none := fun empty => occupied (sound.execution.mpr empty)
    simpa [Slot.marked] using held
  idle := by simp [Slot.marked]
  mail := by simp [Slot.marked]
  generation := fun _ => sound.generation (alive_occupied alive)

/-- The occupancy invariant. Indices on the freelist, or about to be pushed onto it,
are distinct and vacant; a slot about to be reclaimed is dead, off the cpu, and
about to be reclaimed once. -/
structure Sound (s : Sys X M) : Prop where
  grown : Grown s
  slots : ∀ index, SlotSound (s.table.arena index)
  distinct : ((s.table.registry.free : Multiset UInt32) + pushes s).Nodup
  vacant : ∀ index ∈ (s.table.registry.free : Multiset UInt32) + pushes s,
    (s.table.arena index).lifecycle.state = none
  once : ((reclaims s).map slotIndex).Nodup
  doomed : ∀ pid ∈ reclaims s,
    (s.table.arena (slotIndex pid)).lifecycle = ⟨generationOf pid, false, some .dead⟩
  reclaimed : ∀ index, (s.table.arena index).lifecycle.state = some .dead →
    (s.table.arena index).lifecycle.onCpu = false → index ∈ (reclaims s).map slotIndex

theorem Sound.init : Sound (Sys.init : Sys X M) where
  grown := Grown.init
  slots := fun _ => SlotSound.new
  distinct := by
    rw [pushes_init]
    simp [Sys.init, ProcessTable.new, Registry.new]
  vacant := fun _ _ => rfl
  once := by simp [reclaims_init]
  doomed := by simp [reclaims_init]
  reclaimed := by simp [Sys.init, ProcessTable.new, Slot.new, LifecycleWord.new]

/-- A slot the arena grows by, or the freelist hands out, is vacant and nobody
else's. -/
theorem Sound.spawn_vacant (sound : Sound s)
    (spawned : Spawned s.table execution parent index table)
    (fits : s.table.registry.free ≠ [] ∨ s.table.published < 2 ^ 32) :
    (s.table.arena index).lifecycle.state = none ∧
      index ∉ (table.registry.free : Multiset UInt32) + pushes s := by
  rcases spawned.source with ⟨free, -⟩ | ⟨empty, free, rfl, -⟩
  · have distinct := sound.distinct
    have vacant := sound.vacant
    rw [free, ← cons_coe, cons_add] at distinct vacant
    exact ⟨vacant index (mem_cons_self _ _), (nodup_cons.mp distinct).1⟩
  · have room : s.table.published < 2 ^ 32 := by
      rcases fits with nonempty | room
      · exact absurd empty nonempty
      · exact room
    have whole : s.table.published.toUInt32.toNat = s.table.published := by
      exact Nat.mod_eq_of_lt room
    constructor
    · rw [sound.grown.fresh _ (Nat.le_of_eq whole.symm)]
      rfl
    · intro member
      rw [free, Multiset.coe_nil, Multiset.zero_add] at member
      have below := sound.grown.pushed _ member
      omega

section Preservation
variable {s after : Sys X M} {index : UInt32}

/-- The indices on the freelist or on their way there are distinct and vacant. -/
def FreeSound (s : Sys X M) : Prop :=
  ((s.table.registry.free : Multiset UInt32) + pushes s).Nodup ∧
    ∀ index ∈ (s.table.registry.free : Multiset UInt32) + pushes s,
      (s.table.arena index).lifecycle.state = none

theorem slots_of_frame {t : ProcessTable X M} {P : Slot X M → Prop}
    (frame : ∀ other, other ≠ index → t.arena other = s.table.arena other)
    (before : ∀ other, P (s.table.arena other)) (here : P (t.arena index)) :
    ∀ other, P (t.arena other) := by
  intro other
  by_cases same : other = index
  · rw [same]
    exact here
  · rw [frame other same]
    exact before other

/-- An occupied slot is neither on the freelist nor on its way there. -/
theorem Sound.not_free (sound : Sound s) (occupied : (s.table.arena index).lifecycle.state ≠ none) :
    index ∉ (s.table.registry.free : Multiset UInt32) + pushes s :=
  fun member => occupied (sound.vacant index member)

/-- A slot that is live, or claimed, is not about to be reclaimed. -/
theorem Sound.not_reclaiming (sound : Sound s) (member : pid ∈ reclaims s)
    (busy : (s.table.arena index).lifecycle.state ≠ some .dead ∨
      (s.table.arena index).lifecycle.onCpu = true) : slotIndex pid ≠ index := by
  rintro rfl
  have word := sound.doomed pid member
  rcases busy with live | held
  · exact live (by rw [word])
  · rw [word] at held
    cases held

/-- A step on one occupied slot that trades no index keeps the freelist sound. -/
theorem Sound.vacant_shift (sound : Sound s) (shift : Shift index s after)
    (occupied : (s.table.arena index).lifecycle.state ≠ none) (pushed : pushes after = pushes s) :
    FreeSound after := by
  unfold FreeSound
  rw [shift.registry, pushed]
  refine ⟨sound.distinct, ?_⟩
  intro other member
  rw [shift.frame other (ne_of_mem_of_not_mem member (sound.not_free occupied))]
  exact sound.vacant other member

/-- A step that vacates a slot and takes charge of its index keeps the freelist
sound. -/
theorem Sound.vacant_vacated (sound : Sound s) (shift : Shift index s after)
    (occupied : (s.table.arena index).lifecycle.state ≠ none)
    (slot : after.table.arena index = (s.table.arena index).vacated)
    (pushed : pushes after = index ::ₘ pushes s) : FreeSound after := by
  unfold FreeSound
  rw [shift.registry, pushed, add_cons]
  refine ⟨nodup_cons.mpr ⟨sound.not_free occupied, sound.distinct⟩, ?_⟩
  intro other member
  by_cases same : other = index
  · rw [same, slot]
    rfl
  · rw [shift.frame other same]
    exact sound.vacant other ((mem_cons.mp member).resolve_left same)

theorem Sound.quiet (sound : Sound s) (grown : Grown after)
    (kept : ∀ index, Kept (s.table.arena index) (after.table.arena index))
    (cpu : ∀ index, (after.table.arena index).lifecycle.onCpu =
      (s.table.arena index).lifecycle.onCpu)
    (free : after.table.registry.free = s.table.registry.free)
    (pushed : pushes after = pushes s) (reclaiming : reclaims after = reclaims s) :
    Sound after where
  grown := grown
  slots := by
    intro index
    refine (sound.slots index).kept (kept index) ?_
    intro vacant
    rw [cpu]
    exact (sound.slots index).idle vacant
  distinct := by
    rw [free, pushed]
    exact sound.distinct
  vacant := by
    intro index member
    rw [free, pushed] at member
    exact (kept index).vacant.mpr (sound.vacant index member)
  once := by
    rw [reclaiming]
    exact sound.once
  doomed := by
    intro pid member
    rw [reclaiming] at member
    have word := sound.doomed pid member
    have dead : (after.table.slotOf pid).lifecycle.state = some .dead :=
      (kept _).dead.mpr (by rw [word])
    have generation := (kept (slotIndex pid)).generation
    have claim := cpu (slotIndex pid)
    cases lifecycle : (after.table.slotOf pid).lifecycle
    simp_all
  reclaimed := by
    intro index dead idle
    rw [reclaiming]
    rw [cpu] at idle
    exact sound.reclaimed index ((kept index).dead.mp dead) idle

/-- A step on one busy slot that ends no reclaim keeps the unfinished ones sound. -/
theorem Sound.doomed_shift (sound : Sound s) (shift : Shift index s after)
    (busy : (s.table.arena index).lifecycle.state ≠ some .dead ∨
      (s.table.arena index).lifecycle.onCpu = true) (member : pid ∈ reclaims s) :
    (after.table.arena (slotIndex pid)).lifecycle = ⟨generationOf pid, false, some .dead⟩ := by
  rw [shift.frame _ (sound.not_reclaiming member busy)]
  exact sound.doomed pid member

theorem Sound.reclaimed_shift (sound : Sound s) (shift : Shift index s after) {other : UInt32}
    (different : other ≠ index) (dead : (after.table.arena other).lifecycle.state = some .dead)
    (idle : (after.table.arena other).lifecycle.onCpu = false) :
    other ∈ (reclaims s).map slotIndex := by
  rw [shift.frame other different] at dead idle
  exact sound.reclaimed other dead idle

/-- A step on one busy slot that leaves nothing to reclaim there. -/
theorem Sound.shift (sound : Sound s) (grown : Grown after) (shift : Shift index s after)
    (busy : (s.table.arena index).lifecycle.state ≠ some .dead ∨
      (s.table.arena index).lifecycle.onCpu = true)
    (slot : SlotSound (after.table.arena index))
    (live : (after.table.arena index).lifecycle.state = some .dead →
      (after.table.arena index).lifecycle.onCpu ≠ false)
    (freed : FreeSound after) (reclaiming : reclaims after = reclaims s) : Sound after := by
  refine ⟨grown, slots_of_frame shift.frame sound.slots slot, freed.1, freed.2,
    reclaiming ▸ sound.once, ?_, ?_⟩
  · rw [reclaiming]
    exact fun pid => sound.doomed_shift shift busy
  · intro other dead idle
    rw [reclaiming]
    refine sound.reclaimed_shift shift ?_ dead idle
    rintro rfl
    exact live dead idle

theorem Sound.spawned (sound : Sound s) (spawned : Spawned s.table execution parent index table)
    (fits : s.table.registry.free ≠ [] ∨ s.table.published < 2 ^ 32) :
    Sound { s with table := table } := by
  obtain ⟨wasVacant, notFree⟩ := sound.spawn_vacant spawned fits
  have apart : ∀ pid ∈ reclaims s, slotIndex pid ≠ index := by
    rintro pid member rfl
    have word := sound.doomed pid member
    rw [word] at wasVacant
    cases wasVacant
  have fewer : (table.registry.free : Multiset UInt32) + pushes s ≤
      (s.table.registry.free : Multiset UInt32) + pushes s := by
    rcases spawned.source with ⟨free, -⟩ | ⟨empty, free, -⟩
    · rw [free, ← cons_coe, cons_add]
      exact le_cons_self _ _
    · rw [free, empty]
  refine ⟨sound.grown.spawned spawned, ?_, nodup_of_le fewer sound.distinct, ?_, sound.once, ?_, ?_⟩
  · refine slots_of_frame spawned.frame sound.slots ⟨?_, ?_, ?_, ?_⟩
    · simp [spawned.word, spawned.execution]
    · simp [spawned.word]
    · simp [spawned.word]
    · intro _
      simp only [spawned.word]
      exact max_one_ne_zero _
  · intro other member
    rw [spawned.frame other (ne_of_mem_of_not_mem member notFree)]
    exact sound.vacant other (mem_of_le fewer member)
  · intro pid member
    rw [spawned.frame _ (apart pid member)]
    exact sound.doomed pid member
  · intro other dead idle
    have different : other ≠ index := by
      rintro rfl
      rw [spawned.word] at dead
      cases dead
    rw [spawned.frame other different] at dead idle
    exact sound.reclaimed other dead idle

/-- Moving an index from an unfinished block onto the freelist changes nothing else. -/
theorem Sound.repushed (sound : Sound s) (grown : Grown after)
    (arena : after.table.arena = s.table.arena) (reclaiming : reclaims after = reclaims s)
    (same : (after.table.registry.free : Multiset UInt32) + pushes after =
      (s.table.registry.free : Multiset UInt32) + pushes s) : Sound after where
  grown := grown
  slots := by
    rw [arena]
    exact sound.slots
  distinct := by
    rw [same]
    exact sound.distinct
  vacant := by
    rw [same, arena]
    exact sound.vacant
  once := by
    rw [reclaiming]
    exact sound.once
  doomed := by
    rw [reclaiming, arena]
    exact sound.doomed
  reclaimed := by
    rw [reclaiming, arena]
    exact sound.reclaimed

theorem Sound.step [Message M] (sound : Sound s) (fits : IndexFits s event)
    (step : Step s event after) : Sound after := by
  have grown := sound.grown.step step
  cases step_move sound.grown.fresh step with
  | quiet _ kept cpu _ _ free _ rest =>
    obtain ⟨pushed, reclaiming⟩ := traded_same rest
    exact sound.quiet grown kept cpu free pushed reclaiming
  | claimed shift kept current idle ready word claims rest =>
    rename_i pid
    obtain ⟨pushed, reclaiming⟩ := traded_same rest
    obtain ⟨occupied, live⟩ : (s.table.slotOf pid).lifecycle.state ≠ none ∧
        (s.table.slotOf pid).lifecycle.state ≠ some .dead := by
      rcases ready with state | state <;> simp [state]
    refine sound.shift grown shift (.inl live)
      ((sound.slots _).kept kept fun vacant => absurd vacant occupied) ?_
      (sound.vacant_shift shift occupied pushed) reclaiming
    rw [word]
    nofun
  | released shift routed kept current held word claims rest =>
    rename_i pid route
    obtain ⟨pushed, reclaiming⟩ := released_traded rest
    have occupied : (s.table.slotOf pid).lifecycle.state ≠ none := by
      intro vacant
      cases held.symm.trans ((sound.slots _).idle vacant)
    have slot := (sound.slots _).kept kept fun vacant => absurd vacant occupied
    have freed := sound.vacant_shift shift occupied pushed
    split at reclaiming
    next dead =>
      refine ⟨grown, slots_of_frame shift.frame sound.slots slot, freed.1, freed.2, ?_, ?_, ?_⟩
      · rw [reclaiming, map_cons]
        refine nodup_cons.mpr ⟨?_, sound.once⟩
        intro member
        obtain ⟨other, present, same⟩ := mem_map.mp member
        exact sound.not_reclaiming present (.inr held) same
      · rw [reclaiming]
        refine forall_mem_cons.mpr ⟨?_, fun _ => sound.doomed_shift shift (.inr held)⟩
        have generation : (s.table.slotOf pid).lifecycle.generation =
            generationOf pid := current
        rw [word]
        simp only [dead, generation]
      · intro other dead idle
        rw [reclaiming, map_cons]
        by_cases same : other = slotIndex pid
        · exact mem_cons.mpr (.inl same)
        · exact mem_cons_of_mem (sound.reclaimed_shift shift same dead idle)
    next live =>
      refine sound.shift grown shift (.inr held) slot ?_ freed reclaiming
      rw [word]
      exact fun dead => absurd dead live
  | releaseMissed _ arena _ free _ rest =>
    obtain ⟨pushed, reclaiming⟩ := traded_same rest
    exact sound.repushed grown arena reclaiming (by rw [free, pushed])
  | marked _ _ shift alive held parcel slot _ rest =>
    obtain ⟨pushed, reclaiming⟩ := marked_traded (by rw [parcel]; rfl) rest
    refine sound.shift grown shift (.inr held) (slot ▸ (sound.slots _).marked alive) ?_
      (sound.vacant_shift shift (alive_occupied alive) pushed) reclaiming
    simp [slot, Slot.marked, held]
  | reclaimed _ _ shift alive idle parcel slot _ rest =>
    obtain ⟨pushed, reclaiming⟩ := reclaimed_traded (by rw [parcel]; rfl) rest
    refine sound.shift grown shift (.inl alive.not_dead) (slot ▸ SlotSound.vacated) ?_
      (sound.vacant_vacated shift (alive_occupied alive) slot pushed) reclaiming
    rw [slot]
    nofun
  | spawned spawned => exact sound.spawned spawned fits
  | deathPass arena _ free _ rest =>
    obtain ⟨pushed, reclaiming⟩ := deathPass_traded rest
    refine sound.repushed grown arena reclaiming ?_
    rw [free, pushed]
    split
    · rw [← cons_coe, cons_add, add_cons]
    · rfl
  | reclaim shift parcel slot claims before now =>
    rename_i pid reclaim others
    obtain ⟨pushed, reclaiming⟩ := reclaim_traded before now
    have word := sound.doomed pid (by rw [reclaiming]; exact mem_cons_self _ _)
    have once := sound.once
    rw [reclaiming, map_cons] at once
    obtain ⟨apart, rest⟩ := nodup_cons.mp once
    have occupied : (s.table.slotOf pid).lifecycle.state ≠ none := by simp [word]
    obtain ⟨distinct, vacant⟩ := sound.vacant_vacated shift occupied slot pushed
    refine ⟨grown, ?_, distinct, vacant, rest, ?_, ?_⟩
    · exact slots_of_frame shift.frame sound.slots (by rw [slot]; exact SlotSound.vacated)
    · intro other member
      have different : slotIndex other ≠ slotIndex pid := by
        intro same
        exact apart (same ▸ mem_map_of_mem slotIndex member)
      rw [shift.frame _ different]
      exact sound.doomed other (by rw [reclaiming]; exact mem_cons_of_mem member)
    · intro other dead idle
      have different : other ≠ slotIndex pid := by
        rintro rfl
        rw [slot] at dead
        cases dead
      have member := sound.reclaimed_shift shift different dead idle
      rw [reclaiming, map_cons] at member
      exact (mem_cons.mp member).resolve_left different
  | pushFree arena _ free _ rest =>
    obtain ⟨pushed, reclaiming⟩ := pushFree_traded rest
    refine sound.repushed grown arena reclaiming ?_
    rw [free, pushed, ← cons_coe, cons_add, add_cons]

end Preservation

/-- A spawn that succeeds met a vacant slot. -/
theorem Sound.spawn_step [Message M]
    (sound : Sound s) (fits : IndexFits s (.spawn execution parent (.ok pid)))
    (step : Step s (.spawn execution parent (.ok pid)) after) :
    (s.table.arena (slotIndex pid)).lifecycle.state = none := by
  generalize label : Event.spawn execution parent (Except.ok pid) = event at step
  cases step with
  | spawn execution parent =>
    simp only [Event.spawn.injEq] at label
    obtain ⟨rfl, rfl, result⟩ := label
    rcases spawn_cases s.table execution parent with ⟨-, -, -, refused⟩ |
      ⟨index, table, spawned, placed⟩
    · rw [refused] at result
      cases result
    · rw [placed] at result
      obtain rfl : pid = _ := by simpa using result
      rw [slotIndex_encode]
      exact (sound.spawn_vacant spawned fits).1
  | _ => cases label

/-- A switch-out reclaim works on a slot that is dead and off the cpu. -/
theorem Sound.reclaim_step [Message M] {reclaim : Reclaim X M}
    (sound : Sound s) (step : Step s (.reclaim pid reclaim) after) :
    (s.table.arena (slotIndex pid)).lifecycle = ⟨generationOf pid, false, some .dead⟩ := by
  generalize label : Event.reclaim pid reclaim = event at step
  cases step with
  | reclaim next =>
    obtain ⟨rfl, -⟩ := label
    apply sound.doomed pid
    rw [reclaims_cons (unfinished_cons_core next rfl)]
    exact mem_cons_self _ _
  | _ => cases label

/-- A process stays alive through a step, or the step is its death edge and its
registry pass is to come. -/
theorem Sound.alive_step [Message M] (sound : Sound s) (fits : IndexFits s event)
    (step : Step s event after) (alive : (s.table.arena (slotIndex pid)).Alive pid) :
    (after.table.arena (slotIndex pid)).Alive pid ∨ ∃ staged, (pid, staged) ∈ passes after := by
  have stays : (after.table.arena (slotIndex pid)) = s.table.arena (slotIndex pid) →
      (after.table.arena (slotIndex pid)).Alive pid := by
    intro same
    rw [same]
    exact alive
  have dies : ∀ {dead : Pid} {forced : Option ExitReason} {staged : DeathStaged X M},
      Shift (slotIndex dead) s after → (s.table.arena (slotIndex dead)).Alive dead →
      unfinished after = .deathPass dead forced staged ::ₘ unfinished s →
      (after.table.arena (slotIndex pid)).Alive pid ∨ ∃ staged, (pid, staged) ∈ passes after := by
    intro dead forced staged shift lived rest
    by_cases here : slotIndex pid = slotIndex dead
    · obtain rfl := alive_unique here alive (here ▸ lived)
      refine .inr ⟨staged, ?_⟩
      rw [passes_cons rest]
      exact mem_cons_self _ _
    · exact .inl (stays (shift.frame _ here))
  cases step_move sound.grown.fresh step with
  | quiet _ kept => exact .inl (((kept _).alive pid).mpr alive)
  | claimed shift kept | released shift _ kept =>
    exact .inl ((shift.kept kept _).alive pid |>.mpr alive)
  | releaseMissed refused arena | deathPass arena | pushFree arena =>
    exact .inl (stays (by rw [arena]))
  | marked _ _ shift lived _ _ _ _ rest | reclaimed _ _ shift lived _ _ _ _ rest =>
    exact dies shift lived rest
  | spawned spawned =>
    refine .inl (stays (spawned.frame _ ?_))
    intro here
    have vacant := (sound.spawn_vacant spawned fits).1
    rw [← here] at vacant
    exact alive_occupied alive vacant
  | reclaim shift parcel slot claims before now =>
    rename_i dead parcel others
    refine .inl (stays (shift.frame _ ?_))
    intro here
    have word := sound.doomed dead (by rw [reclaims_cons before]; exact mem_cons_self _ _)
    exact alive.not_dead (by rw [here, word])

/-- A registry pass is of a death that was waiting for it. -/
theorem deathPass_waiting [Message M]
    {monitors : List MonitorEntry} (step : Step s (.deathPass pid forced staged monitors) after) :
    (pid, staged) ∈ passes s := by
  cases step with
  | deathPass next =>
    rw [passes_cons (unfinished_cons_core next rfl)]
    exact mem_cons_self _ _

/-- A death waits for its registry pass until that pass runs. -/
theorem passes_step [Message M] (fresh : Fresh s.table) (step : Step s event after)
    (waiting : (pid, staged) ∈ passes s) :
    (pid, staged) ∈ passes after ∨
      ∃ forced monitors, event = .deathPass pid forced staged monitors := by
  have same : passes after = passes s → (pid, staged) ∈ passes after ∨
      ∃ forced monitors, event = .deathPass pid forced staged monitors := by
    intro same
    rw [same]
    exact .inl waiting
  cases step_move fresh step with
  | quiet _ _ _ _ _ _ _ rest | claimed _ _ _ _ _ _ _ rest | releaseMissed _ _ _ _ _ rest =>
    exact same (passes_same rest)
  | released _ _ _ _ _ _ _ rest =>
    apply same
    split at rest
    · exact passes_cons rest
    · exact passes_same rest
  | marked names ends shift alive held parcel slot claims rest | reclaimed _ _ _ _ _ _ _ _ rest =>
    rw [passes_cons rest]
    exact .inl (mem_cons_of_mem waiting)
  | spawned => exact same rfl
  | deathPass _ _ _ _ rest =>
    rw [passes_cons rest] at waiting
    rcases mem_cons.mp waiting with ran | rest
    · cases ran
      exact .inr ⟨_, _, rfl⟩
    · exact .inl rest
  | reclaim _ _ _ _ before now =>
    exact same ((passes_cons now).trans (passes_cons before).symm)
  | pushFree _ _ _ _ rest => exact same (passes_cons rest).symm

/-- `pid` is alive, or its registry pass is still to come. -/
def Present (s : Sys X M) (pid : Pid) : Prop :=
  (s.table.arena (slotIndex pid)).Alive pid ∨ ∃ staged, (pid, staged) ∈ passes s

/-- The event is not the registry pass of `pid`. -/
def Spares (event : Event X M) (pid : Pid) : Prop :=
  ∀ forced staged monitors, event ≠ .deathPass pid forced staged monitors

theorem Present.step [Message M] (present : Present s pid) (sound : Sound s)
    (fits : IndexFits s event) (step : Step s event after)
    (unpassed : Spares event pid) : Present after pid := by
  rcases present with alive | ⟨staged, waiting⟩
  · exact sound.alive_step fits step alive
  · rcases passes_step sound.grown.fresh step waiting with waits | ⟨forced, monitors, ran⟩
    · exact .inr ⟨staged, waits⟩
    · exact absurd ran (unpassed forced staged monitors)

/-- Every state of a run that never outgrows the indices is sound. -/
theorem reachable_sound [Message M]
    (fits : ∀ history s event, admits history s event → IndexFits s event)
    (run : Run Step admits Sys.init history s) :
    Sound s := by
  induction run with
  | nil => exact Sound.init
  | snoc _ admitted step sound => exact sound.step (fits _ _ _ admitted) step

end Koja.Guarantees.Runtime
