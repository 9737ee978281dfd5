import Koja.Source.Runtime.Machine

/-!
# What one step does to the slots

The inversion of the step relation for the occupancy of the table: the occupants,
the claims on them, and the unfinished blocks that reclaim a slot, return its
index or announce a death. Invariants about occupancy go by the cases of `Move`.
-/
namespace Koja.Guarantees.Runtime
open Koja.Lib Koja.Source.Runtime Function
open Call (claims follows forces)
open ProcessTable (deathPass ensureCallWaiter registerMonitor)

variable {X M : Type} {slot after now : Slot X M} {call : Call M} {write : HotState M → HotState M}
  {pid : Pid} {wake : Option Wake} {message : M} {outcome : Outcome X M} {t : ProcessTable X M}
  {s picked : Sys X M} {rest : Multiset (Pending X M)} {event : Event X M}

/-- A call's block that leaves the slot with its occupant, its claim aside. -/
structure Kept (slot after : Slot X M) : Prop where
  generation : after.lifecycle.generation = slot.lifecycle.generation
  execution : after.execution = slot.execution
  parent : after.parent = slot.parent
  vacant : after.lifecycle.state = none ↔ slot.lifecycle.state = none
  dead : after.lifecycle.state = some .dead ↔ slot.lifecycle.state = some .dead
  mail : slot.lifecycle.state = none → slot.hot.mailbox = .empty → after.hot.mailbox = .empty

theorem Kept.refl (slot : Slot X M) : Kept slot slot :=
  ⟨rfl, rfl, rfl, Iff.rfl, Iff.rfl, fun _ empty => empty⟩

/-- What a call can do to the occupancy of the slot it names. -/
inductive Effect : Call M → Outcome X M → Slot X M → Slot X M → Prop
  | quiet {call : Call M} {outcome : Outcome X M} {slot after : Slot X M}
      (kept : Kept slot after) (cpu : after.lifecycle.onCpu = slot.lifecycle.onCpu)
      (claims : ∀ held, call.claims held outcome = held)
      (follows : ∀ item ∈ call.follows outcome, ∃ caller, item = .evictCallWaiter caller)
      (missed : ∀ forced, call.forces = some forced → ¬ slot.Alive call.pid) :
      Effect call outcome slot after
  | claimed {pid : Pid} {slot after : Slot X M} (kept : Kept slot after)
      (current : slot.Current pid) (idle : slot.lifecycle.onCpu = false)
      (ready : slot.lifecycle.state = some .created ∨ slot.lifecycle.state = some .runnable)
      (word : after.lifecycle = ⟨slot.lifecycle.generation, true, some .running⟩) :
      Effect (.tryClaim pid) (.flag true) slot after
  | released {pid : Pid} {slot after : Slot X M} (kept : Kept slot after)
      (current : slot.Current pid) (held : slot.lifecycle.onCpu = true)
      (word : after.lifecycle = { slot.lifecycle with onCpu := false }) :
      Effect (.afterSwitch pid) (.released (slot.releasedAs pid)) slot after
  | releaseMissed {pid : Pid} {slot after : Slot X M} (same : after = slot)
      (refused : ¬ (slot.Current pid ∧ slot.lifecycle.onCpu = true)) :
      Effect (.afterSwitch pid) (.released .parked) slot after
  | marked {call : Call M} {forced : Option ExitReason} {slot after : Slot X M}
      (ends : call.forces = some forced) (alive : slot.Alive call.pid)
      (held : slot.lifecycle.onCpu = true) (same : after = slot.marked forced) :
      Effect call (.died (some (slot.staged forced none))) slot after
  | reclaimed {call : Call M} {forced : Option ExitReason} {slot after : Slot X M}
      (ends : call.forces = some forced) (alive : slot.Alive call.pid)
      (idle : slot.lifecycle.onCpu = false) (same : after = slot.vacated) :
      Effect call (.died (some (slot.staged forced (some slot.resources)))) slot after

theorem Kept.withState {source target : ProcessState} (state : slot.lifecycle.state = some source)
    (sourceLive : source ≠ .dead := by decide)
    (word : after.lifecycle.state = some target := by exact rfl)
    (targetLive : target ≠ .dead := by decide)
    (generation : after.lifecycle.generation = slot.lifecycle.generation := by rfl)
    (execution : after.execution = slot.execution := by rfl)
    (parent : after.parent = slot.parent := by rfl) : Kept slot after where
  generation := generation
  execution := execution
  parent := parent
  vacant := by simp [word, state]
  dead := by simp [word, state, sourceLive, targetLive]
  mail := by
    intro vacant
    rw [state] at vacant
    cases vacant

/-- A change of the hot state or the scalars alone keeps the occupant. -/
theorem Kept.sameWord
    (mail : slot.lifecycle.state = none → slot.hot.mailbox = .empty → after.hot.mailbox = .empty)
    (word : after.lifecycle.state = slot.lifecycle.state := by rfl)
    (generation : after.lifecycle.generation = slot.lifecycle.generation := by rfl)
    (execution : after.execution = slot.execution := by rfl)
    (parent : after.parent = slot.parent := by rfl) : Kept slot after where
  generation := generation
  execution := execution
  parent := parent
  vacant := by rw [word]
  dead := by rw [word]
  mail := mail

theorem Kept.alive (kept : Kept slot now) (pid : Pid) : now.Alive pid ↔ slot.Alive pid := by
  rw [Slot.alive_iff, Slot.alive_iff]
  have current : now.Current pid ↔ slot.Current pid := by
    unfold Slot.Current
    rw [kept.generation]
  rw [current]
  have live : ∀ (slot : Slot X M), (∃ state, slot.lifecycle.state = some state ∧ state ≠ .dead) ↔
      slot.lifecycle.state ≠ none ∧ slot.lifecycle.state ≠ some .dead := by
    intro slot
    cases slot.lifecycle.state <;> simp
  rw [live, live, ne_eq, ne_eq, kept.vacant, kept.dead]

theorem hotUpdate_mailbox (sets : call.hotUpdate = some write) (hot : HotState M) :
    (write hot).mailbox = hot.mailbox ∧ (write hot).waiting = hot.waiting := by
  cases call <;> simp only [Call.hotUpdate, Option.some.injEq, reduceCtorEq] at sets <;>
    subst sets <;> exact ⟨rfl, rfl⟩

theorem scalarUpdate_frame {write : Slot X M → Slot X M}
    (sets : call.scalarUpdate = some write) (slot : Slot X M) :
    (write slot).lifecycle = slot.lifecycle ∧ (write slot).hot = slot.hot ∧
      (write slot).execution = slot.execution ∧ (write slot).parent = slot.parent := by
  cases call <;> simp only [Call.scalarUpdate, Option.some.injEq, reduceCtorEq] at sets <;>
    subst sets <;> exact ⟨rfl, rfl, rfl, rfl⟩

theorem posted_frame [Message M] (posted : Posted pid slot message wake now) :
    now.lifecycle.generation = slot.lifecycle.generation ∧
      now.hot.awaitingReply = slot.hot.awaitingReply ∧ now.hot.waiting = slot.hot.waiting ∧
      now.hot.mailbox = (slot.hot.mailbox.push message).2 := by
  cases posted with
  | quiet | waking => exact ⟨rfl, rfl, rfl, rfl⟩

theorem posted_kept [Message M] (alive : slot.Alive pid)
    (posted : Posted pid slot message wake after) :
    Kept slot after ∧ after.lifecycle.onCpu = slot.lifecycle.onCpu := by
  obtain ⟨-, state, occupied, -⟩ := Slot.alive_iff.mp alive
  cases posted with
  | quiet =>
    refine ⟨.sameWord fun vacant => ?_, rfl⟩
    rw [occupied] at vacant
    cases vacant
  | waking wakes =>
    obtain ⟨observed, source | source⟩ := wakeSource_eq_some wakes
    all_goals exact ⟨.withState observed (by simp [source.1]), rfl⟩

/-- A block that keeps the occupant and its claim is quiet. -/
theorem Effect.keeps (kept : Kept slot after)
    (cpu : after.lifecycle.onCpu = slot.lifecycle.onCpu := by rfl)
    (claims : ∀ held, call.claims held outcome = held := by exact fun _ => rfl)
    (follows : ∀ item ∈ call.follows outcome, ∃ caller, item = .evictCallWaiter caller := by
      simp [Call.follows])
    (forces : call.forces = none := by rfl) : Effect call outcome slot after :=
  .quiet kept cpu claims follows (by simp [forces])

/-- So is a setter. -/
theorem Effect.sets (sets : (∃ write, call.hotUpdate = some write) ∨
      ∃ write : Slot X M → Slot X M, call.scalarUpdate = some write) (kept : Kept slot after)
    (cpu : after.lifecycle.onCpu = slot.lifecycle.onCpu := by rfl) :
    Effect call .done slot after := by
  cases call <;> simp [Call.hotUpdate, Call.scalarUpdate] at sets <;> exact .keeps kept cpu

theorem popReceived_empty {mailbox : Mailbox M} (empty : mailbox = .empty) :
    mailbox.popReceived = (none, .empty) := by
  subst empty
  rfl

/-- Every block on a slot is quiet, moves the claim, or ends the occupant. -/
theorem touch_effect [Message M] (touch : Touch t call outcome slot after) :
    Effect call outcome slot after := by
  cases touch with
  | delivered alive posted | replied alive _ posted =>
    obtain ⟨kept, cpu⟩ := posted_kept alive posted
    exact .keeps kept cpu
  | bounced | replyBounced | claimMissed | parkRefused | ioSystemMail | ioRefused
  | receiveRefused | replyRefused | popMissed | takeMissed | expiredMissed | ioPromoteMissed
  | callPromoteMissed | yieldMissed | logRefused => exact .keeps (.refl slot)
  | claimed current idle ready =>
    refine .claimed ?_ current idle ready rfl
    rcases ready with state | state
    all_goals exact .withState state
  | parked running | ioParked running | receiveParked running | replyParked running
  | yielded running => exact .keeps (.withState running.2)
  | expired parked parkable =>
    rcases parkable with rfl | rfl
    all_goals exact .keeps (.withState parked.2)
  | ioPromoted parked | callPromoted parked => exact .keeps (.withState parked.2)
  | received _ popped =>
    refine .keeps (.sameWord fun _ empty => ?_)
    rw [popReceived_empty empty] at popped
    cases popped
  | replyReady current slotted | replyStale current slotted =>
    refine .keeps (.sameWord fun _ empty => ?_)
    rw [empty] at slotted
    cases slotted
  | replyCalleeDown | logEntered => exact .keeps (.sameWord fun _ empty => empty)
  | popped =>
    refine .keeps (.sameWord fun _ empty => ?_)
    rw [popReceived_empty empty]
  | replyTaken =>
    refine .keeps (.sameWord fun _ empty => ?_)
    simp [empty, Mailbox.empty]
  | released current held =>
    exact .released (.sameWord fun _ empty => empty) current held rfl
  | releaseMissed refused => exact .releaseMissed rfl refused
  | marked ends alive held => exact .marked ends alive held rfl
  | reclaimed ends alive idle => exact .reclaimed ends alive idle rfl
  | deathMissed ends gone =>
    refine .quiet (.refl slot) rfl ?_ ?_ fun _ _ => gone
    all_goals cases call <;> simp_all [forces, claims, follows]
  | hotSet sets =>
    refine .sets (.inl ⟨_, sets⟩) (.sameWord fun _ empty => ?_)
    rw [← empty]
    exact (hotUpdate_mailbox sets slot.hot).1
  | hotMissed sets => exact .sets (.inl ⟨_, sets⟩) (.refl slot)
  | scalarSet sets =>
    obtain ⟨word, hot, execution, parent⟩ := scalarUpdate_frame sets slot
    refine .sets (.inr ⟨_, sets⟩) (.sameWord (fun _ empty => ?_) (by rw [word]) (by rw [word])
      execution parent) (by rw [word])
    rw [hot, empty]
  | scalarMissed sets => exact .sets (.inr ⟨_, sets⟩) (.refl slot)

/-- A call through a handle of another generation changes nothing. -/
theorem touch_stale [Message M] (touch : Touch t call outcome slot after)
    (stale : ¬ slot.Current call.pid) : after = slot := by
  have notIn : ∀ {state : ProcessState}, ¬ slot.In call.pid state := fun isIn => stale isIn.1
  have notAlive : ¬ slot.Alive call.pid := fun alive => stale alive.current
  cases touch with
  | delivered alive | replied alive | marked ends alive | reclaimed ends alive =>
    exact absurd alive notAlive
  | parked isIn | ioParked isIn | receiveParked isIn | replyParked isIn | expired isIn
  | ioPromoted isIn | callPromoted isIn | yielded isIn => exact absurd isIn notIn
  | claimed current | received current | replyReady current | replyStale current
  | replyCalleeDown current | popped current | replyTaken current | released current
  | logEntered current | hotSet sets current | scalarSet sets current => exact absurd current stale
  | _ => rfl

/-- So does a call that names another process than the current one. -/
theorem touch_apart [Message M] (touch : Touch t call outcome slot after)
    (names : slotIndex call.pid = slotIndex pid) (here : slot.Current pid)
    (other : call.pid ≠ pid) : after = slot :=
  touch_stale touch fun current => other (Pid.ext names (current.symm.trans here))

/-! ## What one step does to the occupancy of the table -/

/-- The slot index an unfinished operation will push onto the freelist. -/
def freedIndex : Pending X M → Option UInt32
  | .deathPass pid _ staged => if staged.reclaim.isSome then some (slotIndex pid) else none
  | .pushFree pid _ => some (slotIndex pid)
  | _ => none

/-- The process an unfinished switch-out still has to reclaim. -/
def reclaimer : Pending X M → Option Pid
  | .reclaim pid => some pid
  | _ => none

/-- The death edge an unfinished operation has marked but not yet announced. -/
def announcer : Pending X M → Option (Pid × DeathStaged X M)
  | .deathPass pid _ staged => some (pid, staged)
  | _ => none

/-- The blocks that end an occupancy, as against those that only read or register. -/
def endsOccupancy : Pending X M → Bool
  | .deathPass _ _ _ | .reclaim _ | .pushFree _ _ => true
  | _ => false

def unfinished (s : Sys X M) : Multiset (Pending X M) := s.pending.filter (endsOccupancy ·)

theorem unfinished_cons_core {item : Pending X M}
    (next : s.pending = item ::ₘ rest) (core : endsOccupancy item = true) :
    unfinished s = item ::ₘ rest.filter (endsOccupancy ·) := by
  rw [unfinished, next]
  exact Multiset.filter_cons_of_pos rest core

theorem unfinished_cons_other {item : Pending X M}
    (next : s.pending = item ::ₘ rest) (other : endsOccupancy item = false) :
    unfinished s = rest.filter (endsOccupancy ·) := by
  rw [unfinished, next]
  exact Multiset.filter_cons_of_neg rest (by simp [other])

def pushes (s : Sys X M) : Multiset UInt32 := (unfinished s).filterMap freedIndex

def reclaims (s : Sys X M) : Multiset Pid := (unfinished s).filterMap reclaimer

def passes (s : Sys X M) : Multiset (Pid × DeathStaged X M) :=
  (unfinished s).filterMap announcer

/-- Somebody holds `pid`'s death between its slot hold and its registry pass. -/
def PassPending (s : Sys X M) (pid : Pid) : Prop :=
  ∃ forced staged, Pending.deathPass pid forced staged ∈ s.pending

theorem passPending_iff : PassPending s pid ↔ ∃ staged, (pid, staged) ∈ passes s := by
  constructor
  · rintro ⟨forced, staged, member⟩
    have held : .deathPass pid forced staged ∈ s.pending.filter (endsOccupancy ·) :=
      Multiset.mem_filter.mpr ⟨member, rfl⟩
    exact ⟨staged, (Multiset.mem_filterMap _ _).mpr ⟨_, held, rfl⟩⟩
  · rintro ⟨staged, member⟩
    obtain ⟨item, held, named⟩ := (Multiset.mem_filterMap _ _).mp member
    have inPending := (Multiset.mem_filter.mp held).1
    cases item with
    | deathPass _ forced =>
      cases named
      exact ⟨forced, staged, inPending⟩
    | _ => cases named

theorem no_passPending (noPasses : passes s = 0) (pid : Pid) : ¬ PassPending s pid := by
  intro pending
  obtain ⟨staged, member⟩ := passPending_iff.mp pending
  rw [noPasses] at member
  exact absurd member (Multiset.notMem_zero _)

theorem pushes_init : pushes (Sys.init : Sys X M) = 0 := rfl

theorem reclaims_init : reclaims (Sys.init : Sys X M) = 0 := rfl

theorem filterMap_of_cons {A B : Type} (select : A → Option B) {items others : Multiset A}
    {item : A} (next : items = item ::ₘ others) :
    items.filterMap select =
      (select item).elim (others.filterMap select) (· ::ₘ others.filterMap select) := by
  rw [next]
  cases selected : select item with
  | none => exact Multiset.filterMap_cons_none _ _ selected
  | some => exact Multiset.filterMap_cons_some _ _ _ selected

section Traded
variable {s after : Sys X M} {item : Pending X M} {others : Multiset (Pending X M)} {pid : Pid}
  {forced : Option ExitReason} {staged : DeathStaged X M} {reclaim : Reclaim X M}

theorem traded_same (rest : unfinished after = unfinished s) :
    pushes after = pushes s ∧ reclaims after = reclaims s := by
  unfold pushes reclaims
  rw [rest]
  exact ⟨rfl, rfl⟩

theorem pushes_cons (rest : unfinished s = item ::ₘ others) :
    pushes s = (freedIndex item).elim (others.filterMap freedIndex)
      (· ::ₘ others.filterMap freedIndex) :=
  filterMap_of_cons freedIndex rest

theorem reclaims_cons (rest : unfinished s = item ::ₘ others) :
    reclaims s = (reclaimer item).elim (others.filterMap reclaimer)
      (· ::ₘ others.filterMap reclaimer) :=
  filterMap_of_cons reclaimer rest

theorem passes_same (rest : unfinished after = unfinished s) : passes after = passes s := by
  rw [passes, rest, passes]

theorem passes_cons (rest : unfinished s = item ::ₘ others) :
    passes s = (announcer item).elim (others.filterMap announcer)
      (· ::ₘ others.filterMap announcer) :=
  filterMap_of_cons announcer rest

theorem deathPass_traded (rest : unfinished s = .deathPass pid forced staged ::ₘ unfinished after) :
    (pushes s = if staged.reclaim.isSome then slotIndex pid ::ₘ pushes after else pushes after) ∧
      reclaims after = reclaims s := by
  refine ⟨?_, (reclaims_cons rest).symm⟩
  rw [pushes_cons rest, freedIndex]
  split <;> rfl

theorem marked_traded (kept : staged.reclaim = none)
    (rest : unfinished after = .deathPass pid forced staged ::ₘ unfinished s) :
    pushes after = pushes s ∧ reclaims after = reclaims s := by
  obtain ⟨pushed, reclaiming⟩ := deathPass_traded rest
  refine ⟨?_, reclaiming.symm⟩
  simpa [kept] using pushed

theorem reclaimed_traded (handed : staged.reclaim = some reclaim)
    (rest : unfinished after = .deathPass pid forced staged ::ₘ unfinished s) :
    pushes after = slotIndex pid ::ₘ pushes s ∧ reclaims after = reclaims s := by
  obtain ⟨pushed, reclaiming⟩ := deathPass_traded rest
  refine ⟨?_, reclaiming.symm⟩
  simpa [handed] using pushed

theorem released_traded {dead : Prop} [Decidable dead]
    (rest : unfinished after = if dead then .reclaim pid ::ₘ unfinished s else unfinished s) :
    pushes after = pushes s ∧ reclaims after = if dead then pid ::ₘ reclaims s else reclaims s := by
  by_cases died : dead
  · rw [if_pos died] at rest ⊢
    exact ⟨pushes_cons rest, reclaims_cons rest⟩
  · rw [if_neg died] at rest ⊢
    exact traded_same rest

theorem reclaim_traded (before : unfinished s = .reclaim pid ::ₘ others)
    (now : unfinished after = .pushFree pid reclaim ::ₘ others) :
    pushes after = slotIndex pid ::ₘ pushes s ∧ reclaims s = pid ::ₘ reclaims after := by
  rw [pushes_cons before, pushes_cons now, reclaims_cons before, reclaims_cons now]
  exact ⟨rfl, rfl⟩

theorem pushFree_traded (rest : unfinished s = .pushFree pid reclaim ::ₘ unfinished after) :
    pushes s = slotIndex pid ::ₘ pushes after ∧ reclaims after = reclaims s :=
  ⟨pushes_cons rest, (reclaims_cons rest).symm⟩

end Traded

/-- `Shift index s after`: only the slot `index` may differ, and no unfinished block
is traded unless said otherwise. -/
structure Shift (index : UInt32) (s after : Sys X M) : Prop where
  published : after.table.published = s.table.published
  registry : after.table.registry = s.table.registry
  frame : ∀ other, other ≠ index → after.table.arena other = s.table.arena other

theorem Shift.kept {after : Sys X M} {index : UInt32} (shift : Shift index s after)
    (here : Kept (s.table.arena index) (after.table.arena index)) :
    ∀ other, Kept (s.table.arena other) (after.table.arena other) := by
  intro other
  by_cases same : other = index
  · rw [same]
    exact here
  · rw [shift.frame other same]
    exact .refl _

/-- The labels that neither open nor end an occupancy, whatever the calls among them do
to a claim. -/
def isPlain : Event X M → Bool
  | .spawn _ _ (.ok _) | .deathPass _ _ _ _ | .reclaim _ _ | .pushFree _ _ => false
  | _ => true

/-- The occupancy side of a step: the occupants, the claims on them, and the blocks
that will reclaim a slot, push its index or announce a death. -/
inductive Move [Message M] : Sys X M → Event X M → Sys X M → Prop
  | quiet {s after : Sys X M} {event : Event X M} (label : isPlain event = true)
      (kept : ∀ index, Kept (s.table.arena index) (after.table.arena index))
      (cpu : ∀ index, (after.table.arena index).lifecycle.onCpu =
        (s.table.arena index).lifecycle.onCpu)
      (fresh : ∀ index, s.table.published ≤ index.toNat →
        after.table.arena index = s.table.arena index)
      (published : after.table.published = s.table.published)
      (free : after.table.registry.free = s.table.registry.free)
      (claims : after.claims = s.claims) (rest : unfinished after = unfinished s)
      (missed : ∀ call outcome forced, event = .call call outcome → call.forces = some forced →
        ¬ (s.table.arena (slotIndex call.pid)).Alive call.pid) :
      Move s event after
  | claimed {s after : Sys X M} {pid : Pid} (shift : Shift (slotIndex pid) s after)
      (kept : Kept (s.table.arena (slotIndex pid)) (after.table.arena (slotIndex pid)))
      (current : (s.table.arena (slotIndex pid)).Current pid)
      (idle : (s.table.arena (slotIndex pid)).lifecycle.onCpu = false)
      (ready : (s.table.arena (slotIndex pid)).lifecycle.state = some .created ∨
        (s.table.arena (slotIndex pid)).lifecycle.state = some .runnable)
      (word : (after.table.arena (slotIndex pid)).lifecycle =
        ⟨(s.table.arena (slotIndex pid)).lifecycle.generation, true, some .running⟩)
      (claims : after.claims = pid ::ₘ s.claims) (rest : unfinished after = unfinished s) :
      Move s (.call (.tryClaim pid) (.flag true)) after
  | released {s after : Sys X M} {pid : Pid} {route : Released}
      (shift : Shift (slotIndex pid) s after)
      (routed : route = (s.table.arena (slotIndex pid)).releasedAs pid)
      (kept : Kept (s.table.arena (slotIndex pid)) (after.table.arena (slotIndex pid)))
      (current : (s.table.arena (slotIndex pid)).Current pid)
      (held : (s.table.arena (slotIndex pid)).lifecycle.onCpu = true)
      (word : (after.table.arena (slotIndex pid)).lifecycle =
        { (s.table.arena (slotIndex pid)).lifecycle with onCpu := false })
      (claims : after.claims = s.claims.erase pid)
      (rest : unfinished after =
        if (s.table.arena (slotIndex pid)).lifecycle.state = some .dead then
          .reclaim pid ::ₘ unfinished s else unfinished s) :
      Move s (.call (.afterSwitch pid) (.released route)) after
  | releaseMissed {s after : Sys X M} {pid : Pid}
      (refused : ¬ ((s.table.arena (slotIndex pid)).Current pid ∧
        (s.table.arena (slotIndex pid)).lifecycle.onCpu = true))
      (arena : after.table.arena = s.table.arena)
      (published : after.table.published = s.table.published)
      (free : after.table.registry.free = s.table.registry.free)
      (claims : after.claims = s.claims.erase pid)
      (rest : unfinished after = unfinished s) :
      Move s (.call (.afterSwitch pid) (.released .parked)) after
  | marked {s after : Sys X M} {call : Call M} {pid : Pid} {forced : Option ExitReason}
      {staged : DeathStaged X M} (names : call.pid = pid) (ends : call.forces = some forced)
      (shift : Shift (slotIndex pid) s after)
      (alive : (s.table.arena (slotIndex pid)).Alive pid)
      (held : (s.table.arena (slotIndex pid)).lifecycle.onCpu = true)
      (parcel : staged = (s.table.arena (slotIndex pid)).staged forced none)
      (slot : after.table.arena (slotIndex pid) = (s.table.arena (slotIndex pid)).marked forced)
      (claims : after.claims = s.claims)
      (rest : unfinished after = .deathPass pid forced staged ::ₘ unfinished s) :
      Move s (.call call (.died (some staged))) after
  | reclaimed {s after : Sys X M} {call : Call M} {pid : Pid} {forced : Option ExitReason}
      {staged : DeathStaged X M} (names : call.pid = pid) (ends : call.forces = some forced)
      (shift : Shift (slotIndex pid) s after)
      (alive : (s.table.arena (slotIndex pid)).Alive pid)
      (idle : (s.table.arena (slotIndex pid)).lifecycle.onCpu = false)
      (parcel : staged = (s.table.arena (slotIndex pid)).staged forced
        (some (s.table.arena (slotIndex pid)).resources))
      (slot : after.table.arena (slotIndex pid) = (s.table.arena (slotIndex pid)).vacated)
      (claims : after.claims = s.claims)
      (rest : unfinished after = .deathPass pid forced staged ::ₘ unfinished s) :
      Move s (.call call (.died (some staged))) after
  | spawned {s : Sys X M} {execution : X} {parent : Option Pid} {index : UInt32}
      {table : ProcessTable X M} (spawned : Spawned s.table execution parent index table) :
      Move s (.spawn execution parent
          (.ok (encode index (max (s.table.arena index).lifecycle.generation 1))))
        { s with table := table }
  | deathPass {s after : Sys X M} {pid : Pid} {forced : Option ExitReason}
      {staged : DeathStaged X M} {monitors : List MonitorEntry}
      (arena : after.table.arena = s.table.arena)
      (published : after.table.published = s.table.published)
      (free : after.table.registry.free =
        if staged.reclaim.isSome then slotIndex pid :: s.table.registry.free
        else s.table.registry.free)
      (claims : after.claims = s.claims)
      (rest : unfinished s = .deathPass pid forced staged ::ₘ unfinished after) :
      Move s (.deathPass pid forced staged monitors) after
  | reclaim {s after : Sys X M} {pid : Pid} {reclaim : Reclaim X M}
      {others : Multiset (Pending X M)} (shift : Shift (slotIndex pid) s after)
      (parcel : reclaim = (s.table.arena (slotIndex pid)).resources)
      (slot : after.table.arena (slotIndex pid) = (s.table.arena (slotIndex pid)).vacated)
      (claims : after.claims = s.claims) (before : unfinished s = .reclaim pid ::ₘ others)
      (now : unfinished after = .pushFree pid reclaim ::ₘ others) :
      Move s (.reclaim pid reclaim) after
  | pushFree {s after : Sys X M} {pid : Pid} {reclaim : Reclaim X M}
      (arena : after.table.arena = s.table.arena)
      (published : after.table.published = s.table.published)
      (free : after.table.registry.free = slotIndex pid :: s.table.registry.free)
      (claims : after.claims = s.claims)
      (rest : unfinished s = .pushFree pid reclaim ::ₘ unfinished after) :
      Move s (.pushFree pid reclaim) after

theorem picked_frame (origin : Picked s call picked) :
    picked.table = s.table ∧ picked.claims = s.claims ∧ unfinished picked = unfinished s := by
  cases origin with
  | fresh | batchKill | batchPromote => exact ⟨rfl, rfl, rfl⟩
  | replyHold next =>
    exact ⟨rfl, rfl, (unfinished_cons_other next rfl).symm⟩

theorem picked_table [Message M] (origin : Picked s call picked) :
    (picked.perform call).table = (s.table.perform call).2 := by
  rw [← (picked_frame origin).1]
  rfl

/-- A death edge leaves its registry pass, and nothing else. -/
theorem follows_died {forced : Option ExitReason}
    (ends : call.forces = some forced) (staged : DeathStaged X M) :
    call.follows (.died (some staged)) = {.deathPass call.pid forced staged} ∧
      ∀ held, call.claims held (.died (some staged)) = held := by
  cases call <;> simp only [forces, Option.some.injEq, reduceCtorEq] at ends <;>
    subst ends <;> exact ⟨rfl, fun _ => rfl⟩

/-- A release leaves a reclaim exactly when it found its process dead. -/
theorem follows_released (pid : Pid) (slot : Slot X M) : (Call.afterSwitch pid : Call M).follows
      (.released (slot.releasedAs pid) : Outcome X M) =
      if slot.lifecycle.state = some .dead then {.reclaim pid} else 0 := by
  unfold Slot.releasedAs
  split <;> simp_all [follows]

/-- Slots beyond the published length are the ones a chunk is allocated with. -/
def Fresh (t : ProcessTable X M) : Prop :=
  ∀ index, t.published ≤ index.toNat → t.arena index = Slot.new

/-- With the unpublished slots fresh, the bounds check of a lookup decides nothing. -/
theorem isAlive_iff (fresh : Fresh t) :
    t.isAlive pid = true ↔ (t.slotOf pid).Alive pid := by
  change Option.any _ (if (slotIndex pid).toNat < t.published then
    some (t.slotOf pid, generationOf pid) else none) = true ↔ _
  split
  · exact Iff.rfl
  · next absent =>
    simp [fresh _ (Nat.le_of_not_lt absent), Slot.new_not_alive]

theorem picked_registry [Message M] (fresh : Fresh s.table) (origin : Picked s call picked) :
    (picked.perform call).table.registry = s.table.registry := by
  rw [picked_table origin, (perform_local s.table call (fresh _)).registry]

theorem call_move [Message M] (fresh : Fresh s.table) (origin : Picked s call picked) :
    Move s (.call call (picked.table.perform call).1) (picked.perform call) := by
  obtain ⟨table, claims, rest⟩ := picked_frame origin
  have isLocal := perform_local s.table call (fresh _)
  have absent := perform_absent s.table call
  have run := picked_table origin
  rw [table]
  have shift : Shift (slotIndex call.pid) s (picked.perform call) := by
    refine ⟨?_, ?_, ?_⟩
    · rw [run, isLocal.published]
    · rw [run, isLocal.registry]
    · rw [run]
      exact isLocal.frame
  have effect := touch_effect isLocal.touch
  rw [← run] at effect
  have claimsAfter : (picked.perform call).claims =
      call.claims s.claims (s.table.perform call).1 := by
    rw [← claims, ← table]
    rfl
  have restAfter : unfinished (picked.perform call) =
      (call.follows (s.table.perform call).1).filter (endsOccupancy ·) + unfinished s := by
    rw [← rest, ← table]
    exact Multiset.filter_add _ _ _
  generalize (s.table.perform call).1 = outcome at *
  cases effect with
  | quiet kept cpu held follows missed =>
    have endsNothing : (call.follows outcome).filter (endsOccupancy ·) = 0 := by
      rw [Multiset.filter_eq_nil]
      intro item member
      obtain ⟨caller, rfl⟩ := follows item member
      simp [endsOccupancy]
    rw [held] at claimsAfter
    rw [endsNothing, Multiset.zero_add] at restAfter
    refine .quiet rfl (shift.kept kept) ?_ ?_ shift.published (by rw [shift.registry]) claimsAfter
      restAfter ?_
    · intro index
      by_cases here : index = slotIndex call.pid
      · rw [here]
        exact cpu
      · rw [shift.frame index here]
    · intro index beyond
      by_cases here : index = slotIndex call.pid
      · rw [here] at beyond ⊢
        rw [run, absent beyond]
      · exact shift.frame index here
    · rintro _ _ forced ⟨rfl, rfl⟩ ends
      exact missed forced ends
  | claimed kept current idle ready word =>
    exact .claimed shift kept current idle ready word claimsAfter
      (by simpa [follows] using restAfter)
  | released kept current held word =>
    simp only [Call.pid] at *
    refine .released shift rfl kept current held word claimsAfter ?_
    rw [restAfter, follows_released]
    split
    · rfl
    · exact Multiset.zero_add _
  | releaseMissed same refused =>
    rename_i pid
    refine .releaseMissed refused ?_ shift.published (by rw [shift.registry]) claimsAfter
      (by simpa [follows] using restAfter)
    funext index
    by_cases here : index = slotIndex pid
    · rw [here]
      exact same
    · exact shift.frame index here
  | marked ends alive held same =>
    obtain ⟨follows, claimsKept⟩ := follows_died ends _
    rw [claimsKept] at claimsAfter
    refine .marked rfl ends shift alive held rfl same claimsAfter ?_
    rw [restAfter, follows]
    rfl
  | reclaimed ends alive idle same =>
    obtain ⟨follows, claimsKept⟩ := follows_died ends _
    rw [claimsKept] at claimsAfter
    refine .reclaimed rfl ends shift alive idle rfl same claimsAfter ?_
    rw [restAfter, follows]
    rfl

theorem removeChild_free (registry : Registry) (parent pid : Pid) :
    (registry.removeChild parent pid).free = registry.free := by
  unfold Registry.removeChild
  split <;> rfl

theorem notifyExit_free (registry : Registry) (pid parent : Pid) (reason : ExitReason)
    (crashInfo : Option CrashInfo) :
    (registry.notifyExit pid parent reason crashInfo).free = registry.free :=
  removeChild_free _ _ _

theorem deathPass_arena (t : ProcessTable X M) (pid : Pid) (staged : DeathStaged X M) :
    (t.deathPass pid staged).arena = t.arena := by
  unfold deathPass
  split <;> rfl

theorem ensureCallWaiter_arena (t : ProcessTable X M) (caller callee : Pid) (token : Int64) :
    (t.ensureCallWaiter caller callee token).arena = t.arena := by
  unfold ensureCallWaiter
  split <;> rfl

theorem deathPass_published (t : ProcessTable X M) (pid : Pid) (staged : DeathStaged X M) :
    (t.deathPass pid staged).published = t.published := by
  unfold deathPass
  split <;> rfl

theorem deathPass_free (t : ProcessTable X M) (pid : Pid) (staged : DeathStaged X M) :
    (t.deathPass pid staged).registry.free =
      if staged.reclaim.isSome then slotIndex pid :: t.registry.free else t.registry.free := by
  unfold deathPass
  split
  · exact congrArg (slotIndex pid :: ·) (notifyExit_free _ _ _ _ _)
  · exact notifyExit_free _ _ _ _ _

theorem step_move [Message M] {after : Sys X M} (fresh : Fresh s.table)
    (step : Step s event after) : Move s event after := by
  have still : ∀ {event : Event X M} {after : Sys X M}, isPlain event = true →
      (∀ call outcome, event ≠ .call call outcome) → after.table.arena = s.table.arena →
      after.table.published = s.table.published →
      after.table.registry.free = s.table.registry.free → after.claims = s.claims →
      unfinished after = unfinished s → Move s event after := by
    intro event after label notCall arena published free claims rest
    refine .quiet label ?_ ?_ ?_ published free claims rest ?_
    · intro index
      rw [arena]
      exact .refl _
    · intro index
      rw [arena]
    · intro index _
      rw [arena]
    · intro call outcome _ isCall
      exact absurd isCall (notCall call outcome)
  cases step with
  | call origin => exact call_move fresh origin
  | spawn execution parent =>
    unfold Sys.spawn
    rcases spawn_cases s.table execution parent with ⟨spawner, -, -, refused⟩ |
      ⟨index, table, spawned, placed⟩
    · rw [refused]
      exact still rfl (by simp) rfl rfl rfl rfl rfl
    · rw [placed]
      exact .spawned spawned
  | deathPass next =>
    exact .deathPass (deathPass_arena _ _ _) (deathPass_published _ _ _) (deathPass_free _ _ _)
      rfl (unfinished_cons_core next rfl)
  | reclaim next =>
    refine .reclaim ⟨rfl, rfl, ?_⟩ rfl ?_ rfl (unfinished_cons_core next rfl)
      (unfinished_cons_core rfl rfl)
    · intro other different
      exact update_of_ne different _ _
    · exact update_self _ _ _
  | pushFree next =>
    exact .pushFree rfl rfl rfl rfl (unfinished_cons_core next rfl)
  | registerMonitor =>
    unfold Sys.registerMonitor registerMonitor
    split
    · exact still rfl (by simp) rfl rfl rfl rfl rfl
    · exact still rfl (by simp) rfl rfl rfl rfl (unfinished_cons_other rfl rfl)
  | monitorReason next =>
    exact still rfl (by simp) rfl rfl rfl rfl
      ((unfinished_cons_other rfl rfl).trans (unfinished_cons_other next rfl).symm)
  | stageNotice next | evictCallWaiter next =>
    exact still rfl (by simp) rfl rfl rfl rfl (unfinished_cons_other next rfl).symm
  | ensureCallWaiter =>
    unfold ensureCallWaiter
    split <;> exact still rfl (by simp) rfl rfl rfl rfl (unfinished_cons_other rfl rfl)
  | demonitor | takeExitNotices | takePendingKills | takeCallDowns | enterDraining | livePid =>
    exact still rfl (by simp) rfl rfl rfl rfl rfl

/-! ## What one step does to one slot -/

/-- `SlotStep t index event slot after`: while the table `t` takes the step labelled
`event`, the slot `index` goes from `slot` to `after`. -/
inductive SlotStep [Message M] (t : ProcessTable X M) (index : UInt32) :
    Event X M → Slot X M → Slot X M → Prop
  | same {event : Event X M} {slot after : Slot X M}
      (apart : ∀ call outcome, event = .call call outcome → slotIndex call.pid ≠ index)
      (same : after = slot)
      (unspawned : ∀ execution parent pid, event = .spawn execution parent (.ok pid) →
        slotIndex pid ≠ index)
      (unreclaimed : ∀ pid reclaim, event = .reclaim pid reclaim → slotIndex pid ≠ index) :
      SlotStep t index event slot after
  | touched {call : Call M} {outcome : Outcome X M} {slot after : Slot X M}
      (names : slotIndex call.pid = index) (touch : Touch t call outcome slot after) :
      SlotStep t index (.call call outcome) slot after
  | occupied {execution : X} {parent : Option Pid} {pid : Pid} {slot after : Slot X M}
      (names : slotIndex pid = index)
      (generation : generationOf pid = max slot.lifecycle.generation 1)
      (word : after.lifecycle = ⟨generationOf pid, false, some .created⟩)
      (hot : after.hot = slot.hot) (placed : after.execution = some execution)
      (spawner : after.parent = parent.getD 0)
      (scalars : after.priority = Priority.default.index ∧ after.logBusy = 0) :
      SlotStep t index (.spawn execution parent (.ok pid)) slot after
  | vacated {pid : Pid} {reclaim : Reclaim X M} {slot after : Slot X M}
      (names : slotIndex pid = index) (parcel : reclaim = slot.resources)
      (empty : after = slot.vacated) :
      SlotStep t index (.reclaim pid reclaim) slot after

theorem step_slot [Message M] {after : Sys X M} (fresh : Fresh s.table)
    (step : Step s event after) (index : UInt32) :
    SlotStep s.table index event (s.table.arena index) (after.table.arena index) := by
  cases step with
  | call origin =>
    rename_i picked call
    have isLocal := perform_local s.table call (fresh _)
    rw [picked_table origin, (picked_frame origin).1]
    by_cases here : index = slotIndex call.pid
    · subst here
      exact .touched rfl isLocal.touch
    · refine .same ?_ (isLocal.frame index here) (by simp) (by simp)
      rintro _ _ label same
      cases label
      exact here same.symm
  | spawn execution parent =>
    unfold Sys.spawn
    rcases spawn_cases s.table execution parent with ⟨spawner, -, -, refused⟩ |
      ⟨taken, table, spawned, placed⟩
    · rw [refused]
      exact .same (by simp) rfl (by simp) (by simp)
    · rw [placed]
      by_cases here : index = taken
      · subst here
        refine .occupied (slotIndex_encode _ _) (generationOf_encode _ _) ?_ spawned.hot
          spawned.execution spawned.spawner spawned.scalars
        rw [generationOf_encode]
        exact spawned.word
      · refine .same (by simp) (spawned.frame index here) ?_ (by simp)
        rintro _ _ _ label same
        cases label
        rw [slotIndex_encode] at same
        exact here same.symm
  | deathPass =>
    exact .same (by simp) (congrFun (deathPass_arena _ _ _) index) (by simp) (by simp)
  | reclaim next =>
    rename_i pid rest
    by_cases here : index = slotIndex pid
    · subst here
      exact .vacated rfl rfl (update_self _ _ _)
    · refine .same (by simp) (update_of_ne here _ _) (by simp) ?_
      rintro _ _ label same
      cases label
      exact here same.symm
  | registerMonitor =>
    unfold Sys.registerMonitor registerMonitor
    split <;> exact .same (by simp) rfl (by simp) (by simp)
  | ensureCallWaiter =>
    unfold ensureCallWaiter
    split <;> exact .same (by simp) rfl (by simp) (by simp)
  | pushFree | monitorReason | stageNotice | evictCallWaiter | demonitor | takeExitNotices
  | takePendingKills | takeCallDowns | enterDraining | livePid =>
    exact .same (by simp) rfl (by simp) (by simp)

end Koja.Guarantees.Runtime
