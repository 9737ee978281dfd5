import Koja.Guarantees.Runtime.ExclusiveClaim

/-!
# No runnable process is stranded

The table composed with a driver's ready entries. Every wake, requeue and fresh spawn
is a fact some worker holds until it pushes the entry; a worker pops an entry before
it claims. Entries go stale, duplicate and get rejected, but a process that is ready
and off the cpu always has one, on whichever side of the queue.
-/
namespace Koja.Guarantees.Runtime
open Koja.Lib Koja.Source.Runtime Multiset

variable {X M : Type}

/-- The table with its driver: the ready entries, the facts received and not yet
pushed, and the entries popped and not yet claimed with. -/
structure Driven (X M : Type) where
  sys : Sys X M
  ready : Multiset Pid
  pushing : Multiset Pid
  popped : Multiset Pid

def Driven.init : Driven X M := ⟨Sys.init, 0, 0, 0⟩

def Driven.entries (d : Driven X M) : Multiset Pid := d.ready + d.pushing + d.popped

inductive DriverEvent (X M : Type) where
  | table (event : Event X M)
  | push (pid : Pid)
  | pop (pid : Pid)

/-- What a label gives its worker to push. -/
def facts : Event X M → Multiset Pid
  | .call _ (.delivery ⟨_, some wake⟩) => {wake.pid}
  | .call _ (.reply ⟨_, _, some wake⟩) => {wake.pid}
  | .call _ (.wake (some wake)) => {wake.pid}
  | .call _ (.released (.requeue wake)) => {wake.pid}
  | .spawn _ _ (.ok pid) => {pid}
  | _ => 0

/-- A step of the table, or of the queue. A claim attempt uses up a popped entry,
whether it wins or not. -/
inductive DriverStep [Message M] : Driven X M → DriverEvent X M → Driven X M → Prop
  | table {d : Driven X M} {event : Event X M} {after : Sys X M}
      (other : ∀ pid outcome, event ≠ .call (.tryClaim pid) outcome)
      (step : Step d.sys event after) :
      DriverStep d (.table event) { d with sys := after, pushing := facts event + d.pushing }
  | claim {d : Driven X M} {pid : Pid} {outcome : Outcome X M} {after : Sys X M}
      {rest : Multiset Pid} (next : d.popped = pid ::ₘ rest)
      (step : Step d.sys (.call (.tryClaim pid) outcome) after) :
      DriverStep d (.table (.call (.tryClaim pid) outcome))
        { d with sys := after, popped := rest }
  | push {d : Driven X M} {pid : Pid} {rest : Multiset Pid} (next : d.pushing = pid ::ₘ rest) :
      DriverStep d (.push pid) { d with ready := pid ::ₘ d.ready, pushing := rest }
  | pop {d : Driven X M} {pid : Pid} {rest : Multiset Pid} (next : d.ready = pid ::ₘ rest) :
      DriverStep d (.pop pid) { d with ready := rest, popped := pid ::ₘ d.popped }

/-- The owner of a process is its claim holder: it alone switches it out, and the
process yields on it alone. -/
def ByOwner (s : Sys X M) : Event X M → Prop
  | .call (.afterSwitch pid) _ => pid ∈ s.claims
  | .call (.yieldRunning pid) _ => pid ∈ s.claims
  | _ => True

/-- Waiting for a worker: created or runnable, and off the cpu. -/
def Waiting (slot : Slot X M) : Prop :=
  (slot.lifecycle.state = some .created ∨ slot.lifecycle.state = some .runnable) ∧
    slot.lifecycle.onCpu = false

instance (slot : Slot X M) : Decidable (Waiting slot) := inferInstanceAs (Decidable (_ ∧ _))

/-! ## One call -/

section
variable [Message M]

/-- How a slot comes to be waiting through a call: it was, and the call was no claim of
its occupant; or the call handed out its wake; or it yielded off the cpu. -/
inductive ComesToWait (call : Call M) (outcome : Outcome X M) (slot after : Slot X M) : Prop
  | was (waiting : Waiting slot)
      (generation : after.lifecycle.generation = slot.lifecycle.generation)
      (unclaimed : ∀ pid, call = .tryClaim pid → ¬ slot.Current pid)
  | woken (generation : after.lifecycle.generation = slot.lifecycle.generation)
      (current : slot.Current call.pid) (fact : call.pid ∈ facts (.call call outcome))
      (unclaimed : ∀ pid, call ≠ .tryClaim pid)
  | yielded {pid : Pid} (yields : call = .yieldRunning pid)
      (current : slot.Current pid) (idle : slot.lifecycle.onCpu = false)

theorem touch_waiting {t : ProcessTable X M} {call : Call M} {outcome : Outcome X M}
    {slot after : Slot X M} (touch : Touch t call outcome slot after) (waiting : Waiting after) :
    ComesToWait call outcome slot after := by
  have never : ∀ {state : ProcessState}, after.lifecycle.state = some state →
      state ≠ .created → state ≠ .runnable → ComesToWait call outcome slot after := by
    intro state now notCreated notRunnable
    obtain ⟨ready | ready, -⟩ := waiting <;> rw [now, Option.some.injEq] at ready
    · exact absurd ready notCreated
    · exact absurd ready notRunnable
  cases touch with
  | delivered alive posted | replied alive _ posted =>
    have current := alive.current
    cases posted with
    | quiet => exact .was waiting rfl (by simp)
    | waking => exact .woken rfl current (mem_singleton_self _) (by simp)
  | claimMissed refused =>
    refine .was waiting rfl ?_
    rintro pid same current
    obtain rfl : _ = pid := by simpa using same
    exact refused ⟨current, waiting.2, waiting.1⟩
  | claimed | marked => exact never rfl (by simp) (by simp)
  | parked running | ioParked running | receiveParked running | replyParked running =>
    exact never rfl (by simp) (by simp)
  | expired parked | ioPromoted parked | callPromoted parked =>
    exact .woken rfl parked.1 (mem_singleton_self _) (by simp)
  | yielded running => exact .yielded rfl running.1 waiting.2
  | released current =>
    refine .woken rfl current ?_ (by simp)
    rcases waiting.1 with ready | ready
    all_goals
      rw [Slot.releasedAs, ready]
      exact mem_singleton_self _
  | reclaimed =>
    obtain ⟨ready | ready, -⟩ := waiting <;> cases ready
  | scalarSet sets =>
    obtain ⟨word, -⟩ := scalarUpdate_frame sets slot
    unfold Waiting at waiting
    rw [word] at waiting
    refine .was waiting (by rw [word]) ?_
    rintro pid rfl
    cases sets
  | hotSet sets | hotMissed sets | scalarMissed sets =>
    refine .was waiting rfl ?_
    rintro pid rfl
    cases sets
  | deathMissed ends =>
    refine .was waiting rfl ?_
    rintro pid rfl
    cases ends
  | _ => exact .was waiting rfl (by simp)

/-! ## The guarantee -/

/-- Every process waiting for a worker has an entry. -/
def Listed (d : Driven X M) : Prop :=
  ∀ index, Waiting (d.sys.table.arena index) →
    encode index (d.sys.table.arena index).lifecycle.generation ∈ d.entries

theorem Listed.table {d : Driven X M} {event : Event X M} {after : Sys X M}
    (listed : Listed d) (sound : Sound d.sys) (claimed : Claimed d.sys)
    (owner : ByOwner d.sys event) (step : Step d.sys event after) :
    Listed { d with sys := after, pushing := facts event + d.pushing } := by
  intro index waiting
  change _ ∈ d.ready + (facts event + d.pushing) + d.popped
  have kept : ∀ pid ∈ d.entries, pid ∈ d.ready + (facts event + d.pushing) + d.popped := by
    intro pid member
    simp only [Driven.entries, mem_add] at member ⊢
    tauto
  have moved := step_slot sound.grown.fresh step index
  have before := listed index
  generalize here : d.sys.table.arena index = slot at moved before
  cases moved with
  | same _ same =>
    subst same
    exact kept _ (before waiting)
  | touched names touch =>
    cases touch_waiting touch waiting with
    | was waiting generation =>
      rw [generation]
      exact kept _ (before waiting)
    | woken generation current fact =>
      rw [generation, ← names, encode_of_current current]
      simp only [mem_add]
      exact .inl (.inr (.inl fact))
    | yielded yields current idle =>
      rename_i pid
      subst yields
      change slotIndex pid = index at names
      have held := (claimed.granted pid owner).2
      rw [names, here, idle] at held
      cases held
  | occupied names _ word =>
    rw [word, ← names, encode_halves]
    simp only [mem_add]
    exact .inl (.inr (.inl (mem_singleton_self _)))
  | vacated _ _ empty =>
    rw [empty] at waiting
    obtain ⟨ready | ready, -⟩ := waiting <;> cases ready

theorem Listed.claim {d : Driven X M} {pid : Pid} {outcome : Outcome X M} {after : Sys X M}
    {rest : Multiset Pid} (listed : Listed d) (sound : Sound d.sys)
    (next : d.popped = pid ::ₘ rest) (step : Step d.sys (.call (.tryClaim pid) outcome) after) :
    Listed { d with sys := after, popped := rest } := by
  intro index waiting
  have kept : ∀ other ∈ d.entries, other ≠ pid → other ∈ d.ready + d.pushing + rest := by
    intro other member different
    simp only [Driven.entries, next, mem_add, mem_cons] at member ⊢
    tauto
  have moved := step_slot sound.grown.fresh step index
  have before := listed index
  generalize after.table.arena index = slotAfter at moved waiting ⊢
  cases moved with
  | same apart same =>
    subst same
    refine kept _ (before waiting) ?_
    intro aimed
    exact apart _ _ rfl (eq_encode_iff.mp aimed.symm).1
  | touched _ touch =>
    cases touch_waiting touch waiting with
    | was waiting generation unclaimed =>
      rw [generation]
      refine kept _ (before waiting) ?_
      intro aimed
      exact unclaimed pid rfl (eq_encode_iff.mp aimed.symm).2.symm
    | woken _ _ _ unclaimed => exact absurd rfl (unclaimed pid)
    | yielded yields => cases yields

/-- **No runnable process is stranded.** Whatever the workers interleave, a process
that is created or runnable and off the cpu has an entry: in the ready multiset, on its
way there, or popped by a worker about to claim with it. -/
theorem no_runnable_stranded {history : List (DriverEvent X M)} {d : Driven X M}
    (run : Run DriverStep (fun _ d event => ∀ label, event = .table label →
      ByOwner d.sys label ∧ IndexFits d.sys label) Driven.init history d)
    (index : UInt32) (waiting : Waiting (d.sys.table.arena index)) :
    encode index (d.sys.table.arena index).lifecycle.generation ∈
      d.ready + d.pushing + d.popped := by
  refine (run.invariant (fun _ d => (Sound d.sys ∧ Claimed d.sys) ∧ Listed d) ?_ ?_).2 index waiting
  · refine ⟨⟨Sound.init, Claimed.init⟩, ?_⟩
    rintro index ⟨ready | ready, -⟩ <;> cases ready
  · rintro history d event after ⟨⟨sound, claimed⟩, listed⟩ admitted step
    cases step with
    | table _ step =>
      obtain ⟨owner, fits⟩ := admitted _ rfl
      exact ⟨⟨sound.step fits step, claimed.step sound fits step⟩,
        listed.table sound claimed owner step⟩
    | claim next step =>
      obtain ⟨owner, fits⟩ := admitted _ rfl
      exact ⟨⟨sound.step fits step, claimed.step sound fits step⟩, listed.claim sound next step⟩
    | push next | pop next =>
      refine ⟨⟨sound, claimed⟩, ?_⟩
      intro index waiting
      have member := listed index waiting
      simp only [Driven.entries, next, mem_add, mem_cons] at member ⊢
      tauto

end

/-! ## Runs of the composition -/

section
variable {admits : List (DriverEvent X M) → Driven X M → DriverEvent X M → Prop} {d : Driven X M}
  [Message M]

/-- `d` ends some run under `admits`. -/
def Reaches (admits : List (DriverEvent X M) → Driven X M → DriverEvent X M → Prop)
    (d : Driven X M) : Prop :=
  ∃ history, Run DriverStep admits Driven.init history d

theorem Reaches.call (reached : Reaches admits d) (call : Call M) (pushing : Multiset Pid)
    (admitted : ∀ history, admits history d (.table (.call call (d.sys.table.perform call).1)))
    (kept : facts (.call call (d.sys.table.perform call).1) + d.pushing = pushing)
    (opens : ∀ pid token deadline callee,
      call ≠ .takeReplyOrPark pid token deadline callee := by simp)
    (other : ∀ pid, call ≠ .tryClaim pid := by simp) :
    Reaches admits { d with sys := d.sys.perform call, pushing := pushing } := by
  obtain ⟨history, run⟩ := reached
  subst kept
  refine ⟨_, run.snoc (admitted history) (.table ?_ (.call (.fresh opens)))⟩
  intro pid outcome label
  cases label
  exact other pid rfl

theorem Reaches.spawn (reached : Reaches admits d) (execution : X) (parent : Option Pid)
    (pid : Pid) (placed : (d.sys.table.spawn execution parent).1 = .ok pid)
    (admitted : ∀ history, admits history d (.table (.spawn execution parent (.ok pid)))) :
    Reaches admits
      { d with sys := d.sys.spawn execution parent, pushing := pid ::ₘ d.pushing } := by
  obtain ⟨history, run⟩ := reached
  have step := Step.spawn (s := d.sys) execution parent
  rw [placed] at step
  exact ⟨_, run.snoc (admitted history) (.table (by simp) step)⟩

/-- From its fact to a claim, an entry goes through the queue. -/
theorem Reaches.scheduled (reached : Reaches admits d) (pid : Pid) (rest : Multiset Pid)
    (next : d.pushing = pid ::ₘ rest) (pushes : ∀ history d, admits history d (.push pid))
    (pops : ∀ history d, admits history d (.pop pid))
    (claims : ∀ history d outcome, admits history d (.table (.call (.tryClaim pid) outcome))) :
    Reaches admits { d with sys := d.sys.perform (.tryClaim pid), pushing := rest } := by
  obtain ⟨history, run⟩ := reached
  have pushed := run.extend (.push next) (pushes _ _)
  have popped := pushed.extend (.pop rfl) (pops _ _)
  exact ⟨_, popped.extend (.claim rfl (.call (.fresh (by simp)))) (claims _ _ _)⟩

end

/-- The PIDs of all but the first of `n + 1` processes. -/
def otherPids (n : Nat) : Multiset Pid :=
  (range n).map fun k => encode (k + 1).toUInt32 1

theorem firstPid_not_other {n : Nat} (room : n < 2 ^ 32) : firstPid ∉ otherPids n := by
  intro member
  obtain ⟨k, below, same⟩ := mem_map.mp member
  have index := (eq_encode_iff.mp same.symm).1
  have bound := mem_range.mp below
  have whole : (k + 1).toUInt32.toNat = k + 1 := toUInt32_whole (by omega)
  rw [← index] at whole
  cases whole

/-- The driver's view of a full table: one fact to push for each process. -/
theorem boot_driven
    (admits : List (DriverEvent Unit Envelope) → Driven Unit Envelope →
      DriverEvent Unit Envelope → Prop)
    (spawns : ∀ history d execution parent result,
      admits history d (.table (.spawn execution parent result))) (n : Nat) (room : n < 2 ^ 32) :
    Reaches admits ⟨booted (n + 1), 0, firstPid ::ₘ otherPids n, 0⟩ := by
  induction n with
  | zero =>
    have start : Reaches admits ⟨booted 0, 0, 0, 0⟩ := by
      rw [booted_zero]
      exact ⟨[], .nil⟩
    have spawned := start.spawn () (bootParent 0) firstPid rfl fun _ => spawns _ _ _ _ _
    rw [booted_next (by decide)] at spawned
    exact spawned
  | succ n ih =>
    have before := ih (by omega)
    have spawned := before.spawn () (bootParent (n + 1)) _ (booted_pid room)
      fun _ => spawns _ _ _ _ _
    rw [booted_next room] at spawned
    have same : encode (n + 1).toUInt32 1 ::ₘ firstPid ::ₘ otherPids n =
        firstPid ::ₘ otherPids (n + 1) := by
      rw [cons_swap, otherPids, otherPids, range_succ, map_cons]
    rw [← same]
    exact spawned

theorem boot_full
    (admits : List (DriverEvent Unit Envelope) → Driven Unit Envelope →
      DriverEvent Unit Envelope → Prop)
    (spawns : ∀ history d execution parent result,
      admits history d (.table (.spawn execution parent result))) :
    ∃ rest, firstPid ∉ rest ∧ Reaches admits ⟨booted (2 ^ 32), 0, firstPid ::ₘ rest, 0⟩ :=
  ⟨otherPids (2 ^ 32 - 1), firstPid_not_other (by decide),
    boot_driven admits spawns (2 ^ 32 - 1) (by decide)⟩

/-- A process woken in the window between its park and its owner's switch-out: its
entry is popped and rejected, and the release's requeue is what keeps it listed. -/
theorem no_runnable_stranded_requeued :
    ∃ (history : List (DriverEvent Unit Envelope)) (d : Driven Unit Envelope),
      Run DriverStep (fun _ d event => ∀ label, event = .table label →
        ByOwner d.sys label ∧ IndexFits d.sys label) Driven.init history d ∧
      d.ready = 0 ∧ d.popped = 0 ∧ Waiting (d.sys.table.arena 0) ∧
      firstPid ∈ d.ready + d.pushing + d.popped := by
  have start : Reaches (fun _ d event => ∀ label, event = .table label →
      ByOwner d.sys label ∧ IndexFits d.sys label) (Driven.init : Driven Unit Envelope) :=
    ⟨[], .nil⟩
  have spawned := start.spawn () none firstPid rfl
    (by rintro _ _ ⟨⟩; exact ⟨trivial, .inr (by decide)⟩)
  have claimed := spawned.scheduled firstPid 0 rfl (by simp) (by simp)
    (by rintro _ _ _ _ ⟨⟩; exact ⟨trivial, trivial⟩)
  have parked := claimed.call (.receiveOrPark firstPid none) 0
    (by rintro _ _ ⟨⟩; exact ⟨trivial, trivial⟩) rfl
  have woken := parked.call (.deliver firstPid (.fromPayload 0 [] .zero)) (firstPid ::ₘ 0)
    (by rintro _ _ ⟨⟩; exact ⟨trivial, trivial⟩) rfl
  have rejected := woken.scheduled firstPid 0 rfl (by simp) (by simp)
    (by rintro _ _ _ _ ⟨⟩; exact ⟨trivial, trivial⟩)
  have released := rejected.call (.afterSwitch firstPid) (firstPid ::ₘ 0)
    (by rintro _ _ ⟨⟩; exact ⟨mem_cons_self firstPid 0, trivial⟩) rfl
  obtain ⟨history, run⟩ := released
  exact ⟨history, _, run, rfl, rfl, by decide +kernel,
    no_runnable_stranded run 0 (by decide +kernel)⟩

/-- Two workers on the first process of a full table. -/
def contested : Sys Unit Envelope :=
  (((booted (2 ^ 32)).perform (.tryClaim firstPid)).spawn () none).perform (.tryClaim firstPid)

/-- The first of them switches out, the process yields, the second switches out. -/
def abandoned : Sys Unit Envelope :=
  ((contested.perform (.afterSwitch firstPid)).perform (.yieldRunning firstPid)).perform
    (.afterSwitch firstPid)

/-- Once every `u32` index is live, a spawn over a claimed slot lets a second worker
claim it. The first worker's switch-out releases the second one's claim, so the
process that yields there is runnable, off the cpu and without an entry. -/
theorem overrun_strands_runnable :
    ∃ (history : List (DriverEvent Unit Envelope)) (d : Driven Unit Envelope),
      Run DriverStep (fun _ d event => ∀ label, event = .table label →
        ByOwner d.sys label) Driven.init history d ∧
      Waiting (d.sys.table.arena 0) ∧
      encode 0 (d.sys.table.arena 0).lifecycle.generation ∉ d.ready + d.pushing + d.popped := by
  let admits : List (DriverEvent Unit Envelope) → Driven Unit Envelope →
      DriverEvent Unit Envelope → Prop :=
    fun _ d event => ∀ label, event = .table label → ByOwner d.sys label
  obtain ⟨rest, absent, full⟩ := boot_full admits (by rintro _ _ _ _ _ _ ⟨⟩; trivial)
  have claimed := full.scheduled firstPid rest rfl (by simp [admits]) (by simp [admits])
    (by rintro _ _ _ _ ⟨⟩; trivial)
  have placed : (((booted (2 ^ 32)).perform (.tryClaim firstPid)).table.spawn () none).1 =
      .ok firstPid := by rfl
  have overrun := claimed.spawn () none firstPid placed (by rintro _ _ ⟨⟩; trivial)
  have taken : Reaches admits ⟨contested, 0, rest, 0⟩ :=
    overrun.scheduled firstPid rest rfl (by simp [admits]) (by simp [admits])
      (by rintro _ _ _ _ ⟨⟩; trivial)
  have left : Reaches admits ⟨abandoned, 0, rest, 0⟩ := by
    have released := taken.call (.afterSwitch firstPid) rest
      (by rintro _ _ ⟨⟩; exact (by decide +kernel : firstPid ∈ contested.claims))
      (zero_add _)
    have yielded := released.call (.yieldRunning firstPid) rest
      (by rintro _ _ ⟨⟩; exact (by decide +kernel : firstPid ∈
        (contested.perform (.afterSwitch firstPid)).claims)) (zero_add _)
    exact yielded.call (.afterSwitch firstPid) rest
      (by rintro _ _ ⟨⟩; exact (by decide +kernel : firstPid ∈ ((contested.perform
        (.afterSwitch firstPid)).perform (.yieldRunning firstPid)).claims))
      (zero_add _)
  have word : (abandoned.table.arena 0).lifecycle = ⟨1, false, some .runnable⟩ := by
    decide +kernel
  obtain ⟨history, run⟩ := left
  refine ⟨history, _, run, ⟨.inr (by rw [word]), by rw [word]⟩, ?_⟩
  change firstPid ∉ (0 : Multiset Pid) + rest + 0
  simpa using absent

end Koja.Guarantees.Runtime
