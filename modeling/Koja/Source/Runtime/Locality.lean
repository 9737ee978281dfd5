import Koja.Source.Runtime.Calls

/-!
# Every call is local

A call of `process_table.rs` on a PID works on that PID's slot alone, and what it
does there is one of the cases of `Touch`. One lemma per operation, following the
operation's own branches, and `perform_local` over all of them.
-/
namespace Koja.Source.Runtime

open ProcessTable Option
open LifecycleWord (tryEdge tryEdge_eq tryKill isAlive_iff release_eq)

variable {X M : Type} {slot : Slot X M} {pid : Pid} {source : ProcessState}

section Local
variable [Message M] {t : ProcessTable X M} {call : Call M} {outcome : Outcome X M} {tally : Tally}

theorem Local.store {slot : Slot X M} (touch : Touch t call outcome (t.slotOf call.pid) slot) :
    Local t call outcome (t.store call.pid slot tally) where
  registry := rfl
  published := rfl
  mainPid := rfl
  frame := by
    intro index other
    exact Function.update_of_ne other _ _
  touch := by
    simpa only [ProcessTable.store, Function.update_self] using touch

theorem Local.tallied (touch : Touch t call outcome (t.slotOf call.pid) (t.slotOf call.pid)) :
    Local t call outcome (t.tallied tally) :=
  ⟨rfl, rfl, rfl, fun _ _ => rfl, touch⟩

theorem Local.unchanged (touch : Touch t call outcome (t.slotOf call.pid) (t.slotOf call.pid)) :
    Local t call outcome t :=
  ⟨rfl, rfl, rfl, fun _ _ => rfl, touch⟩

theorem Local.recount {after : ProcessTable X M}
    (before : Local t call outcome after) : Local t call outcome (after.tallied tally) :=
  ⟨before.registry, before.published, before.mainPid, before.frame, before.touch⟩

end Local

theorem ProcessTable.slot_eq (t : ProcessTable X M) (pid : Pid) :
    t.slot pid = if (slotIndex pid).toNat < t.published then
      some (t.slotOf pid, generationOf pid) else none := rfl

theorem ProcessTable.slot_cases (t : ProcessTable X M) (pid : Pid) :
    t.slot pid = none ∨ t.slot pid = some (t.slotOf pid, generationOf pid) := by
  rw [slot_eq]
  split
  · exact .inr rfl
  · exact .inl rfl

/-- A slot nobody ever occupied belongs to no process and holds no mail. -/
theorem Slot.new_not_alive (pid : Pid) : ¬ (Slot.new : Slot X M).Alive pid := by
  simp [Slot.Alive, Slot.new, LifecycleWord.new, WordState.isAlive]

theorem Slot.new_not_in (pid : Pid) (state : ProcessState) :
    ¬ (Slot.new : Slot X M).In pid state := by
  simp [Slot.In, Slot.new, LifecycleWord.new]

/-- Where a block under `with_hot` can go: a stale or absent slot refuses it, a
current one runs it. -/
theorem ProcessTable.withHot_cases {R : Type} (t : ProcessTable X M) (pid : Pid)
    (f : UInt32 → Hold X M R) :
    (t.withHot pid f = (none, t) ∧
      ((t.slotOf pid).Current pid → t.published ≤ (slotIndex pid).toNat)) ∨
    ((t.slotOf pid).Current pid ∧ t.withHot pid f =
        (some (f (generationOf pid) (t.slotOf pid) t.tally).1,
          t.store pid (f (generationOf pid) (t.slotOf pid) t.tally).2.1
            (f (generationOf pid) (t.slotOf pid) t.tally).2.2)) := by
  unfold withHot
  rw [slot_eq]
  by_cases present : (slotIndex pid).toNat < t.published
  · rw [if_pos present]
    by_cases current : (t.slotOf pid).lifecycle.generation = generationOf pid
    · right
      refine ⟨current, ?_⟩
      simp only [ne_eq, current, not_true_eq_false, if_false]
    · left
      refine ⟨?_, fun same => absurd same current⟩
      simp only [ne_eq, current, not_false_eq_true, if_true]
  · rw [if_neg present]
    left
    exact ⟨rfl, fun _ => Nat.le_of_not_lt present⟩

/-! ### The edges under a hold -/

theorem tryEdge_in {source : ProcessState} (target : ProcessState) (isIn : slot.In pid source) :
    tryEdge slot.lifecycle (generationOf pid) source target =
      some { slot.lifecycle with state := some target } :=
  (tryEdge_eq source target).trans (if_pos isIn)

theorem tryEdge_refused {source : ProcessState} (target : ProcessState)
    (refused : ¬ slot.In pid source) :
    tryEdge slot.lifecycle (generationOf pid) source target = none :=
  (tryEdge_eq source target).trans (if_neg refused)

/-- A process parks if it runs. -/
theorem parkEdge_cases (t : ProcessTable X M) (pid : Pid) (target : ProcessState) :
    ((t.slotOf pid).In pid .running ∧
      parkEdge (generationOf pid) target (t.slotOf pid) t.tally =
        (true, (t.slotOf pid).withState target, t.tally)) ∨
    (¬ (t.slotOf pid).In pid .running ∧ ∃ counted,
      parkEdge (generationOf pid) target (t.slotOf pid) t.tally =
        (false, t.slotOf pid, counted)) := by
  generalize t.slotOf pid = slot
  unfold parkEdge
  by_cases running : slot.In pid .running
  · have alive : slot.lifecycle.isAlive (generationOf pid) = true :=
      isAlive_iff.mpr ⟨running.1, _, running.2, by decide⟩
    rw [if_pos alive, tryEdge_in target running]
    exact .inl ⟨running, rfl⟩
  · rw [tryEdge_refused target running]
    refine .inr ⟨running, ?_⟩
    split <;> exact ⟨_, rfl⟩

theorem wakeEdge_parked (tally : Tally) (parked : slot.In pid source) :
    ∃ counted, wakeEdge pid (generationOf pid) source slot tally =
      (some ⟨pid, slot.wakePriority⟩, slot.withState .runnable, counted) := by
  unfold wakeEdge
  rw [tryEdge_in .runnable parked]
  exact ⟨_, rfl⟩

/-- A delivery wakes a process only from the state it observed it parked in. -/
theorem wakeSource_eq_some [Message M] {message : M}
    (wakes : wakeSource slot message = some source) :
    slot.lifecycle.state = some source ∧
      (source = .blocked ∧ slot.hot.waiting = Mailbox.targetOf message ∨
        source = .waitingIo ∧ Message.tag message = .lifecycle) := by
  unfold wakeSource at wakes
  split at wakes
  · next state =>
    split at wakes
    · next waiting =>
      cases wakes
      exact ⟨state, .inl ⟨rfl, waiting⟩⟩
    · cases wakes
  · next state =>
    split at wakes
    · next tag =>
      cases wakes
      exact ⟨state, .inr ⟨rfl, tag⟩⟩
    · cases wakes
  · cases wakes

theorem deliverLocked_posted [Message M] (message : M)
    (tally : Tally) (current : slot.Current pid) :
    ∃ wake after counted, Posted pid slot message wake after ∧
      deliverLocked pid (generationOf pid) message slot tally =
        (⟨(slot.hot.mailbox.push message).1, wake⟩, after, counted) := by
  cases source : wakeSource slot message with
  | none =>
    refine ⟨none, _, tally, .quiet source, ?_⟩
    simp only [deliverLocked, source]
    rfl
  | some state =>
    obtain ⟨observed, -⟩ := wakeSource_eq_some source
    have parked : (slot.posted message).In pid state := ⟨current, observed⟩
    obtain ⟨counted, woken⟩ := wakeEdge_parked tally parked
    refine ⟨_, _, counted, .waking source, ?_⟩
    simp only [Slot.posted] at woken
    simp only [deliverLocked, source, woken]
    rfl

/-- The slot with its recorded wake deadline cleared. -/
def Slot.undated (slot : Slot X M) : Slot X M := { slot with hot.deadline := none }

theorem promoteExpiredHold_cases (fireAt : Instant) (tally : Tally) (current : slot.Current pid) :
    (∃ source, slot.lifecycle.state = some source ∧
      (source = .blocked ∨ source = .waitingIo) ∧ slot.hot.deadline = some fireAt ∧
      ∃ counted, promoteExpiredHold pid (generationOf pid) fireAt slot tally =
        (some ⟨pid, slot.wakePriority⟩,
          { slot.withState .runnable with hot.deadline := none }, counted)) ∨
    promoteExpiredHold pid (generationOf pid) fireAt slot tally = (none, slot, tally) := by
  unfold promoteExpiredHold
  split
  · exact .inr rfl
  · next parked found =>
    obtain ⟨state, isParked⟩ := filter_eq_some_iff.mp found
    split
    · next due =>
      obtain ⟨counted, woken⟩ : ∃ counted,
          wakeEdge pid (generationOf pid) parked slot.undated tally =
            (some ⟨pid, slot.wakePriority⟩, slot.undated.withState .runnable, counted) :=
        wakeEdge_parked tally ⟨current, state⟩
      have parkable : parked = .blocked ∨ parked = .waitingIo := by
        cases parked <;> simp_all [ProcessState.isParked]
      exact .inl ⟨parked, state, parkable, due.2, counted, woken⟩
    · exact .inr rfl

theorem promoteIoWaiterHold_cases (tally : Tally) (current : slot.Current pid) :
    (slot.lifecycle.state = some .waitingIo ∧ ∃ counted,
      promoteIoWaiterHold pid (generationOf pid) slot tally = (some ⟨pid, slot.wakePriority⟩,
        { slot.withState .runnable with hot.deadline := none }, counted)) ∨
    (slot.lifecycle.state ≠ some .waitingIo ∧
      promoteIoWaiterHold pid (generationOf pid) slot tally = (none, slot, tally)) := by
  unfold promoteIoWaiterHold
  by_cases state : slot.lifecycle.state = some .waitingIo
  · have applies : ¬ (slot.lifecycle.generation ≠ generationOf pid ∨
        slot.lifecycle.state ≠ some .waitingIo) := by
      rintro (stale | moved)
      · exact stale current
      · exact moved state
    rw [if_neg applies]
    have parked : slot.undated.In pid .waitingIo := ⟨current, state⟩
    exact .inl ⟨state, wakeEdge_parked tally parked⟩
  · rw [if_pos (.inr state)]
    exact .inr ⟨state, rfl⟩

theorem deathHold_cases (forced : Option ExitReason) (tally : Tally) (slot : Slot X M) (pid : Pid) :
    (¬ slot.Alive pid ∧ deathHold (generationOf pid) forced slot tally = (none, slot, tally)) ∨
    (slot.Alive pid ∧ slot.lifecycle.onCpu = true ∧ ∃ counted,
      deathHold (generationOf pid) forced slot tally =
        (some (slot.staged forced none), slot.marked forced, counted)) ∨
    (slot.Alive pid ∧ slot.lifecycle.onCpu = false ∧ ∃ counted,
      deathHold (generationOf pid) forced slot tally =
        (some (slot.staged forced (some slot.resources)), slot.vacated, counted)) := by
  unfold deathHold
  by_cases alive : slot.Alive pid
  · have edge : tryKill slot.lifecycle (generationOf pid) =
        some { slot.lifecycle with state := some .dead } := if_pos alive
    rw [edge]
    dsimp only
    by_cases held : slot.lifecycle.onCpu = true
    · rw [if_pos held]
      exact .inr (.inl ⟨alive, held, _, rfl⟩)
    · rw [if_neg held]
      exact .inr (.inr ⟨alive, Bool.eq_false_iff.mpr held, _, rfl⟩)
  · have edge : tryKill slot.lifecycle (generationOf pid) = none := if_neg alive
    rw [edge]
    exact .inl ⟨alive, rfl⟩

/-! ### The calls -/

section Calls
variable {t : ProcessTable X M} {pid : Pid} {state : ProcessState}

theorem present_of_in (fresh : t.published ≤ (slotIndex pid).toNat → t.slotOf pid = Slot.new)
    (occupied : (t.slotOf pid).In pid state) :
    (slotIndex pid).toNat < t.published := by
  by_contra absent
  rw [fresh (Nat.le_of_not_lt absent)] at occupied
  exact Slot.new_not_in pid state occupied

theorem present_of_alive (fresh : t.published ≤ (slotIndex pid).toNat → t.slotOf pid = Slot.new)
    (alive : (t.slotOf pid).Alive pid) :
    (slotIndex pid).toNat < t.published := by
  by_contra absent
  rw [fresh (Nat.le_of_not_lt absent)] at alive
  exact Slot.new_not_alive pid alive

/-- A block that `with_hot` turned away found no process of that PID. -/
theorem not_in_of_missed (fresh : t.published ≤ (slotIndex pid).toNat → t.slotOf pid = Slot.new)
    (missed : (t.slotOf pid).Current pid → t.published ≤ (slotIndex pid).toNat) :
    ¬ (t.slotOf pid).In pid state := by
  intro occupied
  have present := present_of_in fresh occupied
  have absent := missed occupied.1
  omega

theorem vacant_of_missed (fresh : t.published ≤ (slotIndex pid).toNat → t.slotOf pid = Slot.new)
    (missed : (t.slotOf pid).Current pid → t.published ≤ (slotIndex pid).toNat)
    (current : (t.slotOf pid).Current pid) :
    (t.slotOf pid).lifecycle.state = none := by
  rw [fresh (missed current)]
  rfl

theorem not_alive_of_missed (fresh : t.published ≤ (slotIndex pid).toNat → t.slotOf pid = Slot.new)
    (missed : (t.slotOf pid).Current pid → t.published ≤ (slotIndex pid).toNat) :
    ¬ (t.slotOf pid).Alive pid := by
  intro alive
  have present := present_of_alive fresh alive
  have absent := missed alive.current
  omega

/-- The lock-free setters validate the generation, then store. -/
theorem modifyScalars_cases (t : ProcessTable X M) (pid : Pid) (write : Slot X M → Slot X M) :
    ((t.slotOf pid).Current pid ∧ t.modifyScalars pid write =
      t.store pid (write (t.slotOf pid)) t.tally) ∨
    t.modifyScalars pid write = t := by
  unfold modifyScalars
  rcases t.slot_cases pid with slot | slot
  · rw [slot]
    exact .inr rfl
  · rw [slot]
    dsimp only
    split
    · next current => exact .inl ⟨current, rfl⟩
    · exact .inr rfl

variable [Message M]

theorem deliverIf_cases (fresh : t.published ≤ (slotIndex pid).toNat → t.slotOf pid = Slot.new)
    (message : M) (accepts : HotState M → Bool) :
    (¬ ((t.slotOf pid).Alive pid ∧ accepts (t.slotOf pid).hot = true) ∧
      t.deliverIf pid message accepts = (none, t)) ∨
    ((t.slotOf pid).Alive pid ∧ accepts (t.slotOf pid).hot = true ∧
      ∃ wake after counted, Posted pid (t.slotOf pid) message wake after ∧
        t.deliverIf pid message accepts =
          (some ⟨((t.slotOf pid).hot.mailbox.push message).1, wake⟩,
            t.store pid after counted)) := by
  unfold deliverIf
  by_cases accepted : (t.slotOf pid).Alive pid ∧ accepts (t.slotOf pid).hot = true
  · right
    obtain ⟨alive, wanted⟩ := accepted
    obtain ⟨wake, after, counted, posted, run⟩ :=
      deliverLocked_posted message t.tally alive.current
    refine ⟨alive, wanted, wake, after, counted, posted, ?_⟩
    rw [slot_eq, if_pos (present_of_alive fresh alive)]
    have taken : ((t.slotOf pid).lifecycle.isAlive (generationOf pid) &&
        accepts (t.slotOf pid).hot) = true := Bool.and_eq_true_iff.mpr ⟨alive, wanted⟩
    simp only [taken, if_true, run]
  · left
    refine ⟨accepted, ?_⟩
    have refused : ((t.slotOf pid).lifecycle.isAlive (generationOf pid) &&
        accepts (t.slotOf pid).hot) = false := by
      rw [Bool.eq_false_iff, ne_eq, Bool.and_eq_true]
      exact accepted
    rcases t.slot_cases pid with slot | slot
    · rw [slot]
    · simp only [slot, refused, Bool.false_eq_true, if_false]

theorem deliver_local (fresh : t.published ≤ (slotIndex pid).toNat → t.slotOf pid = Slot.new)
    {message : M} :
    Local t (.deliver pid message) (.delivery (t.deliver pid message).1)
      (t.deliver pid message).2 := by
  unfold deliver
  rcases deliverIf_cases fresh message (fun _ => true) with ⟨gone, run⟩ |
    ⟨alive, -, wake, after, counted, posted, run⟩
  · rw [run]
    exact .tallied (.bounced (fun alive => gone ⟨alive, rfl⟩))
  · rw [run]
    exact .store (.delivered alive posted)

theorem deliverReply_local (fresh : t.published ≤ (slotIndex pid).toNat → t.slotOf pid = Slot.new)
    {token : Int64} {message : M} :
    Local t (.deliverReply pid token message) (.reply (t.deliverReply pid token message).1)
      (t.deliverReply pid token message).2 := by
  unfold deliverReply
  rcases deliverIf_cases fresh message (fun hot => hot.awaitingReply = some token) with
    ⟨gone, run⟩ | ⟨alive, awaited, wake, after, counted, posted, run⟩
  · rw [run]
    refine .unchanged (.replyBounced ?_)
    simpa [Call.pid] using gone
  · rw [run]
    exact .store (.replied alive (by simpa using awaited) posted)

theorem tryClaim_local (fresh : t.published ≤ (slotIndex pid).toNat → t.slotOf pid = Slot.new) :
    Local t (.tryClaim pid) (.flag (t.tryClaim pid).1) (t.tryClaim pid).2 := by
  unfold tryClaim
  by_cases claimable : (t.slotOf pid).lifecycle.generation = generationOf pid ∧
      (t.slotOf pid).lifecycle.onCpu = false ∧
      ((t.slotOf pid).lifecycle.state = some .created ∨
        (t.slotOf pid).lifecycle.state = some .runnable)
  · have edge : LifecycleWord.tryClaim (t.slotOf pid).lifecycle (generationOf pid) =
        some _ := if_pos claimable
    obtain ⟨current, idle, ready⟩ := claimable
    have present : (slotIndex pid).toNat < t.published := by
      rcases ready with state | state
      all_goals exact present_of_in fresh ⟨current, state⟩
    rw [slot_eq, if_pos present]
    simp only [edge]
    exact .store (.claimed current idle ready)
  · rcases t.slot_cases pid with slot | slot
    all_goals
      simp only [slot, LifecycleWord.tryClaim, if_neg claimable]
      exact .tallied (.claimMissed claimable)

theorem tryPark_local (fresh : t.published ≤ (slotIndex pid).toNat → t.slotOf pid = Slot.new)
    {target : WaitTarget} {deadline : Option Instant} :
    Local t (.tryPark pid target deadline) (.flag (t.tryPark pid target deadline).1)
      (t.tryPark pid target deadline).2 := by
  unfold tryPark
  rcases t.withHot_cases pid (tryParkHold · target deadline) with ⟨run, missed⟩ | ⟨current, run⟩
  · rw [run]
    exact .tallied (.parkRefused (not_in_of_missed fresh missed))
  · rw [run, tryParkHold]
    rcases parkEdge_cases t pid .blocked with ⟨running, edge⟩ | ⟨running, _, edge⟩
    · rw [edge]
      exact .store (.parked running)
    · rw [edge]
      exact .store (.parkRefused running)

theorem tryParkIo_local (fresh : t.published ≤ (slotIndex pid).toNat → t.slotOf pid = Slot.new)
    {deadline : Option Instant} :
    Local t (.tryParkIo pid deadline) (.io (t.tryParkIo pid deadline).1)
      (t.tryParkIo pid deadline).2 := by
  unfold tryParkIo
  rcases t.withHot_cases pid (tryParkIoHold · deadline) with ⟨run, missed⟩ | ⟨current, run⟩
  · rw [run]
    exact .tallied (.ioRefused (not_in_of_missed fresh missed))
  · rw [run]
    cases mail : (t.slotOf pid).hot.mailbox.system with
    | cons =>
      simp only [tryParkIoHold, Mailbox.hasSystem, mail]
      exact .store (.ioSystemMail current (by simp [Call.pid, mail]))
    | nil =>
      simp only [tryParkIoHold, Mailbox.hasSystem, mail]
      rcases parkEdge_cases t pid .waitingIo with ⟨running, edge⟩ | ⟨running, _, edge⟩
      · rw [edge]
        exact .store (.ioParked running mail)
      · rw [edge]
        exact .store (.ioRefused running)

theorem receiveOrPark_local (fresh : t.published ≤ (slotIndex pid).toNat → t.slotOf pid = Slot.new)
    {deadline : Option Instant} :
    Local t (.receiveOrPark pid deadline) (.mail (t.receiveOrPark pid deadline).1)
      (t.receiveOrPark pid deadline).2 := by
  unfold receiveOrPark
  rcases t.withHot_cases pid (receiveOrParkHold · deadline) with ⟨run, missed⟩ | ⟨current, run⟩
  · rw [run]
    exact .tallied (.receiveRefused (not_in_of_missed fresh missed))
  · rw [run]
    rcases popped : (t.slotOf pid).hot.mailbox.popReceived with ⟨_ | message, mailbox⟩
    · obtain ⟨noSystem, noBusiness, -⟩ := Mailbox.popReceived_none (by rw [popped])
      simp only [receiveOrParkHold, popped]
      rcases parkEdge_cases t pid .blocked with ⟨running, edge⟩ | ⟨running, _, edge⟩
      · rw [edge]
        exact .store (.receiveParked running noSystem noBusiness)
      · rw [edge]
        exact .store (.receiveRefused running)
    · simp only [receiveOrParkHold, popped]
      exact .store (.received current popped)

theorem takeReplyOrPark_local
    (fresh : t.published ≤ (slotIndex pid).toNat → t.slotOf pid = Slot.new) {token : Int64}
    {deadline : Option Instant} {callee : Pid} :
    Local t (.takeReplyOrPark pid token deadline callee)
      (.mail (t.takeReplyOrParkBlock pid token deadline callee).1)
      (t.takeReplyOrParkBlock pid token deadline callee).2 := by
  unfold takeReplyOrParkBlock
  rcases t.withHot_cases pid (takeReplyOrParkHold · token deadline (t.isAlive callee)) with
    ⟨run, missed⟩ | ⟨current, run⟩
  · rw [run]
    refine .tallied (.replyRefused (not_in_of_missed fresh missed) ?_)
    intro current occupied
    exact absurd (vacant_of_missed fresh missed current) occupied
  · rw [run]
    cases slotted : (t.slotOf pid).hot.mailbox.reply with
    | some =>
      simp only [takeReplyOrParkHold, Mailbox.takeReply, slotted]
      split
      · next matching => exact .store (.replyReady current slotted matching)
      · next mismatch => exact .store (.replyStale current slotted mismatch)
    | none =>
      simp only [takeReplyOrParkHold, Mailbox.takeReply, slotted]
      split
      · next up =>
        rcases parkEdge_cases t pid .blocked with ⟨running, edge⟩ | ⟨running, _, edge⟩
        · rw [edge]
          exact .store (.replyParked running slotted up)
        · rw [edge]
          exact .store (.replyRefused running fun _ _ => up)
      · next down =>
        exact .store (.replyCalleeDown current slotted (Bool.eq_false_iff.mpr down))

theorem popReceived_local (fresh : t.published ≤ (slotIndex pid).toNat → t.slotOf pid = Slot.new) :
    Local t (.popReceived pid) (.message (t.popReceived pid).1) (t.popReceived pid).2 := by
  unfold popReceived
  rcases t.withHot_cases pid (fun _ => popReceivedHold) with ⟨run, missed⟩ | ⟨current, run⟩
  · rw [run]
    by_cases current : (t.slotOf pid).Current pid
    · have empty := fresh (missed current)
      have touch : Touch t (.popReceived pid) (.message none) (t.slotOf pid) (t.slotOf pid) := by
        have popped : Touch t (.popReceived pid) _ (t.slotOf pid) _ := .popped current
        rw [empty] at popped ⊢
        exact popped
      exact .unchanged touch
    · exact .unchanged (.popMissed current)
  · rw [run]
    exact .store (.popped current)

theorem takeReply_local :
    Local t (.takeReply pid) (.message (t.takeReply pid).1) (t.takeReply pid).2 := by
  unfold takeReply
  rcases t.withHot_cases pid (fun _ => takeReplyHold) with ⟨run, -⟩ | ⟨current, run⟩
  · rw [run]
    exact .unchanged .takeMissed
  · rw [run]
    exact .store (.replyTaken current)

theorem promoteExpired_local {fireAt : Instant} :
    Local t (.promoteExpired pid fireAt) (.wake (t.promoteExpired pid fireAt).1)
      (t.promoteExpired pid fireAt).2 := by
  unfold promoteExpired
  rcases t.withHot_cases pid (promoteExpiredHold pid · fireAt) with ⟨run, -⟩ | ⟨current, run⟩
  · rw [run]
    exact .tallied .expiredMissed
  · rw [run]
    rcases promoteExpiredHold_cases fireAt t.tally current with
      ⟨source, state, parkable, due, counted, hold⟩ | hold
    · rw [hold]
      exact .store (.expired ⟨current, state⟩ parkable due)
    · rw [hold]
      exact (Local.store .expiredMissed).recount

theorem promoteIoWaiter_local : Local t (.promoteIoWaiter pid) (.wake (t.promoteIoWaiter pid).1)
      (t.promoteIoWaiter pid).2 := by
  unfold promoteIoWaiter
  rcases t.withHot_cases pid (promoteIoWaiterHold pid) with ⟨run, -⟩ | ⟨current, run⟩
  · rw [run]
    exact .unchanged .ioPromoteMissed
  · rw [run]
    rcases promoteIoWaiterHold_cases t.tally current with ⟨state, counted, hold⟩ | ⟨-, hold⟩
    · rw [hold]
      exact .store (.ioPromoted ⟨current, state⟩)
    · rw [hold]
      exact .store .ioPromoteMissed

theorem promoteCallWaiter_local
    (fresh : t.published ≤ (slotIndex pid).toNat → t.slotOf pid = Slot.new) {token : Int64} :
    Local t (.promoteCallWaiter pid token) (.wake (t.promoteCallWaiter pid token).1)
      (t.promoteCallWaiter pid token).2 := by
  unfold promoteCallWaiter
  rcases t.withHot_cases pid (promoteCallWaiterHold pid · token) with ⟨run, missed⟩ | ⟨current, run⟩
  · rw [run]
    refine .unchanged (.callPromoteMissed ?_)
    rintro ⟨parked, -⟩
    exact not_in_of_missed fresh missed parked
  · rw [run]
    unfold promoteCallWaiterHold
    by_cases waits : (t.slotOf pid).lifecycle.generation = generationOf pid ∧
        (t.slotOf pid).lifecycle.state = some .blocked ∧
        (t.slotOf pid).hot.waiting = .reply ∧
        (t.slotOf pid).hot.awaitingReply = some token
    · rw [if_pos waits]
      obtain ⟨-, state, waiting, awaited⟩ := waits
      have parked : (t.slotOf pid).undated.In pid .blocked := ⟨current, state⟩
      obtain ⟨counted, woken⟩ := wakeEdge_parked t.tally parked
      simp only [Slot.undated] at woken
      simp only [woken]
      exact .store (.callPromoted ⟨current, state⟩ waiting awaited)
    · rw [if_neg waits]
      refine .store (.callPromoteMissed ?_)
      rintro ⟨⟨current, state⟩, rest⟩
      exact waits ⟨current, state, rest⟩

theorem yieldRunning_local (fresh : t.published ≤ (slotIndex pid).toNat → t.slotOf pid = Slot.new) :
    Local t (.yieldRunning pid) .done (t.yieldRunning pid) := by
  unfold yieldRunning
  by_cases running : (t.slotOf pid).In pid .running
  · rw [slot_eq, if_pos (present_of_in fresh running)]
    simp only [tryEdge_in .runnable running]
    exact .store (.yielded running)
  · rcases t.slot_cases pid with slot | slot
    all_goals
      simp only [slot, tryEdge_refused .runnable running]
      exact .unchanged (.yieldMissed running)

theorem release_local (fresh : t.published ≤ (slotIndex pid).toNat → t.slotOf pid = Slot.new) :
    Local t (.afterSwitch pid) (.released (t.release pid).1) (t.release pid).2 := by
  unfold release
  by_cases held : (t.slotOf pid).lifecycle.generation = generationOf pid ∧
      (t.slotOf pid).lifecycle.onCpu = true
  · have present : (slotIndex pid).toNat < t.published := by
      by_contra absent
      have claimed := held.2
      rw [fresh (Nat.le_of_not_lt absent)] at claimed
      cases claimed
    rw [slot_eq, if_pos present]
    simp only [release_eq, if_pos held]
    exact .store (.released held.1 held.2)
  · rcases t.slot_cases pid with slot | slot
    all_goals
      simp only [slot, release_eq, if_neg held]
      exact .unchanged (.releaseMissed held)

theorem death_local (fresh : t.published ≤ (slotIndex pid).toNat → t.slotOf pid = Slot.new)
    {call : Call M} {forced : Option ExitReason} (names : call.pid = pid)
    (ends : call.forces = some forced) :
    Local t call (.died (t.death pid forced).1) (t.death pid forced).2 := by
  subst names
  unfold death
  rcases t.withHot_cases call.pid (deathHold · forced) with ⟨run, missed⟩ | ⟨current, run⟩
  · rw [run]
    exact .unchanged (.deathMissed ends (not_alive_of_missed fresh missed))
  · rw [run]
    rcases deathHold_cases forced t.tally (t.slotOf call.pid) call.pid with
      ⟨gone, hold⟩ | ⟨alive, held, counted, hold⟩ | ⟨alive, idle, counted, hold⟩
    · rw [hold]
      exact .store (.deathMissed ends gone)
    · rw [hold]
      exact .store (.marked ends alive held)
    · rw [hold]
      exact .store (.reclaimed ends alive idle)

theorem modifyHot_local (fresh : t.published ≤ (slotIndex pid).toNat → t.slotOf pid = Slot.new)
    {call : Call M} (names : call.pid = pid)
    {write : HotState M → HotState M} (sets : call.hotUpdate = some write) :
    Local t call .done (t.modifyHot pid write) := by
  subst names
  unfold modifyHot
  rcases t.withHot_cases call.pid
      (fun _ slot tally => ((), { slot with hot := write slot.hot }, tally)) with
    ⟨run, missed⟩ | ⟨current, run⟩
  · rw [run]
    exact .unchanged (.hotMissed sets (vacant_of_missed fresh missed))
  · rw [run]
    exact .store (.hotSet sets current)

theorem modifyScalars_local {call : Call M} {write : Slot X M → Slot X M}
    (sets : call.scalarUpdate = some write) :
    Local t call .done (t.modifyScalars call.pid write) := by
  rcases modifyScalars_cases t call.pid write with ⟨current, run⟩ | run
  · rw [run]
    exact .store (.scalarSet sets current)
  · rw [run]
    exact .unchanged (.scalarMissed sets)

theorem logEnter_local : Local t (.logEnter pid) (.flag (t.logEnter pid).1) (t.logEnter pid).2 := by
  unfold logEnter modifyScalars
  rcases t.slot_cases pid with slot | slot
  · rw [slot]
    exact .unchanged .logRefused
  · rw [slot]
    by_cases current : (t.slotOf pid).lifecycle.generation = generationOf pid
    · simp only [any_some, current, true_and, if_true]
      exact .store (.logEntered current)
    · simp only [any_some, current, false_and, decide_false, if_false]
      exact .unchanged .logRefused

end Calls

/-- Every call is local: what it does to the slot it names is one of `Touch`'s
cases, and every other slot and the registry stay as they were. -/
theorem perform_local [Message M] (t : ProcessTable X M) (call : Call M)
    (fresh : t.published ≤ (slotIndex call.pid).toNat → t.slotOf call.pid = Slot.new) :
    Local t call (t.perform call).1 (t.perform call).2 := by
  cases call with
  | deliver => exact deliver_local fresh
  | deliverReply => exact deliverReply_local fresh
  | tryClaim => exact tryClaim_local fresh
  | tryPark => exact tryPark_local fresh
  | tryParkIo => exact tryParkIo_local fresh
  | receiveOrPark => exact receiveOrPark_local fresh
  | takeReplyOrPark => exact takeReplyOrPark_local fresh
  | popReceived => exact popReceived_local fresh
  | takeReply => exact takeReply_local
  | promoteExpired => exact promoteExpired_local
  | promoteIoWaiter => exact promoteIoWaiter_local
  | promoteCallWaiter => exact promoteCallWaiter_local fresh
  | yieldRunning => exact yieldRunning_local fresh
  | afterSwitch => exact release_local fresh
  | kill | markDeadIfAlive => exact death_local fresh rfl rfl
  | clearDeadline | setAwaitingReply | clearAwaitingReply | setExitReason | setCrashInfo =>
    exact modifyHot_local fresh rfl rfl
  | setPriority | setContext | setLogLevel | logLeave => exact modifyScalars_local rfl
  | logEnter => exact logEnter_local

/-- A call on an index beyond the published slots touches none. -/
theorem perform_absent [Message M] (t : ProcessTable X M) (call : Call M)
    (absent : t.published ≤ (slotIndex call.pid).toNat) :
    (t.perform call).2.arena = t.arena := by
  have missing : t.slot call.pid = none := by
    rw [slot_eq, if_neg (Nat.not_lt.mpr absent)]
  cases call <;> simp only [Call.pid] at missing <;>
    simp [perform, deliver, deliverReply, deliverIf, tryClaim, tryPark, tryParkIo, receiveOrPark,
      takeReplyOrParkBlock, orRefused, popReceived, takeReply, promoteExpired, promoteIoWaiter,
      promoteCallWaiter, yieldRunning, release, death, clearDeadline, setAwaitingReply,
      clearAwaitingReplyBlock, setExitReason, setCrashInfo, modifyHot, withHot, setPriority,
      setContext, setLogLevel, logEnter, logLeave, modifyScalars, tallied, missing]

end Koja.Source.Runtime
