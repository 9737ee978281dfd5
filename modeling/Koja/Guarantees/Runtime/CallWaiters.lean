import Koja.Guarantees.Runtime.Cascade
import Koja.Guarantees.Runtime.ExclusiveClaim

/-!
# Callers and dead callees

A `Ref.call` runs in its caller's own code: `set_awaiting_reply`, then
`take_reply_or_park` over and over until the call is resolved. The registration, the
caller's slot hold, the callee's death, its sweep and the promotion are separate
blocks; what ties them together is where the caller stands, which is read off the
history here.
-/
namespace Koja.Guarantees.Runtime
open Koja.Lib Koja.Source.Runtime Multiset Option

variable {X M : Type} {s after : Sys X M} {others : Multiset (Pending X M)} {item : Pending X M}
  {token : Int64} {event : Event X M} {history : List (Event X M)}

/-! ## Where a caller stands -/

/-- A call in flight: its token, the callee its loop has named, and whether a hold of
the loop has found the reply slot empty and parked. -/
structure OpenCall where
  token : Int64
  callee : Option Pid
  emptied : Bool

/-- What a label does to a caller's call. -/
def callWrite : Event X M → Option (Pid × (Option OpenCall → Option OpenCall))
  | .call (.setAwaitingReply pid token) _ => some (pid, fun _ => some ⟨token, none, false⟩)
  | .ensureCallWaiter caller callee _ _ =>
    some (caller, Option.map fun call => { call with callee := some callee })
  | .call (.takeReplyOrPark pid _ _ _) (.mail .parked) =>
    some (pid, Option.map fun call => { call with emptied := true })
  | .call (.takeReplyOrPark pid _ _ _) (.mail (.ready _)) => some (pid, fun _ => none)
  | .call (.takeReplyOrPark pid _ _ _) (.mail .calleeDown) => some (pid, fun _ => none)
  | .call (.clearAwaitingReply pid) _ => some (pid, fun _ => none)
  | _ => none

def openCall (history : List (Event X M)) (pid : Pid) : Option OpenCall :=
  replay callWrite none history pid

/-- What a label does to the wait a process is parked on: a park sets or changes it, the
next claim ends it. -/
def parkWrite : Event X M → Option (Pid × (Option (Int64 × Pid) → Option (Int64 × Pid)))
  | .call (.takeReplyOrPark pid token _ callee) (.mail .parked) =>
    some (pid, fun _ => some (token, callee))
  | .call (.tryPark pid _ _) (.flag true) => some (pid, fun _ => none)
  | .call (.tryParkIo pid _) (.io .parked) => some (pid, fun _ => none)
  | .call (.receiveOrPark pid _) (.mail .parked) => some (pid, fun _ => none)
  | .call (.tryClaim pid) (.flag true) => some (pid, fun _ => none)
  | _ => none

/-- The token and callee of the reply wait `pid` has parked on and not resumed from. -/
def parkedOn (history : List (Event X M)) (pid : Pid) : Option (Int64 × Pid) :=
  replay parkWrite none history pid

def tokenOf : Event X M → Option Int64
  | .call (.setAwaitingReply _ token) _ => some token
  | _ => none

def usedTokens (history : List (Event X M)) : List Int64 := history.filterMap tokenOf

/-- The caller whose own operation is between two blocks. -/
def owner : Pending X M → Option Pid
  | .takeReplyOrPark caller _ _ _ => some caller
  | .evictCallWaiter caller => some caller
  | _ => none

def owners (s : Sys X M) : Multiset Pid := s.pending.filterMap owner

/-- `pid`'s own code is executing: a worker holds its claim, it has not parked, and it
is not inside another operation. -/
def Acting (s : Sys X M) (pid : Pid) : Prop :=
  pid ∈ s.claims ∧ ¬ (s.table.arena (slotIndex pid)).In pid .blocked ∧ pid ∉ owners s

/-- Callers run `set_awaiting_reply` with fresh tokens and then loop on
`take_reply_or_park` for one callee, in their own code; a worker switches a process out
between its operations; replies travel by `deliver_reply` and carry the token they
answer. -/
def CallDiscipline [Message M] (history : List (Event X M)) (s : Sys X M) : Event X M → Prop
  | .call (.setAwaitingReply pid token) _ => Acting s pid ∧ token ∉ usedTokens history
  | .ensureCallWaiter caller callee token _ =>
    Acting s caller ∧ Handle history callee ∧ ∃ call, openCall history caller = some call ∧
      call.token = token ∧ (call.callee = none ∨ call.callee = some callee)
  | .call (.clearAwaitingReply pid) _ => Acting s pid
  | .call (.afterSwitch pid) _ => pid ∉ owners s
  | .call (.deliver _ message) _ => Message.tag message ≠ .reply
  | .call (.deliverReply _ token message) _ => Message.replyToken message = token
  | _ => True

/-! ## What a step does to the waits -/

theorem owners_cons (next : s.pending = item ::ₘ others) :
    owners s = (owner item).elim (others.filterMap owner) (· ::ₘ others.filterMap owner) :=
  filterMap_of_cons owner next

/-- The reply holds to come. -/
def holding : Pending X M → Option (Pid × Int64 × Pid)
  | .takeReplyOrPark caller token _ callee => some (caller, token, callee)
  | _ => none

def holds (s : Sys X M) : Multiset (Pid × Int64 × Pid) := s.pending.filterMap holding

theorem holds_cons (next : s.pending = item ::ₘ others) :
    holds s = (holding item).elim (others.filterMap holding) (· ::ₘ others.filterMap holding) :=
  filterMap_of_cons holding next

theorem holding_owner {items : Multiset (Pending X M)} {caller callee : Pid}
    (held : (caller, token, callee) ∈ items.filterMap holding) :
    caller ∈ items.filterMap owner := by
  obtain ⟨item, member, named⟩ := (mem_filterMap _ _).mp held
  refine (mem_filterMap _ _).mpr ⟨item, member, ?_⟩
  cases item with
  | takeReplyOrPark =>
    cases named
    rfl
  | _ => cases named

/-- The table's record of waits: registered, staged by a death, or drained. -/
structure SameWaits (s after : Sys X M) : Prop where
  waiters : after.table.registry.callWaiters = s.table.registry.callWaiters
  downs : after.table.registry.pendingCallDowns = s.table.registry.pendingCallDowns

/-- The call side of a step. -/
inductive WaitStep : Sys X M → Event X M → Sys X M → Prop
  | quiet {s after : Sys X M} {event : Event X M}
      (label : ∀ call outcome, event ≠ .call call outcome)
      (unaimed : ∀ caller callee token deadline,
        event ≠ .ensureCallWaiter caller callee token deadline)
      (unpassed : ∀ pid forced staged monitors, event ≠ .deathPass pid forced staged monitors)
      (waits : SameWaits s after) (batch : after.callBatch = s.callBatch)
      (claims : after.claims = s.claims) (own : owners after = owners s)
      (held : holds after = holds s) : WaitStep s event after
  | called {s after : Sys X M} {call : Call M} {outcome : Outcome X M}
      (opens : ∀ pid token deadline callee, call ≠ .takeReplyOrPark pid token deadline callee)
      (waits : SameWaits s after)
      (batch : after.callBatch = s.callBatch ∨ ∃ waiter : CallWaiter,
        call = .promoteCallWaiter waiter.caller waiter.token ∧
          s.callBatch = waiter ::ₘ after.callBatch)
      (claims : after.claims = call.claims s.claims outcome)
      (own : owners after = owners s ∨ ∃ pid, call = .clearAwaitingReply pid ∧
        owners after = pid ::ₘ owners s)
      (held : holds after = holds s) : WaitStep s (.call call outcome) after
  | held {s after : Sys X M} {caller callee : Pid} {token : Int64} {deadline : Option Instant}
      {outcome : Outcome X M} {others : Multiset Pid} (waits : SameWaits s after)
      (batch : after.callBatch = s.callBatch) (claims : after.claims = s.claims)
      (own : owners s = caller ::ₘ others)
      (left : owners after = others ∨ owners after = owners s ∧
        ((∃ reply, outcome = .mail (.ready reply)) ∨ outcome = .mail .calleeDown))
      (held : holds s = (caller, token, callee) ::ₘ holds after)
      (apart : ∀ other token callee, (other, token, callee) ∈ holds after → other ∈ others) :
      WaitStep s (.call (.takeReplyOrPark caller token deadline callee) outcome) after
  | ensured {s after : Sys X M} {caller callee : Pid} {token : Int64}
      {deadline : Option Instant}
      (waiters : after.table.registry.callWaiters =
        (s.table.ensureCallWaiter caller callee token).registry.callWaiters)
      (downs : after.table.registry.pendingCallDowns = s.table.registry.pendingCallDowns)
      (batch : after.callBatch = s.callBatch) (claims : after.claims = s.claims)
      (own : owners after = caller ::ₘ owners s)
      (held : holds after = (caller, token, callee) ::ₘ holds s) :
      WaitStep s (.ensureCallWaiter caller callee token deadline) after
  | evicted {s after : Sys X M} {caller : Pid} (waiters : after.table.registry.callWaiters =
        s.table.registry.callWaiters.filter (·.caller ≠ caller))
      (downs : after.table.registry.pendingCallDowns = s.table.registry.pendingCallDowns)
      (batch : after.callBatch = s.callBatch) (claims : after.claims = s.claims)
      (own : owners s = caller ::ₘ owners after) (held : holds after = holds s) :
      WaitStep s (.evictCallWaiter caller) after
  | passed {s after : Sys X M} {pid : Pid} {forced : Option ExitReason}
      {staged : DeathStaged X M} {monitors : List MonitorEntry}
      (waiters : after.table.registry.callWaiters = s.table.registry.callWaiters.filter
        (fun waiter => waiter.callee ≠ pid ∧ waiter.caller ≠ pid))
      (downs : after.table.registry.pendingCallDowns =
        s.table.registry.pendingCallDowns ++ s.table.registry.callWaiters.filter
          (fun waiter => waiter.callee = pid ∧ waiter.caller ≠ pid))
      (batch : after.callBatch = s.callBatch) (claims : after.claims = s.claims)
      (own : owners after = owners s) (held : holds after = holds s) :
      WaitStep s (.deathPass pid forced staged monitors) after
  | drained {s after : Sys X M}
      (waiters : after.table.registry.callWaiters = s.table.registry.callWaiters)
      (downs : after.table.registry.pendingCallDowns = [])
      (batch : after.callBatch =
        s.callBatch + (s.table.registry.pendingCallDowns : Multiset CallWaiter))
      (claims : after.claims = s.claims)
      (own : owners after = owners s) (held : holds after = holds s) :
      WaitStep s (.takeCallDowns s.table.registry.pendingCallDowns) after

theorem WaitStep.hold {caller callee : Pid} {deadline : Option Instant} {outcome : Outcome X M}
    (wait : WaitStep s (.call (.takeReplyOrPark caller token deadline callee) outcome) after) :
    SameWaits s after ∧ (caller, token, callee) ∈ holds s ∧ ∃ others,
      owners s = caller ::ₘ others ∧ (owners after = others ∨ owners after = owners s ∧
        ((∃ reply, outcome = .mail (.ready reply)) ∨ outcome = .mail .calleeDown)) := by
  cases wait with
  | called opens => exact absurd rfl (opens _ _ _ _)
  | quiet label => exact absurd rfl (label _ _)
  | held waits _ _ own left held => exact ⟨waits, held ▸ mem_cons_self _ _, _, own, left⟩

/-- What a call that is not a reply hold leaves to be done. -/
theorem follows_owner (call : Call M) (outcome : Outcome X M)
    (opens : ∀ pid token deadline callee, call ≠ .takeReplyOrPark pid token deadline callee) :
    (call.follows outcome).filterMap holding = 0 ∧
      ((call.follows outcome).filterMap owner = 0 ∨ ∃ pid, call = .clearAwaitingReply pid ∧
        (call.follows outcome).filterMap owner = {pid}) := by
  unfold Call.follows
  split
  · exact ⟨rfl, .inl rfl⟩
  · exact ⟨rfl, .inl rfl⟩
  · exact ⟨rfl, .inl rfl⟩
  · exact absurd rfl (opens _ _ _ _)
  · exact absurd rfl (opens _ _ _ _)
  · exact ⟨rfl, .inr ⟨_, rfl, rfl⟩⟩
  · exact ⟨rfl, .inl rfl⟩

/-- A reply hold leaves the eviction of its entry when it resolved the call. -/
theorem follows_held {caller callee : Pid} {deadline : Option Instant} {outcome : Outcome X M} :
    ((Call.takeReplyOrPark caller token deadline callee : Call M).follows outcome).filterMap
        holding = 0 ∧
      (((Call.takeReplyOrPark caller token deadline callee : Call M).follows outcome).filterMap
          owner = 0 ∨
        ((Call.takeReplyOrPark caller token deadline callee : Call M).follows outcome).filterMap
          owner = {caller} ∧
          ((∃ reply, outcome = .mail (.ready reply)) ∨ outcome = .mail .calleeDown)) := by
  cases outcome with
  | mail park =>
    cases park with
    | ready reply => exact ⟨rfl, .inr ⟨rfl, .inl ⟨reply, rfl⟩⟩⟩
    | calleeDown => exact ⟨rfl, .inr ⟨rfl, .inr rfl⟩⟩
    | _ => exact ⟨rfl, .inl rfl⟩
  | _ => exact ⟨rfl, .inl rfl⟩

theorem deathPass_waits (t : ProcessTable X M) (pid : Pid) (staged : DeathStaged X M) :
    (t.deathPass pid staged).registry.callWaiters = t.registry.callWaiters.filter
        (fun waiter => waiter.callee ≠ pid ∧ waiter.caller ≠ pid) ∧
      (t.deathPass pid staged).registry.pendingCallDowns =
        t.registry.pendingCallDowns ++ t.registry.callWaiters.filter
          (fun waiter => waiter.callee = pid ∧ waiter.caller ≠ pid) := by
  unfold ProcessTable.deathPass Registry.notifyExit Registry.removeChild
  split <;> (dsimp only; split <;> exact ⟨rfl, rfl⟩)

theorem call_wait [Message M] {call : Call M} {picked : Sys X M} (fresh : Fresh s.table)
    (origin : Picked s call picked) :
    WaitStep s (.call call (picked.table.perform call).1) (picked.perform call) := by
  obtain ⟨-, claims, -⟩ := picked_frame origin
  have registry := picked_registry fresh origin
  have waits : SameWaits s (picked.perform call) := ⟨by rw [registry], by rw [registry]⟩
  have claimed : (picked.perform call).claims =
      call.claims s.claims (picked.table.perform call).1 := by
    rw [← claims]
    rfl
  have own : owners (picked.perform call) =
      (call.follows (picked.table.perform call).1).filterMap owner + owners picked :=
    filterMap_add _ _ _
  have held : holds (picked.perform call) =
      (call.follows (picked.table.perform call).1).filterMap holding + holds picked :=
    filterMap_add _ _ _
  have batch : (picked.perform call).callBatch = picked.callBatch := rfl
  generalize (picked.table.perform call).1 = outcome at *
  have plain : (∀ pid token deadline callee, call ≠ .takeReplyOrPark pid token deadline callee) →
      (owners (picked.perform call) = owners picked ∨ ∃ pid, call = .clearAwaitingReply pid ∧
        owners (picked.perform call) = pid ::ₘ owners picked) ∧
      holds (picked.perform call) = holds picked := by
    intro opens
    obtain ⟨noHold, left⟩ := follows_owner call outcome opens
    rw [noHold, zero_add] at held
    refine ⟨?_, held⟩
    rcases left with ownsNothing | ⟨pid, clears, evicts⟩
    · rw [ownsNothing, zero_add] at own
      exact .inl own
    · rw [evicts] at own
      exact .inr ⟨pid, clears, own⟩
  cases origin with
  | replyHold next =>
    rename_i caller callee token deadline rest
    obtain ⟨noHold, left⟩ := follows_held
    rw [noHold, zero_add] at held
    have others := owners_cons next
    refine .held waits batch claimed others ?_ ?_ ?_
    · rcases left with ownsNothing | ⟨evicts, resolved⟩
      · rw [ownsNothing, zero_add] at own
        exact .inl own
      · rw [evicts] at own
        exact .inr ⟨own.trans others.symm, resolved⟩
    · rw [held]
      exact holds_cons next
    · intro other token callee member
      rw [held] at member
      exact holding_owner member
  | fresh opens => exact .called opens waits (.inl batch) claimed (plain opens).1 (plain opens).2
  | batchKill =>
    obtain ⟨own, held⟩ := plain (by simp)
    exact .called (by simp) waits (.inl batch) claimed own held
  | batchPromote next =>
    obtain ⟨own, held⟩ := plain (by simp)
    exact .called (by simp) waits (.inr ⟨_, rfl, next⟩) claimed own held

/-- A step beside the calls, the waits and the operations of callers. -/
theorem WaitStep.still (same : ∀ {A : Type} (select : Pending X M → Option A),
      (∀ item, owner item = none → select item = none) →
        after.pending.filterMap select = s.pending.filterMap select)
    (waits : SameWaits s after := by exact ⟨rfl, rfl⟩)
    (batch : after.callBatch = s.callBatch := by rfl) (claims : after.claims = s.claims := by rfl)
    (label : ∀ call outcome, event ≠ .call call outcome := by simp)
    (unaimed : ∀ caller callee token deadline,
      event ≠ .ensureCallWaiter caller callee token deadline := by simp)
    (unpassed : ∀ pid forced staged monitors,
      event ≠ .deathPass pid forced staged monitors := by simp) : WaitStep s event after := by
  refine .quiet label unaimed unpassed waits batch claims (same owner fun _ absent => absent)
    (same holding ?_)
  intro item none
  cases item with
  | takeReplyOrPark => cases none
  | _ => rfl

theorem step_wait [Message M] (fresh : Fresh s.table) (step : Step s event after) :
    WaitStep s event after := by
  have dropped : ∀ {item : Pending X M} {rest : Multiset (Pending X M)} {A : Type}
      (select : Pending X M → Option A), select item = none → ∀ {m : Multiset (Pending X M)},
      m = item ::ₘ rest → m.filterMap select = rest.filterMap select := by
    intro item rest A select unselected m next
    rw [filterMap_of_cons select next, unselected]
    rfl
  cases step with
  | call origin => exact call_wait fresh origin
  | spawn execution parent =>
    unfold Sys.spawn
    rcases spawn_cases s.table execution parent with ⟨spawner, -, -, refused⟩ |
      ⟨index, table, spawned, placed⟩
    · rw [refused]
      exact .still fun _ _ => rfl
    · rw [placed]
      exact .still (fun _ _ => rfl) ⟨spawned.callWaiters, spawned.callDowns⟩
  | deathPass next =>
    obtain ⟨waiters, downs⟩ := deathPass_waits s.table _ _
    exact .passed waiters downs rfl rfl (owners_cons next).symm (holds_cons next).symm
  | reclaim next | monitorReason next =>
    refine .still ?_
    intro A select none
    rw [dropped select (none _ rfl) next]
    exact dropped select (none _ rfl) rfl
  | pushFree next | stageNotice next =>
    refine .still ?_
    intro A select none
    exact (dropped select (none _ rfl) next).symm
  | registerMonitor =>
    unfold Sys.registerMonitor ProcessTable.registerMonitor
    split
    · exact .still fun _ _ => rfl
    · refine .still ?_
      intro A select none
      exact dropped select (none _ rfl) rfl
  | ensureCallWaiter =>
    refine .ensured rfl ?_ rfl rfl ((owners_cons rfl).trans rfl) ((holds_cons rfl).trans rfl)
    unfold ProcessTable.ensureCallWaiter
    split <;> rfl
  | evictCallWaiter next =>
    exact .evicted rfl rfl rfl rfl (owners_cons next) (holds_cons next).symm
  | takeCallDowns => exact .drained rfl rfl rfl rfl rfl rfl
  | demonitor | takeExitNotices | takePendingKills | enterDraining | livePid =>
    exact .still fun _ _ => rfl

/-- A wait was there and outlasts the step's pass, or is registered between live processes. -/
theorem callWaiter_back [Message M] (fresh : Fresh s.table) (step : Step s event after)
    {waiter : CallWaiter} (member : waiter ∈ after.table.registry.callWaiters) :
    (waiter ∈ s.table.registry.callWaiters ∧ Spares event waiter.caller ∧
      Spares event waiter.callee) ∨
    (∃ deadline, event = .ensureCallWaiter waiter.caller waiter.callee waiter.token deadline) ∧
      (s.table.slotOf waiter.caller).Alive waiter.caller ∧
      (s.table.slotOf waiter.callee).Alive waiter.callee := by
  cases step_wait fresh step with
  | quiet _ _ unpassed waits =>
    rw [waits.waiters] at member
    exact .inl ⟨member, unpassed _, unpassed _⟩
  | called _ waits | held waits =>
    rw [waits.waiters] at member
    exact .inl ⟨member, by simp [Spares], by simp [Spares]⟩
  | ensured waiters =>
    rw [waiters] at member
    unfold ProcessTable.ensureCallWaiter at member
    split at member
    · next registers =>
      simp only [Bool.and_eq_true, isAlive_iff fresh] at registers
      rcases List.mem_append.mp member with old | new
      · exact .inl ⟨old, by simp [Spares], by simp [Spares]⟩
      · cases List.mem_singleton.mp new
        exact .inr ⟨⟨_, rfl⟩, registers.2, registers.1.2⟩
    · exact .inl ⟨member, by simp [Spares], by simp [Spares]⟩
  | evicted waiters =>
    rw [waiters] at member
    exact .inl ⟨(List.mem_filter.mp member).1, by simp [Spares], by simp [Spares]⟩
  | passed waiters =>
    rw [waiters] at member
    obtain ⟨old, spared⟩ := List.mem_filter.mp member
    refine .inl ⟨old, ?_, ?_⟩ <;> rintro forced staged monitors same <;> cases same <;>
      simp at spared
  | drained waiters =>
    rw [waiters] at member
    exact .inl ⟨member, by simp [Spares], by simp [Spares]⟩

/-! ## What a call does to a caller's slot -/

theorem pid_of_current {call : Call M} {slot : Slot X M} {pid : Pid}
    (names : slotIndex call.pid = slotIndex pid) (current : slot.Current pid)
    (same : slot.Current call.pid) : call.pid = pid :=
  Pid.ext names (same.symm.trans current)

section Touches
variable [Message M] {t : ProcessTable X M} {call : Call M} {outcome : Outcome X M}
  {slot now : Slot X M} {pid : Pid}

/-- Only a caller's own operations change which reply it awaits. -/
theorem touch_awaiting (touch : Touch t call outcome slot now)
    (names : slotIndex call.pid = slotIndex pid) (current : slot.Current pid)
    (untouched : ∀ change, callWrite (.call call outcome) = some (pid, change) →
      outcome = .mail .parked) :
    now = slot.vacated ∨ now.lifecycle.generation = slot.lifecycle.generation ∧
      now.hot.awaitingReply = slot.hot.awaitingReply := by
  have self := pid_of_current names current
  cases touch with
  | delivered _ posted | replied _ _ posted =>
    obtain ⟨generation, awaiting, -⟩ := posted_frame posted
    exact .inr ⟨generation, awaiting⟩
  | replyReady current' | replyCalleeDown current' =>
    have same := self current'
    subst same
    cases untouched _ rfl
  | reclaimed => exact .inl rfl
  | hotSet sets current' =>
    have same := self current'
    subst same
    right
    refine ⟨rfl, ?_⟩
    cases call with
    | setAwaitingReply | clearAwaitingReply => cases untouched _ rfl
    | clearDeadline | setExitReason | setCrashInfo =>
      cases sets
      rfl
    | _ => cases sets
  | scalarSet sets =>
    obtain ⟨word, hot, -⟩ := scalarUpdate_frame sets slot
    exact .inr ⟨by rw [word], by rw [hot]⟩
  | _ => exact .inr ⟨rfl, rfl⟩

/-- A reply comes into the slot by a delivery, or was there before. -/
theorem touch_reply (touch : Touch t call outcome slot now) {reply : M}
    (slotted : now.hot.mailbox.reply = some reply) :
    slot.hot.mailbox.reply = some reply ∨
      Message.tag reply = .reply ∧ (call = .deliver call.pid reply ∨
        ∃ token, call = .deliverReply call.pid token reply ∧
          slot.hot.awaitingReply = some token) := by
  have pushed : ∀ {message : M}, (slot.hot.mailbox.push message).2.reply = some reply →
      slot.hot.mailbox.reply = some reply ∨ Message.tag message = .reply ∧ message = reply := by
    intro message found
    rw [(Mailbox.push_parts slot.hot.mailbox message).2.2] at found
    split at found
    · next isReply => exact .inr ⟨isReply, Option.some.inj found⟩
    · exact .inl found
  cases touch with
  | delivered _ posted =>
    obtain ⟨-, -, -, mailbox⟩ := posted_frame posted
    rw [mailbox] at slotted
    rcases pushed slotted with old | ⟨isReply, rfl⟩
    · exact .inl old
    · exact .inr ⟨isReply, .inl rfl⟩
  | replied _ awaited posted =>
    obtain ⟨-, -, -, mailbox⟩ := posted_frame posted
    rw [mailbox] at slotted
    rcases pushed slotted with old | ⟨isReply, rfl⟩
    · exact .inl old
    · exact .inr ⟨isReply, .inr ⟨_, rfl, awaited⟩⟩
  | received _ popped =>
    left
    have kept := Mailbox.popReceived_reply slot.hot.mailbox
    rw [popped] at kept
    rw [← kept]
    exact slotted
  | popped =>
    left
    rw [← Mailbox.popReceived_reply slot.hot.mailbox]
    exact slotted
  | replyReady | replyStale | replyTaken | reclaimed => cases slotted
  | hotSet sets =>
    left
    rw [← (hotUpdate_mailbox sets slot.hot).1]
    exact slotted
  | scalarSet sets =>
    obtain ⟨-, hot, -⟩ := scalarUpdate_frame sets slot
    rw [hot] at slotted
    exact .inl slotted
  | _ => exact .inl slotted

/-- A runnable process stays so until it is claimed or killed. -/
theorem touch_runnable (touch : Touch t call outcome slot now)
    (names : slotIndex call.pid = slotIndex pid) (runnable : slot.In pid .runnable) :
    now.In pid .runnable ∨ ¬ now.Alive pid ∨ call = .tryClaim pid ∧ outcome = .flag true := by
  have self := pid_of_current names runnable.1
  have elsewhere : ∀ {other : Pid} {state : ProcessState}, state ≠ .runnable →
      ¬ slot.In other state := by
    rintro other state different ⟨-, found⟩
    rw [runnable.2] at found
    cases found
    exact different rfl
  cases touch with
  | delivered alive posted | replied alive awaited posted =>
    left
    cases posted with
    | quiet => exact runnable
    | waking => exact ⟨runnable.1, rfl⟩
  | claimed current =>
    have same := self current
    subst same
    exact .inr (.inr ⟨rfl, rfl⟩)
  | parked running | ioParked running | receiveParked running | replyParked running
  | yielded running => exact absurd running (elsewhere (by decide))
  | expired | ioPromoted parked | callPromoted parked => exact .inl ⟨runnable.1, rfl⟩
  | marked => exact .inr (.inl (marked_not_alive _ _ _))
  | reclaimed => exact .inr (.inl (vacated_not_alive _ _))
  | scalarSet sets =>
    obtain ⟨word, -⟩ := scalarUpdate_frame sets slot
    left
    unfold Slot.In Slot.Current
    rw [word]
    exact runnable
  | _ => exact .inl runnable

/-- A caller blocked on its reply stays so until it is woken or killed; the promotion of
its own wait wakes it. -/
theorem touch_blocked (touch : Touch t call outcome slot now)
    (names : slotIndex call.pid = slotIndex pid) (blocked : slot.In pid .blocked)
    (waiting : slot.hot.waiting = .reply)
    (awaited : slot.hot.awaitingReply = some token)
    (untouched : ∀ change, callWrite (.call call outcome) ≠ some (pid, change)) :
    now.In pid .runnable ∨ ¬ now.Alive pid ∨ now.In pid .blocked ∧ now.hot.waiting = .reply ∧
        now.hot.awaitingReply = some token ∧ call ≠ .promoteCallWaiter pid token := by
  have self := pid_of_current names blocked.1
  have elsewhere : ∀ {other : Pid}, ¬ slot.In other .running := by
    rintro other ⟨-, found⟩
    rw [blocked.2] at found
    cases found
  have kept := touch_awaiting touch names blocked.1
    fun change wrote => absurd wrote (untouched change)
  cases touch with
  | delivered alive posted | replied alive answers posted =>
    cases posted with
    | quiet => exact .inr (.inr ⟨blocked, waiting, awaited, by simp⟩)
    | waking => exact .inl ⟨blocked.1, rfl⟩
  | claimed _ _ ready =>
    rw [blocked.2] at ready
    rcases ready with ready | ready <;> cases ready
  | parked running | ioParked running | receiveParked running | replyParked running
  | yielded running => exact absurd running elsewhere
  | expired | ioPromoted parked | callPromoted parked => exact .inl ⟨blocked.1, rfl⟩
  | callPromoteMissed refused =>
    refine .inr (.inr ⟨blocked, waiting, awaited, ?_⟩)
    intro same
    cases same
    exact refused ⟨blocked, waiting, awaited⟩
  | marked => exact .inr (.inl (marked_not_alive _ _ _))
  | reclaimed => exact .inr (.inl (vacated_not_alive _ _))
  | replyReady current | replyCalleeDown current =>
    have same := self current
    subst same
    exact absurd rfl (untouched _)
  | hotSet sets =>
    have frame := (hotUpdate_mailbox sets slot.hot).2
    rcases kept with vacated | ⟨-, same⟩
    · have emptied := congrArg (fun slot => slot.lifecycle.state) vacated
      exact absurd (blocked.2.symm.trans emptied) (by simp [Slot.vacated, LifecycleWord.vacate])
    · refine .inr (.inr ⟨blocked, frame.trans waiting, same.trans awaited, ?_⟩)
      rintro rfl
      cases sets
  | hotMissed sets | scalarMissed sets =>
    refine .inr (.inr ⟨blocked, waiting, awaited, ?_⟩)
    rintro rfl
    cases sets
  | scalarSet sets =>
    obtain ⟨word, hot, -⟩ := scalarUpdate_frame sets slot
    refine .inr (.inr ⟨?_, by rw [hot]; exact waiting, by rw [hot]; exact awaited, ?_⟩)
    · unfold Slot.In Slot.Current
      rw [word]
      exact blocked
    · rintro rfl
      cases sets
  | deathMissed ends =>
    refine .inr (.inr ⟨blocked, waiting, awaited, ?_⟩)
    rintro rfl
    cases ends
  | _ => exact .inr (.inr ⟨blocked, waiting, awaited, by simp⟩)

end Touches

/-- A hold that parks finds the caller running and the callee alive. -/
theorem replyParked_step [Message M] (fresh : Fresh s.table) {caller callee : Pid}
    {deadline : Option Instant} (step : Step s
      (.call (.takeReplyOrPark caller token deadline callee) (.mail .parked)) after) :
    (s.table.arena (slotIndex caller)).In caller .running ∧
      (s.table.arena (slotIndex callee)).Alive callee ∧
      (after.table.arena (slotIndex caller)).In caller .blocked ∧
      (after.table.arena (slotIndex caller)).hot.waiting = .reply ∧
      (after.table.arena (slotIndex caller)).hot.awaitingReply =
        (s.table.arena (slotIndex caller)).hot.awaitingReply := by
  have moved := step_slot fresh step (slotIndex caller)
  generalize after.table.arena (slotIndex caller) = now at *
  cases moved with
  | same apart => exact absurd rfl (apart _ _ rfl)
  | touched _ touch =>
    cases touch with
    | replyParked running _ up =>
      exact ⟨running, (isAlive_iff fresh).mp up, ⟨running.1, rfl⟩, rfl, rfl⟩

/-! ## The invariant -/

/-- The wait is registered and its callee's death still has to reach it, staged by that
death, or drained and not yet promoted. -/
def Accounted (s : Sys X M) (waiter : CallWaiter) : Prop :=
  (waiter ∈ s.table.registry.callWaiters ∧
      ((s.table.arena (slotIndex waiter.callee)).Alive waiter.callee ∨
        ∃ staged, (waiter.callee, staged) ∈ passes s)) ∨
    waiter ∈ s.table.registry.pendingCallDowns ∨ waiter ∈ s.callBatch

/-- The slot of a caller with an open call awaits that call's reply, and once the call
has parked it holds no other. -/
structure Awaits [Message M] (slot : Slot X M) (pid : Pid) (call : OpenCall) : Prop where
  current : slot.Current pid
  occupied : slot.lifecycle.state ≠ none
  awaited : slot.hot.awaitingReply = some call.token
  fresh : call.emptied = true → ∀ reply, slot.hot.mailbox.reply = some reply →
    Message.replyToken reply = call.token

/-- The slot of a caller parked on its reply and not yet woken. -/
structure ParkedFor (s : Sys X M) (caller : Pid) (token : Int64) (callee : Pid) : Prop where
  blocked : (s.table.arena (slotIndex caller)).In caller .blocked
  waiting : (s.table.arena (slotIndex caller)).hot.waiting = .reply
  awaited : (s.table.arena (slotIndex caller)).hot.awaitingReply = some token
  idle : caller ∉ owners s
  accounted : Accounted s ⟨callee, caller, token⟩

/-- A reply hold to come: the caller is on the cpu in the middle of its call, and its wait
is registered unless one of the two is dead. -/
structure AboutToHold (history : List (Event X M)) (s : Sys X M) (caller : Pid) (token : Int64)
    (callee : Pid) : Prop where
  claims : caller ∈ s.claims
  handle : Handle history callee
  looping : ∃ emptied, openCall history caller = some ⟨token, some callee, emptied⟩
  registered : (s.table.arena (slotIndex caller)).Alive caller →
    (s.table.arena (slotIndex callee)).Alive callee →
      ⟨callee, caller, token⟩ ∈ s.table.registry.callWaiters

structure Waits [Message M] (history : List (Event X M)) (s : Sys X M) : Prop where
  used : ∀ pid call, openCall history pid = some call → call.token ∈ usedTokens history
  flight : ∀ pid call, openCall history pid = some call →
    generationOf pid < (s.table.arena (slotIndex pid)).lifecycle.generation ∨
      Awaits (s.table.arena (slotIndex pid)) pid call
  minted : ∀ waiter ∈ s.table.registry.callWaiters, waiter.token ∈ usedTokens history
  entries : ∀ waiter ∈ s.table.registry.callWaiters, ∀ call,
    openCall history waiter.caller = some call → call.token = waiter.token →
      call.callee = some waiter.callee
  once : (owners s).Nodup
  held : ∀ caller token callee, (caller, token, callee) ∈ holds s →
    AboutToHold history s caller token callee
  parked : ∀ caller token callee, parkedOn history caller = some (token, callee) →
    Known (generationOf caller) (s.table.arena (slotIndex caller)).lifecycle ∧
      (¬ (s.table.arena (slotIndex caller)).Alive caller ∨
        (s.table.arena (slotIndex caller)).In caller .runnable ∨
        ParkedFor s caller token callee)

/-- The current slot of a caller with an open call. -/
theorem Waits.awaits [Message M] {history : List (Event X M)} (waits : Waits history s) {pid : Pid}
    {call : OpenCall} (opened : openCall history pid = some call)
    (current : (s.table.slotOf pid).Current pid) :
    Awaits (s.table.slotOf pid) pid call := by
  rcases waits.flight pid call opened with larger | awaits
  · rw [current] at larger
    exact absurd larger (UInt32.lt_irrefl _)
  · exact awaits

theorem Waits.init [Message M] : Waits [] (Sys.init : Sys X M) where
  used := fun _ _ absent => by cases absent
  flight := fun _ _ absent => by cases absent
  minted := fun _ member => by cases member
  entries := fun _ member => by cases member
  once := nodup_zero
  held := fun _ _ _ member => absurd member (notMem_zero _)
  parked := fun _ _ _ absent => by cases absent

/-- A step taken under the discipline from a state the invariants hold in. -/
structure Taken [Message M] (history : List (Event X M)) (s : Sys X M) (event : Event X M)
    (after : Sys X M) : Prop where
  waits : Waits history s
  sound : Sound s
  claimed : Claimed s
  graves : Graves s
  known : ∀ pid, Issued history pid →
    Known (generationOf pid) (s.table.arena (slotIndex pid)).lifecycle
  discipline : CallDiscipline history s event
  fits : IndexFits s event
  room : NoWrap s event
  step : Step s event after

theorem openCall_opened (history : List (Event X M)) (pid : Pid) (token : Int64)
    (outcome : Outcome X M) :
    openCall (history ++ [.call (.setAwaitingReply pid token) outcome]) pid =
      some ⟨token, none, false⟩ :=
  @replay_written _ _ _ _ callWrite none history _ pid (fun _ => some ⟨token, none, false⟩) rfl

theorem parkedOn_parked (history : List (Event X M)) (pid : Pid) (token : Int64)
    (deadline : Option Instant) (callee : Pid) :
    parkedOn (history ++ [.call (.takeReplyOrPark pid token deadline callee) (.mail .parked)]) pid =
      some (token, callee) :=
  @replay_written _ _ _ _ parkWrite none history _ pid (fun _ => some (token, callee)) rfl

theorem parkedOn_reclaim (history : List (Event X M)) (pid other : Pid) (reclaim : Reclaim X M) :
    parkedOn (history ++ [.reclaim other reclaim]) pid = parkedOn history pid :=
  replay_unwritten (by simp [parkWrite])

theorem parkWrite_cases {pid : Pid} {change : Option (Int64 × Pid) → Option (Int64 × Pid)}
    (wrote : parkWrite event = some (pid, change)) :
    (∃ token deadline callee,
      event = .call (.takeReplyOrPark pid token deadline callee) (.mail .parked) ∧
      change = fun _ => some (token, callee)) ∨ change = fun _ => none := by
  unfold parkWrite at wrote
  split at wrote
  · cases wrote
    exact .inl ⟨_, _, _, rfl, rfl⟩
  all_goals
    cases wrote
    try exact .inr rfl

theorem usedTokens_snoc (history : List (Event X M)) (event : Event X M) :
    usedTokens (history ++ [event]) = usedTokens history ++ (tokenOf event).toList := by
  unfold usedTokens
  cases named : tokenOf event <;> simp [named]

/-- An open call was open before the label, has just begun, or goes on. -/
theorem openCall_cases {pid : Pid} {call : OpenCall}
    (opened : openCall (history ++ [event]) pid = some call) :
    ((∀ change, callWrite event ≠ some (pid, change)) ∧ openCall history pid = some call) ∨
    (∃ token outcome, event = .call (.setAwaitingReply pid token) outcome ∧
      call = ⟨token, none, false⟩) ∨
    ∃ before, openCall history pid = some before ∧
      ((∃ callee token deadline, event = .ensureCallWaiter pid callee token deadline ∧
          call = { before with callee := some callee }) ∨
        ∃ token deadline callee,
          event = .call (.takeReplyOrPark pid token deadline callee) (.mail .parked) ∧
            call = { before with emptied := true }) := by
  rcases replay_snoc callWrite none history event pid with ⟨unwritten, same⟩ | ⟨change, wrote,
    changed⟩
  · exact .inl ⟨unwritten, same.symm.trans opened⟩
  right
  replace opened := changed.symm.trans opened
  unfold callWrite at wrote
  split at wrote <;> cases wrote
  · cases opened
    exact .inl ⟨_, _, rfl, rfl⟩
  · obtain ⟨before, found, rfl⟩ := map_eq_some_iff.mp opened
    exact .inr ⟨before, found, .inl ⟨_, _, _, rfl, rfl⟩⟩
  · obtain ⟨before, found, rfl⟩ := map_eq_some_iff.mp opened
    exact .inr ⟨before, found, .inr ⟨_, _, _, rfl, rfl⟩⟩
  all_goals cases opened

theorem used_before (used : token ∈ usedTokens history) :
    token ∈ usedTokens (history ++ [event]) := by
  rw [usedTokens_snoc]
  exact List.mem_append_left _ used

/-- Between two live processes the call has an entry afterwards: an earlier one, or its
own. -/
theorem ensureCallWaiter_registers {t : ProcessTable X M} {caller callee : Pid}
    (callerUp : t.isAlive caller = true) (calleeUp : t.isAlive callee = true) :
    ∃ waiter ∈ (t.ensureCallWaiter caller callee token).registry.callWaiters,
      waiter.caller = caller ∧ waiter.token = token ∧
        (waiter ∈ t.registry.callWaiters ∨ waiter.callee = callee) := by
  unfold ProcessTable.ensureCallWaiter
  split
  · exact ⟨_, List.mem_append_right _ (List.mem_singleton_self _), rfl, rfl, .inr rfl⟩
  · next refused =>
    rw [callerUp, calleeUp, Bool.and_true, Bool.and_true, Bool.not_eq_true,
      Bool.not_eq_false'] at refused
    obtain ⟨waiter, member, same⟩ := List.any_eq_true.mp refused
    obtain ⟨sameCaller, sameToken⟩ := of_decide_eq_true same
    exact ⟨waiter, member, sameCaller, sameToken, .inl member⟩

namespace Taken
variable [Message M] {history : List (Event X M)} {event : Event X M} {pid caller callee : Pid}
  {call : OpenCall} {waiter : CallWaiter} {token : Int64} {deadline : Option Instant}

theorem wait (taken : Taken history s event after) : WaitStep s event after := step_wait
    taken.sound.grown.fresh taken.step

theorem on_cpu (taken : Taken history s event after) (claims : pid ∈ s.claims) :
    (s.table.slotOf pid).Current pid ∧
      (s.table.slotOf pid).lifecycle.state ≠ none := by
  obtain ⟨current, held⟩ := taken.claimed.granted pid claims
  refine ⟨current, ?_⟩
  intro vacant
  have idle := (taken.sound.slots _).idle vacant
  rw [held] at idle
  cases idle

/-- Nobody but its own hold writes the call of a caller that is parked or inside an
operation. -/
theorem unwritten (taken : Taken history s event after) (busy : ¬ Acting s pid)
    (notHeld : ∀ token deadline callee outcome,
      event ≠ .call (.takeReplyOrPark pid token deadline callee) outcome) :
    ∀ change, callWrite event ≠ some (pid, change) := by
  intro change wrote
  have discipline := taken.discipline
  unfold callWrite at wrote
  split at wrote <;> cases wrote
  · exact busy discipline.1
  · exact busy discipline.1
  · exact notHeld _ _ _ _ rfl
  · exact notHeld _ _ _ _ rfl
  · exact notHeld _ _ _ _ rfl
  · exact busy discipline

theorem used (taken : Taken history s event after)
    (opened : openCall (history ++ [event]) pid = some call) :
    call.token ∈ usedTokens (history ++ [event]) := by
  rcases openCall_cases opened with ⟨-, found⟩ | ⟨token, outcome, rfl, rfl⟩ |
    ⟨before, found, ⟨_, _, _, -, rfl⟩ | ⟨_, _, _, -, rfl⟩⟩
  · exact used_before (taken.waits.used pid call found)
  · rw [usedTokens_snoc]
    exact List.mem_append_right _ (List.mem_singleton_self _)
  · exact used_before (taken.waits.used pid before found)
  · exact used_before (taken.waits.used pid before found)

/-- A slot left to itself keeps awaiting its caller's reply, unless it moves on. -/
theorem awaits_kept (taken : Taken history s event after)
    (awaits : Awaits (s.table.arena (slotIndex pid)) pid call)
    (untouched : ∀ change, callWrite event ≠ some (pid, change)) :
    generationOf pid < (after.table.arena (slotIndex pid)).lifecycle.generation ∨
      Awaits (after.table.arena (slotIndex pid)) pid call := by
  have known := (Known.of_current awaits.current awaits.occupied).step taken.sound taken.fits
    taken.room taken.step
  rcases known with ⟨current, occupied⟩ | larger
  swap
  · exact .inl larger
  right
  have discipline := taken.discipline
  have moved := step_slot taken.sound.grown.fresh taken.step (slotIndex pid)
  generalize here : s.table.arena (slotIndex pid) = slot at *
  cases moved with
  | same _ same =>
    rw [same]
    exact awaits
  | occupied names =>
    have vacant := taken.sound.spawn_step taken.fits taken.step
    rw [names, here] at vacant
    exact absurd vacant awaits.occupied
  | vacated _ _ empty =>
    rw [empty] at occupied
    exact absurd rfl occupied
  | touched names touch =>
    have kept := touch_awaiting touch names awaits.current
      fun change wrote => absurd wrote (untouched change)
    rcases kept with vacated | ⟨-, same⟩
    · rw [vacated] at occupied
      exact absurd rfl occupied
    · refine ⟨current, occupied, same.trans awaits.awaited, ?_⟩
      intro emptied reply slotted
      rcases touch_reply touch slotted with old | ⟨isReply, sent | ⟨token, sent, answers⟩⟩
      · exact awaits.fresh emptied reply old
      · rw [sent] at discipline
        exact absurd isReply discipline
      · rw [sent] at discipline
        rw [awaits.awaited, Option.some.injEq] at answers
        exact Eq.trans discipline answers.symm

theorem flight (taken : Taken history s event after)
    (opened : openCall (history ++ [event]) pid = some call) :
    generationOf pid < (after.table.arena (slotIndex pid)).lifecycle.generation ∨
      Awaits (after.table.arena (slotIndex pid)) pid call := by
  have gone : generationOf pid < (s.table.arena (slotIndex pid)).lifecycle.generation →
      generationOf pid < (after.table.arena (slotIndex pid)).lifecycle.generation ∨
        Awaits (after.table.arena (slotIndex pid)) pid call :=
    fun larger => .inl (moved_on larger taken.sound taken.room taken.step)
  have moved := step_slot taken.sound.grown.fresh taken.step (slotIndex pid)
  rcases openCall_cases opened with ⟨untouched, found⟩ | ⟨token, outcome, rfl, rfl⟩ |
    ⟨before, found, ⟨callee, token, deadline, rfl, rfl⟩ | ⟨token, deadline, callee, rfl, rfl⟩⟩
  · rcases taken.waits.flight pid call found with larger | awaits
    · exact gone larger
    · exact taken.awaits_kept awaits untouched
  · -- the caller runs, so its slot is current and the token is written
    obtain ⟨current, occupied⟩ := taken.on_cpu taken.discipline.1.1
    generalize after.table.arena (slotIndex pid) = now at *
    cases moved with
    | same apart => exact absurd rfl (apart _ _ rfl)
    | touched _ touch =>
      right
      cases touch with
      | hotSet sets =>
        cases sets
        exact ⟨current, occupied, rfl, fun parked => by cases parked⟩
      | hotMissed _ stale => exact absurd (stale current) occupied
      | marked ends | reclaimed ends | deathMissed ends => cases ends
      | scalarSet sets | scalarMissed sets => cases sets
  · rcases taken.waits.flight pid before found with larger | awaits
    · exact gone larger
    · cases moved with
      | same _ same =>
        rw [same]
        exact .inr ⟨awaits.current, awaits.occupied, awaits.awaited, awaits.fresh⟩
  · rcases taken.waits.flight pid before found with larger | awaits
    · exact gone larger
    · generalize after.table.arena (slotIndex pid) = now at *
      cases moved with
      | same apart => exact absurd rfl (apart _ _ rfl)
      | touched _ touch =>
        cases touch with
        | replyParked running empty =>
          refine .inr ⟨running.1, by simp [Slot.withState], awaits.awaited, ?_⟩
          intro _ reply slotted
          exact absurd (empty.symm.trans slotted) (by simp)

/-- A registered wait names the callee its caller's call is about. -/
theorem entry_kept (taken : Taken history s event after)
    (old : waiter ∈ s.table.registry.callWaiters)
    (opened : openCall (history ++ [event]) waiter.caller = some call)
    (same : call.token = waiter.token) : call.callee = some waiter.callee := by
  have discipline := taken.discipline
  rcases openCall_cases opened with ⟨-, found⟩ | ⟨token, outcome, rfl, rfl⟩ |
    ⟨before, found, ⟨callee, token, deadline, rfl, rfl⟩ | ⟨token, deadline, callee, rfl, rfl⟩⟩
  · exact taken.waits.entries waiter old call found same
  · -- a fresh token is not the one of a registered wait
    change token = waiter.token at same
    rw [same] at discipline
    exact absurd (taken.waits.minted waiter old) discipline.2
  · obtain ⟨-, -, call, opened, -, aimed⟩ := discipline
    have named := taken.waits.entries waiter old before found same
    rw [found, Option.some.injEq] at opened
    subst opened
    rw [named] at aimed
    rcases aimed with unaimed | one
    · cases unaimed
    · exact one.symm
  · exact taken.waits.entries waiter old before found same

theorem minted (taken : Taken history s event after)
    (member : waiter ∈ after.table.registry.callWaiters) : waiter.token ∈ usedTokens
    (history ++ [event]) := by
  rcases callWaiter_back taken.sound.grown.fresh taken.step member with
    ⟨old, -⟩ | ⟨⟨deadline, rfl⟩, -⟩
  · exact used_before (taken.waits.minted waiter old)
  · obtain ⟨-, -, call, opened, same, -⟩ := taken.discipline
    rw [← same]
    exact used_before (taken.waits.used _ call opened)

theorem entries (taken : Taken history s event after)
    (member : waiter ∈ after.table.registry.callWaiters)
    (opened : openCall (history ++ [event]) waiter.caller = some call)
    (same : call.token = waiter.token) : call.callee = some waiter.callee := by
  rcases callWaiter_back taken.sound.grown.fresh taken.step member with
    ⟨old, -⟩ | ⟨⟨deadline, rfl⟩, -⟩
  · exact taken.entry_kept old opened same
  · rcases openCall_cases opened with ⟨unwritten, -⟩ | ⟨_, _, labelled, -⟩ |
      ⟨_, -, ⟨_, _, _, labelled, rfl⟩ | ⟨_, _, _, labelled, -⟩⟩
    · exact absurd rfl (unwritten _)
    · cases labelled
    · cases labelled
      rfl
    · cases labelled

/-- A step ends operations, or begins one of a caller that acts. -/
theorem owners_step (taken : Taken history s event after) : owners after ≤ owners s ∨ ∃ pid change,
    callWrite event = some (pid, change) ∧
      Acting s pid ∧ owners after = pid ::ₘ owners s := by
  have discipline := taken.discipline
  cases taken.wait with
  | quiet _ _ _ _ _ _ own | passed _ _ _ _ own | drained _ _ _ _ own => exact .inl (le_of_eq own)
  | called _ _ _ _ own =>
    rcases own with same | ⟨pid, rfl, added⟩
    · exact .inl (le_of_eq same)
    · exact .inr ⟨pid, _, rfl, discipline, added⟩
  | held _ _ _ own left =>
    rcases left with fewer | ⟨same, -⟩
    · exact .inl (by rw [fewer, own]; exact le_cons_self _ _)
    · exact .inl (le_of_eq same)
  | ensured _ _ _ _ own => exact .inr ⟨_, _, rfl, discipline.1, own⟩
  | evicted _ _ _ _ own => exact .inl (by rw [own]; exact le_cons_self _ _)

theorem once (taken : Taken history s event after) : (owners after).Nodup := by
  rcases taken.owners_step with fewer | ⟨pid, _, -, acting, added⟩
  · exact nodup_of_le fewer taken.waits.once
  · rw [added]
    exact nodup_cons.mpr ⟨acting.2.2, taken.waits.once⟩

/-- A registered wait of a live caller stays registered, or its callee's pass stages it. -/
theorem waiter_moves (taken : Taken history s event after)
    (member : waiter ∈ s.table.registry.callWaiters)
    (caller : (s.table.slotOf waiter.caller).Alive waiter.caller)
    (notEvicted : event ≠ .evictCallWaiter waiter.caller) :
    (waiter ∈ after.table.registry.callWaiters ∧ ∀ forced staged monitors,
      event ≠ .deathPass waiter.callee forced staged monitors) ∨
    (∃ forced staged monitors, event = .deathPass waiter.callee forced staged monitors) ∧
      waiter ∈ after.table.registry.pendingCallDowns := by
  have stays : after.table.registry.callWaiters = s.table.registry.callWaiters →
      waiter ∈ after.table.registry.callWaiters := by
    intro same
    rw [same]
    exact member
  cases taken.wait with
  | quiet _ _ unpassed waits =>
    exact .inl ⟨stays waits.waiters, unpassed _⟩
  | called _ waits | held waits => exact .inl ⟨stays waits.waiters, by simp⟩
  | ensured waiters =>
    refine .inl ⟨?_, by simp⟩
    rw [waiters]
    unfold ProcessTable.ensureCallWaiter
    split
    · exact List.mem_append_left _ member
    · exact member
  | evicted waiters =>
    refine .inl ⟨?_, by simp⟩
    rw [waiters]
    refine List.mem_filter.mpr ⟨member, ?_⟩
    simp only [decide_not, Bool.not_eq_eq_eq_not, Bool.not_true, decide_eq_false_iff_not]
    rintro rfl
    exact notEvicted rfl
  | passed waiters downs batch claims own held =>
    rename_i pid forced staged monitors
    have other : waiter.caller ≠ pid := by
      rintro rfl
      exact (taken.graves.buried _ staged (deathPass_waiting taken.step)).not_alive caller
    by_cases dies : waiter.callee = pid
    · subst dies
      refine .inr ⟨⟨_, _, _, rfl⟩, ?_⟩
      rw [downs]
      exact List.mem_append_right _ (List.mem_filter.mpr ⟨member, by simpa using other⟩)
    · refine .inl ⟨?_, ?_⟩
      · rw [waiters]
        exact List.mem_filter.mpr ⟨member, by simpa using ⟨dies, other⟩⟩
      · rintro _ _ _ same
        cases same
        exact dies rfl
  | drained waiters => exact .inl ⟨stays waiters, by simp⟩

/-- A registered wait is not swept or evicted while both ends live. -/
theorem waiter_kept (taken : Taken history s event after)
    (member : waiter ∈ s.table.registry.callWaiters)
    (caller : (s.table.slotOf waiter.caller).Alive waiter.caller)
    (callee : (s.table.slotOf waiter.callee).Alive waiter.callee)
    (notEvicted : event ≠ .evictCallWaiter waiter.caller) :
    waiter ∈ after.table.registry.callWaiters := by
  rcases taken.waiter_moves member caller notEvicted with ⟨stays, -⟩ | ⟨⟨_, staged, _, rfl⟩, -⟩
  · exact stays
  · have dead := taken.graves.buried _ staged (deathPass_waiting taken.step)
    exact absurd callee dead.not_alive

/-- A hold to come was to come before and is not the one just taken, or was prepared by
this step. -/
theorem holds_new (taken : Taken history s event after)
    (member : (caller, token, callee) ∈ holds after) :
    ((caller, token, callee) ∈ holds s ∧ ∀ token deadline callee outcome,
      event ≠ .call (.takeReplyOrPark caller token deadline callee) outcome) ∨
      ∃ deadline, event = .ensureCallWaiter caller callee token deadline := by
  cases taken.wait with
  | quiet label _ _ _ _ _ _ held =>
    rw [held] at member
    exact .inl ⟨member, fun _ _ _ _ => label _ _⟩
  | called opens _ _ _ _ held =>
    rw [held] at member
    refine .inl ⟨member, ?_⟩
    rintro token deadline callee outcome same
    cases same
    exact opens _ _ _ _ rfl
  | held _ _ _ own _ held apart =>
    refine .inl ⟨by rw [held]; exact mem_cons_of_mem member, ?_⟩
    rintro token deadline callee outcome same
    cases same
    have once := taken.waits.once
    rw [own] at once
    exact (nodup_cons.mp once).1 (apart _ _ _ member)
  | ensured _ _ _ _ _ held =>
    rw [held] at member
    rcases mem_cons.mp member with same | old
    · cases same
      exact .inr ⟨_, rfl⟩
    · exact .inl ⟨old, by simp⟩
  | evicted waiters downs batch claims own held | passed waiters downs batch claims own held
  | drained _ _ _ _ _ held =>
    rw [held] at member
    exact .inl ⟨member, by simp⟩

theorem claims_kept (taken : Taken history s event after) (claims : caller ∈ s.claims)
    (busy : caller ∈ owners s) :
    caller ∈ after.claims := by
  have discipline := taken.discipline
  cases taken.wait with
  | called _ _ _ kept =>
    rw [kept]
    unfold Call.claims
    split
    · exact mem_cons_of_mem claims
    · refine (mem_erase_of_ne ?_).mpr claims
      rintro rfl
      exact discipline busy
    · exact claims
  | quiet _ _ _ _ _ kept | held _ _ kept | ensured waiters downs batch kept own held
  | evicted waiters downs batch kept own held | passed waiters downs batch kept own held
  | drained waiters downs batch kept own held =>
    rw [kept]
    exact claims

theorem evicts_last (taken : Taken history s (.evictCallWaiter caller) after) :
    caller ∉ owners after := by
  have once := taken.waits.once
  cases taken.step with
  | evictCallWaiter next =>
    rw [owners_cons next] at once
    exact (nodup_cons.mp once).1

theorem held (taken : Taken history s event after)
    (member : (caller, token, callee) ∈ holds after) :
    AboutToHold (history ++ [event]) after caller token callee := by
  rcases taken.holds_new member with ⟨old, notHeld⟩ | ⟨deadline, rfl⟩
  · have about := taken.waits.held caller token callee old
    have busy : caller ∈ owners s := holding_owner old
    obtain ⟨current, occupied⟩ := taken.on_cpu about.claims
    obtain ⟨emptied, opened⟩ := about.looping
    refine ⟨taken.claims_kept about.claims busy, about.handle.snoc _, ?_, ?_⟩
    · refine ⟨emptied, ?_⟩
      rcases replay_snoc callWrite none history event caller with ⟨-, same⟩ | ⟨change, wrote, -⟩
      · exact same.trans opened
      · exact absurd wrote (taken.unwritten (fun acting => acting.2.2 busy) notHeld change)
    · intro callerUp calleeUp
      have callerWas := (Known.of_current current occupied).alive_back taken.sound taken.fits
        taken.room taken.step callerUp
      have calleeWas := about.handle.alive_back (taken.known callee) taken.sound taken.fits
        taken.room taken.step calleeUp
      refine taken.waiter_kept (about.registered callerWas calleeWas) callerWas calleeWas ?_
      -- an eviction would be a second operation of the same caller
      rintro rfl
      exact taken.evicts_last (holding_owner member)
  · obtain ⟨acting, handle, call, opened, rfl, agrees⟩ := taken.discipline
    have looping : openCall (history ++ [.ensureCallWaiter caller callee call.token deadline])
        caller = some ⟨call.token, some callee, call.emptied⟩ := by
      refine (@replay_written _ _ _ _ callWrite _ _ _ _ _ rfl).trans ?_
      exact congrArg (Option.map _) opened
    refine ⟨?_, handle.snoc _, ⟨call.emptied, looping⟩, ?_⟩
    · cases taken.step
      exact acting.1
    · intro callerUp calleeUp
      have fresh := taken.sound.grown.fresh
      have entries := taken.waits.entries
      cases taken.step
      simp only [ensureCallWaiter_arena] at callerUp calleeUp
      obtain ⟨waiter, member, rfl, same, origin⟩ := ensureCallWaiter_registers
        ((isAlive_iff fresh).mpr callerUp) ((isAlive_iff fresh).mpr calleeUp)
      have agreed : waiter.callee = callee := by
        rcases origin with old | new
        · -- an entry of this call names the callee the loop named before
          have named := entries waiter old call opened same.symm
          rcases agrees with unparked | agreed
          · rw [unparked] at named
            cases named
          · rw [named] at agreed
            exact Option.some.inj agreed
        · exact new
      have shape : (⟨callee, waiter.caller, call.token⟩ : CallWaiter) = waiter := by
        rw [← same, ← agreed]
      rw [shape]
      exact member

theorem idle_kept (taken : Taken history s event after) (idle : pid ∉ owners s)
    (untouched : ∀ change, callWrite event ≠ some (pid, change)) : pid ∉ owners after := by
  rcases taken.owners_step with fewer | ⟨other, change, wrote, -, added⟩
  · exact fun member => idle (mem_of_le fewer member)
  · rw [added, mem_cons, not_or]
    refine ⟨?_, idle⟩
    rintro rfl
    exact untouched change wrote

/-- The wait of an idle live caller stays accounted for until it is promoted. -/
theorem accounted_kept (taken : Taken history s event after) (accounted : Accounted s waiter)
    (caller : (s.table.slotOf waiter.caller).Alive waiter.caller)
    (idle : waiter.caller ∉ owners s) (unpromoted : ∀ outcome,
      event ≠ .call (.promoteCallWaiter waiter.caller waiter.token) outcome) :
    Accounted after waiter := by
  rcases accounted with ⟨member, coming⟩ | staged | drained
  · have notEvicted : event ≠ .evictCallWaiter waiter.caller := by
      rintro rfl
      cases taken.step with
      | evictCallWaiter next =>
        rw [owners_cons next] at idle
        exact idle (mem_cons_self _ _)
    rcases taken.waiter_moves member caller notEvicted with ⟨stays, unpassed⟩ | ⟨-, swept⟩
    · refine .inl ⟨stays, ?_⟩
      rcases coming with alive | ⟨staged, waiting⟩
      · exact taken.sound.alive_step taken.fits taken.step alive
      · rcases passes_step taken.sound.grown.fresh taken.step waiting with still |
          ⟨forced, monitors, passed⟩
        · exact .inr ⟨staged, still⟩
        · exact absurd passed (unpassed _ _ _)
    · exact .inr (.inl swept)
  · cases taken.wait with
    | drained _ _ batch =>
      refine .inr (.inr ?_)
      rw [batch]
      exact mem_add.mpr (.inr (mem_coe.mpr staged))
    | passed _ downs =>
      refine .inr (.inl ?_)
      rw [downs]
      exact List.mem_append_left _ staged
    | quiet _ _ _ waits | called _ waits | held waits =>
      exact .inr (.inl (by rw [waits.downs]; exact staged))
    | ensured waiters downs batch claims own held | evicted waiters downs batch claims own held =>
      exact .inr (.inl (by rw [downs]; exact staged))
  · refine .inr (.inr ?_)
    cases taken.wait with
    | called _ _ batch =>
      rcases batch with same | ⟨other, rfl, taken'⟩
      · rw [same]
        exact drained
      · rw [taken'] at drained
        rcases mem_cons.mp drained with rfl | rest
        · exact absurd rfl (unpromoted _)
        · exact rest
    | drained _ _ batch =>
      rw [batch]
      exact mem_add.mpr (.inl drained)
    | quiet _ _ _ _ batch | held _ batch | ensured waiters downs batch claims own held
    | evicted waiters downs batch claims own held | passed _ _ batch =>
      rw [batch]
      exact drained

theorem runnable_kept (taken : Taken history s event after)
    (runnable : (s.table.arena (slotIndex pid)).In pid .runnable)
    (up : (after.table.arena (slotIndex pid)).Alive pid)
    (unclaimed : event ≠ .call (.tryClaim pid) (.flag true)) :
    (after.table.arena (slotIndex pid)).In pid .runnable := by
  have moved := step_slot taken.sound.grown.fresh taken.step (slotIndex pid)
  generalize here : s.table.arena (slotIndex pid) = slot at *
  cases moved with
  | same _ same =>
    rw [same]
    exact runnable
  | touched names touch =>
    rcases touch_runnable touch names runnable with still | down | ⟨rfl, rfl⟩
    · exact still
    · exact absurd up down
    · exact absurd rfl unclaimed
  | occupied names =>
    have vacant := taken.sound.spawn_step taken.fits taken.step
    rw [names, here, runnable.2] at vacant
    cases vacant
  | vacated _ _ empty =>
    rw [empty] at up
    exact absurd up (vacated_not_alive _ _)

/-- A parked caller stays parked with its wait accounted for, or is woken. -/
theorem parked_kept (taken : Taken history s event after) (parked : ParkedFor s caller token callee)
    (alive : (s.table.arena (slotIndex caller)).Alive caller)
    (up : (after.table.arena (slotIndex caller)).Alive caller) :
    (after.table.arena (slotIndex caller)).In caller .runnable ∨
      ParkedFor after caller token callee := by
  have untouched : ∀ change, callWrite event ≠ some (caller, change) := by
    refine taken.unwritten (fun acting => acting.2.1 parked.blocked) ?_
    rintro token' deadline callee' outcome rfl
    obtain ⟨-, -, others, own, -⟩ := taken.wait.hold
    exact parked.idle (own ▸ mem_cons_self _ _)
  have idle := taken.idle_kept parked.idle untouched
  have accounted := taken.accounted_kept parked.accounted alive parked.idle
  have moved := step_slot taken.sound.grown.fresh taken.step (slotIndex caller)
  obtain ⟨blocked, waiting, awaited, -, -⟩ := parked
  have stays : (after.table.arena (slotIndex caller)).In caller .blocked →
      (after.table.arena (slotIndex caller)).hot.waiting = .reply →
      (after.table.arena (slotIndex caller)).hot.awaitingReply = some token →
      (∀ outcome, event ≠ .call (.promoteCallWaiter caller token) outcome) →
      ParkedFor after caller token callee :=
    fun blocked waiting awaited unpromoted =>
      ⟨blocked, waiting, awaited, idle, accounted unpromoted⟩
  generalize here : s.table.arena (slotIndex caller) = slot at *
  cases moved with
  | same apart same =>
    subst same
    refine .inr (stays blocked waiting awaited ?_)
    rintro outcome rfl
    exact apart _ _ rfl rfl
  | touched names touch =>
    rcases touch_blocked touch names blocked waiting awaited untouched with woken | down |
      ⟨still, waits, awaits, other⟩
    · exact .inl woken
    · exact absurd up down
    · refine .inr (stays still waits awaits ?_)
      rintro outcome same
      cases same
      exact other rfl
  | occupied names =>
    have vacant := taken.sound.spawn_step taken.fits taken.step
    rw [names, here, blocked.2] at vacant
    cases vacant
  | vacated _ _ empty =>
    rw [empty] at up
    exact absurd up (vacated_not_alive _ _)

theorem parked_new (taken : Taken history s (.call (.takeReplyOrPark caller token deadline callee)
      (.mail .parked)) after) :
    ParkedFor after caller token callee := by
  have once := taken.waits.once
  obtain ⟨waits, member, others, own, left⟩ := taken.wait.hold
  have about := taken.waits.held caller token callee member
  obtain ⟨emptied, opened⟩ := about.looping
  have awaits := taken.waits.awaits opened (taken.on_cpu about.claims).1
  obtain ⟨running, up, blocked, waiting, kept⟩ :=
    replyParked_step taken.sound.grown.fresh taken.step
  refine ⟨blocked, waiting, kept.trans awaits.awaited, ?_, .inl ⟨?_, ?_⟩⟩
  · rw [own] at once
    rcases left with fewer | ⟨-, ⟨reply, ready⟩ | down⟩
    · rw [fewer]
      exact (nodup_cons.mp once).1
    · cases ready
    · cases down
  · rw [waits.waiters]
    exact about.registered (Slot.alive_iff.mpr ⟨running.1, _, running.2, by decide⟩) up
  · exact taken.sound.alive_step taken.fits taken.step up

theorem parked (taken : Taken history s event after)
    (waiting : parkedOn (history ++ [event]) caller = some (token, callee)) :
    Known (generationOf caller) (after.table.slotOf caller).lifecycle ∧
      (¬ (after.table.slotOf caller).Alive caller ∨
        (after.table.slotOf caller).In caller .runnable ∨
        ParkedFor after caller token callee) := by
  rcases replay_snoc parkWrite none history event caller with ⟨unwritten, same⟩ |
    ⟨change, wrote, changed⟩
  · obtain ⟨known, stands⟩ := taken.waits.parked caller token callee (same.symm.trans waiting)
    refine ⟨known.step taken.sound taken.fits taken.room taken.step, ?_⟩
    by_cases up : (after.table.slotOf caller).Alive caller
    · have alive := known.alive_back taken.sound taken.fits taken.room taken.step up
      rcases stands with down | runnable | parked
      · exact absurd alive down
      · refine .inr (.inl (taken.runnable_kept runnable up ?_))
        rintro rfl
        exact unwritten _ rfl
      · exact .inr (taken.parked_kept parked alive up)
    · exact .inl up
  · have found := changed.symm.trans waiting
    rcases parkWrite_cases wrote with ⟨_, deadline, _, rfl, rfl⟩ | rfl
    · cases found
      have parked := taken.parked_new
      exact ⟨Known.of_current parked.blocked.1 (by rw [parked.blocked.2]; simp), .inr (.inr parked)⟩
    · cases found

end Taken

theorem Taken.step_waits [Message M] (taken : Taken history s event after) :
    Waits (history ++ [event]) after where
  used := fun _ _ opened => taken.used opened
  flight := fun _ _ opened => taken.flight opened
  minted := fun _ member => taken.minted member
  entries := fun _ member _ opened same => taken.entries member opened same
  once := taken.once
  held := fun _ _ _ member => taken.held member
  parked := fun _ _ _ waiting => taken.parked waiting

/-- The runs the calls are about. -/
def CallRun [Message M] (history : List (Event X M)) (s : Sys X M) (event : Event X M) : Prop :=
  CallDiscipline history s event ∧ IndexFits s event ∧ NoWrap s event

/-- Everything the waits rest on, along a run. -/
structure Calling [Message M] (history : List (Event X M)) (s : Sys X M) : Prop where
  waits : Waits history s
  sound : Sound s
  claimed : Claimed s
  graves : Graves s
  known : ∀ pid, Issued history pid →
    Known (generationOf pid) (s.table.arena (slotIndex pid)).lifecycle

theorem reachable_calling [Message M] (run : Run Step CallRun Sys.init history s) :
    Calling history s := by
  have known : ∀ {history : List (Event X M)} {s : Sys X M},
      Run Step CallRun Sys.init history s → ∀ pid, Issued history pid →
        Known (generationOf pid) (s.table.slotOf pid).lifecycle :=
    fun run _ issued => reachable_known (fun _ _ _ admitted => admitted.2) run issued
  induction run with
  | nil => exact ⟨Waits.init, Sound.init, Claimed.init, Graves.init, known .nil⟩
  | snoc run admitted step ih =>
    obtain ⟨discipline, fits, room⟩ := admitted
    have taken : Taken _ _ _ _ :=
      ⟨ih.waits, ih.sound, ih.claimed, ih.graves, ih.known, discipline, fits, room, step⟩
    exact ⟨taken.step_waits, ih.sound.step fits step, ih.claimed.step ih.sound fits step,
      ih.graves.step ih.sound fits room step, known (run.snoc ⟨discipline, fits, room⟩ step)⟩

/-- A call that has parked once finds its own reply or its callee dead, once the callee is
dead: nothing but its own reply can be in the slot, and it cannot park again. -/
theorem Calling.resolves [Message M] (calling : Calling history s) {caller callee : Pid}
    {outcome : Outcome X M} (down : s.table.isAlive callee = false)
    (again : ∃ call, openCall history caller = some call ∧ call.emptied = true)
    (step : Step s (.call (.takeReplyOrPark caller token deadline callee) outcome) after) :
    (∃ reply, outcome = .mail (.ready reply)) ∨ outcome = .mail .calleeDown := by
  have fresh := calling.sound.grown.fresh
  obtain ⟨call, opened, emptied⟩ := again
  have about := calling.waits.held caller token callee (step_wait fresh step).hold.2.1
  obtain ⟨_, looping⟩ := about.looping
  rw [opened, Option.some.injEq] at looping
  obtain ⟨current, onCpu⟩ := calling.claimed.granted caller about.claims
  have moved := step_slot fresh step (slotIndex caller)
  have awaits := calling.waits.awaits opened current
  generalize after.table.arena (slotIndex caller) = now at *
  cases moved with
  | same apart => exact absurd rfl (apart _ _ rfl)
  | touched _ touch =>
    cases touch with
    | replyReady => exact .inl ⟨_, rfl⟩
    | replyCalleeDown => exact .inr rfl
    | replyStale _ slotted mismatch =>
      have own := awaits.fresh emptied _ slotted
      rw [looping] at own
      exact absurd own mismatch
    | replyParked _ _ up =>
      rw [down] at up
      cases up
    | replyRefused _ up =>
      have calleeUp := up current awaits.occupied
      rw [down] at calleeUp
      cases calleeUp
    | marked ends | reclaimed ends | deathMissed ends => cases ends
    | hotSet sets | hotMissed sets | scalarSet sets | scalarMissed sets => cases sets

/-- A caller parked on a callee that has died is in sight of that death: its wait is
registered and the callee's pass is to come, or staged, or drained. Once none of these is
left, a caller that has not resumed is runnable; whenever it comes to its reply slot again
it finds its reply or the callee dead, for a dead callee never returns. -/
theorem caller_never_stranded [Message M] {history : List (Event X M)}
    (run : Run Step CallRun Sys.init history s) :
    (∀ caller token callee, parkedOn history caller = some (token, callee) →
      (s.table.arena (slotIndex caller)).In caller .blocked → s.table.isAlive callee = false →
        (⟨callee, caller, token⟩ ∈ s.table.registry.callWaiters ∧ PassPending s callee) ∨
          ⟨callee, caller, token⟩ ∈ s.table.registry.pendingCallDowns ∨
          ⟨callee, caller, token⟩ ∈ s.callBatch) ∧
    (∀ caller token callee, parkedOn history caller = some (token, callee) →
      s.table.isAlive caller = true → s.table.isAlive callee = false →
      ¬ PassPending s callee → ⟨callee, caller, token⟩ ∉ s.table.registry.pendingCallDowns →
      ⟨callee, caller, token⟩ ∉ s.callBatch →
        (s.table.arena (slotIndex caller)).In caller .runnable) ∧
    (∀ caller token deadline callee outcome after,
      Step s (.call (.takeReplyOrPark caller token deadline callee) outcome) after →
      s.table.isAlive callee = false →
      (∃ call, openCall history caller = some call ∧ call.emptied = true) →
        (∃ reply, outcome = .mail (.ready reply)) ∨ outcome = .mail .calleeDown) ∧
    ∀ callee, Handle history callee → s.table.isAlive callee = false → ∀ event after,
      CallRun history s event → Step s event after → after.table.isAlive callee = false := by
  have calling := reachable_calling run
  have fresh := calling.sound.grown.fresh
  have insight : ∀ {caller token callee}, ParkedFor s caller token callee →
      s.table.isAlive callee = false →
        (⟨callee, caller, token⟩ ∈ s.table.registry.callWaiters ∧ PassPending s callee) ∨
          ⟨callee, caller, token⟩ ∈ s.table.registry.pendingCallDowns ∨
          ⟨callee, caller, token⟩ ∈ s.callBatch := by
    intro caller token callee parked down
    rcases parked.accounted with ⟨member, alive | waiting⟩ | rest
    · rw [← isAlive_iff fresh, down] at alive
      cases alive
    · exact .inl ⟨member, passPending_iff.mpr waiting⟩
    · exact .inr rest
  refine ⟨?_, ?_, ?_, ?_⟩
  · intro caller token callee waiting blocked down
    obtain ⟨-, dead | runnable | parked⟩ := calling.waits.parked caller token callee waiting
    · exact absurd (Slot.alive_iff.mpr ⟨blocked.1, _, blocked.2, by decide⟩) dead
    · cases blocked.2.symm.trans runnable.2
    · exact insight parked down
  · intro caller token callee waiting up down announced unstaged undrained
    obtain ⟨-, dead | runnable | parked⟩ := calling.waits.parked caller token callee waiting
    · exact absurd ((isAlive_iff fresh).mp up) dead
    · exact runnable
    · rcases insight parked down with ⟨-, pending⟩ | staged | drained
      · exact absurd pending announced
      · exact absurd staged unstaged
      · exact absurd drained undrained
  · intro caller token deadline callee outcome after step down again
    exact calling.resolves down again step
  · rintro callee handle down event after ⟨-, fits, room⟩ step
    have sound := calling.sound.step fits step
    by_contra up
    have alive := (isAlive_iff sound.grown.fresh).mp (Bool.not_eq_false _ ▸ up)
    have was := handle.alive_back (calling.known callee) calling.sound fits room step alive
    rw [← isAlive_iff fresh, down] at was
    cases was

/-- A callee is killed under a caller parked on it: the wait is in sight. -/
theorem caller_never_stranded_killed_callee :
    ∃ (history : List (Event Unit Envelope)) (s : Sys Unit Envelope),
      Run Step CallRun Sys.init history s ∧
      parkedOn history secondPid = some (7, firstPid) ∧
      (s.table.arena (slotIndex secondPid)).In secondPid .blocked ∧
      s.table.isAlive firstPid = false ∧
      ((⟨firstPid, secondPid, 7⟩ ∈ s.table.registry.callWaiters ∧ PassPending s firstPid) ∨
        ⟨firstPid, secondPid, 7⟩ ∈ s.table.registry.pendingCallDowns ∨
        ⟨firstPid, secondPid, 7⟩ ∈ s.callBatch) := by
  have start : Run Step CallRun (Sys.init : Sys Unit Envelope) [] Sys.init := .nil
  have callee := run_spawn start () none ⟨trivial, .inr (by decide), trivial⟩
  have caller := run_spawn callee () none ⟨trivial, .inr (by decide), trivial⟩
  have claimed := run_call caller (.tryClaim secondPid) ⟨trivial, trivial, trivial⟩
  have awaiting := run_call claimed (.setAwaitingReply secondPid 7)
    ⟨⟨⟨by decide, by decide, notMem_zero _⟩, List.not_mem_nil⟩, trivial, trivial⟩
  have ensured := awaiting.extend (.ensureCallWaiter secondPid firstPid 7 none)
    ⟨⟨⟨by decide, by decide, notMem_zero _⟩,
      .inl ⟨(), none, List.mem_cons_self⟩, _, rfl, rfl, .inl rfl⟩, trivial, trivial⟩
  have parked := ensured.extend (.call (@Picked.replyHold _ _ _ secondPid firstPid 7 none 0 rfl))
    ⟨trivial, trivial, trivial⟩
  have killed := run_call parked (.kill firstPid) ⟨trivial, trivial, fun _ => by decide⟩
  exact ⟨_, _, killed, rfl, ⟨rfl, rfl⟩, rfl,
    (caller_never_stranded killed).1 secondPid 7 firstPid rfl ⟨rfl, rfl⟩ rfl⟩

/-- With every `u32` index live, a process is spawned into the slot of one that is dead
and about to be reclaimed, under the same PID, and called. The reclaim vacates the slot
without a death edge: the call stays registered, and no pass will ever come for it. -/
theorem overrun_strands_caller : ∃ (history : List (Event Unit Envelope)) (s : Sys Unit Envelope),
      Run Step (fun history s event => CallDiscipline history s event ∧ NoWrap s event)
        Sys.init history s ∧
      parkedOn history secondPid = some (7, firstPid) ∧
      (s.table.arena (slotIndex secondPid)).In secondPid .blocked ∧
      s.table.isAlive firstPid = false ∧ (∀ pid, ¬ PassPending s pid) ∧
      s.table.registry.pendingCallDowns = [] ∧ s.callBatch = 0 := by
  obtain ⟨history, spawns⟩ := boot_run
    (fun _ _ event => ∃ execution parent result, event = .spawn execution parent result)
    (fun _ _ _ _ _ _ => ⟨_, _, _, rfl⟩) (2 ^ 32) (Nat.le_refl _)
  have unused : usedTokens history = [] := by
    apply spawns.invariant (fun history _ => usedTokens history = []) rfl
    rintro history s event after before ⟨_, _, _, rfl⟩ step
    rw [usedTokens_snoc, before]
    rfl
  have booted : Run Step (fun history s event => CallDiscipline history s event ∧ NoWrap s event)
      Sys.init history (booted (2 ^ 32)) := by
    refine spawns.weaken ?_
    rintro history s event ⟨_, _, _, rfl⟩
    exact ⟨trivial, trivial⟩
  have claimed := run_call booted (.tryClaim firstPid) ⟨trivial, trivial⟩
  have killed := run_call claimed (.kill firstPid)
    ⟨trivial, fun taken => Bool.noConfusion taken⟩
  have passed := run_deathPass killed firstPid (some .killed) ⟨.killed, none, 0, none⟩ 0 rfl
    ⟨trivial, trivial⟩
  have released := run_call passed (.afterSwitch firstPid) ⟨notMem_zero _, trivial⟩
  have again := run_spawn released () none ⟨trivial, trivial⟩
  have caller := run_call again (.tryClaim secondPid) ⟨trivial, trivial⟩
  have awaiting := run_call caller (.setAwaitingReply secondPid 7)
    ⟨⟨⟨by decide, by decide, notMem_zero _⟩, by
      iterate 6 rw [usedTokens_snoc]
      rw [unused]
      exact List.not_mem_nil⟩, trivial⟩
  have ensured := awaiting.extend (.ensureCallWaiter secondPid firstPid 7 none)
    ⟨⟨⟨by decide, by decide, notMem_zero _⟩,
      .inl ⟨(), none, List.mem_append_left _ (List.mem_append_left _
        (List.mem_append_right _ (List.mem_singleton_self _)))⟩,
      ⟨7, none, false⟩, openCall_opened .., rfl, .inl rfl⟩, trivial⟩
  have parked := ensured.extend (.call
    (@Picked.replyHold _ _ _ secondPid firstPid 7 none {.reclaim firstPid} rfl))
    ⟨trivial, trivial⟩
  have room : (1 : UInt32).toNat + 1 < 2 ^ 32 := by decide
  have vacated := parked.extend (@Step.reclaim _ _ _ _ firstPid 0 rfl) ⟨trivial, room⟩
  exact ⟨_, _, vacated, (parkedOn_reclaim ..).trans (parkedOn_parked ..), ⟨rfl, rfl⟩, rfl,
    no_passPending rfl, rfl, rfl⟩

end Koja.Guarantees.Runtime
