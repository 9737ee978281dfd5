import Koja.Lib.Runs
import Koja.Source.Runtime.ReadyQueue

/-!
# Order and fairness of the ready queue

`ready_queue.rs` serves a level that was passed over often enough before any other. That bounds
every age, and with it the pops an entry waits behind the entries ahead of it.
-/
namespace Koja.Guarantees.Runtime

open Koja.Lib Koja.Source.Runtime List Function
open ReadyQueue (mostAged nextLevel pop push)

/-- A pop records the level it served. -/
inductive QueueEvent where
  | push (wake : Wake)
  | pop (level : Option Priority) (returned : Option Pid)

inductive QueueStep : ReadyQueue → QueueEvent → ReadyQueue → Prop
  | push {queue : ReadyQueue} (wake : Wake) : QueueStep queue (.push wake) (queue.push wake)
  | pop {queue : ReadyQueue} :
      QueueStep queue (.pop (queue.nextLevel.map (·.1)) queue.pop.1) queue.pop.2

namespace QueueEvent

def pushedTo (level : Priority) : QueueEvent → Option Pid
  | .push wake => if wake.priority = level then some wake.pid else none
  | .pop .. => none

def returnedFrom (level : Priority) : QueueEvent → Option Pid
  | .push _ => none
  | .pop served returned => if served = some level then returned else none

def isPop : QueueEvent → Bool
  | .push _ => false
  | .pop .. => true

end QueueEvent

open QueueEvent

variable {queue after : ReadyQueue} {level : Priority} {event : QueueEvent}
  {history : List QueueEvent}

theorem mostAged_spec (ages : Priority → Nat) (levels : List Priority) :
    match mostAged ages levels with
    | none => levels = []
    | some best => best ∈ levels ∧ ∀ level ∈ levels, ages level ≤ ages best := by
  induction levels with
  | nil => rfl
  | cons level rest ih =>
    unfold mostAged
    cases found : mostAged ages rest with
    | none =>
      rw [found] at ih
      subst ih
      simp
    | some best =>
      rw [found] at ih
      dsimp only at ih ⊢
      by_cases younger : ages level ≤ ages best
      · rw [if_pos younger]
        exact ⟨.tail _ ih.1, forall_mem_cons.mpr ⟨younger, ih.2⟩⟩
      · rw [if_neg younger]
        refine ⟨.head _, forall_mem_cons.mpr ⟨Nat.le_refl _, fun other member => ?_⟩⟩
        exact (ih.2 other member).trans (Nat.le_of_not_le younger)

/-- The ages after `level` was served. -/
def agesAfter (queue : ReadyQueue) (level : Priority) : Priority → Nat :=
  fun other => if other = level ∨ (queue.levels other).isEmpty then 0 else queue.ages other + 1

/-- A level served: not empty, and no level passed over too often is older. -/
structure Serves (queue : ReadyQueue) (level : Priority) (pid : Pid) (rest : List Pid) : Prop where
  front : queue.levels level = pid :: rest
  chosen : queue.nextLevel = some (level, ⟨agesAfter queue level, queue.levels⟩)
  oldest : ∀ other, queue.levels other ≠ [] → starvationThreshold ≤ queue.ages other →
    queue.ages other ≤ queue.ages level

theorem nextLevel_cases (queue : ReadyQueue) :
    (queue.nextLevel = none ∧ ∀ level, queue.levels level = []) ∨
      ∃ level pid rest, Serves queue level pid rest := by
  cases highest : [Priority.high, .normal, .low].find? fun level =>
      !(queue.levels level).isEmpty with
  | none =>
    refine .inl ⟨by rw [nextLevel, highest]; rfl, fun level => ?_⟩
    have empty := find?_eq_none.mp highest level (by cases level <;> simp)
    simpa using empty
  | some top =>
    generalize starved : [Priority.low, .normal, .high].filter (fun level =>
      !(queue.levels level).isEmpty ∧ starvationThreshold ≤ queue.ages level) = levels
    have member : ∀ level, level ∈ levels ↔
        queue.levels level ≠ [] ∧ starvationThreshold ≤ queue.ages level := by
      intro level
      rw [← starved]
      cases level <;> simp
    have spec := mostAged_spec queue.ages levels
    have filled : queue.levels ((mostAged queue.ages levels).getD top) ≠ [] := by
      cases found : mostAged queue.ages levels with
      | none => simpa using find?_some highest
      | some best =>
        rw [found] at spec
        exact ((member best).mp spec.1).1
    obtain ⟨pid, rest, front⟩ := exists_cons_of_ne_nil filled
    refine .inr ⟨_, pid, rest, front, ?_, fun other waiting aged => ?_⟩
    · rw [nextLevel, highest, starved]
      rfl
    · have starves := (member other).mpr ⟨waiting, aged⟩
      cases found : mostAged queue.ages levels with
      | none =>
        rw [found] at spec
        rw [show levels = [] from spec] at starves
        cases starves
      | some best =>
        rw [found] at spec
        exact spec.2 other starves

theorem Serves.pop {pid : Pid} {rest : List Pid} (serves : Serves queue level pid rest) :
    queue.pop = (some pid, ⟨agesAfter queue level, update queue.levels level rest⟩) := by
  rw [ReadyQueue.pop, serves.chosen]
  dsimp only
  rw [serves.front]
  rfl

/-! ## What a step does -/

theorem step_levels (step : QueueStep queue event after) (level : Priority) :
    queue.levels level ++ [event].filterMap (pushedTo level) =
      [event].filterMap (returnedFrom level) ++ after.levels level := by
  cases step with
  | push wake =>
    by_cases same : wake.priority = level
    · simp [pushedTo, returnedFrom, ReadyQueue.push, same]
    · simp [pushedTo, returnedFrom, ReadyQueue.push, same, update_of_ne (Ne.symm same)]
  | pop =>
    rcases nextLevel_cases queue with ⟨idle, -⟩ | ⟨served, pid, rest, serves⟩
    · simp [pushedTo, returnedFrom, ReadyQueue.pop, idle]
    · rw [serves.pop, serves.chosen]
      by_cases same : served = level
      · subst same
        simp [pushedTo, returnedFrom, serves.front]
      · simp [pushedTo, returnedFrom, same, update_of_ne (Ne.symm same)]

/-- An empty level has no age, and of the ages at most one is above the threshold and not all
reach it. -/
structure Aged (queue : ReadyQueue) : Prop where
  empty : ∀ level, queue.levels level = [] → queue.ages level = 0
  bound : ∀ level, queue.ages level ≤ starvationThreshold + 1
  second : ∀ level other, level ≠ other →
    queue.ages level ≤ starvationThreshold ∨ queue.ages other ≤ starvationThreshold
  third : ∃ level, queue.ages level < starvationThreshold

theorem level_cases {first second third : Priority} (apart : first ≠ second)
    (notThird : first ≠ third) (secondNotThird : second ≠ third) (level : Priority) :
    level = first ∨ level = second ∨ level = third := by
  cases first <;> cases second <;> cases third <;> cases level <;> simp_all

theorem Serves.aged {pid : Pid} {rest : List Pid} (serves : Serves queue level pid rest)
    (aged : Aged queue) :
    Aged ⟨agesAfter queue level, update queue.levels level rest⟩ := by
  have passed : ∀ other, agesAfter queue level other = 0 ∨ other ≠ level ∧
      queue.levels other ≠ [] ∧ agesAfter queue level other = queue.ages other + 1 := by
    intro other
    unfold agesAfter
    split
    · exact .inl rfl
    · next both =>
      rw [not_or, List.isEmpty_iff] at both
      exact .inr ⟨both.1, both.2, rfl⟩
  refine ⟨fun other empty => ?_, fun other => ?_, fun one other apart => ?_, level, ?_⟩
  · rcases passed other with zero | ⟨unserved, waiting, -⟩
    · exact zero
    · exact absurd ((update_of_ne unserved _ _).symm.trans empty) waiting
  · rcases passed other with zero | ⟨unserved, waiting, older⟩
    · exact zero.trans_le (Nat.zero_le _)
    · have oldest := serves.oldest other waiting
      rcases aged.second other level unserved with low | low <;> dsimp only <;> omega
  · rcases passed one with zero | ⟨unserved, waiting, older⟩
    · exact .inl (zero.trans_le (Nat.zero_le _))
    rcases passed other with zero | ⟨unserved', waiting', older'⟩
    · exact .inr (zero.trans_le (Nat.zero_le _))
    -- Were both at the threshold, so would the served level be, and then all three.
    obtain ⟨young, below⟩ := aged.third
    have oldest' := serves.oldest other waiting'
    rcases level_cases apart unserved unserved' young with rfl | rfl | rfl <;> dsimp only <;> omega
  · have served : agesAfter queue level level = 0 := if_pos (.inl rfl)
    exact served.trans_lt (by decide)

theorem Aged.step (aged : Aged queue) (step : QueueStep queue event after) : Aged after := by
  cases step with
  | push wake =>
    refine ⟨fun level empty => aged.empty level ?_, aged.bound, aged.second, aged.third⟩
    by_cases same : level = wake.priority
    · subst same
      simp [ReadyQueue.push] at empty
    · exact (update_of_ne same _ _).symm.trans empty
  | pop =>
    rcases nextLevel_cases queue with ⟨idle, -⟩ | ⟨level, pid, rest, serves⟩
    · rw [ReadyQueue.pop, idle]
      exact aged
    · rw [serves.pop]
      exact serves.aged aged

/-- A pop serves a level that is not empty, or makes it older. -/
theorem step_age (aged : Aged queue) (step : QueueStep queue event after)
    (waiting : queue.levels level ≠ []) : [event].countP isPop + queue.ages level ≤
      (starvationThreshold + 2) * ([event].filterMap (returnedFrom level)).length +
        after.ages level := by
  cases step with
  | push => simp [isPop, ReadyQueue.push]
  | pop =>
    rcases nextLevel_cases queue with ⟨-, empty⟩ | ⟨served, pid, rest, serves⟩
    · exact absurd (empty level) waiting
    · rw [serves.pop, serves.chosen]
      have bound := aged.bound level
      by_cases same : served = level
      · simp [isPop, returnedFrom, same]
        omega
      · simp [isPop, agesAfter, Ne.symm same, waiting, Nat.add_comm]

/-! ## Whole runs -/

theorem run_aged (run : Run QueueStep (fun _ _ _ => True) queue history after)
    (aged : Aged queue) : Aged after :=
  run.invariant (fun _ queue => Aged queue) aged fun _ _ _ _ aged _ step => aged.step step

/-- What was in a level and pushed to it came out in that order, or is still there. -/
theorem run_levels (run : Run QueueStep (fun _ _ _ => True) queue history after)
    (level : Priority) :
    queue.levels level ++ history.filterMap (pushedTo level) =
      history.filterMap (returnedFrom level) ++ after.levels level := by
  induction run with
  | nil => simp
  | snoc _ _ step ih =>
    rw [filterMap_append, filterMap_append, ← append_assoc, ih, append_assoc,
      step_levels step, append_assoc]

/-- As long as a first entry of the level is left, the pops are bounded by its services. -/
theorem run_age (run : Run QueueStep (fun _ _ _ => True) queue history after)
    (aged : Aged queue)
    (left : (history.filterMap (returnedFrom level)).length < (queue.levels level).length) :
    history.countP isPop ≤ (starvationThreshold + 2) *
      (history.filterMap (returnedFrom level)).length + after.ages level := by
  induction run with
  | nil => simp
  | @snoc history middle after event run _ step ih =>
    have kept := congrArg List.length (run_levels run level)
    simp only [filterMap_append, length_append, countP_append, Nat.mul_add]
      at kept left ⊢
    have waiting : middle.levels level ≠ [] := by
      intro empty
      rw [empty, length_nil] at kept
      omega
    have older := step_age (run_aged run aged) step waiting
    omega

/-- An entry leaves its level within the pops its place allows. -/
theorem run_returned (run : Run QueueStep (fun _ _ _ => True) queue history after)
    (aged : Aged queue) {ahead behind : List Pid} {pid : Pid}
    (place : queue.levels level = ahead ++ pid :: behind)
    (pops : (ahead.length + 1) * (starvationThreshold + 2) ≤ history.countP isPop) :
    (history.filterMap (returnedFrom level))[ahead.length]? = some pid := by
  have kept := run_levels run level
  have bound := (run_aged run aged).bound level
  have served : ahead.length < (history.filterMap (returnedFrom level)).length := by
    by_contra short
    have late := run_age run aged (by rw [place, length_append, length_cons]; omega)
    have few := Nat.mul_le_mul_left (starvationThreshold + 2) (Nat.le_of_not_lt short)
    rw [Nat.mul_comm, Nat.mul_add] at pops
    omega
  rw [← getElem?_append_left served, ← kept, place]
  simp

/-- Every entry pushed comes out of its level in order or is still in it; a pop finds none
exactly when all came out; no age passes the threshold by more than one; and from any state an
entry comes out within the pops its place allows, whatever is pushed in between. -/
theorem ready_queue_fair (run : Run QueueStep (fun _ _ _ => True) .new history queue) :
    (queue.pop.1 = none ↔ ∀ level,
      history.filterMap (returnedFrom level) = history.filterMap (pushedTo level)) ∧
    (∀ level, history.filterMap (pushedTo level) =
      history.filterMap (returnedFrom level) ++ queue.levels level) ∧
    (∀ level, queue.ages level ≤ starvationThreshold + 1) ∧
    ∀ later after level ahead pid behind, Run QueueStep (fun _ _ _ => True) queue later after →
      queue.levels level = ahead ++ pid :: behind →
      (ahead.length + 1) * (starvationThreshold + 2) ≤ later.countP isPop →
        (later.filterMap (returnedFrom level))[ahead.length]? = some pid := by
  have aged := run_aged run ⟨fun _ _ => rfl, fun _ => Nat.zero_le _,
    fun _ _ _ => .inl (Nat.zero_le _), .low, by decide⟩
  have kept : ∀ level, history.filterMap (pushedTo level) =
      history.filterMap (returnedFrom level) ++ queue.levels level := run_levels run
  refine ⟨?_, kept, aged.bound,
    fun _ _ _ _ _ _ onward place pops => run_returned onward aged place pops⟩
  have drained : (∀ level, history.filterMap (returnedFrom level) =
      history.filterMap (pushedTo level)) ↔ ∀ level, queue.levels level = [] :=
    forall_congr' fun level => by rw [kept level, self_eq_append_right]
  rw [drained]
  rcases nextLevel_cases queue with ⟨idle, empty⟩ | ⟨level, pid, rest, serves⟩
  · rw [ReadyQueue.pop, idle]
    exact iff_of_true rfl empty
  · rw [serves.pop]
    refine iff_of_false (by simp) fun empty => ?_
    cases (empty level).symm.trans serves.front

theorem run_pushes (wakes : List Wake) : ∃ history,
    Run QueueStep (fun _ _ _ => True) .new history (wakes.foldl push .new) := by
  induction wakes using List.reverseRecOn with
  | nil => exact ⟨[], .nil⟩
  | append_singleton earlier wake ih =>
    obtain ⟨history, run⟩ := ih
    rw [foldl_append]
    exact ⟨_, run.snoc trivial (.push wake)⟩

theorem run_pops (queue : ReadyQueue) (count : Nat) : ∃ later after,
    Run QueueStep (fun _ _ _ => True) queue later after ∧ later.countP isPop = count := by
  induction count with
  | zero => exact ⟨[], queue, .nil, rfl⟩
  | succ count ih =>
    obtain ⟨later, after, run, pops⟩ := ih
    refine ⟨_, _, run.snoc trivial .pop, ?_⟩
    rw [countP_append, pops]
    rfl

/-- A low entry comes out within ten pops although more than ten high entries are queued. -/
theorem low_entry_returned : ∃ later after,
    Run QueueStep (fun _ _ _ => True)
      ((⟨1, .low⟩ :: replicate 12 ⟨2, .high⟩).foldl push .new) later after ∧
    later.countP isPop = 10 ∧ (later.filterMap (returnedFrom .low))[0]? = some 1 := by
  obtain ⟨history, run⟩ := run_pushes (⟨1, .low⟩ :: replicate 12 ⟨2, .high⟩)
  obtain ⟨later, after, onward, pops⟩ := run_pops _ 10
  refine ⟨later, after, onward, pops, ?_⟩
  have waits := (ready_queue_fair run).2.2.2 later after .low [] 1 [] onward rfl
  exact waits (by rw [pops]; decide)

end Koja.Guarantees.Runtime
