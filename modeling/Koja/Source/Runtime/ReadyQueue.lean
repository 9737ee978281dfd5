import Koja.Source.Runtime.Slot

/-!
# The cooperative driver's ready queue

`koja-runtime-core/src/ready_queue.rs`: one queue for each priority, front first, and how often
each was passed over while it was not empty.
-/
namespace Koja.Source.Runtime

/-- `STARVATION_THRESHOLD`. -/
def starvationThreshold : Nat := 8

structure ReadyQueue where
  ages : Priority → Nat
  levels : Priority → List Pid

namespace ReadyQueue

def new : ReadyQueue := ⟨fun _ => 0, fun _ => []⟩

def push (queue : ReadyQueue) (wake : Wake) : ReadyQueue :=
  { queue with
    levels := Function.update queue.levels wake.priority
      (queue.levels wake.priority ++ [wake.pid]) }

/-- `max_by_key` over levels in ascending order: the last of the most aged. -/
def mostAged (ages : Priority → Nat) : List Priority → Option Priority
  | [] => none
  | level :: rest =>
    match mostAged ages rest with
    | none => some level
    | some best => if ages level ≤ ages best then some best else some level

/-- Chooses the level to serve and ages the rest. -/
def nextLevel (queue : ReadyQueue) : Option (Priority × ReadyQueue) :=
  ([.high, .normal, .low].find? fun level => !(queue.levels level).isEmpty).map fun highest =>
    let starved := [.low, .normal, .high].filter fun level =>
      !(queue.levels level).isEmpty ∧ starvationThreshold ≤ queue.ages level
    let chosen := (mostAged queue.ages starved).getD highest
    let ages := fun level =>
      if level = chosen ∨ (queue.levels level).isEmpty then 0 else queue.ages level + 1
    (chosen, { queue with ages := ages })

def pop (queue : ReadyQueue) : Option Pid × ReadyQueue :=
  match queue.nextLevel with
  | none => (none, queue)
  | some (level, queue) =>
    ((queue.levels level).head?,
      { queue with levels := Function.update queue.levels level (queue.levels level).tail })

end ReadyQueue

end Koja.Source.Runtime
