import Koja.Source.Runtime.ProcessTable

/-!
# The native adapter's view of the current process

The entry points of `koja-runtime-posix/src/scheduler.rs` that branch on the worker's
`CURRENT_PID`. The cell holds the PID a worker resumed last, and -1 on a thread that has
resumed none; stacks, payload buffers and the wake queues are the adapter's own and not
modelled.
-/
namespace Koja.Source.Runtime

variable {X M : Type}

/-- What `CURRENT_PID` holds on the host thread. -/
def hostPid : Pid := -1

variable (t : ProcessTable X M) (current : Pid)

/-- The spawner `koja_rt_spawn` records: only a positive current PID is a process. -/
def spawnParent : Option Pid := if 0 < current then some current else none

/-- The reductions `pid` was granted this quantum, 0 for a stale PID. -/
def ProcessTable.reductionsLeft (pid : Pid) : UInt32 :=
  match t.slot pid with
  | some (slot, generation) =>
    if slot.lifecycle.generation = generation then slot.reductions else 0
  | none => 0

/-- What `koja_rt_yield_check` does: hand out a budget on the spot, or yield and read the
next grant once the process is resumed. -/
inductive YieldCheck where
  | grant (reductions : UInt32)
  | yields
  deriving DecidableEq, Repr

/-- `koja_rt_yield_check`: a negative current PID is not a process. -/
def kojaRtYieldCheck : YieldCheck :=
  if current < 0 then .grant Priority.normal.budget else .yields

/-- `koja_rt_reductions_grant`, and the value `koja_rt_yield_check` reads after its
resume. -/
def kojaRtReductionsGrant : UInt32 :=
  if current < 0 then Priority.normal.budget else max (t.reductionsLeft current) 1

/-- What `koja_rt_receive` and `koja_rt_receive_timeout` return for the message they got:
its wire tag, and -1 for none. -/
def receivedTag (wireByte : M → UInt8) (popped : Option M) : Int64 :=
  popped.elim (-1) fun message => (wireByte message).toUInt64.toInt64

end Koja.Source.Runtime
