import Koja.Source.Runtime.Machine
import Koja.Source.Runtime.TimerWheel

/-!
# Timers beside the table

`koja-runtime-core/src/timer_service.rs`, and its composition with the process table as
the native adapter runs it: timers are armed, cancelled and drained under a lock of their
own, and what a drain hands out is applied to the table afterwards, one entry at a time.
-/
namespace Koja.Source.Runtime

variable {X M : Type}

/-- `armed` holds the token of each process's one armed deadline. -/
structure TimerService (M : Type) where
  armed : Pid → Option TimerToken
  graceDeadline : Option Instant
  lastAdvance : Option Instant
  wheel : TimerWheel M

namespace TimerService

def new : TimerService M := ⟨fun _ => none, none, none, .new⟩

variable (timers : TimerService M) (now : Instant)

/-- Arms `pid`'s wake deadline in place of any previous one. -/
def armDeadline (pid : Pid) (fireAt : Instant) : TimerService M :=
  let (token, wheel) := timers.wheel.insertDeadline fireAt pid
  { timers with
    armed := Function.update timers.armed pid (some token)
    wheel := (timers.armed pid).elim wheel wheel.cancel }

def cancelDeadline (pid : Pid) : TimerService M :=
  match timers.armed pid with
  | none => timers
  | some token =>
    { timers with
      armed := Function.update timers.armed pid none
      wheel := timers.wheel.cancel token }

/-- `send_after`. -/
def scheduleDeliver (fireAt : Instant) (targetPid : Pid) (envelope : M) : TimerService M :=
  { timers with wheel := timers.wheel.insertDeliver fireAt targetPid envelope }

/-- Disarms the deadlines that fired. -/
def disarmFired (armed : Pid → Option TimerToken) : List (Due M) → Pid → Option TimerToken
  | [] => armed
  | .promote pid _ :: due => disarmFired (Function.update armed pid none) due
  | .deliver _ _ :: due => disarmFired armed due

/-- Drains everything due at `now`, at most once per instant. -/
def advance : List (Due M) × TimerService M :=
  if timers.lastAdvance.any (now ≤ ·) then ([], timers)
  else
    let (due, wheel) := timers.wheel.drainDue now
    (due,
      { timers with
        armed := disarmFired timers.armed due
        lastAdvance := some now
        wheel := wheel })

def nextFire : Option Instant :=
  match timers.wheel.soonestBound, timers.graceDeadline with
  | some timer, some grace => some (min timer grace)
  | timer, grace => timer.or grace

def armGrace (deadline : Instant) : TimerService M :=
  if timers.graceDeadline.isNone then { timers with graceDeadline := some deadline } else timers

theorem advance_due {pid : Pid} {fireAt : Instant}
    (member : .promote pid fireAt ∈ (timers.advance now).1) : fireAt ≤ now := by
  unfold advance at member
  split at member
  · cases member
  · exact timers.wheel.drainDue_due now member

end TimerService

/-! ## The table and the timers -/

/-- `due` holds the drained entries the workers have not applied yet, each with the
instant of its drain. -/
structure Timed (X M : Type) where
  sys : Sys X M
  timers : TimerService M
  due : Multiset (Instant × Due M)

def Timed.init : Timed X M := ⟨.init, .new, 0⟩

inductive TimedEvent (X M : Type) where
  | table (event : Event X M)
  | armDeadline (pid : Pid) (fireAt : Instant)
  | cancelDeadline (pid : Pid)
  | scheduleDeliver (fireAt : Instant) (targetPid : Pid) (envelope : M)
  | advance (now : Instant) (due : List (Due M))
  | promoteDue (now : Instant) (pid : Pid) (fireAt : Instant) (outcome : Outcome X M)
  | deliverDue (now : Instant) (targetPid : Pid) (envelope : M) (outcome : Outcome X M)

/-- The block of the table a step is. -/
def TimedEvent.onTable : TimedEvent X M → Option (Event X M)
  | .table event => some event
  | .promoteDue _ pid fireAt outcome => some (.call (.promoteExpired pid fireAt) outcome)
  | .deliverDue _ targetPid envelope outcome => some (.call (.deliver targetPid envelope) outcome)
  | _ => none

/-- `promote_expired` is called on drained entries only. -/
inductive TimedStep [Message M] : Timed X M → TimedEvent X M → Timed X M → Prop
  | table {s : Timed X M} {event : Event X M} {sys : Sys X M} (step : Step s.sys event sys)
      (undrained : ∀ pid fireAt outcome, event ≠ .call (.promoteExpired pid fireAt) outcome) :
      TimedStep s (.table event) { s with sys := sys }
  | armDeadline {s : Timed X M} (pid : Pid) (fireAt : Instant) :
      TimedStep s (.armDeadline pid fireAt)
        { s with timers := s.timers.armDeadline pid fireAt }
  | cancelDeadline {s : Timed X M} (pid : Pid) :
      TimedStep s (.cancelDeadline pid) { s with timers := s.timers.cancelDeadline pid }
  | scheduleDeliver {s : Timed X M} (fireAt : Instant) (targetPid : Pid) (envelope : M) :
      TimedStep s (.scheduleDeliver fireAt targetPid envelope)
        { s with timers := s.timers.scheduleDeliver fireAt targetPid envelope }
  | advance {s : Timed X M} (now : Instant) : TimedStep s (.advance now (s.timers.advance now).1)
        { s with
          timers := (s.timers.advance now).2
          due := s.due + ((s.timers.advance now).1.map (now, ·) : List (Instant × Due M)) }
  | promoteDue {s : Timed X M} {now : Instant} {pid : Pid} {fireAt : Instant}
      {rest : Multiset (Instant × Due M)} (next : s.due = (now, .promote pid fireAt) ::ₘ rest) :
      TimedStep s (.promoteDue now pid fireAt (s.sys.table.perform (.promoteExpired pid fireAt)).1)
        { s with sys := s.sys.perform (.promoteExpired pid fireAt), due := rest }
  | deliverDue {s : Timed X M} {now : Instant} {targetPid : Pid} {envelope : M}
      {rest : Multiset (Instant × Due M)}
      (next : s.due = (now, .deliver envelope targetPid) ::ₘ rest) :
      TimedStep s
        (.deliverDue now targetPid envelope (s.sys.table.perform (.deliver targetPid envelope)).1)
        { s with sys := s.sys.perform (.deliver targetPid envelope), due := rest }

/-- A step of the composition is a step of the table, or leaves it alone. -/
theorem TimedStep.onTable [Message M] {s after : Timed X M} {event : TimedEvent X M}
    (step : TimedStep s event after) :
    (∃ inner, event.onTable = some inner ∧ Step s.sys inner after.sys) ∨
      (event.onTable = none ∧ after.sys = s.sys) := by
  cases step with
  | table step => exact .inl ⟨_, rfl, step⟩
  | promoteDue | deliverDue => exact .inl ⟨_, rfl, .call (.fresh (by simp))⟩
  | armDeadline | cancelDeadline | scheduleDeliver | advance => exact .inr ⟨rfl, rfl⟩

section
open Koja.Lib
variable [Message M] {admits : List (TimedEvent X M) → Timed X M → TimedEvent X M → Prop}
  {init s : Timed X M} {history : List (TimedEvent X M)}

theorem timedStep_call (s : Timed X M) (call : Call M) (opens : ∀ pid token deadline callee,
      call ≠ .takeReplyOrPark pid token deadline callee := by simp)
    (undrained : ∀ pid fireAt, call ≠ .promoteExpired pid fireAt := by simp) :
    TimedStep s (.table (.call call (s.sys.table.perform call).1))
      { s with sys := s.sys.perform call } := by
  refine .table (.call (.fresh opens)) ?_
  intro pid fireAt outcome same
  cases same
  exact undrained _ _ rfl

theorem timed_call (run : Run TimedStep admits init history s) (call : Call M)
    (admitted : admits history s (.table (.call call (s.sys.table.perform call).1)))
    (opens : ∀ pid token deadline callee,
      call ≠ .takeReplyOrPark pid token deadline callee := by simp)
    (undrained : ∀ pid fireAt, call ≠ .promoteExpired pid fireAt := by simp) :
    Run TimedStep admits init (history ++ [.table (.call call (s.sys.table.perform call).1)])
      { s with sys := s.sys.perform call } :=
  run.snoc admitted (timedStep_call s call opens undrained)

/-- A run of the table alone, beside timers nobody uses. -/
theorem timed_lift {untimed : List (Event X M) → Sys X M → Event X M → Prop}
    (lifts : ∀ history s event, untimed history s event →
      admits (history.map .table) ⟨s, .new, 0⟩ (.table event) ∧
        ∀ pid fireAt outcome, event ≠ .call (.promoteExpired pid fireAt) outcome)
    {history : List (Event X M)} {s : Sys X M} (run : Run Step untimed Sys.init history s) :
    Run TimedStep admits Timed.init (history.map .table) ⟨s, .new, 0⟩ := by
  induction run with
  | nil => exact .nil
  | snoc _ admitted step ih =>
    rw [List.map_append]
    obtain ⟨taken, undrained⟩ := lifts _ _ _ admitted
    exact ih.snoc taken (.table step undrained)

end

end Koja.Source.Runtime
