import Koja.Source.Ir.Function
import Koja.Source.Runtime.Slot

/-!
# `receive` in the interpreter

Source: `execute_receive` and `dispatch_received` of `koja-ir-eval/src/interpreter.rs`. One
resumption of the loop is one round under the process's slot; the payload an arm binds is
built from the message, which stands for it here.
-/
namespace Koja.Source.Eval

open Koja.Source.Ir Koja.Source.Runtime

/-- The tag of the arm a message is for; replies never surface through `pop_received`. -/
def armTag : Tag → Option ReceiveTag
  | .business => some .business
  | .exitSignal => some .exitSignal
  | .ioReady => some .ioReady
  | .lifecycle => some .lifecycle
  | .reply => none

variable {X M : Type} [Message M]

/-- `dispatch_received`: the first arm for the message's tag. Without one it is dropped. -/
def dispatchReceived (arms : List ReceiveArm) (message : M) : Option (ReceiveArm × M) :=
  (armTag (Message.tag message)).bind fun tag =>
    (arms.find? (·.tag = tag)).map (·, message)

/-- Where a round of the loop leaves the process: in an arm's block with the payload bound,
in the block of the `after` clause, or switched out. -/
inductive ReceiveRound (M : Type) where
  | entered (arm : ReceiveArm) (message : M)
  | timedOut (body : IRBlockId)
  | yielded

/-- One round of `execute_receive`, with the deadline and block of its `after` clause. -/
def executeReceive (generation : UInt32) (arms : List ReceiveArm)
    (after : Option (Instant × IRBlockId)) (now : Instant) : Hold X M (ReceiveRound M) :=
  fun slot tally =>
    let (popped, slot, tally) := popReceivedHold slot tally
    match popped.bind (dispatchReceived arms) with
    | some (arm, message) =>
      (.entered arm message,
        if after.isSome then { slot with hot.deadline := none } else slot, tally)
    | none =>
      match after.filter (·.1 ≤ now) with
      | some (_, body) => (.timedOut body, { slot with hot.deadline := none }, tally)
      | none =>
        let (_, slot, tally) := tryParkHold generation .receive (after.map (·.1)) slot tally
        (.yielded, slot, tally)

end Koja.Source.Eval
