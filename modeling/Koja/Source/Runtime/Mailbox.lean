import Koja.Source.Runtime.Protocol

/-!
# Per-process mailbox

`koja-runtime-core/src/mailbox.rs`: two receive queues plus a one-shot reply slot,
routed by `Tag`. Queues are lists with the front at the head.
-/
namespace Koja.Source.Runtime

/-- Which part of the mailbox a blocked process is waiting on. -/
inductive WaitTarget where
  | receive | reply
  deriving DecidableEq, Repr

structure Mailbox (M : Type) where
  business : List M
  reply : Option M
  system : List M

namespace Mailbox

variable {M : Type}

def empty : Mailbox M := ⟨[], none, []⟩

variable (mailbox : Mailbox M)

/-- Next message for `receive`: system traffic first, then business. -/
def popReceived : Option M × Mailbox M :=
  match mailbox.system with
  | message :: rest => (some message, { mailbox with system := rest })
  | [] =>
    match mailbox.business with
    | message :: rest => (some message, { mailbox with business := rest })
    | [] => (none, mailbox)

def hasSystem : Bool := !mailbox.system.isEmpty

def takeReply : Option M × Mailbox M :=
  (mailbox.reply, { mailbox with reply := none })

/-- An empty pop leaves an empty pair of queues and changes nothing. -/
theorem popReceived_none {mailbox : Mailbox M} (h : mailbox.popReceived.1 = none) :
    mailbox.system = [] ∧ mailbox.business = [] ∧ mailbox.popReceived.2 = mailbox := by
  cases hs : mailbox.system with
  | cons => simp [popReceived, hs] at h
  | nil =>
    cases hb : mailbox.business with
    | cons => simp [popReceived, hs, hb] at h
    | nil => simp [popReceived, hs, hb]

@[simp] theorem popReceived_reply :
    mailbox.popReceived.2.reply = mailbox.reply := by
  simp only [popReceived]
  split
  · rfl
  · split <;> rfl

variable [Message M]

/-- Which wait target a message will satisfy when pushed. -/
def targetOf (message : M) : WaitTarget :=
  if Message.tag message = .reply then .reply else .receive

/-- Routes a message by its tag, handing back a displaced stale reply. -/
def push (mailbox : Mailbox M) (message : M) : Option M × Mailbox M :=
  match Message.tag message with
  | .lifecycle => (none, { mailbox with system := mailbox.system ++ [message] })
  | .reply => (mailbox.reply, { mailbox with reply := some message })
  | .business | .exitSignal | .ioReady =>
    (none, { mailbox with business := mailbox.business ++ [message] })

/-- The three classes that share the business queue. -/
def isBusiness (message : M) : Bool :=
  match Message.tag message with
  | .business | .exitSignal | .ioReady => true
  | .lifecycle | .reply => false

theorem push_parts (message : M) :
    (mailbox.push message).2.system = mailbox.system ++
      (if Message.tag message = .lifecycle then [message] else []) ∧
    (mailbox.push message).2.business = mailbox.business ++
      (if isBusiness message then [message] else []) ∧
    (mailbox.push message).2.reply =
      (if Message.tag message = .reply then some message else mailbox.reply) := by
  cases tag : Message.tag message <;> simp [push, isBusiness, tag]

end Mailbox

end Koja.Source.Runtime
