import Koja.Source.Runtime.Protocol

/-!
# Envelopes

The owned mailbox message of the native runtime, `koja-runtime-core/src/wire.rs`:
a transport buffer whose first byte is the routing tag, the sender's context, and
a correlation token. The buffer is its tag byte and the payload after the header;
drop glue is memory management and not modelled.
-/
namespace Koja.Source.Runtime

def tagBusiness : UInt8 := 0
def tagLifecycle : UInt8 := 1
def tagIoReady : UInt8 := 2
def tagReply : UInt8 := 3
def tagExitSignal : UInt8 := 4

structure Envelope where
  tagByte : UInt8
  payload : List UInt8
  context : Context
  replyToken : Int64
  deriving DecidableEq, Repr

namespace Envelope

/-- Wraps a payload under `tag`; the token is set by the reply path alone. -/
def fromPayload (tag : UInt8) (payload : List UInt8) (context : Context) : Envelope :=
  ⟨tag, payload, context, 0⟩

/-- Unknown wire bytes are business traffic. -/
def tag (envelope : Envelope) : Tag :=
  if envelope.tagByte = tagLifecycle then .lifecycle
  else if envelope.tagByte = tagIoReady then .ioReady
  else if envelope.tagByte = tagReply then .reply
  else if envelope.tagByte = tagExitSignal then .exitSignal
  else .business

instance : Message Envelope where
  tag := Envelope.tag
  context := Envelope.context
  replyToken := Envelope.replyToken

end Envelope

end Koja.Source.Runtime
