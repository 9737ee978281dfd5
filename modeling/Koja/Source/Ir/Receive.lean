import Koja.Source.Ir.Function
import Koja.Source.Typecheck.Receive

/-!
# Lowering of `receive` and the delivery arms

Source: `koja-ir/src/lower/process.rs` (`lower_receive`, `lower_receive_arm`, `receive_tag_for`),
`koja-ir/src/elaborate/delivery.rs` with `io_ready.rs` and `exit_signal.rs`, and the dispatch
chain of `koja-ir-llvm/src/emit/process.rs`. The arms of one `Receive` are followed through the
passes; the blocks the arms run are named by their ids.
-/
namespace Koja.Source.Ir

open Koja.Source.Typecheck

/-- The substitutions monomorphization applies to a template, outermost owner first. -/
abbrev Instantiation := List (GlobalRegistryId × List ResolvedType)

/-- A type of the template at an instantiation. -/
def instantiate (instantiation : Instantiation) (ty : ResolvedType) : ResolvedType :=
  instantiation.foldl (fun ty pair => ty.substitute pair.2 pair.1) ty

/-- `is_business_envelope` of lowering: any pair. -/
def isEnvelopePair : ResolvedType → Bool
  | .tuple [_, _] => true
  | _ => false

/-- `receive_tag_for`. -/
def receiveTagFor (registry : GlobalRegistry) (payload : ResolvedType) : Option ReceiveTag :=
  if isLifecycle registry payload then some .lifecycle
  else if isEnvelopePair payload then some .business
  else none

/-- `lower_receive_arm`. `none` is a panic, or the diagnostic that arms with guards are not
supported. -/
def lowerReceiveArm (registry : GlobalRegistry) (fuel : Nat) (instantiation : Instantiation)
    (body : IRBlockId) (arm : ReceiveSourceArm) : Option ReceiveArm :=
  match arm.pattern with
  | .other => none
  | .typedBinding localId resolvedType => do
      let payload := instantiate instantiation resolvedType
      let payloadType ← resolvedTypeToIrType registry fuel payload
      let tag ← receiveTagFor registry payload
      if arm.guarded then none
      else return { body, payloadLocal := localId, payloadType, tag }

/-- The arms `lower_receive` puts on the `Receive`, arm by arm with their body blocks. -/
def lowerReceiveArms (registry : GlobalRegistry) (fuel : Nat) (instantiation : Instantiation) :
    List (IRBlockId × ReceiveSourceArm) → Option (List ReceiveArm)
  | [] => some []
  | (body, arm) :: rest => do
      let lowered ← lowerReceiveArm registry fuel instantiation body arm
      let others ← lowerReceiveArms registry fuel instantiation rest
      return lowered :: others

/-- `DeliveryKind`. -/
inductive DeliveryKind where
  | exitSignal | ioReady
  deriving DecidableEq, Repr

/-- `DeliveryKind::tag`. -/
def DeliveryKind.tag : DeliveryKind → ReceiveTag
  | .exitSignal => .exitSignal
  | .ioReady => .ioReady

/-- The path of the payload's type inside `Global`. -/
def DeliveryKind.path : DeliveryKind → List String
  | .exitSignal => ["Process", "ExitSignal"]
  | .ioReady => ["IO", "Ready"]

/-- `EXIT_SIGNAL_SYMBOL`. -/
def exitSignalSymbol : IRSymbol := ⟨"Global.Process.ExitSignal"⟩

/-- `IO_READY_SYMBOL`. -/
def ioReadySymbol : IRSymbol := ⟨"Global.IO.Ready"⟩

/-- `is_exit_signal`. -/
def isExitSignal : IRType → Bool
  | .struct symbol => symbol = exitSignalSymbol
  | _ => false

/-- `is_io_ready`. -/
def isIoReady : IRType → Bool
  | .enum symbol => symbol = ioReadySymbol
  | _ => false

/-- `Injection`. -/
inductive Injection where
  | direct
  | unionWrap (memberIndex : UInt8) (unionType : IRType)
  deriving Repr

/-- `inject_union_member`. -/
def injectUnionMember (messageType : IRType) (isPayload : IRType → Bool) :
    Option (IRType × Injection) :=
  match messageType with
  | .union _ members => do
      let index ← members.findIdx? isPayload
      let member ← members[index]?
      return (member, .unionWrap (UInt8.ofNat index) messageType)
  | _ => none

/-- `DeliveryKind::resolve`: `exit_signal::resolve` and `io_ready::resolve`. -/
def DeliveryKind.resolve (messageType : IRType) : DeliveryKind → Option (IRType × Injection)
  | .exitSignal =>
    if isExitSignal messageType then some (messageType, .direct)
    else injectUnionMember messageType isExitSignal
  | .ioReady => injectUnionMember messageType isIoReady

/-- `BusinessEnvelope`. -/
structure BusinessEnvelope where
  body : IRBlockId
  envelopeElements : List IRType
  messageType : IRType
  noneTag : IRVariantTag
  optionSymbol : IRSymbol
  payloadLocal : IRLocalId
  deriving Repr

/-- `OPTION_NONE_VARIANT`. -/
def optionNoneVariant : String := "None"

variable (packages : List IRPackage) (arms : List ReceiveArm)

/-- `resolve_business_envelope`. -/
def resolveBusinessEnvelope (synthesizedTag : ReceiveTag) : Option BusinessEnvelope :=
  if arms.any fun arm => arm.tag = synthesizedTag then none
  else do
    let business ← arms.find? fun arm => arm.tag = .business
    match business.payloadType with
    | .tuple [messageType, .enum optionSymbol] =>
      let decl ← findEnum packages optionSymbol
      let variant ← decl.variants.find? fun variant => variant.name = optionNoneVariant
      return {
        body := business.body
        envelopeElements := [messageType, .enum optionSymbol]
        messageType
        noneTag := variant.tag
        optionSymbol
        payloadLocal := business.payloadLocal }
    | _ => none

/-- `Synthesis`. -/
structure Synthesis where
  business : BusinessEnvelope
  injection : Injection
  payloadType : IRType
  deriving Repr

/-- `resolve`. -/
def resolveSynthesis (kind : DeliveryKind) : Option Synthesis := do
  let business ← resolveBusinessEnvelope packages arms kind.tag
  let (payloadType, injection) ← kind.resolve business.messageType
  return { business, injection, payloadType }

/-- What `deliver` does to the arms of one `Receive` of a package function. `body` and
`payloadLocal` are the ids `apply` mints. -/
def deliver (kind : DeliveryKind) (body : IRBlockId)
    (payloadLocal : IRLocalId) (arms : List ReceiveArm) : List ReceiveArm :=
  match resolveSynthesis packages arms kind with
  | none => arms
  | some synthesis =>
    arms ++ [{ body, payloadLocal, payloadType := synthesis.payloadType, tag := kind.tag }]

/-- Where a `Receive` stands: in a function of some package, or in a script's inline body, which
the delivery pass does not visit. -/
inductive ReceiveSite where
  | packageFunction
  | scriptBody
  deriving DecidableEq, Repr

/-- The ids minted for the two delivery arms. -/
structure DeliveryIds where
  ioReadyBody : IRBlockId
  ioReadyLocal : IRLocalId
  exitSignalBody : IRBlockId
  exitSignalLocal : IRLocalId
  deriving DecidableEq, Repr

/-- The arms after `elaborate`: `deliver` for `IoReady`, then for `ExitSignal`. -/
def elaborateArms (site : ReceiveSite) (ids : DeliveryIds)
    (arms : List ReceiveArm) : List ReceiveArm :=
  match site with
  | .packageFunction =>
    deliver packages .exitSignal ids.exitSignalBody ids.exitSignalLocal
      (deliver packages .ioReady ids.ioReadyBody ids.ioReadyLocal arms)
  | .scriptBody => arms

/-- `dispatch_arms`: the first arm whose wire byte is the returned tag. `none` is the emitted
`unreachable`. -/
def dispatchArms (tag : UInt8) : Option ReceiveArm :=
  arms.find? fun arm => arm.tag.wireByte = tag

end Koja.Source.Ir
