import Koja.Source.Ir.Types

/-!
# IR shape inside one function: instructions, terminators, blocks

Source: `koja-ir/src/function.rs`, `package.rs`, `intrinsic_id.rs`. Every instruction variant
is here with its operands; debug locations and block labels are left out, as no modelled pass
reads them.
-/
namespace Koja.Source.Ir

/-- `ReceiveTag`, the envelope kind a receive arm matches. -/
inductive ReceiveTag where
  | business | exitSignal | ioReady | lifecycle
  deriving DecidableEq, Repr

/-- `ReceiveTag::wire_byte`. -/
def ReceiveTag.wireByte : ReceiveTag → UInt8
  | .business => 0
  | .exitSignal => 4
  | .ioReady => 2
  | .lifecycle => 1

/-- `ReceiveArm`. -/
structure ReceiveArm where
  body : IRBlockId
  payloadLocal : IRLocalId
  payloadType : IRType
  tag : ReceiveTag
  deriving Repr

/-- `ReceiveAfter`. -/
structure ReceiveAfter where
  body : IRBlockId
  timeout : ValueId
  deriving DecidableEq, Repr

/-- `IRIndirectSlot`. -/
inductive IRIndirectSlot where
  | enumPayload (payloadIndex : Nat) (tag : IRVariantTag) (ty : IRSymbol)
  | structField (fieldIndex : Nat) (structSymbol : IRSymbol)
  deriving DecidableEq, Repr

/-- `IRInstruction`. -/
inductive IRInstruction where
  | binaryOp (dest lhs : ValueId) (op : IRBinOp) (operandTy : IRType) (rhs : ValueId)
  | binaryConstruct (dest : ValueId) (layout : ResolvedBinaryLayout)
      (segments : List LoweredBinarySegment)
  | binaryMatch (dest : ValueId) (layout : LoweredBinaryMatchLayout)
      (segments : List LoweredBinaryPattern) (subject : ValueId)
  | call (dest : ValueId) (callee : IRSymbol) (args : List ValueId)
  | callClosure (args : List ValueId) (callee dest : ValueId) (paramTypes : List IRType)
      (resultTy : IRType)
  | clone (dest source : ValueId) (ty : IRType)
  | closureEquals (dest lhs rhs : ValueId) (ty : IRType)
  | concat (consumesLhs : Bool) (dest : ValueId) (kind : ConcatKind) (lhs rhs : ValueId)
  | const (dest : ValueId) (value : ConstValue)
  | consumeLocal (slot : IRLocalId)
  | deepCopy (dest source : ValueId) (ty : IRType)
  | enumConstruct (dest : ValueId) (payload : EnumPayloadInit) (tag : IRVariantTag) (ty : IRSymbol)
  | enumTagGet (dest value : ValueId) (ty : IRSymbol)
  | enumPayloadFieldGet (dest value : ValueId) (tag : IRVariantTag) (payloadIndex : Nat)
      (fieldType : IRType) (ty : IRSymbol)
  | fieldGet (base dest : ValueId) (fieldIndex : Nat) (fieldType : IRType) (structSymbol : IRSymbol)
  | fieldSet (base dest : ValueId) (fieldIndex : Nat) (fieldType : IRType)
      (structSymbol : IRSymbol) (value : ValueId)
  | indirectPresent (base dest : ValueId) (slot : IRIndirectSlot)
  | dropLocal (slot : IRLocalId) (ty : IRType)
  | dropValue (value : ValueId) (ty : IRType)
  | localDecl (slot : IRLocalId) (ty : IRType)
  | localRead (dest : ValueId) (slot : IRLocalId) (ty : IRType)
  | localWrite (slot : IRLocalId) (value : ValueId)
  | makeClosure (body : IRSymbol) (captures : List ValueId) (dest : ValueId) (ty : IRType)
  | loadCapture (captureIndex : Nat) (dest : ValueId) (ty : IRType)
  | loadCaptureOf (captureIndex : Nat) (closure dest : ValueId) (ty : IRType)
  | loadConst (constId : IRSymbol) (dest : ValueId) (ty : IRType)
  | structInit (dest : ValueId) (fields : List StructFieldInit) (ty : IRSymbol)
  | tupleGet (base dest : ValueId) (elementType : IRType) (index : Nat)
  | tupleInit (dest : ValueId) (elements : List ValueId) (ty : List IRType)
  | unaryOp (dest : ValueId) (op : IRUnaryOp) (operand : ValueId) (operandTy : IRType)
  | spawn (config : ValueId) (configType : IRType) (dest : ValueId) (refType wrapper : IRSymbol)
  | processExit (reason : ValueId)
  | setPriority (tag : ValueId)
  | yieldCheck
  | receive (after : Option ReceiveAfter) (arms : List ReceiveArm) (dest : ValueId)
      (resultType : IRType)
  | numericWiden (dest : ValueId) (source target : IRType) (value : ValueId)
  | unionWrap (dest : ValueId) (memberIndex : UInt8) (memberType ty : IRType) (value : ValueId)
  | unionTagGet (dest : ValueId) (ty : IRType) (value : ValueId)
  | unionPayloadGet (dest : ValueId) (memberIndex : UInt8) (memberType ty : IRType)
      (value : ValueId)
  deriving Repr

/-- `BranchTarget`. -/
structure BranchTarget where
  args : List ValueId
  block : IRBlockId
  deriving DecidableEq, Repr

/-- `IRTerminator`. -/
inductive IRTerminator where
  | branch (target : BranchTarget)
  | condBranch (cond : ValueId) (elseTarget thenTarget : BranchTarget)
  | «return» (value : Option ValueId)
  | tailCall (args : List ValueId) (callee : IRSymbol)
  | «unreachable»
  deriving DecidableEq, Repr

/-- `BlockParam`. -/
structure BlockParam where
  dest : ValueId
  ty : IRType
  deriving Repr

/-- `IRBasicBlock`. -/
structure IRBasicBlock where
  id : IRBlockId
  params : List BlockParam
  instructions : List IRInstruction
  terminator : IRTerminator
  deriving Repr

/-- The intrinsic methods whose receiver may be consumed, `ConsumingMethod`. -/
inductive ConsumingMethod where
  | listAppend | mapPut | setInsert
  deriving DecidableEq, Repr

/-- `IRIntrinsicId`, as far as the modelled passes tell intrinsics apart: the three mutators,
their consuming twins, and every other one by its dotted name. -/
inductive IRIntrinsicId where
  | listAppend
  | mapPut
  | setInsert
  | consuming (method : ConsumingMethod)
  | other (name : String)
  deriving DecidableEq, Repr

/-- `FunctionKind`. The kinds without a lowered body other than intrinsics are one case. -/
inductive FunctionKind where
  | closure (envLayout : List IRType)
  | intrinsic (id : IRIntrinsicId)
  | regular
  | synthesized
  deriving Repr

/-- `IRFunctionParam`. -/
structure IRFunctionParam where
  id : ValueId
  localId : IRLocalId
  ty : IRType
  deriving Repr

/-- `IRFunction`. -/
structure IRFunction where
  blocks : List IRBasicBlock
  kind : FunctionKind
  params : List IRFunctionParam
  returnType : IRType
  symbol : IRSymbol
  deriving Repr

/-- `IRPackage`: the declarations the modelled passes look up. -/
structure IRPackage where
  enums : List IREnumDecl
  functions : List IRFunction
  package : String
  deriving Repr

/-- `find_enum`. -/
def findEnum (packages : List IRPackage) (symbol : IRSymbol) : Option IREnumDecl :=
  packages.findSome? fun package => package.enums.find? fun decl => decl.symbol = symbol

end Koja.Source.Ir
