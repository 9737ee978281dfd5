import Koja.Source.Ast.BinarySegment
import Koja.Source.Ir.BinaryPacking

/-!
# Lowering of binary literals

Source: `koja-ir/src/lower/binary_literal.rs`. Each segment comes with the register and type its
value was lowered to. The `BinaryConstruct`s and spliced registers that `concat_operands` folds
into a chain of `Concat`s are returned as the list of its operands; widths are `u64` sums.
-/
namespace Koja.Source.Ir

open Koja.Source.Ast

/-- A segment whose value has been lowered. -/
structure LoweredSegmentValue where
  segment : BinarySegment
  value : ValueId
  valueTy : IRType

/-- `ClassifiedSegment`. -/
inductive ClassifiedSegment where
  | integer (width : UInt64)
  | float (width : UInt64)
  | splice
  | string (byteLength : UInt64)
  deriving DecidableEq, Repr

/-- `classify_segment`. -/
def classifySegment (segment : BinarySegment) (valueTy : Option IRType) :
    Except String ClassifiedSegment :=
  match stringSegmentByteLength segment with
  | some byteLength => .ok (.string (UInt64.ofNat byteLength))
  | none =>
    match segment.size, segment.typeAnn with
    | some (.literal text), _ =>
      match parseU64 text with
      | none => .error ("IR lower: invalid binary segment size literal `" ++ text ++ "`")
      | some bits =>
        match segment.unit with
        | .bit => .ok (.integer (UInt64.ofNat bits))
        | .byte => .ok (.integer (UInt64.ofNat (min (bits * 8) (2 ^ 64 - 1))))
    | some .dynamic, _ =>
      .error "IR lower: dynamic-width binary segments are not yet supported"
    | none, some (.named name) =>
      if name = "Binary" then .ok .splice
      else if name = "Float32" then .ok (.float 32)
      else if name = "Float64" then .ok (.float 64)
      else
        match integerAnnotationWidth name with
        | some width => .ok (.integer (UInt64.ofNat width))
        | none =>
          .error ("IR lower: unrecognized binary segment type annotation `" ++ name ++
            "`, typecheck must have allowed an unsupported width")
    | none, some .other =>
      .error "IR lower: binary segment type annotation must be a primitive name"
    | none, none =>
      match valueTy with
      | some .binary => .ok .splice
      | _ => .ok (.integer 8)

/-- `LoweredBinarySegment::width`. -/
def LoweredBinarySegment.width : LoweredBinarySegment → UInt64
  | .integer _ width .. => width
  | .float _ width .. => width
  | .string _ byteLength _ => byteLength * 8

def LoweredBinarySegment.bitOffset : LoweredBinarySegment → UInt64
  | .integer _ _ _ _ bitOffset | .float _ _ _ bitOffset | .string _ _ bitOffset => bitOffset

/-- An operand of the concat chain. -/
inductive ConcatOperand where
  | construct (layout : ResolvedBinaryLayout) (segments : List LoweredBinarySegment)
  | splice (value : ValueId)
  deriving DecidableEq, Repr

/-- `ConcatBuilder`. -/
structure ConcatBuilder where
  hasSplice : Bool
  operands : List ConcatOperand
  run : List LoweredBinarySegment
  runBits : UInt64
  deriving DecidableEq, Repr

namespace ConcatBuilder

/-- `ConcatBuilder::default`. -/
def empty : ConcatBuilder :=
  ⟨false, [], [], 0⟩

variable (builder : ConcatBuilder)

/-- `ConcatBuilder::push`. -/
def push (segment : LoweredBinarySegment) : ConcatBuilder :=
  { builder with runBits := builder.runBits + segment.width, run := builder.run ++ [segment] }

/-- `emit_construct`. -/
def emitConstruct (segments : List LoweredBinarySegment) (totalBits : UInt64) : ConcatOperand :=
  .construct ⟨totalBits, totalBits % 8 = 0⟩ segments

/-- `ConcatBuilder::flush`. -/
def flush : Except String ConcatBuilder :=
  if builder.run.isEmpty then .ok builder
  else if builder.hasSplice && builder.runBits % 8 != 0 then
    .error ("IR lower: fixed-width segments around a `Binary` splice must total whole bytes " ++
      "(typecheck should have rejected this literal)")
  else
    .ok { builder with
      run := []
      runBits := 0
      operands := builder.operands ++ [emitConstruct builder.run builder.runBits] }

/-- One segment of `lower_binary_literal`. -/
def step (lowered : LoweredSegmentValue) :
    Except String ConcatBuilder := do
  let segment := lowered.segment
  let bare := segment.size.isNone && segment.typeAnn.isNone
  let kind ← classifySegment segment (if bare then some lowered.valueTy else none)
  match kind with
  | .integer width =>
    return builder.push (.integer lowered.value width (astSignednessToIr segment.signedness)
      (astEndiannessToIr segment.endianness) builder.runBits)
  | .float width =>
    return builder.push
      (.float lowered.value width (astEndiannessToIr segment.endianness) builder.runBits)
  | .string byteLength => return builder.push (.string lowered.value byteLength builder.runBits)
  | .splice =>
    let flushed ← flush { builder with hasSplice := true }
    return { flushed with operands := flushed.operands ++ [.splice lowered.value] }

end ConcatBuilder

/-- `lower_binary_literal`, up to the operands `concat_operands` folds; without any it emits an
empty construct. -/
def lowerBinaryLiteral (segments : List LoweredSegmentValue) :
    Except String (List ConcatOperand) := do
  let builder ← segments.foldlM ConcatBuilder.step .empty
  let flushed ← builder.flush
  if flushed.operands.isEmpty then return [ConcatBuilder.emitConstruct [] 0]
  else return flushed.operands

end Koja.Source.Ir
