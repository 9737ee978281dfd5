import Koja.Source.Ast.BinarySegment
import Koja.Source.Ir.BinaryPacking

/-!
# Lowering of binary patterns

Source: `koja-ir/src/lower/binary_match.rs`. `none` is the panic on a binding without a local, or
on an annotation that names no stdlib type. A segment the classifier does not know is skipped, as
the source does. Only the primitive types are told apart as binding types.
-/
namespace Koja.Source.Ir

open Koja.Source.Ast

/-- `resolved_type_to_ir_type` of a primitive. -/
def primitiveIRType (name : String) : Option IRType :=
  match name with
  | "Int8" => some .int8
  | "Int16" => some .int16
  | "Int32" => some .int32
  | "Int64" | "Int" => some .int64
  | "UInt8" => some .uInt8
  | "UInt16" => some .uInt16
  | "UInt32" => some .uInt32
  | "UInt64" => some .uInt64
  | "Float32" => some .float32
  | "Float64" | "Float" => some .float64
  | "Binary" => some .binary
  | "Bits" => some .bits
  | "Bool" => some .bool
  | "String" => some .string
  | "Unit" => some .unit
  | _ => none

variable (segment : BinarySegment)

/-- The type `resolve_binding_type` gave a binding, lowered. -/
def bindingIRType : Option IRType :=
  match segment.typeAnn with
  | some (.named name) => primitiveIRType name
  | _ => primitiveIRType "Int"

/-- `segment_fixed_width` of the lowering. -/
def segmentFixedWidth : Option UInt64 :=
  match segment.size, segment.typeAnn with
  | some (.literal text), _ => (parseIntLiteral text).map fun value =>
    UInt64.ofNat (value % 2 ^ 64).toNat
  | some .dynamic, _ => none
  | none, some (.named name) => (integerAnnotationWidth name).map UInt64.ofNat
  | none, _ => some 8

/-- `lower_greedy_tail`. -/
def lowerGreedyTail (bitOffset : UInt64) :
    Option LoweredBinaryPattern := do
  match segment.size, segment.typeAnn with
  | none, some (.named name) =>
    let ty ← if name = "Binary" then some .binary else if name = "Bits" then some .bits else none
    match segment.value.kind with
    | .ident _ (some binding) => some (.greedyTail bitOffset (some binding) ty)
    | .ident name none => if name = "_" then some (.greedyTail bitOffset none ty) else none
    | _ => none
  | _, _ => none

/-- The literal of a segment, by `parse_int_literal`. -/
def literalValue : SegmentExprKind → Option Int
  | .intLiteral text => parseIntLiteral text
  | .negated (some text) => (parseIntLiteral text).map (-·)
  | _ => none

/-- `lower_segment`: `none` for a panic, `some none` for a segment that is skipped. -/
def lowerPatternSegment (bitOffset : UInt64) :
    Option (Option LoweredBinaryPattern) :=
  match stringSegmentBytes segment, lowerGreedyTail segment bitOffset,
      segmentFixedWidth segment with
  | some bytes, _, _ => some (some (.literalBytes bitOffset bytes))
  | none, some tail, _ => some (some tail)
  | none, none, none => some none
  | none, none, some width =>
    let endian := astEndiannessToIr segment.endianness
    let sign := astSignednessToIr segment.signedness
    match segment.value.kind with
    | .ident name binding =>
      if name = "_" then some (some (.discard bitOffset width))
      else do
        let slot ← binding
        let ty ← bindingIRType segment
        return some (.bindInt bitOffset endian slot sign ty width)
    | kind => some ((literalValue kind).map fun value =>
      .literalInt bitOffset endian sign value width)

/-- The bits a lowered segment adds to the offset. -/
def LoweredBinaryPattern.fixedBits : LoweredBinaryPattern → UInt64
  | .greedyTail .. => 0
  | .literalInt _ _ _ _ width | .bindInt _ _ _ _ _ width | .discard _ width => width
  | .literalBytes _ bytes => UInt64.ofNat (min (bytes.length * 8) (2 ^ 64 - 1))

def LoweredBinaryPattern.isGreedyTail : LoweredBinaryPattern → Bool
  | .greedyTail .. => true
  | _ => false

/-- The loop of `lower_binary_pattern`. -/
def lowerPatternSegments (layout : LoweredBinaryMatchLayout) :
    List BinarySegment → Option (LoweredBinaryMatchLayout × List LoweredBinaryPattern)
  | [] => some (layout, [])
  | segment :: rest => do
      match ← lowerPatternSegment segment layout.fixedBits with
      | none => lowerPatternSegments layout rest
      | some lowered =>
        let (final, others) ← lowerPatternSegments ⟨layout.fixedBits + lowered.fixedBits,
            layout.hasGreedyTail || lowered.isGreedyTail⟩ rest
        return (final, lowered :: others)

/-- `lower_binary_pattern`. -/
def lowerBinaryPattern (segments : List BinarySegment) :
    Option (LoweredBinaryMatchLayout × List LoweredBinaryPattern) :=
  lowerPatternSegments ⟨0, false⟩ segments

end Koja.Source.Ir
