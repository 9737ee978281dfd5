import Koja.Source.Ast.BinarySegment

/-!
# Type checking of binary literals

Source: `koja-typecheck/src/pipeline/resolve/literals/binary.rs`. A diagnostic is its text. The
running sums are `u64` additions, so a literal whose widths overflow one is not accepted.
-/
namespace Koja.Source.Typecheck

open Koja.Source.Ast Koja.Source.Ir

/-- `SegmentInfo`: the width of a segment, `none` for a splice. -/
structure SegmentInfo where
  widthBits : Option Nat
  deriving DecidableEq, Repr

/-- `IntSign`. -/
inductive IntSign where
  | signed | unsigned
  deriving DecidableEq, Repr

variable (table : TypeTable) (segment : BinarySegment)

/-- `literal_fits_int_segment`. -/
def literalFitsIntSegment (widthBits : Nat) (sign : IntSign) : Except String Unit :=
  match segment.value.kind with
  | .intLiteral text =>
    match parseI128 text with
    | none => .ok ()
    | some value =>
      if widthBits = 0 ∨ 127 < widthBits then .ok ()
      else
        let low : Int := match sign with
          | .signed => -(2 : Int) ^ (widthBits - 1)
          | .unsigned => 0
        let high : Int := match sign with
          | .signed => (2 : Int) ^ (widthBits - 1) - 1
          | .unsigned => (2 : Int) ^ widthBits - 1
        let label := match sign with
          | .signed => "signed"
          | .unsigned => "unsigned"
        if low ≤ value ∧ value ≤ high then .ok ()
        else .error ("value `" ++ toString value ++ "` does not fit in " ++
          toString widthBits ++ " " ++ label ++ " bits")
  | _ => .ok ()

/-- `splice_segment_info`. -/
def spliceSegmentInfo : Except String SegmentInfo :=
  if !table.isPrimitive "Binary" segment.value.resolution then
    .error "a `: Binary` splice segment requires a `Binary`-typed value"
  else if segment.signedness.isSome || segment.endianness.isSome then
    .error ("a `Binary` splice segment cannot carry `signed` / `unsigned` or endianness " ++
      "modifiers")
  else .ok ⟨none⟩

/-- The width a `::N` size gives. -/
def sizedWidth (size : SizeExpr) (unit : BinaryUnit) : Except String Nat :=
  match size with
  | .dynamic =>
    .error ("typecheck does not yet support dynamic-width binary segments " ++
      "(`::n` where `n` is not a literal int)")
  | .literal text =>
    match parseU64 text with
    | none => .error ("invalid binary segment size literal `" ++ text ++ "`")
    | some bits =>
      match unit with
      | .bit => .ok bits
      | .byte => .ok (min (bits * 8) (2 ^ 64 - 1))

/-- `resolve_segment` for a `::N` segment. -/
def resolveSized (size : SizeExpr) : Except String SegmentInfo := do
  let widthBits ← sizedWidth size segment.unit
  if widthBits = 0 then throw "a binary segment must carry at least 1 bit"
  if !table.isPrimitive "Int" segment.value.resolution then
    throw "`::N` segment size requires an `Int`-typed value"
  literalFitsIntSegment segment widthBits .unsigned
  return ⟨some widthBits⟩

/-- `resolve_segment` for a segment with a `: Type` annotation. -/
def resolveAnnotated (typeAnn : TypeAnn) : Except String SegmentInfo :=
  match typeAnn with
  | .other => .error "binary segment type annotation must be a primitive name"
  | .named name =>
    if name = "Binary" then spliceSegmentInfo table segment
    else if name = "Float32" ∨ name = "Float64" then
      match segment.value.kind with
      | .intLiteral _ =>
        .error ("binary segment value does not match the segment's declared shape " ++
          "(integer segments take int literals, float segments take float literals)")
      | _ => .ok ⟨some (if name = "Float32" then 32 else 64)⟩
    else
      match integerAnnotationWidth name with
      | some width => do
          let signed := name = "Int8" ∨ name = "Int16" ∨ name = "Int32" ∨ name = "Int64"
          literalFitsIntSegment segment width (if signed then .signed else .unsigned)
          return ⟨some width⟩
      | none =>
        if name = "Bits" ∨ name = "String" then
          .error ("`" ++ name ++ "` values cannot be spliced into a binary construction " ++
            "(only `Binary` splices are supported, convert with `.to_binary()` first)")
        else
          .error ("binary segment type annotation `" ++ name ++ "` is not a recognized " ++
            "primitive (expected one of Int8/16/32/64, UInt8/16/32/64, Float32, Float64, " ++
            "Binary)")

/-- `resolve_segment`. -/
def resolveSegment : Except String SegmentInfo :=
  match stringSegmentByteLength segment with
  | some byteLength =>
    if segment.size.isSome || segment.typeAnn.isSome then
      .error ("a `String`-valued binary segment cannot carry a `::N` size or `:Type` " ++
        "annotation")
    else .ok ⟨some (byteLength * 8)⟩
  | none =>
    match segment.size, segment.typeAnn with
    | some size, _ => resolveSized table segment size
    | none, some typeAnn => resolveAnnotated table segment typeAnn
    | none, none =>
      if table.isPrimitive "Binary" segment.value.resolution then
        spliceSegmentInfo table segment
      else if !table.isPrimitive "Int" segment.value.resolution then
        .error ("bare binary segment requires an `Int`-typed value (packed as 8 unsigned " ++
          "bits) or a `Binary`-typed value (spliced whole); use a `: Type` / `::N` " ++
          "modifier to spell out any other segment shape")
      else do
        literalFitsIntSegment segment 8 .unsigned
        return ⟨some 8⟩

/-- The walk of `resolve_binary_literal`. -/
structure LiteralWalk where
  totalBits : Nat
  runBits : Nat
  hasSplice : Bool
  diagnostics : List String
  deriving Repr

/-- `unaligned_run_diagnostic`. -/
def unalignedRunDiagnostic : String :=
  "the fixed-width segments around a `Binary` splice must total whole bytes"

/-- One segment of `resolve_binary_literal`; `none` where a `u64` sum overflows. -/
def LiteralWalk.step (walk : LiteralWalk) (segment : BinarySegment) : Option LiteralWalk :=
  match resolveSegment table segment with
  | .ok ⟨some bits⟩ =>
    if walk.totalBits + bits < 2 ^ 64 ∧ walk.runBits + bits < 2 ^ 64 then
      some { walk with totalBits := walk.totalBits + bits, runBits := walk.runBits + bits }
    else none
  | .ok ⟨none⟩ =>
    let diagnostics :=
      if walk.runBits % 8 = 0 then walk.diagnostics
      else walk.diagnostics ++ [unalignedRunDiagnostic]
    some { walk with runBits := 0, hasSplice := true, diagnostics }
  | .error text => some { walk with diagnostics := walk.diagnostics ++ [text] }

/-- The primitive `resolve_binary_literal` gives the literal, or its diagnostics. -/
def resolveBinaryLiteral (segments : List BinarySegment) :
    Option (Except (List String) String) := do
  let walk ← segments.foldlM (LiteralWalk.step table) ⟨0, 0, false, []⟩
  let diagnostics :=
    if walk.hasSplice ∧ walk.runBits % 8 ≠ 0 then walk.diagnostics ++ [unalignedRunDiagnostic]
    else walk.diagnostics
  if diagnostics ≠ [] then return .error diagnostics
  else if walk.hasSplice ∨ walk.totalBits % 8 = 0 then return .ok "Binary"
  else return .ok "Bits"

end Koja.Source.Typecheck
