import Koja.Source.Ast.BinarySegment

/-!
# Type checking of binary patterns

Source: `koja-typecheck/src/pipeline/resolve/patterns/binary.rs`. A diagnostic is its text. The
resolver hands out local ids in order, so declaring a binding is taking the next one; the
segments are returned with the locals they bind. The running sum is a `u64` addition, so a
pattern whose widths overflow it is not accepted.
-/
namespace Koja.Source.Typecheck

open Koja.Source.Ast Koja.Source.Ir

/-- `is_binary_or_bits_annotation`. -/
def isBinaryOrBitsAnnotation : TypeAnn → Bool
  | .named name => name = "Binary" ∨ name = "Bits"
  | .other => false

/-- `segment_fixed_width` of a pattern. -/
def patternFixedWidth (segment : BinarySegment) : Except String Nat :=
  match segment.size, segment.typeAnn with
  | some size, _ =>
    if segment.unit = .byte then
      .error ("typecheck does not support `::N byte` segment sizes in binary patterns " ++
        "(use `::M` bits instead)")
    else
      match size with
      | .dynamic =>
        .error ("typecheck does not yet support dynamic-width binary pattern segments " ++
          "(`::n` where `n` is not a literal int)")
      | .literal text =>
        match parseU64 text with
        | none => .error ("invalid binary segment size literal `" ++ text ++ "`")
        | some bits =>
          if bits = 0 then .error "a binary segment must carry at least 1 bit"
          else .ok bits
  | none, some .other =>
    .error "binary pattern segment type annotation must be a primitive name"
  | none, some (.named name) =>
    match integerAnnotationWidth name with
    | some width => .ok width
    | none =>
      if name = "Float32" ∨ name = "Float64" then
        .error ("typecheck does not yet support float-extract binary pattern segments " ++
          "(use a sized integer or an unsigned bit width)")
      else
        .error ("binary pattern segment type annotation `" ++ name ++ "` is not a " ++
          "recognized primitive (expected one of Int8/16/32/64, UInt8/16/32/64)")
  | none, none => .ok 8

/-- The value `check_literal_overflow` checks. -/
def overflowValue : SegmentExprKind → Option Int
  | .intLiteral text => parseI128 text
  | .negated (some text) => (parseI128 text).map (-·)
  | _ => none

/-- `check_literal_overflow`. -/
def checkLiteralOverflow (kind : SegmentExprKind) (bits : Nat)
    (signedness : Option BinarySignedness) : List String :=
  if bits = 0 ∨ 64 < bits then []
  else
    match overflowValue kind with
    | none => []
    | some value =>
      if signedness = some .signed then
        let min : Int := -(2 : Int) ^ (bits - 1)
        let max : Int := (2 : Int) ^ (bits - 1) - 1
        if value < min ∨ max < value then
          [toString value ++ " does not fit in " ++ toString bits ++ " signed bits (range " ++
            toString min ++ ".." ++ toString max ++ ")"]
        else []
      else
        let max : Int := (2 : Int) ^ bits - 1
        if value < 0 ∨ max < value then
          [toString value ++ " does not fit in " ++ toString bits ++
            " unsigned bits (range 0.." ++ toString max ++ ")"]
        else []

/-- `check_orphan_modifiers`. -/
def checkOrphanModifiers (segment : BinarySegment) : List String :=
  let orphan := segment.size.isNone && segment.typeAnn.isNone
  (if segment.signedness.isSome && orphan then
    ["signedness modifier requires a size specifier (`::N`)"] else []) ++
  if segment.endianness.isSome && orphan then
    ["endianness modifier requires a size specifier (`::N`)"] else []

/-- The walk of `resolve_binary_pattern`. -/
structure PatternWalk where
  totalFixedBits : Nat
  hasGreedy : Bool
  nextLocal : LocalId
  diagnostics : List String
  resolved : List BinarySegment

namespace PatternWalk

variable (walk : PatternWalk) (segment : BinarySegment)

def report (texts : List String) : PatternWalk :=
  { walk with diagnostics := walk.diagnostics ++ texts }

/-- The segment as it was written. -/
def keep : PatternWalk :=
  { walk with resolved := walk.resolved ++ [segment] }

/-- The segment as a binding of the next local. -/
def bind (name : String) (segment : BinarySegment) : PatternWalk :=
  { walk with
    nextLocal := walk.nextLocal + 1
    resolved := walk.resolved ++ [{ segment with
        value := { segment.value with kind := .ident name (some walk.nextLocal) } }] }

/-- A `u64` addition to the fixed bits. -/
def advance (bits : Nat) : Option PatternWalk :=
  if walk.totalFixedBits + bits < 2 ^ 64 then
    some { walk with totalFixedBits := walk.totalFixedBits + bits }
  else none

/-- `check_greedy_tail`; `none` where it returns `false`. -/
def checkGreedyTail (isLast : Bool) (segment : BinarySegment) : Option PatternWalk :=
  match segment.size, segment.typeAnn with
  | none, some (.named name) =>
    if ! isBinaryOrBitsAnnotation (.named name) then none
    else if !isLast then
      some ((walk.report
        ["greedy rest segment (`: Binary` / `: Bits`) must be the last segment of a binary " ++
          "pattern"]).keep segment)
    else if name = "Binary" ∧ walk.totalFixedBits % 8 ≠ 0 then
      some ((walk.report ["`: Binary` rest requires a byte-aligned prefix, got " ++
        toString walk.totalFixedBits ++ " fixed bits"]).keep segment)
    else
      match segment.value.kind with
      | .ident ident _ =>
        if ident ≠ "_" then some (walk.bind ident segment) else some (walk.keep segment)
      | _ => some ((walk.report
          ["greedy rest segment must be an identifier binding (or `_`)"]).keep segment)
  | _, _ => none

/-- The fixed-width part of `resolve_segment`. -/
def resolveFixed : Option PatternWalk :=
  match patternFixedWidth segment with
  | .error text => some ((walk.report [text]).keep segment)
  | .ok width =>
    let walk := walk.report (checkOrphanModifiers segment)
    match segment.value.kind with
    | .ident name _ =>
      if name = "_" then (walk.keep segment).advance width
      else (walk.bind name segment).advance width
    | .intLiteral _ | .otherLiteral | .negated _ =>
      ((walk.report (checkLiteralOverflow segment.value.kind width segment.signedness)).keep
        segment).advance width
    | .string _ | .other =>
      some ((walk.report
        ["binary pattern segment must be a literal, an identifier binding, `_`, or a " ++
          "string literal"]).keep segment)

/-- `resolve_segment` of a pattern; `none` where the sum overflows. The guard that follows
`check_greedy_tail` in the source repeats a test that function has already made. -/
def resolveSegment (isLast : Bool) (segment : BinarySegment) : Option PatternWalk :=
  match stringSegmentByteLength segment with
  | some byteLength =>
    if segment.size.isSome || segment.typeAnn.isSome then
      some ((walk.report ["a `String`-valued binary pattern segment cannot carry a `::N` " ++
        "size or `:Type` annotation"]).keep segment)
    else (walk.keep segment).advance (min (byteLength * 8) (2 ^ 64 - 1))
  | none =>
    match walk.checkGreedyTail isLast segment with
    | some tail =>
      some { (if walk.hasGreedy then
          tail.report ["a binary pattern allows at most one greedy rest segment"]
        else tail) with hasGreedy := true }
    | none => walk.resolveFixed segment

end PatternWalk

/-- The loop of `resolve_binary_pattern`. -/
def resolvePatternSegments (walk : PatternWalk) : List BinarySegment → Option PatternWalk
  | [] => some walk
  | segment :: rest => do
      let next ← walk.resolveSegment rest.isEmpty segment
      resolvePatternSegments next rest

/-- `resolve_binary_pattern`: the resolved segments, or the diagnostics. -/
def resolveBinaryPattern (table : TypeTable) (subjectTy : ResolvedType) (firstLocal : LocalId)
    (segments : List BinarySegment) : Option (Except (List String) (List BinarySegment)) :=
  if subjectTy.isResolved && !(table.isPrimitive "Binary" subjectTy ||
      table.isPrimitive "Bits" subjectTy) then
    some (.error ["binary pattern requires `Binary` or `Bits` subject, got `" ++
      table.displayResolution subjectTy ++ "`"])
  else do
    let walk ← resolvePatternSegments ⟨0, false, firstLocal, [], []⟩ segments
    if walk.diagnostics ≠ [] then return .error walk.diagnostics
    else return .ok walk.resolved

end Koja.Source.Typecheck
