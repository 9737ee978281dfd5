import Mathlib.Algebra.Ring.Int.Defs
import Mathlib.Algebra.Ring.Nat
import Koja.Source.Typecheck.Equivalence

/-!
# Segments of binary literals and patterns

Source: `BinarySegment` and its parts in `koja-ast/src/ast.rs`, the literal parser of
`koja-ir/src/lower/ops.rs`, and the string-length helpers both passes repeat. Expressions are
told apart as far as the binary passes look; spans are left out.
-/
namespace Koja.Source.Ast

open Koja.Source.Ir Koja.Source.Typecheck

/-- `StringPart`. -/
inductive StringPart where
  | literal (value : List UInt8)
  | interpolation
  deriving DecidableEq, Repr

inductive BinaryUnit where
  | bit | byte
  deriving DecidableEq, Repr

inductive BinarySignedness where
  | signed | unsigned
  deriving DecidableEq, Repr

inductive BinaryEndianness where
  | big | little
  deriving DecidableEq, Repr

/-- `ExprKind` as a segment value: `negated` is `Unary { op: Neg }`, with the text of its operand
when that is an integer literal. -/
inductive SegmentExprKind where
  | string (parts : List StringPart)
  | ident (name : String) (binding : Option LocalId)
  | intLiteral (text : String)
  | negated (operand : Option String)
  | otherLiteral
  | other
  deriving DecidableEq, Repr

/-- A segment's value expression with its resolved type. -/
structure SegmentExpr where
  kind : SegmentExprKind
  resolution : ResolvedType

/-- A segment's size expression: an integer literal or anything else. -/
inductive SizeExpr where
  | literal (text : String)
  | dynamic
  deriving DecidableEq, Repr

/-- A segment's type annotation: the last name of a `Named` path, or another form. -/
inductive TypeAnn where
  | named (name : String)
  | other
  deriving DecidableEq, Repr

/-- `BinarySegment`. -/
structure BinarySegment where
  value : SegmentExpr
  size : Option SizeExpr
  unit : BinaryUnit
  signedness : Option BinarySignedness
  endianness : Option BinaryEndianness
  typeAnn : Option TypeAnn

/-- The value of a nonempty list of digits in a radix. -/
def parseDigits (radix : Nat) (digit : Char → Option Nat) (text : List Char) : Option Nat :=
  if text = [] then none
  else text.foldlM (fun value c => (digit c).map fun d => value * radix + d) 0

def decimalDigit (c : Char) : Option Nat :=
  if c.isDigit then some (c.toNat - '0'.toNat) else none

def binaryDigit (c : Char) : Option Nat :=
  if c = '0' then some 0 else if c = '1' then some 1 else none

def hexDigit (c : Char) : Option Nat :=
  if c.isDigit then some (c.toNat - '0'.toNat)
  else if 'a' ≤ c ∧ c ≤ 'f' then some (c.toNat - 'a'.toNat + 10)
  else if 'A' ≤ c ∧ c ≤ 'F' then some (c.toNat - 'A'.toNat + 10)
  else none

/-- `str::parse::<u64>`. -/
def parseU64 (text : String) : Option Nat :=
  (parseDigits 10 decimalDigit text.toList).filter (· < 2 ^ 64)

/-- The range check of `i128`. -/
def inI128 (value : Int) : Bool :=
  -(2 : Int) ^ 127 ≤ value ∧ value < (2 : Int) ^ 127

/-- Digits with an optional sign, in the range of `i128`. -/
def parseSigned (radix : Nat) (digit : Char → Option Nat) (text : List Char) : Option Int :=
  match text with
  | '-' :: digits =>
    ((parseDigits radix digit digits).map fun value => -(value : Int)).filter inI128
  | digits => ((parseDigits radix digit digits).map fun value => (value : Int)).filter inI128

/-- `str::parse::<i128>`. -/
def parseI128 (text : String) : Option Int :=
  parseSigned 10 decimalDigit text.toList

/-- `parse_int_literal`. -/
def parseIntLiteral (text : String) : Option Int :=
  match text.toList.filter (· ≠ '_') with
  | '0' :: 'x' :: hex | '0' :: 'X' :: hex => parseSigned 16 hexDigit hex
  | '0' :: 'b' :: bin | '0' :: 'B' :: bin => parseSigned 2 binaryDigit bin
  | cleaned => parseSigned 10 decimalDigit cleaned

/-- `string_segment_bytes`: the bytes of a string value without interpolation. -/
def stringSegmentBytes (segment : BinarySegment) : Option (List UInt8) :=
  match segment.value.kind with
  | .string parts =>
    parts.foldlM (fun bytes part =>
        match part with
        | .literal value => some (bytes ++ value)
        | .interpolation => none)
      []
  | _ => none

/-- `string_segment_byte_length`. -/
def stringSegmentByteLength (segment : BinarySegment) : Option Nat :=
  (stringSegmentBytes segment).map (·.length)

/-- `ast_endianness_to_ir`. -/
def astEndiannessToIr : Option BinaryEndianness → BinaryEndian
  | none | some .big => .big
  | some .little => .little

/-- `ast_signedness_to_ir`. -/
def astSignednessToIr : Option BinarySignedness → BinarySign
  | none | some .unsigned => .unsigned
  | some .signed => .signed

/-- The width a primitive integer name gives a segment. -/
def integerAnnotationWidth (name : String) : Option Nat :=
  if name = "Int8" ∨ name = "UInt8" then some 8
  else if name = "Int16" ∨ name = "UInt16" then some 16
  else if name = "Int32" ∨ name = "UInt32" then some 32
  else if name = "Int64" ∨ name = "UInt64" then some 64
  else none

end Koja.Source.Ast
