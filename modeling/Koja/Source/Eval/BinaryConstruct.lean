import Koja.Source.Ir.BinaryLiteral

/-!
# Binary construction in the interpreter

Source: `construct_binary_literal` of `koja-ir-eval/src/binary_ops.rs`. The interpreter keeps every
integer as an `i64`, sign- or zero-extended by its type when it is made.
Writes are collected per segment and then applied, so that an index outside the buffer is the
panic of the slice access. The rendering of a value in an error text is left out.
-/
namespace Koja.Source.Eval

open Koja.Lib Koja.Source.Ir

/-- `Value`, as far as the binary operations tell values apart. -/
inductive Value where
  | int (value : BitVec 64)
  | bool (value : Bool)
  | float32 (pattern : BitVec 32)
  | float64 (pattern : BitVec 64)
  | string (bytes : List UInt8)
  | binary (bytes : List UInt8)
  | bits (bytes : List UInt8) (bitLength : Nat)
  | other
  deriving DecidableEq

/-- The bit string a `Binary` or `Bits` value holds. -/
def Value.bitString : Value → Option (List Bool)
  | .binary bytes => some (readBits bytes (8 * bytes.length))
  | .bits bytes bitLength => some (readBits bytes bitLength)
  | _ => none

/-- The interpreter's representation of a value: `Value::Int(v as i64)` for the integers. -/
def valueOf : Datum → Value
  | .int kind pattern =>
    .int (if kind.signed then pattern.signExtend 64 else pattern.setWidth 64)
  | .bool value => .bool value
  | .float32 pattern => .float32 pattern
  | .float64 pattern => .float64 pattern
  | .string bytes => .string bytes
  | .binary bytes => .binary bytes
  | .other => .other

/-- `RuntimeError` and panics. -/
inductive Fault where
  | undefinedValue (id : ValueId)
  | typeMismatch (detail : String)
  | panicked
  deriving DecidableEq, Repr

/-- A panicking computation. -/
def orPanic {α : Type} : Option α → Except Fault α
  | some value => .ok value
  | none => .error .panicked

/-- `Frame::values`. -/
abbrev Frame := ValueId → Option Value

/-- `lookup`. -/
def lookup (frame : Frame) (id : ValueId) : Except Fault Value :=
  match frame id with
  | some value => .ok value
  | none => .error (.undefinedValue id)

variable (conversions : FloatConversions)

/-- The bits of a float segment's value; any other pair of width and value panics. -/
def floatBits (width : UInt64) : Value → Option (BitVec 64)
  | .float32 pattern =>
    if width = 32 then some (pattern.setWidth 64)
    else if width = 64 then some (conversions.widen pattern)
    else none
  | .float64 pattern =>
    if width = 32 then some ((conversions.narrow pattern).setWidth 64)
    else if width = 64 then some pattern
    else none
  | _ => none

/-- `copy_from_slice` of the first `length` bytes to a position; `none` where a slice bound is
outside. -/
def copySlice (bytes : List UInt8) (length startByte : Nat) : Option (List ByteOp) :=
  if length ≤ bytes.length then
    some ((bytes.take length).mapIdx fun i byte => .store (startByte + i) byte)
  else none

/-- The writes of one segment of `construct_binary_literal`. -/
def segmentWrites (frame : Frame) :
    LoweredBinarySegment → Except Fault (List ByteOp)
  | .integer value width _ endian bitOffset => do
      match ← lookup frame value with
      | .int n => orPanic (packIntegerSegment n width.toNat endian bitOffset.toNat)
      | _ => .error (.typeMismatch "binary literal integer segment expected an Int value")
  | .float value width endian bitOffset => do
      let resolved ← lookup frame value
      let bits ← orPanic (floatBits conversions width resolved)
      orPanic (packIntegerSegment bits width.toNat endian bitOffset.toNat)
  | .string value byteLength bitOffset => do
      match ← lookup frame value with
      | .string bytes => orPanic (copySlice bytes byteLength.toNat (bitOffset.toNat / 8))
      | _ => .error (.typeMismatch "binary literal string segment expected a String value")

/-- `construct_binary_literal`. -/
def constructBinaryLiteral (layout : ResolvedBinaryLayout)
    (segments : List LoweredBinarySegment) (frame : Frame) : Except Fault Value := do
  let totalBytes := (layout.totalBits.toNat + 7) / 8
  let buffer ← segments.foldlM (fun buffer segment => do
      let writes ← segmentWrites conversions frame segment
      orPanic (applyOps writes buffer))
    (List.replicate totalBytes 0)
  if layout.byteAligned then return .binary buffer
  else return .bits buffer layout.totalBits.toNat

end Koja.Source.Eval
