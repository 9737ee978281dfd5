import Koja.Source.Ir.BinaryLiteral

/-!
# Binary construction in native code

Source: `koja-ir-llvm/src/emit/binary_construct.rs` and `__koja_pack_bits` of
`koja-runtime-posix/src/intrinsics.rs`. Code generation and execution are one step here: a shift
of an `i64` by 64 or more is poison, an access outside the block is undefined behaviour, and a
value of an LLVM type the emitter does not expect is a panic of the compiler. All three are
`none`.
-/
namespace Koja.Source.Llvm

open Koja.Lib Koja.Source.Ir

/-- A heap block of the `String` / `Binary` / `Bits` family: its length header and payload. -/
structure Block where
  bitLength : Nat
  payload : List UInt8
  deriving DecidableEq

/-- The bit string a block holds. -/
def Block.bitString (block : Block) : List Bool :=
  readBits block.payload block.bitLength

/-- The block of a whole number of bytes. -/
def Block.ofBytes (bytes : List UInt8) : Block :=
  ⟨8 * bytes.length, bytes⟩

/-- An LLVM value: an integer of its own width, a float, the block a string or binary pointer
refers to, or anything else. -/
inductive LlvmValue where
  | int (width : Nat) (value : BitVec width)
  | float (pattern : BitVec 32)
  | double (pattern : BitVec 64)
  | pointer (block : Block)
  | other
  deriving DecidableEq

/-- The native representation of a value; `Bool` is an `i1`. -/
def valueOf : Datum → LlvmValue
  | .int kind pattern => .int kind.width pattern
  | .bool value => .int 1 (BitVec.ofBool value)
  | .float32 pattern => .float pattern
  | .float64 pattern => .double pattern
  | .string bytes | .binary bytes => .pointer (.ofBytes bytes)
  | .other => .other

/-- `ValueMap`. -/
abbrev ValueMap := ValueId → Option LlvmValue

/-- `lookup_int_widened`. -/
def lookupIntWidened (values : ValueMap) (id : ValueId) : Option (BitVec 64) := do
  match ← values id with
  | .int width value =>
    if width < 64 then some (value.zeroExtend 64)
    else if 64 < width then some (value.truncate 64)
    else some (value.setWidth 64)
  | _ => none

variable (conversions : FloatConversions)

/-- `float_value_as_i64`. -/
def floatValueAsI64 (values : ValueMap) (id : ValueId) (width : UInt64) : Option (BitVec 64) := do
  let raw ← values id
  if width = 32 then
    match raw with
    | .float pattern => some (pattern.zeroExtend 64)
    | .double pattern => some ((conversions.narrow pattern).zeroExtend 64)
    | _ => none
  else if width = 64 then
    match raw with
    | .double pattern => some pattern
    | .float pattern => some (conversions.widen pattern)
    | _ => none
  else none

/-- `emit_byte_packed_int`. -/
def emitBytePackedInt (value : BitVec 64) (width : Nat) (endian : BinaryEndian)
    (byteOffset : Nat) : Option (List ByteOp) :=
  let numBytes := width / 8
  (List.range numBytes).mapM fun i =>
    (byteOf value (byteShift endian numBytes i)).map (.store (byteOffset + i))

/-- `__koja_pack_bits`. -/
def kojaPackBits (value : BitVec 64) (width : UInt8) (bitOffset : Nat) : Option (List ByteOp) :=
  if width = 0 then some []
  else packBitsFrom value width.toNat bitOffset 0 width.toNat

/-- `pack_bits_segment`: the width is passed as an `i8` constant. -/
def packBitsSegment (value : BitVec 64) (width : Nat) (bitOffset : Nat) :
    Option (List ByteOp) :=
  kojaPackBits value (UInt8.ofNat width) bitOffset

/-- `memcpy` of `length` bytes; reading past the payload is undefined. -/
def memcpy (payload : List UInt8) (length startByte : Nat) : Option (List ByteOp) :=
  if length ≤ payload.length then
    some ((payload.take length).mapIdx fun i byte => .store (startByte + i) byte)
  else none

/-- `emit_segment`. -/
def emitSegment (values : ValueMap) :
    LoweredBinarySegment → Option (List ByteOp)
  | .integer value width _ endian bitOffset => do
      let intValue ← lookupIntWidened values value
      if bitOffset.toNat % 8 = 0 ∧ width.toNat % 8 = 0 then
        emitBytePackedInt intValue width.toNat endian (bitOffset.toNat / 8)
      else packBitsSegment intValue width.toNat bitOffset.toNat
  | .float value width endian bitOffset => do
      let intValue ← floatValueAsI64 conversions values value width
      emitBytePackedInt intValue width.toNat endian (bitOffset.toNat / 8)
  | .string value byteLength bitOffset => do
      match ← values value with
      | .pointer block => memcpy block.payload byteLength.toNat (bitOffset.toNat / 8)
      | _ => none

/-- `emit_binary_construct`: the payload is zeroed before the segments are packed. -/
def emitBinaryConstruct (layout : ResolvedBinaryLayout)
    (segments : List LoweredBinarySegment) (values : ValueMap) : Option Block := do
  let totalBytes := (layout.totalBits.toNat + 7) / 8
  let payload ← segments.foldlM (fun payload segment => do
      let writes ← emitSegment conversions values segment
      applyOps writes payload)
    (List.replicate totalBytes 0)
  return ⟨layout.totalBits.toNat, payload⟩

end Koja.Source.Llvm
