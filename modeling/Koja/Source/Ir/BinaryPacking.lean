import Mathlib.Algebra.Ring.Int.Defs
import Mathlib.Algebra.Ring.Nat
import Koja.Lib.ByteBuffer
import Koja.Source.Ir.Types

/-!
# Packing of binary segments

Source: `koja-ir/src/binary_packing.rs`. The packers return the writes they make, in order; `none`
is a failure, a shift of a `u64` by 64 or more or a `u32` product that overflows, where a build with
overflow checks panics.
The language values a segment can pack stand beside them, with the bit patterns the program
computes: the backends represent them in their own ways.
-/
namespace Koja.Source.Ir

open Koja.Lib

/-- The integer types. -/
inductive IntKind where
  | int8 | int16 | int32 | int64 | uInt8 | uInt16 | uInt32 | uInt64
  deriving DecidableEq, Repr

namespace IntKind

def width : IntKind → Nat
  | .int8 | .uInt8 => 8
  | .int16 | .uInt16 => 16
  | .int32 | .uInt32 => 32
  | .int64 | .uInt64 => 64

def signed : IntKind → Bool
  | .int8 | .int16 | .int32 | .int64 => true
  | .uInt8 | .uInt16 | .uInt32 | .uInt64 => false

/-- The integer type of an IR type. -/
def ofIRType : IRType → Option IntKind
  | .int8 => some .int8
  | .int16 => some .int16
  | .int32 => some .int32
  | .int64 => some .int64
  | .uInt8 => some .uInt8
  | .uInt16 => some .uInt16
  | .uInt32 => some .uInt32
  | .uInt64 => some .uInt64
  | _ => none

end IntKind

/-- A value of the language, by its type and bit pattern; `other` is a value of any type the
binary operations have no case for. -/
inductive Datum where
  | int (kind : IntKind) (pattern : BitVec kind.width)
  | bool (value : Bool)
  | float32 (pattern : BitVec 32)
  | float64 (pattern : BitVec 64)
  | string (bytes : List UInt8)
  | binary (bytes : List UInt8)
  | other
  deriving DecidableEq

/-- The value is a negative number of a signed type. -/
def Datum.negative : Datum → Bool
  | .int kind pattern => kind.signed && pattern.msb
  | _ => false

/-- The machine's conversions between the two floating-point formats, on bit patterns: `as f32`
and `f64::from` in the interpreter, `fptrunc` and `fpext` in native code. -/
structure FloatConversions where
  narrow : BitVec 64 → BitVec 32
  widen : BitVec 32 → BitVec 64

/-- `value >> shift` on a `u64`. A shift by 64 or more counts as a failure in every build: it panics
with overflow checks, without them its amount is masked to another shift, and native code's is
poison. -/
def shiftRight (value : BitVec 64) (shift : Nat) : Option (BitVec 64) :=
  if shift < 64 then some (value >>> shift) else none

/-- The byte `(value >> shift) as u8`. -/
def byteOf (value : BitVec 64) (shift : Nat) : Option UInt8 :=
  (shiftRight value shift).map fun shifted => UInt8.ofBitVec (shifted.setWidth 8)

/-- The shift of byte `i` among `numBytes`. -/
def byteShift (endian : BinaryEndian) (numBytes i : Nat) : Nat :=
  match endian with
  | .little => i * 8
  | .big => (numBytes - 1 - i) * 8

/-- The loop of `pack_bits_into`: the writes for the bits of `value` from bit `i` of the segment
on, `remaining` of them being left. -/
def packBitsFrom (value : BitVec 64) (width startBit : Nat) : (i remaining : Nat) →
    Option (List ByteOp)
  | _, 0 => some []
  | i, remaining + 1 => do
      let shifted ← shiftRight value (width - 1 - i)
      let rest ← packBitsFrom value width startBit (i + 1) remaining
      if shifted.getLsbD 0 then some (.setBit (startBit + i) :: rest) else some rest

/-- `pack_bits_into`. -/
def packBitsInto (value : BitVec 64) (width startBit : Nat) : Option (List ByteOp) :=
  packBitsFrom value width startBit 0 width

/-- `pack_integer_segment`; the shift is a `u32`. -/
def packIntegerSegment (value : BitVec 64) (width : Nat) (endian : BinaryEndian)
    (startBit : Nat) : Option (List ByteOp) :=
  if width = 0 then some []
  else if startBit % 8 = 0 ∧ width % 8 = 0 then
    let numBytes := width / 8
    (List.range numBytes).mapM fun i =>
      if byteShift endian numBytes i < 2 ^ 32 then
        (byteOf value (byteShift endian numBytes i)).map (.store (startBit / 8 + i))
      else none
  else packBitsInto value width startBit

end Koja.Source.Ir
