import Koja.Source.Eval.BinaryConstruct
import Koja.Source.Ir.BinaryPattern

/-!
# Binary matching in the interpreter

Source: `execute_binary_match` and its helpers in `koja-ir-eval/src/binary_ops.rs`. A match
returns `none` when it fails and otherwise the values it binds, in order; what a failed match
has already bound is not observed. An index or slice bound outside the subject and a shift of a
`u64` by 64 or more are panics.
-/
namespace Koja.Source.Eval

open Koja.Lib Koja.Source.Ir

/-- `value << shift` on a `u64`. -/
def shiftLeft (value : BitVec 64) (shift : Nat) : Option (BitVec 64) :=
  if shift < 64 then some (value <<< shift) else none

variable (bytes : List UInt8) (width : Nat) (endian : BinaryEndian) (startBit : Nat)

/-- `width_mask`. -/
def widthMask : BitVec 64 :=
  if 64 ≤ width then BitVec.allOnes 64 else 1#64 <<< width - 1#64

/-- `extract_integer_segment`. -/
def extractIntegerSegment : Option (BitVec 64) :=
  if width = 0 then some 0
  else if startBit % 8 = 0 ∧ width % 8 = 0 then
    let numBytes := width / 8
    let startByte := startBit / 8
    if startByte + numBytes ≤ bytes.length then
      (List.range numBytes).foldlM (fun value i => do
          let byte ← bytes[startByte + i]?
          let shifted ← shiftLeft (byte.toBitVec.setWidth 64) (byteShift endian numBytes i)
          some (value ||| shifted))
        0
    else none
  else
    (List.range width).foldlM (fun value i => do
        let byte ← bytes[(startBit + i) / 8]?
        some (value <<< 1 ||| (BitVec.ofBool (bitOf byte ((startBit + i) % 8))).setWidth 64))
      0

/-- The byte of a literal at a significance, with sign fill past its 128 bits. -/
def valueByte (value : Int) (significance : Nat) : UInt8 :=
  if 16 ≤ significance then (if value < 0 then 0xFF else 0x00)
  else UInt8.ofBitVec (BitVec.ofInt 8 (value >>> (significance * 8)))

/-- The significance of byte `i` among `numBytes`. -/
def byteSignificance (numBytes i : Nat) : Nat :=
  match endian with
  | .little => i
  | .big => numBytes - 1 - i

/-- `literal_segment_matches`. -/
def literalSegmentMatches (value : Int) : Option Bool :=
  if width ≤ 64 then do
    let extracted ← extractIntegerSegment bytes width endian startBit
    some (extracted = BitVec.ofInt 64 value &&& widthMask width)
  else if startBit % 8 = 0 ∧ width % 8 = 0 then
    (List.range (width / 8)).allM fun i => do
      let byte ← bytes[startBit / 8 + i]?
      some (byte = valueByte value (byteSignificance endian (width / 8) i))
  else
    (List.range width).allM fun i => do
      let byte ← bytes[(startBit + i) / 8]?
      let significance := width - 1 - i
      some (bitOf byte ((startBit + i) % 8) =
        (valueByte value (significance / 8)).toBitVec.getLsbD (significance % 8))

/-- `sign_interpret`. -/
def signInterpret (value : BitVec 64) (width : Nat) (sign : BinarySign) : BitVec 64 :=
  match sign with
  | .unsigned => value
  | .signed =>
    if width = 0 ∨ 64 ≤ width then value
    else if value &&& 1#64 <<< (width - 1) ≠ 0 then value ||| ~~~(widthMask width)
    else value

/-- `bytes[start..end]`. -/
def slice (start length : Nat) : Option (List UInt8) :=
  if start + length ≤ bytes.length then some ((bytes.drop start).take length) else none

/-- `extract_bit_range`. -/
def extractBitRange (length : Nat) : Option (List UInt8) :=
  let byteCount := (length + 7) / 8
  if startBit % 8 = 0 then do
    let out ← slice bytes (startBit / 8) byteCount
    if length % 8 = 0 then some out
    else
      let last := out.length - 1
      let byte ← out[last]?
      some (out.set last (byte &&& ~~~((0xFF : UInt8) >>> UInt8.ofNat (length % 8))))
  else do
    let set ← (List.range length).filterM fun i => do
      let byte ← bytes[(startBit + i) / 8]?
      some (bitOf byte ((startBit + i) % 8))
    applyOps (set.map .setBit) (List.replicate byteCount 0)

/-- One segment: `none` when its literal does not match, otherwise what it binds. -/
def matchSegment (bitLength : Nat) :
    LoweredBinaryPattern → Except Fault (Option (List (IRLocalId × Value)))
  | .literalInt bitOffset endian _ value width => do
      let matches? ← orPanic (literalSegmentMatches bytes width.toNat endian bitOffset.toNat value)
      return if matches? then some [] else none
  | .literalBytes bitOffset expected => do
      let found ← orPanic (slice bytes (bitOffset.toNat / 8) expected.length)
      return if found = expected then some [] else none
  | .bindInt bitOffset endian slot sign _ width => do
      let extracted ← orPanic (extractIntegerSegment bytes width.toNat endian bitOffset.toNat)
      return some [(slot, .int (signInterpret extracted width.toNat sign))]
  | .discard .. => return some []
  | .greedyTail _ none _ => return some []
  | .greedyTail bitOffset (some slot) .binary => do
      if bitOffset.toNat / 8 ≤ bytes.length then
        return some [(slot, .binary (bytes.drop (bitOffset.toNat / 8)))]
      else throw .panicked
  | .greedyTail bitOffset (some slot) .bits => do
      let length := bitLength - bitOffset.toNat
      let tail ← orPanic (extractBitRange bytes bitOffset.toNat length)
      return some [(slot, .bits tail length)]
  | .greedyTail _ (some _) _ => throw .panicked

/-- The loop over the segments. -/
def matchSegments (bytes : List UInt8) (bitLength : Nat) :
    List LoweredBinaryPattern → Except Fault (Option (List (IRLocalId × Value)))
  | [] => .ok (some [])
  | segment :: rest => do
      match ← matchSegment bytes bitLength segment with
      | none => return none
      | some bound =>
        let others ← matchSegments bytes bitLength rest
        return others.map (bound ++ ·)

/-- `execute_binary_match`. -/
def executeBinaryMatch (layout : LoweredBinaryMatchLayout) (segments : List LoweredBinaryPattern)
    (subject : Value) : Except Fault (Option (List (IRLocalId × Value))) := do
  let (bytes, bitLength) ← match subject with
    | .binary bytes | .string bytes => pure (bytes, 8 * bytes.length)
    | .bits bytes bitLength => pure (bytes, bitLength)
    | _ => throw (.typeMismatch "binary match expects a Binary/Bits/String subject")
  let lengthOk : Bool :=
    if layout.hasGreedyTail then layout.fixedBits.toNat ≤ bitLength
    else bitLength = layout.fixedBits.toNat
  if lengthOk then matchSegments bytes bitLength segments else return none

end Koja.Source.Eval
