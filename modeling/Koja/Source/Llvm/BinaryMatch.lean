import Koja.Source.Ir.BinaryPattern
import Koja.Source.Llvm.BinaryConstruct

/-!
# Binary matching in native code

Source: `koja-ir-llvm/src/emit/binary_match.rs`. Code generation can refuse a segment
(`checkSegment`); the code it generates is the run below. A load outside the subject, a shift
of an `i64` by 64 or more and a comparison past the subject are undefined, `none` here. Lengths
are natural numbers, as the length gate keeps the subtractions from wrapping.
-/
namespace Koja.Source.Llvm

open Koja.Lib Koja.Source.Ir

/-- What a pattern binds: an integer of the slot's declared type, or a fresh tail block. -/
inductive Bound where
  | int (kind : IntKind) (pattern : BitVec kind.width)
  | tail (block : Block)
  deriving DecidableEq

/-- What emission refuses, with `narrow_to_ir_type`'s panic among it. -/
def checkSegment : LoweredBinaryPattern → Except String Unit
  | .literalInt bitOffset _ _ _ width =>
    if bitOffset.toNat % 8 ≠ 0 ∨ width.toNat % 8 ≠ 0 then
      .error ("LLVM emit: sub-byte binary literal pattern segment (bit_offset=" ++
        toString bitOffset ++ ", width=" ++ toString width ++ ") is not yet supported")
    else .ok ()
  | .bindInt bitOffset _ _ _ ty width =>
    if bitOffset.toNat % 8 ≠ 0 ∨ width.toNat % 8 ≠ 0 then
      .error ("LLVM emit: sub-byte binary binding pattern segment (bit_offset=" ++
        toString bitOffset ++ ", width=" ++ toString width ++ ") is not yet supported")
    else
      match IntKind.ofIRType ty with
      | some _ => .ok ()
      | none => .error "LLVM emit: binary pattern binding cannot narrow into IR type"
  | .greedyTail bitOffset _ _ =>
    if bitOffset.toNat % 8 ≠ 0 then
      .error ("LLVM emit: sub-byte binary greedy-tail segment (bit_offset=" ++
        toString bitOffset ++ ") is not yet supported")
    else .ok ()
  | .discard .. | .literalBytes .. => .ok ()

/-- Code generation accepts the pattern. -/
def accepts (segments : List LoweredBinaryPattern) : Bool :=
  segments.all fun segment => (checkSegment segment).isOk

/-- `shl i64`. -/
def shl (value : BitVec 64) (shift : Nat) : Option (BitVec 64) :=
  if shift < 64 then some (value <<< shift) else none

variable (value : Int) (payload : List UInt8) (bitOffset : Nat)

/-- `extract_int`. -/
def extractInt (byteOffset : Nat) (endian : BinaryEndian) (numBytes : Nat) : Option (BitVec 64) :=
  (List.range numBytes).foldlM (fun result i => do
      let byte ← payload[byteOffset + i]?
      let shifted ← shl (byte.toBitVec.zeroExtend 64) (byteShift endian numBytes i)
      some (result ||| shifted))
    0

/-- `mask_for_width`. -/
def maskForWidth (width : Nat) : BitVec 64 :=
  if 64 ≤ width then BitVec.allOnes 64 else 1#64 <<< width - 1#64

/-- The byte of a literal at a significance, with sign fill past its 128 bits. -/
def valueByte (significance : Nat) : UInt8 :=
  if 16 ≤ significance then (if value < 0 then 0xFF else 0x00)
  else UInt8.ofBitVec (BitVec.ofInt 8 (value >>> (significance * 8)))

/-- `encode_wide_literal`. -/
def encodeWideLiteral (numBytes : Nat) (endian : BinaryEndian) : List UInt8 :=
  (List.range numBytes).map fun i =>
    valueByte value (match endian with | .little => i | .big => numBytes - 1 - i)

/-- `emit_literal_bytes`. -/
def emitLiteralBytes (bytes : List UInt8) : Option Bool :=
  if bytes.isEmpty then some true
  else if bitOffset / 8 + bytes.length ≤ payload.length then
    some ((payload.drop (bitOffset / 8)).take bytes.length = bytes)
  else none

/-- `emit_literal_int`, for a segment that `checkSegment` accepts. -/
def emitLiteralInt (endian : BinaryEndian) (value : Int) (width : Nat) : Option Bool :=
  if 64 < width then
    emitLiteralBytes payload bitOffset (encodeWideLiteral value (width / 8) endian)
  else do
    let extracted ← extractInt payload (bitOffset / 8) endian (width / 8)
    some (extracted &&& maskForWidth width = BitVec.ofInt 64 value &&& maskForWidth width)

/-- `emit_segment_test`. -/
def emitSegmentTest : LoweredBinaryPattern → Option Bool
  | .literalInt bitOffset endian _ value width =>
    emitLiteralInt payload bitOffset.toNat endian value width.toNat
  | .literalBytes bitOffset bytes => emitLiteralBytes payload bitOffset.toNat bytes
  | .bindInt .. | .discard .. | .greedyTail .. => some true

/-- `extend_for_sign`. -/
def extendForSign (extracted : BitVec 64) (sign : BinarySign) (width : Nat) : BitVec 64 :=
  if sign ≠ .signed ∨ width = 0 ∨ 64 ≤ width then extracted
  else (extracted <<< (64 - width)).sshiftRight (64 - width)

/-- `emit_greedy_tail`: the whole bytes past the prefix, under the exact bit count. -/
def emitGreedyTail (bitLength bitOffset : Nat) : Option Block :=
  let prefixBytes := bitOffset / 8
  let remainingBytes := bitLength / 8 - prefixBytes
  if prefixBytes + remainingBytes ≤ payload.length then
    some ⟨bitLength - bitOffset, (payload.drop prefixBytes).take remainingBytes⟩
  else none

/-- `emit_segment_bind`. -/
def emitSegmentBind (bitLength : Nat) : LoweredBinaryPattern → Option (List (IRLocalId × Bound))
  | .literalInt .. | .literalBytes .. | .discard .. => some []
  | .bindInt bitOffset endian slot sign ty width => do
      let extracted ← extractInt payload (bitOffset.toNat / 8) endian (width.toNat / 8)
      let kind ← IntKind.ofIRType ty
      some [(slot, .int kind ((extendForSign extracted sign width.toNat).truncate kind.width))]
  | .greedyTail _ none _ => some []
  | .greedyTail bitOffset (some slot) _ => do
      let block ← emitGreedyTail payload bitLength bitOffset.toNat
      some [(slot, .tail block)]

/-- `length_check`. -/
def lengthCheck (layout : LoweredBinaryMatchLayout) (byteLength : Nat) : Bool :=
  if layout.hasGreedyTail then layout.fixedBits.toNat / 8 ≤ byteLength
  else byteLength = layout.fixedBits.toNat / 8

/-- `emit_binary_match`: every test, then every bind on the matched path. -/
def emitBinaryMatch (layout : LoweredBinaryMatchLayout) (segments : List LoweredBinaryPattern)
    (subject : Block) : Option (Option (List (IRLocalId × Bound))) := do
  if lengthCheck layout (subject.bitLength / 8) then
    let tests ← segments.mapM (emitSegmentTest subject.payload)
    if tests.all id then
      let bound ← segments.mapM (emitSegmentBind subject.payload subject.bitLength)
      some (some bound.flatten)
    else some none
  else some none

end Koja.Source.Llvm
