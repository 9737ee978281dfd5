import Koja.Source.Eval.Hash
import Koja.Source.Llvm.BinaryConstruct

/-!
# Hash codes in native code

Source: `koja-ir-llvm/src/intrinsics/hash.rs`. A load past the payload is `none`.
-/
namespace Koja.Source.Llvm

open Koja.Source.Ir

def fnvOffsetBasis : BitVec 64 := 0xcbf29ce484222325
def fnvPrime : BitVec 64 := 0x100000001b3

/-- The loop of `emit_bytes_hash`, `rounds` bytes before the end. -/
def fnvLoop (payload : List UInt8) (idx : Nat) (hash : BitVec 64) : Nat → Option (BitVec 64)
  | 0 => some hash
  | rounds + 1 => do
    let byte ← payload[idx]?
    fnvLoop payload (idx + 1) ((hash ^^^ byte.toBitVec.zeroExtend 64) * fnvPrime) rounds

/-- `emit_bytes_hash`. -/
def emitBytesHash (block : Block) : Option (BitVec 64) :=
  fnvLoop block.payload 0 fnvOffsetBasis (block.bitLength / 8)

/-- `splitmix64`. -/
def splitmix64 (value : BitVec 64) : BitVec 64 :=
  let mul1 := (value ^^^ value >>> 30) * 0xbf58476d1ce4e5b9
  let mul2 := (mul1 ^^^ mul1 >>> 27) * 0x94d049bb133111eb
  mul2 ^^^ mul2 >>> 31

/-- `emit_int_hash`. -/
def emitIntHash {width : Nat} (value : BitVec width) : BitVec 64 :=
  splitmix64 (if width < 64 then value.zeroExtend 64 else value.setWidth 64)

/-- `emit_hash`. -/
def hash : HashImpl → LlvmValue → Option LlvmValue
  | .bool, .int _ value | .int _, .int _ value => some (.int 64 (emitIntHash value))
  | .binary, .pointer block | .string, .pointer block => (emitBytesHash block).map (.int 64)
  | _, _ => none

end Koja.Source.Llvm
