import Koja.Source.Eval.BinaryConstruct

/-!
# Hash codes in the interpreter

Source: `koja-ir-eval/src/intrinsics/hash.rs`, with `HashImpl` of `koja-ir/src/intrinsic_id.rs`.
An operand of another type than the cell's, which typechecking excludes, is `none`.
-/
namespace Koja.Source

/-- `HashImpl`. -/
inductive Ir.HashImpl where
  | binary | bool | int (kind : Ir.IntKind) | string
  deriving DecidableEq

namespace Eval

open Koja.Source.Ir

def fnvOffsetBasis : BitVec 64 := 0xcbf29ce484222325
def fnvPrime : BitVec 64 := 0x100000001b3

/-- `fnv1a`. -/
def fnv1a (bytes : List UInt8) : BitVec 64 :=
  bytes.foldl (fun hash byte => (hash ^^^ byte.toBitVec.setWidth 64) * fnvPrime) fnvOffsetBasis

/-- `splitmix64`. -/
def splitmix64 (value : BitVec 64) : BitVec 64 :=
  let z := value + 0x9E3779B97F4A7C15
  let z := (z ^^^ z >>> 30) * 0xBF58476D1CE4E5B9
  let z := (z ^^^ z >>> 27) * 0x94D049BB133111EB
  z ^^^ z >>> 31

/-- `hash::dispatch`. -/
def hash : HashImpl → Value → Option Value
  | .binary, .binary bytes => some (.int (fnv1a bytes))
  | .bool, .bool value => some (.int (splitmix64 ((BitVec.ofBool value).setWidth 64)))
  | .int _, .int value => some (.int (splitmix64 value))
  | .string, .string bytes => some (.int (fnv1a bytes))
  | _, _ => none

end Eval

end Koja.Source
