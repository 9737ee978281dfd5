import Mathlib.Algebra.Ring.Int.Defs
import Mathlib.Algebra.Ring.Nat
import Mathlib.Logic.Function.Iterate

/-!
# Checksums

Source: `lib/global/src/checksum.koja`. An `Int` is its 64 bits, and `none` is a trap.
-/
namespace Koja.Source.Stdlib.Checksum

def crc32Polynomial : BitVec 64 := 0xEDB88320
def crc32cPolynomial : BitVec 64 := 0x82F63B78
def crcInitial : BitVec 64 := 0xFFFFFFFF

/-- One round of the loop over the bits. -/
def bitStep (polynomial crc : BitVec 64) : BitVec 64 :=
  if crc &&& 1 = 1 then polynomial ^^^ crc.sshiftRight 1 else crc.sshiftRight 1

/-- One round of the loop over the bytes. -/
def byteStep (polynomial crc : BitVec 64) (byte : BitVec 8) : BitVec 64 :=
  (bitStep polynomial)^[8] (crc ^^^ byte.setWidth 64)

/-- The next rounds of the loop over the bytes, from `index` on. -/
def byteLoop (data : List (BitVec 8)) (polynomial : BitVec 64) :
    Nat → Nat → BitVec 64 → Option (BitVec 64)
  | 0, _, crc => some crc
  | rounds + 1, index, crc => do
    let byte ← data[index]?
    byteLoop data polynomial rounds (index + 1) (byteStep polynomial crc byte)

/-- `Int.to_uint32`, unwrapped. -/
def toUint32 (value : BitVec 64) : Option (BitVec 32) :=
  if 0 ≤ value.toInt ∧ value.toInt < 2 ^ 32 then some (value.setWidth 32) else none

/-- `Checksum.calculate`. -/
def calculate (data : List (BitVec 8)) (polynomial : BitVec 64) : Option (BitVec 32) := do
  let crc ← byteLoop data polynomial data.length 0 crcInitial
  toUint32 (crc ^^^ crcInitial)

/-- `Checksum.crc32`. -/
def crc32 (data : List (BitVec 8)) : Option (BitVec 32) :=
  calculate data crc32Polynomial

/-- `Checksum.crc32c`. -/
def crc32c (data : List (BitVec 8)) : Option (BitVec 32) :=
  calculate data crc32cPolynomial

end Koja.Source.Stdlib.Checksum
