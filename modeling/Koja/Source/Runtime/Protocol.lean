import Mathlib.Data.UInt

/-!
# Process handles and message classes

`koja-runtime-core/src/protocol.rs`, `context.rs`, and the PID packing of
`process_table.rs`. A PID is an `i64` that carries a `u32` slot index in its low
half and a `u32` generation in its high half; generations from `2^31` on make it
negative.
-/
namespace Koja.Source.Runtime

open BitVec

/-- A scheduler-assigned process handle. -/
abbrev Pid := Int64

/-- Nanoseconds on the monotonic clock. -/
abbrev Instant := Nat

variable (index generation : UInt32) (pid : Pid)

/-- Packs a slot index and generation into a PID. -/
def encode : Pid :=
  (generation.toUInt64.toInt64 <<< 32) ||| index.toUInt64.toInt64

/-- Splits a packed PID into slot index and generation. -/
def decode : UInt32 × UInt32 :=
  (pid.toUInt64.toUInt32, (pid >>> 32).toUInt64.toUInt32)

/-- The slot index a PID resolves to. -/
def slotIndex : UInt32 := (decode pid).1

/-- The generation half of a PID. -/
def generationOf : UInt32 := (decode pid).2

private theorem encode_bits : (encode index generation).toBitVec =
      (generation.toBitVec.setWidth 64 <<< 32) ||| index.toBitVec.setWidth 64 := by
  simp [encode]

private theorem slotIndex_bits : (slotIndex pid).toBitVec = pid.toBitVec.setWidth 32 := by
  simp [slotIndex, decode]

private theorem generationOf_bits :
    (generationOf pid).toBitVec = (pid.toBitVec.sshiftRight 32).setWidth 32 := by
  simp [generationOf, decode]

@[simp] theorem slotIndex_encode : slotIndex (encode index generation) = index := by
  apply UInt32.toBitVec_inj.mp
  rw [slotIndex_bits, encode_bits]
  ext bit inRange
  simp

@[simp] theorem generationOf_encode : generationOf (encode index generation) = generation := by
  apply UInt32.toBitVec_inj.mp
  rw [generationOf_bits, encode_bits]
  ext bit inRange
  have within : ¬ 64 ≤ bit := by omega
  have high : 32 + bit < 64 := by omega
  have shifted : ¬ 32 + bit < 32 := by omega
  simp [getLsbD_sshiftRight, high, inRange, within]

/-- Every PID is the packing of its two halves, negative ones included. -/
@[simp] theorem encode_halves : encode (slotIndex pid) (generationOf pid) = pid := by
  apply Int64.toBitVec_inj.mp
  rw [encode_bits, generationOf_bits, slotIndex_bits]
  ext bit inRange
  simp only [getElem_or, getElem_shiftLeft, getElem_setWidth,
    getLsbD_setWidth, getLsbD_sshiftRight]
  by_cases low : bit < 32
  · simp [low, inRange]
  · have back : 32 + (bit - 32) = bit := by omega
    have half : bit - 32 < 32 := by omega
    have within : ¬ 64 ≤ bit - 32 := by omega
    simp [low, back, inRange, half, within]

theorem Pid.ext {p q : Pid} (sameSlot : slotIndex p = slotIndex q)
    (sameGeneration : generationOf p = generationOf q) : p = q := by
  rw [← encode_halves p, ← encode_halves q, sameSlot, sameGeneration]

/-- A generation in the positive half of an `i64` makes the PID the number it packs. -/
theorem toInt_encode {index generation : UInt32} (small : generation.toNat < 2 ^ 31) :
    (encode index generation).toInt = generation.toNat * 2 ^ 32 + index.toNat := by
  have below := index.toNat_lt
  have packed : (encode index generation).toBitVec.toNat =
      generation.toNat * 2 ^ 32 + index.toNat := by
    rw [encode_bits, toNat_or, toNat_shiftLeft, toNat_setWidth,
      toNat_setWidth, UInt32.toNat_toBitVec, UInt32.toNat_toBitVec,
      Nat.mod_eq_of_lt (by omega), Nat.mod_eq_of_lt (by omega), Nat.shiftLeft_eq,
      Nat.mod_eq_of_lt (by omega), Nat.mul_comm, ← Nat.two_pow_add_eq_or_of_lt below]
  change (encode index generation).toBitVec.toInt = _
  rw [toInt_eq_toNat_of_lt (by omega)]
  omega

theorem eq_encode_iff {pid : Pid} {index generation : UInt32} :
    pid = encode index generation ↔ slotIndex pid = index ∧ generationOf pid = generation := by
  constructor
  · rintro rfl
    simp
  · rintro ⟨rfl, rfl⟩
    simp

/-- The per-process request context, four words the runtime only copies. -/
structure Context where
  flags : UInt64
  span : UInt64
  traceHi : UInt64
  traceLo : UInt64
  deriving DecidableEq, Repr

/-- The context a process starts with before anything installs one. -/
def Context.zero : Context := ⟨0, 0, 0, 0⟩

/-- Routing class of a mailbox message. -/
inductive Tag where
  | business | exitSignal | ioReady | lifecycle | reply
  deriving DecidableEq, Repr

/-- A value that can ride a mailbox. The mailbox routes purely by `tag`. -/
class Message (M : Type) where
  tag : M → Tag
  context : M → Context
  replyToken : M → Int64 := fun _ => 0

end Koja.Source.Runtime
