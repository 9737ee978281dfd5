import Koja.Lib.Traverse
import Koja.Source.Eval.BinaryConstruct
import Koja.Source.Llvm.BinaryConstruct

/-!
# What the segment packers write

The three packers, `pack_integer_segment`, `emit_byte_packed_int` and `__koja_pack_bits`, make
the same writes for a segment of at most 64 bits (`segmentOps`): whole bytes for an aligned
segment, single bits otherwise. The writes depend only on the low bits of the value, stay
inside the segment, and leave the value's bits there in the order `laidBit` gives.
-/
namespace Koja.Guarantees.Binary

open Koja.Lib Koja.Source.Ir Koja.Source.Llvm List

variable (value : BitVec 64)

/-- The byte of a value at a shift. -/
def byteAt (shift : Nat) : UInt8 :=
  UInt8.ofBitVec ((value >>> shift).setWidth 8)

/-- The stores of a segment's bytes. -/
def storeOps (width : Nat) (endian : BinaryEndian) (byteOffset : Nat) :
    List ByteOp :=
  (List.range (width / 8)).map fun i =>
    .store (byteOffset + i) (byteAt value (byteShift endian (width / 8) i))

/-- The positions of a segment's set bits. -/
def setPositions (width startBit : Nat) : List Nat :=
  ((List.range width).filter fun i => value.getLsbD (width - 1 - i)).map (startBit + ·)

/-- The writes of a segment. -/
def segmentOps (width : Nat) (endian : BinaryEndian) (startBit : Nat) :
    List ByteOp :=
  if startBit % 8 = 0 ∧ width % 8 = 0 then storeOps value width endian (startBit / 8)
  else (setPositions value width startBit).map .setBit

/-- The bit of the value that a segment's position holds. -/
def laidBit (width : Nat) (endian : BinaryEndian) (startBit i : Nat) : Nat :=
  if startBit % 8 = 0 ∧ width % 8 = 0 ∧ endian = .little then 8 * (i / 8) + (7 - i % 8)
  else width - 1 - i

section
variable {value other : BitVec 64} {width startBit : Nat} {endian : BinaryEndian}

theorem byteShift_lt {numBytes i : Nat} (inside : i < numBytes) :
    byteShift endian numBytes i + 8 ≤ 8 * numBytes := by
  cases endian <;> simp only [byteShift] <;> omega

theorem byteOf_some {shift : Nat} (small : shift < 64) :
    byteOf value shift = some (byteAt value shift) := by
  simp [byteOf, shiftRight, small, byteAt]

theorem byteOf_none {shift : Nat} (large : 64 ≤ shift) : byteOf value shift = none := by
  simp [byteOf, shiftRight, Nat.not_lt.2 large]

/-- The loop of the bit packers, from any of its rounds. -/
theorem packBitsFrom_eq (small : width ≤ 64) {i remaining : Nat} (left : i + remaining = width) :
    packBitsFrom value width startBit i remaining =
      some ((((range' i remaining).filter fun j => value.getLsbD (width - 1 - j)).map
        (startBit + ·)).map .setBit) := by
  induction remaining generalizing i with
  | zero => rfl
  | succ _ ih =>
    have inRange : width - 1 - i < 64 := by omega
    rw [packBitsFrom, shiftRight, if_pos inRange, ih (by omega), range'_succ]
    by_cases bit : value.getLsbD (width - 1 - i) = true <;> simp [bit]

/-- A packer shifts by one less than the width in its first round. -/
theorem packBitsFrom_none (large : 64 < width) :
    packBitsFrom value width startBit 0 width = none := by
  obtain ⟨remaining, rfl⟩ : ∃ remaining, width = remaining + 1 := ⟨width - 1, by omega⟩
  have ranged : ¬ remaining + 1 - 1 - 0 < 64 := by omega
  rw [packBitsFrom, shiftRight, if_neg ranged]
  rfl

theorem emitBytePackedInt_eq (small : width ≤ 64) {byteOffset : Nat} :
    emitBytePackedInt value width endian byteOffset =
      some (storeOps value width endian byteOffset) := by
  refine mapM_some_of_forall fun i inside => ?_
  have bound := @byteShift_lt endian _ _ (mem_range.1 inside)
  rw [byteOf_some (by omega)]
  rfl

theorem packIntegerSegment_eq (small : width ≤ 64) :
    packIntegerSegment value width endian startBit =
      some (segmentOps value width endian startBit) := by
  unfold packIntegerSegment segmentOps
  split
  case isTrue empty =>
    subst empty
    simp [storeOps, setPositions]
  case isFalse =>
    split
    case isTrue =>
      refine mapM_some_of_forall fun i inside => ?_
      have bound := @byteShift_lt endian _ _ (mem_range.1 inside)
      rw [if_pos (by omega), byteOf_some (by omega)]
      rfl
    case isFalse =>
      rw [packBitsInto, packBitsFrom_eq small (Nat.zero_add _), ← range_eq_range']
      rfl

theorem packIntegerSegment_none (large : 64 < width) :
    packIntegerSegment value width endian startBit = none := by
  unfold packIntegerSegment
  rw [if_neg (by omega)]
  split
  case isTrue aligned =>
    -- the byte with the highest shift fails
    obtain ⟨item, inside, shift⟩ : ∃ item < width / 8, 64 ≤ byteShift endian (width / 8) item := by
      cases endian
      · exact ⟨0, by omega, by simp only [byteShift]; omega⟩
      · exact ⟨width / 8 - 1, by omega, by simp only [byteShift]; omega⟩
    refine @mapM_none_of_mem _ _ _ item _ ?_ (mem_range.mpr inside)
    rw [byteOf_none shift]
    split <;> rfl
  case isFalse => exact packBitsFrom_none large

theorem packBitsSegment_eq (small : width ≤ 64) : packBitsSegment value width startBit =
      some ((setPositions value width startBit).map .setBit) := by
  have kept : (UInt8.ofNat width).toNat = width := by
    rw [UInt8.toNat_ofNat']
    omega
  unfold packBitsSegment kojaPackBits
  split
  case isTrue empty =>
    have : width = 0 := by rw [← kept, empty]; rfl
    subst this
    rfl
  case isFalse =>
    rw [kept, packBitsFrom_eq small (Nat.zero_add _), ← range_eq_range']
    rfl

theorem byteAt_bit {shift position : Nat} (inside : position < 8) :
    bitOf (byteAt value shift) position = value.getLsbD (shift + (7 - position)) := by
  have low : 7 - position < 8 := by omega
  simp [bitOf, byteAt, low]

/-- The writes depend on the low bits of the value only. -/
theorem segmentOps_congr (same : ∀ bit < width, value.getLsbD bit = other.getLsbD bit) :
    segmentOps value width endian startBit = segmentOps other width endian startBit := by
  unfold segmentOps
  split
  · refine map_congr_left fun i inside => ?_
    have bound := @byteShift_lt endian _ _ (mem_range.1 inside)
    have bytes : byteAt value (byteShift endian (width / 8) i) =
        byteAt other (byteShift endian (width / 8) i) := by
      refine bitOf_ext fun position small => ?_
      rw [byteAt_bit small, byteAt_bit small]
      exact same _ (by omega)
    rw [bytes]
  · unfold setPositions
    congr 2
    refine filter_congr fun i inside => ?_
    have bound := mem_range.1 inside
    rw [same _ (by omega)]

theorem storeOps_within {byteOffset : Nat} (aligned : startBit = 8 * byteOffset) :
    ∀ op ∈ storeOps value width endian byteOffset, op.Within startBit width := by
  intro op inside
  obtain ⟨i, bound, rfl⟩ := mem_map.1 inside
  have bound := mem_range.1 bound
  exact ⟨by omega, by omega⟩

/-- Byte stores from the byte a segment starts in stay inside it only if it is aligned. -/
theorem aligned_of_storeOps_within (bytes : 8 ≤ width)
    (within : ∀ op ∈ storeOps value width endian (startBit / 8), op.Within startBit width) :
    startBit % 8 = 0 := by
  have first := within _ (mem_map_of_mem (mem_range.2 (show 0 < width / 8 by omega)))
  have low : startBit ≤ 8 * (startBit / 8 + 0) := first.1
  omega

theorem segmentOps_within :
    ∀ op ∈ segmentOps value width endian startBit, op.Within startBit width := by
  unfold segmentOps
  split
  case isTrue aligned => exact storeOps_within (by omega)
  case isFalse =>
    intro op inside
    obtain ⟨position, set, rfl⟩ := mem_map.1 inside
    obtain ⟨i, kept, rfl⟩ := mem_map.1 set
    have bound := mem_range.1 (mem_filter.1 kept).1
    exact ⟨by omega, by omega⟩

/-- A packed segment holds the value's low bits, in the order of `laidBit`. -/
theorem segmentOps_bits {buffer after : List UInt8} {i : Nat}
    (applied : applyOps (segmentOps value width endian startBit) buffer = some after)
    (clear : bitAt buffer (startBit + i) = false) (inside : i < width) :
    bitAt after (startBit + i) = value.getLsbD (laidBit width endian startBit i) := by
  unfold segmentOps at applied
  split at applied
  case isTrue aligned =>
    rw [applyOps_stores applied (by omega) (by omega), byteAt_bit (by omega)]
    congr 1
    unfold laidBit
    cases endian
    · rw [if_neg (by simp)]
      simp only [byteShift]
      omega
    · rw [if_pos ⟨aligned.1, aligned.2, rfl⟩]
      simp only [byteShift]
      omega
  case isFalse unaligned =>
    rw [applyOps_setBits applied, clear]
    unfold laidBit
    rw [if_neg fun aligned => unaligned ⟨aligned.1, aligned.2.1⟩]
    simp [setPositions, inside]

/-- The highest bit a segment takes from its value has a place in it. -/
theorem laidBit_top (positive : 0 < width) :
    ∃ i < width, laidBit width endian startBit i = width - 1 := by
  unfold laidBit
  by_cases little : startBit % 8 = 0 ∧ width % 8 = 0 ∧ endian = .little
  · exact ⟨width - 8, by omega, by rw [if_pos little]; omega⟩
  · exact ⟨0, positive, by rw [if_neg little]; omega⟩

end

end Koja.Guarantees.Binary
