import Koja.Guarantees.Binary.Extraction
import Koja.Guarantees.Binary.PatternLayout

/-!
# The bytes an accepted pattern reads

No byte of a subject is read by two segments of an accepted pattern. There is therefore a subject
with every literal of the pattern in its place and `0x80` in all other bytes (`matching`), on
which no native test misses.
-/
namespace Koja.Guarantees.Binary

open Koja.Lib Koja.Source Koja.Source.Ir List BitVec
open Koja.Source.Llvm (emitSegmentTest checkSegment)

/-! ## Where the segments lie -/

/-- The whole bytes a segment reads. -/
def byteSpan : LoweredBinaryPattern → Nat
  | .literalInt _ _ _ _ width | .bindInt _ _ _ _ _ width => width.toNat / 8
  | .literalBytes _ bytes => bytes.length
  | .discard .. | .greedyTail .. => 0

/-- The segment reads the byte. -/
def Reads (segment : LoweredBinaryPattern) (i : Nat) : Prop :=
  (patternOffset segment).toNat / 8 ≤ i ∧ i < (patternOffset segment).toNat / 8 + byteSpan segment

section
variable {segments : List LoweredBinaryPattern} {segment other : LoweredBinaryPattern}
  {total start i : Nat}

theorem byteSpan_le (segment : LoweredBinaryPattern) :
    min (8 * byteSpan segment) (2 ^ 64 - 1) ≤ segment.fixedBits.toNat := by
  cases segment with
  | literalBytes => rw [literalBytes_fixedBits]; exact le_rfl
  | _ => simp only [byteSpan, LoweredBinaryPattern.fixedBits]; omega

theorem Laid.start_le (laid : Laid total start segments) : start ≤ total := by
  induction segments generalizing start with
  | nil => exact le_of_eq laid
  | cons _ _ ih => exact le_trans (Nat.le_add_right _ _) (ih laid.2.2.2)

/-- A segment with those laid out after it. -/
theorem Laid.at (laid : Laid total start segments) (inside : segment ∈ segments) :
    start ≤ (patternOffset segment).toNat ∧
    ∃ rest, Laid total (patternOffset segment).toNat (segment :: rest) := by
  induction segments generalizing start with
  | nil => cases inside
  | cons _ rest ih =>
    rcases mem_cons.1 inside with rfl | inside
    · exact ⟨le_of_eq laid.1.symm, rest, laid.1 ▸ laid⟩
    · exact (ih laid.2.2.2 inside).imp_left (le_trans (Nat.le_add_right _ _))

theorem Laid.offset (laid : Laid total start segments) (inside : segment ∈ segments) :
    start ≤ (patternOffset segment).toNat ∧
    (patternOffset segment).toNat + segment.fixedBits.toNat ≤ total :=
  (laid.at inside).imp_right fun ⟨_, here⟩ => here.2.2.2.start_le

theorem Laid.bindsBits (laid : Laid total start segments) (inside : segment ∈ segments) :
    BindsBits segment := by
  obtain ⟨_, rest, here⟩ := laid.at inside
  exact here.2.1

theorem Laid.tail_offset (laid : Laid total start segments) (inside : segment ∈ segments)
    (tail : segment.isGreedyTail = true) :
    (patternOffset segment).toNat = total := by
  obtain ⟨_, rest, _, _, last, here⟩ := laid.at inside
  rw [last tail] at here
  cases segment with
  | greedyTail => exact here
  | _ => cases tail

theorem Laid.tail_unique (laid : Laid total start segments) (inside : segment ∈ segments)
    (among : other ∈ segments)
    (tail : segment.isGreedyTail = true) (otherTail : other.isGreedyTail = true) :
    segment = other := by
  have apart : segments.Pairwise fun a b => ¬ (a.isGreedyTail = true ∧ b.isGreedyTail = true) := by
    clear inside among
    induction segments generalizing start with
    | nil => exact .nil
    | cons head rest ih =>
      refine .cons (fun b later tails => ?_) (ih laid.2.2.2)
      rw [laid.2.2.1 tails.1] at later
      cases later
  have : Std.Symm fun a b : LoweredBinaryPattern =>
      ¬ (a.isGreedyTail = true ∧ b.isGreedyTail = true) := ⟨fun _ _ => mt And.symm⟩
  by_contra differ
  exact apart.forall inside among differ ⟨tail, otherTail⟩

/-- No byte of the fixed part is read by two segments. -/
theorem Laid.reads_unique (laid : Laid total start segments) (small : total < 2 ^ 64)
    (inside : segment ∈ segments)
    (among : other ∈ segments) (reads : Reads segment i) (readsToo : Reads other i)
    (bound : i < total / 8) : segment = other := by
  have apart : segments.Pairwise fun a b => ¬ (Reads a i ∧ Reads b i) := by
    clear inside among
    induction segments generalizing start with
    | nil => exact .nil
    | cons head rest ih =>
      refine .cons (fun later within both => ?_) (ih laid.2.2.2)
      have width := byteSpan_le head
      have := laid.1
      have := laid.2.2.2.offset within
      have := both.1.2
      have := both.2.1
      omega
  have := Std.Symm.mk fun a b => mt (@And.symm (Reads a i) (Reads b i))
  by_contra differ
  exact apart.forall inside among differ ⟨reads, readsToo⟩

theorem eq_greedyTail (tail : segment.isGreedyTail = true) :
    ∃ bitOffset slot ty, segment = .greedyTail bitOffset slot ty := by
  cases segment with
  | greedyTail bitOffset slot ty => exact ⟨bitOffset, slot, ty, rfl⟩
  | _ => cases tail

end

/-! ## A subject with every literal in its place -/

/-- The byte a literal segment asks for at a position. -/
def literalByte (i : Nat) : LoweredBinaryPattern → Option UInt8
  | .literalInt bitOffset endian _ value width =>
    let first := bitOffset.toNat / 8
    if first ≤ i ∧ i < first + width.toNat / 8 then
      some (Eval.valueByte value (Eval.byteSignificance endian (width.toNat / 8) (i - first)))
    else none
  | .literalBytes bitOffset bytes =>
    if bitOffset.toNat / 8 ≤ i then bytes[i - bitOffset.toNat / 8]? else none
  | _ => none

/-- The byte of a subject that matches the literals. -/
def matchingByte (segments : List LoweredBinaryPattern) (i : Nat) : UInt8 :=
  (segments.findSome? (literalByte i)).getD 0x80

/-- The first bytes of a subject that matches the literals. -/
def matching (segments : List LoweredBinaryPattern) (count : Nat) : List UInt8 :=
  (List.range count).map (matchingByte segments)

section
variable {segments : List LoweredBinaryPattern} {segment : LoweredBinaryPattern} {total i : Nat}
  {byte : UInt8}

theorem reads_of_literalByte (found : literalByte i segment = some byte) : Reads segment i := by
  revert found
  fun_cases literalByte i segment with
  | case1 _ _ _ _ _ _ inside => exact fun _ => inside
  | case3 _ _ low =>
    intro found
    obtain ⟨bound, _⟩ := List.getElem?_eq_some_iff.1 found
    exact ⟨low, by simp only [byteSpan, patternOffset]; omega⟩
  | _ => nofun

/-- The bytes a segment reads are the ones it asks for. -/
theorem matchingByte_of_span (laid : Laid total 0 segments) (small : total < 2 ^ 64)
    (inside : segment ∈ segments) {first : Nat} (bound : first + i < total / 8)
    (span : i < byteSpan segment) (place : (patternOffset segment).toNat / 8 = first) :
    matchingByte segments (first + i) = (literalByte (first + i) segment).getD 0x80 := by
  subst place
  unfold matchingByte
  congr 1
  cases first : segments.findSome? (literalByte _) with
  | none => exact (findSome?_eq_none_iff.1 first segment inside).symm
  | some =>
    obtain ⟨chosen, among, chosenByte⟩ := exists_of_findSome?_eq_some first
    obtain rfl := laid.reads_unique small inside among
      ⟨Nat.le_add_right _ _, Nat.add_lt_add_left span _⟩ (reads_of_literalByte chosenByte) bound
    exact chosenByte.symm

/-- A literal's word is the word its bytes assemble to. -/
theorem assembled_literal {bytes : Nat → UInt8} {endian : BinaryEndian} {numBytes : Nat}
    {value : Int} (few : numBytes ≤ 8)
    (literal : ∀ i < numBytes, bytes i = Eval.valueByte value
      (Eval.byteSignificance endian numBytes i)) :
    assembled bytes endian numBytes &&& Llvm.maskForWidth (8 * numBytes) =
      BitVec.ofInt 64 value &&& Llvm.maskForWidth (8 * numBytes) := by
  refine BitVec.eq_of_getLsbD_eq fun bit inWord => ?_
  rw [BitVec.getLsbD_and, BitVec.getLsbD_and, maskForWidth_eq, widthMask_getLsbD inWord]
  by_cases inside : bit < 8 * numBytes
  · have place : byteIndex endian numBytes (bit / 8) < numBytes := by
      cases endian <;> simp only [byteIndex] <;> omega
    have significance : Eval.byteSignificance endian numBytes
        (byteIndex endian numBytes (bit / 8)) = bit / 8 := by
      cases endian with
      | big =>
        simp only [byteIndex, Eval.byteSignificance]
        omega
      | little => simp only [byteIndex, Eval.byteSignificance]
    rw [assembled_getLsbD few inside, literal _ place, significance,
      valueByte_getLsbD (by omega) (Nat.mod_lt _ (by decide))]
    rw [show 8 * (bit / 8) + bit % 8 = bit by omega]
  · simp [inside]

theorem take_drop_eq {payload bytes : List UInt8} {first : Nat}
    (found : ∀ i < bytes.length, payload[first + i]? = bytes[i]?) :
    (payload.drop first).take bytes.length = bytes := by
  refine ext_getElem? fun i => ?_
  rw [getElem?_take]
  split
  · next inside => rw [List.getElem?_drop, found i inside]
  · next outside => rw [List.getElem?_eq_none (by omega)]

theorem aligned_of_accepted {bitOffset width : UInt64} {endian : BinaryEndian}
    {sign : BinarySign} {value : Int}
    (accepted : (checkSegment (.literalInt bitOffset endian sign value width)).isOk = true) :
    bitOffset.toNat % 8 = 0 ∧ width.toNat % 8 = 0 := by
  by_contra odd
  have odd : bitOffset.toNat % 8 ≠ 0 ∨ width.toNat % 8 ≠ 0 := by omega
  simp only [checkSegment, if_pos odd] at accepted
  cases accepted

theorem emitLiteralBytes_hits {payload bytes : List UInt8} {first : Nat}
    (found : first / 8 + bytes.length ≤ payload.length →
      ∀ i < bytes.length, payload[first / 8 + i]? = bytes[i]?) :
    Llvm.emitLiteralBytes payload first bytes ≠ some false := by
  unfold Llvm.emitLiteralBytes
  split
  · simp
  · split
    · next fits => simp [take_drop_eq (found fits)]
    · simp

/-- No literal misses on a subject that starts with the matching bytes. -/
theorem emitSegmentTest_matching {payload : List UInt8} (laid : Laid total 0 segments)
    (small : total < 2 ^ 64) (inside : segment ∈ segments)
    (accepted : (checkSegment segment).isOk = true)
    (starts : ∀ i < total / 8, payload[i]? = some (matchingByte segments i))
    (room : total % 8 = 0 ∨ payload.length ≤ total / 8) :
    emitSegmentTest payload segment ≠ some false := by
  have place := (laid.offset inside).2
  cases segment with
  | literalBytes bitOffset bytes =>
    rw [literalBytes_fixedBits] at place
    simp only [patternOffset] at place
    refine emitLiteralBytes_hits fun fits i bound => ?_
    have within : bitOffset.toNat / 8 + i < total / 8 := by omega
    rw [starts _ within, matchingByte_of_span laid small inside within bound rfl]
    simp [literalByte, bound]
  | literalInt bitOffset endian _ value width =>
    obtain ⟨aligned, whole⟩ := aligned_of_accepted accepted
    simp only [patternOffset, LoweredBinaryPattern.fixedBits] at place
    have found : ∀ i < width.toNat / 8, payload[bitOffset.toNat / 8 + i]? =
        some (Eval.valueByte value (Eval.byteSignificance endian (width.toNat / 8) i)) := by
      intro i bound
      have within : bitOffset.toNat / 8 + i < total / 8 := by omega
      rw [starts _ within, matchingByte_of_span laid small inside within bound rfl]
      simp [literalByte, bound]
    simp only [emitSegmentTest, Llvm.emitLiteralInt]
    split
    · refine emitLiteralBytes_hits fun _ i bound => ?_
      simp only [Llvm.encodeWideLiteral, length_map, length_range] at bound
      rw [found i bound]
      cases endian <;> simp [Llvm.encodeWideLiteral, bound, valueByte_eq, Eval.byteSignificance]
    · have few : width.toNat / 8 ≤ 8 := by omega
      rw [extractInt_eq few found, show width.toNat = 8 * (width.toNat / 8) by omega]
      simp [assembled_literal few fun i _ => rfl]
  | bindInt | discard | greedyTail => simp [emitSegmentTest]

end

end Koja.Guarantees.Binary
