import Koja.Guarantees.Binary.Construct
import Koja.Source.Eval.BinaryMatch
import Koja.Source.Llvm.BinaryMatch
import Mathlib.Tactic.IntervalCases

/-!
# What the segment readers read

`extract_integer_segment` on whole bytes and `extract_int` assemble the same word from the
bytes of a segment (`assembled`), which `extend_for_sign` and `sign_interpret` then extend
alike. The word reaches the binding unchanged when the declared type holds every value of the
segment (`Fits`), and a segment of `0x80` bytes tells the backends apart otherwise.
-/
namespace Koja.Guarantees.Binary

open Koja.Lib Koja.Source Koja.Source.Ir List

/-- The word that a segment's bytes form. -/
def assembled (bytes : Nat → UInt8) (endian : BinaryEndian) (numBytes : Nat) : BitVec 64 :=
  (List.range numBytes).foldl
    (fun word i => word ||| (bytes i).toBitVec.setWidth 64 <<< byteShift endian numBytes i) 0

/-- The byte of a segment that holds the bits of a significance. -/
def byteIndex (endian : BinaryEndian) (numBytes significance : Nat) : Nat :=
  match endian with
  | .little => significance
  | .big => numBytes - 1 - significance

section
variable {bytes : Nat → UInt8} {endian : BinaryEndian} {numBytes : Nat}

theorem extractInt_eq {payload : List UInt8} {byteOffset : Nat} (small : numBytes ≤ 8)
    (found : ∀ i < numBytes, payload[byteOffset + i]? = some (bytes i)) :
    Llvm.extractInt payload byteOffset endian numBytes =
      some (assembled bytes endian numBytes) := by
  refine foldlM_some (fun i inside word => ?_) 0
  have bound := @byteShift_lt endian _ _ (mem_range.1 inside)
  rw [found i (mem_range.1 inside)]
  simp [Llvm.shl, show byteShift endian numBytes i < 64 by omega]

theorem extractIntegerSegment_eq {subject : List UInt8} {startBit : Nat} (small : numBytes ≤ 8)
    (aligned : startBit % 8 = 0)
    (found : ∀ i < numBytes, subject[startBit / 8 + i]? = some (bytes i)) :
    Eval.extractIntegerSegment subject (8 * numBytes) endian startBit =
      some (assembled bytes endian numBytes) := by
  unfold Eval.extractIntegerSegment
  by_cases noBytes : numBytes = 0
  · subst noBytes
    rfl
  · have inside : startBit / 8 + numBytes ≤ subject.length := by
      obtain ⟨last, _⟩ := List.getElem?_eq_some_iff.1 (found (numBytes - 1) (by omega))
      omega
    rw [if_neg (by omega), if_pos ⟨aligned, by omega⟩]
    rw [show 8 * numBytes / 8 = numBytes by omega, if_pos inside]
    refine foldlM_some (fun i inside word => ?_) 0
    have bound := @byteShift_lt endian _ _ (mem_range.1 inside)
    rw [found i (mem_range.1 inside)]
    simp [Eval.shiftLeft, show byteShift endian numBytes i < 64 by omega]

/-- A segment of more than eight bytes is not read by the interpreter. -/
theorem extractIntegerSegment_none {subject : List UInt8} {startBit width : Nat}
    (large : 64 < width) (aligned : startBit % 8 = 0) (whole : width % 8 = 0) :
    Eval.extractIntegerSegment subject width endian startBit = none := by
  unfold Eval.extractIntegerSegment
  rw [if_neg (by omega), if_pos ⟨aligned, whole⟩]
  dsimp only
  split
  · let item := match endian with | .little => width / 8 - 1 | .big => 0
    have shift : ¬byteShift endian (width / 8) item < 64 := by
      cases endian <;> simp only [item, byteShift] <;> omega
    refine @foldlM_none _ _ _ item _ (fun word => ?_) ?_ 0
    · simp [Eval.shiftLeft, shift]
    · cases endian <;> simp only [item, mem_range] <;> omega
  · rfl

theorem foldl_or_getLsbD {items : List Nat} {shift : Nat → Nat} {bit : Nat} (small : bit < 64)
    (start : BitVec 64) :
    (items.foldl (fun word i => word ||| (bytes i).toBitVec.setWidth 64 <<< shift i)
        start).getLsbD bit =
      (start.getLsbD bit || items.any fun i =>
        decide (shift i ≤ bit) && (bytes i).toBitVec.getLsbD (bit - shift i)) := by
  induction items generalizing start with
  | nil => simp
  | cons i _ ih =>
    rw [foldl_cons, ih, any_cons, BitVec.getLsbD_or, BitVec.getLsbD_shiftLeft,
      BitVec.getLsbD_setWidth, Bool.or_assoc]
    have near : bit - shift i < 64 := by omega
    have order : (!decide (bit < shift i)) = decide (shift i ≤ bit) := by
      rw [← decide_not]
      exact decide_eq_decide.2 Nat.not_lt
    rw [order, decide_eq_true small, decide_eq_true near, Bool.true_and, Bool.true_and]

theorem byteShift_byteIndex {significance : Nat} (inside : significance < numBytes) :
    byteShift endian numBytes (byteIndex endian numBytes significance) = 8 * significance := by
  cases endian <;> simp only [byteShift, byteIndex] <;> omega

/-- Each bit of the word is a bit of the byte of its significance. -/
theorem assembled_getLsbD (small : numBytes ≤ 8) {bit : Nat} (inside : bit < 8 * numBytes) :
    (assembled bytes endian numBytes).getLsbD bit =
      (bytes (byteIndex endian numBytes (bit / 8))).toBitVec.getLsbD (bit % 8) := by
  unfold assembled
  rw [foldl_or_getLsbD (by omega)]
  have here : byteIndex endian numBytes (bit / 8) < numBytes := by
    cases endian <;> simp only [byteIndex] <;> omega
  have shift := @byteShift_byteIndex endian numBytes (bit / 8) (by omega)
  rw [Bool.eq_iff_iff]
  simp only [BitVec.ofNat_eq_ofNat, BitVec.getLsbD_zero, Bool.false_or, any_eq_true,
    mem_range, Bool.and_eq_true, decide_eq_true_eq]
  constructor
  · rintro ⟨i, bound, low, set⟩
    have near : bit - byteShift endian numBytes i < 8 := by
      by_contra far
      rw [BitVec.getLsbD_of_ge _ _ (by omega)] at set
      cases set
    have same : i = byteIndex endian numBytes (bit / 8) ∧
        bit - byteShift endian numBytes i = bit % 8 := by
      cases endian <;> simp only [byteShift] at * <;> omega
    rw [← same.1, ← same.2]
    exact set
  · intro set
    refine ⟨_, here, by omega, ?_⟩
    rwa [shift, show bit - 8 * (bit / 8) = bit % 8 by omega]

theorem assembled_high {bit : Nat} (outside : 8 * numBytes ≤ bit) :
    (assembled bytes endian numBytes).getLsbD bit = false := by
  by_cases small : bit < 64
  · unfold assembled
    rw [foldl_or_getLsbD small]
    simp only [BitVec.ofNat_eq_ofNat, BitVec.getLsbD_zero, Bool.false_or, any_eq_false,
      mem_range, Bool.and_eq_true, not_and, Bool.not_eq_true]
    intro i bound _
    have := @byteShift_lt endian numBytes i bound
    exact BitVec.getLsbD_of_ge _ _ (by omega)
  · exact BitVec.getLsbD_of_ge _ _ (by omega)

end

/-! ## Masks and literals -/

theorem widthMask_getLsbD {width bit : Nat} (small : bit < 64) :
    (Eval.widthMask width).getLsbD bit = decide (bit < width) := by
  unfold Eval.widthMask
  split
  · rw [BitVec.getLsbD_allOnes]
    exact decide_eq_decide.2 (by omega)
  · have mask : 1#64 <<< width - 1#64 = BitVec.ofNat 64 (2 ^ width - 1) := by
      apply BitVec.eq_of_toNat_eq
      have positive : 0 < 2 ^ width := Nat.two_pow_pos width
      rw [BitVec.toNat_sub, BitVec.toNat_shiftLeft, BitVec.toNat_ofNat, BitVec.toNat_ofNat]
      omega
    rw [mask, BitVec.getLsbD_ofNat]
    simp [small]

theorem maskForWidth_eq (width : Nat) : Llvm.maskForWidth width = Eval.widthMask width :=
  rfl

theorem valueByte_eq (value : Int) (significance : Nat) :
    Llvm.valueByte value significance = Eval.valueByte value significance :=
  rfl

/-- The bytes of a literal are those of its two's complement word. -/
theorem valueByte_getLsbD {value : Int} {significance bit : Nat} (low : significance < 8)
    (inside : bit < 8) :
    (Eval.valueByte value significance).toBitVec.getLsbD bit =
      (BitVec.ofInt 64 value).getLsbD (8 * significance + bit) := by
  have word : BitVec.ofInt 8 (value >>> (significance * 8)) =
      (BitVec.ofInt 64 value >>> (8 * significance)).setWidth 8 := by
    apply BitVec.eq_of_toNat_eq
    simp only [BitVec.toNat_ofInt, BitVec.toNat_setWidth, BitVec.toNat_ushiftRight,
      Int.shiftRight_eq_div_pow]
    interval_cases significance <;> simp only [Nat.reducePow] <;> omega
  unfold Eval.valueByte
  rw [if_neg (by omega), word]
  simp [inside]

/-! ## Signs and declared types -/

/-- The bit of a segment's value once its sign is extended. -/
def extendedBit (word : BitVec 64) (sign : BinarySign) (width bit : Nat) : Bool :=
  if bit < width then word.getLsbD bit else decide (sign = .signed) && word.getLsbD (width - 1)

section
variable {word : BitVec 64} {sign : BinarySign} {width bit : Nat}

theorem signInterpret_getLsbD (clean : ∀ bit, width ≤ bit → word.getLsbD bit = false)
    (positive : 0 < width) (small : bit < 64) :
    (Eval.signInterpret word width sign).getLsbD bit = extendedBit word sign width bit := by
  unfold Eval.signInterpret extendedBit
  cases sign with
  | unsigned =>
    by_cases inside : bit < width
    · simp [inside]
    · rw [if_neg inside, clean bit (by omega)]
      rfl
  | signed =>
    by_cases wide : 64 ≤ width
    · rw [if_pos (.inr wide), if_pos (by omega)]
    · rw [if_neg (by omega)]
      have signBit : word &&& 1#64 <<< (width - 1) ≠ 0 ↔ word.getLsbD (width - 1) = true := by
        rw [← Bool.not_eq_false, not_iff_not]
        constructor
        · intro zero
          have := congrArg (BitVec.getLsbD · (width - 1)) zero
          simpa [show width - 1 < 64 by omega]
            using this
        · intro unset
          refine BitVec.eq_of_getLsbD_eq fun i _ => ?_
          rw [BitVec.getLsbD_and]
          by_cases here : i = width - 1
          · rw [here, unset]
            exact BitVec.getLsbD_zero.symm
          · by_cases below : i < width - 1
            · simp [below]
            · have far : ¬i - (width - 1) = 0 := by omega
              simp [far]
      by_cases set : word.getLsbD (width - 1) = true
      · rw [if_pos (signBit.2 set), BitVec.getLsbD_or, BitVec.getLsbD_not, widthMask_getLsbD small]
        by_cases inside : bit < width <;> simp [inside, small, set]
      · rw [if_neg (fun nonzero => set (signBit.1 nonzero))]
        by_cases inside : bit < width
        · simp [inside]
        · rw [clean bit (by omega)]
          simp [set]

theorem extendForSign_eq (clean : ∀ bit, width ≤ bit → word.getLsbD bit = false)
    (positive : 0 < width) :
    Llvm.extendForSign word sign width = Eval.signInterpret word width sign := by
  refine BitVec.eq_of_getLsbD_eq fun bit small => ?_
  rw [signInterpret_getLsbD clean positive small]
  unfold Llvm.extendForSign extendedBit
  by_cases plain : sign ≠ .signed ∨ width = 0 ∨ 64 ≤ width
  · rw [if_pos plain]
    by_cases inside : bit < width
    · rw [if_pos inside]
    · have unsigned : sign ≠ .signed := plain.resolve_right (by omega)
      rw [clean bit (by omega)]
      simp [unsigned]
  · rw [not_or, not_not] at plain
    rw [if_neg (by simp [plain]), BitVec.getLsbD_sshiftRight, BitVec.msb_eq_getLsbD_last]
    have reach : 64 - width + bit - (64 - width) = bit := by omega
    have top : 64 - 1 - (64 - width) = width - 1 := by omega
    by_cases inside : bit < width
    · rw [if_pos inside, BitVec.getLsbD_shiftLeft]
      simp [show 64 - width + bit < 64 by omega, show ¬64 ≤ bit by omega]
    · rw [if_neg inside, if_neg (by omega), BitVec.getLsbD_shiftLeft, top]
      simp [show ¬64 ≤ bit by omega, show ¬63 < 64 - width by omega, plain.1]

end

/-- The declared type of a binding holds every value its segment can have. -/
def Fits (sign : BinarySign) (width : Nat) (kind : IntKind) : Prop :=
  width ≤ 64 ∧ (kind.width = 64 ∨ match sign, kind.signed with
    | .unsigned, false => width ≤ kind.width
    | .unsigned, true => width < kind.width
    | .signed, true => width ≤ kind.width
    | .signed, false => False)

section
variable {word : BitVec 64} {sign : BinarySign} {width : Nat} {kind : IntKind}

theorem IntKind.width_pos (kind : IntKind) : 0 < kind.width ∧ kind.width % 8 = 0 := by
  cases kind <;> decide

/-- A word is kept by a type exactly when its high bits repeat the type's sign. -/
theorem extended_truncate_iff : extended kind (word.setWidth kind.width) = word ↔
      ∀ bit < 64, kind.width ≤ bit →
        word.getLsbD bit = (kind.signed && word.getLsbD (kind.width - 1)) := by
  have positive := IntKind.width_pos kind
  have negative : (Datum.int kind (word.setWidth kind.width)).negative =
      (kind.signed && word.getLsbD (kind.width - 1)) := by
    simp [Datum.negative, BitVec.msb_setWidth, positive.1]
  constructor
  · intro kept bit small high
    rw [← kept, extended_high high small, negative]
    conv_rhs => rw [kept]
  · intro high
    refine BitVec.eq_of_getLsbD_eq fun bit small => ?_
    by_cases low : bit < kind.width
    · rw [extended_low low]
      simp [small, low]
    · rw [extended_high (by omega) small, negative, high bit small (by omega)]

theorem extended_of_fits (clean : ∀ bit, width ≤ bit → word.getLsbD bit = false)
    (positive : 0 < width) (fits : Fits sign width kind) :
    extended kind ((Eval.signInterpret word width sign).setWidth kind.width) =
      Eval.signInterpret word width sign := by
  rw [extended_truncate_iff]
  intro bit small high
  rw [signInterpret_getLsbD clean positive small, signInterpret_getLsbD clean positive (by omega)]
  obtain ⟨_, full | held⟩ := fits
  · omega
  · unfold extendedBit
    cases sign with
    | unsigned =>
      cases signed : kind.signed with
      | false =>
        simp only [signed] at held
        simp [show ¬bit < width by omega]
      | true =>
        simp only [signed] at held
        simp [show ¬bit < width by omega, show ¬kind.width - 1 < width by omega]
    | signed =>
      cases signed : kind.signed with
      | false => simp [signed] at held
      | true =>
        simp only [signed] at held
        by_cases whole : kind.width = width
        · simp [show ¬bit < width by omega, whole]
        · simp [show ¬bit < width by omega, show ¬kind.width - 1 < width by omega]

/-- A segment of `0x80` bytes is kept only by a type that holds every value. -/
theorem fits_of_extended {endian : BinaryEndian} {numBytes : Nat} (positive : 0 < numBytes)
    (small : numBytes ≤ 8) (kept : extended kind ((Eval.signInterpret
        (assembled (fun _ => 0x80) endian numBytes) (8 * numBytes) sign).setWidth kind.width) =
      Eval.signInterpret (assembled (fun _ => 0x80) endian numBytes) (8 * numBytes) sign) :
    Fits sign (8 * numBytes) kind := by
  have kindWidth := IntKind.width_pos kind
  have bound := IntKind.width_le kind
  have clean : ∀ bit, 8 * numBytes ≤ bit →
      (assembled (fun _ => 0x80) endian numBytes).getLsbD bit = false :=
    fun bit outside => assembled_high outside
  have filler : ∀ bit, bit < 8 * numBytes →
      (assembled (fun _ => 0x80) endian numBytes).getLsbD bit = decide (bit % 8 = 7) := by
    intro bit inside
    rw [assembled_getLsbD small inside]
    have table : ∀ position < 8, (0x80 : UInt8).toBitVec.getLsbD position =
        decide (position = 7) := by decide
    exact table _ (Nat.mod_lt _ (by decide))
  have high : ∀ bit < 64, kind.width ≤ bit →
      extendedBit (assembled (fun _ => 0x80) endian numBytes) sign (8 * numBytes) bit =
        (kind.signed && extendedBit (assembled (fun _ => 0x80) endian numBytes) sign
          (8 * numBytes) (kind.width - 1)) := by
    intro bit inside outside
    have := extended_truncate_iff.1 kept bit inside outside
    rwa [signInterpret_getLsbD clean (by omega) inside,
      signInterpret_getLsbD clean (by omega) (by omega)] at this
  refine ⟨by omega, ?_⟩
  by_cases full : kind.width = 64
  · exact .inl full
  unfold extendedBit at high
  cases sign with
  | unsigned =>
    cases signed : kind.signed with
    | false =>
      -- the segment's top bit is set, and lost
      by_contra wide
      have top := high (8 * numBytes - 1) (by omega) (by omega)
      rw [if_pos (by omega), filler _ (by omega), signed] at top
      simp [show (8 * numBytes - 1) % 8 = 7 by omega] at top
    | true =>
      -- the bit above the type is clear, and the type's sign is set
      by_contra wide
      have sign := high kind.width (by omega) le_rfl
      rw [signed, if_pos (show kind.width - 1 < 8 * numBytes by omega),
        filler (kind.width - 1) (by omega)] at sign
      by_cases inside : kind.width < 8 * numBytes
      · rw [filler _ inside] at sign
        simp [kindWidth.2, show (kind.width - 1) % 8 = 7 by omega] at sign
      · simp [inside, show (kind.width - 1) % 8 = 7 by omega] at sign
  | signed =>
    cases signed : kind.signed with
    | false =>
      -- the extended sign is set, and lost
      have top := high 63 (by omega) (by omega)
      rw [signed, filler (8 * numBytes - 1) (by omega)] at top
      by_cases inside : 63 < 8 * numBytes
      · rw [if_pos inside, filler _ inside] at top
        simp at top
      · simp [inside, show (8 * numBytes - 1) % 8 = 7 by omega] at top
    | true =>
      by_contra wide
      have sign := high kind.width (by omega) le_rfl
      rw [signed, if_pos (show kind.width - 1 < 8 * numBytes by omega),
        filler (kind.width - 1) (by omega), if_pos (show kind.width < 8 * numBytes by omega),
        filler _ (by omega)] at sign
      simp [kindWidth.2, show (kind.width - 1) % 8 = 7 by omega] at sign

end

end Koja.Guarantees.Binary
