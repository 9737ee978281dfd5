import Koja.Guarantees.Binary.PatternBytes

/-!
# The two backends match binaries alike

On `Binary` subjects an accepted pattern is matched alike exactly when its fixed part is a whole
number of bytes and the declared type of every binding holds all values of its segment. On
`Bits` subjects it must in addition end in an unbound tail: the native length gate and the tail
copy count whole bytes only. The failures are shown on the `matching` subject.
-/
namespace Koja.Guarantees.Binary

open Koja.Lib Koja.Source Koja.Source.Ast Koja.Source.Ir Koja.Source.Typecheck List Option BitVec
open Koja.Source.Eval (Value executeBinaryMatch matchSegment matchSegments)
open Koja.Source.Llvm (Block Bound emitBinaryMatch emitSegmentBind emitSegmentTest checkSegment)
open Llvm (lengthCheck)
open Eval (signInterpret orPanic slice)

/-- A `Binary` value in the two backends. -/
inductive BinarySubject : Value → Block → Prop
  | mk (bytes : List UInt8) : BinarySubject (.binary bytes) (.ofBytes bytes)

/-- A `Bits` value in the two backends. -/
inductive BitsSubject : Value → Block → Prop
  | mk (bytes : List UInt8) (bitLength : Nat) (whole : bytes.length = (bitLength + 7) / 8) :
      BitsSubject (.bits bytes bitLength) ⟨bitLength, bytes⟩

/-- The interpreter and native code bind the same value: the same value of the declared integer
type, or the same bit string, all of it inside its block. -/
def SameValue (value : Value) : Bound → Prop
  | .int kind pattern => value = Eval.valueOf (.int kind pattern)
  | .tail block => value.bitString = some block.bitString ∧
      block.bitLength ≤ 8 * block.payload.length

/-- The same slot gets the same value. -/
def SameBinding (eval : IRLocalId × Value) (native : IRLocalId × Bound) : Prop :=
  eval.1 = native.1 ∧ SameValue eval.2 native.2

/-- Both backends finish, agree on success, and bind alike. -/
def MatchedAlike (layout : LoweredBinaryMatchLayout) (segments : List LoweredBinaryPattern)
    (value : Value) (block : Block) : Prop :=
  (executeBinaryMatch layout segments value = .ok none ∧
      emitBinaryMatch layout segments block = some none) ∨
    ∃ evalBound nativeBound, executeBinaryMatch layout segments value = .ok (some evalBound) ∧
      emitBinaryMatch layout segments block = some (some nativeBound) ∧
      List.Forall₂ SameBinding evalBound nativeBound

/-- The declared type of a binding holds every value of its segment. -/
def BindFits : LoweredBinaryPattern → Prop
  | .bindInt _ _ _ sign ty width =>
    ∃ kind, IntKind.ofIRType ty = some kind ∧ Fits sign width.toNat kind
  | _ => True

/-- The pattern ends in a tail that binds nothing. -/
def UnboundTail (segments : List LoweredBinaryPattern) : Prop :=
  ∃ bitOffset ty, .greedyTail bitOffset none ty ∈ segments

/-! ## Runs of segments -/

section
variable {segments : List LoweredBinaryPattern} {segment : LoweredBinaryPattern}
  {bytes payload : List UInt8} {bitLength : Nat}

/-- The outcome of a segment in both backends. -/
def SegmentAlike (bytes : List UInt8) (bitLength : Nat) (segment : LoweredBinaryPattern) : Prop :=
  (emitSegmentTest bytes segment = some false ∧ matchSegment bytes bitLength segment = .ok none) ∨
    (emitSegmentTest bytes segment = some true ∧ ∃ evalBound nativeBound,
      matchSegment bytes bitLength segment = .ok (some evalBound) ∧
      emitSegmentBind bytes bitLength segment = some nativeBound ∧
      List.Forall₂ SameBinding evalBound nativeBound)

/-- Segments with the same outcomes give runs with the same outcome. -/
theorem matchSegments_alike (each : ∀ segment ∈ segments, SegmentAlike bytes bitLength segment) :
    ∃ tests, segments.mapM (emitSegmentTest bytes) = some tests ∧
      if tests.all id then ∃ evalBound nativeBound,
        matchSegments bytes bitLength segments = .ok (some evalBound) ∧
        segments.mapM (emitSegmentBind bytes bitLength) = some nativeBound ∧
        List.Forall₂ SameBinding evalBound nativeBound.flatten
      else matchSegments bytes bitLength segments = .ok none := by
  induction segments with
  | nil => exact ⟨[], rfl, [], [], rfl, rfl, .nil⟩
  | cons head _ ih =>
    obtain ⟨tests, tested, outcome⟩ := ih fun segment inside => each segment (by simp [inside])
    rcases each head (by simp) with ⟨test, missed⟩ | ⟨test, evalBound, nativeBound, matched,
      bound, same⟩
    · refine ⟨false :: tests, by simp [test, tested], ?_⟩
      simp [matchSegments, missed]
    · refine ⟨true :: tests, by simp [test, tested], ?_⟩
      simp only [all_cons, id, Bool.true_and]
      split at outcome
      · next all =>
        obtain ⟨evalRest, nativeRest, matchedRest, boundRest, sameRest⟩ := outcome
        rw [if_pos all]
        refine ⟨evalBound ++ evalRest, nativeBound :: nativeRest, ?_, ?_, ?_⟩
        · simp [matchSegments, matched, matchedRest]
        · simp [bound, boundRest]
        · exact rel_append same sameRest
      · next missed =>
        rw [if_neg missed]
        simp [matchSegments, matched, outcome]

theorem matchSegment_length {evalBound : List (IRLocalId × Value)}
    (matched : matchSegment bytes bitLength segment = .ok (some evalBound)) :
    evalBound.length = segment.slot.toList.length := by
  revert matched
  fun_cases matchSegment bytes bitLength segment <;> simp [bind_eq_ok, LoweredBinaryPattern.slot]
  all_goals
    intros
    subst_vars
    rfl

theorem emitSegmentBind_length {nativeBound : List (IRLocalId × Bound)}
    (bound : emitSegmentBind payload bitLength segment = some nativeBound) :
    nativeBound.length = segment.slot.toList.length := by
  revert bound
  fun_cases emitSegmentBind payload bitLength segment <;>
    simp [bind_eq_some_iff, LoweredBinaryPattern.slot]
  all_goals
    intros
    subst_vars
    rfl

/-- In runs that bind alike, each segment binds alike. -/
theorem matchSegments_each {evalBound : List (IRLocalId × Value)}
    {nativeBound : List (List (IRLocalId × Bound))}
    (matched : matchSegments bytes bitLength segments = .ok (some evalBound))
    (bound : segments.mapM (emitSegmentBind payload bitLength) = some nativeBound)
    (same : List.Forall₂ SameBinding evalBound nativeBound.flatten) (inside : segment ∈ segments) :
    ∃ evalOne nativeOne, matchSegment bytes bitLength segment = .ok (some evalOne) ∧
      emitSegmentBind payload bitLength segment = some nativeOne ∧
      List.Forall₂ SameBinding evalOne nativeOne := by
  induction segments generalizing evalBound nativeBound with
  | nil => cases inside
  | cons _ _ ih =>
    obtain ⟨outcome, headMatched, matched⟩ := bind_eq_ok.1 matched
    cases outcome with
    | none => cases matched
    | some evalOne =>
      obtain ⟨others, restMatched, matched⟩ := bind_eq_ok.1 matched
      obtain ⟨evalRest, rfl, rfl⟩ := map_eq_some_iff.1 (Except.ok.inj matched)
      rw [mapM_cons] at bound
      obtain ⟨nativeOne, headBound, bound⟩ := bind_eq_some_iff.1 bound
      obtain ⟨nativeRest, restBound, bound⟩ := bind_eq_some_iff.1 bound
      obtain rfl := Option.some.inj bound
      have length : nativeOne.length = evalOne.length := by
        rw [emitSegmentBind_length headBound, matchSegment_length headMatched]
      have first := forall₂_take_append _ _ _ same
      have later := forall₂_drop_append _ _ _ same
      rw [length, take_left] at first
      rw [length, drop_left] at later
      rcases mem_cons.1 inside with rfl | inside
      · exact ⟨evalOne, nativeOne, headMatched, headBound, first⟩
      · exact ih restMatched restBound later inside

end

/-! ## Single segments -/

section
variable {segments : List LoweredBinaryPattern} {segment : LoweredBinaryPattern}
  {bytes : List UInt8} {bitLength total : Nat}

theorem getElem?_of_room {first count i : Nat} (room : first + count ≤ bytes.length)
    (bound : i < count) : bytes[first + i]? = some (bytes.getD (first + i) 0) := by
  have inside : first + i < bytes.length := by omega
  simp [inside]

/-- Comparing bytes one by one is comparing the slice. -/
theorem allM_bytes {first count : Nat} {expected : Nat → UInt8}
    (room : first + count ≤ bytes.length) :
    ((List.range count).allM fun i => do
        let byte ← bytes[first + i]?
        some (decide (byte = expected i))) =
      some (decide ((bytes.drop first).take count = (List.range count).map expected)) := by
  have each : ∀ items : List Nat, (∀ i ∈ items, i < count) → (items.allM fun i => do
        let byte ← bytes[first + i]?
        some (decide (byte = expected i))) =
      some (items.all fun i => bytes.getD (first + i) 0 = expected i) := by
    intro items below
    induction items with
    | nil => rfl
    | cons i _ ih =>
      rw [allM, getElem?_of_room room (below i (by simp)), all_cons]
      cases same : decide (bytes.getD (first + i) 0 = expected i)
      · simp only [bind_eq_bind, bind_some, same]
        rfl
      · simp only [bind_eq_bind, bind_some, same]
        exact ih fun i inside => below i (by simp [inside])
  rw [each _ fun i inside => mem_range.1 inside]
  congr 1
  rw [Bool.eq_iff_iff, List.all_eq_true, decide_eq_true_eq]
  constructor
  · intro same
    refine ext_getElem (by simp; omega) fun i inLeft inRight => ?_
    have bound : i < count := by simpa using inRight
    have inside : first + i < bytes.length := by omega
    simpa [inside] using same i (mem_range.2 bound)
  · intro same i inside
    have bound := mem_range.1 inside
    have inBytes : first + i < bytes.length := by omega
    have sameByte := congrArg (fun items : List UInt8 => items[i]?) same
    simpa [bound, inBytes] using sameByte

/-- Both backends test an aligned integer literal alike. -/
theorem literalInt_tested {startBit width : Nat} {endian : BinaryEndian} {value : Int}
    (aligned : startBit % 8 = 0) (whole : width % 8 = 0)
    (room : startBit / 8 + width / 8 ≤ bytes.length) :
    ∃ test, Llvm.emitLiteralInt bytes startBit endian value width = some test ∧
      Eval.literalSegmentMatches bytes width endian startBit value = some test := by
  unfold Llvm.emitLiteralInt Eval.literalSegmentMatches
  by_cases wide : 64 < width
  · rw [if_pos wide, if_neg (by omega), if_pos ⟨aligned, whole⟩, allM_bytes room]
    have encoded : Llvm.encodeWideLiteral value (width / 8) endian =
        (List.range (width / 8)).map fun i => Eval.valueByte value
          (Eval.byteSignificance endian (width / 8) i) := by
      cases endian <;> rfl
    unfold Llvm.emitLiteralBytes
    rw [encoded, if_neg (by simp; omega), if_pos (by simpa using room)]
    simp
  · have few : width / 8 ≤ 8 := by omega
    have bits : width = 8 * (width / 8) := by omega
    have found : ∀ i < width / 8, bytes[startBit / 8 + i]? =
        some (bytes.getD (startBit / 8 + i) 0) := fun i bound => getElem?_of_room room bound
    rw [if_neg wide, if_pos (by omega), extractInt_eq few found]
    rw [bits, extractIntegerSegment_eq few aligned found, ← bits]
    refine ⟨_, rfl, ?_⟩
    have masked : assembled (fun i => bytes.getD (startBit / 8 + i) 0) endian (width / 8) &&&
        Llvm.maskForWidth width =
        assembled (fun i => bytes.getD (startBit / 8 + i) 0) endian (width / 8) := by
      refine eq_of_getLsbD_eq fun bit inWord => ?_
      rw [getLsbD_and, maskForWidth_eq, widthMask_getLsbD inWord]
      by_cases inside : bit < width
      · simp [inside]
      · rw [assembled_high (by omega)]
        rfl
    rw [masked]
    rfl

theorem aligned_of_accepted_bind {bitOffset width : UInt64} {endian : BinaryEndian}
    {sign : BinarySign} {slot : IRLocalId} {ty : IRType}
    (accepted : (checkSegment (.bindInt bitOffset endian slot sign ty width)).isOk = true) :
    bitOffset.toNat % 8 = 0 ∧ width.toNat % 8 = 0 ∧ ∃ kind, IntKind.ofIRType ty = some kind := by
  by_cases odd : bitOffset.toNat % 8 ≠ 0 ∨ width.toNat % 8 ≠ 0
  · simp only [checkSegment, if_pos odd] at accepted
    cases accepted
  · simp only [checkSegment, if_neg odd] at accepted
    cases found : IntKind.ofIRType ty with
    | none =>
      rw [found] at accepted
      cases accepted
    | some kind => exact ⟨by omega, by omega, kind, rfl⟩

theorem aligned_of_accepted_tail {bitOffset : UInt64} {slot : Option IRLocalId} {ty : IRType}
    (accepted : (checkSegment (.greedyTail bitOffset slot ty)).isOk = true) :
    bitOffset.toNat % 8 = 0 := by
  by_contra odd
  simp only [checkSegment, if_pos (show bitOffset.toNat % 8 ≠ 0 from odd)] at accepted
  cases accepted

/-- What an accepted binding of at most eight bytes reads in the two backends. -/
theorem bindInt_read {bitOffset width : UInt64} {endian : BinaryEndian} {sign : BinarySign}
    {slot : IRLocalId} {ty : IRType} {kind : IntKind} (aligned : bitOffset.toNat % 8 = 0)
    (whole : width.toNat % 8 = 0) (known : IntKind.ofIRType ty = some kind)
    (positive : 0 < width.toNat) (small : width.toNat ≤ 64)
    (room : bitOffset.toNat / 8 + width.toNat / 8 ≤ bytes.length) {word : BitVec 64}
    (read : word = assembled (fun i => bytes.getD (bitOffset.toNat / 8 + i) 0) endian
      (width.toNat / 8)) :
    matchSegment bytes bitLength (.bindInt bitOffset endian slot sign ty width) =
        .ok (some [(slot, .int (signInterpret word width.toNat sign))]) ∧
      emitSegmentBind bytes bitLength (.bindInt bitOffset endian slot sign ty width) =
        some [(slot, .int kind ((signInterpret word width.toNat sign).setWidth
          kind.width))] := by
  have few : width.toNat / 8 ≤ 8 := by omega
  have bits : width.toNat = 8 * (width.toNat / 8) := by omega
  have found : ∀ i < width.toNat / 8, bytes[bitOffset.toNat / 8 + i]? =
      some (bytes.getD (bitOffset.toNat / 8 + i) 0) := fun i bound => getElem?_of_room room bound
  have clean : ∀ bit, width.toNat ≤ bit → word.getLsbD bit = false := by
    intro bit outside
    rw [read]
    exact assembled_high (by omega)
  constructor
  · have evaluated := @extractIntegerSegment_eq _ endian _ _ _ few aligned found
    rw [← bits, ← read] at evaluated
    simp [matchSegment, evaluated, orPanic]
  · have extracted := @extractInt_eq _ endian _ _ _ few found
    rw [← read] at extracted
    simp [emitSegmentBind, extracted, known, extendForSign_eq clean positive]

/-- A tail of a subject of whole bytes is bound alike. -/
theorem tail_bound {bitOffset : UInt64} {slot : IRLocalId} {ty : IRType}
    (aligned : bitOffset.toNat % 8 = 0) (payload : ty = .binary ∨ ty = .bits)
    (whole : bitLength = 8 * bytes.length) (room : bitOffset.toNat ≤ bitLength) :
    ∃ value block, matchSegment bytes bitLength (.greedyTail bitOffset (some slot) ty) =
        .ok (some [(slot, value)]) ∧
      emitSegmentBind bytes bitLength (.greedyTail bitOffset (some slot) ty) =
        some [(slot, .tail block)] ∧
      SameValue value (.tail block) := by
  have all : (bytes.drop (bitOffset.toNat / 8)).take (bitLength / 8 - bitOffset.toNat / 8) =
      bytes.drop (bitOffset.toNat / 8) := by
    refine take_of_length_le ?_
    rw [length_drop]
    omega
  have block : Llvm.emitGreedyTail bytes bitLength bitOffset.toNat =
      some ⟨bitLength - bitOffset.toNat, bytes.drop (bitOffset.toNat / 8)⟩ := by
    unfold Llvm.emitGreedyTail
    rw [if_pos (by omega), all]
  have length : bitLength - bitOffset.toNat = 8 * (bytes.drop (bitOffset.toNat / 8)).length := by
    rw [length_drop]
    omega
  have bound : ∀ ty, emitSegmentBind bytes bitLength (.greedyTail bitOffset (some slot) ty) =
      some [(slot, .tail ⟨bitLength - bitOffset.toNat, bytes.drop (bitOffset.toNat / 8)⟩)] := by
    simp [emitSegmentBind, block]
  rcases payload with rfl | rfl
  · refine ⟨.binary (bytes.drop (bitOffset.toNat / 8)), _, ?_, bound _, ?_, le_of_eq length⟩
    · simp only [matchSegment]
      rw [if_pos (by omega)]
      rfl
    · simp [Eval.Value.bitString, Block.bitString, length]
  · refine ⟨.bits (bytes.drop (bitOffset.toNat / 8)) (bitLength - bitOffset.toNat), _, ?_,
      bound _, ?_, le_of_eq length⟩
    · have range : Eval.extractBitRange bytes bitOffset.toNat
          (bitLength - bitOffset.toNat) = some (bytes.drop (bitOffset.toNat / 8)) := by
        have slice : slice bytes (bitOffset.toNat / 8)
            ((bitLength - bitOffset.toNat + 7) / 8) = some (bytes.drop (bitOffset.toNat / 8)) := by
          unfold slice
          rw [if_pos (by omega), ← all]
          congr 2
          omega
        unfold Eval.extractBitRange
        rw [if_pos aligned, slice]
        simp [show (bitLength - bitOffset.toNat) % 8 = 0 by omega]
      simp [matchSegment, range, orPanic]
    · rfl

/-- An accepted segment has the same outcome in both backends when its type fits, the subject
covers the fixed part, and a bound tail meets a subject of whole bytes. -/
theorem segment_alike (laid : Laid total 0 segments) (wholeFixed : total % 8 = 0)
    (small : total < 2 ^ 64) (inside : segment ∈ segments)
    (accepted : (checkSegment segment).isOk = true) (fits : BindFits segment)
    (room : total / 8 ≤ bytes.length)
    (tail : segment.isGreedyTail = true → segment.slot.isSome = true →
      bitLength = 8 * bytes.length ∧ total ≤ bitLength) :
    SegmentAlike bytes bitLength segment := by
  have place := (laid.offset inside).2
  have sound := laid.bindsBits inside
  cases segment with
  | literalInt _ endian _ value =>
    obtain ⟨aligned, whole⟩ := aligned_of_accepted accepted
    simp only [patternOffset, LoweredBinaryPattern.fixedBits] at place
    obtain ⟨test, native, evaluated⟩ := @literalInt_tested bytes _ _ endian value aligned whole
      (by omega)
    cases test
    · left
      exact ⟨native, by simp [matchSegment, evaluated, orPanic]⟩
    · right
      refine ⟨native, [], [], ?_, rfl, .nil⟩
      simp [matchSegment, evaluated, orPanic]
  | literalBytes bitOffset expected =>
    rw [literalBytes_fixedBits] at place
    simp only [patternOffset] at place
    have fitsIn : bitOffset.toNat / 8 + expected.length ≤ bytes.length := by omega
    have native : emitSegmentTest bytes (.literalBytes bitOffset expected) =
        some (decide ((bytes.drop (bitOffset.toNat / 8)).take expected.length = expected)) := by
      simp only [emitSegmentTest, Llvm.emitLiteralBytes]
      cases expected with
      | nil => simp
      | cons => rw [if_neg (by simp), if_pos fitsIn]
    by_cases same : (bytes.drop (bitOffset.toNat / 8)).take expected.length = expected
    · right
      refine ⟨by rw [native, decide_eq_true same], [], [], ?_, rfl, .nil⟩
      simp [matchSegment, slice, fitsIn, same, orPanic]
    · left
      refine ⟨by rw [native, decide_eq_false same], ?_⟩
      simp [matchSegment, slice, fitsIn, same, orPanic]
  | bindInt bitOffset endian slot sign ty width =>
    obtain ⟨aligned, whole, _⟩ := aligned_of_accepted_bind accepted
    obtain ⟨kind, known, holds⟩ := fits
    simp only [patternOffset, LoweredBinaryPattern.fixedBits] at place
    obtain ⟨evaluated, native⟩ := @bindInt_read bytes bitLength bitOffset width endian sign slot ty
      kind aligned whole known sound holds.1 (by omega) _ rfl
    have clean : ∀ bit, width.toNat ≤ bit →
        (assembled (fun i => bytes.getD (bitOffset.toNat / 8 + i) 0) endian
          (width.toNat / 8)).getLsbD bit = false :=
      fun bit outside => assembled_high (by omega)
    right
    refine ⟨rfl, _, _, evaluated, native, .cons ⟨rfl, ?_⟩ .nil⟩
    exact congrArg Value.int (extended_of_fits clean sound holds).symm
  | discard => exact .inr ⟨rfl, [], [], rfl, rfl, .nil⟩
  | greedyTail bitOffset slot ty =>
    cases slot with
    | none => exact .inr ⟨rfl, [], [], rfl, rfl, .nil⟩
    | some slot =>
      have aligned := aligned_of_accepted_tail accepted
      obtain ⟨whole, covered⟩ := tail rfl rfl
      have start := laid.tail_offset inside rfl
      simp only [patternOffset] at start
      obtain ⟨value, block, evaluated, native, same⟩ :=
        @tail_bound bytes bitLength bitOffset slot ty aligned sound whole (by omega)
      exact .inr ⟨rfl, _, _, evaluated, native, .cons ⟨rfl, same⟩ .nil⟩

end

/-! ## Whole patterns -/

section
variable {layout : LoweredBinaryMatchLayout} {segments : List LoweredBinaryPattern}
  {bytes : List UInt8} {bitLength : Nat}

/-- The interpreter's length gate. -/
def evalGate (layout : LoweredBinaryMatchLayout) (bitLength : Nat) : Bool :=
  if layout.hasGreedyTail then layout.fixedBits.toNat ≤ bitLength
  else bitLength = layout.fixedBits.toNat

/-- With equal gates and alike segments, the pattern is matched alike. -/
theorem matchedAlike_of_segments {value : Value}
    (evaluates : executeBinaryMatch layout segments value =
      if evalGate layout bitLength then matchSegments bytes bitLength segments else .ok none)
    (gates : evalGate layout bitLength = lengthCheck layout (bitLength / 8))
    (each : evalGate layout bitLength = true →
      ∀ segment ∈ segments, SegmentAlike bytes bitLength segment) :
    MatchedAlike layout segments value ⟨bitLength, bytes⟩ := by
  unfold MatchedAlike
  rw [evaluates]
  unfold emitBinaryMatch
  rw [← gates]
  cases gate : evalGate layout bitLength with
  | false => exact .inl ⟨rfl, rfl⟩
  | true =>
    obtain ⟨tests, tested, outcome⟩ := matchSegments_alike (each gate)
    simp only [tested, if_true]
    split at outcome
    · next all =>
      obtain ⟨evalBound, nativeBound, matched, bound, same⟩ := outcome
      refine .inr ⟨evalBound, nativeBound.flatten, matched, ?_, same⟩
      rw [bind_eq_bind, bind_some, if_pos all, bound]
      rfl
    · next missed =>
      refine .inl ⟨outcome, ?_⟩
      rw [bind_eq_bind, bind_some, if_neg missed]

theorem tests_all {tests : List Bool}
    (hits : ∀ segment ∈ segments, emitSegmentTest bytes segment ≠ some false)
    (tested : segments.mapM (emitSegmentTest bytes) = some tests) : tests.all id = true := by
  induction segments generalizing tests with
  | nil =>
    obtain rfl := Option.some.inj tested
    rfl
  | cons head _ ih =>
    rw [mapM_cons] at tested
    obtain ⟨test, headTest, tested⟩ := bind_eq_some_iff.1 tested
    obtain ⟨others, restTests, tested⟩ := bind_eq_some_iff.1 tested
    obtain rfl := Option.some.inj tested
    have hit : test = true := by
      have := hits head (by simp)
      cases test with
      | true => rfl
      | false => exact absurd headTest this
    rw [all_cons, ih (fun segment inside => hits segment (by simp [inside])) restTests, hit]
    rfl

/-- A pattern whose literals never miss does not fail natively past the gate. -/
theorem emitBinaryMatch_ne_miss (gate : lengthCheck layout (bitLength / 8) = true)
    (hits : ∀ segment ∈ segments, emitSegmentTest bytes segment ≠ some false) :
    emitBinaryMatch layout segments ⟨bitLength, bytes⟩ ≠ some none := by
  unfold emitBinaryMatch
  rw [if_pos gate]
  intro missed
  obtain ⟨tests, tested, missed⟩ := bind_eq_some_iff.1 missed
  have all := tests_all hits tested
  rw [if_pos all] at missed
  obtain ⟨bound, _, missed⟩ := bind_eq_some_iff.1 missed
  cases missed

/-- A pattern matched alike where the native match cannot miss binds each segment alike. -/
theorem MatchedAlike.each {value : Value}
    (alike : MatchedAlike layout segments value ⟨bitLength, bytes⟩)
    (evaluates : executeBinaryMatch layout segments value =
      if evalGate layout bitLength then matchSegments bytes bitLength segments else .ok none)
    (nativeGate : lengthCheck layout (bitLength / 8) = true)
    (hits : ∀ segment ∈ segments, emitSegmentTest bytes segment ≠ some false) :
    evalGate layout bitLength = true ∧ ∀ segment ∈ segments, ∃ evalOne nativeOne,
      matchSegment bytes bitLength segment = .ok (some evalOne) ∧
      emitSegmentBind bytes bitLength segment = some nativeOne ∧
      List.Forall₂ SameBinding evalOne nativeOne := by
  rcases alike with ⟨_, missed⟩ | ⟨evalBound, nativeBound, matched, emitted, same⟩
  · exact absurd missed (emitBinaryMatch_ne_miss nativeGate hits)
  · rw [evaluates] at matched
    split at matched
    · next gate =>
      refine ⟨gate, fun segment inside => ?_⟩
      unfold emitBinaryMatch at emitted
      rw [if_pos nativeGate] at emitted
      obtain ⟨tests, tested, emitted⟩ := bind_eq_some_iff.1 emitted
      split at emitted
      · obtain ⟨bound, bounds, emitted⟩ := bind_eq_some_iff.1 emitted
        obtain rfl := Option.some.inj (Option.some.inj emitted)
        exact matchSegments_each matched bounds same inside
      · cases emitted
    · cases matched

theorem accepted_segment (accepted : Llvm.accepts segments = true) {segment : LoweredBinaryPattern}
    (inside : segment ∈ segments) :
    (checkSegment segment).isOk = true :=
  all_eq_true.1 accepted segment inside

/-- Native code takes a tail only after whole bytes. -/
theorem whole_of_tail (laid : Laid layout.fixedBits.toNat 0 segments)
    (tails : layout.hasGreedyTail = segments.any (·.isGreedyTail))
    (accepted : Llvm.accepts segments = true) (tail : layout.hasGreedyTail = true) :
    layout.fixedBits.toNat % 8 = 0 := by
  rw [tails, List.any_eq_true] at tail
  obtain ⟨segment, inside, isTail⟩ := tail
  have start := laid.tail_offset inside isTail
  obtain ⟨bitOffset, slot, ty, rfl⟩ := eq_greedyTail isTail
  rw [← start]
  exact aligned_of_accepted_tail (accepted_segment accepted inside)

/-- The subject of the fixed part's bytes that matches every literal. -/
def sample (layout : LoweredBinaryMatchLayout) (segments : List LoweredBinaryPattern) :
    List UInt8 :=
  matching segments (layout.fixedBits.toNat / 8)

theorem sample_length : (sample layout segments).length = layout.fixedBits.toNat / 8 := by
  simp [sample, matching]

theorem sample_starts (starts : sample layout segments <+: bytes) :
    ∀ i < layout.fixedBits.toNat / 8, bytes[i]? = some (matchingByte segments i) := by
  intro i bound
  obtain ⟨rest, rfl⟩ := starts
  rw [getElem?_append_left (by rwa [sample_length])]
  simp [sample, matching, bound]

theorem lengthCheck_fixed : lengthCheck layout (layout.fixedBits.toNat / 8) = true := by
  unfold lengthCheck
  split <;> simp

/-- No native test misses on a subject that starts as the sample does. -/
theorem sample_hits (laid : Laid layout.fixedBits.toNat 0 segments)
    (accepted : Llvm.accepts segments = true) (starts : sample layout segments <+: bytes)
    (room : layout.fixedBits.toNat % 8 = 0 ∨ bytes.length ≤ layout.fixedBits.toNat / 8) :
    ∀ segment ∈ segments, emitSegmentTest bytes segment ≠ some false := fun _ inside =>
  emitSegmentTest_matching laid layout.fixedBits.toNat_lt inside (accepted_segment accepted inside)
    (sample_starts starts) room

/-- The declared types fit when the pattern is matched alike on the matching subject. -/
theorem bindFits_of_matched (laid : Laid layout.fixedBits.toNat 0 segments)
    (accepted : Llvm.accepts segments = true) {value : Value}
    (whole : layout.fixedBits.toNat % 8 = 0)
    (evaluates : executeBinaryMatch layout segments value =
      if evalGate layout layout.fixedBits.toNat then
        matchSegments (sample layout segments) layout.fixedBits.toNat segments
      else .ok none)
    (alike : MatchedAlike layout segments value ⟨layout.fixedBits.toNat, sample layout segments⟩) :
    ∀ segment ∈ segments, BindFits segment := by
  have small : layout.fixedBits.toNat < 2 ^ 64 := layout.fixedBits.toNat_lt
  obtain ⟨_, each⟩ := alike.each evaluates lengthCheck_fixed
    (sample_hits laid accepted (prefix_refl _) (.inl whole))
  intro segment inside
  obtain ⟨evalOne, nativeOne, evaluated, native, same⟩ := each segment inside
  cases segment with
  | bindInt bitOffset endian slot sign ty width =>
    obtain ⟨aligned, whole, kind, known⟩ :=
      aligned_of_accepted_bind (accepted_segment accepted inside)
    have place := (laid.offset inside).2
    have positive := laid.bindsBits inside
    simp only [patternOffset, LoweredBinaryPattern.fixedBits, BindsBits] at place positive
    have few : width.toNat ≤ 64 := by
      by_contra wide
      obtain ⟨word, read, _⟩ := bind_eq_ok.1 evaluated
      rw [extractIntegerSegment_none (by omega) aligned whole] at read
      cases read
    have filler : assembled (fun i => (sample layout segments).getD
        (bitOffset.toNat / 8 + i) 0) endian (width.toNat / 8) =
        assembled (fun _ => 0x80) endian (width.toNat / 8) := by
      refine eq_of_getLsbD_eq fun bit inWord => ?_
      by_cases inRange : bit < 8 * (width.toNat / 8)
      · rw [assembled_getLsbD (by omega) inRange, assembled_getLsbD (by omega) inRange]
        have index : byteIndex endian (width.toNat / 8) (bit / 8) < width.toNat / 8 := by
          cases endian <;> simp only [byteIndex] <;> omega
        have within : bitOffset.toNat / 8 + byteIndex endian (width.toNat / 8) (bit / 8) <
            layout.fixedBits.toNat / 8 := by omega
        have byte := matchingByte_of_span laid small inside within index rfl
        simp [List.getD, sample_starts (prefix_refl _) _ within, byte, literalByte]
      · rw [assembled_high (by omega), assembled_high (by omega)]
    obtain ⟨evalRead, nativeRead⟩ := @bindInt_read (sample layout segments)
      layout.fixedBits.toNat bitOffset width endian sign slot ty kind aligned whole known positive
      few (by rw [sample_length]; omega) _ filler.symm
    rw [evalRead] at evaluated
    rw [nativeRead] at native
    obtain rfl := Option.some.inj (Except.ok.inj evaluated)
    obtain rfl := Option.some.inj native
    obtain ⟨⟨_, value⟩, _⟩ := forall₂_cons.1 same
    refine ⟨kind, known, ?_⟩
    have kept := Value.int.inj value
    obtain ⟨numBytes, bits⟩ : ∃ numBytes, width.toNat = 8 * numBytes := ⟨width.toNat / 8, by omega⟩
    rw [show width.toNat / 8 = numBytes by omega, bits] at kept
    rw [bits]
    exact fits_of_extended (by omega) (by omega) kept.symm
  | _ => trivial

theorem binarySubject_matched_iff (laid : Laid layout.fixedBits.toNat 0 segments)
    (tails : layout.hasGreedyTail = segments.any (·.isGreedyTail))
    (accepted : Llvm.accepts segments = true) :
    (∀ value block, BinarySubject value block → MatchedAlike layout segments value block) ↔
      layout.fixedBits.toNat % 8 = 0 ∧ ∀ segment ∈ segments, BindFits segment := by
  have small : layout.fixedBits.toNat < 2 ^ 64 := layout.fixedBits.toNat_lt
  constructor
  · intro alike
    have subject := alike _ _ (.mk (sample layout segments))
    have length : (sample layout segments).length = layout.fixedBits.toNat / 8 := sample_length
    have whole : layout.fixedBits.toNat % 8 = 0 := by
      by_contra odd
      have noTail : layout.hasGreedyTail = false := by
        rw [← Bool.not_eq_true]
        exact fun tail => odd (whole_of_tail laid tails accepted tail)
      have gate : lengthCheck layout (8 * (sample layout segments).length / 8) = true := by
        rw [length, Nat.mul_div_cancel_left _ (by decide)]
        exact lengthCheck_fixed
      have opened := (subject.each rfl gate
        (sample_hits laid accepted (prefix_refl _) (.inr (le_of_eq length)))).1
      simp only [evalGate, noTail, length] at opened
      simp at opened
      omega
    refine ⟨whole, ?_⟩
    have total : 8 * (sample layout segments).length = layout.fixedBits.toNat := by omega
    unfold Llvm.Block.ofBytes at subject
    rw [total] at subject
    refine bindFits_of_matched laid accepted whole ?_ subject
    rw [← total]
    rfl
  · rintro ⟨whole, fits⟩ value block ⟨bytes⟩
    refine matchedAlike_of_segments rfl ?_ fun gate segment inside => ?_
    · unfold evalGate lengthCheck
      split
      · exact decide_eq_decide.2 (by omega)
      · exact decide_eq_decide.2 (by omega)
    · have covered : layout.fixedBits.toNat ≤ 8 * bytes.length := by
        unfold evalGate at gate
        split at gate
        · simpa using gate
        · exact le_of_eq (of_decide_eq_true gate).symm
      exact segment_alike laid whole small inside (accepted_segment accepted inside)
        (fits segment inside) (by omega) fun _ _ => ⟨rfl, covered⟩

theorem bitsSubject_matched_iff (laid : Laid layout.fixedBits.toNat 0 segments)
    (tails : layout.hasGreedyTail = segments.any (·.isGreedyTail))
    (accepted : Llvm.accepts segments = true) :
    (∀ value block, BitsSubject value block → MatchedAlike layout segments value block) ↔
      UnboundTail segments ∧ ∀ segment ∈ segments, BindFits segment := by
  have small : layout.fixedBits.toNat < 2 ^ 64 := layout.fixedBits.toNat_lt
  constructor
  · intro alike
    have wholeAlike : ∀ bytes : List UInt8,
        MatchedAlike layout segments (.bits bytes (8 * bytes.length)) (.ofBytes bytes) :=
      fun bytes => alike _ _ (.mk bytes (8 * bytes.length) (by omega))
    obtain ⟨whole, fits⟩ := (binarySubject_matched_iff laid tails accepted).1 (by
      rintro value block ⟨bytes⟩
      exact wholeAlike bytes)
    refine ⟨?_, fits⟩
    -- one bit more than the fixed part: the native gate and the tail copy do not see it
    have subject := alike _ _ (.mk (sample layout segments ++ [0]) (layout.fixedBits.toNat + 1)
      (by rw [length_append, sample_length, length_singleton]; omega))
    have bytes : (layout.fixedBits.toNat + 1) / 8 = layout.fixedBits.toNat / 8 := by omega
    obtain ⟨opened, each⟩ := subject.each rfl
      (by rw [bytes]; exact lengthCheck_fixed)
      (sample_hits laid accepted (prefix_append _ _) (.inl whole))
    have tail : layout.hasGreedyTail = true := by
      by_contra noTail
      simp [evalGate, noTail] at opened
    rw [tails, List.any_eq_true] at tail
    obtain ⟨segment, inside, isTail⟩ := tail
    have start := laid.tail_offset inside isTail
    obtain ⟨evalOne, nativeOne, _, native, same⟩ := each segment inside
    obtain ⟨bitOffset, slot, ty, rfl⟩ := eq_greedyTail isTail
    cases slot with
    | none => exact ⟨bitOffset, ty, inside⟩
    | some =>
      simp only [patternOffset] at start
      obtain ⟨block, copied, native⟩ := bind_eq_some_iff.1 native
      obtain rfl := Option.some.inj native
      obtain ⟨value, others, ⟨_, _, held⟩, _, rfl⟩ := forall₂_cons_right_iff.1 same
      unfold Llvm.emitGreedyTail at copied
      dsimp only at copied
      rw [start, bytes, Nat.sub_self, take_zero] at copied
      split at copied
      · obtain rfl := Option.some.inj copied
        simp at held
      · cases copied
  · rintro ⟨⟨bitOffset, ty, inside⟩, fits⟩ value block ⟨bytes, bitLength, size⟩
    have tail : layout.hasGreedyTail = true := by
      rw [tails, List.any_eq_true]
      exact ⟨_, inside, rfl⟩
    have whole := whole_of_tail laid tails accepted tail
    refine matchedAlike_of_segments rfl ?_ fun gate segment among => ?_
    · unfold evalGate lengthCheck
      rw [if_pos tail, if_pos tail]
      exact decide_eq_decide.2 (by omega)
    · have covered : layout.fixedBits.toNat ≤ bitLength := by
        simpa [evalGate, tail] using gate
      refine segment_alike laid whole small among (accepted_segment accepted among)
        (fits segment among) (by omega) fun isTail bound => ?_
      -- the only tail is the unbound one
      rw [laid.tail_unique among inside isTail rfl] at bound
      cases bound

end

/-- The two backends match an accepted pattern alike on every `Binary` subject exactly when its
fixed part is whole bytes and every declared type fits, and on every `Bits` subject exactly when
it also ends in an unbound tail. -/
theorem binaries_matched_alike_iff (table : TypeTable) (subjectTy : ResolvedType)
    (firstLocal : LocalId) (segments resolved : List BinarySegment)
    (layout : LoweredBinaryMatchLayout) (lowered : List LoweredBinaryPattern)
    (checked : resolveBinaryPattern table subjectTy firstLocal segments = some (.ok resolved))
    (lowers : lowerBinaryPattern resolved = some (layout, lowered))
    (accepted : Llvm.accepts lowered = true) :
    ((∀ value block, BinarySubject value block → MatchedAlike layout lowered value block) ↔
      layout.fixedBits.toNat % 8 = 0 ∧ ∀ segment ∈ lowered, BindFits segment) ∧
    ((∀ value block, BitsSubject value block → MatchedAlike layout lowered value block) ↔
      UnboundTail lowered ∧ ∀ segment ∈ lowered, BindFits segment) := by
  obtain ⟨laid, tails⟩ := lowerBinaryPattern_laid checked lowers
  exact ⟨binarySubject_matched_iff laid tails accepted, bitsSubject_matched_iff laid tails accepted⟩

/-- A registry with the type `Binary`. -/
def binaryTable : TypeTable where
  entries id := if id = 0 then some ⟨⟨"Global", ["Binary"]⟩, .other⟩ else none
  typeParamName _ _ := none
  unit := 0

/-- The segment of a pattern that binds `x` at the named type. -/
def byteBinding (name : String) (binding : Option LocalId) : BinarySegment :=
  ⟨⟨.ident "x" binding, .named (.global 0) []⟩, none, .bit, none, none, some (.named name)⟩

/-- The segment `y: UInt16` of a pattern. -/
def wordBinding (binding : Option LocalId) : BinarySegment :=
  ⟨⟨.ident "y" binding, .named (.global 0) []⟩, none, .bit, none, none, some (.named "UInt16")⟩

/-- `<<x: UInt8, y: UInt16>>` binds the bytes `FF 80 01` alike. -/
theorem two_segments_matched_alike :
    MatchedAlike ⟨24, false⟩
      [.bindInt 0 .big 0 .unsigned .uInt8 8, .bindInt 8 .big 1 .unsigned .uInt16 16]
      (.binary [0xFF, 0x80, 0x01]) (.ofBytes [0xFF, 0x80, 0x01]) := by
  refine (binaries_matched_alike_iff binaryTable (.named (.global 0) []) 0
    [byteBinding "UInt8" none, wordBinding none]
    [byteBinding "UInt8" (some 0), wordBinding (some 1)] ⟨24, false⟩
    [.bindInt 0 .big 0 .unsigned .uInt8 8, .bindInt 8 .big 1 .unsigned .uInt16 16]
    (by rfl) (by rfl) (by decide)).1.2 ⟨by decide, ?_⟩ _ _ (.mk _)
  intro segment inside
  simp only [mem_cons, not_mem_nil, or_false] at inside
  rcases inside with rfl | rfl
  · exact ⟨.uInt8, rfl, by decide, .inr (show 8 ≤ 8 from le_rfl)⟩
  · exact ⟨.uInt16, rfl, by decide, .inr (show 16 ≤ 16 from le_rfl)⟩

/-- `<<x: Int8>>` on the byte `FF`: the interpreter binds 255, native code -1. -/
theorem signed_byte_matched_apart :
    resolveBinaryPattern binaryTable (.named (.global 0) []) 0 [byteBinding "Int8" none] =
      some (.ok [byteBinding "Int8" (some 0)]) ∧
    lowerBinaryPattern [byteBinding "Int8" (some 0)] =
      some (⟨8, false⟩, [.bindInt 0 .big 0 .unsigned .int8 8]) ∧
    Llvm.accepts [.bindInt 0 .big 0 .unsigned .int8 8] = true ∧
    executeBinaryMatch ⟨8, false⟩ [.bindInt 0 .big 0 .unsigned .int8 8] (.binary [0xFF]) =
      .ok (some [(0, .int 255)]) ∧
    emitBinaryMatch ⟨8, false⟩ [.bindInt 0 .big 0 .unsigned .int8 8] (.ofBytes [0xFF]) =
      some (some [(0, .int .int8 255)]) ∧
    Eval.valueOf (.int .int8 255) = .int (-1) := by
  refine ⟨rfl, rfl, by decide, rfl, rfl, by decide⟩

end Koja.Guarantees.Binary
