import Koja.Guarantees.Binary.LiteralLayout

/-!
# The two backends build the same binaries

A `BinaryConstruct` is built alike by the interpreter and by native code exactly when each of
its segments can be packed alike (`PackedAlike`). An integer segment must be at most 64 bits
wide, and wider than its value's type only if the value is not a negative number: the
interpreter extends the sign, native code extends with zeros. A float or string segment must
start on a byte, since native code stores whole bytes from the byte it starts in.
-/
namespace Koja.Guarantees.Binary

open Koja.Lib Koja.Source Koja.Source.Ast Koja.Source.Ir Koja.Source.Typecheck List Option BitVec
open Eval (segmentWrites orPanic lookup valueOf)

/-- The interpreter's registers. -/
def frameOf (data : Data) : Eval.Frame :=
  fun id => (data id).map Eval.valueOf

/-- The native registers. -/
def valuesOf (data : Data) : Llvm.ValueMap :=
  fun id => (data id).map Llvm.valueOf

variable (conversions : FloatConversions)

/-- The interpreter makes these writes for the segment. -/
def EvalWrites (data : Data) (segment : LoweredBinarySegment) (ops : List ByteOp) : Prop :=
  Eval.segmentWrites conversions (frameOf data) segment = .ok ops

/-- Native code makes these writes for the segment. -/
def NativeWrites (data : Data) (segment : LoweredBinarySegment) (ops : List ByteOp) : Prop :=
  Llvm.emitSegment conversions (valuesOf data) segment = some ops

/-- Both backends build the construct, with the same bits, and no segment is written outside
its own bits. -/
structure BuiltAlike (data : Data)
    (layout : ResolvedBinaryLayout) (segments : List LoweredBinarySegment) : Prop where
  same : ∃ value block,
    Eval.constructBinaryLiteral conversions layout segments (frameOf data) = .ok value ∧
    Llvm.emitBinaryConstruct conversions layout segments (valuesOf data) = some block ∧
    value.bitString = some block.bitString
  apart : ∀ segment ∈ segments, ∀ ops,
    EvalWrites conversions data segment ops ∨ NativeWrites conversions data segment ops →
    ∀ op ∈ ops, op.Within segment.bitOffset.toNat segment.width.toNat

/-- When the backends agree on a segment: its width, its value and its offset. -/
def PackedAlike (data : Data) : LoweredBinarySegment → Prop
  | .integer value width _ _ _ => ∃ kind pattern, data value = some (.int kind pattern) ∧
      width.toNat ≤ 64 ∧
      ((Datum.int kind pattern).negative = true → width.toNat ≤ kind.width)
  | .float value _ _ bitOffset => bitOffset.toNat % 8 = 0 ∧
      ((∃ pattern, data value = some (.float32 pattern)) ∨
        ∃ pattern, data value = some (.float64 pattern))
  | .string _ byteLength bitOffset => bitOffset.toNat % 8 = 0 ∨ byteLength = 0

/-! ## Runs of segments -/

/-- The writes of a list of segments, one segment after the other. -/
inductive Packed (writes : LoweredBinarySegment → List ByteOp → Prop) :
    List LoweredBinarySegment → List UInt8 → List UInt8 → Prop
  | nil (buffer : List UInt8) : Packed writes [] buffer buffer
  | cons {segment : LoweredBinarySegment} {rest : List LoweredBinarySegment}
      {ops : List ByteOp} {buffer middle after : List UInt8} (wrote : writes segment ops)
      (applied : applyOps ops buffer = some middle) (others : Packed writes rest middle after) :
      Packed writes (segment :: rest) buffer after

section
variable {writes other : LoweredBinarySegment → List ByteOp → Prop}
  {segments : List LoweredBinarySegment} {buffer after : List UInt8} {total start : Nat}

theorem Packed.mono (packed : Packed writes segments buffer after)
    (weaker : ∀ segment ∈ segments, ∀ ops, writes segment ops → other segment ops) :
    Packed other segments buffer after := by
  induction packed with
  | nil buffer => exact .nil buffer
  | cons wrote applied _ ih =>
    exact .cons (weaker _ (by simp) _ wrote) applied
      (ih fun segment inside => weaker segment (by simp [inside]))

theorem Packed.length (packed : Packed writes segments buffer after) :
    after.length = buffer.length := by
  induction packed with
  | nil => rfl
  | cons _ applied _ ih => rw [ih, applyOps_length applied]

theorem Placed.start_le (placed : Placed total start segments) : start ≤ total := by
  induction segments generalizing start with
  | nil => exact Nat.le_of_eq placed
  | cons _ _ ih => exact le_trans (Nat.le_add_right _ _) (ih placed.2)

/-- Segments whose writes stay inside them can be written to a buffer of the total size. -/
theorem Packed.exists_of_within (placed : Placed total start segments)
    (room : total ≤ 8 * buffer.length) (each : ∀ segment ∈ segments, ∃ ops, writes segment ops ∧
      ∀ op ∈ ops, op.Within segment.bitOffset.toNat segment.width.toNat) :
    ∃ after, Packed writes segments buffer after := by
  induction segments generalizing start buffer with
  | nil => exact ⟨buffer, .nil buffer⟩
  | cons segment _ ih =>
    obtain ⟨ops, wrote, within⟩ := each segment (by simp)
    have fits : segment.bitOffset.toNat + segment.width.toNat ≤ 8 * buffer.length := by
      have := placed.2.start_le
      rw [placed.1]
      omega
    obtain ⟨middle, applied⟩ := applyOps_isSome within fits
    obtain ⟨after, others⟩ := @ih middle _ placed.2 (by rw [applyOps_length applied]; exact room)
      fun segment inside => each segment (by simp [inside])
    exact ⟨after, .cons wrote applied others⟩

theorem Packed.frame (packed : Packed writes segments buffer after)
    (placed : Placed total start segments)
    (within : ∀ segment ∈ segments, ∀ ops, writes segment ops →
      ∀ op ∈ ops, op.Within segment.bitOffset.toNat segment.width.toNat)
    {position : Nat} (before : position < start) :
    bitAt after position = bitAt buffer position := by
  induction packed generalizing start with
  | nil => rfl
  | @cons segment rest ops buffer middle after wrote applied _ ih =>
    rw [ih placed.2 (fun segment inside => within segment (by simp [inside])) (by omega)]
    exact applyOps_frame applied (within segment (by simp) ops wrote)
      (.inl (by rw [placed.1]; exact before))

/-- A segment's bits in the finished buffer are those its own writes left, on clear bits. -/
theorem Packed.segment (packed : Packed writes segments buffer after)
    (placed : Placed total start segments)
    (within : ∀ segment ∈ segments, ∀ ops, writes segment ops →
      ∀ op ∈ ops, op.Within segment.bitOffset.toNat segment.width.toNat)
    (clear : ∀ position, start ≤ position → bitAt buffer position = false)
    {segment : LoweredBinarySegment} (inside : segment ∈ segments) :
    ∃ ops before now, writes segment ops ∧ applyOps ops before = some now ∧
      (∀ position, segment.bitOffset.toNat ≤ position → bitAt before position = false) ∧
      segment.bitOffset.toNat + segment.width.toNat ≤ total ∧
      ∀ position, position < segment.bitOffset.toNat + segment.width.toNat →
        bitAt after position = bitAt now position := by
  induction packed generalizing start with
  | nil => cases inside
  | @cons head rest ops buffer middle after wrote applied others ih =>
    have withinRest : ∀ segment ∈ rest, ∀ ops, writes segment ops →
        ∀ op ∈ ops, op.Within segment.bitOffset.toNat segment.width.toNat :=
      fun segment inside => within segment (by simp [inside])
    have headAt : head.bitOffset.toNat = start := placed.1
    rcases mem_cons.1 inside with rfl | later
    · refine ⟨ops, buffer, middle, wrote, applied, ?_, ?_, ?_⟩
      · exact fun position low => clear position (headAt ▸ low)
      · rw [headAt]
        exact placed.2.start_le
      · intro position bound
        exact others.frame placed.2 withinRest (headAt ▸ bound)
    · refine ih placed.2 withinRest (fun position low => ?_) later
      rw [applyOps_frame applied (within head (by simp) ops wrote)
        (.inr (by rw [headAt]; exact low))]
      exact clear position (by omega)

end

section
variable {conversions : FloatConversions} {data : Data} {layout : ResolvedBinaryLayout}
  {segments : List LoweredBinarySegment}

theorem orPanic_eq_ok {α : Type} {result : Option α} {a : α} :
    orPanic result = .ok a ↔ result = some a := by
  cases result <;> simp [orPanic]

/-- A loop that writes segment after segment, in the interpreter. -/
theorem foldlM_evalWrites {buffer after : List UInt8} : segments.foldlM (fun buffer segment => do
          let writes ← segmentWrites conversions (frameOf data) segment
          orPanic (applyOps writes buffer))
        buffer = .ok after ↔
      Packed (EvalWrites conversions data) segments buffer after := by
  induction segments generalizing buffer with
  | nil =>
    constructor
    · intro done
      obtain rfl := Except.ok.inj done
      exact .nil buffer
    · rintro ⟨⟩
      rfl
  | cons segment _ ih =>
    rw [foldlM_cons]
    constructor
    · intro done
      obtain ⟨middle, first, others⟩ := bind_eq_ok.1 done
      obtain ⟨ops, wrote, applied⟩ := bind_eq_ok.1 first
      exact .cons wrote (orPanic_eq_ok.1 applied) (ih.1 others)
    · rintro (_ | ⟨wrote, applied, others⟩)
      refine bind_eq_ok.2 ⟨_, ?_, ih.2 others⟩
      exact bind_eq_ok.2 ⟨_, wrote, orPanic_eq_ok.2 applied⟩

theorem foldlM_nativeWrites {buffer after : List UInt8} : segments.foldlM (fun payload segment => do
          let writes ← Llvm.emitSegment conversions (valuesOf data) segment
          applyOps writes payload)
        buffer = some after ↔
      Packed (NativeWrites conversions data) segments buffer after := by
  induction segments generalizing buffer with
  | nil =>
    constructor
    · intro done
      obtain rfl := Option.some.inj done
      exact .nil buffer
    · rintro ⟨⟩
      rfl
  | cons _ _ ih =>
    constructor
    · intro done
      obtain ⟨middle, first, others⟩ := bind_eq_some_iff.1 done
      obtain ⟨ops, wrote, applied⟩ := bind_eq_some_iff.1 first
      exact .cons wrote applied (ih.1 others)
    · rintro (_ | ⟨wrote, applied, others⟩)
      refine bind_eq_some_iff.2 ⟨_, ?_, ih.2 others⟩
      exact bind_eq_some_iff.2 ⟨_, wrote, applied⟩

theorem constructBinaryLiteral_ok_iff {value : Eval.Value} :
    Eval.constructBinaryLiteral conversions layout segments (frameOf data) = .ok value ↔
      ∃ after, Packed (EvalWrites conversions data) segments
          (List.replicate ((layout.totalBits.toNat + 7) / 8) 0) after ∧
        value = if layout.byteAligned then .binary after
          else .bits after layout.totalBits.toNat := by
  unfold Eval.constructBinaryLiteral
  simp only [← foldlM_evalWrites]
  cases segments.foldlM (fun buffer segment => do
        let writes ← segmentWrites conversions (frameOf data) segment
        orPanic (applyOps writes buffer))
      (List.replicate ((layout.totalBits.toNat + 7) / 8) 0) with
  | error fault => simp
  | ok after =>
    cases layout.byteAligned <;> simp [eq_comm]

theorem emitBinaryConstruct_some_iff {block : Llvm.Block} :
    Llvm.emitBinaryConstruct conversions layout segments (valuesOf data) = some block ↔
      ∃ after, Packed (NativeWrites conversions data) segments
          (List.replicate ((layout.totalBits.toNat + 7) / 8) 0) after ∧
        block = ⟨layout.totalBits.toNat, after⟩ := by
  unfold Llvm.emitBinaryConstruct
  simp only [← foldlM_nativeWrites]
  cases segments.foldlM (fun payload segment => do
        let writes ← Llvm.emitSegment conversions (valuesOf data) segment
        applyOps writes payload)
      (List.replicate ((layout.totalBits.toNat + 7) / 8) 0) with
  | none => simp
  | some after => simp [eq_comm]

end

/-! ## Single segments -/

/-- The interpreter's 64-bit form of an integer. -/
def extended (kind : IntKind) (pattern : BitVec kind.width) : BitVec 64 :=
  if kind.signed then pattern.signExtend 64 else pattern.setWidth 64

theorem IntKind.width_le (kind : IntKind) : kind.width ≤ 64 := by
  cases kind <;> decide

/-- The bits above the type are the sign in the interpreter and zero in native code. -/
theorem extended_high {kind : IntKind} {pattern : BitVec kind.width} {bit : Nat}
    (high : kind.width ≤ bit) (small : bit < 64) :
    (extended kind pattern).getLsbD bit = (Datum.int kind pattern).negative := by
  unfold extended Datum.negative
  cases signed : kind.signed with
  | true =>
    rw [if_pos rfl, getLsbD_signExtend]
    simp [small, Nat.not_lt.2 high, signed]
  | false => simp [getLsbD_of_ge pattern bit high, signed]

theorem extended_low {kind : IntKind} {pattern : BitVec kind.width} {bit : Nat}
    (low : bit < kind.width) :
    (extended kind pattern).getLsbD bit = (pattern.setWidth 64).getLsbD bit := by
  have small : bit < 64 := lt_of_lt_of_le low (IntKind.width_le kind)
  unfold extended
  split
  · rw [getLsbD_signExtend]
    simp [low]
  · rfl

section
variable {conversions : FloatConversions} {data : Data} {value : ValueId}
  {width bitOffset byteLength : UInt64} {sign : BinarySign} {endian : BinaryEndian}
  {ops : List ByteOp}

theorem lookup_of_some {datum : Datum} (found : data value = some datum) :
    Eval.lookup (frameOf data) value = .ok (Eval.valueOf datum) := by
  simp [Eval.lookup, frameOf, found]

theorem lookup_of_none (missing : data value = none) :
    Eval.lookup (frameOf data) value = .error (.undefinedValue value) := by
  simp [Eval.lookup, frameOf, missing]

theorem evalWrites_integer_iff :
    EvalWrites conversions data (.integer value width sign endian bitOffset) ops ↔
      ∃ kind pattern, data value = some (.int kind pattern) ∧ width.toNat ≤ 64 ∧
        ops = segmentOps (extended kind pattern) width.toNat endian bitOffset.toNat := by
  unfold EvalWrites segmentWrites
  cases found : data value with
  | none => simp [lookup_of_none found]
  | some datum =>
    simp only [lookup_of_some found, ok_bind]
    cases datum with
    | int kind pattern =>
      simp only [valueOf]
      by_cases small : width.toNat ≤ 64
      · rw [packIntegerSegment_eq small]
        constructor
        · intro done
          exact ⟨kind, pattern, rfl, small, (Except.ok.inj done).symm⟩
        · rintro ⟨_, _, same, _, rfl⟩
          cases Option.some.inj same
          rfl
      · rw [packIntegerSegment_none (Nat.lt_of_not_le small)]
        simp [orPanic, small]
    | _ => simp [valueOf]

theorem nativeWrites_integer_iff {kind : IntKind} {pattern : BitVec kind.width}
    (found : data value = some (.int kind pattern)) (small : width.toNat ≤ 64) :
    NativeWrites conversions data (.integer value width sign endian bitOffset) ops ↔
      ops = segmentOps (pattern.setWidth 64) width.toNat endian bitOffset.toNat := by
  have widened : Llvm.lookupIntWidened (valuesOf data) value = some (pattern.setWidth 64) := by
    cases kind <;> simp [Llvm.lookupIntWidened, valuesOf, found, Llvm.valueOf]
  unfold NativeWrites Llvm.emitSegment segmentOps
  simp only [widened, bind, Option.bind]
  split
  · rw [emitBytePackedInt_eq small]
    simp [eq_comm]
  · rw [packBitsSegment_eq small]
    simp [eq_comm]

/-- The bits of a float segment, the same in both backends. -/
def floatPattern (conversions : FloatConversions) (data : Data) (value : ValueId)
    (width : UInt64) : Option (BitVec 64) :=
  (data value).bind fun datum =>
    Eval.floatBits conversions width (Eval.valueOf datum)

theorem evalWrites_float_iff (isFloat : width = 32 ∨ width = 64) :
    EvalWrites conversions data (.float value width endian bitOffset) ops ↔
      ∃ bits, floatPattern conversions data value width = some bits ∧
        ops = segmentOps bits width.toNat endian bitOffset.toNat := by
  have small : width.toNat ≤ 64 := by rcases isFloat with rfl | rfl <;> decide
  unfold EvalWrites segmentWrites floatPattern
  cases found : data value with
  | none => simp [lookup_of_none found]
  | some datum =>
    simp only [lookup_of_some found, bind_some, ok_bind]
    cases Eval.floatBits conversions width (valueOf datum) with
    | none => simp [orPanic]
    | some => simp [orPanic, packIntegerSegment_eq small, eq_comm]

theorem nativeWrites_float_iff (isFloat : width = 32 ∨ width = 64) :
    NativeWrites conversions data (.float value width endian bitOffset) ops ↔
      ∃ bits, floatPattern conversions data value width = some bits ∧
        ops = storeOps bits width.toNat endian (bitOffset.toNat / 8) := by
  have small : width.toNat ≤ 64 := by rcases isFloat with rfl | rfl <;> decide
  have same : Llvm.floatValueAsI64 conversions (valuesOf data) value width =
      floatPattern conversions data value width := by
    unfold Llvm.floatValueAsI64 floatPattern valuesOf
    cases data value with
    | none => rfl
    | some datum => rcases isFloat with rfl | rfl <;> cases datum <;> rfl
  unfold NativeWrites Llvm.emitSegment
  simp only [same, emitBytePackedInt_eq small]
  cases floatPattern conversions data value width <;> simp [eq_comm]

/-- A float segment has bits exactly for a value of a float type. -/
theorem floatPattern_some_iff (isFloat : width = 32 ∨ width = 64) :
    (∃ bits, floatPattern conversions data value width = some bits) ↔
      (∃ pattern, data value = some (.float32 pattern)) ∨
        ∃ pattern, data value = some (.float64 pattern) := by
  unfold floatPattern
  cases data value with
  | none => simp
  | some datum =>
    rcases isFloat with rfl | rfl <;> cases datum <;> simp [valueOf, Eval.floatBits]

/-- The stores of a string segment. -/
def stringOps (bytes : List UInt8) (startByte : Nat) : List ByteOp :=
  bytes.mapIdx fun i byte => .store (startByte + i) byte

theorem evalWrites_string_iff {bytes : List UInt8} (found : data value = some (.string bytes))
    (whole : byteLength.toNat = bytes.length) :
    EvalWrites conversions data (.string value byteLength bitOffset) ops ↔
      ops = stringOps bytes (bitOffset.toNat / 8) := by
  unfold EvalWrites segmentWrites
  simp [lookup_of_some found, valueOf, Eval.copySlice, whole,
    orPanic, stringOps, eq_comm]

theorem nativeWrites_string_iff {bytes : List UInt8} (found : data value = some (.string bytes))
    (whole : byteLength.toNat = bytes.length) :
    NativeWrites conversions data (.string value byteLength bitOffset) ops ↔
      ops = stringOps bytes (bitOffset.toNat / 8) := by
  unfold NativeWrites Llvm.emitSegment valuesOf
  simp [found, Llvm.valueOf, Llvm.Block.ofBytes, Llvm.memcpy, whole, stringOps, eq_comm]

theorem stringOps_within_iff {bytes : List UInt8} {startBit : Nat} :
    (∀ op ∈ stringOps bytes (startBit / 8), op.Within startBit (8 * bytes.length)) ↔
      startBit % 8 = 0 ∨ bytes = [] := by
  constructor
  · intro within
    cases bytes with
    | nil => exact .inr rfl
    | cons byte =>
      have first := within (.store (startBit / 8 + 0) byte) (by simp [stringOps])
      have low : startBit ≤ 8 * (startBit / 8 + 0) := first.1
      exact .inl (by omega)
  · rintro (aligned | rfl) op inside
    · obtain ⟨i, bound, rfl⟩ := mem_mapIdx.1 inside
      exact ⟨by omega, by omega⟩
    · simp [stringOps] at inside

end

/-! ## Constructs -/

section
variable {conversions : FloatConversions} {data : Data} {layout : ResolvedBinaryLayout}
  {segments : List LoweredBinarySegment} {segment : LoweredBinarySegment}

theorem stringWidth_toNat {byteLength : UInt64} {bytes : List UInt8}
    (whole : byteLength.toNat = bytes.length) (short : 8 * bytes.length < 2 ^ 64) :
    (byteLength * 8).toNat = 8 * bytes.length := by
  have product : (byteLength * 8).toNat = bytes.length * 8 % 2 ^ 64 := by
    rw [UInt64.toNat_mul, whole]
    rfl
  omega

/-- A segment that can be packed alike gets the same writes in both backends, inside it. -/
theorem PackedAlike.writes (conversions : FloatConversions) (packable : PackedAlike data segment)
    (sound : Sound data segment) :
    ∃ ops, (EvalWrites conversions data segment ops ∧ NativeWrites conversions data segment ops) ∧
      ∀ op ∈ ops, op.Within segment.bitOffset.toNat segment.width.toNat := by
  cases segment with
  | integer _ width =>
    obtain ⟨kind, pattern, found, small, fits⟩ := packable
    have same : ∀ bit < width.toNat,
        (extended kind pattern).getLsbD bit = (pattern.setWidth 64).getLsbD bit := by
      intro bit inside
      by_cases low : bit < kind.width
      · exact extended_low low
      · rw [extended_high (by omega) (by omega), getLsbD_setWidth,
          getLsbD_of_ge pattern bit (by omega), Bool.and_false, ← Bool.not_eq_true]
        exact fun negative => by have := fits negative; omega
    refine ⟨_, ⟨evalWrites_integer_iff.2 ⟨kind, pattern, found, small, rfl⟩, ?_⟩, ?_⟩
    · rw [segmentOps_congr same]
      exact (nativeWrites_integer_iff found small).2 rfl
    · exact segmentOps_within
  | float _ width endian bitOffset =>
    obtain ⟨aligned, isFloat⟩ := packable
    obtain ⟨bits, found⟩ := (@floatPattern_some_iff conversions _ _ _ sound).2 isFloat
    have whole : width.toNat % 8 = 0 := by rcases sound with rfl | rfl <;> rfl
    refine ⟨segmentOps bits width.toNat endian bitOffset.toNat,
      ⟨(evalWrites_float_iff sound).2 ⟨bits, found, rfl⟩, ?_⟩, segmentOps_within⟩
    refine (nativeWrites_float_iff sound).2 ⟨bits, found, ?_⟩
    exact if_pos ⟨aligned, whole⟩
  | string =>
    obtain ⟨bytes, found, whole, short⟩ := sound
    refine ⟨_, ⟨(evalWrites_string_iff found whole).2 rfl,
      (nativeWrites_string_iff found whole).2 rfl⟩, ?_⟩
    simp only [LoweredBinarySegment.width, stringWidth_toNat whole short]
    refine stringOps_within_iff.2 (packable.imp_right fun empty => ?_)
    rw [empty] at whole
    exact eq_nil_of_length_eq_zero whole.symm

theorem bitAt_replicate_zero (count position : Nat) :
    bitAt (List.replicate count 0) position = false := by
  unfold bitAt
  rw [getElem?_replicate]
  split <;> simp [bitOf]

/-- Equal bit strings of a construct are equal bits up to its total. -/
theorem bits_of_bitString {first second : List UInt8}
    (aligned : layout.byteAligned = decide (layout.totalBits % 8 = 0))
    (length : first.length = (layout.totalBits.toNat + 7) / 8) :
    (if layout.byteAligned then Eval.Value.binary first
        else .bits first layout.totalBits.toNat).bitString =
        some (Llvm.Block.mk layout.totalBits.toNat second).bitString ↔
      ∀ position < layout.totalBits.toNat, bitAt first position = bitAt second position := by
  have read : (if layout.byteAligned then Eval.Value.binary first
      else .bits first layout.totalBits.toNat).bitString =
      some (readBits first layout.totalBits.toNat) := by
    split
    case isTrue whole =>
      rw [aligned, decide_eq_true_iff, ← UInt64.toNat_inj] at whole
      have whole : layout.totalBits.toNat % 8 = 0 := whole
      simp only [Eval.Value.bitString]
      congr 2
      omega
    case isFalse => rfl
  rw [read]
  simp [Llvm.Block.bitString, readBits]

/-- A construct built alike has only segments that can be packed alike. -/
theorem BuiltAlike.packedAlike (built : BuiltAlike conversions data layout segments)
    (ready : Ready data layout segments) (inside : segment ∈ segments) :
    PackedAlike data segment := by
  obtain ⟨⟨value, block, evaluated, emitted, same⟩, apart⟩ := built
  obtain ⟨evalAfter, evalPacked, rfl⟩ := constructBinaryLiteral_ok_iff.1 evaluated
  obtain ⟨nativeAfter, nativePacked, rfl⟩ := emitBinaryConstruct_some_iff.1 emitted
  have clear : ∀ position, 0 ≤ position →
      bitAt (List.replicate ((layout.totalBits.toNat + 7) / 8) 0) position = false :=
    fun position _ => bitAt_replicate_zero _ position
  obtain ⟨evalOps, evalBefore, evalNow, evalWrote, evalApplied, evalClear, bound, evalKept⟩ :=
    evalPacked.segment ready.placed
      (fun segment inside ops wrote => apart segment inside ops (.inl wrote)) clear inside
  obtain ⟨ops, before, now, wrote, applied, nativeClear, _, kept⟩ :=
    nativePacked.segment ready.placed
      (fun segment inside ops wrote => apart segment inside ops (.inr wrote)) clear inside
  have sameBits := (bits_of_bitString ready.aligned (by rw [evalPacked.length]; simp)).1 same
  have within := apart segment inside ops (.inr wrote)
  have sound := ready.sound segment inside
  cases segment with
  | integer _ width sign endian bitOffset =>
    obtain ⟨kind, pattern, found, small, rfl⟩ := evalWrites_integer_iff.1 evalWrote
    refine ⟨kind, pattern, found, small, fun negative => ?_⟩
    by_contra wide
    obtain rfl := (nativeWrites_integer_iff found small).1 wrote
    -- the segment's highest bit is the sign in one backend and zero in the other
    obtain ⟨i, place, top⟩ :=
      @laidBit_top width.toNat bitOffset.toNat endian (by omega)
    simp only [LoweredBinarySegment.width, LoweredBinarySegment.bitOffset] at *
    have evalBit := segmentOps_bits evalApplied (evalClear _ (by omega)) place
    have nativeBit := segmentOps_bits applied (nativeClear _ (by omega)) place
    rw [extended_high (by omega) (by omega), negative] at evalBit
    rw [getLsbD_setWidth, getLsbD_of_ge pattern _ (by omega),
      Bool.and_false] at nativeBit
    have agree := sameBits (bitOffset.toNat + i) (by omega)
    rw [evalKept _ (by omega), kept _ (by omega), evalBit, nativeBit] at agree
    cases agree
  | float _ width =>
    obtain ⟨bits, found, rfl⟩ := (nativeWrites_float_iff sound).1 wrote
    have bytes : 8 ≤ width.toNat := by rcases sound with rfl | rfl <;> decide
    exact ⟨aligned_of_storeOps_within bytes within, (floatPattern_some_iff sound).1 ⟨bits, found⟩⟩
  | string =>
    obtain ⟨bytes, found, whole, short⟩ := sound
    obtain rfl := (nativeWrites_string_iff found whole).1 wrote
    simp only [LoweredBinarySegment.width, stringWidth_toNat whole short] at within
    refine (stringOps_within_iff.1 within).imp_right fun empty => ?_
    subst empty
    exact UInt64.toNat_inj.1 whole

/-- A construct whose segments can be packed alike is built alike. -/
theorem builtAlike_of_packedAlike (ready : Ready data layout segments)
    (each : ∀ segment ∈ segments, PackedAlike data segment) :
    BuiltAlike conversions data layout segments := by
  have room : layout.totalBits.toNat ≤
      8 * (List.replicate ((layout.totalBits.toNat + 7) / 8) (0 : UInt8)).length := by
    rw [length_replicate]
    omega
  obtain ⟨after, packed⟩ := Packed.exists_of_within ready.placed room fun segment inside =>
    (each segment inside).writes conversions (ready.sound segment inside)
  refine ⟨⟨_, _, constructBinaryLiteral_ok_iff.2 ⟨after, packed.mono fun _ _ _ both => both.1, rfl⟩,
    emitBinaryConstruct_some_iff.2 ⟨after, packed.mono fun _ _ _ both => both.2, rfl⟩, ?_⟩, ?_⟩
  · exact (bits_of_bitString ready.aligned (by rw [packed.length]; simp)).2 fun _ _ => rfl
  · intro segment inside ops wrote
    obtain ⟨known, ⟨evalWrote, nativeWrote⟩, within⟩ :=
      (each segment inside).writes conversions (ready.sound segment inside)
    rcases wrote with wrote | wrote
    · rw [show ops = known from Except.ok.inj (wrote.symm.trans evalWrote)]
      exact within
    · rw [show ops = known from Option.some.inj (wrote.symm.trans nativeWrote)]
      exact within

end

/-- The two backends build every construct of an accepted literal alike exactly when each of its
segments can be packed alike. -/
theorem binaries_built_alike_iff (conversions : FloatConversions) (table : TypeTable)
    (data : Data) (operands : List LoweredSegmentValue) (name : String)
    (accepted : resolveBinaryLiteral table (operands.map (·.segment)) = some (.ok name))
    (conforms : ∀ lowered ∈ operands, Conforms table data lowered) :
    ∃ parts, lowerBinaryLiteral operands = .ok parts ∧
      ∀ layout segments, .construct layout segments ∈ parts →
        (BuiltAlike conversions data layout segments ↔
          ∀ segment ∈ segments, PackedAlike data segment) := by
  obtain ⟨parts, lowered, ready⟩ := lowerBinaryLiteral_ready conforms accepted
  refine ⟨parts, lowered, fun layout segments inside => ⟨?_, ?_⟩⟩
  · exact fun built segment among => built.packedAlike (ready layout segments inside) among
  · exact builtAlike_of_packedAlike (ready layout segments inside)

/-- A registry with the types `Int` and `Int8`. -/
def integerTable : TypeTable where
  entries id :=
    if id = 0 then some ⟨⟨"Global", ["Int"]⟩, .other⟩
    else if id = 1 then some ⟨⟨"Global", ["Int8"]⟩, .other⟩
    else none
  typeParamName _ _ := none
  unit := 0

/-- The segment `x: Int16` of a variable of type `Int8`, in register 0. -/
def narrowSegment : LoweredSegmentValue where
  segment := ⟨⟨.ident "x" none, .named (.global 1) []⟩, none, .bit, none, none,
    some (.named "Int16")⟩
  value := 0
  valueTy := .int8

/-- The register holds an `Int8`. -/
def narrowData (pattern : BitVec 8) : Data :=
  fun id => if id = 0 then some (.int .int8 pattern) else none

/-- The segment `x: UInt8` of the same variable. -/
def byteSegment : LoweredSegmentValue :=
  { narrowSegment with
    segment := { narrowSegment.segment with typeAnn := some (.named "UInt8") } }

theorem narrowData_conforms (pattern : BitVec 8) : ∀ lowered ∈ [narrowSegment, byteSegment],
    Conforms integerTable (narrowData pattern) lowered := by
  intro lowered inside
  simp only [mem_cons, not_mem_nil, or_false] at inside
  rcases inside with rfl | rfl
  all_goals
    refine ⟨⟨fun same => ?_, fun binary => ?_⟩, fun int => ?_, fun bytes string => ?_⟩
    · cases same
    · exact absurd binary (by decide)
    · exact absurd int (by decide)
    · cases string

/-- `<<x: Int16, x: UInt8>>` with a positive `x : Int8` is built alike. -/
theorem two_segments_built_alike :
    ∃ parts, lowerBinaryLiteral [narrowSegment, byteSegment] = .ok parts ∧
      ∀ layout segments, .construct layout segments ∈ parts →
        BuiltAlike ⟨BitVec.setWidth 32, BitVec.setWidth 64⟩ (narrowData 7) layout segments := by
  obtain ⟨parts, lowered, alike⟩ := binaries_built_alike_iff
    ⟨setWidth 32, setWidth 64⟩ integerTable (narrowData 7) [narrowSegment, byteSegment] "Binary"
    (by decide) (narrowData_conforms 7)
  refine ⟨parts, lowered, fun layout segments inside => (alike layout segments inside).2 ?_⟩
  have known : lowerBinaryLiteral [narrowSegment, byteSegment] = .ok [.construct ⟨24, true⟩
      [.integer 0 16 .unsigned .big 0, .integer 0 8 .unsigned .big 16]] := by decide
  obtain rfl := Except.ok.inj (lowered.symm.trans known)
  obtain ⟨rfl, rfl⟩ := ConcatOperand.construct.inj (mem_singleton.1 inside)
  intro segment among
  simp only [mem_cons, not_mem_nil, or_false] at among
  rcases among with rfl | rfl
  · exact ⟨.int8, 7, rfl, by decide, by decide⟩
  · exact ⟨.int8, 7, rfl, by decide, by decide⟩

/-- `<<x: Int16>>` with `x : Int8` equal to -1: the interpreter builds `FF FF`, native code
`00 FF`. -/
theorem negative_byte_built_apart :
    resolveBinaryLiteral integerTable [narrowSegment.segment] = some (.ok "Binary") ∧
    (∀ lowered ∈ [narrowSegment], Conforms integerTable (narrowData 255) lowered) ∧
    lowerBinaryLiteral [narrowSegment] =
      .ok [.construct ⟨16, true⟩ [.integer 0 16 .unsigned .big 0]] ∧
    (∀ conversions, Eval.constructBinaryLiteral conversions ⟨16, true⟩
      [.integer 0 16 .unsigned .big 0] (frameOf (narrowData 255)) = .ok (.binary [255, 255])) ∧
    ∀ conversions, Llvm.emitBinaryConstruct conversions ⟨16, true⟩
      [.integer 0 16 .unsigned .big 0] (valuesOf (narrowData 255)) = some ⟨16, [0, 255]⟩ := by
  refine ⟨by decide, fun lowered inside => narrowData_conforms 255 lowered
    (mem_cons.2 (.inl (mem_singleton.1 inside))), by decide, fun conversions => ?_,
    fun conversions => ?_⟩
  · rfl
  · rfl

end Koja.Guarantees.Binary
