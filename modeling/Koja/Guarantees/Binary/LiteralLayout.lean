import Koja.Guarantees.Binary.Packing
import Koja.Source.Typecheck.BinaryLiteral

/-!
# The layout of an accepted binary literal

Type checking and lowering walk the segments of a literal side by side. When the checker reports
nothing, lowering succeeds, and every `BinaryConstruct` it emits places its segments one after
the other from bit 0 to the total (`Ready`).
-/
namespace Koja.Guarantees.Binary

open Koja.Lib Koja.Source.Ast Koja.Source.Ir Koja.Source.Typecheck List Option

/-- The values of the registers when the literal is built. -/
abbrev Data := ValueId → Option Datum

/-- The segments lie one after the other from `start` to `total`. -/
def Placed (total : Nat) : (start : Nat) → List LoweredBinarySegment → Prop
  | start, [] => start = total
  | start, segment :: rest =>
    segment.bitOffset.toNat = start ∧ Placed total (start + segment.width.toNat) rest

/-- What lowering guarantees of a single segment: a float segment has a float's width, and a
string segment takes the whole of its string. -/
def Sound (data : Data) : LoweredBinarySegment → Prop
  | .integer .. => True
  | .float _ width _ _ => width = 32 ∨ width = 64
  | .string value byteLength _ => ∃ bytes, data value = some (.string bytes) ∧
      byteLength.toNat = bytes.length ∧ 8 * bytes.length < 2 ^ 64

/-- A `BinaryConstruct` as lowering emits it. -/
structure Ready (data : Data) (layout : ResolvedBinaryLayout)
    (segments : List LoweredBinarySegment) : Prop where
  placed : Placed layout.totalBits.toNat 0 segments
  sound : ∀ segment ∈ segments, Sound data segment
  aligned : layout.byteAligned = decide (layout.totalBits % 8 = 0)

/-- The register of a segment's value agrees with what the checker knows of the value. -/
structure Conforms (table : TypeTable) (data : Data) (lowered : LoweredSegmentValue) : Prop where
  binary : lowered.valueTy = .binary ↔
    table.isPrimitive "Binary" lowered.segment.value.resolution = true
  int : table.isPrimitive "Int" lowered.segment.value.resolution = true →
    ∃ pattern, data lowered.value = some (.int .int64 pattern)
  string : ∀ bytes, stringSegmentBytes lowered.segment = some bytes →
    data lowered.value = some (.string bytes)

/-- The kind lowering gives a segment agrees with the width the checker computed. -/
def WidthAgrees (segment : BinarySegment) (info : SegmentInfo) : ClassifiedSegment → Prop
  | .splice => info.widthBits = none
  | .integer width => info.widthBits = some width.toNat
  | .float width => (width = 32 ∨ width = 64) ∧ info.widthBits = some width.toNat
  | .string byteLength => ∃ bytes, stringSegmentBytes segment = some bytes ∧
      byteLength = UInt64.ofNat bytes.length ∧ info.widthBits = some (bytes.length * 8)

section
variable {total start : Nat} {segments : List LoweredBinarySegment} {segment : LoweredBinarySegment}

theorem Placed.snoc (placed : Placed start 0 segments) (here : segment.bitOffset.toNat = start) :
    Placed (start + segment.width.toNat) 0 (segments ++ [segment]) := by
  suffices general : ∀ first, Placed start first segments →
      Placed (start + segment.width.toNat) first (segments ++ [segment]) from general 0 placed
  clear placed
  induction segments with
  | nil =>
    rintro first rfl
    exact ⟨here, rfl⟩
  | cons _ _ ih => exact fun first placed => ⟨placed.1, ih _ placed.2⟩

end

variable {info : SegmentInfo} {table : TypeTable} {segment : BinarySegment} {width bits : Nat}
  {name : String} {lowered : LoweredSegmentValue}

theorem spliceSegmentInfo_inv (resolved : spliceSegmentInfo table segment = .ok info) :
    info = ⟨none⟩ := by
  unfold spliceSegmentInfo at resolved
  repeat' split at resolved
  all_goals first | contradiction | exact (Except.ok.inj resolved).symm

theorem resolveInteger_inv {sign : IntSign} (resolved : (do
      literalFitsIntSegment segment width sign
      return (⟨some width⟩ : SegmentInfo)) = .ok info) :
    info = ⟨some width⟩ := by
  cases fits : literalFitsIntSegment segment width sign with
  | error => simp [fits] at resolved
  | ok => simpa [fits, eq_comm] using resolved

theorem resolveSized_inv {size : SizeExpr} (resolved : resolveSized table segment size = .ok info) :
    ∃ width, sizedWidth size segment.unit = .ok width ∧ info = ⟨some width⟩ := by
  unfold resolveSized at resolved
  cases sized : sizedWidth size segment.unit with
  | error => simp [sized] at resolved
  | ok width =>
    refine ⟨width, rfl, ?_⟩
    simp only [sized, ok_bind] at resolved
    repeat' split at resolved
    all_goals first | contradiction | exact resolveInteger_inv resolved

theorem integerAnnotationWidth_lt
    (found : integerAnnotationWidth name = some width) : width < 2 ^ 64 := by
  unfold integerAnnotationWidth at found
  repeat' split at found
  all_goals first | contradiction | (obtain rfl := Option.some.inj found; decide)

theorem parseU64_lt {text : String} (parsed : parseU64 text = some bits) : bits < 2 ^ 64 := by
  simpa using (filter_eq_some_iff.1 parsed).2

theorem widthAgrees_integer (bound : width < 2 ^ 64) :
    WidthAgrees segment ⟨some width⟩ (.integer (UInt64.ofNat width)) := by
  simp only [WidthAgrees, UInt64.toNat_ofNat', Nat.mod_eq_of_lt bound]

/-- The kind and width lowering gives a segment the checker accepts. -/
theorem classifySegment_of_resolve (valueTy : Option IRType)
    (bare : segment.size = none → segment.typeAnn = none →
      (valueTy = some .binary ↔ table.isPrimitive "Binary" segment.value.resolution = true))
    (resolved : resolveSegment table segment = .ok info) :
    ∃ kind, classifySegment segment valueTy = .ok kind ∧ WidthAgrees segment info kind := by
  revert resolved
  unfold resolveSegment
  fun_cases classifySegment segment valueTy <;> simp only [*]
  case case1 length =>
    obtain ⟨bytes, found, rfl⟩ := map_eq_some_iff.1 length
    split
    · nofun
    · rintro ⟨⟩
      exact ⟨_, rfl, bytes, found, rfl, rfl⟩
  case case2 parsed =>
    intro resolved
    obtain ⟨width, sized, rfl⟩ := resolveSized_inv resolved
    simp [sizedWidth, parsed] at sized
  case case3 bits parsed unit | case4 bits parsed unit =>
    intro resolved
    obtain ⟨width, sized, rfl⟩ := resolveSized_inv resolved
    simp only [sizedWidth, parsed, unit] at sized
    obtain rfl := Except.ok.inj sized
    have bound := parseU64_lt parsed
    exact ⟨_, rfl, widthAgrees_integer (by omega)⟩
  case case5 | case11 => nofun
  case case6 =>
    exact fun resolved => ⟨_, rfl, congrArg SegmentInfo.widthBits (spliceSegmentInfo_inv resolved)⟩
  case case7 | case8 =>
    rw [resolveAnnotated, if_neg (by decide), if_pos (by decide)]
    split
    · nofun
    · rintro ⟨⟩
      exact ⟨_, rfl, by simp [WidthAgrees]⟩
  case case9 width found =>
    simp only [resolveAnnotated, *]
    intro resolved
    rw [resolveInteger_inv resolved]
    exact ⟨_, rfl, widthAgrees_integer (integerAnnotationWidth_lt found)⟩
  case case10 =>
    simp only [resolveAnnotated, *, false_or, if_false]
    split <;> nofun
  case case12 ann size =>
    rw [if_pos ((bare size ann).1 rfl)]
    exact fun resolved => ⟨_, rfl, congrArg SegmentInfo.widthBits (spliceSegmentInfo_inv resolved)⟩
  case case13 ann size other =>
    rw [if_neg fun binary => other ((bare size ann).2 binary)]
    split
    · nofun
    · exact fun resolved => ⟨_, rfl, by rw [resolveInteger_inv resolved]; rfl⟩

/-- The builder follows the checker's walk. -/
structure Tracks (data : Data) (walk : LiteralWalk) (builder : ConcatBuilder) : Prop where
  bits : builder.runBits.toNat = walk.runBits
  splice : builder.hasSplice = walk.hasSplice
  placed : Placed walk.runBits 0 builder.run
  sound : ∀ segment ∈ builder.run, Sound data segment
  ready : ∀ layout segments, .construct layout segments ∈ builder.operands →
    Ready data layout segments

section
variable {table : TypeTable} {data : Data} {walk next : LiteralWalk} {builder : ConcatBuilder}
  {operands : List LoweredSegmentValue}

theorem Tracks.push {segment : LoweredBinarySegment}
    (tracks : Tracks data walk builder) (offset : segment.bitOffset = builder.runBits)
    (width : segment.width.toNat = bits) (fits : walk.runBits + bits < 2 ^ 64)
    (sound : Sound data segment) (total : Nat) :
    Tracks data { walk with totalBits := total, runBits := walk.runBits + bits }
      (builder.push segment) where
  bits := by
    simp only [ConcatBuilder.push, UInt64.toNat_add, tracks.bits, width]
    exact Nat.mod_eq_of_lt fits
  splice := tracks.splice
  placed := by
    rw [← width]
    exact tracks.placed.snoc (by rw [offset, tracks.bits])
  sound := by
    intro candidate inside
    rcases mem_append.1 inside with earlier | last
    · exact tracks.sound candidate earlier
    · rwa [mem_singleton.1 last]
  ready := tracks.ready

/-- A run of whole bytes, or any run of a literal without splices, is flushed. -/
theorem Tracks.flush (tracks : Tracks data walk builder)
    (whole : walk.hasSplice = true → walk.runBits % 8 = 0) :
    ∃ flushed, builder.flush = .ok flushed ∧ flushed.runBits = 0 ∧ flushed.run = [] ∧
      flushed.hasSplice = builder.hasSplice ∧
      ∀ layout segments, .construct layout segments ∈ flushed.operands →
        Ready data layout segments := by
  unfold ConcatBuilder.flush
  split
  case isTrue empty =>
    have noRun : builder.run = [] := isEmpty_iff.1 empty
    have placed := tracks.placed
    rw [noRun] at placed
    have noBits : builder.runBits.toNat = (0 : UInt64).toNat := by
      rw [tracks.bits]
      exact placed.symm
    exact ⟨builder, rfl, UInt64.toNat_inj.1 noBits, noRun, rfl, tracks.ready⟩
  case isFalse =>
    split
    case isTrue partialRun =>
      simp only [Bool.and_eq_true, bne_iff_ne] at partialRun
      refine absurd ?_ partialRun.2
      rw [← UInt64.toNat_inj, UInt64.toNat_mod, tracks.bits]
      exact whole (by rw [← tracks.splice, partialRun.1])
    case isFalse =>
      refine ⟨_, rfl, rfl, rfl, rfl, fun layout segments inside => ?_⟩
      rcases mem_append.1 inside with earlier | last
      · exact tracks.ready layout segments earlier
      · obtain ⟨rfl, rfl⟩ := ConcatOperand.construct.inj (mem_singleton.1 last)
        exact ⟨by rw [tracks.bits]; exact tracks.placed, tracks.sound, rfl⟩

theorem LiteralWalk.step_diagnostics
    (stepped : walk.step table segment = some next) (clean : next.diagnostics = []) :
    walk.diagnostics = [] ∧ ∃ info, resolveSegment table segment = .ok info ∧
      match info.widthBits with
      | some bits => walk.runBits + bits < 2 ^ 64 ∧
          next = { walk with
            totalBits := walk.totalBits + bits, runBits := walk.runBits + bits }
      | none => walk.runBits % 8 = 0 ∧
          next = { walk with runBits := 0, hasSplice := true } := by
  revert stepped
  fun_cases LiteralWalk.step table walk segment with
  | case1 _ resolved fits =>
    rintro ⟨⟩
    exact ⟨clean, _, resolved, fits.2, rfl⟩
  | case2 => nofun
  | case3 resolved diagnostics =>
    rintro ⟨⟩
    by_cases whole : walk.runBits % 8 = 0
    · have same : diagnostics = walk.diagnostics := if_pos whole
      exact ⟨same ▸ clean, _, resolved, whole, by rw [same]⟩
    · simp [diagnostics, whole] at clean
  | case4 =>
    rintro ⟨⟩
    simp at clean

/-- One segment: lowering follows a step of the checker that reports nothing. -/
theorem Tracks.step (conforms : Conforms table data lowered) (tracks : Tracks data walk builder)
    (stepped : walk.step table lowered.segment = some next) (clean : next.diagnostics = []) :
    ∃ after, builder.step lowered = .ok after ∧ Tracks data next after := by
  obtain ⟨_, info, resolved, moved⟩ := LiteralWalk.step_diagnostics stepped clean
  obtain ⟨kind, classified, agrees⟩ := classifySegment_of_resolve
    (if lowered.segment.size.isNone && lowered.segment.typeAnn.isNone then some lowered.valueTy
      else none) (fun size ann => by simp [size, ann, conforms.binary]) resolved
  unfold ConcatBuilder.step
  simp only [classified]
  cases kind with
  | integer =>
    rw [agrees] at moved
    obtain ⟨fits, rfl⟩ := moved
    refine ⟨_, rfl, tracks.push rfl ?_ fits ?_ _⟩
    · rfl
    · trivial
  | float =>
    rw [agrees.2] at moved
    obtain ⟨fits, rfl⟩ := moved
    refine ⟨_, rfl, tracks.push rfl ?_ fits ?_ _⟩
    · rfl
    · exact agrees.1
  | string =>
    obtain ⟨bytes, found, rfl, width⟩ := agrees
    rw [width] at moved
    obtain ⟨fits, rfl⟩ := moved
    have short : (UInt64.ofNat bytes.length).toNat = bytes.length := by
      exact Nat.mod_eq_of_lt (by omega)
    refine ⟨_, rfl, tracks.push rfl ?_ fits ?_ _⟩
    · simp only [LoweredBinarySegment.width, UInt64.toNat_mul, short]
      exact Nat.mod_eq_of_lt (by simp only [UInt64.reduceToNat]; omega)
    · exact ⟨bytes, conforms.string bytes found, short, by omega⟩
  | splice =>
    rw [agrees] at moved
    obtain ⟨whole, rfl⟩ := moved
    have spliced : Tracks data { walk with hasSplice := true } { builder with hasSplice := true } :=
      ⟨tracks.bits, rfl, tracks.placed, tracks.sound, tracks.ready⟩
    obtain ⟨flushed, done, zero, noRun, kept, ready⟩ := spliced.flush fun _ => whole
    simp only [done]
    refine ⟨_, rfl, ?_, kept, ?_, ?_, ?_⟩
    · simp only [zero]; rfl
    · simp only [noRun]; rfl
    · simp [noRun]
    · intro layout segments inside
      rcases mem_append.1 inside with earlier | last
      · exact ready layout segments earlier
      · cases mem_singleton.1 last

theorem LiteralWalk.foldlM_diagnostics {segments : List BinarySegment}
    (walked : segments.foldlM (LiteralWalk.step table) walk = some next)
    (clean : next.diagnostics = []) : walk.diagnostics = [] := by
  induction segments generalizing walk with
  | nil =>
    obtain rfl := Option.some.inj walked
    exact clean
  | cons _ _ ih =>
    obtain ⟨middle, stepped, rest⟩ := bind_eq_some_iff.1 walked
    exact (LiteralWalk.step_diagnostics stepped (ih rest)).1

theorem Tracks.run (conforms : ∀ lowered ∈ operands, Conforms table data lowered)
    (tracks : Tracks data walk builder)
    (walked : (operands.map (·.segment)).foldlM (LiteralWalk.step table) walk = some next)
    (clean : next.diagnostics = []) :
    ∃ after, operands.foldlM ConcatBuilder.step builder = .ok after ∧ Tracks data next after := by
  induction operands generalizing walk builder with
  | nil =>
    obtain rfl := Option.some.inj walked
    exact ⟨builder, rfl, tracks⟩
  | cons lowered _ ih =>
    obtain ⟨middle, stepped, rest⟩ := bind_eq_some_iff.1 walked
    obtain ⟨after, done, tracksMiddle⟩ := tracks.step (conforms lowered (by simp)) stepped
      (LiteralWalk.foldlM_diagnostics rest clean)
    obtain ⟨last, finished, tracksLast⟩ :=
      ih (fun lowered inside => conforms lowered (by simp [inside])) tracksMiddle rest
    refine ⟨last, ?_, tracksLast⟩
    rw [foldlM_cons, done]
    exact finished

/-- Lowering accepts what the checker accepts, and lays out every construct it emits. -/
theorem lowerBinaryLiteral_ready (conforms : ∀ lowered ∈ operands, Conforms table data lowered)
    (accepted : resolveBinaryLiteral table (operands.map (·.segment)) = some (.ok name)) :
    ∃ parts, lowerBinaryLiteral operands = .ok parts ∧
      ∀ layout segments, .construct layout segments ∈ parts → Ready data layout segments := by
  obtain ⟨walk, walked, verdict⟩ := bind_eq_some_iff.1 accepted
  have clean : walk.diagnostics = [] ∧ (walk.hasSplice = true → walk.runBits % 8 = 0) := by
    by_cases uneven : walk.hasSplice = true ∧ walk.runBits % 8 ≠ 0
    · rw [if_pos uneven, if_pos (by simp)] at verdict
      cases verdict
    · rw [if_neg uneven] at verdict
      by_cases clean : walk.diagnostics = []
      · exact ⟨clean, fun splice => by_contra fun odd => uneven ⟨splice, odd⟩⟩
      · rw [if_pos clean] at verdict
        cases verdict
  have start : Tracks data ⟨0, 0, false, []⟩ .empty :=
    ⟨rfl, rfl, rfl, by simp [ConcatBuilder.empty], by simp [ConcatBuilder.empty]⟩
  obtain ⟨builder, built, tracks⟩ := start.run conforms walked clean.1
  obtain ⟨flushed, done, _, _, _, ready⟩ := tracks.flush clean.2
  unfold lowerBinaryLiteral
  simp only [built, done, ok_bind]
  split
  · refine ⟨_, rfl, fun layout segments inside => ?_⟩
    obtain ⟨rfl, rfl⟩ := ConcatOperand.construct.inj (mem_singleton.1 inside)
    exact ⟨rfl, by simp, rfl⟩
  · exact ⟨_, rfl, ready⟩

end

end Koja.Guarantees.Binary
