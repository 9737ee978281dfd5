import Koja.Source.Ir.BinaryPattern
import Koja.Source.Typecheck.BinaryPattern
import Koja.Guarantees.Binary.LiteralLayout

/-!
# The layout of an accepted binary pattern

Type checking and lowering walk the segments of a pattern side by side. When the checker
reports nothing, the lowered segments lie one after the other from bit 0 to the fixed total,
and a greedy tail is the last of them (`Laid`).
-/
namespace Koja.Guarantees.Binary

open Koja.Source.Ast Koja.Source.Ir Koja.Source.Typecheck LoweredBinaryPattern List Option

/-- The offset of a lowered segment. -/
def patternOffset : LoweredBinaryPattern → UInt64
  | .literalInt bitOffset .. | .literalBytes bitOffset _ | .bindInt bitOffset ..
  | .discard bitOffset _ | .greedyTail bitOffset .. => bitOffset

/-- A binding takes at least one bit, and a tail is a `Binary` or `Bits`. -/
def BindsBits : LoweredBinaryPattern → Prop
  | .bindInt _ _ _ _ _ width => 0 < width.toNat
  | .greedyTail _ _ ty => ty = .binary ∨ ty = .bits
  | _ => True

/-- The segments lie one after the other from `start` to `total`, a greedy tail last. -/
def Laid (total : Nat) : (start : Nat) → List LoweredBinaryPattern → Prop
  | start, [] => start = total
  | start, segment :: rest =>
    (patternOffset segment).toNat = start ∧ BindsBits segment ∧
    (segment.isGreedyTail = true → rest = []) ∧
    Laid total (start + segment.fixedBits.toNat) rest

/-! ## Widths -/

theorem isDigit_of_parseDigits {text : List Char} {value start : Nat} (parsed : text.foldlM
      (fun value c => (decimalDigit c).map fun d => value * 10 + d) start = some value) :
    ∀ c ∈ text, c.isDigit = true := by
  induction text generalizing start with
  | nil => simp
  | cons _ _ ih =>
    obtain ⟨middle, first, others⟩ := bind_eq_some_iff.1 parsed
    obtain ⟨digit, found, _⟩ := map_eq_some_iff.1 first
    intro c inside
    rcases mem_cons.1 inside with rfl | inside
    · unfold decimalDigit at found
      by_contra notDigit
      simp [notDigit] at found
    · exact ih others c inside

variable {bits width : Nat} {bytes : List UInt8} {segments : List BinarySegment}

/-- A size literal the checker reads is the same number for lowering. -/
theorem parseIntLiteral_of_parseU64 {text : String}
    (parsed : parseU64 text = some bits) : parseIntLiteral text = some (bits : Int) := by
  obtain ⟨digits, small⟩ := filter_eq_some_iff.1 parsed
  have small : bits < 2 ^ 64 := by simpa using small
  have inRange : inI128 (bits : Int) = true := by
    simp only [inI128, decide_eq_true_eq]
    omega
  have every : ∀ c ∈ text.toList, c.isDigit = true := by
    unfold parseDigits at digits
    split at digits
    · cases digits
    · exact isDigit_of_parseDigits digits
  have clean : text.toList.filter (· ≠ '_') = text.toList := by
    refine filter_eq_self.2 fun c inside => ?_
    have digit := every c inside
    simp only [decide_eq_true_eq]
    rintro rfl
    exact absurd digit (by decide)
  have signed : parseSigned 10 decimalDigit text.toList = some (bits : Int) := by
    unfold parseSigned
    split
    · next rest start =>
      have minus := every '-' (by rw [start]; simp)
      exact absurd minus (by decide)
    · rw [digits]
      simp [inRange]
  unfold parseIntLiteral
  rw [clean]
  split
  case h_5 => exact signed
  all_goals
    next start => exact absurd (every _ (by rw [start]; exact .tail _ (.head _))) (by decide)

/-- Lowering gives a segment the width the checker gave it. -/
theorem segmentFixedWidth_of_pattern {segment : BinarySegment}
    (checked : patternFixedWidth segment = .ok width) :
    0 < width ∧ ∃ lowered, segmentFixedWidth segment = some lowered ∧ lowered.toNat = width := by
  revert checked
  fun_cases patternFixedWidth segment with
  | case5 _ text bits parsed positive size =>
    rintro ⟨⟩
    have bound := parseU64_lt parsed
    refine ⟨Nat.pos_of_ne_zero positive, UInt64.ofNat ((width : Int) % 2 ^ 64).toNat, ?_, ?_⟩
    · simp only [segmentFixedWidth, size, parseIntLiteral_of_parseU64 parsed, map_some]
    · rw [UInt64.toNat_ofNat']
      omega
  | case7 name ann size bits found =>
    rintro ⟨⟩
    have bound := integerAnnotationWidth_lt found
    refine ⟨?_, UInt64.ofNat width, by simp only [segmentFixedWidth, size, ann, found, map_some],
      ?_⟩
    · unfold integerAnnotationWidth at found
      repeat' split at found
      all_goals first | contradiction | (obtain rfl := Option.some.inj found; decide)
    · exact Nat.mod_eq_of_lt bound
  | case10 ann size =>
    rintro ⟨⟩
    exact ⟨by decide, 8, by simp only [segmentFixedWidth, size, ann], rfl⟩
  | _ => nofun

theorem literalBytes_fixedBits {bitOffset : UInt64} :
    (literalBytes bitOffset bytes).fixedBits.toNat = min (8 * bytes.length) (2 ^ 64 - 1) := by
  simp only [fixedBits, UInt64.toNat_ofNat']
  omega

/-! ## One segment -/

/-- The checker's step on a segment: the segment it leaves for lowering, what lowering can make
of it, and the bits it adds. -/
structure StepLowers (walk next : PatternWalk) (isLast : Bool) (kept : BinarySegment) : Prop where
  resolved : next.resolved = walk.resolved ++ [kept]
  grows : walk.totalFixedBits ≤ next.totalFixedBits
  bound : walk.totalFixedBits < 2 ^ 64 → next.totalFixedBits < 2 ^ 64
  lowers : ∀ offset lowered, lowerPatternSegment kept offset = some (some lowered) →
    patternOffset lowered = offset ∧ BindsBits lowered ∧
    (lowered.isGreedyTail = true → isLast = true) ∧
    walk.totalFixedBits + lowered.fixedBits.toNat ≤ next.totalFixedBits

section
variable {walk next : PatternWalk} {isLast : Bool} {segment kept : BinarySegment}
  {binding : Option LocalId}

@[simp]
theorem report_diagnostics (texts : List String) :
    (walk.report texts).diagnostics = walk.diagnostics ++ texts :=
  rfl

@[simp]
theorem report_resolved (texts : List String) : (walk.report texts).resolved = walk.resolved :=
  rfl

@[simp]
theorem report_totalFixedBits (texts : List String) :
    (walk.report texts).totalFixedBits = walk.totalFixedBits :=
  rfl

@[simp]
theorem keep_diagnostics : (walk.keep segment).diagnostics = walk.diagnostics :=
  rfl

@[simp]
theorem bind_diagnostics (name : String) :
    (walk.bind name segment).diagnostics = walk.diagnostics :=
  rfl

theorem advance_inv (advanced : walk.advance bits = some next) :
    walk.totalFixedBits + bits < 2 ^ 64 ∧
      next = { walk with totalFixedBits := walk.totalFixedBits + bits } := by
  unfold PatternWalk.advance at advanced
  split at advanced
  · next fits => exact ⟨fits, (Option.some.inj advanced).symm⟩
  · cases advanced

theorem stepLowers_string (found : stringSegmentBytes segment = some bytes)
    (width : bits = min (bytes.length * 8) (2 ^ 64 - 1))
    (advanced : (walk.keep segment).advance bits = some next) :
    StepLowers walk next isLast segment := by
  obtain ⟨fits, rfl⟩ := advance_inv advanced
  refine ⟨rfl, Nat.le_add_right _ _, fun _ => fits, fun offset lowered done => ?_⟩
  simp only [lowerPatternSegment, found, Option.some.injEq] at done
  subst done
  refine ⟨rfl, trivial, by simp [isGreedyTail], ?_⟩
  rw [literalBytes_fixedBits]
  simp only [PatternWalk.keep]
  omega

/-- A segment whose value is an identifier has no string bytes. -/
theorem stringSegmentBytes_ident {name : String}
    (ident : segment.value.kind = .ident name binding) : stringSegmentBytes segment = none := by
  simp [stringSegmentBytes, ident]

theorem stepLowers_tail {name ident : String}
    (size : kept.size = none) (ann : kept.typeAnn = some (.named name))
    (greedy : isBinaryOrBitsAnnotation (.named name) = true)
    (value : kept.value.kind = .ident ident binding)
    (resolved : next.resolved = walk.resolved ++ [kept])
    (bits : next.totalFixedBits = walk.totalFixedBits) (last : isLast = true)
    (bound : ident ≠ "_" → binding.isSome = true) :
    StepLowers walk next isLast kept := by
  refine ⟨resolved, le_of_eq bits.symm, fun small => by rw [bits]; exact small,
    fun offset lowered done => ?_⟩
  have tail : ∃ slot ty, (ty = .binary ∨ ty = .bits) ∧
      lowerGreedyTail kept offset = some (.greedyTail offset slot ty) := by
    unfold lowerGreedyTail
    simp only [size, ann, value]
    have discard : binding = none → ident = "_" := by
      rintro rfl
      by_contra named
      simpa using bound named
    obtain rfl | rfl : name = "Binary" ∨ name = "Bits" := by
      simpa [ isBinaryOrBitsAnnotation] using greedy
    all_goals cases binding <;> simp_all
  obtain ⟨slot, ty, payload, tail⟩ := tail
  simp only [lowerPatternSegment, stringSegmentBytes_ident value, tail, Option.some.injEq] at done
  subst done
  exact ⟨rfl, payload, fun _ => last, by rw [bits]; exact le_of_eq (Nat.add_zero _)⟩

theorem stepLowers_fixed (noString : stringSegmentBytes kept = none)
    (noTail : ∀ offset, lowerGreedyTail kept offset = none)
    (checked : patternFixedWidth kept = .ok width)
    (resolved : next.resolved = walk.resolved ++ [kept])
    (bits : next.totalFixedBits = walk.totalFixedBits + width)
    (fits : next.totalFixedBits < 2 ^ 64) :
    StepLowers walk next isLast kept := by
  obtain ⟨positive, lowWidth, found, same⟩ := segmentFixedWidth_of_pattern checked
  refine ⟨resolved, by omega, fun _ => fits, fun offset lowered done => ?_⟩
  simp only [lowerPatternSegment, noString, noTail offset, found] at done
  split at done
  case h_1 name binding value =>
    split at done
    case isTrue =>
      obtain rfl := Option.some.inj (Option.some.inj done)
      exact ⟨rfl, trivial, by simp [isGreedyTail], by simp only [fixedBits]; omega⟩
    case isFalse =>
      obtain ⟨slot, _, done⟩ := bind_eq_some_iff.1 done
      obtain ⟨ty, _, done⟩ := bind_eq_some_iff.1 done
      obtain rfl := Option.some.inj (Option.some.inj done)
      exact ⟨rfl, by simp only [BindsBits]; omega, by simp [isGreedyTail],
        by simp only [fixedBits]; omega⟩
  case h_2 =>
    obtain ⟨value, _, rfl⟩ := map_eq_some_iff.1 (Option.some.inj done)
    exact ⟨rfl, trivial, by simp [isGreedyTail], by simp only [fixedBits]; omega⟩

/-- A segment that the checker does not take for a greedy tail is none for lowering. -/
theorem lowerGreedyTail_none (notTail : walk.checkGreedyTail isLast segment = none)
    (size : kept.size = segment.size) (ann : kept.typeAnn = segment.typeAnn) (offset : UInt64) :
    lowerGreedyTail kept offset = none := by
  unfold lowerGreedyTail
  rw [size, ann]
  revert notTail
  fun_cases PatternWalk.checkGreedyTail walk isLast segment with
  | case1 name named noSize other =>
    rintro -
    simp only [ isBinaryOrBitsAnnotation, Bool.not_eq_true', decide_eq_false_iff_not,
      not_or] at other
    simp [named, noSize, other]
  | case7 other =>
    rintro -
    split
    · next noSize named => exact (other _ noSize named).elim
    · rfl
  | _ => rintro ⟨⟩

/-- What the checker leaves of a greedy tail it accepts. -/
theorem checkGreedyTail_clean (checked : walk.checkGreedyTail isLast segment = some next)
    (clean : next.diagnostics = []) :
    walk.diagnostics = [] ∧ ∃ kept, StepLowers walk next isLast kept := by
  revert checked
  fun_cases PatternWalk.checkGreedyTail walk isLast segment with
  | case1 | case7 => nofun
  | case2 | case3 | case6 =>
    rintro ⟨⟩
    simp at clean
  | case4 name named noSize greedy last _ ident =>
    rintro ⟨⟩
    refine ⟨clean, { segment with
      value := { segment.value with kind := .ident ident (some walk.nextLocal) } }, ?_⟩
    exact stepLowers_tail noSize named (by simpa using greedy) rfl rfl rfl (by simpa using last)
      fun _ => rfl
  | case5 name named noSize greedy last _ _ _ value discard =>
    rintro ⟨⟩
    exact ⟨clean, _, stepLowers_tail noSize named (by simpa using greedy) value rfl rfl
      (by simpa using last) fun other => absurd other discard⟩

theorem patternFixedWidth_congr (size : kept.size = segment.size)
    (ann : kept.typeAnn = segment.typeAnn) (unit : kept.unit = segment.unit) :
    patternFixedWidth kept = patternFixedWidth segment := by
  unfold patternFixedWidth
  rw [size, ann, unit]

theorem resolveFixed_clean (noString : stringSegmentBytes segment = none)
    (notTail : walk.checkGreedyTail isLast segment = none)
    (resolved : walk.resolveFixed segment = some next) (clean : next.diagnostics = []) :
    walk.diagnostics = [] ∧ ∃ kept, StepLowers walk next isLast kept := by
  have noTail : ∀ offset, lowerGreedyTail segment offset = none :=
    lowerGreedyTail_none notTail rfl rfl
  revert resolved
  fun_cases PatternWalk.resolveFixed walk segment with
  | case1 | case7 | case8 =>
    rintro ⟨⟩
    simp at clean
  | case2 width checked =>
    intro resolved
    obtain ⟨fits, rfl⟩ := advance_inv resolved
    have empty := (append_eq_nil_iff.1 clean).1
    exact ⟨empty, segment, stepLowers_fixed noString noTail checked rfl rfl fits⟩
  | case3 width checked _ name =>
    intro resolved
    obtain ⟨fits, rfl⟩ := advance_inv resolved
    have empty := (append_eq_nil_iff.1 clean).1
    refine ⟨empty, { segment with
      value := { segment.value with kind := .ident name (some walk.nextLocal) } }, ?_⟩
    exact stepLowers_fixed rfl (lowerGreedyTail_none notTail rfl rfl)
      ((patternFixedWidth_congr rfl rfl rfl).trans checked) rfl rfl fits
  | case4 width checked | case5 width checked | case6 width checked =>
    intro resolved
    obtain ⟨fits, rfl⟩ := advance_inv resolved
    have empty := (append_eq_nil_iff.1 (append_eq_nil_iff.1 clean).1).1
    exact ⟨empty, segment, stepLowers_fixed noString noTail checked rfl rfl fits⟩

/-- Every step of the checker that leaves no diagnostic. -/
theorem resolveSegment_clean (resolved : walk.resolveSegment isLast segment = some next)
    (clean : next.diagnostics = []) :
    walk.diagnostics = [] ∧ ∃ kept, StepLowers walk next isLast kept := by
  revert resolved
  fun_cases PatternWalk.resolveSegment walk isLast segment with
  | case1 =>
    rintro ⟨⟩
    simp at clean
  | case2 _ length =>
    intro resolved
    obtain ⟨bytes, found, rfl⟩ := map_eq_some_iff.1 length
    obtain ⟨_, same⟩ := advance_inv resolved
    refine ⟨?_, segment, stepLowers_string found rfl resolved⟩
    rw [same] at clean
    exact clean
  | case3 =>
    rintro ⟨⟩
    split at clean
    · simp at clean
    · next checked single =>
      obtain ⟨empty, kept, lowers⟩ := checkGreedyTail_clean checked clean
      simp only [single]
      exact ⟨empty, kept, lowers.resolved, lowers.grows, lowers.bound, lowers.lowers⟩
  | case4 length notTail =>
    exact fun resolved => resolveFixed_clean (by simpa [stringSegmentByteLength] using length)
      notTail resolved clean

end

/-! ## All segments -/

theorem resolvePatternSegments_diagnostics
    {walk final : PatternWalk} (resolved : resolvePatternSegments walk segments = some final)
    (clean : final.diagnostics = []) : walk.diagnostics = [] := by
  induction segments generalizing walk with
  | nil =>
    obtain rfl := Option.some.inj resolved
    exact clean
  | cons _ _ ih =>
    obtain ⟨next, stepped, others⟩ := bind_eq_some_iff.1 resolved
    exact (resolveSegment_clean stepped (ih others)).1

/-- The segments an accepted pattern lowers to are laid out, and the layout says whether there
is a tail. -/
theorem resolvePatternSegments_laid {walk final : PatternWalk}
    (resolved : resolvePatternSegments walk segments = some final)
    (clean : final.diagnostics = []) :
    ∃ kept, final.resolved = walk.resolved ++ kept ∧ (segments = [] → kept = []) ∧
      ∀ layout last lowered, layout.fixedBits.toNat ≤ walk.totalFixedBits →
        walk.totalFixedBits < 2 ^ 64 →
        lowerPatternSegments layout kept = some (last, lowered) →
        Laid last.fixedBits.toNat layout.fixedBits.toNat lowered ∧
        last.hasGreedyTail = (layout.hasGreedyTail || lowered.any (·.isGreedyTail)) := by
  induction segments generalizing walk with
  | nil =>
    obtain rfl := Option.some.inj resolved
    refine ⟨[], by simp, fun _ => rfl, fun layout last lowered _ _ done => ?_⟩
    obtain ⟨rfl, rfl⟩ := Prod.mk.inj (Option.some.inj done)
    exact ⟨rfl, by simp⟩
  | cons _ _ ih =>
    obtain ⟨next, stepped, others⟩ := bind_eq_some_iff.1 resolved
    have cleanNext := resolvePatternSegments_diagnostics others clean
    obtain ⟨_, first, step⟩ := resolveSegment_clean stepped cleanNext
    obtain ⟨kept, restResolved, noRest, laid⟩ := ih others
    refine ⟨first :: kept, ?_, by simp, fun layout last lowered below bound done => ?_⟩
    · rw [restResolved, step.resolved, append_assoc]
      rfl
    · obtain ⟨result, one, done⟩ := bind_eq_some_iff.1 done
      cases result with
      | none =>
        exact laid layout last lowered (le_trans below step.grows) (step.bound bound) done
      | some head =>
        obtain ⟨⟨final', more⟩, lowerRest, done⟩ := bind_eq_some_iff.1 done
        obtain ⟨rfl, rfl⟩ := Prod.mk.inj (Option.some.inj done)
        obtain ⟨offset, wide, tailLast, width⟩ := step.lowers _ _ one
        have small := step.bound bound
        have sum : (layout.fixedBits + head.fixedBits).toNat =
            layout.fixedBits.toNat + head.fixedBits.toNat := by
          rw [UInt64.toNat_add]
          exact Nat.mod_eq_of_lt (by omega)
        obtain ⟨laidRest, tails⟩ := laid _ _ _ (by rw [sum]; omega) small lowerRest
        refine ⟨⟨by rw [offset], wide, fun tail => ?_, by rw [← sum]; exact laidRest⟩, ?_⟩
        · have nothingKept : kept = [] := noRest (isEmpty_iff.1 (tailLast tail))
          rw [nothingKept] at lowerRest
          exact (Prod.mk.inj (Option.some.inj lowerRest)).2.symm
        · rw [tails, any_cons, Bool.or_assoc]

/-- An accepted pattern, lowered: its segments are laid out from bit 0. -/
theorem lowerBinaryPattern_laid {table : TypeTable} {subjectTy : ResolvedType}
    {firstLocal : LocalId} {resolved : List BinarySegment}
    {layout : LoweredBinaryMatchLayout} {lowered : List LoweredBinaryPattern}
    (accepted : resolveBinaryPattern table subjectTy firstLocal segments = some (.ok resolved))
    (done : lowerBinaryPattern resolved = some (layout, lowered)) :
    Laid layout.fixedBits.toNat 0 lowered ∧
      layout.hasGreedyTail = lowered.any (·.isGreedyTail) := by
  unfold resolveBinaryPattern at accepted
  split at accepted
  · cases accepted
  · obtain ⟨walk, walked, verdict⟩ := bind_eq_some_iff.1 accepted
    split at verdict
    · cases verdict
    · next clean =>
      obtain rfl := Except.ok.inj (Option.some.inj verdict)
      obtain ⟨kept, same, _, laid⟩ := resolvePatternSegments_laid walked (not_not.1 clean)
      rw [same] at done
      simpa using laid _ _ _ le_rfl (Nat.two_pow_pos 64) done

end Koja.Guarantees.Binary
