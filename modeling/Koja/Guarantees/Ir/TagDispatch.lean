import Mathlib.Data.List.Basic
import Koja.Source.Ir.TagDispatch

/-!
# Which arm tag dispatch enters

Running a check is matching a pattern with the backend's own tag comparison (`matchesBy`),
whatever that comparison is, as long as it accepts no other tag. Native code compares tags
exactly. The interpreter reads a tag as an unsigned number and the constant it is compared with as
a signed one, so a test against a tag of 128 or more never succeeds there.
-/
namespace Koja.Guarantees.Ir.Dispatch

open Koja.Source.Ir.Dispatch List

variable {α : Type} {arms : List (MatchArm α)} {arm : MatchArm α}

/-! ## Tag comparisons -/

/-- A comparison of a value's tag with an expected one. -/
abbrev TagEq := TagKind → BitVec 8 → BitVec 8 → Bool

/-- The comparison a tag test stands for. -/
def exactTag : TagEq :=
  fun _ tag expected => tag == expected

/-- A comparison that accepts no other tag. -/
def AcceptsOnly (tagEq : TagEq) : Prop :=
  ∀ kind tag expected, tagEq kind tag expected = true → tag = expected

theorem native_int8 (expected : BitVec 8) : native.int8 expected = expected := by
  show (expected.signExtend 64).setWidth 8 = expected
  revert expected
  decide

variable (kind : TagKind)

theorem native_tagGet (tag : BitVec 8) : native.tagGet kind tag = tag := by
  cases kind with
  | enum => rfl
  | union =>
    show (tag.setWidth 64).setWidth 8 = tag
    simp

theorem native_tagEq : native.tagEq = exactTag := by
  funext kind tag expected
  unfold Backend.tagEq
  rw [native_tagGet, native_int8]
  rfl

theorem interpreter_tagEq (tag expected : BitVec 8) :
    interpreter.tagEq kind tag expected = true ↔ tag = expected ∧ tag.toNat < 128 := by
  have value := BitVec.toInt_eq_toNat_cond expected
  show ((tag.toNat : Int) == expected.toInt) = true ↔ _
  rw [beq_iff_eq, ← BitVec.toNat_inj]
  split at value <;> omega

theorem acceptsOnly_native : AcceptsOnly native.tagEq := by
  intro kind tag expected holds
  rw [native_tagEq] at holds
  exact eq_of_beq holds

theorem acceptsOnly_interpreter : AcceptsOnly interpreter.tagEq :=
  fun kind tag expected holds => ((interpreter_tagEq kind tag expected).mp holds).1

theorem native_sameTag (lhs rhs : BitVec 8) :
    native.sameTag kind lhs rhs = true ↔ lhs = rhs := by
  unfold Backend.sameTag
  rw [native_tagGet, native_tagGet]
  exact beq_iff_eq

theorem interpreter_sameTag (lhs rhs : BitVec 8) :
    interpreter.sameTag kind lhs rhs = true ↔ lhs = rhs := by
  show ((lhs.toNat : Int) == (rhs.toNat : Int)) = true ↔ _
  rw [beq_iff_eq, ← BitVec.toNat_inj]
  omega

/-! ## Matching -/

/-- An alternative accepts a value. -/
def alternativeMatches (tagEq : TagEq) (value : Value α) : Alternative α → Bool
  | .literal test =>
    match value with
    | .atom content => test content
    | _ => false
  | .enumUnit expected =>
    match value with
    | .enum tag _ => tagEq .enum tag expected
    | _ => false

mutual
/-- A pattern accepts a value, by a comparison of tags. -/
def matchesBy (tagEq : TagEq) : Pattern α → Value α → Bool
  | .wildcard, _ => true
  | .binding, _ => true
  | .literal test, .atom content => test content
  | .enumVariant expected payload, .enum tag fields =>
    tagEq .enum tag expected && slotsMatchBy tagEq payload fields
  | .product slots, .product fields => slotsMatchBy tagEq slots fields
  | .typedBinding member, .union tag _ => tagEq .union tag member
  | .or alternatives, value => alternatives.any (alternativeMatches tagEq value)
  | _, _ => false

/-- Every sub-pattern accepts the value in its slot. -/
def slotsMatchBy (tagEq : TagEq) : Slots α → List (Value α) → Bool
  | .nil, _ => true
  | .cons index pattern rest, fields =>
    (match fields[index]? with
      | some value => matchesBy tagEq pattern value
      | none => false) && slotsMatchBy tagEq rest fields
end

/-- An alternative is of the value's type. -/
def alternativeTyped (value : Value α) : Alternative α → Bool
  | .literal _ =>
    match value with
    | .atom _ => true
    | _ => false
  | .enumUnit _ =>
    match value with
    | .enum _ _ => true
    | _ => false

mutual
/-- The pattern is of the value's type, as type checking has it: the slots of a variant are slots
of the payload whenever the value is that variant. -/
def typed : Pattern α → Value α → Bool
  | .wildcard, _ => true
  | .binding, _ => true
  | .literal _, .atom _ => true
  | .enumVariant expected payload, .enum tag fields =>
    tag != expected || slotsTyped payload fields
  | .product slots, .product fields => slotsTyped slots fields
  | .typedBinding _, .union _ _ => true
  | .or alternatives, value => alternatives.all (alternativeTyped value)
  | _, _ => false

/-- Every slot is there and its sub-pattern is of its type. -/
def slotsTyped : Slots α → List (Value α) → Bool
  | .nil, _ => true
  | .cons index pattern rest, fields =>
    (match fields[index]? with
      | some value => typed pattern value
      | none => false) && slotsTyped rest fields
end

/-! ## Steps and binds -/

section Steps
variable {backend : Backend} {binds : List (List BindOp)} {check : PatternCheck α} {holds : Bool}

variable (value : Value α)

theorem runSteps_and_cons (step : TestStep α) (rest : List (TestStep α)) :
    runSteps backend value .and (step :: rest) = (runStep backend value step).bind fun holds =>
        if holds then runSteps backend value .and rest else some false :=
  rfl

theorem runSteps_single {value : Value α} {step : TestStep α} {holds : Bool}
    (runs : runStep backend value step = some holds) :
    runSteps backend value .and [step] = some holds := by
  rw [runSteps_and_cons, runs]
  cases holds <;> rfl

theorem runSteps_or_cons (step : TestStep α) (rest : List (TestStep α)) :
    runSteps backend value .or (step :: rest) = (runStep backend value step).bind fun holds =>
        if holds then some true else runSteps backend value .or rest :=
  rfl

theorem runSteps_and_append (before after : List (TestStep α)) :
    runSteps backend value .and (before ++ after) =
      (runSteps backend value .and before).bind fun holds =>
        if holds then runSteps backend value .and after else some false := by
  induction before with
  | nil => rfl
  | cons step _ ih =>
    rw [cons_append, runSteps_and_cons, runSteps_and_cons]
    cases runStep backend value step with
    | none => rfl
    | some holds =>
      cases holds with
      | false => rfl
      | true => exact ih

variable {value projected : Value α} {op : BindOp}

theorem runStep_behind (reads : project value op = some projected) (step : TestStep α) :
    runStep backend value (step.behind op) = runStep backend projected step := by
  unfold runStep TestStep.behind
  simp only [projectAll, reads, Option.bind_eq_bind, Option.bind_some]

theorem runSteps_behind
    (reads : project value op = some projected) (mode : ChainMode) (steps : List (TestStep α)) :
    runSteps backend value mode (steps.map (TestStep.behind op)) =
      runSteps backend projected mode steps := by
  induction steps with
  | nil => rfl
  | cons _ _ ih =>
    rw [map_cons]
    cases mode with
    | and => rw [runSteps_and_cons, runSteps_and_cons, runStep_behind reads, ih]
    | or => rw [runSteps_or_cons, runSteps_or_cons, runStep_behind reads, ih]

theorem runBinds_eq_some_iff :
    runBinds value binds = some () ↔ ∀ chain ∈ binds, (projectAll value chain).isSome := by
  unfold runBinds
  rw [forM_eq_forM]
  induction binds with
  | nil => simp
  | cons chain _ ih =>
    rw [forM_cons, forall_mem_cons, ← ih]
    cases projectAll value chain <;> simp

theorem runBinds_behind (reads : project value op = some projected)
    (bound : runBinds projected binds = some ()) :
    runBinds value (binds.map (op :: ·)) = some () := by
  rw [runBinds_eq_some_iff] at bound ⊢
  rw [forall_mem_map]
  intro chain present
  simp only [projectAll, reads]
  exact bound chain present

/-- The steps come to `holds`, and the binds can be made if they hold. -/
structure Meets (backend : Backend) (value : Value α) (part : Accumulated α) (holds : Bool) :
    Prop where
  steps : runSteps backend value .and part.steps = some holds
  binds : holds = true → runBinds value part.binds = some ()

theorem Meets.append {before after : Accumulated α} {first second : Bool}
    (meetsFirst : Meets backend value before first)
    (meetsSecond : first = true → Meets backend value after second) :
    Meets backend value
      { steps := before.steps ++ after.steps, binds := before.binds ++ after.binds }
      (first && second) := by
  refine ⟨?_, ?_⟩
  · rw [runSteps_and_append, meetsFirst.steps]
    cases first with
    | false => rfl
    | true => exact (meetsSecond rfl).steps
  · intro both
    rw [Bool.and_eq_true] at both
    have firstBinds := runBinds_eq_some_iff.mp (meetsFirst.binds both.1)
    have secondBinds := runBinds_eq_some_iff.mp ((meetsSecond both.1).binds both.2)
    exact runBinds_eq_some_iff.mpr (forall_mem_append.mpr ⟨firstBinds, secondBinds⟩)

/-- A check comes to `holds`. Only an or-pattern's check is not a part of a larger one. -/
def CheckRuns (backend : Backend) (value : Value α) (holds : Bool) : PatternCheck α → Prop
  | .catchAll binds => Meets backend value { steps := [], binds := binds } holds
  | .tests .and binds steps => Meets backend value { steps := steps, binds := binds } holds
  | .tests .or binds steps => binds = [] ∧ runSteps backend value .or steps = some holds

theorem CheckRuns.runCheck (runs : CheckRuns backend value holds check) :
    runCheck backend value check = some holds := by
  match check, runs with
  | .catchAll binds, runs =>
    obtain rfl : true = holds := Option.some.inj runs.steps
    show (runBinds value binds).map _ = _
    rw [show runBinds value binds = some () from runs.binds rfl]
    rfl
  | .tests .and binds steps, runs =>
    show (runSteps backend value .and steps).bind _ = _
    rw [show runSteps backend value .and steps = some holds from runs.steps]
    cases holds with
    | false => rfl
    | true =>
      rw [show runBinds value binds = some () from runs.binds rfl]
      rfl
  | .tests .or binds steps, runs =>
    obtain ⟨rfl, result⟩ := runs
    show (runSteps backend value .or steps).bind _ = _
    rw [result]
    cases holds <;> rfl

/-- A check that is part of a larger one, read through a projection. -/
theorem CheckRuns.consumed {part : Accumulated α}
    (runs : CheckRuns backend projected holds check) (reads : project value op = some projected)
    (consumed : consumeInnerCheck op check = some part) : Meets backend value part holds := by
  match check, runs, consumed with
  | .catchAll binds, runs, rfl =>
    exact ⟨runs.steps, fun met => runBinds_behind reads (runs.binds met)⟩
  | .tests .and binds steps, runs, rfl =>
    exact ⟨(runSteps_behind reads .and steps).trans runs.steps,
      fun met => runBinds_behind reads (runs.binds met)⟩

theorem runSteps_or_alternatives {alternatives : List (Alternative α)}
    (ofType : alternatives.all (alternativeTyped value) = true) :
    runSteps backend value .or (alternatives.map alternativeStep) =
      some (alternatives.any (alternativeMatches backend.tagEq value)) := by
  induction alternatives with
  | nil => rfl
  | cons alternative _ ih =>
    rw [all_cons, Bool.and_eq_true] at ofType
    have here : runStep backend value (alternativeStep alternative) =
        some (alternativeMatches backend.tagEq value alternative) := by
      cases alternative <;> cases value <;> first | rfl | cases ofType.1
    rw [map_cons, any_cons, runSteps_or_cons, here, ih ofType.2]
    cases alternativeMatches backend.tagEq value alternative <;> rfl

mutual
/-- Running a pattern's check is matching it with the backend's comparison of tags. -/
theorem lowerPatternCheck_runs (only : AcceptsOnly backend.tagEq) :
    ∀ (pattern : Pattern α) (value : Value α) (check : PatternCheck α),
      typed pattern value = true → lowerPatternCheck pattern = some check →
      CheckRuns backend value (matchesBy backend.tagEq pattern value) check
  | .wildcard, _, _, _, lowered => by
    cases lowered
    exact ⟨rfl, fun _ => rfl⟩
  | .binding, _, _, _, lowered => by
    cases lowered
    exact ⟨rfl, fun _ => rfl⟩
  | .literal test, .atom content, _, _, lowered => by
    cases lowered
    unfold matchesBy
    exact ⟨runSteps_single rfl, fun _ => rfl⟩
  | .typedBinding member, .union tag payload, _, _, lowered => by
    cases lowered
    unfold matchesBy
    refine ⟨runSteps_single rfl, fun met => ?_⟩
    have same := only _ _ _ met
    rw [runBinds_eq_some_iff]
    simp [projectAll, project, same]
  | .or alternatives, value, _, ofType, lowered => by
    cases lowered
    unfold typed at ofType
    unfold matchesBy
    exact ⟨rfl, runSteps_or_alternatives ofType⟩
  | .product slots, .product fields, _, ofType, lowered => by
    unfold lowerPatternCheck at lowered
    obtain ⟨part, slotsLowered, rest⟩ := Option.bind_eq_some_iff.mp lowered
    unfold typed at ofType
    have met := lowerSlots_runs only slots .field (.product fields) fields part (fun _ => rfl)
      ofType slotsLowered
    unfold matchesBy
    split at rest
    next empty =>
      cases rest
      rw [List.isEmpty_iff] at empty
      exact ⟨by rw [← met.steps, empty], met.binds⟩
    next =>
      cases rest
      exact met
  | .enumVariant expected payload, .enum tag fields, _, ofType, lowered => by
    unfold lowerPatternCheck at lowered
    obtain ⟨part, slotsLowered, rest⟩ := Option.bind_eq_some_iff.mp lowered
    cases rest
    unfold matchesBy
    have test : Meets backend (.enum tag fields) ⟨[⟨[], .tagEq .enum expected⟩], []⟩
        (backend.tagEq .enum tag expected) := ⟨runSteps_single rfl, fun _ => rfl⟩
    refine test.append fun tested => ?_
    obtain rfl := only _ _ _ tested
    unfold typed at ofType
    exact lowerSlots_runs only payload (.enumPayloadField tag) (.enum tag fields) fields part
      (fun index => if_pos rfl) (by simpa using ofType) slotsLowered

/-- The same for the sub-patterns, each read through its slot's projection. -/
theorem lowerSlots_runs (only : AcceptsOnly backend.tagEq) :
    ∀ (slots : Slots α) (op : Nat → BindOp) (value : Value α) (fields : List (Value α))
      (part : Accumulated α), (∀ index, project value (op index) = fields[index]?) →
      slotsTyped slots fields = true → lowerSlots op slots = some part →
      Meets backend value part (slotsMatchBy backend.tagEq slots fields)
  | .nil, _, _, _, _, _, _, lowered => by
    cases lowered
    exact ⟨rfl, fun _ => rfl⟩
  | .cons index pattern rest, op, value, fields, part, reads, ofType, lowered => by
    unfold lowerSlots at lowered
    obtain ⟨here, hereLowered, lowered⟩ := Option.bind_eq_some_iff.mp lowered
    obtain ⟨after, afterLowered, lowered⟩ := Option.bind_eq_some_iff.mp lowered
    cases lowered
    unfold slotsTyped at ofType
    rw [Bool.and_eq_true] at ofType
    have afterMeets := lowerSlots_runs only rest op value fields after reads ofType.2 afterLowered
    unfold slotsMatchBy
    refine Meets.append ?_ fun _ => afterMeets
    cases found : fields[index]? with
    | none =>
      rw [found] at ofType
      cases ofType.1
    | some projected =>
      rw [found] at ofType
      have readsHere := (reads index).trans found
      show Meets backend value here (matchesBy backend.tagEq pattern projected)
      unfold lowerSubpatternInto at hereLowered
      split at hereLowered
      · cases hereLowered
        exact ⟨rfl, fun _ => rfl⟩
      · cases hereLowered
        refine ⟨rfl, fun _ => ?_⟩
        rw [runBinds_eq_some_iff]
        simp [projectAll, readsHere]
      · obtain ⟨check, checked, consumed⟩ := Option.bind_eq_some_iff.mp hereLowered
        exact (lowerPatternCheck_runs only pattern projected check ofType.1 checked).consumed
          readsHere consumed
end

end Steps

/-! ## Matches -/

/-- The first arm whose pattern accepts the value and whose guard holds, with its index. -/
def selectsBy (tagEq : TagEq) (value : Value α) :
    List (MatchArm α) → Nat → Option (Nat × MatchArm α)
  | [], _ => none
  | arm :: rest, index =>
    if matchesBy tagEq arm.pattern value && arm.guardHolds value then some (index, arm)
    else selectsBy tagEq value rest (index + 1)

/-- Arms that lower, with patterns of the value's type. -/
def ArmsFor (value : Value α) (arms : List (MatchArm α)) : Prop :=
  ∀ arm ∈ arms, (lowerPatternCheck arm.pattern).isSome = true ∧ typed arm.pattern value = true

/-- What a match ends in, by the arm selected. -/
def entersSelected : Option (Nat × MatchArm α) → Outcome
  | some (index, _) => .enters index
  | none => .unreachable

theorem entersSelected_iff (selected : Option (Nat × MatchArm α)) (index : Nat) :
    entersSelected selected = .enters index ↔ ∃ arm, selected = some (index, arm) := by
  cases selected with
  | none => exact iff_of_false nofun nofun
  | some chosen =>
    obtain ⟨found, arm⟩ := chosen
    constructor
    · rintro ⟨⟩
      exact ⟨arm, rfl⟩
    · rintro ⟨_, ⟨⟩⟩
      rfl

variable {value : Value α}

/-- A backend enters the arm it selects by its own comparison of tags. -/
theorem runMatch_eq {backend : Backend} (only : AcceptsOnly backend.tagEq)
    (lowered : ArmsFor value arms) (index : Nat) :
    runMatch backend value arms index =
      entersSelected (selectsBy backend.tagEq value arms index) := by
  induction arms generalizing index with
  | nil => rfl
  | cons arm _ ih =>
    obtain ⟨⟨check, ofType⟩, restLowered⟩ := forall_mem_cons.mp lowered
    obtain ⟨check, checked⟩ := Option.isSome_iff_exists.mp check
    have runs := (lowerPatternCheck_runs only arm.pattern value check ofType checked).runCheck
    unfold runMatch selectsBy
    rw [checked, Option.bind_some, runs, ih restLowered]
    cases matchesBy backend.tagEq arm.pattern value with
    | false => rfl
    | true =>
      cases arm.guardHolds value with
      | false | true => rfl

/-! ## Tests of small tags -/

mutual
/-- The tags the pattern tests on the value are below 128. -/
def testsSmall : Pattern α → Value α → Bool
  | .enumVariant expected payload, .enum _ fields =>
    decide (expected.toNat < 128) && slotsTestSmall payload fields
  | .product slots, .product fields => slotsTestSmall slots fields
  | .typedBinding member, _ => decide (member.toNat < 128)
  | .or _, .enum tag _ => decide (tag.toNat < 128)
  | _, _ => true

/-- The same for every sub-pattern. -/
def slotsTestSmall : Slots α → List (Value α) → Bool
  | .nil, _ => true
  | .cons index pattern rest, fields =>
    (match fields[index]? with
      | some value => testsSmall pattern value
      | none => true) && slotsTestSmall rest fields
end

theorem interpreter_tagEq_eq (tag expected : BitVec 8) :
    interpreter.tagEq kind tag expected =
      (exactTag kind tag expected && decide (expected.toNat < 128)) := by
  rw [Bool.eq_iff_iff, interpreter_tagEq, Bool.and_eq_true, decide_eq_true_eq]
  unfold exactTag
  rw [beq_iff_eq]
  exact and_congr_right fun same => by rw [same]

theorem alternativeMatches_interpreter (value : Value α) (alternative : Alternative α)
    (alternatives : List (Alternative α)) :
    alternativeMatches interpreter.tagEq value alternative =
      (alternativeMatches exactTag value alternative && testsSmall (.or alternatives) value) := by
  cases alternative with
  | literal => cases value <;> simp [alternativeMatches, testsSmall]
  | enumUnit =>
    cases value with
    | enum =>
      unfold alternativeMatches testsSmall
      rw [Bool.eq_iff_iff, interpreter_tagEq, Bool.and_eq_true, decide_eq_true_eq]
      unfold exactTag
      rw [beq_iff_eq]
    | _ => rfl

mutual
/-- The interpreter accepts what is accepted exactly, where it tests small tags only. -/
theorem matchesBy_interpreter : ∀ (pattern : Pattern α) (value : Value α),
    matchesBy interpreter.tagEq pattern value =
      (matchesBy exactTag pattern value && testsSmall pattern value)
  | .wildcard, value => by cases value <;> rfl
  | .binding, value => by cases value <;> rfl
  | .literal test, value => by cases value <;> simp [matchesBy, testsSmall]
  | .typedBinding member, value => by
    cases value with
    | union =>
      unfold matchesBy testsSmall
      exact interpreter_tagEq_eq _ _ _
    | _ => rfl
  | .or alternatives, value => by
    unfold matchesBy
    simp only [and_any_distrib_right, ← alternativeMatches_interpreter value _ alternatives]
  | .product slots, value => by
    cases value with
    | product fields =>
      unfold matchesBy testsSmall
      exact slotsMatchBy_interpreter slots fields
    | _ => rfl
  | .enumVariant expected payload, value => by
    cases value with
    | enum tag fields =>
      unfold matchesBy testsSmall
      rw [interpreter_tagEq_eq, slotsMatchBy_interpreter payload fields]
      cases exactTag .enum tag expected <;> cases decide (expected.toNat < 128) <;> simp
    | _ => rfl

/-- The same for every sub-pattern. -/
theorem slotsMatchBy_interpreter : ∀ (slots : Slots α) (fields : List (Value α)),
    slotsMatchBy interpreter.tagEq slots fields =
      (slotsMatchBy exactTag slots fields && slotsTestSmall slots fields)
  | .nil, _ => rfl
  | .cons index pattern rest, fields => by
    unfold slotsMatchBy slotsTestSmall
    rw [slotsMatchBy_interpreter rest fields]
    cases fields[index]? with
    | none => rfl
    | some value =>
      simp only [matchesBy_interpreter pattern value]
      ac_rfl
end

theorem le_of_selectsBy {tagEq : TagEq} {start index : Nat}
    (selected : selectsBy tagEq value arms start = some (index, arm)) : start ≤ index := by
  fun_induction selectsBy tagEq value arms start with
  | case1 => cases selected
  | case2 =>
    cases selected
    exact Nat.le_refl _
  | case3 _ _ _ _ ih => exact Nat.le_of_succ_le (ih selected)

/-- The interpreter selects the arm to be selected exactly if that arm tests small tags only. -/
theorem selectsBy_interpreter_iff {start index : Nat}
    (selected : selectsBy exactTag value arms start = some (index, arm)) :
    (∃ entered, selectsBy interpreter.tagEq value arms start = some (index, entered)) ↔
      testsSmall arm.pattern value = true := by
  fun_induction selectsBy exactTag value arms start with
  | case1 => cases selected
  | case2 first rest start accepted =>
    cases selected
    rw [Bool.and_eq_true] at accepted
    rw [selectsBy, matchesBy_interpreter, accepted.1, accepted.2, Bool.true_and, Bool.and_true]
    by_cases small : testsSmall arm.pattern value = true
    · rw [if_pos small]
      exact iff_of_true ⟨arm, rfl⟩ small
    · refine iff_of_false ?_ small
      rintro ⟨entered, later⟩
      rw [if_neg small] at later
      exact Nat.not_succ_le_self _ (le_of_selectsBy later)
  | case3 first rest start refused ih =>
    rw [selectsBy, matchesBy_interpreter, if_neg]
    · exact ih selected
    · simp only [Bool.and_eq_true] at refused ⊢
      exact fun taken => refused ⟨taken.1.1, taken.2⟩

/-! ## Union switches -/

section Switch
variable {backend : Backend} {members : Nat} {tag lhsTag rhsTag : BitVec 8}
  {payloadEq : Nat → Value α → Value α → Bool}

theorem ofNat_toNat_eq (tag : BitVec 8) : BitVec.ofNat 8 tag.toNat = tag := by
  simp

/-- The switch reaches the member whose test is the first to succeed, or the last one. -/
theorem unionSwitchFrom_eq {tag : BitVec 8} (payload : Value α) {index left reached : Nat}
    (passed : ∀ member, index ≤ member → member < reached →
      backend.tagEq .union tag (BitVec.ofNat 8 member) = false) (low : index ≤ reached)
    (high : reached ≤ index + left)
    (ends : reached = index + left ∨ backend.tagEq .union tag (BitVec.ofNat 8 reached) = true) :
    unionSwitchFrom backend (.union tag payload) index left =
      if tag = BitVec.ofNat 8 reached then .enters reached else .fault := by
  have arm : ∀ member : Nat,
      (match project (Value.union tag payload) (.unionPayload (BitVec.ofNat 8 member)) with
        | some _ => Outcome.enters member
        | none => .fault) =
      if tag = BitVec.ofNat 8 member then .enters member else .fault := by
    intro member
    simp only [project]
    split_ifs <;> rfl
  induction left generalizing index with
  | zero =>
    obtain rfl : index = reached := by omega
    exact arm index
  | succ _ ih =>
    have test : runTest backend (.tagEq .union (BitVec.ofNat 8 index))
        (Value.union tag payload) = some (backend.tagEq .union tag (BitVec.ofNat 8 index)) := rfl
    unfold unionSwitchFrom
    rw [test]
    by_cases here : index = reached
    · subst here
      rw [ends.resolve_left (by omega)]
      exact arm index
    · rw [passed index (Nat.le_refl _) (by omega)]
      refine ih (fun member above below => passed member (by omega) below) (by omega) (by omega) ?_
      exact ends.imp_left (by omega)

theorem ofNat_ne {member : Nat} (below : member < tag.toNat) : tag ≠ BitVec.ofNat 8 member := by
  intro same
  have value := congrArg BitVec.toNat same
  rw [BitVec.toNat_ofNat] at value
  omega

/-- A tag that fails every test but its own reaches its own arm. -/
theorem unionSwitch_own (only : AcceptsOnly backend.tagEq)
    (own : backend.tagEq .union tag tag = true) (inside : tag.toNat < members)
    (payload : Value α) :
    unionSwitch backend members (.union tag payload) = .enters tag.toNat := by
  unfold unionSwitch
  rw [@unionSwitchFrom_eq _ backend tag payload 0 (members - 1) tag.toNat ?_ (Nat.zero_le _)
    (by omega) (.inr (by rwa [ofNat_toNat_eq]))]
  · rw [ofNat_toNat_eq, if_pos rfl]
  · intro member _ below
    rw [← Bool.not_eq_true]
    exact fun passes => ofNat_ne below (only _ _ _ passes)

theorem unionSwitch_native (inside : tag.toNat < members) (payload : Value α) :
    unionSwitch native members (.union tag payload) = .enters tag.toNat := by
  refine unionSwitch_own acceptsOnly_native ?_ inside payload
  rw [native_tagEq]
  exact beq_self_eq_true tag

theorem interpreter_tagEq_false (large : ¬ tag.toNat < 128) (expected : BitVec 8) :
    interpreter.tagEq .union tag expected = false := by
  rw [← Bool.not_eq_true, interpreter_tagEq]
  exact fun both => large both.2

/-- A large tag fails every test, so it reaches the last arm, whose projection refuses any other
member. -/
theorem unionSwitch_interpreter_large (large : ¬ tag.toNat < 128) (few : members ≤ 256)
    (inside : tag.toNat < members) (payload : Value α) :
    unionSwitch interpreter members (.union tag payload) =
      if tag.toNat + 1 = members then .enters tag.toNat else .fault := by
  have reached : tag = BitVec.ofNat 8 (members - 1) ↔ tag.toNat + 1 = members := by
    rw [← BitVec.toNat_inj, BitVec.toNat_ofNat]
    omega
  unfold unionSwitch
  rw [@unionSwitchFrom_eq _ interpreter tag payload 0 (members - 1) (members - 1)
    (fun member _ _ => interpreter_tagEq_false large _) (Nat.zero_le _) (by omega)
    (.inl (by omega))]
  by_cases last : tag.toNat + 1 = members
  · rw [if_pos (reached.mpr last), if_pos last]
    exact congrArg Outcome.enters (by omega)
  · rw [if_neg fun same => last (reached.mp same), if_neg last]

/-- The interpreter enters the value's own arm exactly if the tag is small or the arm is the
last one, which is entered without a test. -/
theorem unionSwitch_interpreter_iff (few : members ≤ 256) (inside : tag.toNat < members)
    (payload : Value α) :
    unionSwitch interpreter members (.union tag payload) = .enters tag.toNat ↔
      tag.toNat < 128 ∨ tag.toNat + 1 = members := by
  by_cases small : tag.toNat < 128
  · have own := (interpreter_tagEq .union tag tag).mpr ⟨rfl, small⟩
    exact iff_of_true (unionSwitch_own acceptsOnly_interpreter own inside payload) (.inl small)
  · rw [unionSwitch_interpreter_large small few inside, or_iff_right small]
    by_cases last : tag.toNat + 1 = members
    · rw [if_pos last]
      exact iff_of_true rfl last
    · rw [if_neg last]
      exact iff_of_false nofun last

/-- What comparing two union values gives when every tag is told apart. -/
def exactUnionEq (payloadEq : Nat → Value α → Value α → Bool) (lhsTag rhsTag : BitVec 8)
    (lhs rhs : Value α) : Bool :=
  exactTag .union lhsTag rhsTag && payloadEq lhsTag.toNat lhs rhs

/-- With the tags told apart, the comparison of equal ones ends in the arm the switch enters. -/
theorem unionEq_eq {lhs rhs : Value α}
    (told : backend.sameTag .union lhsTag rhsTag = true ↔ lhsTag = rhsTag)
    (right : lhsTag = rhsTag →
      unionSwitch backend members (.union lhsTag lhs) = .enters lhsTag.toNat) :
    unionEq backend members payloadEq (.union lhsTag lhs) (.union rhsTag rhs) =
      some (exactUnionEq payloadEq lhsTag rhsTag lhs rhs) := by
  unfold unionEq exactUnionEq exactTag
  by_cases same : lhsTag = rhsTag
  · subst same
    simp only [told.mpr rfl, right rfl, project, ofNat_toNat_eq, beq_self_eq_true]
    rfl
  · simp only [told, same, beq_false_of_ne same, if_false, Bool.false_and]

theorem unionEq_native (inside : lhsTag.toNat < members) (lhs rhs : Value α) :
    unionEq native members payloadEq (.union lhsTag lhs) (.union rhsTag rhs) =
      some (exactUnionEq payloadEq lhsTag rhsTag lhs rhs) :=
  unionEq_eq (native_sameTag _ _ _) fun _ => unionSwitch_native inside lhs

/-- Comparing two values of the same member goes through the switch. -/
theorem unionEq_interpreter_iff (few : members ≤ 256) (inside : lhsTag.toNat < members)
    (lhs rhs : Value α) :
    unionEq interpreter members payloadEq (.union lhsTag lhs) (.union rhsTag rhs) =
        some (exactUnionEq payloadEq lhsTag rhsTag lhs rhs) ↔
      lhsTag ≠ rhsTag ∨ lhsTag.toNat < 128 ∨ lhsTag.toNat + 1 = members := by
  have told := interpreter_sameTag .union lhsTag rhsTag
  by_cases right : lhsTag ≠ rhsTag ∨ lhsTag.toNat < 128 ∨ lhsTag.toNat + 1 = members
  · refine iff_of_true (unionEq_eq told fun same => ?_) right
    exact (unionSwitch_interpreter_iff few inside lhs).mpr (right.resolve_left (· same))
  · refine iff_of_false ?_ right
    simp only [ne_eq, not_or, not_not] at right
    obtain ⟨same, large, inner⟩ := right
    have faults := unionSwitch_interpreter_large large few inside lhs
    rw [if_neg inner] at faults
    unfold unionEq
    simp only [told.mpr same, faults]
    exact nofun

end Switch

/-- Which arm the dispatch of both backends enters. Native code always enters the arm of the
value's own tag. The interpreter enters it in a match exactly if the arm tests no tag of 128 or
more on the value, and in a union switch exactly if the tag is below 128 or the last member's,
which is entered without a test. -/
theorem dispatch_enters_own_arm_iff {α : Type} :
    (∀ (value : Value α) (arms : List (MatchArm α)) (index : Nat) (arm : MatchArm α),
      ArmsFor value arms → selectsBy exactTag value arms 0 = some (index, arm) →
        runMatch native value arms 0 = .enters index ∧
        (runMatch interpreter value arms 0 = .enters index ↔ testsSmall arm.pattern value = true)) ∧
    (∀ (members : Nat) (tag : BitVec 8) (payload : Value α), members ≤ 256 → tag.toNat < members →
        unionSwitch native members (.union tag payload) = .enters tag.toNat ∧
        (unionSwitch interpreter members (.union tag payload) = .enters tag.toNat ↔
          tag.toNat < 128 ∨ tag.toNat + 1 = members)) ∧
    (∀ (members : Nat) (payloadEq : Nat → Value α → Value α → Bool) (lhsTag rhsTag : BitVec 8)
      (lhs rhs : Value α), members ≤ 256 → lhsTag.toNat < members →
        unionEq native members payloadEq (.union lhsTag lhs) (.union rhsTag rhs) =
          some (exactUnionEq payloadEq lhsTag rhsTag lhs rhs) ∧
        (unionEq interpreter members payloadEq (.union lhsTag lhs) (.union rhsTag rhs) =
            some (exactUnionEq payloadEq lhsTag rhsTag lhs rhs) ↔
          lhsTag ≠ rhsTag ∨ lhsTag.toNat < 128 ∨ lhsTag.toNat + 1 = members)) := by
  refine ⟨?_, ?_, ?_⟩
  · intro value arms index arm lowered selected
    refine ⟨?_, ?_⟩
    · rw [runMatch_eq acceptsOnly_native lowered, native_tagEq, selected]
      rfl
    · rw [runMatch_eq acceptsOnly_interpreter lowered, ← selectsBy_interpreter_iff selected]
      exact entersSelected_iff _ index
  · intro members tag payload few inside
    exact ⟨unionSwitch_native inside payload, unionSwitch_interpreter_iff few inside payload⟩
  · intro members payloadEq lhsTag rhsTag lhs rhs few inside
    exact ⟨unionEq_native inside lhs rhs, unionEq_interpreter_iff few inside lhs rhs⟩

/-- An enum value of tag 3 matched by its variant, and a union value of tag 3 of 5. -/
theorem dispatch_small_tags : runMatch interpreter (.enum 3 [.atom 7])
      [⟨.enumVariant 3 (.cons 0 .binding .nil), none⟩, ⟨.wildcard, none⟩] 0 = .enters 0 ∧
    unionSwitch interpreter 5 (.union 3 (.atom 7)) = .enters 3 ∧
    unionEq interpreter 5 (fun _ _ _ => true) (.union 3 (.atom 7)) (.union 3 (.atom 8)) =
      some true := by
  have both := @dispatch_enters_own_arm_iff Nat
  refine ⟨?_, ?_, ?_⟩
  · refine (both.1 _ _ 0 _ ?_ rfl).2.mpr rfl
    intro arm member
    rcases mem_cons.mp member with rfl | member
    · exact ⟨rfl, rfl⟩
    · cases mem_singleton.mp member
      exact ⟨rfl, rfl⟩
  · exact (both.2.1 5 3 (.atom 7) (by decide) (by decide)).2.mpr (.inl (by decide))
  · exact (both.2.2 5 (fun _ _ _ => true) 3 3 (.atom 7) (.atom 8) (by decide)
      (by decide)).2.mpr (.inr (.inl (by decide)))

/-- At tag 150 the interpreter passes over the arm of the value's own variant and takes the
catch-all, and a switch over 200 members ends in the arm of member 199, whose payload read
fails; native code enters the value's arm in both. -/
theorem tag_150_misses_its_arm : (runMatch interpreter (.enum 150 [.atom 7])
        [⟨.enumVariant 150 (.cons 0 .binding .nil), none⟩, ⟨.wildcard, none⟩] 0 = .enters 1 ∧
      runMatch native (.enum 150 [.atom 7]) [⟨.enumVariant 150 (.cons 0 .binding .nil), none⟩,
          ⟨.wildcard, none⟩] 0 = .enters 0) ∧
    unionSwitch interpreter 200 (.union 150 (.atom 7)) = .fault ∧
    unionSwitch native 200 (.union 150 (.atom 7)) = .enters 150 := by
  refine ⟨⟨rfl, rfl⟩, ?_, ?_⟩
  · exact unionSwitch_interpreter_large (by decide) (by decide) (by decide) _
  · exact unionSwitch_native (by decide) _

end Koja.Guarantees.Ir.Dispatch
