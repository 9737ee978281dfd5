import Koja.Guarantees.Typecheck.FlowEffects
import Koja.Source.Ir.EvaluationOrder

/-!
# Reads of locals in accepted bodies

A walk of the checker covers a run when, from any point the flow state describes, every read of
the run finds its local assigned and the run ends where the flow state after the walk describes
it. The checker's walk of a body covers the body's run piece by piece. Three pieces need an
assumption on the execution: an `and` or `or` whose right operand is passed over, an `assert`
whose message is, and a field assignment, whose head is read ahead of the value and checked after
it.
-/
namespace Koja.Guarantees.Typecheck

open Lib Lib.Command List
open Source.Ast Source.Typecheck Source.Ir Source.Ir.BodyRun

/-! ### Reads along an execution -/

/-- The locals assigned so far. A part that is passed over is assumed to settle nothing new, and
the value of a field assignment not to settle the head. -/
def localMachine : Machine LocalEvent (List LocalId) where
  step
    | .assign id, assigned => id :: assigned
    | _, assigned => assigned
  Assumes
    | .passOver part, assigned =>
      (exprEffects part).leaves = false ∧ (exprEffects part).assigns ⊆ assigned
    | .readHead id value, _ =>
      (exprEffects value).leaves = false ∧ id ∉ (exprEffects value).assigns
    | _, _ => True
  Good
    | .read id, assigned => id ∈ assigned
    | .readHead id _, assigned => id ∈ assigned
    | _, _ => True

/-- The flow state describes a point of an execution: the point is reached, and what the state
has as assigned is. -/
def Describes (state : FlowState) (assigned : List LocalId) : Prop :=
  state.diverged = false ∧ state.assigned ⊆ assigned

theorem Describes.mono {state : FlowState} {assigned later : List LocalId}
    (describes : Describes state assigned) (grows : assigned ⊆ later) : Describes state later :=
  ⟨describes.1, List.Subset.trans describes.2 grows⟩

theorem Describes.isAssigned {state : FlowState} {assigned : List LocalId} {id : LocalId}
    (describes : Describes state assigned) (checked : state.isAssigned id = true) :
    id ∈ assigned := by
  have inState : id ∈ state.assigned := by
    simpa [FlowState.isAssigned, describes.1] using checked
  exact describes.2 inState

/-- Where a run that started with some locals assigned ends. No assignment is undone. -/
def endsAt (Next Finish : List LocalId → Prop) (assigned : List LocalId) :
    Post BodyExit (List LocalId) where
  next later := Next later ∧ assigned ⊆ later
  raised exit later := (exit = .finished → Finish later) ∧ assigned ⊆ later

/-- The reads of a run are covered, `Next` holds where it completes, and `Finish` where it ends
the rounds of the loop around it. -/
def Reaches (run : BodyRun) (Next Finish : List LocalId → Prop) (assigned : List LocalId) : Prop :=
  Wp localMachine run (endsAt Next Finish assigned) assigned

section Reaches

variable {a b : BodyRun} {Mid Next Next' Finish Finish' : List LocalId → Prop}
  {assigned : List LocalId} {exit : BodyExit}

theorem Reaches.mono (reaches : Reaches a Next Finish assigned)
    (next : ∀ later, Next later → assigned ⊆ later → Next' later)
    (finish : ∀ later, Finish later → Finish' later) : Reaches a Next' Finish' assigned :=
  wp_mono reaches (fun later ⟨holds, grows⟩ => ⟨next later holds grows, grows⟩)
    fun _ later ⟨finished, grows⟩ => ⟨fun isFinish => finish later (finished isFinish), grows⟩

theorem reaches_skip (holds : Next assigned) : Reaches .skip Next Finish assigned :=
  wp_skip ⟨holds, List.Subset.refl _⟩

theorem reaches_halt : Reaches .halt Next Finish assigned := wp_halt

theorem reaches_raise (finish : exit = .finished → Finish assigned) :
    Reaches (.raise exit) Next Finish assigned :=
  wp_raise ⟨finish, List.Subset.refl _⟩

theorem reaches_test (holds : Next assigned)
    (finish : exit = .finished → Finish assigned) : Reaches (.test exit) Next Finish assigned :=
  wp_test ⟨holds, List.Subset.refl _⟩ ⟨finish, List.Subset.refl _⟩

theorem reaches_choice (left : Reaches a Next Finish assigned)
    (right : Reaches b Next Finish assigned) : Reaches (.choice a b) Next Finish assigned :=
  wp_choice left right

/-- What a run reaches from a later point, seen from an earlier one. -/
theorem Reaches.from_earlier {later : List LocalId} (reaches : Reaches a Next Finish later)
    (grows : assigned ⊆ later) : Wp localMachine a (endsAt Next Finish assigned) later :=
  wp_mono reaches (fun _ ⟨holds, more⟩ => ⟨holds, List.Subset.trans grows more⟩)
    fun _ _ ⟨finished, more⟩ => ⟨finished, List.Subset.trans grows more⟩

theorem reaches_seq (opens : Reaches a Mid Finish assigned)
    (continues : ∀ later, Mid later → assigned ⊆ later → Reaches b Next Finish later) :
    Reaches (.seq a b) Next Finish assigned :=
  wp_seq (wp_mono opens
    (fun later ⟨holds, grows⟩ => (continues later holds grows).from_earlier grows)
    fun _ _ raised => raised)

theorem reaches_handle (body : Reaches a Next Finish assigned)
    (handler : ∀ later, assigned ⊆ later → Reaches b Next Finish later) :
    Reaches (.handle exit a b) Next Finish assigned :=
  wp_handle (wp_mono body (fun _ holds => holds) fun _ later ⟨finished, grows⟩ =>
    ⟨fun _ => (handler later grows).from_earlier grows, fun _ => ⟨finished, grows⟩⟩)

theorem reaches_irrefutable (pattern : Reaches a Next Finish assigned) :
    Reaches (irrefutable a) Next Finish assigned :=
  reaches_handle pattern fun _ _ => reaches_halt

theorem reaches_inLoop (body : Reaches a Next (fun _ => False) assigned)
    (finish : ∀ later, assigned ⊆ later → Finish later) :
    Reaches (inLoop a) Next Finish assigned :=
  reaches_handle (body.mono (fun _ holds _ => holds) fun _ => False.elim)
    fun later grows => reaches_raise fun _ => finish later grows

/-- The rounds of a loop keep an invariant, and end where a round finishes. -/
theorem reaches_rounds {Inv : List LocalId → Prop} (entry : Inv assigned)
    (keeps : ∀ later, Inv later → assigned ⊆ later → Reaches a Inv Next later) :
    Reaches (rounds a) Next Finish assigned := by
  refine wp_handle (wp_loop (fun later => Inv later ∧ assigned ⊆ later)
    ⟨entry, List.Subset.refl _⟩ ?_)
  rintro later ⟨holds, grows⟩
  refine wp_mono ((keeps later holds grows).from_earlier grows) (fun _ kept => kept) ?_
  rintro exit last ⟨finished, more⟩
  exact ⟨fun isFinish => wp_skip ⟨finished isFinish, more⟩,
    fun other => ⟨fun isFinish => absurd isFinish other, more⟩⟩

end Reaches

/-! ### The walks cover the runs -/

/-- A walk that reports nothing covers a run. -/
def Covers (walk : Walk) (run : BodyRun) : Prop :=
  ∀ state assigned, (walk state).2 = [] → Describes state assigned →
    Reaches run (Describes (walk state).1) (fun _ => False) assigned

/-- Walks over one state, one of which covers the way the run took. -/
def CoversAny (walks : List Walk) (run : BodyRun) : Prop :=
  ∀ state assigned, (∀ walk ∈ walks, (walk state).2 = []) → Describes state assigned →
    Reaches run (fun later => ∃ walk ∈ walks, Describes (walk state).1 later) (fun _ => False)
      assigned

/-- An expression is covered by its walk, and completes only if its type is not `Never`. -/
def CoversValue (expr : Expr) : Prop :=
  ∀ state assigned, (checkExpr expr state).2 = [] → Describes state assigned →
    Reaches (runExpr expr)
      (fun later => Describes (checkExpr expr state).1 later ∧ expr.never = false)
      (fun _ => False) assigned

section Covers

variable {first second walk : Walk} {walks : List Walk} {a b run c : BodyRun} {value expr : Expr}

theorem covers_nothing : Covers .nothing .skip :=
  fun _ _ _ describes => reaches_skip describes

theorem covers_test : Covers .nothing (.test .mismatch) :=
  fun _ _ _ describes => reaches_test describes nofun

theorem covers_leave : Covers .diverge .halt :=
  fun _ _ _ _ => reaches_halt

theorem covers_break : Covers .diverge (.raise .broke) :=
  fun _ _ _ _ => reaches_raise nofun

theorem covers_assign (id : LocalId) : Covers (.assign id) (.emit (.assign id)) := by
  intro state assigned _ describes
  have grows : state.assigned ⊆ id :: assigned :=
    List.Subset.trans describes.2 (subset_cons_self id assigned)
  refine wp_emit fun _ => ⟨trivial, ⟨describes.1, ?_⟩, subset_cons_self id assigned⟩
  exact cons_subset.mpr ⟨.head _, grows⟩

theorem covers_read {id : LocalId} {name : String} : Covers (.read id name) (.emit (.read id)) := by
  intro state assigned silent describes
  have checked : state.isAssigned id = true := by
    by_contra unassigned
    simp [Walk.read, unassigned] at silent
  exact wp_emit fun _ => ⟨describes.isAssigned checked, describes, List.Subset.refl _⟩

theorem Covers.andThen (opens : Covers first a) (continues : Covers second b) :
    Covers (first.andThen second) (.seq a b) := by
  intro state assigned silent describes
  obtain ⟨silentFirst, silentSecond⟩ := append_eq_nil_iff.mp silent
  exact reaches_seq (opens state assigned silentFirst describes)
    fun later described _ => continues _ later silentSecond described

theorem covers_assignAll (ids : List LocalId) : Covers (.assignAll ids) (assignAll ids) := by
  induction ids with
  | nil => exact covers_nothing
  | cons id _ ih => exact (covers_assign id).andThen ih

theorem Covers.aside (covers : Covers walk a) : Covers walk.aside (.choice .skip a) :=
  fun state assigned silent describes =>
    reaches_choice (reaches_skip describes) ((covers state assigned silent describes).mono
        (fun _ _ grows => describes.mono grows) fun _ => id)

theorem covers_create {params : List LocalId} (covers : Covers walk a) :
    Covers ((Walk.assignAll params).andThen walk).aside (create params a) := by
  refine fun state assigned silent describes => reaches_choice (reaches_skip describes) ?_
  obtain ⟨_, silentBody⟩ := append_eq_nil_iff.mp silent
  refine reaches_seq (covers_assignAll params state assigned rfl describes)
    fun later described _ => ?_
  have body := covers _ later silentBody described
  exact reaches_seq (reaches_handle body fun _ _ => reaches_halt) fun _ _ _ => reaches_halt

theorem Covers.leave (covers : Covers walk a) : Covers (walk.andThen .diverge) (.seq a .halt) :=
  covers.andThen covers_leave

theorem Covers.halts (covers : Covers walk a) : Covers walk (.seq a .halt) :=
  fun state assigned silent describes =>
    reaches_seq (covers state assigned silent describes) fun _ _ _ => reaches_halt

theorem Covers.orHalt (covers : Covers walk a) : Covers walk (.seq a (.choice .skip .halt)) :=
  fun state assigned silent describes =>
    reaches_seq (covers state assigned silent describes) fun _ described _ =>
      reaches_choice (reaches_skip described) reaches_halt

/-- A test before a pattern's parts. -/
theorem Covers.afterTest (covers : Covers walk a) : Covers walk (.seq (.test .mismatch) a) :=
  fun state assigned silent describes =>
    reaches_seq (covers_test state assigned rfl describes) fun later described _ =>
      covers state later silent described

theorem Covers.irrefutable (covers : Covers walk a) : Covers walk (irrefutable a) :=
  fun state assigned silent describes =>
    reaches_irrefutable (covers state assigned silent describes)

theorem coversAny_nil : CoversAny [] .halt :=
  fun _ _ _ _ => reaches_halt

theorem CoversAny.of_subset (covers : CoversAny walks a) {more : List Walk}
    (subset : walks ⊆ more) : CoversAny more a :=
  fun state assigned silent describes =>
    (covers state assigned (fun walk mem => silent walk (subset mem)) describes).mono
      (fun _ ⟨walk, mem, described⟩ _ => ⟨walk, subset mem, described⟩) fun _ => id

theorem Covers.single (covers : Covers walk a) : CoversAny [walk] a :=
  fun state assigned silent describes =>
    (covers state assigned (silent walk (.head _)) describes).mono
      (fun _ described _ => ⟨walk, .head _, described⟩) fun _ => id

theorem CoversAny.choice (left : CoversAny walks a) (right : CoversAny walks b) :
    CoversAny walks (.choice a b) :=
  fun state assigned silent describes =>
    reaches_choice (left state assigned silent describes) (right state assigned silent describes)

theorem coversAny_cons_choice (arm : Covers walk a) (rest : CoversAny walks b) :
    CoversAny (walk :: walks) (.choice a b) :=
  .choice (arm.single.of_subset (cons_subset_cons _ (nil_subset _)))
    (rest.of_subset (subset_cons_self _ _))

/-- The arm after a pattern that did not match. -/
theorem coversAny_cons_orElse (arm : Covers walk a) (rest : CoversAny walks b) :
    CoversAny (walk :: walks) (.handle .mismatch a b) := by
  have armCovers := arm.single.of_subset (cons_subset_cons walk (nil_subset walks))
  have restCovers := rest.of_subset (subset_cons_self walk walks)
  exact fun state assigned silent describes =>
    reaches_handle (armCovers state assigned silent describes)
      fun later grows => restCovers state later silent (describes.mono grows)

/-- A condition after the first may not be reached, so the walk keeps nothing of it. -/
theorem coversAny_cons_condition (condition : Covers first a)
    (body : Covers second c) (rest : CoversAny walks b) :
    CoversAny (first.aside.andThen second :: walks) (.seq a (.choice c b)) := by
  intro state assigned silent describes
  obtain ⟨silentCondition, silentBody⟩ := append_eq_nil_iff.mp (silent _ (.head _))
  refine reaches_seq (condition state assigned silentCondition describes) fun later _ grows => ?_
  refine reaches_choice ?_ ?_
  · refine (body state later silentBody (describes.mono grows)).mono ?_ fun _ => id
    exact fun _ described _ => ⟨_, .head _, described⟩
  · refine (rest state later (fun walk mem => silent walk (.tail _ mem))
      (describes.mono grows)).mono ?_ fun _ => id
    exact fun _ ⟨walk, mem, described⟩ _ => ⟨walk, .tail _ mem, described⟩

theorem describes_joinArms {state : FlowState} {assigned : List LocalId} {arms : List FlowState}
    {arm : FlowState} (goingOn : state.diverged = false) (mem : arm ∈ arms)
    (describes : Describes arm assigned) : Describes (state.joinArms arms) assigned := by
  have goesOn : (state.joinArms arms).diverged = false := by
    by_contra diverged
    have armDiverged := joinArms_diverged goingOn (by simpa using diverged) arm mem
    exact absurd (describes.1.symm.trans armDiverged) Bool.false_ne_true
  refine ⟨goesOn, fun id inJoin => ?_⟩
  exact describes.2 ((mem_joinArms goingOn goesOn).mp inJoin arm mem describes.1)

theorem CoversAny.branches (covers : CoversAny walks a) : Covers (.branches walks) a := by
  intro state assigned silent describes
  have each : ∀ walk ∈ walks, (walk state).2 = [] := flatMap_eq_nil_iff.mp silent
  refine (covers state assigned each describes).mono ?_ fun _ => id
  rintro later ⟨walk, mem, described⟩ _
  exact describes_joinArms describes.1 (mem_map.mpr ⟨walk, mem, rfl⟩) described

/-- Without an else, the arms contribute nothing. -/
theorem CoversAny.asides (covers : CoversAny (walks ++ [.nothing]) a) :
    Covers (.asides walks) a := by
  intro state assigned silent describes
  have each : ∀ walk ∈ walks ++ [.nothing], (walk state).2 = [] := by
    intro walk mem
    rcases mem_append.mp mem with arm | isNothing
    · exact flatMap_eq_nil_iff.mp silent walk arm
    · rw [mem_singleton.mp isNothing]; rfl
  exact (covers state assigned each describes).mono (fun _ _ grows => describes.mono grows)
    fun _ => id

/-! ### The pieces that need an assumption -/

theorem Describes.goesOn {part : Expr} {state : FlowState} {assigned : List LocalId}
    (describes : Describes state assigned) (stays : (exprEffects part).leaves = false) :
    (checkExpr part state).1.diverged = false := by
  by_contra diverged
  rcases (exprEffects_within part state).2 (by simpa using diverged) with before | leaves
  · exact absurd (describes.1.symm.trans before) Bool.false_ne_true
  · exact absurd (stays.symm.trans leaves) Bool.false_ne_true

/-- A part that is passed over settles nothing that was not settled. -/
theorem covers_skippable {part : Expr} (covers : Covers (checkExpr part) a) :
    Covers (checkExpr part) (skippable part a) := by
  intro state assigned silent describes
  refine reaches_choice (covers state assigned silent describes) (wp_emit ?_)
  rintro ⟨stays, settled⟩
  refine ⟨trivial, ⟨describes.goesOn stays, fun id mem => ?_⟩, List.Subset.refl _⟩
  rcases (exprEffects_within part state).1 id mem with before | added
  · exact describes.2 before
  · exact settled added

/-- The head of a field assignment is assigned by the time it is read. -/
theorem covers_assignField (head : LocalId) (name : String) (covers : CoversValue value) :
    Covers (checkStatement (.assignField head name value))
      (runStatement (.assignField head name value)) := by
  intro state assigned silent describes
  unfold checkStatement at silent ⊢
  obtain ⟨silentValue, silentRest⟩ := append_eq_nil_iff.mp silent
  obtain ⟨silentHead, _⟩ := append_eq_nil_iff.mp silentRest
  have checked : (checkExpr value state).1.isAssigned head = true := by
    by_contra unassigned
    simp [unassigned] at silentHead
  have readsHead : Reaches (.emit (.readHead head value)) (Describes state) (fun _ => False)
      assigned := by
    refine wp_emit fun ⟨stays, untouched⟩ => ⟨?_, describes, List.Subset.refl _⟩
    have inAfter : head ∈ (checkExpr value state).1.assigned := by
      simpa [FlowState.isAssigned, describes.goesOn stays] using checked
    exact describes.2 (((exprEffects_within value state).1 head inAfter).resolve_right untouched)
  refine reaches_seq readsHead fun later described _ => ?_
  refine reaches_seq (covers state later silentValue described) ?_
  rintro last ⟨after, completes⟩ _
  rw [completes]
  have grows : last ⊆ head :: last := subset_cons_self head last
  exact wp_emit fun _ => ⟨trivial, after.mono grows, grows⟩

theorem covers_update (id : LocalId) (name : String) :
    Covers (.read id name) (.seq (.emit (.read id)) (.emit (.assign id))) := by
  intro state assigned silent describes
  refine reaches_seq (covers_read state assigned silent describes)
    fun later described _ => ?_
  have grows : later ⊆ id :: later := subset_cons_self id later
  exact wp_emit fun _ => ⟨trivial, described.mono grows, grows⟩

/-! ### Every form of body -/

theorem CoversValue.covers (covers : CoversValue expr) : Covers (checkExpr expr) (runExpr expr) :=
  fun state assigned silent describes =>
    (covers state assigned silent describes).mono (fun _ holds _ => holds.1) fun _ => id

/-- An expression of type `Never` leaves. -/
theorem CoversValue.divergeOn (covers : CoversValue expr) :
    Covers ((checkExpr expr).andThen (.divergeOn expr.never)) (runExpr expr) := by
  intro state assigned silent describes
  obtain ⟨silentExpr, _⟩ := append_eq_nil_iff.mp silent
  refine (covers state assigned silentExpr describes).mono ?_ fun _ => id
  rintro later ⟨described, completes⟩ _
  rw [completes]
  exact described

theorem covers_assignStatement (target : LocalId) (covers : CoversValue value) :
    Covers (checkStatement (.assign target value)) (runStatement (.assign target value)) := by
  intro state assigned silent describes
  unfold checkStatement at silent ⊢
  obtain ⟨silentValue, _⟩ := append_eq_nil_iff.mp silent
  refine reaches_seq (covers state assigned silentValue describes) ?_
  rintro later ⟨described, completes⟩ _
  rw [completes]
  exact covers_assign target _ later rfl described

theorem coversValue_mk {kind : ExprKind} (never : Bool) (covers : Covers (checkKind kind)
    (runKind kind)) : CoversValue (.mk kind never) := by
  intro state assigned silent describes
  have kindReaches := covers state assigned silent describes
  cases never with
  | false => exact kindReaches.mono (fun _ described _ => ⟨described, rfl⟩) fun _ => id
  | true => exact reaches_seq kindReaches fun _ _ _ => reaches_halt

theorem covers_while {condition body : Walk} (conditionCovers : Covers condition c)
    (bodyCovers : Covers body a) :
    Covers (condition.andThen body.aside)
      (rounds (.seq c (.seq (.test .finished) (inLoop a)))) := by
  intro state assigned silent describes
  obtain ⟨silentCondition, silentBody⟩ := append_eq_nil_iff.mp silent
  refine reaches_rounds describes fun later described _ => ?_
  refine reaches_seq ((conditionCovers state later silentCondition described).mono
    (fun _ holds _ => holds) fun _ => False.elim) fun tested holds grows => ?_
  refine reaches_seq (reaches_test holds fun _ => holds) fun entered goingOn more => ?_
  have bodyReaches := bodyCovers _ entered silentBody goingOn
  exact reaches_inLoop (bodyReaches.mono
    (fun _ _ kept => described.mono (List.Subset.trans grows (List.Subset.trans more kept)))
    fun _ => id)
    fun _ kept => goingOn.mono kept

theorem covers_loop (covers : Covers walk a) : Covers walk.aside (rounds (inLoop a)) := by
  intro state assigned silent describes
  refine reaches_rounds describes fun later described _ => ?_
  exact reaches_inLoop ((covers state later silent described).mono
    (fun _ _ kept => described.mono kept) fun _ => id) fun _ kept => described.mono kept

theorem covers_for {pattern body : Walk} {p : BodyRun} (patternCovers : Covers pattern p)
    (bodyCovers : Covers body a) :
    Covers (pattern.andThen body).aside
      (rounds (.seq (.test .finished) (.seq (irrefutable p) (inLoop a)))) := by
  intro state assigned silent describes
  obtain ⟨silentPattern, silentBody⟩ := append_eq_nil_iff.mp silent
  refine reaches_rounds describes fun later described _ => ?_
  refine reaches_seq (reaches_test described fun _ => described) fun entered goingOn grows => ?_
  refine reaches_seq ((patternCovers.irrefutable state entered silentPattern goingOn).mono
    (fun _ holds _ => holds) fun _ => False.elim) fun bound holds more => ?_
  exact reaches_inLoop ((bodyCovers _ bound silentBody holds).mono
    (fun _ _ kept => goingOn.mono (List.Subset.trans more kept)) fun _ => id)
    fun _ kept => goingOn.mono (List.Subset.trans more kept)

end Covers

mutual

theorem exprCovers : (expr : Expr) → CoversValue expr
  | .mk kind never => coversValue_mk never (kindCovers kind)

theorem kindCovers : (kind : ExprKind) → Covers (checkKind kind) (runKind kind)
  | .operands _ operands => exprsCovers operands
  | .logical _ left right =>
    (exprCovers left).covers.andThen (covers_skippable (exprCovers right).covers)
  | .assert condition => (exprCovers condition).covers.orHalt
  | .assertMessage condition message =>
    (exprCovers condition).covers.andThen (covers_skippable (exprCovers message).covers.halts)
  | .closure _ body => covers_create (bodyCovers body)
  | .shortClosure _ body => covers_create (exprCovers body).covers
  | .cond .nil => covers_nothing
  | .cond (.cons condition body rest) =>
    (exprCovers condition).covers.andThen (CoversAny.asides
      (coversAny_cons_choice (bodyCovers body) (laterArmsCovers rest covers_nothing)))
  | .condElse .nil elseBody => (bodyCovers elseBody).single.branches
  | .condElse (.cons condition body rest) elseBody =>
    (exprCovers condition).covers.andThen (CoversAny.branches
      (coversAny_cons_choice (bodyCovers body) (laterArmsCovers rest (bodyCovers elseBody))))
  | .fail value => (exprCovers value).covers.leave
  | .forIn pattern iterable body =>
    (exprCovers iterable).covers.andThen (covers_for (patternCovers pattern) (bodyCovers body))
  | .readLocal _ _ => covers_read
  | .ifThen condition thenBody =>
    (exprCovers condition).covers.andThen (bodyCovers thenBody).aside
  | .ifElse condition thenBody elseBody =>
    (exprCovers condition).covers.andThen (CoversAny.branches
      (coversAny_cons_choice (bodyCovers thenBody) (bodyCovers elseBody).single))
  | .loop body => covers_loop (bodyCovers body)
  | .matchOn subject arms =>
    (exprCovers subject).covers.andThen (matchArmsCovers arms).branches
  | .receive arms => (matchArmsCovers arms).branches
  | .receiveAfter arms timeout afterBody =>
    (exprCovers timeout).covers.andThen (CoversAny.branches (.choice
      ((matchArmsCovers arms).of_subset (subset_append_left _ _))
      ((bodyCovers afterBody).single.of_subset (subset_append_right _ _))))
  | .rescue subject handler =>
    (exprCovers subject).covers.andThen (exprCovers handler).covers.aside
  | .ternary condition thenExpr elseExpr =>
    (exprCovers condition).covers.andThen (CoversAny.branches
      (coversAny_cons_choice (exprCovers thenExpr).divergeOn
        (exprCovers elseExpr).divergeOn.single))
  | .tryExpr value => (exprCovers value).covers.orHalt
  | .whileLoop condition body =>
    covers_while (exprCovers condition).covers (bodyCovers body)

theorem exprsCovers : (exprs : Exprs) → Covers (checkExprs exprs) (runExprs exprs)
  | .nil => covers_nothing
  | .cons head tail => (exprCovers head).covers.andThen (exprsCovers tail)

theorem laterArmsCovers {walk : Walk} {otherwise : BodyRun} :
    (arms : CondArms) → Covers walk otherwise →
      CoversAny (checkLaterArms arms ++ [walk]) (runCondArms arms otherwise)
  | .nil, covers => covers.single
  | .cons condition body rest, covers =>
    coversAny_cons_condition (exprCovers condition).covers (bodyCovers body)
      (laterArmsCovers rest covers)

theorem matchArmsCovers : (arms : MatchArms) → CoversAny (checkMatchArms arms) (runMatchArms arms)
  | .nil => coversAny_nil
  | .arm pattern body rest =>
    coversAny_cons_orElse ((patternCovers pattern).andThen (bodyCovers body)) (matchArmsCovers rest)
  | .guarded pattern guard body rest =>
    coversAny_cons_orElse ((patternCovers pattern).andThen
        ((exprCovers guard).covers.andThen (bodyCovers body).afterTest))
      (matchArmsCovers rest)

theorem patternCovers : (pattern : Pattern) → Covers (bindPattern pattern) (runPattern pattern)
  | .plain _ => covers_test
  | .binding id => covers_assign id
  | .elements _ patterns => (patternsCovers patterns).afterTest
  | .or _ => covers_test
  | .binary segments => (segmentsCovers segments).afterTest

theorem patternsCovers :
    (patterns : Patterns) → Covers (bindPatterns patterns) (runPatterns patterns)
  | .nil => covers_nothing
  | .cons head tail => (patternCovers head).andThen (patternsCovers tail)

theorem segmentsCovers :
    (segments : Segments) → Covers (bindSegments segments) (runSegments segments)
  | .nil => covers_nothing
  | .unsized _ rest => ((covers_assignAll _).andThen (segmentsCovers rest)).afterTest
  | .sized size _ rest =>
    (exprCovers size).covers.andThen ((covers_assignAll _).andThen (segmentsCovers rest)).afterTest

theorem statementCovers :
    (statement : Statement) → Covers (checkStatement statement) (runStatement statement)
  | .assign target value => covers_assignStatement target (exprCovers value)
  | .assignField head name value => covers_assignField head name (exprCovers value)
  | .compoundAssign head name value =>
    (exprCovers value).covers.andThen (covers_update head name)
  | .destructure pattern value =>
    (exprCovers value).covers.andThen (patternCovers pattern).irrefutable
  | .expr value => (exprCovers value).divergeOn
  | .returnUnit => covers_leave
  | .returnValue value => (exprCovers value).covers.leave
  | .breakLoop => covers_break

theorem bodyCovers : (body : Body) → Covers (checkBody body) (runBody body)
  | .nil => covers_nothing
  | .cons statement rest => (statementCovers statement).andThen (bodyCovers rest)

end

/-! ### Accepted functions -/

/-- The local an event reads. -/
def LocalEvent.readsLocal : LocalEvent → Option LocalId
  | .read id => some id
  | .readHead id _ => some id
  | _ => none

/-- Every read is of a parameter, or comes after an assignment or binding of the local. -/
def ReadsAssigned (params : List LocalId) (events : List LocalEvent) : Prop :=
  ∀ before event later, events = before ++ event :: later →
    ∀ id, LocalEvent.readsLocal event = some id → id ∈ params ∨ .assign id ∈ before

variable {events : List LocalEvent}

def literalExpr : Expr := .mk (.operands .literal .nil) false

def readExpr (id : LocalId) (name : String) : Expr := .mk (.readLocal id name) false

/-- The checker looks at the head of a field assignment in the state after the value, and the head
is read before it: `p.x = if flag p = .. 1 else p = .. 2 end` reads `p` without a value. -/
theorem field_head_reads_unassigned : let value : Expr := .mk (.ifElse (readExpr 0 "flag")
      (.cons (.assign 1 literalExpr) (.cons (.expr literalExpr) .nil))
      (.cons (.assign 1 literalExpr) (.cons (.expr literalExpr) .nil))) false
    let function : Function := ⟨[0], .cons (.assignField 1 "p" value) .nil⟩
    checkFunction function = [] ∧ ∃ events, Exec (runBody function.body) events .cut ∧
        ¬ ReadsAssigned function.params events := by
  refine ⟨rfl, [.readHead 1 _], .seqStop (.seqNext (.emit _) (.cut _)) nofun, fun covered => ?_⟩
  rcases covered [] _ [] rfl 1 rfl with param | early
  · exact absurd param (by decide)
  · cases early

end Koja.Guarantees.Typecheck
