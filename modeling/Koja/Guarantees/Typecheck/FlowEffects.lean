import Koja.Source.Typecheck.DefiniteAssignment
import Mathlib.Data.List.Forall2

/-!
# What the walks of definite assignment settle

The effects of a part of a body are the locals it may assign or bind, and whether every way
through it leaves. They are read off the syntax. A walk of the checker adds no more to the flow
state than the effects of the part it walks, so a part without effects may as well be passed over.
-/
namespace Koja.Guarantees.Typecheck

open Source.Ast Source.Typecheck List
open FlowState (assign intersection joinArms)

/-- The locals a part may assign or bind, and whether every way through it leaves. -/
structure Effects where
  assigns : List LocalId
  leaves : Bool
  deriving DecidableEq, Repr

namespace Effects

def none : Effects := ⟨[], false⟩

def assign (ids : List LocalId) : Effects := ⟨ids, false⟩

def leave : Effects := ⟨[], true⟩

def andThen (first second : Effects) : Effects :=
  ⟨first.assigns ++ second.assigns, first.leaves || second.leaves⟩

/-- One of the parts runs. -/
def either (parts : List Effects) : Effects :=
  ⟨parts.flatMap (·.assigns), parts.all (·.leaves)⟩

/-- An expression of type `Never` leaves. -/
def ofNever (never : Bool) : Effects := ⟨[], never⟩

end Effects

mutual

/-- The effects of an expression. Parts that may not run, such as the bodies of loops and
closures, have none. -/
def exprEffects : Expr → Effects
  | .mk kind _ => kindEffects kind

def kindEffects : ExprKind → Effects
  | .operands _ operands => exprsEffects operands
  | .logical _ left right => (exprEffects left).andThen (exprEffects right)
  | .assert condition => exprEffects condition
  | .assertMessage condition message => (exprEffects condition).andThen (exprEffects message)
  | .closure _ _ => .none
  | .shortClosure _ _ => .none
  | .cond arms => firstConditionEffects arms
  | .condElse arms elseBody =>
    (firstConditionEffects arms).andThen (.either (condArmsEffects arms ++ [bodyEffects elseBody]))
  | .fail value => (exprEffects value).andThen .leave
  | .forIn _ iterable _ => exprEffects iterable
  | .readLocal _ _ => .none
  | .ifThen condition _ => exprEffects condition
  | .ifElse condition thenBody elseBody =>
    (exprEffects condition).andThen (.either [bodyEffects thenBody, bodyEffects elseBody])
  | .loop _ => .none
  | .matchOn subject arms => (exprEffects subject).andThen (.either (matchArmsEffects arms))
  | .receive arms => .either (matchArmsEffects arms)
  | .receiveAfter arms timeout afterBody =>
    (exprEffects timeout).andThen (.either (matchArmsEffects arms ++ [bodyEffects afterBody]))
  | .rescue subject _ => exprEffects subject
  | .ternary condition thenExpr elseExpr =>
    (exprEffects condition).andThen (.either
      [(exprEffects thenExpr).andThen (.ofNever thenExpr.never),
        (exprEffects elseExpr).andThen (.ofNever elseExpr.never)])
  | .tryExpr value => exprEffects value
  | .whileLoop condition _ => exprEffects condition

def exprsEffects : Exprs → Effects
  | .nil => .none
  | .cons head tail => (exprEffects head).andThen (exprsEffects tail)

def firstConditionEffects : CondArms → Effects
  | .nil => .none
  | .cons condition _ _ => exprEffects condition

def condArmsEffects : CondArms → List Effects
  | .nil => []
  | .cons _ body rest => bodyEffects body :: condArmsEffects rest

def matchArmsEffects : MatchArms → List Effects
  | .nil => []
  | .arm pattern body rest =>
    (patternEffects pattern).andThen (bodyEffects body) :: matchArmsEffects rest
  | .guarded pattern guard body rest =>
    (patternEffects pattern).andThen ((exprEffects guard).andThen (bodyEffects body)) ::
      matchArmsEffects rest

def patternEffects : Pattern → Effects
  | .plain _ => .none
  | .binding id => .assign [id]
  | .elements _ patterns => patternsEffects patterns
  | .or _ => .none
  | .binary segments => segmentsEffects segments

def patternsEffects : Patterns → Effects
  | .nil => .none
  | .cons head tail => (patternEffects head).andThen (patternsEffects tail)

def segmentsEffects : Segments → Effects
  | .nil => .none
  | .unsized binding rest => (Effects.assign binding.toList).andThen (segmentsEffects rest)
  | .sized size binding rest =>
    (exprEffects size).andThen ((Effects.assign binding.toList).andThen (segmentsEffects rest))

def statementEffects : Statement → Effects
  | .assign target value =>
    (exprEffects value).andThen ((Effects.assign [target]).andThen (.ofNever value.never))
  | .assignField _ _ value => (exprEffects value).andThen (.ofNever value.never)
  | .compoundAssign _ _ value => exprEffects value
  | .destructure pattern value => (exprEffects value).andThen (patternEffects pattern)
  | .expr value => (exprEffects value).andThen (.ofNever value.never)
  | .returnUnit => .leave
  | .returnValue value => (exprEffects value).andThen .leave
  | .breakLoop => .leave

def bodyEffects : Body → Effects
  | .nil => .none
  | .cons statement rest => (statementEffects statement).andThen (bodyEffects rest)

end

/-! ### The walks settle no more than that -/

/-- A walk adds nothing to the flow state beyond the effects of its part. -/
def Within (walk : Walk) (effects : Effects) : Prop :=
  ∀ state : FlowState,
    (∀ id ∈ (walk state).1.assigned, id ∈ state.assigned ∨ id ∈ effects.assigns) ∧
    ((walk state).1.diverged = true → state.diverged = true ∨ effects.leaves = true)

theorem within_nothing : Within .nothing .none :=
  fun _ => ⟨fun _ mem => .inl mem, .inl⟩

theorem within_read {id : LocalId} {name : String} : Within (.read id name) .none :=
  fun _ => ⟨fun _ mem => .inl mem, .inl⟩

theorem within_aside {walk : Walk} : Within walk.aside .none :=
  fun _ => ⟨fun _ mem => .inl mem, .inl⟩

theorem within_asides (walks : List Walk) : Within (.asides walks) .none :=
  fun _ => ⟨fun _ mem => .inl mem, .inl⟩

theorem within_diverge : Within .diverge .leave :=
  fun _ => ⟨fun _ mem => .inl mem, fun _ => .inr rfl⟩

theorem within_divergeOn (never : Bool) : Within (.divergeOn never) (.ofNever never) := by
  cases never with
  | false => exact within_nothing
  | true => exact within_diverge

variable (ids : List LocalId) {first second : Walk} {id : LocalId} {state : FlowState}
  {arms : List FlowState}

theorem foldl_assign_assigned (state : FlowState) :
    (ids.foldl assign state).assigned = ids.reverse ++ state.assigned := by
  induction ids generalizing state with
  | nil => rfl
  | cons _ _ ih => simp [ih, assign]

theorem foldl_assign_diverged (state : FlowState) :
    (ids.foldl assign state).diverged = state.diverged := by
  induction ids generalizing state with
  | nil => rfl
  | cons _ _ ih => exact ih _

theorem within_assignAll : Within (.assignAll ids) (.assign ids) := by
  intro state
  refine ⟨fun id mem => ?_, fun diverged => .inl ?_⟩
  · simpa [Walk.assignAll, foldl_assign_assigned, Effects.assign, or_comm] using mem
  · simpa [Walk.assignAll, foldl_assign_diverged] using diverged

theorem within_assign (id : LocalId) : Within (.assign id) (.assign [id]) :=
  within_assignAll [id]

theorem Within.andThen {a b : Effects} (opens : Within first a) (continues : Within second b) :
    Within (first.andThen second) (a.andThen b) := by
  intro state
  obtain ⟨assignedFirst, divergedFirst⟩ := opens state
  obtain ⟨assignedSecond, divergedSecond⟩ := continues (first state).1
  refine ⟨fun id mem => ?_, fun diverged => ?_⟩
  · rcases assignedSecond id mem with early | late
    · rcases assignedFirst id early with before | added
      · exact .inl before
      · exact .inr (mem_append.mpr (.inl added))
    · exact .inr (mem_append.mpr (.inr late))
  · rcases divergedSecond diverged with early | late
    · rcases divergedFirst early with before | left
      · exact .inl before
      · exact .inr (by simp [Effects.andThen, left])
    · exact .inr (by simp [Effects.andThen, late])

theorem Within.andThen_none {a : Effects} (opens : Within first a)
    (continues : Within second .none) : Within (first.andThen second) a := by
  simpa [Effects.andThen, Effects.none] using opens.andThen continues

theorem Within.none_andThen {b : Effects} (opens : Within first .none)
    (continues : Within second b) : Within (first.andThen second) b := by
  simpa [Effects.andThen, Effects.none] using opens.andThen continues

theorem mem_intersection {first : FlowState} {rest : List FlowState} :
    id ∈ intersection first rest ↔
      id ∈ first.assigned ∧ ∀ arm ∈ rest, id ∈ arm.assigned := by
  unfold intersection
  generalize first.assigned = merged
  induction rest generalizing merged with
  | nil => simp
  | cons _ _ ih =>
    rw [foldl_cons, ih]
    simp [and_assoc]

/-- The join, seen from a local: it is assigned in each arm that goes on. -/
theorem mem_joinArms
    (goingOn : state.diverged = false) (goesOn : (state.joinArms arms).diverged = false) :
    id ∈ (state.joinArms arms).assigned ↔
      ∀ arm ∈ arms, arm.diverged = false → id ∈ arm.assigned := by
  unfold joinArms at goesOn ⊢
  simp only [goingOn, Bool.false_eq_true, if_false] at goesOn ⊢
  have live : ∀ arm, arm ∈ arms.filter (! ·.diverged) ↔ arm ∈ arms ∧ arm.diverged = false := by
    simp
  cases filtered : arms.filter (! ·.diverged) with
  | nil => simp [filtered, FlowState.diverge] at goesOn
  | cons first rest =>
    rw [filtered] at live
    simp only [mem_intersection]
    constructor
    · rintro ⟨inFirst, inRest⟩ arm mem running
      rcases mem_cons.mp ((live arm).mpr ⟨mem, running⟩) with rfl | later
      · exact inFirst
      · exact inRest arm later
    · intro all
      have ofLive : ∀ arm ∈ first :: rest, id ∈ arm.assigned := fun arm mem =>
        all arm ((live arm).mp mem).1 ((live arm).mp mem).2
      exact ⟨ofLive first (.head _), fun arm mem => ofLive arm (.tail _ mem)⟩

theorem joinArms_assigned (mem : id ∈ (state.joinArms arms).assigned) :
    id ∈ state.assigned ∨ ∃ arm ∈ arms, id ∈ arm.assigned := by
  unfold joinArms at mem
  split at mem
  · exact .inl mem
  · split at mem
    · exact .inl mem
    next first rest filtered =>
      have isArm : first ∈ arms.filter (! ·.diverged) := by rw [filtered]; exact .head _
      exact .inr ⟨first, (mem_filter.mp isArm).1, (mem_intersection.mp mem).1⟩

theorem joinArms_diverged
    (goingOn : state.diverged = false) (diverged : (state.joinArms arms).diverged = true) :
    ∀ arm ∈ arms, arm.diverged = true := by
  unfold joinArms at diverged
  simp only [goingOn, Bool.false_eq_true, if_false] at diverged
  split at diverged
  next filtered => simpa [filter_eq_nil_iff] using filtered
  next => cases diverged

theorem within_branches {walks : List Walk} {parts : List Effects}
    (each : List.Forall₂ Within walks parts) : Within (.branches walks) (.either parts) := by
  intro state
  refine ⟨fun id mem => ?_, fun diverged => ?_⟩
  · rcases joinArms_assigned mem with before | ⟨arm, isArm, inArm⟩
    · exact .inl before
    · obtain ⟨walk, isWalk, rfl⟩ := mem_map.mp isArm
      clear mem isArm
      -- The effects of the arm stand at the position of its walk.
      induction each with
      | nil => cases isWalk
      | cons within _ ih =>
        rcases mem_cons.mp isWalk with rfl | later
        · rcases (within state).1 id inArm with before | added
          · exact .inl before
          · exact .inr (mem_flatMap.mpr ⟨_, .head _, added⟩)
        · rcases ih later with before | added
          · exact .inl before
          · exact .inr (mem_append.mpr (.inr added))
  · cases goingOn : state.diverged with
    | true => exact .inl rfl
    | false =>
      have all := joinArms_diverged goingOn diverged
      refine .inr ?_
      clear diverged
      induction each with
      | nil => rfl
      | cons within _ ih =>
        have leaves := (within state).2 (all _ (.head _))
        rw [goingOn] at leaves
        simp only [Effects.either, all_cons, Bool.and_eq_true]
        exact ⟨leaves.resolve_left Bool.false_ne_true, ih fun arm mem => all arm (.tail _ mem)⟩

mutual

theorem exprEffects_within : (expr : Expr) → Within (checkExpr expr) (exprEffects expr)
  | .mk kind _ => kindEffects_within kind

theorem kindEffects_within : (kind : ExprKind) → Within (checkKind kind) (kindEffects kind)
  | .operands _ operands => exprsEffects_within operands
  | .logical _ left right => (exprEffects_within left).andThen (exprEffects_within right)
  | .assert condition => exprEffects_within condition
  | .assertMessage condition message =>
    (exprEffects_within condition).andThen (exprEffects_within message)
  | .closure _ _ => within_aside
  | .shortClosure _ _ => within_aside
  | .cond arms => (firstConditionEffects_within arms).andThen_none (within_asides _)
  | .condElse arms elseBody =>
    (firstConditionEffects_within arms).andThen (within_branches
      (rel_append (condArmsEffects_within arms) (.cons (bodyEffects_within elseBody) .nil)))
  | .fail value => (exprEffects_within value).andThen within_diverge
  | .forIn _ iterable _ => (exprEffects_within iterable).andThen_none (within_aside)
  | .readLocal _ _ => within_read
  | .ifThen condition _ => (exprEffects_within condition).andThen_none (within_aside)
  | .ifElse condition thenBody elseBody =>
    (exprEffects_within condition).andThen (within_branches
      (.cons (bodyEffects_within thenBody) (.cons (bodyEffects_within elseBody) .nil)))
  | .loop _ => within_aside
  | .matchOn subject arms =>
    (exprEffects_within subject).andThen (within_branches (matchArmsEffects_within arms))
  | .receive arms => within_branches (matchArmsEffects_within arms)
  | .receiveAfter arms timeout afterBody =>
    (exprEffects_within timeout).andThen (within_branches
      (rel_append (matchArmsEffects_within arms) (.cons (bodyEffects_within afterBody) .nil)))
  | .rescue subject _ => (exprEffects_within subject).andThen_none (within_aside)
  | .ternary condition thenExpr elseExpr =>
    (exprEffects_within condition).andThen (within_branches
      (.cons ((exprEffects_within thenExpr).andThen (within_divergeOn _))
        (.cons ((exprEffects_within elseExpr).andThen (within_divergeOn _)) .nil)))
  | .tryExpr value => exprEffects_within value
  | .whileLoop condition _ => (exprEffects_within condition).andThen_none (within_aside)

theorem exprsEffects_within : (exprs : Exprs) → Within (checkExprs exprs) (exprsEffects exprs)
  | .nil => within_nothing
  | .cons head tail => (exprEffects_within head).andThen (exprsEffects_within tail)

theorem firstConditionEffects_within :
    (arms : CondArms) → Within (checkFirstCondition arms) (firstConditionEffects arms)
  | .nil => within_nothing
  | .cons condition _ _ => exprEffects_within condition

theorem condArmsEffects_within :
    (arms : CondArms) → List.Forall₂ Within (checkCondArms arms) (condArmsEffects arms)
  | .nil => .nil
  | .cons _ body rest => .cons (bodyEffects_within body) (laterArmsEffects_within rest)

theorem laterArmsEffects_within :
    (arms : CondArms) → List.Forall₂ Within (checkLaterArms arms) (condArmsEffects arms)
  | .nil => .nil
  | .cons _ body rest =>
    .cons ((within_aside).none_andThen (bodyEffects_within body)) (laterArmsEffects_within rest)

theorem matchArmsEffects_within :
    (arms : MatchArms) → List.Forall₂ Within (checkMatchArms arms) (matchArmsEffects arms)
  | .nil => .nil
  | .arm pattern body rest =>
    .cons ((patternEffects_within pattern).andThen (bodyEffects_within body))
      (matchArmsEffects_within rest)
  | .guarded pattern guard body rest =>
    .cons ((patternEffects_within pattern).andThen
      ((exprEffects_within guard).andThen (bodyEffects_within body)))
      (matchArmsEffects_within rest)

theorem patternEffects_within :
    (pattern : Pattern) → Within (bindPattern pattern) (patternEffects pattern)
  | .plain _ => within_nothing
  | .binding id => within_assign id
  | .elements _ patterns => patternsEffects_within patterns
  | .or _ => within_nothing
  | .binary segments => segmentsEffects_within segments

theorem patternsEffects_within :
    (patterns : Patterns) → Within (bindPatterns patterns) (patternsEffects patterns)
  | .nil => within_nothing
  | .cons head tail => (patternEffects_within head).andThen (patternsEffects_within tail)

theorem segmentsEffects_within :
    (segments : Segments) → Within (bindSegments segments) (segmentsEffects segments)
  | .nil => within_nothing
  | .unsized _ rest => (within_assignAll _).andThen (segmentsEffects_within rest)
  | .sized size _ rest =>
    (exprEffects_within size).andThen ((within_assignAll _).andThen (segmentsEffects_within rest))

theorem statementEffects_within :
    (statement : Statement) → Within (checkStatement statement) (statementEffects statement)
  | .assign target value =>
    (exprEffects_within value).andThen ((within_assign target).andThen (within_divergeOn _))
  | .assignField _ _ value =>
    (exprEffects_within value).andThen ((within_read).none_andThen (within_divergeOn _))
  | .compoundAssign _ _ value =>
    (exprEffects_within value).andThen_none (within_read)
  | .destructure pattern value =>
    (exprEffects_within value).andThen (patternEffects_within pattern)
  | .expr value => (exprEffects_within value).andThen (within_divergeOn _)
  | .returnUnit => within_diverge
  | .returnValue value => (exprEffects_within value).andThen within_diverge
  | .breakLoop => within_diverge

theorem bodyEffects_within : (body : Body) → Within (checkBody body) (bodyEffects body)
  | .nil => within_nothing
  | .cons statement rest => (statementEffects_within statement).andThen (bodyEffects_within rest)

end

end Koja.Guarantees.Typecheck
