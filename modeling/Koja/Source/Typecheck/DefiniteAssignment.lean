import Koja.Source.Ast.Body

/-!
# Definite assignment

Source: `koja-typecheck/src/pipeline/definite_assignment.rs` (`FlowState`, `Checker`). A function
of the checker is a walk: it reports diagnostics and turns the flow state it was handed into the
one after it. `&mut state` is `andThen`, a `clone` that is thrown away is `aside`, and clones
that are joined afterwards are `branches`. Spans are left out of diagnostics.
-/
namespace Koja.Source.Typecheck

open Ast

/-- `FlowState`. The set is a list read through membership. -/
structure FlowState where
  assigned : List LocalId := []
  diverged : Bool := false
  deriving DecidableEq, Repr

namespace FlowState

variable (state : FlowState)

def assign (id : LocalId) : FlowState :=
  { state with assigned := id :: state.assigned }

def isAssigned (id : LocalId) : Bool :=
  state.diverged || state.assigned.contains id

def diverge : FlowState :=
  { state with diverged := true }

/-- The intersection of the assigned sets of the arms. -/
def intersection (first : FlowState) (rest : List FlowState) : List LocalId :=
  rest.foldl (fun merged arm => merged.filter (arm.assigned.contains ·)) first.assigned

def joinArms (arms : List FlowState) : FlowState :=
  if state.diverged then state
  else
    match arms.filter (! ·.diverged) with
    | [] => state.diverge
    | first :: rest => { state with assigned := intersection first rest }

end FlowState

/-- A diagnostic with its hint. -/
structure FlowDiagnostic where
  message : String
  hint : String
  deriving DecidableEq, Repr

/-- The diagnostic of `check_read`. -/
def unassignedRead (name : String) : FlowDiagnostic where
  message := "`" ++ name ++ "` does not have a value on every path to this read"
  hint := "assign `" ++ name ++ "` a value before the branch or loop, or restructure so the " ++
    "branch produces the value (`" ++ name ++ " = if ... else ... end`)"

/-- A part of the check: the state after it and what it reported. -/
abbrev Walk := FlowState → FlowState × List FlowDiagnostic

namespace Walk

def nothing : Walk := fun state => (state, [])

def assign (id : LocalId) : Walk := fun state => (state.assign id, [])

def assignAll (ids : List LocalId) : Walk := fun state => (ids.foldl FlowState.assign state, [])

def diverge : Walk := fun state => (state.diverge, [])

/-- `diverge_on_never`. -/
def divergeOn (never : Bool) : Walk := if never then diverge else nothing

/-- `check_read`. -/
def read (id : LocalId) (name : String) : Walk := fun state =>
  (state, if state.isAssigned id then [] else [unassignedRead name])

def andThen (first second : Walk) : Walk := fun state =>
  let (middle, reported) := first state
  let (final, later) := second middle
  (final, reported ++ later)

/-- A walk over a clone of the state that is thrown away. -/
def aside (walk : Walk) : Walk := fun state => (state, (walk state).2)

def asides (walks : List Walk) : Walk := fun state =>
  (state, walks.flatMap fun walk => (walk state).2)

/-- Each walk gets a clone of the state, and the clones are joined. -/
def branches (walks : List Walk) : Walk := fun state =>
  (state.joinArms (walks.map fun walk => (walk state).1), walks.flatMap fun walk => (walk state).2)

end Walk

mutual

def checkExpr : Expr → Walk
  | .mk kind _ => checkKind kind

def checkKind : ExprKind → Walk
  | .operands _ operands => checkExprs operands
  | .logical _ left right => (checkExpr left).andThen (checkExpr right)
  | .assert condition => checkExpr condition
  | .assertMessage condition message => (checkExpr condition).andThen (checkExpr message)
  | .closure params body => ((Walk.assignAll params).andThen (checkBody body)).aside
  | .shortClosure params body => ((Walk.assignAll params).andThen (checkExpr body)).aside
  -- Without an else the fall-through path assigns nothing.
  | .cond arms => (checkFirstCondition arms).andThen (.asides (checkCondArms arms))
  | .condElse arms elseBody =>
    (checkFirstCondition arms).andThen (.branches (checkCondArms arms ++ [checkBody elseBody]))
  | .fail value => (checkExpr value).andThen .diverge
  | .forIn pattern iterable body =>
    (checkExpr iterable).andThen ((bindPattern pattern).andThen (checkBody body)).aside
  | .readLocal id name => .read id name
  | .ifThen condition thenBody => (checkExpr condition).andThen (checkBody thenBody).aside
  | .ifElse condition thenBody elseBody =>
    (checkExpr condition).andThen (.branches [checkBody thenBody, checkBody elseBody])
  | .loop body => (checkBody body).aside
  | .matchOn subject arms => (checkExpr subject).andThen (.branches (checkMatchArms arms))
  | .receive arms => .branches (checkMatchArms arms)
  | .receiveAfter arms timeout afterBody =>
    (checkExpr timeout).andThen (.branches (checkMatchArms arms ++ [checkBody afterBody]))
  | .rescue subject handler => (checkExpr subject).andThen (checkExpr handler).aside
  | .ternary condition thenExpr elseExpr =>
    (checkExpr condition).andThen (.branches
      [(checkExpr thenExpr).andThen (.divergeOn thenExpr.never),
        (checkExpr elseExpr).andThen (.divergeOn elseExpr.never)])
  | .tryExpr value => checkExpr value
  | .whileLoop condition body => (checkExpr condition).andThen (checkBody body).aside

def checkExprs : Exprs → Walk
  | .nil => .nothing
  | .cons head tail => (checkExpr head).andThen (checkExprs tail)

/-- Only the first condition is guaranteed to run. -/
def checkFirstCondition : CondArms → Walk
  | .nil => .nothing
  | .cons condition _ _ => checkExpr condition

/-- One walk for each arm. The condition of the first has run by then. -/
def checkCondArms : CondArms → List Walk
  | .nil => []
  | .cons _ body rest => checkBody body :: checkLaterArms rest

def checkLaterArms : CondArms → List Walk
  | .nil => []
  | .cons condition body rest =>
    (checkExpr condition).aside.andThen (checkBody body) :: checkLaterArms rest

def checkMatchArms : MatchArms → List Walk
  | .nil => []
  | .arm pattern body rest => (bindPattern pattern).andThen (checkBody body) :: checkMatchArms rest
  | .guarded pattern guard body rest =>
    (bindPattern pattern).andThen ((checkExpr guard).andThen (checkBody body)) ::
      checkMatchArms rest

def bindPattern : Pattern → Walk
  | .plain _ => .nothing
  | .binding id => .assign id
  | .elements _ patterns => bindPatterns patterns
  -- The alternatives of an or-pattern bind nothing.
  | .or _ => .nothing
  | .binary segments => bindSegments segments

def bindPatterns : Patterns → Walk
  | .nil => .nothing
  | .cons head tail => (bindPattern head).andThen (bindPatterns tail)

def bindSegments : Segments → Walk
  | .nil => .nothing
  | .unsized binding rest => (Walk.assignAll binding.toList).andThen (bindSegments rest)
  | .sized size binding rest =>
    (checkExpr size).andThen ((Walk.assignAll binding.toList).andThen (bindSegments rest))

def checkStatement : Statement → Walk
  | .assign target value =>
    (checkExpr value).andThen ((Walk.assign target).andThen (.divergeOn value.never))
  -- The head is checked in the state after the value.
  | .assignField head name value =>
    (checkExpr value).andThen ((Walk.read head name).andThen (.divergeOn value.never))
  | .compoundAssign head name value => (checkExpr value).andThen (.read head name)
  | .destructure pattern value => (checkExpr value).andThen (bindPattern pattern)
  | .expr value => (checkExpr value).andThen (.divergeOn value.never)
  | .returnUnit => .diverge
  | .returnValue value => (checkExpr value).andThen .diverge
  | .breakLoop => .diverge

def checkBody : Body → Walk
  | .nil => .nothing
  | .cons statement rest => (checkStatement statement).andThen (checkBody rest)

end

/-- `check_function`: the diagnostics of a function. -/
def checkFunction (function : Function) : List FlowDiagnostic :=
  (checkBody function.body (function.params.foldl FlowState.assign {})).2

end Koja.Source.Typecheck
