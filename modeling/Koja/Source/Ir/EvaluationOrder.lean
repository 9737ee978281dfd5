import Koja.Lib.Command
import Koja.Source.Ast.Body

/-!
# The order bodies are evaluated in

Source: `koja-ir/src/lower/{control_flow,expr,calls,loops,match_expr,process,body}.rs`. A body
becomes a command over the reads and writes of its locals. Branches go either way, since what a
condition evaluates to is not part of it. A closure's body runs any time after the closure was
created, over the locals as they were then: a run of it is an execution that leaves the creating
body at that point. An expression of type `Never` does not complete.
-/
namespace Koja.Source.Ir

open Ast Lib
open Typecheck (LocalId)

/-- What an execution does to a local, and the two places where the order matters for which reads
are covered: a part that this execution passes over, and the head of a field assignment, which is
read before the value. -/
inductive LocalEvent where
  | read (id : LocalId)
  | assign (id : LocalId)
  /-- The right operand of `and` or `or`, or the message of `assert`, was not evaluated. -/
  | passOver (part : Expr)
  /-- The head of a field assignment was read ahead of the value assigned. -/
  | readHead (id : LocalId) (value : Expr)

/-- The ways control leaves a part of a body for an enclosing one. -/
inductive BodyExit where
  /-- A pattern did not match, or its guard was false. -/
  | mismatch
  /-- `break`. -/
  | broke
  /-- The condition of a loop was false. -/
  | finished
  deriving DecidableEq, Repr

/-- A run over the locals of a body. -/
abbrev BodyRun := Command LocalEvent BodyExit

namespace BodyRun

def assignAll (ids : List LocalId) : BodyRun :=
  .emits (ids.map .assign)

/-- A closure is created, or a later call of it is followed. `break` does not leave it. -/
def create (params : List LocalId) (body : BodyRun) : BodyRun :=
  .choice .skip (.seq (assignAll params) (.seq (.handle .broke body .halt) .halt))

/-- Rounds until a test or a `break` ends them. -/
def rounds (round : BodyRun) : BodyRun :=
  .handle .finished (.loop round) .skip

/-- The body of a loop, whose `break` ends the rounds. -/
def inLoop (body : BodyRun) : BodyRun :=
  .handle .broke body (.raise .finished)

/-- A pattern the type checker found irrefutable. -/
def irrefutable (pattern : BodyRun) : BodyRun :=
  .handle .mismatch pattern .halt

/-- A part that may be passed over. -/
def skippable (part : Expr) (run : BodyRun) : BodyRun :=
  .choice run (.emit (.passOver part))

end BodyRun

open BodyRun

mutual

def runExpr : Expr → BodyRun
  | .mk kind never => if never then .seq (runKind kind) .halt else runKind kind

def runKind : ExprKind → BodyRun
  | .operands _ operands => runExprs operands
  | .logical _ left right => .seq (runExpr left) (skippable right (runExpr right))
  | .assert condition => .seq (runExpr condition) (.choice .skip .halt)
  | .assertMessage condition message =>
    .seq (runExpr condition) (skippable message (.seq (runExpr message) .halt))
  | .closure params body => create params (runBody body)
  | .shortClosure params body => create params (runExpr body)
  | .cond arms => runCondArms arms .skip
  | .condElse arms elseBody => runCondArms arms (runBody elseBody)
  | .fail value => .seq (runExpr value) .halt
  | .forIn pattern iterable body =>
    .seq (runExpr iterable) (rounds (.seq (.test .finished)
        (.seq (irrefutable (runPattern pattern)) (inLoop (runBody body)))))
  | .readLocal id _ => .emit (.read id)
  | .ifThen condition thenBody => .seq (runExpr condition) (.choice .skip (runBody thenBody))
  | .ifElse condition thenBody elseBody =>
    .seq (runExpr condition) (.choice (runBody thenBody) (runBody elseBody))
  | .loop body => rounds (inLoop (runBody body))
  | .matchOn subject arms => .seq (runExpr subject) (runMatchArms arms)
  | .receive arms => runMatchArms arms
  | .receiveAfter arms timeout afterBody =>
    .seq (runExpr timeout) (.choice (runMatchArms arms) (runBody afterBody))
  -- The handler runs on an error.
  | .rescue subject handler => .seq (runExpr subject) (.choice .skip (runExpr handler))
  | .ternary condition thenExpr elseExpr =>
    .seq (runExpr condition) (.choice (runExpr thenExpr) (runExpr elseExpr))
  -- An error is returned from the function.
  | .tryExpr value => .seq (runExpr value) (.choice .skip .halt)
  -- The loop is entered after its condition: a `break` in the condition is the outer loop's.
  | .whileLoop condition body =>
    rounds (.seq (runExpr condition) (.seq (.test .finished) (inLoop (runBody body))))

def runExprs : Exprs → BodyRun
  | .nil => .skip
  | .cons head tail => .seq (runExpr head) (runExprs tail)

def runCondArms : CondArms → BodyRun → BodyRun
  | .nil, otherwise => otherwise
  | .cons condition body rest, otherwise =>
    .seq (runExpr condition) (.choice (runBody body) (runCondArms rest otherwise))

/-- No arm left is the trap block. -/
def runMatchArms : MatchArms → BodyRun
  | .nil => .halt
  | .arm pattern body rest =>
    .handle .mismatch (.seq (runPattern pattern) (runBody body)) (runMatchArms rest)
  | .guarded pattern guard body rest =>
    .handle .mismatch (.seq (runPattern pattern)
        (.seq (runExpr guard) (.seq (.test .mismatch) (runBody body))))
      (runMatchArms rest)

def runPattern : Pattern → BodyRun
  | .plain _ => .test .mismatch
  | .binding id => .emit (.assign id)
  | .elements _ patterns => .seq (.test .mismatch) (runPatterns patterns)
  | .or _ => .test .mismatch
  | .binary segments => .seq (.test .mismatch) (runSegments segments)

def runPatterns : Patterns → BodyRun
  | .nil => .skip
  | .cons head tail => .seq (runPattern head) (runPatterns tail)

def runSegments : Segments → BodyRun
  | .nil => .skip
  | .unsized binding rest =>
    .seq (.test .mismatch) (.seq (assignAll binding.toList) (runSegments rest))
  | .sized size binding rest =>
    .seq (runExpr size)
      (.seq (.test .mismatch) (.seq (assignAll binding.toList) (runSegments rest)))

def runStatement : Statement → BodyRun
  | .assign target value => .seq (runExpr value) (.emit (.assign target))
  -- The root is read, then the value is evaluated, then the rebuilt root is written back.
  | .assignField head _ value =>
    .seq (.emit (.readHead head value)) (.seq (runExpr value) (.emit (.assign head)))
  | .compoundAssign head _ value =>
    .seq (runExpr value) (.seq (.emit (.read head)) (.emit (.assign head)))
  | .destructure pattern value => .seq (runExpr value) (irrefutable (runPattern pattern))
  | .expr value => runExpr value
  | .returnUnit => .halt
  | .returnValue value => .seq (runExpr value) .halt
  | .breakLoop => .raise .broke

def runBody : Body → BodyRun
  | .nil => .skip
  | .cons statement rest => .seq (runStatement statement) (runBody rest)

end

end Koja.Source.Ir
