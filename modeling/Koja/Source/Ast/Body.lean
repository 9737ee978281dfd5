import Koja.Source.Typecheck.Types

/-!
# Function bodies

Source: `koja-ast/src/ast.rs` (`Statement`, `ExprKind`, `Pattern`), after resolution, as far as
the flow of control and the locals tell the forms apart. Forms that only evaluate their operands
in order share one constructor. `Or` alternatives are the two forms
`resolve/patterns/or_pattern.rs` admits.
-/
namespace Koja.Source.Ast

open Typecheck (LocalId)

/-- Expressions that evaluate their operands in order and do nothing else to locals: the callee
before the arguments, a key before its value, a segment's value before its size. `self` reads the
receiver parameter. -/
inductive OperandForm where
  | binary | binaryLiteral | call | enumConstruction | fieldAccess | group | list | literal | map
  | methodCall | namedFunctionReference | selfReference | spawn | string | structConstruction
  | tuple | unary
  deriving DecidableEq, Repr

inductive LogicalOp where
  | and | or
  deriving DecidableEq, Repr

inductive OrAlternative where
  | enumUnit | literal
  deriving DecidableEq, Repr

/-- Patterns without sub-patterns that bind nothing. -/
inductive PlainPattern where
  | enumUnit | literal | wildcard
  deriving DecidableEq, Repr

/-- Patterns that take the subject apart and match its parts in order. -/
inductive ElementsForm where
  | constructor | enumTuple | list | tuple | enumStruct | struct
  deriving DecidableEq, Repr

mutual

/-- An expression, and whether its resolved type is `Never`. -/
inductive Expr where
  | mk (kind : ExprKind) (never : Bool)

inductive ExprKind where
  | operands (form : OperandForm) (operands : Exprs)
  /-- A binary `and` or `or`. -/
  | logical (op : LogicalOp) (left right : Expr)
  | assert (condition : Expr)
  | assertMessage (condition message : Expr)
  | closure (params : List LocalId) (body : Body)
  | shortClosure (params : List LocalId) (body : Expr)
  | cond (arms : CondArms)
  | condElse (arms : CondArms) (elseBody : Body)
  | fail (value : Expr)
  | forIn (pattern : Pattern) (iterable : Expr) (body : Body)
  /-- An identifier that resolves to a local. -/
  | readLocal (id : LocalId) (name : String)
  | ifThen (condition : Expr) (thenBody : Body)
  | ifElse (condition : Expr) (thenBody elseBody : Body)
  | loop (body : Body)
  | matchOn (subject : Expr) (arms : MatchArms)
  | receive (arms : MatchArms)
  | receiveAfter (arms : MatchArms) (timeout : Expr) (afterBody : Body)
  | rescue (subject handler : Expr)
  | ternary (condition thenExpr elseExpr : Expr)
  | tryExpr (value : Expr)
  | whileLoop (condition : Expr) (body : Body)

inductive Exprs where
  | nil
  | cons (head : Expr) (tail : Exprs)

/-- The arms of a `cond`, without its `else`. -/
inductive CondArms where
  | nil
  | cons (condition : Expr) (body : Body) (rest : CondArms)

inductive MatchArms where
  | nil
  | arm (pattern : Pattern) (body : Body) (rest : MatchArms)
  | guarded (pattern : Pattern) (guard : Expr) (body : Body) (rest : MatchArms)

inductive Pattern where
  | plain (form : PlainPattern)
  /-- A `Binding` or a `TypedBinding`. -/
  | binding (id : LocalId)
  | elements (form : ElementsForm) (patterns : Patterns)
  | or (alternatives : List OrAlternative)
  | binary (segments : Segments)

inductive Patterns where
  | nil
  | cons (head : Pattern) (tail : Patterns)

/-- The segments of a binary pattern, with the local a segment's value is bound to. -/
inductive Segments where
  | nil
  | unsized (binding : Option LocalId) (rest : Segments)
  | sized (size : Expr) (binding : Option LocalId) (rest : Segments)

inductive Statement where
  | assign (target : LocalId) (value : Expr)
  /-- An assignment through at least one field of the head. -/
  | assignField (head : LocalId) (name : String) (value : Expr)
  | compoundAssign (head : LocalId) (name : String) (value : Expr)
  | destructure (pattern : Pattern) (value : Expr)
  | expr (value : Expr)
  | returnUnit
  | returnValue (value : Expr)
  | breakLoop

inductive Body where
  | nil
  | cons (statement : Statement) (rest : Body)

end

/-- The type of an expression is `Never`. -/
def Expr.never : Expr → Bool
  | .mk _ never => never

/-- A function: its parameters, `self` among them, and its body. Defaults of parameters have been
moved into adapter functions (`pipeline/defaults.rs`). -/
structure Function where
  params : List LocalId
  body : Body

end Koja.Source.Ast
