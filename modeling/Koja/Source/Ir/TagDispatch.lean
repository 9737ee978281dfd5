/-!
# Tag dispatch

Source: `koja-ir/src/lower/arms.rs` (`emit_int8_eq`, `emit_tag_eq`), `lower/unions.rs`
(`emit_union_switch`), `lower/equality.rs` (`emit_union_eq`), `lower/match_expr.rs`
(`lower_match`, `wire_test_chain`, `emit_payload_binds`) and `lower/patterns/`; what a tag and an
`Int8` constant are at run time is in `koja-ir-eval/src/{interpreter,ops}.rs` and in
`koja-ir-llvm/src/emit/{enums,unions,constants}.rs`. A tag is a `u8`, eight bits here. Literal
patterns and guards are predicates of what they read, and a binary pattern is a literal of its
subject.
-/
namespace Koja.Source.Ir.Dispatch

/-- The two families of tagged values. -/
inductive TagKind where
  | enum | union
  deriving DecidableEq, Repr

/-! ## Tags at run time -/

/-- How a backend represents a tag that was read and an `Int8` constant, and compares them. -/
structure Backend where
  Word : Type
  tagGet : TagKind → BitVec 8 → Word
  int8 : BitVec 8 → Word
  eq : Word → Word → Bool

/-- The interpreter: `EnumTagGet` and `UnionTagGet` give `i64::from` of the tag byte, a constant
`Int8` is its signed value, and `apply_equality` compares the two integers. -/
def interpreter : Backend where
  Word := Int
  tagGet := fun _ tag => (tag.toNat : Int)
  int8 := fun value => value.toInt
  eq := fun lhs rhs => lhs == rhs

/-- Native code: an enum's tag is an `i8` that is stored and loaded, a union's is an `i64` word
that is truncated, a constant `Int8` is `const_int` of the sign-extended value in an `i8`, and
the two are compared with `icmp eq i8`. -/
def native : Backend where
  Word := BitVec 8
  tagGet := fun kind tag =>
    match kind with
    | .enum => tag
    | .union => (tag.setWidth 64).setWidth 8
  int8 := fun value => (value.signExtend 64).setWidth 8
  eq := fun lhs rhs => lhs == rhs

/-- `emit_tag_eq`: the tag against the constant `expected as i8`. -/
def Backend.tagEq (backend : Backend) (kind : TagKind) (tag expected : BitVec 8) : Bool :=
  backend.eq (backend.tagGet kind tag) (backend.int8 expected)

/-- `emit_int8_eq` on two tags that were read. -/
def Backend.sameTag (backend : Backend) (kind : TagKind) (lhs rhs : BitVec 8) : Bool :=
  backend.eq (backend.tagGet kind lhs) (backend.tagGet kind rhs)

/-! ## Values and projections -/

/-- A value as patterns see it. -/
inductive Value (α : Type) where
  | atom (content : α)
  | enum (tag : BitVec 8) (payload : List (Value α))
  | union (tag : BitVec 8) (payload : Value α)
  | product (fields : List (Value α))

/-- `BindOp`, with struct fields and tuple elements as one. -/
inductive BindOp where
  | enumPayloadField (tag : BitVec 8) (index : Nat)
  | field (index : Nat)
  | unionPayload (member : BitVec 8)
  deriving DecidableEq, Repr

variable {α : Type}

/-- A projection. Reading a payload as another variant's is `none`: the interpreter panics, and
native code reads the bytes at the other variant's type. -/
def project : Value α → BindOp → Option (Value α)
  | .enum tag payload, .enumPayloadField expected index =>
    if tag = expected then payload[index]? else none
  | .product fields, .field index => fields[index]?
  | .union tag payload, .unionPayload expected => if tag = expected then some payload else none
  | _, _ => none

/-- A chain of projections from the subject. -/
def projectAll (value : Value α) : List BindOp → Option (Value α)
  | [] => some value
  | op :: rest => do projectAll (← project value op) rest

/-! ## Patterns and their checks -/

/-- An alternative of an or-pattern. -/
inductive Alternative (α : Type) where
  | literal (test : α → Bool)
  | enumUnit (tag : BitVec 8)

mutual
/-- The patterns lowering accepts. `enumVariant` is a unit, tuple or struct variant with the
payload slots it names. -/
inductive Pattern (α : Type) where
  | wildcard
  | binding
  | literal (test : α → Bool)
  | enumVariant (tag : BitVec 8) (payload : Slots α)
  | product (fields : Slots α)
  | typedBinding (member : BitVec 8)
  | or (alternatives : List (Alternative α))

/-- The sub-patterns of a pattern, by the index of the slot each reads. -/
inductive Slots (α : Type) where
  | nil
  | cons (index : Nat) (pattern : Pattern α) (rest : Slots α)
end

/-- One predicate of a check. -/
inductive Test (α : Type) where
  | tagEq (kind : TagKind) (expected : BitVec 8)
  | literal (test : α → Bool)

/-- `TestStep`: the projections that reach the tested value, and the test. -/
structure TestStep (α : Type) where
  chain : List BindOp
  test : Test α

/-- `ChainMode`. -/
inductive ChainMode where
  | and | or
  deriving DecidableEq, Repr

/-- `PatternCheck`. A bind is the chain of projections it applies. -/
inductive PatternCheck (α : Type) where
  | catchAll (binds : List (List BindOp))
  | tests (mode : ChainMode) (binds : List (List BindOp)) (steps : List (TestStep α))

/-- The step of an alternative. -/
def alternativeStep : Alternative α → TestStep α
  | .literal test => { chain := [], test := .literal test }
  | .enumUnit tag => { chain := [], test := .tagEq .enum tag }

/-- Steps and binds of sub-patterns, as they accumulate. -/
structure Accumulated (α : Type) where
  steps : List (TestStep α)
  binds : List (List BindOp)

/-- A step behind one more projection. -/
def TestStep.behind (op : BindOp) (step : TestStep α) : TestStep α :=
  { step with chain := op :: step.chain }

/-- `consume_inner_check`: a nested check read through `op`; a nested or-pattern panics. -/
def consumeInnerCheck (op : BindOp) : PatternCheck α → Option (Accumulated α)
  | .catchAll binds => some { steps := [], binds := binds.map (op :: ·) }
  | .tests .and binds steps =>
    some { steps := steps.map (TestStep.behind op), binds := binds.map (op :: ·) }
  | .tests .or _ _ => none

/-- `lower_subpattern_into`: a wildcard adds nothing, a binding its own bind, and any other
pattern its check behind the projection. -/
def lowerSubpatternInto (op : BindOp) (pattern : Pattern α) (check : Option (PatternCheck α)) :
    Option (Accumulated α) :=
  match pattern with
  | .wildcard => some { steps := [], binds := [] }
  | .binding => some { steps := [], binds := [[op]] }
  | _ => check.bind (consumeInnerCheck op)

mutual
/-- `lower_pattern_check`; `none` where lowering panics. -/
def lowerPatternCheck : Pattern α → Option (PatternCheck α)
  | .wildcard | .binding => some (.catchAll [])
  | .literal test => some (.tests .and [] [{ chain := [], test := .literal test }])
  | .enumVariant tag payload => do
    let inner ← lowerSlots (.enumPayloadField tag) payload
    some (.tests .and inner.binds ({ chain := [], test := .tagEq .enum tag } :: inner.steps))
  | .product fields => do
    let inner ← lowerSlots .field fields
    if inner.steps.isEmpty then some (.catchAll inner.binds)
    else some (.tests .and inner.binds inner.steps)
  | .typedBinding member =>
    some (.tests .and [[.unionPayload member]] [{ chain := [], test := .tagEq .union member }])
  | .or alternatives => some (.tests .or [] (alternatives.map alternativeStep))

/-- The walk over a pattern's slots, in order. -/
def lowerSlots (op : Nat → BindOp) : Slots α → Option (Accumulated α)
  | .nil => some { steps := [], binds := [] }
  | .cons index pattern rest => do
    let here ← lowerSubpatternInto (op index) pattern (lowerPatternCheck pattern)
    let after ← lowerSlots op rest
    some { steps := here.steps ++ after.steps, binds := here.binds ++ after.binds }
end

/-! ## Running a match -/

/-- The value a test reads must be of the test's kind. -/
def runTest (backend : Backend) : Test α → Value α → Option Bool
  | .tagEq .enum expected, .enum tag _ => some (backend.tagEq .enum tag expected)
  | .tagEq .union expected, .union tag _ => some (backend.tagEq .union tag expected)
  | .literal test, .atom content => some (test content)
  | _, _ => none

def runStep (backend : Backend) (value : Value α) (step : TestStep α) : Option Bool := do
  runTest backend step.test (← projectAll value step.chain)

/-- `wire_test_chain`: whether control reaches the success block. -/
def runSteps (backend : Backend) (value : Value α) (mode : ChainMode) :
    List (TestStep α) → Option Bool
  | [] => some (match mode with | .and => true | .or => false)
  | step :: rest => do
    let holds ← runStep backend value step
    match mode with
    | .and => if holds then runSteps backend value mode rest else some false
    | .or => if holds then some true else runSteps backend value mode rest

/-- `emit_payload_binds`: every bind's projections. -/
def runBinds (value : Value α) (binds : List (List BindOp)) : Option Unit :=
  binds.forM fun chain => (projectAll value chain).map fun _ => ()

/-- The check, then the binds at the head of the success block. -/
def runCheck (backend : Backend) (value : Value α) : PatternCheck α → Option Bool
  | .catchAll binds => (runBinds value binds).map fun _ => true
  | .tests mode binds steps => do
    if ← runSteps backend value mode steps then (runBinds value binds).map fun _ => true
    else some false

/-- A match arm: its pattern and its `when` guard, a predicate of the subject. -/
structure MatchArm (α : Type) where
  pattern : Pattern α
  guard : Option (Value α → Bool)

/-- An arm's guard holds, or it has none. -/
def MatchArm.guardHolds (arm : MatchArm α) (value : Value α) : Bool :=
  match arm.guard with
  | none => true
  | some guard => guard value

/-- Where dispatch ends: in an arm, in the trap block, or in a read of a wrong payload. -/
inductive Outcome where
  | enters (arm : Nat)
  | unreachable
  | fault
  deriving DecidableEq, Repr

/-- `lower_match` on a value: each arm's check falls through to the next arm, the last one's to
the trap. `index` is that of the first arm. -/
def runMatch (backend : Backend) (value : Value α) : List (MatchArm α) → Nat → Outcome
  | [], _ => .unreachable
  | arm :: rest, index =>
    match (lowerPatternCheck arm.pattern).bind (runCheck backend value) with
    | none => .fault
    | some true => if arm.guardHolds value then .enters index
        else runMatch backend value rest (index + 1)
    | some false => runMatch backend value rest (index + 1)

/-! ## Running a union switch -/

/-- The chain of `emit_union_switch` from member `index` on, with `left` members after it: a test
for each member but the last, and each arm projects its member's payload. -/
def unionSwitchFrom (backend : Backend) (value : Value α) : Nat → Nat → Outcome
  | index, 0 =>
    match project value (.unionPayload (BitVec.ofNat 8 index)) with
    | some _ => .enters index
    | none => .fault
  | index, left + 1 =>
    match runTest backend (.tagEq .union (BitVec.ofNat 8 index)) value with
    | some true =>
      match project value (.unionPayload (BitVec.ofNat 8 index)) with
      | some _ => .enters index
      | none => .fault
    | some false => unionSwitchFrom backend value (index + 1) left
    | none => .fault

/-- `emit_union_switch` over a union of `members` members. -/
def unionSwitch (backend : Backend) (members : Nat) (value : Value α) : Outcome :=
  unionSwitchFrom backend value 0 (members - 1)

/-- `emit_union_eq`: the tags, then the payloads projected as the member the switch on the left
value selects, compared there. -/
def unionEq (backend : Backend) (members : Nat) (payloadEq : Nat → Value α → Value α → Bool) :
    Value α → Value α → Option Bool
  | .union lhsTag lhs, .union rhsTag rhs =>
    if backend.sameTag .union lhsTag rhsTag then
      match unionSwitch backend members (.union lhsTag lhs) with
      | .enters index => do
        let payload ← project (.union lhsTag lhs) (.unionPayload (BitVec.ofNat 8 index))
        let other ← project (.union rhsTag rhs) (.unionPayload (BitVec.ofNat 8 index))
        some (payloadEq index payload other)
      | _ => none
    else some false
  | _, _ => none

end Koja.Source.Ir.Dispatch
