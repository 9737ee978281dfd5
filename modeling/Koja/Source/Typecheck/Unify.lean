import Koja.Source.Typecheck.Equivalence

/-!
# Inference of type arguments

Source: `koja-typecheck/src/pipeline/unify.rs`. A call of `unify_into` returns the conflict it
ended in, if any, and the substitution it leaves; `none` means that the fuel of
`types_equivalent` ran out. Loops over the arguments of a type stop at the first conflict.
-/
namespace Koja.Source.Typecheck

/-- `Conflict`. -/
structure Conflict where
  actual : ResolvedType
  owner : GlobalRegistryId
  paramIndex : Nat
  prev : ResolvedType

/-- `Scope`. -/
structure Scope where
  owner : GlobalRegistryId
  slots : List (Option ResolvedType)

/-- `Substitution`. -/
structure Substitution where
  scopes : List Scope

abbrev Unified := Option (Option Conflict × Substitution)

namespace TypeTable

variable (table : TypeTable) (fuel : Nat) (prev value : ResolvedType)

/-- `is_sized_int`. -/
def isSizedInt : Bool :=
  ["Int8", "Int16", "Int32", "Int64", "UInt8", "UInt16", "UInt32", "UInt64"].any
    (table.isPrimitive · prev)

/-- `is_sized_float`. -/
def isSizedFloat : Bool :=
  ["Float32", "Float64"].any (table.isPrimitive · prev)

/-- `literal_widens_into`. -/
def literalWidensInto : Bool :=
  (table.isPrimitive "Int" value && table.isSizedInt prev) ||
    (table.isPrimitive "Float" value && table.isSizedFloat prev)

/-- `union_contains`. -/
def unionContains : Option Bool :=
  match table.entries.peelAlias prev with
  | .union members => members.anyM (table.typesEquivalent fuel · value)
  | _ => some false

end TypeTable

namespace Substitution

variable (owner : GlobalRegistryId) (index : Nat) (subst : Substitution)

/-- `Substitution::single`. -/
def single (arity : Nat) : Substitution :=
  ⟨[⟨owner, List.replicate arity none⟩]⟩

/-- `Substitution::from_args`. -/
def fromArgs (args : List ResolvedType) : Substitution :=
  ⟨[⟨owner, args.map some⟩]⟩

/-- `Substitution::scope`. -/
def scope : Option Scope :=
  subst.scopes.find? (·.owner = owner)

/-- `Substitution::owns`. -/
def owns : Bool :=
  (scope owner subst).isSome

/-- `Substitution::get`. -/
def get : Option ResolvedType := do
  let scope ← scope owner subst
  (← scope.slots[index]?)

/-- The slot of the first scope of the owner, written. -/
def fill (value : ResolvedType) : List Scope → List Scope
  | [] => []
  | scope :: rest =>
    if scope.owner = owner then ⟨owner, scope.slots.set index (some value)⟩ :: rest
    else scope :: fill value rest

/-- `Substitution::set`. -/
def set (table : TypeTable) (fuel : Nat) (value : ResolvedType) : Unified :=
  match (scope owner subst).bind (·.slots[index]?) with
  | none => some (none, subst)
  | some none => some (none, ⟨fill owner index value subst.scopes⟩)
  | some (some prev) => do
      let compatible ← table.typesEquivalent fuel prev value <||>
        table.unionContains fuel prev value <||> return table.literalWidensInto prev value
      return (if compatible then none else some ⟨value, owner, index, prev⟩, subst)

end Substitution

/-- The `?` operator. -/
def Unified.andThen (first : Unified) (next : Substitution → Unified) : Unified := do
  match ← first with
  | (none, subst) => next subst
  | stopped => return stopped

mutual

/-- `unify_into`. -/
def unifyInto (table : TypeTable) (fuel : Nat) :
    ResolvedType → ResolvedType → Substitution → Unified
  | _, .failed, subst | _, .unresolved, subst => some (none, subst)
  | .named (.typeParam owner index) _, actual, subst =>
    if subst.owns owner then subst.set owner index table fuel actual else some (none, subst)
  | .named head args, .named actualHead actualArgs, subst =>
    if head = actualHead ∧ args.length = actualArgs.length then
      unifyEach table fuel args actualArgs subst
    else some (none, subst)
  | .function params ret, .function actualParams actualRet, subst =>
    if params.length = actualParams.length then
      Unified.andThen (unifyEach table fuel params actualParams subst)
        (unifyInto table fuel ret actualRet)
    else some (none, subst)
  | .tuple elements, .tuple actualElements, subst =>
    if elements.length = actualElements.length then
      unifyEach table fuel elements actualElements subst
    else some (none, subst)
  | _, _, subst => some (none, subst)

/-- The loop over the parts of two types. -/
def unifyEach (table : TypeTable) (fuel : Nat) :
    List ResolvedType → List ResolvedType → Substitution → Unified
  | template :: templates, actual :: actuals, subst =>
    Unified.andThen (unifyInto table fuel template actual subst)
      (unifyEach table fuel templates actuals)
  | _, _, subst => some (none, subst)

end

mutual

/-- `substitute`. -/
def substitute (subst : Substitution) : ResolvedType → ResolvedType
  | .function params ret => .function (substituteAll subst params) (substitute subst ret)
  | .tuple elements => .tuple (substituteAll subst elements)
  | .named (.typeParam owner index) typeArgs =>
    if subst.owns owner then (subst.get owner index).getD .unresolved
    else .named (.typeParam owner index) (substituteAll subst typeArgs)
  | .named resolution typeArgs => .named resolution (substituteAll subst typeArgs)
  | .union members => .union (substituteAll subst members)
  | .failed => .failed
  | .unresolved => .unresolved

def substituteAll (subst : Substitution) : List ResolvedType → List ResolvedType
  | [] => []
  | ty :: rest => substitute subst ty :: substituteAll subst rest

end

end Koja.Source.Typecheck
