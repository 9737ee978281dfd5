import Koja.Source.Typecheck.Types
import Mathlib.Data.List.Sort
import Mathlib.Data.List.Destutter

/-!
# Type equivalence and canonical unions

Source: `koja-typecheck/src/pipeline/resolve/types.rs` (`is_primitive`, `canonical_union`,
`types_equivalent`, `primitive_aliases`, `display_resolution`, `merge_partial`), with the derived
`Ord` of `koja-ast/src/identifier.rs`. `types_equivalent` recurses through alias expansions, so it
has fuel here: `none` means that the fuel ran out.
-/
namespace Koja.Source.Typecheck

namespace Identifier

/-- `Identifier::source_name`. -/
def sourceName (identifier : Identifier) : String :=
  if identifier.isInGlobal then ".".intercalate identifier.path
  else identifier.package ++ "." ++ ".".intercalate identifier.path

end Identifier

/-- The derived `Ord` of `Resolution`. -/
def Resolution.cmp : Resolution → Resolution → Ordering
  | .global id, .global id' => compare id id'
  | .global _, _ => .lt
  | .local _, .global _ => .gt
  | .local id, .local id' => compare id id'
  | .local _, _ => .lt
  | .typeParam .., .global _ => .gt
  | .typeParam .., .local _ => .gt
  | .typeParam owner index, .typeParam owner' index' =>
    (compare owner owner').then (compare index index')
  | .typeParam .., .unresolved => .lt
  | .unresolved, .unresolved => .eq
  | .unresolved, _ => .gt

theorem Resolution.cmp_self (resolution : Resolution) : resolution.cmp resolution = .eq := by
  cases resolution <;> simp [Resolution.cmp]

theorem Resolution.eq_of_cmp {a b : Resolution} (same : a.cmp b = .eq) : a = b := by
  cases a <;> cases b <;> simp_all [Resolution.cmp]

namespace ResolvedType

/-- Where the variant stands in the declaration: `Anonymous(Function)`, `Anonymous(Tuple)`,
`Named`, `Union`, `Failed`, `Unresolved`. -/
def variant : ResolvedType → Nat
  | .function .. => 0
  | .tuple _ => 1
  | .named .. => 2
  | .union _ => 3
  | .failed => 4
  | .unresolved => 5

mutual

/-- The derived `Ord`: variants in declaration order, fields from left to right. -/
def cmp : ResolvedType → ResolvedType → Ordering
  | .function params ret, .function params' ret' => (cmpEach params params').then (cmp ret ret')
  | .tuple elements, .tuple elements' => cmpEach elements elements'
  | .named resolution typeArgs, .named resolution' typeArgs' =>
    (resolution.cmp resolution').then (cmpEach typeArgs typeArgs')
  | .union members, .union members' => cmpEach members members'
  | a, b => compare a.variant b.variant

/-- The order of vectors: element by element, a proper initial part first. -/
def cmpEach : List ResolvedType → List ResolvedType → Ordering
  | [], [] => .eq
  | [], _ :: _ => .lt
  | _ :: _, [] => .gt
  | a :: as, b :: bs => (cmp a b).then (cmpEach as bs)

end

mutual

theorem cmp_self (ty : ResolvedType) : cmp ty ty = .eq := by
  cases ty with
  | function params ret => simp [cmp, cmpEach_self params, cmp_self ret]
  | tuple elements => simp [cmp, cmpEach_self elements]
  | named resolution typeArgs => simp [cmp, resolution.cmp_self, cmpEach_self typeArgs]
  | union members => simp [cmp, cmpEach_self members]
  | failed | unresolved => rfl

theorem cmpEach_self (types : List ResolvedType) : cmpEach types types = .eq := by
  cases types with
  | nil => rfl
  | cons ty rest => simp [cmpEach, cmp_self ty, cmpEach_self rest]

end

mutual

theorem eq_of_cmp (a b : ResolvedType) (same : cmp a b = .eq) : a = b := by
  cases a <;> cases b <;>
    simp only [cmp, variant, Ordering.then_eq_eq, reduceCtorEq, Nat.compare_eq_eq] at same <;>
    try omega
  case function.function params ret params' ret' =>
    rw [eq_of_cmpEach params params' same.1, eq_of_cmp ret ret' same.2]
  case tuple.tuple elements elements' => rw [eq_of_cmpEach elements elements' same]
  case named.named resolution typeArgs resolution' typeArgs' =>
    rw [Resolution.eq_of_cmp same.1, eq_of_cmpEach typeArgs typeArgs' same.2]
  case union.union members members' => rw [eq_of_cmpEach members members' same]
  case failed.failed => rfl
  case unresolved.unresolved => rfl

theorem eq_of_cmpEach (as bs : List ResolvedType) (same : cmpEach as bs = .eq) : as = bs := by
  cases as <;> cases bs <;> simp only [cmpEach, Ordering.then_eq_eq, reduceCtorEq] at same
  case nil.nil => rfl
  case cons.cons a as b bs => rw [eq_of_cmp a b same.1, eq_of_cmpEach as bs same.2]

end

/-- The derived `PartialEq`. -/
instance : DecidableEq ResolvedType := fun a b =>
  decidable_of_iff (cmp a b = .eq) ⟨eq_of_cmp a b, fun h => h ▸ cmp_self a⟩

end ResolvedType

/-- What displaying and joining types reads of the registry besides its entries: the declared
names of type parameters (`type_param_name`) and the id of `Global.Unit`. -/
structure TypeTable where
  entries : GlobalRegistry
  typeParamName : GlobalRegistryId → Nat → Option String
  unit : GlobalRegistryId

namespace TypeTable

variable (table : TypeTable) (a b : ResolvedType)

/-- `is_primitive`. -/
def isPrimitive (name : String) : ResolvedType → Bool
  | .named (.global id) [] =>
    match table.entries id with
    | some entry => entry.identifier.isInGlobal && entry.identifier.path.getLast? = some name
    | none => false
  | _ => false

/-- `is_primitive_pair`. -/
def isPrimitivePair (lhs rhs : String) : Bool :=
  (table.isPrimitive lhs a && table.isPrimitive rhs b) ||
    (table.isPrimitive rhs a && table.isPrimitive lhs b)

/-- `primitive_aliases`. -/
def primitiveAliases : Bool :=
  table.isPrimitivePair a b "Int" "Int64" || table.isPrimitivePair a b "Float" "Float64"

mutual

/-- `display_resolution`. -/
def displayResolution (table : TypeTable) : ResolvedType → String
  | .function params ret =>
    "fn (" ++ ", ".intercalate (displayEach table params) ++ ") -> " ++ displayResolution table ret
  | .tuple elements => "(" ++ ", ".intercalate (displayEach table elements) ++ ")"
  | .named (.global id) typeArgs =>
    let head :=
      match table.entries id with
      | some entry => entry.identifier.sourceName
      | none => "<id " ++ toString id ++ ">"
    if typeArgs.isEmpty then head
    else head ++ "<" ++ ", ".intercalate (displayEach table typeArgs) ++ ">"
  | .named (.local id) _ => "<local " ++ toString id ++ ">"
  | .named (.typeParam owner index) _ =>
    (table.typeParamName owner index).getD
      ("<typeparam " ++ toString owner ++ "#" ++ toString index ++ ">")
  | .named .unresolved _ => "<unresolved>"
  | .failed => "<unresolved>"
  | .unresolved => "<unresolved>"
  | .union members => " | ".intercalate (displayEach table members)

def displayEach (table : TypeTable) : List ResolvedType → List String
  | [] => []
  | ty :: rest => displayResolution table ty :: displayEach table rest

end

/-- The comparison `canonical_union` sorts by: the display text, then the derived order. -/
def memberCmp : Ordering :=
  (compare (table.displayResolution a) (table.displayResolution b)).then (a.cmp b)

/-- A member may stand before another. -/
def MemberLe : Prop :=
  table.memberCmp a b ≠ .gt

instance (table : TypeTable) : DecidableRel table.MemberLe :=
  fun a b => inferInstanceAs (Decidable (table.memberCmp a b ≠ .gt))

/-- The loop of `canonical_union`: members through their aliases, unions opened one level. -/
def flattenMember (member : ResolvedType) : List ResolvedType :=
  match table.entries.peelAlias member with
  | .union inner => inner
  | other => [other]

/-- The member vector of `canonical_union` after `sort_by` and `dedup`. -/
def canonicalMembers (members : List ResolvedType) : List ResolvedType :=
  ((members.flatMap table.flattenMember).insertionSort table.MemberLe).destutter (· ≠ ·)

/-- `canonical_union`. -/
def canonicalUnion (members : List ResolvedType) : ResolvedType :=
  match table.canonicalMembers members with
  | [] => .named (.global table.unit) []
  | [member] => member
  | kept => .union kept

/-- `zip(..).all(..)`: the first pair that fails ends the walk. -/
def allEquivalent (equivalent : ResolvedType → ResolvedType → Option Bool) :
    List ResolvedType → List ResolvedType → Option Bool
  | a :: as, b :: bs => do
      if ← equivalent a b then allEquivalent equivalent as bs else return false
  | _, _ => return true

/-- The comparison `types_equivalent` makes of two peeled types, over its own recursion. -/
def peeledEquivalent
    (equivalent : ResolvedType → ResolvedType → Option Bool) (a b : ResolvedType) : Option Bool :=
  if a = b then return true
  else
    match a, b with
    | .named aHead aArgs, .named bHead bArgs =>
      if aHead = bHead ∧ aArgs.length = bArgs.length then allEquivalent equivalent aArgs bArgs
      else return aArgs.isEmpty && bArgs.isEmpty && table.primitiveAliases a b
    | .function aParams aRet, .function bParams bRet => do
        if aParams.length ≠ bParams.length then return false
        if ← allEquivalent equivalent aParams bParams then equivalent aRet bRet else return false
    | .tuple aElements, .tuple bElements =>
      if aElements.length = bElements.length then allEquivalent equivalent aElements bElements
      else return false
    | .union aMembers, .union bMembers =>
      if aMembers.length = bMembers.length then allEquivalent equivalent aMembers bMembers
      else return false
    | _, _ => return false

/-- `types_equivalent`. -/
def typesEquivalent (table : TypeTable) : Nat → ResolvedType → ResolvedType → Option Bool
  | 0, _, _ => none
  | fuel + 1, a, b =>
    if a = b then return true
    else
      peeledEquivalent table (typesEquivalent table fuel)
        (table.entries.peelAlias a) (table.entries.peelAlias b)

end TypeTable

mutual

/-- `merge_partial`. -/
def mergePartial : ResolvedType → ResolvedType → Option ResolvedType
  | .failed, other | .unresolved, other => some other
  | other, .failed | other, .unresolved => some other
  | .named resolution typeArgs, .named otherResolution otherArgs =>
    if resolution = otherResolution then
      (mergePartialAll typeArgs otherArgs).map (.named resolution)
    else none
  | .tuple elements, .tuple otherElements => (mergePartialAll elements otherElements).map .tuple
  | _, _ => none

/-- `merge_partial_all`: no result for lists of different lengths. -/
def mergePartialAll : List ResolvedType → List ResolvedType → Option (List ResolvedType)
  | [], [] => some []
  | a :: as, b :: bs => do
    let merged ← mergePartial a b
    let rest ← mergePartialAll as bs
    return merged :: rest
  | _, _ => none

end

end Koja.Source.Typecheck
