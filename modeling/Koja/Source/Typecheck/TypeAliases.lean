import Koja.Source.Typecheck.Equivalence

/-!
# Lifting type aliases

Source: `koja-typecheck/src/pipeline/lift_signatures/type_aliases.rs`, with `resolve_type_expr` of
`lift_signatures/types.rs` and the alias setters of `registry/mod.rs`. A declaration comes with
the id its name has in the registry and with the path lookup of its file. The diagnostics of
unknown names are left out. `none` is a panic, or no fuel.
-/
namespace Koja.Source.Typecheck

/-- `TypeExpr`. -/
inductive TypeExpr where
  | function (params : List TypeExpr) (returnType : TypeExpr)
  | generic (path : List String) (args : List TypeExpr)
  | named (path : List String)
  | self
  | tuple (elements : List TypeExpr)
  | union (types : List TypeExpr)
  | unit

/-- `Item::TypeAlias`, with its identifier, the id `lookup` finds for it and `lookup_path_entry`
in the scope of its file. -/
structure TypeAlias where
  identifier : Identifier
  id : GlobalRegistryId
  lookup : List String → Option GlobalRegistryId
  typeExpr : TypeExpr

mutual

/-- `resolve_type_expr` outside any generic declaration. -/
def TypeTable.resolveTypeExpr (table : TypeTable) (lookup : List String → Option GlobalRegistryId) :
    TypeExpr → ResolvedType
  | .function params returnType =>
    .function (table.resolveEach lookup params) (table.resolveTypeExpr lookup returnType)
  | .generic path args =>
    match lookup path with
    | some id => .named (.global id) (table.resolveEach lookup args)
    | none => .failed
  | .named path =>
    match lookup path with
    | some id => .named (.global id) []
    | none => .failed
  | .self => .failed
  | .tuple elements => .tuple (table.resolveEach lookup elements)
  | .union types => table.canonicalUnion (table.resolveEach lookup types)
  | .unit => .named (.global table.unit) []

def TypeTable.resolveEach (table : TypeTable) (lookup : List String → Option GlobalRegistryId) :
    List TypeExpr → List ResolvedType
  | [] => []
  | expr :: rest => table.resolveTypeExpr lookup expr :: table.resolveEach lookup rest

end

namespace GlobalRegistry

variable (registry : GlobalRegistry) (id : GlobalRegistryId) (expansion : ResolvedType)

/-- `set_type_alias_definition_force`. -/
def setTypeAliasDefinitionForce : Option GlobalRegistry :=
  match registry id with
  | some ⟨identifier, .typeAlias _⟩ =>
    some (Function.update registry id (some ⟨identifier, .typeAlias (some expansion)⟩))
  | _ => none

/-- `set_type_alias_definition`: `stamp` panics on an entry that has its definition. -/
def setTypeAliasDefinition : Option GlobalRegistry :=
  match registry id with
  | some ⟨_, .typeAlias none⟩ => setTypeAliasDefinitionForce registry id expansion
  | _ => none

/-- The entry is a `GlobalKind::TypeAlias`. -/
def isTypeAlias : Bool :=
  match registry id with
  | some ⟨_, .typeAlias _⟩ => true
  | _ => false

end GlobalRegistry

/-- A walk over the path set `seen`: what it returns, and the set it leaves. -/
abbrev AliasWalk := List GlobalRegistryId → Option (Bool × List GlobalRegistryId)

/-- `||` and the steps of `any`: the second walk runs when the first finds nothing. -/
def AliasWalk.or (first second : AliasWalk) : AliasWalk := fun seen => do
  let (found, seen) ← first seen
  if found then return (true, seen) else second seen

/-- A walk that finds nothing. -/
def AliasWalk.miss : AliasWalk := fun seen => some (false, seen)

mutual

/-- `type_references_alias`, over the walk of an alias. -/
def typeReferencesAlias (registry : GlobalRegistry) (cycles : GlobalRegistryId → AliasWalk) :
    ResolvedType → AliasWalk
  | .named (.global child) typeArgs =>
    .or (if registry.isTypeAlias child then cycles child else .miss)
      (anyReferencesAlias registry cycles typeArgs)
  | .named _ typeArgs => anyReferencesAlias registry cycles typeArgs
  | .function params ret =>
    .or (anyReferencesAlias registry cycles params) (typeReferencesAlias registry cycles ret)
  | .tuple elements => anyReferencesAlias registry cycles elements
  | .union members => anyReferencesAlias registry cycles members
  | .failed | .unresolved => .miss

def anyReferencesAlias (registry : GlobalRegistry) (cycles : GlobalRegistryId → AliasWalk) :
    List ResolvedType → AliasWalk
  | [] => .miss
  | ty :: rest =>
    .or (typeReferencesAlias registry cycles ty) (anyReferencesAlias registry cycles rest)

end

/-- `expansion_cycles`. -/
def expansionCycles (registry : GlobalRegistry) : Nat → GlobalRegistryId → AliasWalk
  | 0, _, _ => none
  | fuel + 1, id, seen =>
    if id ∈ seen then some (true, seen)
    else
      match registry.aliasExpansion id with
      -- This exit leaves `id` in the set.
      | none => some (false, id :: seen)
      | some expansion => do
          let (cycles, seen) ←
            typeReferencesAlias registry (expansionCycles registry fuel) expansion (id :: seen)
          return (cycles, seen.erase id)

/-- The `filter` of `diagnose_alias_cycles`, each walk with a new path set. -/
def cyclingAliases (registry : GlobalRegistry) (fuel : Nat) :
    List TypeAlias → Option (List TypeAlias)
  | [] => some []
  | site :: rest => do
      let (cycles, _) ← expansionCycles registry fuel site.id []
      let cycling ← cyclingAliases registry fuel rest
      return if cycles then site :: cycling else cycling

/-- A diagnostic: its text, and the alias whose declaration it points at. -/
structure AliasDiagnostic where
  message : String
  site : GlobalRegistryId

/-- The diagnostic of a cycling alias. -/
def TypeAlias.cycleDiagnostic (site : TypeAlias) : AliasDiagnostic where
  message := "type alias `" ++ site.identifier.sourceName ++ "` references itself (cycle)"
  site := site.id

/-- `diagnose_alias_cycles`: every walk runs before the first expansion is replaced. -/
def diagnoseAliasCycles (registry : GlobalRegistry) (fuel : Nat) (sites : List TypeAlias) :
    Option (List AliasDiagnostic × GlobalRegistry) := do
  let cycling ← cyclingAliases registry fuel sites
  let registry ← cycling.foldlM (fun registry site =>
    registry.setTypeAliasDefinitionForce site.id .failed) registry
  return (cycling.map TypeAlias.cycleDiagnostic, registry)

/-- The first sweep of `lift_type_aliases`: each alias in turn is given the expansion its
declaration has in the registry so far. -/
def TypeTable.stampAliases (table : TypeTable) (aliases : List TypeAlias) : Option GlobalRegistry :=
  aliases.foldlM (fun registry site => registry.setTypeAliasDefinition site.id
    ({ table with entries := registry }.resolveTypeExpr site.lookup site.typeExpr)) table.entries

/-- `lift_type_aliases`. -/
def TypeTable.liftTypeAliases (table : TypeTable) (fuel : Nat) (aliases : List TypeAlias) :
    Option (List AliasDiagnostic × GlobalRegistry) := do
  diagnoseAliasCycles (← table.stampAliases aliases) fuel aliases

end Koja.Source.Typecheck
