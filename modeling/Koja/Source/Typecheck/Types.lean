import Koja.Source.Ir.Types

/-!
# Resolved types and the global registry

Source: `koja-ast/src/identifier.rs`, `koja-typecheck/src/registry/`,
`koja-typecheck/src/pipeline/resolve/types.rs`, and the translation to IR types of
`koja-ir/src/lower/package.rs` with the substitution of `koja-ir/src/generics/`. Registry
entries keep what the translation reads: the identifier and the kind.
-/
namespace Koja.Source.Typecheck

open Koja.Source.Ir

/-- `Identifier`: a package and the path inside it. -/
structure Identifier where
  package : String
  path : List String
  deriving DecidableEq, Repr

namespace Identifier

def isInGlobal (identifier : Identifier) : Bool :=
  identifier.package = "Global"

def qualifiedName (identifier : Identifier) : String :=
  identifier.package ++ "." ++ ".".intercalate identifier.path

end Identifier

/-- `IRSymbol::from_identifier`. -/
def symbolOf (identifier : Identifier) : IRSymbol :=
  ⟨identifier.qualifiedName⟩

abbrev GlobalRegistryId := Nat
abbrev LocalId := Nat

/-- `Resolution`. -/
inductive Resolution where
  | global (id : GlobalRegistryId)
  | «local» (id : LocalId)
  | typeParam (owner : GlobalRegistryId) (index : Nat)
  | unresolved
  deriving DecidableEq, Repr

/-- `Resolution::is_resolved`. -/
def Resolution.isResolved : Resolution → Bool
  | .unresolved => false
  | _ => true

/-- `ResolvedType`, with `AnonymousKind` folded in. -/
inductive ResolvedType where
  | function (params : List ResolvedType) (ret : ResolvedType)
  | tuple (elements : List ResolvedType)
  | named (resolution : Resolution) (typeArgs : List ResolvedType)
  | union (members : List ResolvedType)
  | failed
  | unresolved
  deriving Repr

namespace ResolvedType

mutual

/-- `ResolvedType::is_resolved`. -/
def isResolved : ResolvedType → Bool
  | .function params ret => eachResolved params && isResolved ret
  | .tuple elements => eachResolved elements
  | .named resolution typeArgs => resolution.isResolved && eachResolved typeArgs
  | .union members => eachResolved members
  | .failed | .unresolved => false

def eachResolved : List ResolvedType → Bool
  | [] => true
  | ty :: rest => isResolved ty && eachResolved rest

end

mutual

/-- `substitute_resolved_type`. A parameter past the argument list is a panic in the source;
here it stays as it is, and the translation to an IR type fails on it. -/
def substitute (args : List ResolvedType) (owner : GlobalRegistryId) : ResolvedType → ResolvedType
  | .named (.typeParam paramOwner index) typeArgs =>
    if paramOwner = owner then
      (args.drop index).headD (.named (.typeParam paramOwner index) typeArgs)
    else .named (.typeParam paramOwner index) (substituteEach args owner typeArgs)
  | .named resolution typeArgs => .named resolution (substituteEach args owner typeArgs)
  | .function params ret =>
    .function (substituteEach args owner params) (substitute args owner ret)
  | .tuple elements => .tuple (substituteEach args owner elements)
  | .union members => .union (substituteEach args owner members)
  | .failed => .failed
  | .unresolved => .unresolved

def substituteEach (args : List ResolvedType) (owner : GlobalRegistryId) :
    List ResolvedType → List ResolvedType
  | [] => []
  | ty :: rest => substitute args owner ty :: substituteEach args owner rest

end

end ResolvedType

/-- `BuiltinShape`. -/
inductive BuiltinShape where
  | binary | bits | bool | cPtr | float32 | float64 | int8 | int16 | int32 | int64 | list | map
  | never | set | string | uInt8 | uInt16 | uInt32 | uInt64 | unit
  deriving DecidableEq, Repr

/-- `GlobalKind`; functions, constants and protocols are one case. -/
inductive GlobalKind where
  | builtin (shape : BuiltinShape)
  | enum
  | struct
  | typeAlias (expansion : Option ResolvedType)
  | other
  deriving Repr

/-- `RegistryEntry`. -/
structure RegistryEntry where
  identifier : Identifier
  kind : GlobalKind
  deriving Repr

/-- `GlobalRegistry`. -/
abbrev GlobalRegistry := GlobalRegistryId → Option RegistryEntry

namespace GlobalRegistry

variable (registry : GlobalRegistry)

/-- `GlobalRegistry::alias_expansion`. -/
def aliasExpansion (id : GlobalRegistryId) : Option ResolvedType :=
  match registry id with
  | some ⟨_, .typeAlias expansion⟩ => expansion
  | _ => none

/-- `is_global_type`. -/
def isGlobalType (id : GlobalRegistryId) (path : List String) : Bool :=
  match registry id with
  | some entry => entry.identifier.isInGlobal && entry.identifier.path = path
  | none => false

/-- `peel_alias_capped`. -/
def peelAliasCapped (registry : GlobalRegistry) : Nat → ResolvedType → ResolvedType
  | 0, ty => ty
  | fuel + 1, .named (.global id) [] =>
    match registry.aliasExpansion id with
    | some expansion => peelAliasCapped registry fuel expansion
    | none => .named (.global id) []
  | _ + 1, ty => ty

/-- `peel_alias`. -/
def peelAlias (ty : ResolvedType) : ResolvedType :=
  peelAliasCapped registry 32 ty

/-- `matches_global`, with `is_primitive_named` of the type checker as its arity-zero case. -/
def matchesGlobal (path : List String) (arity : Nat) : ResolvedType → Bool
  | .named (.global id) typeArgs => typeArgs.length = arity && registry.isGlobalType id path
  | _ => false

end GlobalRegistry

/-- `builtin_to_ir_type`, over the already translated arguments. -/
def builtinToIrType : BuiltinShape → List IRType → Option IRType
  | .binary, [] => some .binary
  | .bits, [] => some .bits
  | .bool, [] => some .bool
  | .cPtr, [inner] => some (.cPtr inner)
  | .float32, [] => some .float32
  | .float64, [] => some .float64
  | .int8, [] => some .int8
  | .int16, [] => some .int16
  | .int32, [] => some .int32
  | .int64, [] => some .int64
  | .list, [element] => some (.list element)
  | .map, [key, value] => some (.map key value)
  -- `Never` has no runtime representation; `Unit` stands in for it.
  | .never, [] => some .unit
  | .set, [element] => some (.set element)
  | .string, [] => some .string
  | .uInt8, [] => some .uInt8
  | .uInt16, [] => some .uInt16
  | .uInt32, [] => some .uInt32
  | .uInt64, [] => some .uInt64
  | .unit, [] => some .unit
  | _, _ => none

/-- `resolved_type_to_ir_type` with `global_to_ir_type`. The source recurses through alias
expansions, which the type checker keeps acyclic; here the fuel bounds the recursion. `none` is
one of the source's panics, or no fuel. -/
def resolvedTypeToIrType (registry : GlobalRegistry) : Nat → ResolvedType → Option IRType
  | 0, _ => none
  | fuel + 1, .function params ret => do
      let params ← params.mapM (resolvedTypeToIrType registry fuel)
      let ret ← resolvedTypeToIrType registry fuel ret
      return .function params ret
  | fuel + 1, .tuple elements => do
      return .tuple (← elements.mapM (resolvedTypeToIrType registry fuel))
  | fuel + 1, .union members => do
      let members ← members.mapM (resolvedTypeToIrType registry fuel)
      return .union (unionMangle members) members
  | fuel + 1, .named (.global id) typeArgs => do
      let entry ← registry id
      match entry.kind with
      | .typeAlias (some expansion) =>
        if typeArgs.isEmpty then resolvedTypeToIrType registry fuel expansion else none
      | .builtin shape =>
        builtinToIrType shape (← typeArgs.mapM (resolvedTypeToIrType registry fuel))
      | .enum =>
        let args ← typeArgs.mapM (resolvedTypeToIrType registry fuel)
        return .enum (mangledTypeName (symbolOf entry.identifier) args)
      | .struct =>
        let args ← typeArgs.mapM (resolvedTypeToIrType registry fuel)
        return .struct (mangledTypeName (symbolOf entry.identifier) args)
      | _ => none
  | _ + 1, _ => none

end Koja.Source.Typecheck
