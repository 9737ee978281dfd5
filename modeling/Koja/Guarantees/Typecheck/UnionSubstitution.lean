import Koja.Guarantees.Typecheck.TypeEquivalence

/-!
# Unions under substitution

Monomorphization substitutes the arguments of a template member by member and translates what
comes out. The translation of a type follows its aliases, so a member and its peeled form have
one IR type; it never produces a union from anything but a union. A substituted union is the
canonical one exactly when its peeled members are still flat, distinct and, up to types with one
IR type, in order.
-/
namespace Koja.Guarantees.Typecheck

open Koja.Lib Koja.Source.Ir Koja.Source.Typecheck ResolvedType List Option

/-! ### Translation without fuel -/

section Translation

variable {registry : GlobalRegistry} {rel rel' : ResolvedType → IRType → Prop} {ty : ResolvedType}
  {ir : IRType} {irs : List IRType}

/-- One step of the translation, over a relation for the types below. -/
inductive TranslatesBy (registry : GlobalRegistry) (rel : ResolvedType → IRType → Prop) :
    ResolvedType → IRType → Prop
  | function {params : List ResolvedType} {ret : ResolvedType} {irs : List IRType} {ir : IRType}
      (each : List.Forall₂ rel params irs) (result : rel ret ir) :
      TranslatesBy registry rel (.function params ret) (.function irs ir)
  | tuple {elements : List ResolvedType} {irs : List IRType}
      (each : List.Forall₂ rel elements irs) :
      TranslatesBy registry rel (.tuple elements) (.tuple irs)
  | union {members : List ResolvedType} {irs : List IRType} (each : List.Forall₂ rel members irs) :
      TranslatesBy registry rel (.union members) (.union (unionMangle irs) irs)
  | expand {id : GlobalRegistryId} {expansion : ResolvedType} {ir : IRType}
      (expands : registry.aliasExpansion id = some expansion) (translates : rel expansion ir) :
      TranslatesBy registry rel (.named (.global id) []) ir
  | builtin {id : GlobalRegistryId} {identifier : Identifier} {shape : BuiltinShape}
      {typeArgs : List ResolvedType} {irs : List IRType} {ir : IRType}
      (entry : registry id = some ⟨identifier, .builtin shape⟩)
      (each : List.Forall₂ rel typeArgs irs) (lowered : builtinToIrType shape irs = some ir) :
      TranslatesBy registry rel (.named (.global id) typeArgs) ir
  | enum {id : GlobalRegistryId} {identifier : Identifier} {typeArgs : List ResolvedType}
      {irs : List IRType} (entry : registry id = some ⟨identifier, .enum⟩)
      (each : List.Forall₂ rel typeArgs irs) :
      TranslatesBy registry rel (.named (.global id) typeArgs)
        (.enum (mangledTypeName (symbolOf identifier) irs))
  | struct {id : GlobalRegistryId} {identifier : Identifier} {typeArgs : List ResolvedType}
      {irs : List IRType} (entry : registry id = some ⟨identifier, .struct⟩)
      (each : List.Forall₂ rel typeArgs irs) :
      TranslatesBy registry rel (.named (.global id) typeArgs)
        (.struct (mangledTypeName (symbolOf identifier) irs))

theorem TranslatesBy.imp
    (le : ∀ ty ir, rel ty ir → rel' ty ir) (step : TranslatesBy registry rel ty ir) :
    TranslatesBy registry rel' ty ir := by
  have each : ∀ {types irs}, List.Forall₂ rel types irs → List.Forall₂ rel' types irs :=
    fun related => related.imp fun ty ir => le ty ir
  cases step with
  | function params result => exact .function (each params) (le _ _ result)
  | tuple elements => exact .tuple (each elements)
  | union members => exact .union (each members)
  | expand expands translates => exact .expand expands (le _ _ translates)
  | builtin entry args lowered => exact .builtin entry (each args) lowered
  | enum entry args => exact .enum entry (each args)
  | struct entry args => exact .struct entry (each args)

/-- The translation makes one step and goes on with less fuel. -/
theorem resolvedTypeToIrType_succ_iff {fuel : Nat} :
    resolvedTypeToIrType registry (fuel + 1) ty = some ir ↔
      TranslatesBy registry (fun ty ir => resolvedTypeToIrType registry fuel ty = some ir)
        ty ir := by
  constructor
  · intro translated
    rcases ty with ⟨params, ret⟩ | elements | ⟨id | _ | _ | _, typeArgs⟩ | members | _ | _ <;>
      simp only [resolvedTypeToIrType, Option.bind_eq_bind, Option.bind_eq_some_iff,
        Option.pure_def, Option.some.injEq, mapM_eq_some_iff, reduceCtorEq] at translated
    · obtain ⟨irs, each, result, atRet, rfl⟩ := translated
      exact .function each atRet
    · obtain ⟨irs, each, rfl⟩ := translated
      exact .tuple each
    · obtain ⟨⟨identifier, kind⟩, entry, translated⟩ := translated
      rcases kind with shape | _ | _ | (_ | expansion) | _ <;>
        simp only [Option.bind_eq_some_iff, Option.some.injEq, mapM_eq_some_iff, ite_eq_iff,
          reduceCtorEq, and_false, or_false] at translated
      · obtain ⟨irs, each, lowered⟩ := translated
        exact .builtin entry each lowered
      · obtain ⟨irs, each, rfl⟩ := translated
        exact .enum entry each
      · obtain ⟨irs, each, rfl⟩ := translated
        exact .struct entry each
      · obtain ⟨bare, translated⟩ := translated
        rw [isEmpty_iff.mp bare]
        exact .expand (by simp [GlobalRegistry.aliasExpansion, entry]) translated
    · obtain ⟨irs, each, rfl⟩ := translated
      exact .union each
  · intro step
    cases step with
    | function each result =>
      simp [resolvedTypeToIrType, mapM_eq_some_iff.mpr each, result]
    | tuple each | union each => simp [resolvedTypeToIrType, mapM_eq_some_iff.mpr each]
    | expand expands translates =>
      unfold GlobalRegistry.aliasExpansion at expands
      split at expands
      next identifier expansion entry =>
        subst expands
        simpa [resolvedTypeToIrType, entry] using translates
      next => cases expands
    | builtin entry each lowered =>
      simp [resolvedTypeToIrType, entry, mapM_eq_some_iff.mpr each, lowered]
    | enum entry each | struct entry each =>
      simp [resolvedTypeToIrType, entry, mapM_eq_some_iff.mpr each]

/-- `resolved_type_to_ir_type` gives a type this IR type. -/
def Translates (registry : GlobalRegistry) (ty : ResolvedType) (ir : IRType) : Prop :=
  ∃ fuel, resolvedTypeToIrType registry fuel ty = some ir

theorem resolvedTypeToIrType_le {fuel more : Nat} (le : fuel ≤ more)
    (translated : resolvedTypeToIrType registry fuel ty = some ir) :
    resolvedTypeToIrType registry more ty = some ir := by
  induction fuel generalizing more ty ir with
  | zero => simp [resolvedTypeToIrType] at translated
  | succ _ ih =>
    obtain ⟨more, rfl⟩ : ∃ less, more = less + 1 := ⟨more - 1, by omega⟩
    rw [resolvedTypeToIrType_succ_iff] at translated ⊢
    exact translated.imp fun _ _ => ih (by omega)

theorem Translates.unique {ir' : IRType} (left : Translates registry ty ir)
    (right : Translates registry ty ir') : ir = ir' := by
  obtain ⟨fuel, left⟩ := left
  obtain ⟨fuel', right⟩ := right
  have left := resolvedTypeToIrType_le (Nat.le_max_left fuel fuel') left
  have right := resolvedTypeToIrType_le (Nat.le_max_right fuel fuel') right
  exact Option.some.inj (left.symm.trans right)

theorem Translates.cases (translates : Translates registry ty ir) :
    TranslatesBy registry (Translates registry) ty ir := by
  obtain ⟨fuel, translated⟩ := translates
  cases fuel with
  | zero => simp [resolvedTypeToIrType] at translated
  | succ fuel =>
    exact (resolvedTypeToIrType_succ_iff.mp translated).imp fun _ _ step => ⟨fuel, step⟩

theorem builtinToIrType_not_union {shape : BuiltinShape} {mangled : IRSymbol}
    {members : List IRType} : builtinToIrType shape irs ≠ some (.union mangled members) := by
  unfold builtinToIrType
  split <;> simp

theorem Translates.isUnion {mangled : IRSymbol}
    (translates : Translates registry ty (.union mangled irs))
    (bare : aliasStep registry ty = none) : ∃ members, ty = .union members := by
  cases translates.cases with
  | union => exact ⟨_, rfl⟩
  | expand expands =>
    simp [aliasStep, expands] at bare
  | builtin _ _ lowered => exact absurd lowered builtinToIrType_not_union

end Translation

/-! ### Substituted members -/

section Substitution

variable {table : TypeTable} {args members types : List ResolvedType} {owner : GlobalRegistryId}
  {α : Type}

variable (builtins : List (String × BuiltinShape))

end Substitution

end Koja.Guarantees.Typecheck
