import Koja.Source.Typecheck.Unify

/-!
# Inference recovers the arguments

A slot once filled keeps its type, whatever is unified later. Unifying a template with its own
instance fills the slot of each parameter that the template shows outside a union.
-/
namespace Koja.Guarantees.Typecheck

open Koja.Source.Typecheck Option
open Koja.Source.Typecheck.Substitution (fill)
open Substitution (scope owns fromArgs single)

/-- What is bound stays bound, to the same type. -/
def Extends (before after : Substitution) : Prop :=
  ∀ owner index ty, before.get owner index = some ty → after.get owner index = some ty

section
variable {table : TypeTable} {fuel : Nat} {before after : Substitution} {conflict : Option Conflict}
  {owner : GlobalRegistryId} {index : Nat} {value : ResolvedType}

theorem skipped_extends (done : some (none, before) = some (conflict, after)) :
    Extends before after := by
  cases done
  exact fun _ _ _ bound => bound

theorem guarded_extends {guard : Prop} [Decidable guard] {first : Unified}
    (done : (if guard then first else some (none, before)) = some (conflict, after))
    (held : first = some (conflict, after) → Extends before after) : Extends before after := by
  split at done
  · exact held done
  · exact skipped_extends done

theorem andThen_extends {first : Unified} {next : Substitution → Unified}
    (done : first.andThen next = some (conflict, after))
    (held : ∀ {stop middle}, first = some (stop, middle) → Extends before middle)
    (kept : ∀ {middle}, next middle = some (conflict, after) → Extends middle after) :
    Extends before after := by
  obtain ⟨⟨stop, middle⟩, started, done⟩ := bind_eq_some_iff.1 done
  cases stop with
  | none => exact fun _ _ _ bound => kept done _ _ _ (held started _ _ _ bound)
  | some =>
    cases done
    exact held started

theorem get_cons (scope : Scope) (rest : List Scope) : Substitution.get owner index
      ⟨scope :: rest⟩ =
      if scope.owner = owner then scope.slots[index]?.join
      else Substitution.get owner index ⟨rest⟩ := by
  by_cases same : scope.owner = owner
  · cases found : scope.slots[index]? <;> simp [Substitution.get, Substitution.scope, same, found]
  · simp [Substitution.get, Substitution.scope, same]

theorem fill_extends {scopes : List Scope} (empty : Substitution.get owner index ⟨scopes⟩ = none) :
    Extends ⟨scopes⟩ ⟨fill owner index value scopes⟩ := by
  induction scopes with
  | nil => exact fun _ _ _ bound => bound
  | cons scope rest ih =>
    intro other position ty bound
    rw [get_cons] at bound empty
    unfold fill
    split <;> rw [get_cons]
    · grind
    · have later := ih (by simpa [*] using empty) other position ty
      grind

theorem set_extends (done : before.set owner index table fuel value = some (conflict, after)) :
    Extends before after := by
  unfold Substitution.set at done
  split at done
  · exact skipped_extends done
  · next empty =>
    cases done
    refine fill_extends ?_
    obtain ⟨scope, found, slot⟩ := bind_eq_some_iff.1 empty
    simp [Substitution.get, found, slot]
  · obtain ⟨_, _, done⟩ := bind_eq_some_iff.1 done
    cases done
    exact fun _ _ _ bound => bound

mutual

/-- A call of `unify_into` changes no filled slot, also where it ends in a conflict. -/
theorem unifyInto_extends {template actual : ResolvedType} {before after : Substitution}
    {conflict : Option Conflict}
    (done : unifyInto table fuel template actual before = some (conflict, after)) :
    Extends before after := by
  unfold unifyInto at done
  split at done
  case h_3 => exact guarded_extends done set_extends
  case h_4 | h_6 => exact guarded_extends done unifyEach_extends
  case h_5 =>
    exact guarded_extends done fun done => andThen_extends done unifyEach_extends unifyInto_extends
  all_goals exact skipped_extends done

theorem unifyEach_extends {templates actuals : List ResolvedType} {before after : Substitution}
    {conflict : Option Conflict}
    (done : unifyEach table fuel templates actuals before = some (conflict, after)) :
    Extends before after := by
  unfold unifyEach at done
  split at done
  · exact andThen_extends done unifyInto_extends unifyEach_extends
  · exact skipped_extends done

end

end

/-! ## The round trip -/

mutual

/-- The parameters of an owner that a template shows outside its unions. -/
def shownParams (owner : GlobalRegistryId) : ResolvedType → List Nat
  | .named (.typeParam paramOwner index) _ => if paramOwner = owner then [index] else []
  | .named _ typeArgs => shownEach owner typeArgs
  | .function params ret => shownEach owner params ++ shownParams owner ret
  | .tuple elements => shownEach owner elements
  | .union _ | .failed | .unresolved => []

def shownEach (owner : GlobalRegistryId) : List ResolvedType → List Nat
  | [] => []
  | ty :: rest => shownParams owner ty ++ shownEach owner rest

end

section
variable {table : TypeTable} {fuel : Nat} {owner : GlobalRegistryId} {args : List ResolvedType}
  {index : Nat} {shown others : List Nat}

/-- The substitution of one owner that binds the parameters `shown` to their arguments. -/
def bindShown (owner : GlobalRegistryId) (args : List ResolvedType) (shown : List Nat) :
    Substitution :=
  ⟨[⟨owner, args.mapIdx fun index arg => if index ∈ shown then some arg else none⟩]⟩

theorem bindShown_congr (same : ∀ index < args.length, index ∈ shown ↔ index ∈ others) :
    bindShown owner args shown = bindShown owner args others := by
  unfold bindShown
  congr 3
  refine List.ext_getElem (by simp) fun index inside _ => ?_
  simp [same index (by simpa using inside)]

theorem get_bindShown (member : index ∈ shown) :
    (bindShown owner args shown).get owner index = args[index]? := by
  rw [bindShown, get_cons, if_pos rfl, List.getElem?_mapIdx]
  cases args[index]? <;> simp [member]

theorem owns_scope (slots : List (Option ResolvedType)) (other : GlobalRegistryId) :
    owns other ⟨[⟨owner, slots⟩]⟩ = decide (owner = other) := by
  by_cases same : owner = other <;> simp [owns, scope, same]

theorem substitute_param (index : Nat) (typeArgs : List ResolvedType) :
    substitute (.fromArgs owner args) (.named (.typeParam owner index) typeArgs) =
      args[index]?.getD .unresolved := by
  rw [substitute, fromArgs, owns_scope, get_cons, List.getElem?_map]
  cases args[index]? <;> simp

/-- An argument meets an empty slot, or itself. -/
theorem set_bindShown {arg : ResolvedType} (known : args[index]? = some arg) :
    (bindShown owner args shown).set owner index table (fuel + 1) arg =
      some (none, bindShown owner args (shown ++ [index])) := by
  have found : (scope owner (bindShown owner args shown)).bind (·.slots[index]?) =
      some (if index ∈ shown then some arg else none) := by
    simp [bindShown, scope, known]
  unfold Substitution.set
  rw [found]
  by_cases filled : index ∈ shown
  · rw [@bindShown_congr owner args (shown ++ [index]) shown (by grind)]
    simp [filled, TypeTable.typesEquivalent, orM, toBool]
  · simp only [filled, bindShown, fill, ↓reduceIte]
    congr 5
    refine List.ext_getElem (by simp) fun position inside _ => ?_
    by_cases here : index = position
    · subst here
      obtain ⟨_, rfl⟩ := List.getElem?_eq_some_iff.1 known
      simp
    · simp [here, Ne.symm here]

theorem substituteAll_length (subst : Substitution) (types : List ResolvedType) :
    (substituteAll subst types).length = types.length := by
  induction types with
  | nil => rfl
  | cons _ _ ih => rw [substituteAll, List.length_cons, ih, List.length_cons]

mutual

theorem unifyInto_instance (resolved : ∀ arg ∈ args, arg.isResolved = true)
    (template : ResolvedType) (shown : List Nat) :
    unifyInto table (fuel + 1) template (substitute (.fromArgs owner args) template)
      (bindShown owner args shown) =
      some (none, bindShown owner args (shown ++ shownParams owner template)) := by
  cases template with
  | named head typeArgs =>
    cases head with
    | typeParam paramOwner index =>
      by_cases own : paramOwner = owner
      · subst own
        rw [substitute_param]
        cases known : args[index]? with
        | none =>
          have outside := List.getElem?_eq_none_iff.1 known
          rw [@bindShown_congr paramOwner args (shown ++ _) shown (by grind [shownParams])]
          rfl
        | some arg =>
          have ground := resolved arg (List.mem_of_getElem? known)
          have bound := @set_bindShown table fuel paramOwner args index shown arg known
          cases arg <;>
            first
              | cases ground
              | simpa [unifyInto, bindShown, owns_scope, shownParams] using bound
      · simp [substitute, fromArgs, unifyInto, owns_scope, own, Ne.symm own, bindShown,
          shownParams]
    | _ =>
      have each := unifyEach_instance resolved typeArgs shown
      simpa [shownParams, substitute, unifyInto, substituteAll_length] using each
  | function params ret =>
    have each := unifyEach_instance resolved params shown
    have last := unifyInto_instance resolved ret (shown ++ shownEach owner params)
    simpa [shownParams, substitute, unifyInto, substituteAll_length, each,
      Unified.andThen] using last
  | tuple elements =>
    have each := unifyEach_instance resolved elements shown
    simpa [shownParams, substitute, unifyInto, substituteAll_length] using each
  | union | failed | unresolved => simp [unifyInto, shownParams, substitute]

theorem unifyEach_instance (resolved : ∀ arg ∈ args, arg.isResolved = true)
    (templates : List ResolvedType) (shown : List Nat) :
    unifyEach table (fuel + 1) templates (substituteAll (.fromArgs owner args) templates)
      (bindShown owner args shown) =
      some (none, bindShown owner args (shown ++ shownEach owner templates)) := by
  cases templates with
  | nil => simp [unifyEach, shownEach]
  | cons template templates =>
    have first := unifyInto_instance resolved template shown
    have rest := unifyEach_instance resolved templates (shown ++ shownParams owner template)
    simpa [unifyEach, substituteAll, shownEach, first, Unified.andThen] using rest

end

end

/-- Unifying a template with its instance succeeds and binds each parameter shown outside a union
to its argument; and no call, successful or not, changes what an earlier one has bound. -/
theorem inference_recovers_arguments (table : TypeTable) (fuel : Nat) (owner : GlobalRegistryId)
    (args : List ResolvedType) (resolved : ∀ arg ∈ args, arg.isResolved = true)
    (template : ResolvedType) :
    (∃ after, unifyInto table (fuel + 1) template (substitute (.fromArgs owner args) template)
        (.single owner args.length) = some (none, after) ∧
      ∀ index ∈ shownParams owner template, ∀ arg, args[index]? = some arg →
        after.get owner index = some arg ∧ table.typesEquivalent (fuel + 1) arg arg = some true) ∧
    ∀ fuel template actual before conflict after,
      unifyInto table fuel template actual before = some (conflict, after) →
      ∀ owner index ty, before.get owner index = some ty → after.get owner index = some ty := by
  constructor
  · have start : single owner args.length = bindShown owner args [] := by
      unfold single bindShown
      congr 3
      exact List.ext_getElem (by simp) (by simp)
    refine ⟨_, start ▸ unifyInto_instance resolved template [], fun index member arg known => ?_⟩
    rw [get_bindShown (by simpa using member)]
    exact ⟨known, if_pos rfl⟩
  · intro _ _ _ _ _ _ done
    exact unifyInto_extends done

/-- `(T, U, T)` against `(A, B, A)`: the third element meets the slot that the first filled. -/
theorem repeated_param_inferred :
    let args : List ResolvedType := [.named (.global 1) [], .named (.global 2) []]
    let template : ResolvedType := .tuple
      [.named (.typeParam 7 0) [], .named (.typeParam 7 1) [], .named (.typeParam 7 0) []]
    let table : TypeTable := ⟨fun _ => none, fun _ _ => none, 0⟩
    (∀ arg ∈ args, arg.isResolved = true) ∧
    substitute (.fromArgs 7 args) template = .tuple [.named (.global 1) [], .named (.global 2) [],
      .named (.global 1) []] ∧
    ∃ after, unifyInto table 1 template (substitute (.fromArgs 7 args) template) (.single 7 2) =
        some (none, after) ∧
      after.get 7 0 = some (.named (.global 1) []) ∧
      after.get 7 1 = some (.named (.global 2) []) := by
  intro args template table
  have ground : ∀ arg ∈ args, arg.isResolved = true := by
    simp [args, ResolvedType.isResolved, ResolvedType.eachResolved, Resolution.isResolved]
  obtain ⟨after, unified, bound⟩ := (inference_recovers_arguments table 0 7 args ground template).1
  exact ⟨ground, rfl, after, unified, (bound 0 (by decide) _ rfl).1, (bound 1 (by decide) _ rfl).1⟩

end Koja.Guarantees.Typecheck
