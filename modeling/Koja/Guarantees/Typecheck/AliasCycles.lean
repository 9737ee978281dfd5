import Koja.Guarantees.Typecheck.TypeEquivalence
import Koja.Source.Typecheck.TypeAliases
import Mathlib.Data.Finset.Card

/-!
# Cycles of type aliases

`lift_type_aliases` ends and leaves no cycle of references. The walk of `expansion_cycles` stops
at any alias it has seen, so it reports every alias whose references lead to a cycle; those are
the aliases on a cycle only when no other alias refers to one. A second declaration of a name is a
panic of `stamp`.
-/
namespace Koja.Guarantees.Typecheck

open Koja.Source.Typecheck List Relation

variable (registry : GlobalRegistry)

/-- The expansion of the alias refers to `child`. -/
def Refers (id child : GlobalRegistryId) : Prop :=
  ∃ expansion, registry.aliasExpansion id = some expansion ∧ child ∈ mentions expansion

/-- The references of the alias lead back to it. -/
def OnCycle (id : GlobalRegistryId) : Prop :=
  TransGen (Refers registry) id id

/-- Following references from the alias ends. -/
def Ends : GlobalRegistryId → Prop :=
  Acc fun child id => Refers registry id child

section Walk

variable {registry : GlobalRegistry} {ids seen : List GlobalRegistryId} {id : GlobalRegistryId}

theorem OnCycle.not_ends (cycle : OnCycle registry id) : ¬ Ends registry id := by
  intro ends
  induction ends with
  | intro id _ ih =>
    obtain ⟨next, refers, back⟩ := TransGen.head'_iff.1 cycle
    exact ih next refers (.tail' back refers)

theorem isTypeAlias_of_not_ends (endless : ¬ Ends registry id) :
    registry.isTypeAlias id = true := by
  by_contra other
  refine endless (.intro id fun child ⟨expansion, expands, _⟩ => ?_)
  unfold GlobalRegistry.aliasExpansion at expands
  unfold GlobalRegistry.isTypeAlias at other
  grind

theorem ends_iff {expansion : ResolvedType}
    (expands : registry.aliasExpansion id = some expansion) :
    Ends registry id ↔ ∀ child ∈ mentions expansion, Ends registry child := by
  refine ⟨fun ends child inside => ends.inv ⟨expansion, expands, inside⟩, fun all => ?_⟩
  refine .intro id fun child ⟨other, same, inside⟩ => all child ?_
  rwa [Option.some.inj (expands.symm.trans same)]

theorem AliasWalk.or_eq {first second : AliasWalk} {a b : Bool}
    (one : first seen = some (a, seen)) (two : second seen = some (b, seen)) :
    AliasWalk.or first second seen = some (a || b, seen) := by
  cases a <;> simp [AliasWalk.or, one, two]

variable {cycles : GlobalRegistryId → AliasWalk} {found : GlobalRegistryId → Bool}

mutual

theorem typeReferencesAlias_eq (ty : ResolvedType) (known : ∀ child ∈ mentions ty,
      registry.isTypeAlias child = true → cycles child seen = some (found child, seen)) :
    typeReferencesAlias registry cycles ty seen =
      some ((mentions ty).any fun child => registry.isTypeAlias child && found child, seen) := by
  cases ty with
  | function params ret =>
    simp only [mentions, mem_append, any_append] at known ⊢
    exact AliasWalk.or_eq (anyReferencesAlias_eq params fun child inside => known child
      (.inl inside))
      (typeReferencesAlias_eq ret fun child inside => known child (.inr inside))
  | tuple elements => exact anyReferencesAlias_eq elements known
  | named head typeArgs =>
    cases head with
    | global child =>
      simp only [mentions, forall_mem_cons, any_cons] at known ⊢
      refine AliasWalk.or_eq ?_ (anyReferencesAlias_eq typeArgs known.2)
      split
      · next aliased => simp [known.1 aliased, aliased]
      · next other => simp [AliasWalk.miss, other]
    | _ => exact anyReferencesAlias_eq typeArgs known
  | union members => exact anyReferencesAlias_eq members known
  | failed | unresolved => rfl

theorem anyReferencesAlias_eq (types : List ResolvedType) (known : ∀ child ∈ mentionsEach types,
      registry.isTypeAlias child = true → cycles child seen = some (found child, seen)) :
    anyReferencesAlias registry cycles types seen =
      some ((mentionsEach types).any fun child =>
        registry.isTypeAlias child && found child, seen) := by
  cases types with
  | nil => rfl
  | cons ty rest =>
    simp only [mentionsEach, mem_append, any_append] at known ⊢
    exact AliasWalk.or_eq (typeReferencesAlias_eq ty fun child inside => known child (.inl inside))
      (anyReferencesAlias_eq rest fun child inside => known child (.inr inside))

end

/-- Every alias is among the ids and has its expansion. -/
structure Stamped (registry : GlobalRegistry) (ids : List GlobalRegistryId) : Prop where
  declared : ∀ id, registry.isTypeAlias id = true → id ∈ ids
  given : ∀ id, registry.isTypeAlias id = true → (registry.aliasExpansion id).isSome

open Classical in
/-- The walk ends once the fuel exceeds the number of aliases not on the path, and it leaves the
path as it was. It finds that the references of the alias do not end. -/
theorem expansionCycles_eq (stamped : Stamped registry ids) {fuel : Nat}
    (enough : (ids.toFinset \ seen.toFinset).card < fuel)
    (aliased : registry.isTypeAlias id = true)
    (path : ∀ old ∈ seen, TransGen (Refers registry) old id) :
    expansionCycles registry fuel id seen = some (decide (¬ Ends registry id), seen) := by
  induction fuel generalizing id seen with
  | zero => cases enough
  | succ fuel ih =>
    by_cases back : id ∈ seen
    · simp [expansionCycles, back, OnCycle.not_ends (path id back)]
    obtain ⟨expansion, expands⟩ := Option.isSome_iff_exists.1 (stamped.given id aliased)
    have fewer : (ids.toFinset \ (id :: seen).toFinset).card < fuel := by
      have := Finset.card_erase_lt_of_mem (s := ids.toFinset \ seen.toFinset) (a := id)
        (by simp [back, stamped.declared id aliased])
      rw [toFinset_cons, Finset.sdiff_insert]
      omega
    have walk := typeReferencesAlias_eq expansion fun child inside aliased =>
      ih fewer aliased (forall_mem_cons.2 ⟨.single ⟨expansion, expands, inside⟩, fun old among =>
        (path old among).tail ⟨expansion, expands, inside⟩⟩)
    simp only [expansionCycles, if_neg back, expands, walk]
    simpa [ends_iff expands, any_eq] using exists_congr fun child =>
      and_congr_right fun _ => and_iff_right_of_imp isTypeAlias_of_not_ends

end Walk

section Sweeps

variable {registry given : GlobalRegistry} {id : GlobalRegistryId} {sites : List TypeAlias}

open Classical in
/-- The `filter` keeps the aliases whose references do not end. -/
theorem cyclingAliases_eq {ids : List GlobalRegistryId} (stamped : Stamped registry ids)
    {fuel : Nat} (enough : ids.length < fuel)
    (aliased : ∀ site ∈ sites, registry.isTypeAlias site.id = true) :
    cyclingAliases registry fuel sites =
      some (sites.filter fun site => ¬ Ends registry site.id) := by
  induction sites with
  | nil => rfl
  | cons site rest ih =>
    rw [forall_mem_cons] at aliased
    have walk := @expansionCycles_eq _ ids [] _ stamped fuel
      (by simpa using (toFinset_card_le ids).trans_lt enough) aliased.1 (by simp)
    simp [cyclingAliases, walk, ih aliased.2, filter_cons]

theorem cyclingAliases_spec (stamped : Stamped registry (sites.map (·.id)))
    (aliased : ∀ site ∈ sites, registry.isTypeAlias site.id = true) :
    ∃ cycling, cycling <+ sites ∧
      (∀ fuel > sites.length, cyclingAliases registry fuel sites = some cycling) ∧
      ∀ id, id ∈ cycling.map (·.id) ↔ ¬ Ends registry id := by
  classical
  refine ⟨_, filter_sublist, fun fuel enough =>
    cyclingAliases_eq stamped (by simpa using enough) aliased, fun id => ?_⟩
  simp only [mem_map, mem_filter, decide_eq_true_eq]
  refine ⟨fun ⟨site, ⟨_, endless⟩, same⟩ => same ▸ endless, fun endless => ?_⟩
  obtain ⟨site, inside, rfl⟩ := mem_map.1 (stamped.declared id (isTypeAlias_of_not_ends endless))
  exact ⟨site, ⟨inside, endless⟩, rfl⟩

theorem setTypeAliasDefinitionForce_spec (aliased : registry.isTypeAlias id = true)
    (expansion : ResolvedType) :
    ∃ after, registry.setTypeAliasDefinitionForce id expansion = some after ∧
      after.isTypeAlias = registry.isTypeAlias ∧
      after.aliasExpansion = Function.update registry.aliasExpansion id (some expansion) := by
  revert aliased
  fun_cases registry.isTypeAlias id with
  | case1 identifier _ entry =>
    simp only [GlobalRegistry.setTypeAliasDefinitionForce, entry]
    refine fun _ => ⟨_, rfl, ?_, ?_⟩
    all_goals
      funext other
      by_cases same : other = id
      · simp [GlobalRegistry.isTypeAlias, GlobalRegistry.aliasExpansion, same, entry]
      · simp [GlobalRegistry.isTypeAlias, GlobalRegistry.aliasExpansion, same]
  | case2 =>
    intro absent
    cases absent

/-- The entry is an alias without its expansion. -/
def Open (registry : GlobalRegistry) (id : GlobalRegistryId) : Prop :=
  registry.isTypeAlias id = true ∧ registry.aliasExpansion id = none

theorem setTypeAliasDefinition_cases (registry : GlobalRegistry) (id : GlobalRegistryId)
    (expansion : ResolvedType) :
    (¬ Open registry id ∧ registry.setTypeAliasDefinition id expansion = none) ∨
    Open registry id ∧ registry.setTypeAliasDefinition id expansion =
      registry.setTypeAliasDefinitionForce id expansion := by
  unfold Open GlobalRegistry.isTypeAlias GlobalRegistry.aliasExpansion
    GlobalRegistry.setTypeAliasDefinition
  grind

/-- The first sweep ends when each name has one declaration, an alias's; it is a panic
otherwise. -/
theorem stamp_cases (resolve : GlobalRegistry → TypeAlias → ResolvedType) :
    let distinct := (sites.map (·.id)).Nodup ∧ ∀ site ∈ sites, Open registry site.id
    let run := sites.foldlM (fun registry site => registry.setTypeAliasDefinition site.id
      (resolve registry site)) registry
    (¬ distinct ∧ run = none) ∨
    distinct ∧ ∃ given, run = some given ∧ given.isTypeAlias = registry.isTypeAlias ∧
      ∀ id, id ∈ sites.map (·.id) ∨ (registry.aliasExpansion id).isSome →
        (given.aliasExpansion id).isSome := by
  induction sites generalizing registry with
  | nil => simp
  | cons site rest ih =>
    rcases setTypeAliasDefinition_cases registry site.id (resolve registry site) with
      ⟨closed, stuck⟩ | ⟨isOpen, step⟩
    · simp [closed, stuck]
    · obtain ⟨next, forced, kinds, expansions⟩ :=
        setTypeAliasDefinitionForce_spec isOpen.1 (resolve registry site)
      have others : ∀ other, Open next other ↔ Open registry other ∧ other ≠ site.id := by
        intro other
        by_cases same : other = site.id <;> simp [Open, kinds, expansions, same]
      rcases @ih next with ⟨clash, run⟩ | ⟨distinct, given, run, same, set⟩
      · refine .inl ⟨fun all => clash ?_, by simp [step, forced, run]⟩
        simp_all
      · refine .inr ⟨?_, given, by simp [step, forced, run], same.trans kinds, fun id => ?_⟩
        · simp_all
        · have := set id
          by_cases same : id = site.id <;> simp_all

theorem failCycling_spec {cycling : List TypeAlias}
    (aliased : ∀ site ∈ cycling, registry.isTypeAlias site.id = true) :
    ∃ after, cycling.foldlM (fun registry site =>
        registry.setTypeAliasDefinitionForce site.id .failed) registry = some after ∧
      ∀ id, after.aliasExpansion id =
        if id ∈ cycling.map (·.id) then some .failed else registry.aliasExpansion id := by
  induction cycling generalizing registry with
  | nil => exact ⟨registry, rfl, by simp⟩
  | cons site rest ih =>
    rw [forall_mem_cons] at aliased
    obtain ⟨next, step, kinds, expansions⟩ := setTypeAliasDefinitionForce_spec aliased.1 .failed
    obtain ⟨after, run, result⟩ := ih (kinds ▸ aliased.2)
    refine ⟨after, by simp [step, run], fun id => ?_⟩
    rw [result, expansions, Function.update_apply]
    by_cases same : id = site.id <;> simp [same]

open Classical in
/-- No cycle is left. -/
theorem ends_after {after : GlobalRegistry} (expansions : ∀ id, after.aliasExpansion id =
      if ¬ Ends registry id then some .failed else registry.aliasExpansion id)
    (id : GlobalRegistryId) : Ends after id := by
  have fewer : ∀ {id child}, Refers after id child →
      Ends registry id ∧ Refers registry id child := by
    rintro id child ⟨expansion, expands, inside⟩
    rw [expansions] at expands
    split at expands
    · cases expands
      cases inside
    · next ends => exact ⟨not_not.1 ends, expansion, expands, inside⟩
  by_cases ends : Ends registry id
  · exact Subrelation.accessible (fun refers => (fewer refers).2) ends
  · exact .intro id fun child refers => absurd (fewer refers).1 ends

end Sweeps

/-- What collecting the declarations leaves: no alias has its expansion, and each is declared. A
declaration whose name was taken looks up the entry that has it. -/
structure Collected (table : TypeTable) (aliases : List TypeAlias) : Prop where
  unset : ∀ id, table.entries.aliasExpansion id = none
  declared : ∀ id, table.entries.isTypeAlias id = true → id ∈ aliases.map (·.id)

/-- The pass finds the cycles among the expansions the aliases were given: it reports the aliases
on a cycle, each once, replaces their expansions only, and leaves no cycle. -/
structure FindsCycles (given : GlobalRegistry) (diagnostics : List AliasDiagnostic)
    (after : GlobalRegistry) : Prop where
  once : (diagnostics.map (·.site)).Nodup
  exactly : ∀ id, id ∈ diagnostics.map (·.site) ↔ OnCycle given id
  acyclic : ∀ id, Ends after id
  kept : ∀ id, ¬ OnCycle given id → after.aliasExpansion id = given.aliasExpansion id

/-- The pass finds the cycles exactly when each name has one declaration and every alias lies on a
cycle or has references that end. -/
theorem alias_cycles_found_iff {table : TypeTable} {aliases : List TypeAlias}
    (collected : Collected table aliases) :
    (∃ given diagnostics after, table.stampAliases aliases = some given ∧
      (∀ fuel > aliases.length,
        table.liftTypeAliases fuel aliases = some (diagnostics, after)) ∧
      FindsCycles given diagnostics after) ↔
    ((aliases.map (·.id)).Nodup ∧ ∀ site ∈ aliases, table.entries.isTypeAlias site.id = true) ∧
    ∀ given, table.stampAliases aliases = some given →
      ∀ id, OnCycle given id ∨ Ends given id := by
  classical
  have isOpen : ∀ id, Open table.entries id ↔ table.entries.isTypeAlias id = true := by
    simp [Open, collected.unset]
  rcases @stamp_cases table.entries aliases fun registry site =>
      { table with entries := registry }.resolveTypeExpr site.lookup site.typeExpr with
    ⟨clash, panic⟩ | ⟨distinct, given, run, kinds, set⟩
  · simp only [isOpen] at clash
    refine iff_of_false ?_ fun holds => clash holds.1
    rintro ⟨given, _, _, run, _⟩
    cases panic.symm.trans run
  simp only [isOpen] at distinct
  have stamped : Stamped given (aliases.map (·.id)) := by
    refine ⟨fun id aliased => ?_, fun id aliased => set id (.inl ?_)⟩ <;>
    exact collected.declared id (kinds ▸ aliased)
  obtain ⟨cycling, sub, walks, reported⟩ := cyclingAliases_spec stamped (kinds ▸ distinct.2)
  obtain ⟨after, replaced, expansions⟩ := @failCycling_spec given cycling fun site inside =>
    kinds ▸ distinct.2 site (sub.mem inside)
  simp only [reported] at expansions
  have lifted : ∀ fuel > aliases.length, table.liftTypeAliases fuel aliases =
      some (cycling.map (·.cycleDiagnostic), after) := by
    intro fuel enough
    simp [TypeTable.liftTypeAliases, TypeTable.stampAliases, run, diagnoseAliasCycles,
      walks fuel enough, replaced]
  have sites : (cycling.map (·.cycleDiagnostic)).map (·.site) = cycling.map (·.id) := map_map
  constructor
  · rintro ⟨given', diagnostics, after', run', lift', finds⟩
    cases run.symm.trans run'
    cases (lifted _ (Nat.lt_succ_self _)).symm.trans (lift' _ (Nat.lt_succ_self _))
    refine ⟨distinct, fun given' run' id => ?_⟩
    cases run.symm.trans run'
    rw [← finds.exactly, sites, reported]
    exact (em _).symm
  · rintro ⟨_, only⟩
    have only := only given run
    have exactly : ∀ id, ¬ Ends given id ↔ OnCycle given id := fun id =>
      ⟨(only id).resolve_right, OnCycle.not_ends⟩
    refine ⟨given, _, after, run, lifted, ?_, ?_, ?_, ?_⟩
    · rw [sites]
      exact distinct.1.sublist (sub.map _)
    · simpa only [sites, reported] using exactly
    · exact ends_after expansions
    · intro id off
      rw [expansions, if_neg (mt (exactly id).1 off)]

/-- Two aliases, `A` and `B`, that stand for each other or themselves. -/
def pairTable : TypeTable where
  entries
    | 0 => some ⟨⟨"App", ["A"]⟩, .typeAlias none⟩
    | 1 => some ⟨⟨"App", ["B"]⟩, .typeAlias none⟩
    | _ => none
  typeParamName _ _ := none
  unit := 2

def pairAliases (a b : GlobalRegistryId) : List TypeAlias :=
  [⟨⟨"App", ["A"]⟩, 0, fun _ => some a, .named []⟩, ⟨⟨"App", ["B"]⟩, 1, fun _ => some b, .named []⟩]

/-- `type A = B` and `type B = A`. -/
theorem mutual_aliases_found : Collected pairTable (pairAliases 1 0) ∧
    ∃ given diagnostics after, pairTable.stampAliases (pairAliases 1 0) = some given ∧
      (∀ fuel > 2, pairTable.liftTypeAliases fuel (pairAliases 1 0) = some (diagnostics, after)) ∧
      FindsCycles given diagnostics after := by
  have collected : Collected pairTable (pairAliases 1 0) := by
    constructor <;> rintro (_ | _ | id)
    all_goals simp [pairTable, pairAliases, GlobalRegistry.isTypeAlias,
      GlobalRegistry.aliasExpansion]
  refine ⟨collected, (alias_cycles_found_iff collected).2 ⟨by decide, ?_⟩⟩
  rintro given ⟨⟩ id
  match id with
  | 0 => exact .inl (.tail (b := 1) (.single ⟨_, rfl, by decide⟩) ⟨_, rfl, by decide⟩)
  | 1 => exact .inl (.tail (b := 0) (.single ⟨_, rfl, by decide⟩) ⟨_, rfl, by decide⟩)
  | id + 2 => exact .inr (.intro _ fun _ ⟨_, expands, _⟩ => nomatch expands)

/-- `type A = B` and `type B = B`: `A` is on no cycle, and it is reported. -/
theorem alias_off_cycle_reported :
    ¬ ∃ given diagnostics after, pairTable.stampAliases (pairAliases 1 1) = some given ∧
      (∀ fuel > 2, pairTable.liftTypeAliases fuel (pairAliases 1 1) = some (diagnostics, after)) ∧
      FindsCycles given diagnostics after := by
  rintro ⟨given, diagnostics, after, ⟨⟩, lift, finds⟩
  cases lift 3 (by decide)
  obtain ⟨last, _, refers⟩ := TransGen.tail'_iff.1 ((finds.exactly 0).1 (by decide))
  obtain ⟨expansion, expands, inside⟩ := refers
  rcases last with _ | _ | last <;> cases expands <;> exact absurd inside (by decide)

end Koja.Guarantees.Typecheck
