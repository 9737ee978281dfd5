import Koja.Guarantees.Typecheck.UnionOrder

/-!
# Type equivalence

`types_equivalent` ends on every pair of types when the aliases are acyclic, and then it is the
relation that compares peeled types shape by shape. It is reflexive and symmetric; it is
transitive exactly when each numeric name belongs to one registered type. Canonical unions are
compared member by member, so they follow the relation only where the order of their members and
the structural dedup do.
-/
namespace Koja.Guarantees.Typecheck

open Koja.Source.Typecheck TypeTable List

mutual

/-- The global ids a type is built from, in the walk of `type_references_alias`. -/
def mentions : ResolvedType → List GlobalRegistryId
  | .function params ret => mentionsEach params ++ mentions ret
  | .tuple elements => mentionsEach elements
  | .named (.global id) typeArgs => id :: mentionsEach typeArgs
  | .named _ typeArgs => mentionsEach typeArgs
  | .union members => mentionsEach members
  | .failed | .unresolved => []

def mentionsEach : List ResolvedType → List GlobalRegistryId
  | [] => []
  | ty :: rest => mentions ty ++ mentionsEach rest

end

/-- One alias step: the expansion of a bare alias head. -/
def aliasStep (registry : GlobalRegistry) : ResolvedType → Option ResolvedType
  | .named (.global id) [] => registry.aliasExpansion id
  | _ => none

/-- The registry the type checker leaves after `diagnose_alias_cycles`: no alias leads back to
itself, and every chain of aliases ends within the fuel of `peel_alias`. -/
structure AliasesEnd (registry : GlobalRegistry) : Prop where
  acyclic : WellFounded fun child parent =>
    ∃ expansion, registry.aliasExpansion parent = some expansion ∧ child ∈ mentions expansion
  peeled : ∀ ty, aliasStep registry (registry.peelAlias ty) = none

section Peeling

variable {registry : GlobalRegistry} {ty : ResolvedType} {fuel : Nat}

theorem peelAliasCapped_of_step_none (ends : aliasStep registry ty = none)
    (fuel : Nat) : registry.peelAliasCapped fuel ty = ty := by
  cases fuel with
  | zero => rfl
  | succ =>
    unfold GlobalRegistry.peelAliasCapped
    split
    · contradiction
    · next id hfuel =>
        simp only [aliasStep] at ends
        rw [ends]
    · rfl

theorem peelAliasCapped_step {expansion : ResolvedType}
    (step : aliasStep registry ty = some expansion) (fuel : Nat) :
    registry.peelAliasCapped (fuel + 1) ty = registry.peelAliasCapped fuel expansion := by
  unfold aliasStep at step
  split at step
  · next id => simp only [GlobalRegistry.peelAliasCapped, step]
  · cases step

/-- Peeling past the end of the chain changes nothing. -/
theorem peelAliasCapped_succ (ends : aliasStep registry (registry.peelAliasCapped fuel ty) = none) :
    registry.peelAliasCapped (fuel + 1) ty = registry.peelAliasCapped fuel ty := by
  induction fuel generalizing ty with
  | zero => exact peelAliasCapped_of_step_none ends 1
  | succ _ ih =>
    cases step : aliasStep registry ty with
    | none => simp only [peelAliasCapped_of_step_none step]
    | some =>
      rw [peelAliasCapped_step step, peelAliasCapped_step step] at *
      exact ih ends

theorem peelAlias_of_step_none (ends : aliasStep registry ty = none) : registry.peelAlias ty = ty :=
  peelAliasCapped_of_step_none ends 32

theorem peelAlias_step (aliases : AliasesEnd registry) {expansion : ResolvedType}
    (step : aliasStep registry ty = some expansion) :
    registry.peelAlias ty = registry.peelAlias expansion := by
  have peel : registry.peelAlias ty = registry.peelAliasCapped 31 expansion :=
    peelAliasCapped_step step 31
  have ends := aliases.peeled ty
  rw [peel] at ends ⊢
  exact (peelAliasCapped_succ ends).symm

end Peeling

section Unfolding

variable {registry : GlobalRegistry} {motive : ResolvedType → Prop}

/-- What a property has to satisfy to hold of every type: it passes from the parts of a type to
the type, and from an expansion to its alias. -/
structure Unfolding (registry : GlobalRegistry) (motive : ResolvedType → Prop) : Prop where
  expand : ∀ ty expansion, aliasStep registry ty = some expansion → motive expansion → motive ty
  function : ∀ params ret, (∀ ty ∈ params, motive ty) → motive ret → motive (.function params ret)
  tuple : ∀ elements, (∀ ty ∈ elements, motive ty) → motive (.tuple elements)
  named : ∀ head typeArgs, aliasStep registry (.named head typeArgs) = none →
    (∀ ty ∈ typeArgs, motive ty) → motive (.named head typeArgs)
  union : ∀ members, (∀ ty ∈ members, motive ty) → motive (.union members)
  failed : motive .failed
  unresolved : motive .unresolved

mutual

theorem Unfolding.of_mentioned (rules : Unfolding registry motive) {ty : ResolvedType}
    (expansions : ∀ id ∈ mentions ty, ∀ expansion,
      registry.aliasExpansion id = some expansion → motive expansion) : motive ty := by
  cases ty with
  | function params ret =>
    exact rules.function params ret (rules.of_mentionedEach fun id at_id =>
        expansions id (mem_append_left _ at_id))
      (rules.of_mentioned fun id at_id => expansions id (mem_append_right _ at_id))
  | tuple elements => exact rules.tuple elements (rules.of_mentionedEach expansions)
  | named head typeArgs =>
    cases step : aliasStep registry (.named head typeArgs) with
    | some expansion =>
      refine rules.expand _ expansion step ?_
      unfold aliasStep at step
      split at step
      · next id same =>
          cases same
          exact expansions id (by simp [mentions]) expansion step
      · cases step
    | none =>
      refine rules.named head typeArgs step (rules.of_mentionedEach ?_)
      intro id at_id
      refine expansions id ?_
      cases head <;> simp [mentions, at_id]
  | union members => exact rules.union members (rules.of_mentionedEach expansions)
  | failed => exact rules.failed
  | unresolved => exact rules.unresolved

theorem Unfolding.of_mentionedEach (rules : Unfolding registry motive) {types : List ResolvedType}
    (expansions : ∀ id ∈ mentionsEach types, ∀ expansion,
      registry.aliasExpansion id = some expansion → motive expansion) :
    ∀ ty ∈ types, motive ty := by
  cases types with
  | nil => simp
  | cons ty rest =>
    have first := rules.of_mentioned fun id at_id =>
      expansions id (mem_append_left _ at_id)
    have others := rules.of_mentionedEach fun id at_id =>
      expansions id (mem_append_right _ at_id)
    simpa using ⟨first, others⟩

end

/-- Induction over types and, through them, over the alias graph. -/
theorem Unfolding.all (rules : Unfolding registry motive) (aliases : AliasesEnd registry)
    (ty : ResolvedType) : motive ty := by
  have expansions : ∀ id expansion,
      registry.aliasExpansion id = some expansion → motive expansion := by
    intro id
    induction id using aliases.acyclic.induction with
    | _ _ ih =>
      intro expansion expands
      exact rules.of_mentioned fun child mentioned =>
        ih child ⟨expansion, expands, mentioned⟩
  exact rules.of_mentioned fun id _ => expansions id

end Unfolding

section Comparison

variable {table : TypeTable} {a b c : ResolvedType}
  {rel rel' rel'' : ResolvedType → ResolvedType → Prop} {as bs : List ResolvedType}
  {equivalent : ResolvedType → ResolvedType → Option Bool}

/-- Two peeled types agree in shape, with `rel` between their parts. -/
inductive SameShape (table : TypeTable) (rel : ResolvedType → ResolvedType → Prop) :
    ResolvedType → ResolvedType → Prop
  | same (ty : ResolvedType) : SameShape table rel ty ty
  | numeric {a b : ResolvedType} (pair : table.primitiveAliases a b = true) :
      SameShape table rel a b
  | named (head : Resolution) {as bs : List ResolvedType} (args : List.Forall₂ rel as bs) :
      SameShape table rel (.named head as) (.named head bs)
  | function {as bs : List ResolvedType} {a b : ResolvedType} (params : List.Forall₂ rel as bs)
      (ret : rel a b) : SameShape table rel (.function as a) (.function bs b)
  | tuple {as bs : List ResolvedType} (elements : List.Forall₂ rel as bs) :
      SameShape table rel (.tuple as) (.tuple bs)
  | union {as bs : List ResolvedType} (members : List.Forall₂ rel as bs) :
      SameShape table rel (.union as) (.union bs)

theorem SameShape.mono (weaker : ∀ a b, rel a b → rel' a b) (shape : SameShape table rel a b) :
    SameShape table rel' a b := by
  cases shape with
  | same => exact .same _
  | numeric pair => exact .numeric pair
  | named head args => exact .named head (args.imp weaker)
  | function params ret => exact .function (params.imp weaker) (weaker _ _ ret)
  | tuple elements => exact .tuple (elements.imp weaker)
  | union members => exact .union (members.imp weaker)

theorem isPrimitive_bare {name : String} (primitive : table.isPrimitive name ty = true) :
    ∃ id, ty = .named (.global id) [] := by
  unfold isPrimitive at primitive
  split at primitive
  · exact ⟨_, rfl⟩
  · cases primitive

theorem primitive_name_unique {name name' : String} (primitive : table.isPrimitive name ty = true)
    (primitive' : table.isPrimitive name' ty = true) : name = name' := by
  obtain ⟨id, rfl⟩ := isPrimitive_bare primitive
  cases entry : table.entries id with
  | none => simp [isPrimitive, entry] at primitive
  | some =>
    simp only [isPrimitive, entry, Bool.and_eq_true, decide_eq_true_eq]
      at primitive primitive'
    exact Option.some.inj (primitive.2.symm.trans primitive'.2)

/-- What the comparison of numeric names decides. -/
theorem primitiveAliases_iff : table.primitiveAliases a b = true ↔
      ∃ lhs rhs, (lhs, rhs) ∈ [("Int", "Int64"), ("Int64", "Int"), ("Float", "Float64"),
          ("Float64", "Float")] ∧
        table.isPrimitive lhs a = true ∧ table.isPrimitive rhs b = true := by
  simp only [primitiveAliases, isPrimitivePair, Bool.or_eq_true, Bool.and_eq_true]
  constructor
  · rintro ((h | h) | (h | h))
    · exact ⟨_, _, by simp, h⟩
    · exact ⟨"Int64", "Int", by simp, h⟩
    · exact ⟨"Float", "Float64", by simp, h⟩
    · exact ⟨"Float64", "Float", by simp, h⟩
  · rintro ⟨lhs, rhs, pair, h⟩
    simp only [mem_cons, not_mem_nil, or_false] at pair
    rcases pair with ⟨rfl, rfl⟩ | ⟨rfl, rfl⟩ | ⟨rfl, rfl⟩ | ⟨rfl, rfl⟩ <;> simp [h]

theorem primitiveAliases_bare (pair : table.primitiveAliases a b = true) :
    ∃ id id', a = .named (.global id) [] ∧ b = .named (.global id') [] := by
  obtain ⟨lhs, rhs, -, ha, hb⟩ := primitiveAliases_iff.mp pair
  obtain ⟨id, rfl⟩ := isPrimitive_bare ha
  obtain ⟨id', rfl⟩ := isPrimitive_bare hb
  exact ⟨id, id', rfl, rfl⟩

theorem allEquivalent_true_iff (sameLength : as.length = bs.length) :
    allEquivalent equivalent as bs = some true ↔
      List.Forall₂ (fun a b => equivalent a b = some true) as bs := by
  induction as generalizing bs with
  | nil =>
    obtain rfl := length_eq_zero_iff.mp sameLength.symm
    simp [allEquivalent]
  | cons a _ ih =>
    cases bs with
    | nil => simp at sameLength
    | cons b =>
      simp only [length_cons, Nat.add_right_cancel_iff] at sameLength
      rw [forall₂_cons, ← ih sameLength]
      cases h : equivalent a b with
      | none => simp [allEquivalent, h]
      | some result => cases result <;> simp [allEquivalent, h]

/-- The comparison of peeled types answers yes exactly on types of the same shape. -/
theorem peeledEquivalent_true_iff : table.peeledEquivalent equivalent a b = some true ↔
      SameShape table (fun x y => equivalent x y = some true) a b := by
  constructor
  · intro answers
    unfold peeledEquivalent at answers
    split at answers
    · next equal => exact equal ▸ .same _
    · split at answers
      · split at answers
        · next heads =>
            obtain ⟨rfl, sameLength⟩ := heads
            exact .named _ ((allEquivalent_true_iff sameLength).mp answers)
        · simp only [Option.pure_def, Option.some.injEq, Bool.and_eq_true] at answers
          exact .numeric answers.2
      · next aParams aRet bParams bRet _ =>
          by_cases sameLength : aParams.length = bParams.length
          · cases params : allEquivalent equivalent aParams bParams with
            | none => simp [params] at answers
            | some result =>
              cases result with
              | false => simp [params] at answers
              | true =>
                simp only [ne_eq, sameLength, params] at answers
                exact .function ((allEquivalent_true_iff sameLength).mp params) answers
          · simp [sameLength] at answers
      · split at answers
        · next sameLength => exact .tuple ((allEquivalent_true_iff sameLength).mp answers)
        · cases answers
      · split at answers
        · next sameLength => exact .union ((allEquivalent_true_iff sameLength).mp answers)
        · cases answers
      · cases answers
  · intro shape
    unfold peeledEquivalent
    split
    · rfl
    · next different =>
        cases shape with
        | same => exact absurd rfl different
        | numeric pair =>
          obtain ⟨id, id', rfl, rfl⟩ := primitiveAliases_bare pair
          have heads : id ≠ id' := fun same => different (by rw [same])
          simp [heads, pair]
        | named _ args =>
          simp [args.length_eq, (allEquivalent_true_iff args.length_eq).mpr args]
        | function params ret =>
          simp [params.length_eq, (allEquivalent_true_iff params.length_eq).mpr params, ret]
        | tuple elements =>
          simp [elements.length_eq, (allEquivalent_true_iff elements.length_eq).mpr elements]
        | union members =>
          simp [members.length_eq, (allEquivalent_true_iff members.length_eq).mpr members]

/-- The first equality test adds nothing to the comparison of the peeled types. -/
theorem typesEquivalent_succ (fuel : Nat) (a b : ResolvedType) :
    table.typesEquivalent (fuel + 1) a b =
      table.peeledEquivalent (table.typesEquivalent fuel) (table.entries.peelAlias a)
        (table.entries.peelAlias b) := by
  unfold typesEquivalent
  split
  · next equal => simp [peeledEquivalent, equal]
  · rfl

theorem typesEquivalent_true_succ : table.typesEquivalent (fuel + 1) a b = some true ↔
      SameShape table (fun x y => table.typesEquivalent fuel x y = some true)
        (table.entries.peelAlias a) (table.entries.peelAlias b) := by
  rw [typesEquivalent_succ, peeledEquivalent_true_iff]

/-- Answers are kept when the parts are compared with more fuel. -/
def Refines (weak strong : ResolvedType → ResolvedType → Option Bool) : Prop :=
  ∀ a b result, weak a b = some result → strong a b = some result

theorem allEquivalent_refines {weak strong : ResolvedType → ResolvedType → Option Bool}
    (refines : Refines weak strong) {result : Bool}
    (answers : allEquivalent weak as bs = some result) :
    allEquivalent strong as bs = some result := by
  induction as generalizing bs with
  | nil => simpa [allEquivalent] using answers
  | cons a _ ih =>
    cases bs with
    | nil => simpa [allEquivalent] using answers
    | cons b =>
      cases first : weak a b with
      | none => simp [allEquivalent, first] at answers
      | some same =>
        have first' := refines a b same first
        cases same with
        | false =>
          simp only [allEquivalent, first, first'] at answers ⊢
          exact answers
        | true =>
          simp only [allEquivalent, first, first'] at answers ⊢
          exact ih answers

theorem peeledEquivalent_refines {weak strong : ResolvedType → ResolvedType → Option Bool}
    (refines : Refines weak strong) :
    Refines (table.peeledEquivalent weak) (table.peeledEquivalent strong) := by
  intro a b result answers
  unfold peeledEquivalent at answers ⊢
  by_cases equal : a = b
  · simpa only [equal, ↓reduceIte] using answers
  simp only [equal, ↓reduceIte] at answers ⊢
  cases a <;> cases b <;> try exact answers
  case function.function aParams aRet bParams bRet =>
    by_cases sameLength : aParams.length = bParams.length
    · simp only [ne_eq, sameLength] at answers ⊢
      cases params : allEquivalent weak aParams bParams with
      | none => simp [params] at answers
      | some same =>
        simp only [params, allEquivalent_refines refines params] at answers ⊢
        cases same with
        | false => exact answers
        | true => exact refines _ _ _ answers
    · simpa [sameLength] using answers
  all_goals
    dsimp only at answers ⊢
    split
    · next same =>
        rw [if_pos same] at answers
        exact allEquivalent_refines refines answers
    · next other =>
        rw [if_neg other] at answers
        exact answers

theorem typesEquivalent_refines (fuel : Nat) :
    Refines (table.typesEquivalent fuel) (table.typesEquivalent (fuel + 1)) := by
  induction fuel with
  | zero =>
    intro a b result answers
    cases answers
  | succ _ ih =>
    intro a b result answers
    rw [typesEquivalent_succ] at answers ⊢
    exact peeledEquivalent_refines ih _ _ _ answers

theorem typesEquivalent_le {more : Nat} (le : fuel ≤ more) :
    Refines (table.typesEquivalent fuel) (table.typesEquivalent more) := by
  induction le with
  | refl => exact fun _ _ _ answers => answers
  | step _ ih =>
    intro a b result answers
    exact typesEquivalent_refines _ a b result (ih a b result answers)

/-- `types_equivalent` answers yes. -/
def Equivalent (table : TypeTable) (a b : ResolvedType) : Prop :=
  ∃ fuel, table.typesEquivalent fuel a b = some true

theorem not_equivalent_of_answer {a b : ResolvedType}
    (answers : table.typesEquivalent fuel a b = some false) : ¬Equivalent table a b := by
  rintro ⟨other, yes⟩
  have yes' := typesEquivalent_le (Nat.le_max_right fuel other) a b true yes
  rw [typesEquivalent_le (Nat.le_max_left fuel other) a b false answers] at yes'
  cases yes'

theorem equivalentEach_fuel (each : List.Forall₂ (Equivalent table) as bs) :
    ∃ fuel, List.Forall₂ (fun a b => table.typesEquivalent fuel a b = some true) as bs := by
  induction each with
  | nil => exact ⟨0, .nil⟩
  | cons first _ ih =>
    obtain ⟨fuel, first⟩ := first
    obtain ⟨fuel', rest⟩ := ih
    refine ⟨max fuel fuel', .cons ?_ (rest.imp ?_)⟩
    · exact typesEquivalent_le (Nat.le_max_left fuel fuel') _ _ _ first
    · exact fun a b answers => typesEquivalent_le (Nat.le_max_right fuel fuel') _ _ _ answers

/-- Equivalence looks at the shapes of the peeled types. -/
theorem equivalent_iff : Equivalent table a b ↔
    SameShape table (Equivalent table) (table.entries.peelAlias a) (table.entries.peelAlias b) := by
  constructor
  · rintro ⟨fuel, answers⟩
    cases fuel with
    | zero => cases answers
    | succ fuel =>
      exact (typesEquivalent_true_succ.mp answers).mono fun _ _ answers => ⟨fuel, answers⟩
  · intro shape
    suffices ∃ fuel, SameShape table (fun x y => table.typesEquivalent fuel x y = some true)
        (table.entries.peelAlias a) (table.entries.peelAlias b) by
      obtain ⟨fuel, shape⟩ := this
      exact ⟨fuel + 1, typesEquivalent_true_succ.mpr shape⟩
    generalize table.entries.peelAlias a = x at shape ⊢
    generalize table.entries.peelAlias b = y at shape ⊢
    cases shape with
    | same => exact ⟨0, .same _⟩
    | numeric pair => exact ⟨0, .numeric pair⟩
    | named head args =>
      obtain ⟨fuel, args⟩ := equivalentEach_fuel args
      exact ⟨fuel, .named head args⟩
    | function params ret =>
      -- The parameters and the result are one list to find the fuel for.
      obtain ⟨fuel, each⟩ := equivalentEach_fuel (.cons ret params)
      cases each with
      | cons ret params => exact ⟨fuel, .function params ret⟩
    | tuple elements =>
      obtain ⟨fuel, elements⟩ := equivalentEach_fuel elements
      exact ⟨fuel, .tuple elements⟩
    | union members =>
      obtain ⟨fuel, members⟩ := equivalentEach_fuel members
      exact ⟨fuel, .union members⟩

theorem equivalent_refl (a : ResolvedType) : Equivalent table a a :=
  equivalent_iff.mpr (.same _)

theorem primitiveAliases_symm (pair : table.primitiveAliases a b = true) :
    table.primitiveAliases b a = true := by
  simp only [primitiveAliases, isPrimitivePair, Bool.or_eq_true, Bool.and_eq_true] at pair ⊢
  tauto

theorem SameShape.symm (turn : ∀ a b, rel a b → rel' b a) (shape : SameShape table rel a b) :
    SameShape table rel' b a := by
  have each : ∀ {as bs}, List.Forall₂ rel as bs → List.Forall₂ rel' bs as :=
    fun parts => (parts.imp turn).flip
  cases shape with
  | same => exact .same _
  | numeric pair => exact .numeric (primitiveAliases_symm pair)
  | named head args => exact .named head (each args)
  | function params ret => exact .function (each params) (turn _ _ ret)
  | tuple elements => exact .tuple (each elements)
  | union members => exact .union (each members)

theorem equivalent_symm (equivalent : Equivalent table a b) : Equivalent table b a := by
  obtain ⟨fuel, answers⟩ := equivalent
  induction fuel generalizing a b with
  | zero => cases answers
  | succ _ ih =>
    exact equivalent_iff.mpr ((typesEquivalent_true_succ.mp answers).symm fun _ _ => ih)

/-- A registered type that carries a numeric name and is not an alias. -/
def Numeric (table : TypeTable) (name : String) (id : GlobalRegistryId) : Prop :=
  table.isPrimitive name (.named (.global id) []) = true ∧ table.entries.aliasExpansion id = none

/-- The two spellings of one numeric type. -/
abbrev NumericPair (lhs rhs : String) : Prop :=
  (lhs, rhs) ∈ [("Int", "Int64"), ("Int64", "Int"), ("Float", "Float64"), ("Float64", "Float")]

/-- No name of a pair belongs to two registered types while the other name is registered. -/
def OneTypePerNumeric (table : TypeTable) : Prop :=
  ∀ lhs rhs, NumericPair lhs rhs → ∀ id id' other,
    Numeric table lhs id → Numeric table lhs id' → Numeric table rhs other → id = id'

theorem forall₂_trans (compose : ∀ a b c, rel a b → rel' b c → rel'' a c) {cs : List ResolvedType}
    (hab : List.Forall₂ rel as bs) (hbc : List.Forall₂ rel' bs cs) :
    List.Forall₂ rel'' as cs := by
  induction hab generalizing cs with
  | nil =>
    cases hbc
    exact .nil
  | cons first _ ih =>
    cases hbc with
    | cons second rest => exact .cons (compose _ _ _ first second) (ih rest)

/-- Two numeric pairs around one type have the same ends. -/
theorem numeric_ends (one : OneTypePerNumeric table) (bareA : aliasStep table.entries a = none)
    (bareB : aliasStep table.entries b = none) (bareC : aliasStep table.entries c = none)
    (hab : table.primitiveAliases a b = true) (hbc : table.primitiveAliases b c = true) :
    a = c := by
  obtain ⟨lhs, rhs, pair, ha, hb⟩ := primitiveAliases_iff.mp hab
  obtain ⟨lhs', rhs', pair', hb', hc⟩ := primitiveAliases_iff.mp hbc
  obtain ⟨id, rfl⟩ := isPrimitive_bare ha
  obtain ⟨other, rfl⟩ := isPrimitive_bare hb
  obtain ⟨id', rfl⟩ := isPrimitive_bare hc
  -- The middle type has one name, so both pairs are the same one, read in both directions.
  have middle : rhs = lhs' := primitive_name_unique hb hb'
  have ends : lhs = rhs' := by
    subst middle
    simp only [mem_cons, not_mem_nil, or_false] at pair
    rcases pair with ⟨rfl, rfl⟩ | ⟨rfl, rfl⟩ | ⟨rfl, rfl⟩ | ⟨rfl, rfl⟩ <;>
      simpa [eq_comm] using pair'
  subst ends
  rw [one lhs rhs pair id id' other ⟨ha, bareA⟩ ⟨hc, bareC⟩ ⟨hb, bareB⟩]

theorem SameShape.trans (one : OneTypePerNumeric table)
    (first : ∀ a b, rel a b → rel'' a b) (second : ∀ a b, rel' a b → rel'' a b)
    (compose : ∀ a b c, rel a b → rel' b c → rel'' a c) (bareA : aliasStep table.entries a = none)
    (bareB : aliasStep table.entries b = none) (bareC : aliasStep table.entries c = none)
    (hab : SameShape table rel a b) (hbc : SameShape table rel' b c) :
    SameShape table rel'' a c := by
  cases hab with
  | same => exact hbc.mono second
  | numeric pair =>
    obtain ⟨id, id', rfl, rfl⟩ := primitiveAliases_bare pair
    cases hbc with
    | same => exact .numeric pair
    | numeric pair' => exact numeric_ends one bareA bareB bareC pair pair' ▸ .same _
    | named _ args =>
      cases args
      exact .numeric pair
  | named head args =>
    cases hbc with
    | same => exact .named head (args.imp first)
    | numeric pair =>
      obtain ⟨id, id', sameB, rfl⟩ := primitiveAliases_bare pair
      cases sameB
      cases args
      exact .numeric pair
    | named _ args' => exact .named head (forall₂_trans compose args args')
  | function params ret =>
    cases hbc with
    | same => exact .function (params.imp first) (first _ _ ret)
    | numeric pair => obtain ⟨_, _, ⟨⟩, _⟩ := primitiveAliases_bare pair
    | function params' ret' =>
      exact .function (forall₂_trans compose params params') (compose _ _ _ ret ret')
  | tuple elements =>
    cases hbc with
    | same => exact .tuple (elements.imp first)
    | numeric pair => obtain ⟨_, _, ⟨⟩, _⟩ := primitiveAliases_bare pair
    | tuple elements' => exact .tuple (forall₂_trans compose elements elements')
  | union members =>
    cases hbc with
    | same => exact .union (members.imp first)
    | numeric pair => obtain ⟨_, _, ⟨⟩, _⟩ := primitiveAliases_bare pair
    | union members' => exact .union (forall₂_trans compose members members')

theorem equivalent_trans (aliases : AliasesEnd table.entries) (one : OneTypePerNumeric table)
    (hab : Equivalent table a b) (hbc : Equivalent table b c) :
    Equivalent table a c := by
  obtain ⟨fuel, answers⟩ := hab
  induction fuel generalizing a b c with
  | zero => cases answers
  | succ fuel ih =>
    rw [equivalent_iff] at hbc ⊢
    have shape := typesEquivalent_true_succ.mp answers
    refine shape.trans one (fun _ _ yes => ⟨fuel, yes⟩) (fun _ _ equivalent => equivalent)
      ?_ (aliases.peeled a) (aliases.peeled b) (aliases.peeled c) hbc
    exact fun x y z yes rest => ih rest yes

/-- Two bare types that are not aliases are equivalent when they are one type or a numeric
pair. -/
theorem bare_equivalent_iff {id id' : GlobalRegistryId}
    (notAlias : table.entries.aliasExpansion id = none)
    (notAlias' : table.entries.aliasExpansion id' = none) :
    Equivalent table (.named (.global id) []) (.named (.global id') []) ↔
      id = id' ∨ table.primitiveAliases (.named (.global id) []) (.named (.global id') []) := by
  have bare : aliasStep table.entries (.named (.global id) []) = none := notAlias
  have bare' : aliasStep table.entries (.named (.global id') []) = none := notAlias'
  rw [equivalent_iff, peelAlias_of_step_none bare, peelAlias_of_step_none bare']
  constructor
  · intro shape
    cases shape with
    | same | named => exact .inl rfl
    | numeric pair => exact .inr pair
  · rintro (rfl | pair)
    · exact .same _
    · exact .numeric pair

theorem NumericPair.differ {lhs rhs : String} (pair : NumericPair lhs rhs) :
    NumericPair rhs lhs ∧ ¬NumericPair lhs lhs := by
  simp only [mem_cons, not_mem_nil, or_false] at pair ⊢
  rcases pair with ⟨rfl, rfl⟩ | ⟨rfl, rfl⟩ | ⟨rfl, rfl⟩ | ⟨rfl, rfl⟩ <;> decide

/-- Transitivity is the uniqueness of the numeric types. -/
theorem equivalent_trans_iff (aliases : AliasesEnd table.entries) :
    (∀ a b c, Equivalent table a b → Equivalent table b c → Equivalent table a c) ↔
      OneTypePerNumeric table := by
  constructor
  · intro transitive lhs rhs pair id id' other hid hid' hother
    have toOther : Equivalent table (.named (.global id) []) (.named (.global other) []) :=
      (bare_equivalent_iff hid.2 hother.2).mpr
        (.inr (primitiveAliases_iff.mpr ⟨lhs, rhs, pair, hid.1, hother.1⟩))
    have fromOther : Equivalent table (.named (.global other) []) (.named (.global id') []) :=
      (bare_equivalent_iff hother.2 hid'.2).mpr
        (.inr (primitiveAliases_iff.mpr ⟨rhs, lhs, pair.differ.1, hother.1, hid'.1⟩))
    rcases (bare_equivalent_iff hid.2 hid'.2).mp (transitive _ _ _ toOther fromOther) with
      same | numeric
    · exact same
    · obtain ⟨lhs', rhs', pair', first, second⟩ := primitiveAliases_iff.mp numeric
      rw [primitive_name_unique first hid.1, primitive_name_unique second hid'.1] at pair'
      exact absurd pair' pair.differ.2
  · intro one a b c hab hbc
    exact equivalent_trans aliases one hab hbc

/-- Some fuel is enough to compare the two types. -/
def Answered (table : TypeTable) (a b : ResolvedType) : Prop :=
  ∃ fuel result, table.typesEquivalent fuel a b = some result

theorem allEquivalent_answered (each : ∀ a ∈ as, ∀ b, Answered table a b) (bs : List ResolvedType) :
    ∃ fuel result, allEquivalent (table.typesEquivalent fuel) as bs = some result := by
  induction as generalizing bs with
  | nil => exact ⟨0, true, by simp [allEquivalent]⟩
  | cons a _ ih =>
    cases bs with
    | nil => exact ⟨0, true, by simp [allEquivalent]⟩
    | cons b bs =>
      obtain ⟨fuel, result, first⟩ := each a mem_cons_self b
      obtain ⟨fuel', result', rest⟩ :=
        ih (fun a' member => each a' (mem_cons_of_mem a member)) bs
      have first := typesEquivalent_le (Nat.le_max_left fuel fuel') _ _ _ first
      have rest := allEquivalent_refines (typesEquivalent_le (Nat.le_max_right fuel fuel')) rest
      cases result with
      | false => exact ⟨max fuel fuel', false, by simp [allEquivalent, first]⟩
      | true => exact ⟨max fuel fuel', result', by simp [allEquivalent, first, rest]⟩

/-- The types a type is directly built from. -/
def parts : ResolvedType → List ResolvedType
  | .function params ret => ret :: params
  | .tuple elements => elements
  | .named _ typeArgs => typeArgs
  | .union members => members
  | .failed | .unresolved => []

/-- Types of one variant are compared by the answers for their parts, others at once. -/
theorem peeledEquivalent_answered (each : ∀ part ∈ parts a, ∀ b, Answered table part b) :
    ∃ fuel result, table.peeledEquivalent (table.typesEquivalent fuel) a b = some result := by
  by_cases same : a = b
  · exact ⟨0, true, by simp [peeledEquivalent, same]⟩
  cases a <;> cases b <;> try (refine ⟨0, false, ?_⟩; simp [peeledEquivalent]; done)
  case function.function params ret params' ret' =>
    -- The result and the parameters are one list to find the fuel for.
    obtain ⟨fuel, first, paramsAnswer⟩ := allEquivalent_answered
      (fun part member => each part (mem_cons_of_mem ret member)) params'
    obtain ⟨fuel', second, retAnswer⟩ := each ret mem_cons_self ret'
    have paramsAnswer := allEquivalent_refines
      (typesEquivalent_le (Nat.le_max_left fuel fuel')) paramsAnswer
    have retAnswer := typesEquivalent_le (Nat.le_max_right fuel fuel') _ _ _ retAnswer
    refine ⟨max fuel fuel', ?_⟩
    simp only [peeledEquivalent, same]
    by_cases sameLength : params.length = params'.length
    · cases first <;> simp [sameLength, paramsAnswer, retAnswer]
    · simp [sameLength]
  case tuple.tuple _ others | named.named _ _ _ others | union.union _ others =>
    obtain ⟨fuel, result, answers⟩ := allEquivalent_answered each others
    refine ⟨fuel, ?_⟩
    simp only [peeledEquivalent, same, ↓reduceIte]
    split
    · exact ⟨result, answers⟩
    · exact ⟨_, rfl⟩
  case failed.failed | unresolved.unresolved => exact absurd rfl same

/-- A type that is not an alias is compared by the answers for its parts. -/
theorem answered_of_parts (bare : aliasStep table.entries a = none)
    (each : ∀ part ∈ parts a, ∀ b, Answered table part b) (b : ResolvedType) :
    Answered table a b := by
  obtain ⟨fuel, result, answers⟩ := peeledEquivalent_answered each
  refine ⟨fuel + 1, result, ?_⟩
  rw [typesEquivalent_succ, peelAlias_of_step_none bare, answers]

/-- `types_equivalent` ends on every pair of types. -/
theorem typesEquivalent_answered (aliases : AliasesEnd table.entries) (a b : ResolvedType) :
    Answered table a b := by
  have rules : Unfolding table.entries (fun a => ∀ b, Answered table a b) :=
    { expand := by
        intro ty expansion step answered b
        obtain ⟨fuel, result, answers⟩ := answered b
        refine ⟨fuel + 1, result, ?_⟩
        rw [typesEquivalent_succ, peelAlias_step aliases step, ← typesEquivalent_succ]
        exact typesEquivalent_refines fuel _ _ _ answers
      function := fun params ret each last =>
        answered_of_parts rfl (forall_mem_cons.mpr ⟨last, each⟩)
      tuple := fun elements each => answered_of_parts rfl each
      named := fun head typeArgs bare each => answered_of_parts bare each
      union := fun members each => answered_of_parts rfl each
      failed := answered_of_parts rfl (by simp [parts])
      unresolved := answered_of_parts rfl (by simp [parts]) }
  exact rules.all aliases a b

end Comparison

section Unions

variable {table : TypeTable} {as bs : List ResolvedType} {admits : List ResolvedType → Prop}
  {rel : ResolvedType → ResolvedType → Prop}

/-- The member vectors `canonical_union` leaves in a union: flat members in increasing order. -/
structure CanonicalMembers (table : TypeTable) (members : List ResolvedType) : Prop where
  atLeastTwo : 2 ≤ members.length
  flat : ∀ member ∈ members, table.flattenMember member = [member]
  increasing : members.Pairwise (MemberLt table)

mutual

/-- `b` is `a` with some occurrences of `Int`, `Int64`, `Float` and `Float64` replaced by the
other name of the pair. A canonical union is built again from its respelled members, which
`admits` may restrict. -/
inductive Respells (table : TypeTable) (admits : List ResolvedType → Prop) :
    ResolvedType → ResolvedType → Prop
  | same (ty : ResolvedType) : Respells table admits ty ty
  | numeric {lhs rhs : String} {id id' : GlobalRegistryId} (pair : NumericPair lhs rhs)
      (left : Numeric table lhs id) (right : Numeric table rhs id') :
      Respells table admits (.named (.global id) []) (.named (.global id') [])
  | named (head : Resolution) {as bs : List ResolvedType} (args : RespellsEach table admits as bs) :
      Respells table admits (.named head as) (.named head bs)
  | function {as bs : List ResolvedType} {a b : ResolvedType}
      (params : RespellsEach table admits as bs) (ret : Respells table admits a b) :
      Respells table admits (.function as a) (.function bs b)
  | tuple {as bs : List ResolvedType} (elements : RespellsEach table admits as bs) :
      Respells table admits (.tuple as) (.tuple bs)
  | union {as bs : List ResolvedType} (canonical : CanonicalMembers table as)
      (members : RespellsEach table admits as bs) (admitted : admits bs) :
      Respells table admits (.union as) (table.canonicalUnion bs)

inductive RespellsEach (table : TypeTable) (admits : List ResolvedType → Prop) :
    List ResolvedType → List ResolvedType → Prop
  | nil : RespellsEach table admits [] []
  | cons {a b : ResolvedType} {as bs : List ResolvedType} (first : Respells table admits a b)
      (rest : RespellsEach table admits as bs) : RespellsEach table admits (a :: as) (b :: bs)

end

theorem RespellsEach.length (each : RespellsEach table admits as bs) : as.length = bs.length := by
  induction bs generalizing as with
  | nil => cases each; rfl
  | cons _ _ ih =>
    cases each with
    | cons _ rest => rw [length_cons, length_cons, ih rest]

theorem flattenMember_bare {ty : ResolvedType} (bare : aliasStep table.entries ty = none)
    (notUnion : ∀ members, ty ≠ .union members) : table.flattenMember ty = [ty] := by
  rw [flattenMember, peelAlias_of_step_none bare]
  split
  · next members => exact absurd rfl (notUnion members)
  · rfl

theorem Respells.flat {a b : ResolvedType}
    (respells : Respells table admits a b) (flat : table.flattenMember a = [a]) :
    table.flattenMember b = [b] := by
  cases respells with
  | same => exact flat
  | numeric _ _ right => exact flattenMember_bare right.2 (by simp)
  | named head args =>
    cases args with
    | nil => exact flat
    | cons => exact flattenMember_bare (by cases head <;> rfl) (by simp)
  | function | tuple => exact flattenMember_bare rfl (by simp)
  | @union as bs canonical members admitted =>
    have bare : aliasStep table.entries (.union as) = none := rfl
    have atLeastTwo := canonical.atLeastTwo
    rw [flattenMember, peelAlias_of_step_none bare] at flat
    simp only at flat
    rw [flat] at atLeastTwo
    simp at atLeastTwo

theorem RespellsEach.flat (each : RespellsEach table admits as bs)
    (flat : ∀ member ∈ as, table.flattenMember member = [member]) :
    ∀ member ∈ bs, table.flattenMember member = [member] := by
  induction bs generalizing as with
  | nil => simp
  | cons _ _ ih =>
    cases each with
    | cons first rest =>
      rw [forall_mem_cons] at flat ⊢
      exact ⟨first.flat flat.1, ih rest flat.2⟩

theorem canonicalUnion_of_two {members : List ResolvedType}
    (atLeastTwo : 2 ≤ (table.canonicalMembers members).length) :
    table.canonicalUnion members = .union (table.canonicalMembers members) := by
  unfold canonicalUnion
  split
  · next h => simp [h] at atLeastTwo
  · next h => simp [h] at atLeastTwo
  · rfl

theorem equivalent_named {head : Resolution} (args : List.Forall₂ (Equivalent table) as bs) :
    Equivalent table (.named head as) (.named head bs) := by
  cases args with
  | nil => exact equivalent_refl _
  | @cons a b as bs first rest =>
    have bare : ∀ ty types, aliasStep table.entries (.named head (ty :: types)) = none := by
      intro ty types
      cases head <;> rfl
    rw [equivalent_iff, peelAlias_of_step_none (bare a as), peelAlias_of_step_none (bare b bs)]
    exact .named head (.cons first rest)

theorem equivalent_unions :
    Equivalent table (.union as) (.union bs) ↔ List.Forall₂ (Equivalent table) as bs := by
  rw [equivalent_iff]
  constructor
  · intro shape
    cases shape with
    | same => exact forall₂_same.mpr fun ty _ => equivalent_refl ty
    | numeric pair => obtain ⟨_, _, ⟨⟩, _⟩ := primitiveAliases_bare pair
    | union members => exact members
  · exact .union

/-- Respelled members that are still in increasing order. -/
abbrev InOrder (table : TypeTable) (members : List ResolvedType) : Prop :=
  members.Pairwise (MemberLt table)

/-- Respelled members that stay in order make the union of the respelled members. -/
theorem canonicalUnion_inOrder (canonical : CanonicalMembers table as)
    (members : RespellsEach table admits as bs) (inOrder : InOrder table bs) :
    table.canonicalUnion bs = .union bs := by
  have kept := canonicalMembers_of_increasing table (members.flat canonical.flat) inOrder
  have atLeastTwo := canonical.atLeastTwo
  rw [members.length, ← kept] at atLeastTwo
  rw [canonicalUnion_of_two atLeastTwo, kept]

mutual

/-- Respelling numeric names gives an equivalent type, where unions keep their order. -/
theorem Respells.equivalent {a b : ResolvedType} (respells : Respells table (InOrder table) a b) :
    Equivalent table a b := by
  cases respells with
  | same => exact equivalent_refl _
  | numeric pair left right =>
    exact (bare_equivalent_iff left.2 right.2).mpr
      (.inr (primitiveAliases_iff.mpr ⟨_, _, pair, left.1, right.1⟩))
  | named _ args => exact equivalent_named args.equivalent
  | function params ret =>
    exact equivalent_iff.mpr (.function params.equivalent ret.equivalent)
  | tuple elements => exact equivalent_iff.mpr (.tuple elements.equivalent)
  | union canonical members inOrder =>
    rw [canonicalUnion_inOrder canonical members inOrder]
    exact equivalent_unions.mpr members.equivalent

theorem RespellsEach.equivalent {as bs : List ResolvedType}
    (each : RespellsEach table (InOrder table) as bs) :
    List.Forall₂ (Equivalent table) as bs := by
  cases each with
  | nil => exact .nil
  | cons first rest => exact .cons first.equivalent rest.equivalent

end

/-- No two members, at different places, are equivalent. -/
abbrev NoTwoEquivalent (table : TypeTable) (members : List ResolvedType) : Prop :=
  members.Pairwise fun a b => ¬Equivalent table a b

/-- The kept members are pairwise inequivalent exactly when equivalence and equality agree on the
flattened members. -/
theorem noTwoEquivalent_iff (members : List ResolvedType) :
    NoTwoEquivalent table (table.canonicalMembers members) ↔
      ∀ a ∈ members.flatMap table.flattenMember, ∀ b ∈ members.flatMap table.flattenMember,
        Equivalent table a b → a = b := by
  simp only [← mem_canonicalMembers]
  have symmetric : Std.Symm fun a b => ¬Equivalent table a b :=
    ⟨fun _ _ apart equivalent => apart (equivalent_symm equivalent)⟩
  constructor
  · intro apart a memberA b memberB equivalent
    by_contra different
    exact apart.forall memberA memberB different equivalent
  · intro agree
    refine (canonicalMembers_nodup table members).imp_of_mem ?_
    intro a b memberA memberB different equivalent
    exact different (agree a memberA b memberB equivalent)

theorem noTwoEquivalent_of_forall₂ (aliases : AliasesEnd table.entries)
    (one : OneTypePerNumeric table)
    (each : List.Forall₂ (Equivalent table) as bs) (apart : NoTwoEquivalent table as) :
    NoTwoEquivalent table bs := by
  induction each with
  | nil => exact .nil
  | @cons a b as bs first rest ih =>
    rw [NoTwoEquivalent, pairwise_cons] at apart ⊢
    refine ⟨?_, ih apart.2⟩
    intro b' member equivalent
    obtain ⟨a', memberA, related⟩ := Lib.forall₂_mem_right rest member
    have toB' := equivalent_trans aliases one first equivalent
    exact apart.1 a' memberA (equivalent_trans aliases one toB' (equivalent_symm related))

theorem eq_of_forall₂
    (each : List.Forall₂ rel as bs) (agree : ∀ a ∈ as, ∀ b ∈ bs, rel a b → a = b) : as = bs := by
  induction each with
  | nil => rfl
  | cons first _ ih =>
    rw [agree _ mem_cons_self _ mem_cons_self first, ih fun a memberA b memberB =>
        agree a (mem_cons_of_mem _ memberA) b (mem_cons_of_mem _ memberB)]

/-- A respelled union is equivalent to the original exactly when its members kept their order. -/
theorem respelled_union_iff (aliases : AliasesEnd table.entries) (one : OneTypePerNumeric table)
    (canonical : CanonicalMembers table as)
    (apart : NoTwoEquivalent table as) (members : RespellsEach table (InOrder table) as bs) :
    Equivalent table (.union as) (table.canonicalUnion bs) ↔ InOrder table bs := by
  have each := members.equivalent
  constructor
  · intro equivalent
    have apartB := noTwoEquivalent_of_forall₂ aliases one each apart
    have distinct : bs.Nodup := by
      refine apartB.imp ?_
      rintro a _ apart rfl
      exact apart (equivalent_refl a)
    have perm := canonicalMembers_perm table (members.flat canonical.flat) distinct
    have atLeastTwo := canonical.atLeastTwo
    rw [members.length, ← perm.length_eq] at atLeastTwo
    rw [canonicalUnion_of_two atLeastTwo, equivalent_unions] at equivalent
    have back : List.Forall₂ (Equivalent table) bs as :=
      List.Forall₂.flip (each.imp fun _ _ => equivalent_symm)
    have compose : ∀ a b c, Equivalent table a b → Equivalent table b c → Equivalent table a c :=
      fun _ _ _ => equivalent_trans aliases one
    have toKept := forall₂_trans compose back equivalent
    have symmetric : Std.Symm fun a b => ¬Equivalent table a b :=
      ⟨fun _ _ apart equivalent => apart (equivalent_symm equivalent)⟩
    have kept : bs = table.canonicalMembers bs := by
      refine eq_of_forall₂ toKept fun a memberA b memberB related => ?_
      by_contra different
      exact apartB.forall memberA (perm.mem_iff.mp memberB) different related
    rw [kept]
    exact canonicalMembers_increasing table bs
  · intro inOrder
    rw [canonicalUnion_inOrder canonical members inOrder]
    exact equivalent_unions.mpr each

/-- Where aliases end, `types_equivalent` answers on every pair of types and is reflexive and
symmetric. It is transitive exactly when each numeric name belongs to one type. Respelling
numeric names gives an equivalent type, where a union is one exactly when its members keep their
order. A canonical union keeps two equivalent members exactly when two of its flattened members
are equivalent and differ. -/
theorem types_equivalent_relation (table : TypeTable) (aliases : AliasesEnd table.entries) :
    (∀ a b, Answered table a b) ∧
    (∀ a, Equivalent table a a) ∧
    (∀ a b, Equivalent table a b → Equivalent table b a) ∧
    ((∀ a b c, Equivalent table a b → Equivalent table b c → Equivalent table a c) ↔
      OneTypePerNumeric table) ∧
    (∀ a b, Respells table (InOrder table) a b → Equivalent table a b) ∧
    (OneTypePerNumeric table → ∀ as bs, CanonicalMembers table as → NoTwoEquivalent table as →
      RespellsEach table (InOrder table) as bs →
      (Equivalent table (.union as) (table.canonicalUnion bs) ↔ InOrder table bs)) ∧
    (∀ members, NoTwoEquivalent table (table.canonicalMembers members) ↔
      ∀ a ∈ members.flatMap table.flattenMember, ∀ b ∈ members.flatMap table.flattenMember,
        Equivalent table a b → a = b) := by
  refine ⟨typesEquivalent_answered aliases, equivalent_refl, fun _ _ => equivalent_symm,
    equivalent_trans_iff aliases, fun _ _ => Respells.equivalent, ?_, noTwoEquivalent_iff⟩
  intro one as bs canonical apart members
  exact respelled_union_iff aliases one canonical apart members

/-- A registry of stdlib stubs under `Global`, without aliases. -/
def stubTable (paths : List (List String)) : TypeTable where
  entries id := (paths.drop id).head?.map fun path => ⟨⟨"Global", path⟩, .other⟩
  typeParamName _ _ := none
  unit := 0

theorem stubTable_aliasExpansion (paths : List (List String)) (id : GlobalRegistryId) :
    (stubTable paths).entries.aliasExpansion id = none := by
  have entry : (stubTable paths).entries id =
      (paths.drop id).head?.map fun path => ⟨⟨"Global", path⟩, .other⟩ := rfl
  unfold GlobalRegistry.aliasExpansion
  rw [entry]
  cases (paths.drop id).head? <;> rfl

theorem stubTable_aliasesEnd (paths : List (List String)) :
    AliasesEnd (stubTable paths).entries := by
  have noStep : ∀ ty, aliasStep (stubTable paths).entries ty = none := by
    intro ty
    unfold aliasStep
    split
    · exact stubTable_aliasExpansion paths _
    · rfl
  refine ⟨⟨fun id => ⟨id, ?_⟩⟩, fun ty => noStep _⟩
  rintro child ⟨expansion, expands, _⟩
  rw [stubTable_aliasExpansion] at expands
  cases expands

/-- The stubs of the sized and unsized numeric names. -/
def numericStubs : TypeTable :=
  stubTable [["Unit"], ["Int"], ["Int64"], ["Int32"], ["Float"], ["Float64"]]

/-- A registry in which a nested type is called `Int` too. -/
def nestedStubs : TypeTable :=
  stubTable [["Unit"], ["Int"], ["Int64"], ["Shape", "Int"]]

theorem types_equivalent_relation_stubs : AliasesEnd numericStubs.entries ∧ Equivalent numericStubs
      (.tuple [.named (.global 1) [], .named (.global 4) []])
      (.tuple [.named (.global 2) [], .named (.global 5) []]) := by
  refine ⟨stubTable_aliasesEnd _, ?_⟩
  refine (types_equivalent_relation numericStubs (stubTable_aliasesEnd _)).2.2.2.2.1 _ _ ?_
  have pairInt : NumericPair "Int" "Int64" := by decide
  have pairFloat : NumericPair "Float" "Float64" := by decide
  exact .tuple (.cons (.numeric pairInt ⟨by decide, rfl⟩ ⟨by decide, rfl⟩)
    (.cons (.numeric pairFloat ⟨by decide, rfl⟩ ⟨by decide, rfl⟩) .nil))

/-- `Int | Int64` keeps both names of one type; `Int | Int32` is not equivalent to its respelling
`Int32 | Int64`; and a nested `Global` type that is also called `Int` breaks transitivity. -/
theorem types_equivalent_split_by_spelling : (AliasesEnd numericStubs.entries ∧
      numericStubs.canonicalUnion [.named (.global 1) [], .named (.global 2) []] =
        .union [.named (.global 1) [], .named (.global 2) []] ∧
      Equivalent numericStubs (.named (.global 1) []) (.named (.global 2) []) ∧
      Respells numericStubs (fun _ => True) (.union [.named (.global 1) [], .named (.global 3) []])
        (numericStubs.canonicalUnion [.named (.global 2) [], .named (.global 3) []]) ∧
      ¬Equivalent numericStubs (.union [.named (.global 1) [], .named (.global 3) []])
        (numericStubs.canonicalUnion [.named (.global 2) [], .named (.global 3) []])) ∧
    AliasesEnd nestedStubs.entries ∧
    Equivalent nestedStubs (.named (.global 1) []) (.named (.global 2) []) ∧
    Equivalent nestedStubs (.named (.global 2) []) (.named (.global 3) []) ∧
    ¬Equivalent nestedStubs (.named (.global 1) []) (.named (.global 3) []) := by
  have pairInt : NumericPair "Int" "Int64" := by decide
  have canonical : CanonicalMembers numericStubs [.named (.global 1) [], .named (.global 3) []] :=
    ⟨by decide, by decide, by decide⟩
  refine ⟨⟨stubTable_aliasesEnd _, by decide, ⟨2, by decide⟩, ?_, ?_⟩, stubTable_aliasesEnd _,
    ⟨2, by decide⟩, ⟨2, by decide⟩, ?_⟩
  · exact .union canonical
      (.cons (.numeric pairInt ⟨by decide, rfl⟩ ⟨by decide, rfl⟩) (.cons (.same _) .nil)) trivial
  · exact @not_equivalent_of_answer _ 3 _ _ (by decide)
  · exact @not_equivalent_of_answer _ 2 _ _ (by decide)

end Unions

end Koja.Guarantees.Typecheck
