import Koja.Source.Typecheck.Equivalence

/-!
# Merging partial types

A type is read as the heads at its positions. Where `merge_partial` gives a type, it takes at every
position the head of the side that has no hole there; it has no case for functions and unions.
-/
namespace Koja.Guarantees.Typecheck

open Koja.Source.Typecheck

/-- What stands at a position of a type, with the number of types below it. -/
inductive Head where
  | function (arity : Nat)
  | tuple (arity : Nat)
  | named (resolution : Resolution) (arity : Nat)
  | union (arity : Nat)
  | failed
  | unresolved
  deriving DecidableEq

namespace Head

def isHole : Head → Bool
  | .failed | .unresolved => true
  | _ => false

def isResolved : Head → Bool
  | .named resolution _ => resolution.isResolved
  | head => !head.isHole

/-- The heads of function and union types, for which `merge_partial` has no case. -/
def isOpaque : Head → Bool
  | .function _ | .union _ => true
  | _ => false

theorem of_isHole {found : Head} (hole : found.isHole = true) :
    found.isOpaque = false ∧ found.isResolved = false := by
  cases found <;> first | exact ⟨rfl, rfl⟩ | cases hole

end Head

def head : ResolvedType → Head
  | .function params _ => .function params.length
  | .tuple elements => .tuple elements.length
  | .named resolution typeArgs => .named resolution typeArgs.length
  | .union members => .union members.length
  | .failed => .failed
  | .unresolved => .unresolved

def children : ResolvedType → List ResolvedType
  | .function params ret => ret :: params
  | .tuple types | .named _ types | .union types => types
  | .failed | .unresolved => []

/-- The head at a position: a path of child numbers from the root. -/
def headAt (ty : ResolvedType) : List Nat → Option Head
  | [] => some (head ty)
  | index :: path => do headAt (← (children ty)[index]?) path

/-- `merged` has the head of `part` wherever `part` has no hole, so it has a hole only where `part`
has one. -/
def Agrees (merged part : ResolvedType) : Prop :=
  ∀ path, ∀ found ∈ headAt part path, found.isHole = false → headAt merged path = some found

/-- At some position both types are resolved, and differ. -/
def Disagree (a b : ResolvedType) : Prop :=
  ∃ path, ∃ found ∈ headAt a path, ∃ other ∈ headAt b path,
    found.isResolved ∧ other.isResolved ∧ found ≠ other

/-- No function and no union stands in the type. -/
def Plain (ty : ResolvedType) : Prop :=
  ∀ path, ∀ found ∈ headAt ty path, found.isOpaque = false

/-- Where both types have a position, they have the same head or exactly one hole. -/
def Alike (a b : ResolvedType) : Prop :=
  ∀ path, ∀ found ∈ headAt a path, ∀ other ∈ headAt b path,
    found = other ∨ found.isHole ≠ other.isHole

/-! ## Merging position by position -/

/-- The heads that merge. -/
def Fit (x y : Option Head) : Prop :=
  ∀ found ∈ x, ∀ other ∈ y,
    found.isHole ∨ other.isHole ∨ found = other ∧ found.isOpaque = false

/-- The head after the merge. -/
def join : Option Head → Option Head → Option Head
  | some found, y => if found.isHole then y <|> some found else some found
  | none, y => y

/-- `z` is what merging makes of the heads `x` and `y`; without a result some heads do not fit. -/
def Merged (x y : List Nat → Option Head) : Option (List Nat → Option Head) → Prop
  | some z => ∀ path, Fit (x path) (y path) ∧ z path = join (x path) (y path)
  | none => ∃ path, ¬ Fit (x path) (y path)

/-- The heads of a list of types, at positions that start with the number of the type. -/
def headIn (types : List ResolvedType) : List Nat → Option Head
  | [] => none
  | index :: path => do headAt (← types[index]?) path

@[simp] theorem none_join (x : Option Head) : join none x = x := rfl

@[simp] theorem join_none (x : Option Head) : join x none = x := by
  cases x <;> simp [join]

theorem headIn_nil (path : List Nat) : headIn [] path = none := by
  cases path <;> rfl

theorem mergePartialAll_length {as bs types : List ResolvedType}
    (merged : mergePartialAll as bs = some types) :
    types.length = as.length ∧ as.length = bs.length := by
  induction as generalizing bs types with
  | nil => cases bs <;> simp_all [mergePartialAll]
  | cons a as ih =>
    cases bs with
    | nil => simp [mergePartialAll] at merged
    | cons b bs =>
      simp only [mergePartialAll, Option.bind_eq_bind, Option.bind_eq_some_iff] at merged
      obtain ⟨first, -, rest, done, built⟩ := merged
      cases built
      simpa using ih done

theorem exists_unfit_below {as bs : List ResolvedType}
    (unfit : ∃ path, ¬ Fit (headIn as path) (headIn bs path)) :
    ∃ index path, ¬ Fit (headIn as (index :: path)) (headIn bs (index :: path)) := by
  obtain ⟨_ | ⟨index, path⟩, unfit⟩ := unfit
  · exact absurd (by simp [Fit, headIn]) unfit
  · exact ⟨index, path, unfit⟩

theorem merged_cons {as bs : List ResolvedType} {a b : ResolvedType}
    {first : Option ResolvedType} {rest : Option (List ResolvedType)}
    (here : Merged (headAt a) (headAt b) (first.map headAt))
    (behind : Merged (headIn as) (headIn bs) (rest.map headIn)) :
    Merged (headIn (a :: as)) (headIn (b :: bs))
      ((first.bind fun merged => rest.bind fun types => some (merged :: types)).map headIn) := by
  match first, rest with
  | none, _ =>
    obtain ⟨path, unfit⟩ := here
    exact ⟨0 :: path, unfit⟩
  | some _, none =>
    obtain ⟨index, path, unfit⟩ := exists_unfit_below behind
    exact ⟨(index + 1) :: path, unfit⟩
  | some _, some _ =>
    rintro (_ | ⟨_ | index, path⟩)
    · exact ⟨by simp [Fit, headIn], rfl⟩
    · exact here path
    · exact behind (index :: path)

/-- Two nodes with a head that `merge_partial` goes below. -/
theorem merged_node (a b : ResolvedType) (build : List ResolvedType → ResolvedType)
    (solid : (head a).isHole = false ∧ (head b).isHole = false)
    (plain : (head a).isOpaque = false)
    (same : head a = head b ↔ (children a).length = (children b).length)
    (built : ∀ types, types.length = (children a).length →
      head (build types) = head a ∧ children (build types) = types)
    (each : (children a).length = (children b).length →
      Merged (headIn (children a)) (headIn (children b))
        ((mergePartialAll (children a) (children b)).map headIn)) :
    Merged (headAt a) (headAt b)
      (((mergePartialAll (children a) (children b)).map build).map headAt) := by
  cases result : mergePartialAll (children a) (children b) with
  | none =>
    rw [result] at each
    by_cases lengths : (children a).length = (children b).length
    · obtain ⟨index, path, unfit⟩ := exists_unfit_below (each lengths)
      exact ⟨index :: path, unfit⟩
    · exact ⟨[], by simp [Fit, headAt, solid, same, lengths]⟩
  | some types =>
    obtain ⟨length, lengths⟩ := mergePartialAll_length result
    obtain ⟨sameHead, below⟩ := built types length
    rw [result] at each
    rintro (_ | ⟨index, path⟩)
    · simp [headAt, Fit, join, sameHead, ← same.mpr lengths, solid, plain]
    · obtain ⟨fit, joined⟩ := each lengths (index :: path)
      refine ⟨fit, Eq.trans ?_ joined⟩
      simp [headAt, headIn, below]

mutual

theorem mergePartial_merged (a b : ResolvedType) :
    Merged (headAt a) (headAt b) ((mergePartial a b).map headAt) := by
  cases a <;> cases b
  case named.named resolution types other types' =>
    simp only [mergePartial]
    split
    · next equal =>
      subst equal
      exact merged_node (.named resolution types) (.named resolution types') (.named resolution)
        ⟨rfl, rfl⟩ rfl (by simp [head, children]) (by simp [head, children])
        (mergePartialAll_merged types types')
    · next differ => exact ⟨[], by simp [headAt, head, Fit, Head.isHole, differ]⟩
  case tuple.tuple types types' =>
    simp only [mergePartial]
    exact merged_node (.tuple types) (.tuple types') .tuple ⟨rfl, rfl⟩ rfl
      (by simp [head, children]) (by simp [head, children]) (mergePartialAll_merged types types')
  all_goals
    simp only [mergePartial, Option.map_some, Option.map_none]
    first
    | exact ⟨[], by simp [headAt, head, Fit, Head.isHole, Head.isOpaque]⟩
    | rintro (_ | ⟨index, path⟩)
      · simp [headAt, head, Fit, join, Head.isHole]
      · simp [headAt, children, Fit]

theorem mergePartialAll_merged (as bs : List ResolvedType) (lengths : as.length = bs.length) :
    Merged (headIn as) (headIn bs) ((mergePartialAll as bs).map headIn) := by
  cases as <;> cases bs
  case nil.nil => exact fun path => by simp [headIn_nil, Fit, join]
  case cons.cons a as b bs =>
    simp only [mergePartialAll]
    exact merged_cons (mergePartial_merged a b)
      (mergePartialAll_merged as bs (Nat.succ.inj lengths))
  all_goals cases lengths

end

theorem headIn_cons_inj {a b : ResolvedType} {as bs : List ResolvedType}
    (heads : headIn (a :: as) = headIn (b :: bs)) :
    headAt a = headAt b ∧ headIn as = headIn bs := by
  refine ⟨funext fun path => congrFun heads (0 :: path), funext fun path => ?_⟩
  cases path with
  | nil => rfl
  | cons index path => exact congrFun heads ((index + 1) :: path)

mutual

/-- A type is known by its heads. -/
theorem eq_of_headAt {a b : ResolvedType} (heads : headAt a = headAt b) : a = b := by
  have root : head a = head b := Option.some.inj (congrFun heads [])
  have below : headIn (children a) = headIn (children b) := by
    funext path
    cases path with
    | nil => rfl
    | cons index path => exact congrFun heads (index :: path)
  cases a <;> cases b <;>
    simp only [head, Head.function.injEq, Head.tuple.injEq, Head.named.injEq, Head.union.injEq,
      reduceCtorEq] at root
  case function.function =>
    obtain ⟨first, rest⟩ := headIn_cons_inj below
    rw [eq_of_headAt first, eq_of_headIn root rest]
  case named.named => rw [root.1, eq_of_headIn root.2 below]
  case tuple.tuple | union.union => rw [eq_of_headIn root below]
  all_goals rfl

theorem eq_of_headIn {as bs : List ResolvedType} (lengths : as.length = bs.length)
    (heads : headIn as = headIn bs) : as = bs := by
  cases as <;> cases bs
  case nil.nil => rfl
  case cons.cons a as b bs =>
    obtain ⟨first, rest⟩ := headIn_cons_inj heads
    rw [eq_of_headAt first, eq_of_headIn (Nat.succ.inj lengths) rest]
  all_goals cases lengths

end

theorem mergePartial_eq_some_iff {a b m : ResolvedType} :
    mergePartial a b = some m ↔
      ∀ path, Fit (headAt a path) (headAt b path) ∧
        headAt m path = join (headAt a path) (headAt b path) := by
  have spec := mergePartial_merged a b
  cases result : mergePartial a b with
  | none =>
    rw [result] at spec
    obtain ⟨path, unfit⟩ := spec
    exact iff_of_false (by simp) fun fits => unfit (fits path).1
  | some found =>
    rw [result] at spec
    refine ⟨fun same => Option.some.inj same ▸ spec, fun fits => congrArg some ?_⟩
    exact eq_of_headAt (funext fun path => (spec path).2.trans (fits path).2.symm)

theorem mergePartial_eq_none_iff {a b : ResolvedType} :
    mergePartial a b = none ↔ ∃ path, ¬ Fit (headAt a path) (headAt b path) := by
  refine ⟨fun result => ?_, fun ⟨path, unfit⟩ => ?_⟩
  · have spec := mergePartial_merged a b
    rwa [result] at spec
  · refine Option.eq_none_iff_forall_ne_some.mpr fun m merged => unfit ?_
    exact (mergePartial_eq_some_iff.mp merged path).1

theorem fit_comm (x y : Option Head) : Fit x y ↔ Fit y x := by
  unfold Fit
  grind

theorem fit_assoc (x y z : Option Head) :
    Fit x y ∧ Fit (join x y) z ↔ Fit y z ∧ Fit x (join y z) := by
  cases x <;> cases y <;> cases z <;> simp [Fit, join]
  grind

theorem join_assoc (x y z : Option Head) : join (join x y) z = join x (join y z) := by
  rcases x with _ | found
  · simp
  · rcases y with _ | other
    · simp
    · cases hole : found.isHole <;> cases otherHole : other.isHole <;> cases z <;>
        simp [join, hole, otherHole]

theorem join_comm_of_alike {x y : Option Head}
    (alike : ∀ found ∈ x, ∀ other ∈ y, found = other ∨ found.isHole ≠ other.isHole) :
    join x y = join y x := by
  cases x <;> cases y <;> simp_all [join]
  grind

theorem exists_merge {a b : ResolvedType}
    (fits : ∀ path, Fit (headAt a path) (headAt b path)) : ∃ m, mergePartial a b = some m := by
  by_contra unmerged
  obtain ⟨path, unfit⟩ := mergePartial_eq_none_iff.mp
    (Option.eq_none_iff_forall_ne_some.mpr (not_exists.mp unmerged))
  exact unfit (fits path)

theorem mergePartial_assoc (a b c : ResolvedType) :
    ((mergePartial a b).bind fun m => mergePartial m c) =
      (mergePartial b c).bind (mergePartial a) := by
  ext m
  simp only [Option.bind_eq_some_iff, mergePartial_eq_some_iff]
  constructor
  · rintro ⟨n, first, second⟩
    have fits (path) := (fit_assoc _ _ _).mp ⟨(first path).1, (first path).2 ▸ (second path).1⟩
    obtain ⟨other, merged⟩ := exists_merge fun path => (fits path).1
    rw [mergePartial_eq_some_iff] at merged
    refine ⟨other, merged, fun path => ?_⟩
    rw [(merged path).2, ← join_assoc, ← (first path).2]
    exact ⟨(fits path).2, (second path).2⟩
  · rintro ⟨n, first, second⟩
    have fits (path) := (fit_assoc _ _ _).mpr ⟨(first path).1, (first path).2 ▸ (second path).1⟩
    obtain ⟨other, merged⟩ := exists_merge fun path => (fits path).1
    rw [mergePartial_eq_some_iff] at merged
    refine ⟨other, merged, fun path => ?_⟩
    rw [(merged path).2, join_assoc, ← (first path).2]
    exact ⟨(fits path).2, (second path).2⟩

theorem mergePartial_self_iff {a : ResolvedType} : mergePartial a a = some a ↔ Plain a := by
  rw [mergePartial_eq_some_iff]
  refine forall_congr' fun path => ?_
  cases headAt a path <;> simp [Fit, join]
  grind [Head.of_isHole]

theorem mergePartial_agrees {a b m : ResolvedType} (merged : mergePartial a b = some m) :
    Agrees m a ∧ Agrees m b := by
  rw [mergePartial_eq_some_iff] at merged
  constructor
  · intro path found here solid
    rw [(merged path).2, here, join, solid]
    rfl
  · intro path other there solid
    obtain ⟨fit, joined⟩ := merged path
    rw [joined, there]
    cases here : headAt a path with
    | none => rfl
    | some found =>
      have := fit found here other there
      grind [join]

theorem disagree_none {a b : ResolvedType} (disagree : Disagree a b) :
    mergePartial a b = none ∧ mergePartial b a = none := by
  obtain ⟨path, found, here, other, there, resolved, resolved', differ⟩ := disagree
  have unfit : ¬ Fit (headAt a path) (headAt b path) := by
    intro fit
    rcases fit found here other there with hole | hole | ⟨same, -⟩
    · simp [(Head.of_isHole hole).2] at resolved
    · simp [(Head.of_isHole hole).2] at resolved'
    · exact differ same
  exact ⟨mergePartial_eq_none_iff.mpr ⟨path, unfit⟩,
    mergePartial_eq_none_iff.mpr ⟨path, fun fit => unfit ((fit_comm _ _).mp fit)⟩⟩

/-- Merging is idempotent on a type, symmetric, associative, keeps what either type has and fails
only where the two disagree, exactly if the type has no function and no union and the two disagree
or are alike. -/
theorem partial_types_merge_iff (a b : ResolvedType) :
    (mergePartial a a = some a ∧ mergePartial a b = mergePartial b a ∧
      (∀ c, ((mergePartial a b).bind fun m => mergePartial m c) =
        (mergePartial b c).bind (mergePartial a)) ∧
      (∀ m, mergePartial a b = some m → Agrees m a ∧ Agrees m b) ∧
      (mergePartial a b = none → Disagree a b)) ↔
    Plain a ∧ (Disagree a b ∨ Alike a b) := by
  rw [mergePartial_self_iff]
  constructor
  · rintro ⟨plain, symmetric, -, -, rejected⟩
    refine ⟨plain, ?_⟩
    cases result : mergePartial a b with
    | none => exact .inl (rejected result)
    | some m =>
      refine .inr fun path found here other there => ?_
      obtain ⟨fit, joined⟩ := mergePartial_eq_some_iff.mp result path
      have swapped := (mergePartial_eq_some_iff.mp (symmetric.symm.trans result) path).2
      rw [joined, here, there] at swapped
      have := fit found here other there
      grind [join]
  · rintro ⟨plain, disagree | alike⟩
    · obtain ⟨left, right⟩ := disagree_none disagree
      exact ⟨plain, left.trans right.symm, mergePartial_assoc a b, fun m => mergePartial_agrees,
        fun _ => disagree⟩
    · have fits path : Fit (headAt a path) (headAt b path) := by
        intro found here other there
        have := alike path found here other there
        have := plain path found here
        grind
      refine ⟨plain, ?_, mergePartial_assoc a b, fun m => mergePartial_agrees, fun result => ?_⟩
      · ext m
        simp only [mergePartial_eq_some_iff]
        refine forall_congr' fun path => ?_
        rw [fit_comm, join_comm_of_alike (alike path)]
      · obtain ⟨path, unfit⟩ := mergePartial_eq_none_iff.mp result
        exact absurd (fits path) unfit

/-- `fn() -> Int` does not merge with itself, and which of two holes is left depends on their
order. -/
theorem function_type_not_merged :
    let function : ResolvedType := .function [] (.named (.global 0) [])
    mergePartial function function = none ∧ ¬ Disagree function function ∧
      mergePartial .failed .unresolved ≠ mergePartial .unresolved .failed := by
  refine ⟨by simp [mergePartial], ?_, by simp [mergePartial]⟩
  rintro ⟨path, found, here, other, there, -, -, differ⟩
  exact differ (Option.some.inj (here.symm.trans there))

end Koja.Guarantees.Typecheck
