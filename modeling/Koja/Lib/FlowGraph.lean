import Mathlib.Data.List.Infix
import Mathlib.Logic.Relation

/-!
# Flow graphs: paths, dominators, reducibility, links to a root

A directed graph is an edge relation. A path records the nodes it leaves, so a cycle is a path
back to its start that leaves at least one node. `Dominates` is the textbook notion: the node is
reachable from the entry, and no path from the entry avoids its dominator. The second half is
about a partial map that sends each node to a parent of higher rank: the ancestors of a node are
linearly ordered, so the lowest common ancestor is met by climbing from the lower node.
-/
namespace Koja.Lib

open Relation.ReflTransGen (single cases_head head_induction_on)

universe u
variable {α : Type u}

/-- `Path edge a visited b`: `visited` lists the nodes left on the way from `a` to `b`. -/
inductive Path (edge : α → α → Prop) : α → List α → α → Prop
  | nil {a : α} : Path edge a [] a
  | cons {a b c : α} {visited : List α} :
      edge a b → Path edge b visited c → Path edge a (a :: visited) c

namespace Path

variable {edge other : α → α → Prop} {a b c : α} {visited before after : List α}

theorem append (first : Path edge a before b) (second : Path edge b after c) :
    Path edge a (before ++ after) c := by
  induction first with
  | nil => exact second
  | cons step _ ih => exact .cons step (ih second)

theorem snoc (path : Path edge a visited b) (step : edge b c) : Path edge a (visited ++ [b]) c :=
  path.append (.cons step .nil)

theorem unsnoc (path : Path edge a (visited ++ [b]) c) : Path edge a visited b ∧ edge b c := by
  induction visited generalizing a with
  | nil =>
    cases path with
    | cons step rest =>
      cases rest
      exact ⟨.nil, step⟩
  | cons _ _ ih =>
    cases path with
    | cons step rest => exact ⟨.cons step (ih rest).1, (ih rest).2⟩

theorem mono (weaker : ∀ x y, edge x y → other x y) (path : Path edge a visited b) :
    Path other a visited b := by
  induction path with
  | nil => exact .nil
  | cons step _ ih => exact .cons (weaker _ _ step) ih

/-- A path through nodes with a property, over edges that carry over between such nodes. -/
theorem mono_on {holds : α → Prop} (weaker : ∀ x y, holds x → holds y → edge x y → other x y)
    (path : Path edge a visited b) (all : ∀ x ∈ visited ++ [b], holds x) :
    Path other a visited b := by
  induction path with
  | nil => exact .nil
  | cons step rest ih =>
    have onward := ih fun x inside => all x (by simp_all)
    refine .cons (weaker _ _ (all _ (by simp)) ?_ step) onward
    cases rest with
    | nil | cons => exact all _ (by simp)

theorem head_mem (path : Path edge a visited b) : a ∈ visited ++ [b] := by
  cases path <;> simp

theorem transGen (path : Path edge a visited b) (nonempty : visited ≠ []) :
    Relation.TransGen edge a b := by
  induction path with
  | nil => exact absurd rfl nonempty
  | @cons _ _ _ rest step path ih =>
    cases rest with
    | nil =>
      cases path
      exact .single step
    | cons => exact .head step (ih (by simp))

theorem step_of_infix {x y : α} (path : Path edge a visited b)
    (consecutive : [x, y] <:+: visited ++ [b]) : edge x y := by
  induction path with
  | nil =>
    have := consecutive.length_le
    simp at this
  | @cons a via last rest step path ih =>
    rw [List.cons_append, List.infix_cons_iff] at consecutive
    rcases consecutive with atFront | later
    · have next : ∃ tail, rest ++ [last] = via :: tail := by
        cases path with
        | nil => exact ⟨[], rfl⟩
        | cons => exact ⟨_, rfl⟩
      obtain ⟨tail, isNext⟩ := next
      rw [isNext, List.cons_prefix_cons, List.cons_prefix_cons] at atFront
      obtain ⟨rfl, rfl, _⟩ := atFront
      exact step
    · exact ih later

/-- A path over two kinds of edges uses only the first kind, or it has a first edge of the
second kind. -/
theorem split (path : Path (fun x y => edge x y ∨ other x y) a visited b) : Path edge a visited b ∨
      ∃ before x y after, Path (fun x y => edge x y ∨ other x y) a before x ∧ other x y ∧
        Path (fun x y => edge x y ∨ other x y) y after b ∧ visited = before ++ x :: after := by
  induction path with
  | nil => exact .inl .nil
  | cons step rest ih =>
    rcases step with step | step
    · rcases ih with pure | ⟨before, x, y, after, first, crossing, second, rfl⟩
      · exact .inl (.cons step pure)
      · exact .inr ⟨_ :: before, x, y, after, .cons (.inl step) first, crossing, second, rfl⟩
    · exact .inr ⟨[], _, _, _, .nil, step, rest, rfl⟩

theorem of_reflTransGen (reaches : Relation.ReflTransGen edge a b) :
    ∃ visited, Path edge a visited b := by
  induction reaches with
  | refl => exact ⟨[], .nil⟩
  | tail _ step ih =>
    obtain ⟨visited, path⟩ := ih
    exact ⟨_, path.snoc step⟩

end Path

/-- Every path from the entry to `b` meets `d`, and there is such a path. -/
def Dominates (edge : α → α → Prop) (entry d b : α) : Prop :=
  (∃ visited, Path edge entry visited b) ∧
    ∀ visited, Path edge entry visited b → d ∈ visited ∨ d = b

/-- The proper dominator of `b` that every other proper dominator of `b` dominates. -/
def ImmediateDominator (edge : α → α → Prop) (entry d b : α) : Prop :=
  d ≠ b ∧ Dominates edge entry d b ∧
    ∀ e, e ≠ b → Dominates edge entry e b → Dominates edge entry e d

namespace Dominates

variable {edge : α → α → Prop} {entry d b x p : α}

theorem of_entry (reached : ∃ visited, Path edge entry visited b) :
    Dominates edge entry entry b := by
  refine ⟨reached, fun visited path => ?_⟩
  cases path with
  | nil => exact .inr rfl
  | cons => exact .inl (List.mem_cons_self ..)

/-- A proper dominator of a node dominates every reachable predecessor of it. -/
theorem pred (dominates : Dominates edge entry d b) (proper : d ≠ b) (step : edge p b)
    (reached : ∃ visited, Path edge entry visited p) : Dominates edge entry d p := by
  refine ⟨reached, fun visited path => ?_⟩
  rcases dominates.2 _ (path.snoc step) with on | rfl
  · simpa using on
  · exact absurd rfl proper

/-- A dominator of `x` that a path from `b` to `x` avoids dominates `b`. -/
theorem of_avoiding {visited : List α} (dominates : Dominates edge entry d x)
    (reached : ∃ visited, Path edge entry visited b) (path : Path edge b visited x)
    (avoided : d ∉ visited) (apart : d ≠ x) : Dominates edge entry d b := by
  refine ⟨reached, fun before toB => ?_⟩
  rcases dominates.2 _ (toB.append path) with on | same
  · rcases List.mem_append.1 on with on | on
    · exact .inl on
    · exact absurd on avoided
  · exact absurd same apart

end Dominates

/-- Every cycle has an edge into a dominator of that edge's source. -/
def Reducible (edge : α → α → Prop) (entry : α) : Prop :=
  ∀ a visited, Path edge a visited a → visited ≠ [] →
    ∃ source target, [source, target] <:+: visited ++ [a] ∧ Dominates edge entry target source

/-- `d` is `b` or one of its ancestors under the parent links `up`. -/
def Above (up : α → Option α) : α → α → Prop :=
  Relation.ReflTransGen fun x y => up x = some y

/-- Parent links climb: a parent has a higher rank, the root apart. -/
def Climbing (up : α → Option α) (rank : α → Nat) (root : α) : Prop :=
  ∀ b parent, up b = some parent → b ≠ root → rank b < rank parent

namespace Above

variable {up : α → Option α} {rank : α → Nat} {root a b c d : α}

theorem refl : Above up a a :=
  Relation.ReflTransGen.refl

theorem trans (first : Above up a b) (second : Above up b c) : Above up a c :=
  Relation.ReflTransGen.trans first second

theorem of_link (link : up a = some b) : Above up a b :=
  single link

theorem of_parent (above : Above up a c) (proper : c ≠ a) (link : up a = some b) :
    Above up b c := by
  rcases cases_head above with rfl | ⟨parent, first, rest⟩
  · exact absurd rfl proper
  · rw [link, Option.some.injEq] at first
    exact first ▸ rest

theorem of_root (loop : up root = some root) (above : Above up root d) : d = root := by
  induction above with
  | refl => rfl
  | tail _ link ih =>
    rw [ih, loop, Option.some.injEq] at link
    exact link.symm

theorem rank_le (climbing : Climbing up rank root) (loop : up root = some root)
    (above : Above up a b) : rank a ≤ rank b := by
  induction above with
  | refl => exact le_rfl
  | @tail x y _ link ih =>
    by_cases top : x = root
    · subst top
      rw [loop, Option.some.injEq] at link
      exact link ▸ ih
    · exact ih.trans (climbing x y link top).le

theorem rank_lt (climbing : Climbing up rank root) (loop : up root = some root)
    (above : Above up a b) (proper : b ≠ a) :
    rank a < rank b := by
  rcases cases_head above with rfl | ⟨parent, link, rest⟩
  · exact absurd rfl proper
  · by_cases top : a = root
    · subst top
      exact absurd (of_root loop above) proper
    · exact (climbing a parent link top).trans_le (rank_le climbing loop rest)

/-- Two maps that agree from some rank upwards have the same ancestors there. -/
theorem congr_upwards (climbing : Climbing up rank root) {other : α → Option α} {bound : Nat}
    (loop : up root = some root)
    (agree : ∀ x, bound ≤ rank x → other x = up x) (high : bound ≤ rank a) :
    Above other a b ↔ Above up a b := by
  have climbs : ∀ {x y}, up x = some y → rank x ≤ rank y :=
    fun link => rank_le climbing loop (of_link link)
  constructor
  · intro above
    induction above using head_induction_on with
    | refl => exact refl
    | @head x y link rest ih =>
      have step : up x = some y := (agree x high).symm.trans link
      exact (of_link step).trans (ih (high.trans (climbs step)))
  · intro above
    induction above using head_induction_on with
    | refl => exact refl
    | @head x y link rest ih =>
      exact (of_link ((agree x high).trans link)).trans (ih (high.trans (climbs link)))

end Above

end Koja.Lib
