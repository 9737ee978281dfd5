import Mathlib.Data.Set.Basic

/-!
# A forest whose deaths cascade

Nodes are born under a live parent, die, and have their death announced some time
later. The announcement dooms the children the node had, and a doomed node stays
listed until somebody has seen to it. No child of a dead node is ever out of sight.
-/
namespace Koja.Lib

/-- Where a node stands. A node keeps its recorded parent until its death has been
announced, and only then may the name be used again. -/
inductive Standing (P : Type) where
  | absent
  | live (parent : P)
  | fallen (parent : P)

structure Forest (P : Type) where
  standing : P → Standing P
  children : P → Set P
  doomed : Set P

namespace Forest

variable {P : Type} {origin : P} {f after : Forest P}

def Live (f : Forest P) (node : P) : Prop := ∃ parent, f.standing node = .live parent

def place [DecidableEq P] (f : Forest P) (node : P) (standing : Standing P) : P → Standing P :=
  Function.update f.standing node standing

theorem place_self [DecidableEq P] {f : Forest P} {node : P} {standing : Standing P} :
    f.place node standing node = standing :=
  Function.update_self _ _ _

theorem place_of_ne [DecidableEq P] {f : Forest P} {node other : P} {standing : Standing P}
    (apart : other ≠ node) :
    f.place node standing other = f.standing other :=
  Function.update_of_ne apart _ _

theorem place_ne_absent [DecidableEq P] {f : Forest P} {node other : P} {standing : Standing P}
    (present : f.standing other ≠ .absent) (placed : standing ≠ .absent) :
    f.place node standing other ≠ .absent := by
  unfold place
  rw [Function.update_apply]
  split <;> assumption

/-- The children sets once `parent`, if there is one, has gained `node`. -/
def adopt (f : Forest P) (parent : Option P) (node : P) : P → Set P :=
  fun other => { child | child ∈ f.children other ∨ parent = some other ∧ child = node }

/-- The children sets once `node` has left its parent's and lost its own. -/
def bereave (f : Forest P) (node parent : P) : P → Set P :=
  fun other => { child | child ∈ f.children other ∧ other ≠ node ∧
    ¬ (other = parent ∧ child = node) }

/-- One step of the forest; `origin` is the parent recorded for a root. -/
inductive Step [DecidableEq P] (origin : P) : Forest P → Forest P → Prop
  | born {f : Forest P} (node : P) (parent : Option P) (new : f.standing node = .absent)
      (alive : ∀ above, parent = some above → f.Live above) :
      Step origin f ⟨f.place node (.live (parent.getD origin)), f.adopt parent node, f.doomed⟩
  | died {f : Forest P} (node parent : P) (alive : f.standing node = .live parent) :
      Step origin f ⟨f.place node (.fallen parent), f.children, f.doomed⟩
  | announced {f : Forest P} (node parent : P) (fallen : f.standing node = .fallen parent) :
      Step origin f ⟨f.place node .absent, f.bereave node parent, f.doomed ∪ f.children node⟩
  | seenTo {f : Forest P} (doomed : Set P) (dead : ∀ node ∈ f.doomed, f.Live node → node ∈ doomed) :
      Step origin f ⟨f.standing, f.children, doomed⟩

/-- Every child is in sight: among the children of a parent whose death is not
announced, or doomed. And children sets hold nothing else. -/
structure Tended (origin : P) (f : Forest P) : Prop where
  inSight : ∀ child parent, f.standing child = .live parent → parent ≠ origin →
    child ∈ f.children parent ∧ f.standing parent ≠ .absent ∨ child ∈ f.doomed
  parented : ∀ child parent, child ∈ f.children parent → f.standing parent ≠ .absent
  exact : ∀ child parent, child ∈ f.children parent →
    f.standing child = .live parent ∨ f.standing child = .fallen parent

theorem Tended.born [DecidableEq P] (tended : Tended origin f) {node : P} {parent : Option P}
    (new : f.standing node = .absent) (alive : ∀ above, parent = some above → f.Live above) :
    Tended origin ⟨f.place node (.live (parent.getD origin)), f.adopt parent node, f.doomed⟩ := by
  have above : ∀ other, parent = some other → f.standing other ≠ .absent := by
    intro other under absent
    obtain ⟨_, live⟩ := alive other under
    rw [absent] at live
    cases live
  refine ⟨?_, ?_, ?_⟩
  · intro child under live notOrigin
    by_cases here : child = node
    · subst here
      change f.place child _ child = _ at live
      rw [place_self] at live
      cases parent with
      | none =>
        cases live
        exact absurd rfl notOrigin
      | some above' =>
        cases live
        exact .inl ⟨.inr ⟨rfl, rfl⟩, place_ne_absent (above above' rfl) nofun⟩
    · change f.place node _ child = _ at live
      rw [place_of_ne here] at live
      rcases tended.inSight child under live notOrigin with ⟨listed, standing⟩ | doomed
      · exact .inl ⟨.inl listed, place_ne_absent standing nofun⟩
      · exact .inr doomed
  · intro child under listed
    refine place_ne_absent ?_ nofun
    rcases listed with old | ⟨here, -⟩
    · exact tended.parented child under old
    · exact above under here
  · intro child under listed
    change f.place node _ child = _ ∨ f.place node _ child = _
    rcases listed with old | ⟨here, added⟩
    · have placed := tended.exact child under old
      have here : child ≠ node := by
        rintro rfl
        simp [new] at placed
      rw [place_of_ne here]
      exact placed
    · subst added here
      left
      exact place_self

theorem Tended.died [DecidableEq P] (tended : Tended origin f) {node parent : P}
    (alive : f.standing node = .live parent) :
    Tended origin ⟨f.place node (.fallen parent), f.children, f.doomed⟩ := by
  have moved : ∀ other, other = node ∧ f.place node (.fallen parent) other = .fallen parent ∨
      other ≠ node ∧ f.place node (.fallen parent) other = f.standing other := by
    intro other
    by_cases here : other = node
    · subst here
      exact .inl ⟨rfl, place_self⟩
    · exact .inr ⟨here, place_of_ne here⟩
  refine ⟨?_, ?_, ?_⟩
  · intro child under live notOrigin
    change f.place node _ child = _ at live
    rcases moved child with ⟨-, here⟩ | ⟨-, same⟩
    · rw [here] at live
      cases live
    · rw [same] at live
      rcases tended.inSight child under live notOrigin with ⟨listed, standing⟩ | doomed
      · exact .inl ⟨listed, place_ne_absent standing nofun⟩
      · exact .inr doomed
  · intro child under listed
    exact place_ne_absent (tended.parented child under listed) nofun
  · intro child under listed
    have placed := tended.exact child under listed
    change f.place node _ child = _ ∨ f.place node _ child = _
    rcases moved child with ⟨rfl, here⟩ | ⟨-, same⟩
    · right
      rw [here]
      rw [alive] at placed
      simpa using placed
    · rw [same]
      exact placed

theorem Tended.announced [DecidableEq P] (tended : Tended origin f) {node parent : P}
    (fallen : f.standing node = .fallen parent) :
    Tended origin ⟨f.place node .absent, f.bereave node parent, f.doomed ∪ f.children node⟩ := by
  have apart : ∀ other, other ≠ node → f.place node .absent other = f.standing other :=
    fun other here => place_of_ne here
  -- a listed child is never the announced node: it would stand fallen under this parent
  have notSelf : ∀ child under, child ∈ f.bereave node parent under → child ≠ node := by
    rintro child under ⟨listed, -, kept⟩ rfl
    rcases tended.exact child under listed with live | fell
    · rw [fallen] at live
      cases live
    · rw [fallen] at fell
      cases fell
      exact kept ⟨rfl, rfl⟩
  refine ⟨?_, ?_, ?_⟩
  · intro child under live notOrigin
    have here : child ≠ node := by
      rintro rfl
      change f.place child _ child = _ at live
      rw [place_self] at live
      cases live
    change f.place node _ child = _ at live
    rw [apart child here] at live
    rcases tended.inSight child under live notOrigin with ⟨listed, standing⟩ | doomed
    · by_cases below : under = node
      · subst below
        exact .inr (.inr listed)
      · refine .inl ⟨⟨listed, below, fun self => here self.2⟩, ?_⟩
        change f.place node _ under ≠ _
        rw [apart under below]
        exact standing
    · exact .inr (.inl doomed)
  · intro child under listed
    change f.place node _ under ≠ _
    rw [apart under listed.2.1]
    exact tended.parented child under listed.1
  · intro child under listed
    change f.place node _ child = _ ∨ f.place node _ child = _
    rw [apart child (notSelf child under listed)]
    exact tended.exact child under listed.1

theorem Tended.seenTo (tended : Tended origin f) {doomed : Set P}
    (dead : ∀ node ∈ f.doomed, f.Live node → node ∈ doomed) :
    Tended origin ⟨f.standing, f.children, doomed⟩ := by
  refine ⟨?_, tended.parented, tended.exact⟩
  intro child under live notOrigin
  rcases tended.inSight child under live notOrigin with listed | waiting
  · exact .inl listed
  · exact .inr (dead child waiting ⟨under, live⟩)

theorem Tended.step [DecidableEq P] (tended : Tended origin f) (step : Step origin f after) :
    Tended origin after := by
  cases step with
  | born _ _ new alive => exact tended.born new alive
  | died _ _ alive => exact tended.died alive
  | announced _ _ fallen => exact tended.announced fallen
  | seenTo _ dead => exact tended.seenTo dead

theorem Tended.steps [DecidableEq P] (tended : Tended origin f)
    (steps : Relation.ReflTransGen (Step origin) f after) : Tended origin after := by
  induction steps with
  | refl => exact tended
  | tail _ step ih => exact ih.step step

/-- Once no death is unannounced and nobody is doomed, every child of the forest has a
live parent, and the children sets are exactly the live children. -/
theorem Tended.settled (tended : Tended origin f)
    (announced : ∀ node parent, f.standing node ≠ .fallen parent) (idle : f.doomed = ∅) :
    (∀ child parent, f.standing child = .live parent → parent ≠ origin → f.Live parent) ∧
    (∀ child parent, child ∈ f.children parent → f.Live parent) ∧
    ∀ child parent, parent ≠ origin →
      (child ∈ f.children parent ↔ f.standing child = .live parent) := by
  have live_of_present : ∀ node, f.standing node ≠ .absent → f.Live node := by
    intro node present
    cases standing : f.standing node with
    | absent => exact absurd standing present
    | live parent => exact ⟨parent, standing⟩
    | fallen parent => exact absurd standing (announced node parent)
  have listed : ∀ child parent, f.standing child = .live parent → parent ≠ origin →
      child ∈ f.children parent ∧ f.standing parent ≠ .absent := by
    intro child parent live notOrigin
    rcases tended.inSight child parent live notOrigin with listed | doomed
    · exact listed
    · rw [idle] at doomed
      exact doomed.elim
  refine ⟨?_, ?_, ?_⟩
  · intro child parent live notOrigin
    exact live_of_present parent (listed child parent live notOrigin).2
  · intro child parent member
    exact live_of_present parent (tended.parented child parent member)
  · intro child parent notOrigin
    constructor
    · intro member
      rcases tended.exact child parent member with live | fallen
      · exact live
      · exact absurd fallen (announced child parent)
    · intro live
      exact (listed child parent live notOrigin).1

end Forest

end Koja.Lib
