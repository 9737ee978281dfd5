import Koja.Guarantees.Ir.Postorder
import Mathlib.Algebra.Order.BigOperators.Group.List
import Mathlib.Algebra.Order.Ring.Nat

/-!
# The iterative dominator analysis

`computeImmediateDominators` always returns, and the chain of a reachable block in the tree it
returns holds every dominator of that block.

- `Links` is the invariant of the partially built tree: parents climb in postorder index, each is
  reached from above by edges that fall in index, and chains hold every dominator (`covers`).
- `RoundState` follows one iteration of `while changed`; `Refines` says that an iteration only
  removes ancestors, so the indices of the parents rise and the loop stops.
-/
namespace Koja.Guarantees.Ir

open Koja.Lib Koja.Source.Ir List
open Function (update update_of_ne update_self)
open Relation.ReflTransGen (head_induction_on cases_head)
open Above (of_link)

section
variable (order : List IRBlockId) (preds : IRBlockId → List IRBlockId) (entry : IRBlockId)

/-- An edge towards a lower postorder index. -/
def Falls (source target : IRBlockId) : Prop :=
  source ∈ preds target ∧ order.idxOf target < order.idxOf source

/-- The invariant of a partially built dominator tree. -/
structure Links (idoms : ImmediateDominators) : Prop where
  root : idoms entry = some entry
  inside : ∀ b, (idoms b).isSome → b ∈ order
  known : ∀ b parent, idoms b = some parent → (idoms parent).isSome
  climbs : Climbing idoms order.idxOf entry
  falls : ∀ b parent, idoms b = some parent → Relation.ReflTransGen (Falls order preds) parent b
  covers : ∀ b d, (idoms b).isSome → Dominates (fun p b => p ∈ preds b) entry d b → Above idoms b d

/-- `n` is the lowest common ancestor of the predecessors that have a parent. -/
def Meets (idoms : ImmediateDominators) (predecessors : List IRBlockId) (n : IRBlockId) : Prop :=
  (∀ p ∈ predecessors, (idoms p).isSome → Above idoms p n) ∧
    ∀ d, (∀ p ∈ predecessors, (idoms p).isSome → Above idoms p d) → Above idoms n d

end

section
variable {order : List IRBlockId} {preds : IRBlockId → List IRBlockId} {entry : IRBlockId}
  {idoms : ImmediateDominators} {b n d q x : IRBlockId}

theorem falls_path (path : Relation.ReflTransGen (Falls order preds) b x) :
    (∃ visited, Path (fun p b => p ∈ preds b) b visited x ∧
      ∀ y ∈ visited, order.idxOf y ≤ order.idxOf b) ∧ order.idxOf x ≤ order.idxOf b := by
  induction path with
  | refl => exact ⟨⟨[], .nil, by simp⟩, le_rfl⟩
  | @tail y z _ step ih =>
    obtain ⟨⟨visited, path, low⟩, lowEnd⟩ := ih
    refine ⟨⟨visited ++ [y], path.snoc step.1, fun w inside => ?_⟩, step.2.le.trans lowEnd⟩
    rcases mem_append.1 inside with inside | inside
    · exact low w inside
    · exact mem_singleton.1 inside ▸ lowEnd

namespace Links

theorem known_above (links : Links order preds entry idoms) (start : (idoms b).isSome)
    (above : Above idoms b d) : (idoms d).isSome := by
  induction above with
  | refl => exact start
  | tail _ link => exact links.known _ _ link

theorem falls_above (links : Links order preds entry idoms) (above : Above idoms x b) :
    Relation.ReflTransGen (Falls order preds) b x := by
  induction above with
  | refl => exact .refl
  | tail _ link ih => exact (links.falls _ _ link).trans ih

theorem rank_le (links : Links order preds entry idoms) (above : Above idoms x b) :
    order.idxOf x ≤ order.idxOf b :=
  above.rank_le links.climbs links.root

theorem rank_lt (links : Links order preds entry idoms) (above : Above idoms x b) (proper : b ≠ x) :
    order.idxOf x < order.idxOf b :=
  above.rank_lt links.climbs links.root proper

end Links

/-- The two finger walks meet at the lowest common ancestor. -/
theorem intersect_spec (numbering : Numbering (fun p b => p ∈ preds b) entry order)
    (links : Links order preds entry idoms) (steps : Nat) (finger1 finger2 : IRBlockId)
    (known1 : (idoms finger1).isSome)
    (known2 : (idoms finger2).isSome) (enough : (order.idxOf entry - order.idxOf finger1) +
      (order.idxOf entry - order.idxOf finger2) < steps) :
    ∃ n, intersect idoms order.idxOf steps finger1 finger2 = some n ∧
      Above idoms finger1 n ∧ Above idoms finger2 n ∧
      ∀ d, Above idoms finger1 d → Above idoms finger2 d → Above idoms n d := by
  induction steps generalizing finger1 finger2 with
  | zero => omega
  | succ steps ih =>
    have top1 := numbering.top _ (links.inside _ known1)
    have top2 := numbering.top _ (links.inside _ known2)
    obtain ⟨parent1, link1⟩ := Option.isSome_iff_exists.1 known1
    obtain ⟨parent2, link2⟩ := Option.isSome_iff_exists.1 known2
    rw [intersect]
    split
    · rename_i same
      subst same
      exact ⟨finger1, rfl, .refl, .refl, fun d above _ => above⟩
    · rename_i apart
      split
      · have notEntry : finger1 ≠ entry := by rintro rfl; omega
        have climbs : order.idxOf finger1 < order.idxOf parent1 := links.climbs _ _ link1 notEntry
        obtain ⟨n, found, above1, above2, lowest⟩ :=
          ih parent1 finger2 (links.known _ _ link1) known2 (by omega)
        refine ⟨n, by simp [link1, found], (of_link link1).trans above1, above2, ?_⟩
        intro d common1 common2
        have proper : d ≠ finger1 := by
          rintro rfl
          exact absurd (links.rank_le common2) (by omega)
        exact lowest d (common1.of_parent proper link1) common2
      · split
        · have notEntry : finger2 ≠ entry := by rintro rfl; omega
          have climbs : order.idxOf finger2 < order.idxOf parent2 :=
            links.climbs _ _ link2 notEntry
          obtain ⟨n, found, above1, above2, lowest⟩ :=
            ih finger1 parent2 known1 (links.known _ _ link2) (by omega)
          refine ⟨n, by simp [link2, found], above1, (of_link link2).trans above2, ?_⟩
          intro d common1 common2
          have proper : d ≠ finger2 := by
            rintro rfl
            exact absurd (links.rank_le common1) (by omega)
          exact lowest d common1 (common2.of_parent proper link2)
        · exact absurd ((idxOf_inj (links.inside _ known1)).1 (by omega)) apart

/-- Folding `intersect` over several predecessors meets all of them. -/
theorem intersectAll_spec (numbering : Numbering (fun p b => p ∈ preds b) entry order)
    (links : Links order preds entry idoms) (others : List IRBlockId) (first : IRBlockId)
    (knownFirst : (idoms first).isSome) (knownOthers : ∀ p ∈ others, (idoms p).isSome) :
    ∃ n, others.foldlM
        (fun new other => intersect idoms order.idxOf (2 * order.length + 1) other new) first =
          some n ∧
      (∀ p ∈ first :: others, Above idoms p n) ∧
      ∀ d, (∀ p ∈ first :: others, Above idoms p d) → Above idoms n d := by
  induction others generalizing first with
  | nil => exact ⟨first, rfl, by simp [Above.refl], fun d above => above first (by simp)⟩
  | cons other _ ih =>
    have bound : order.idxOf entry < order.length := idxOf_lt_length_of_mem numbering.entry_mem
    obtain ⟨m, met, aboveOther, aboveFirst, lowest⟩ :=
      intersect_spec numbering links (2 * order.length + 1) other first
        (knownOthers other (by simp)) knownFirst (by omega)
    obtain ⟨n, found, aboveAll, lowestAll⟩ := ih m (links.known_above knownFirst aboveFirst)
      fun p inside => knownOthers p (by simp [inside])
    have aboveM := aboveAll m (by simp)
    refine ⟨n, by simp [met, found], ?_, fun d above => ?_⟩
    · intro p inside
      simp only [mem_cons] at inside
      rcases inside with rfl | rfl | inside
      · exact aboveFirst.trans aboveM
      · exact aboveOther.trans aboveM
      · exact aboveAll p (by simp [inside])
    · refine lowestAll d fun p inside => ?_
      rcases mem_cons.1 inside with rfl | inside
      · exact lowest d (above other (by simp)) (above first (by simp))
      · exact above p (by simp [inside])

/-- One block's turn: its parent becomes the lowest common ancestor of its predecessors. -/
theorem refineBlock_spec (numbering : Numbering (fun p b => p ∈ preds b) entry order)
    (links : Links order preds entry idoms) (changed : Bool)
    (notEntry : b ≠ entry) (isPred : q ∈ preds b) (knownPred : (idoms q).isSome) :
    ∃ n, refineBlock order preds entry (idoms, changed) b =
        some (update idoms b (some n), changed || decide (idoms b ≠ some n)) ∧
      Meets idoms (preds b) n := by
  unfold refineBlock
  rw [if_neg notEntry]
  generalize known : (preds b).filter (fun p => (idoms p).isSome) = list
  have member : ∀ p, p ∈ list ↔ p ∈ preds b ∧ (idoms p).isSome := by
    intro p
    rw [← known, mem_filter]
  match list, member with
  | [], member => exact absurd ((member q).2 ⟨isPred, knownPred⟩) (by simp)
  | first :: others, member =>
    obtain ⟨n, found, aboveAll, lowest⟩ := intersectAll_spec numbering links others first
      ((member first).1 (by simp)).2 fun p inside => ((member p).1 (by simp [inside])).2
    refine ⟨n, ?_, fun p inPreds isKnown => aboveAll p ((member p).2 ⟨inPreds, isKnown⟩),
      fun d above => lowest d fun p inside => above p ((member p).1 inside).1
        ((member p).1 inside).2⟩
    simp only [found]
    by_cases same : idoms b = some n
    · simp [same]
    · simp [same]

/-- Rehanging `b` changes only the ancestors reached through `b`. -/
theorem above_update (above : Above idoms x d) : Above (update idoms b (some n)) x d ∨
      (Above idoms x b ∧ Above (update idoms b (some n)) x b ∧ Above idoms b d ∧
        d ≠ b) := by
  induction above using head_induction_on with
  | refl => exact .inl .refl
  | @head y z link rest ih =>
    by_cases atB : y = b
    · subst atB
      by_cases same : d = y
      · exact .inl (same ▸ .refl)
      · exact .inr ⟨.refl, .refl, (of_link link).trans rest, same⟩
    · have step : update idoms b (some n) y = some z := by
        rw [update_of_ne atB, link]
      rcases ih with kept | ⟨toB, keptToB, onward, proper⟩
      · exact .inl ((of_link step).trans kept)
      · exact .inr ⟨(of_link link).trans toB, (of_link step).trans keptToB, onward,
          proper⟩

theorem update_cases {parent : IRBlockId} (link : update idoms b (some n) x = some parent) :
    x = b ∧ parent = n ∨ x ≠ b ∧ idoms x = some parent := by
  by_cases atB : x = b
  · rw [atB, update_self, Option.some.injEq] at link
    exact .inl ⟨atB, link.symm⟩
  · rw [update_of_ne atB] at link
    exact .inr ⟨atB, link⟩

/-- Hanging a block under the meet of its predecessors keeps the invariant. -/
theorem Links.update (numbering : Numbering (fun p b => p ∈ preds b) entry order)
    (links : Links order preds entry idoms) (inOrder : b ∈ order) (notEntry : b ≠ entry)
    (isPred : q ∈ preds b) (knownPred : (idoms q).isSome)
    (above : order.idxOf b < order.idxOf q) (meets : Meets idoms (preds b) n) :
    Links order preds entry (update idoms b (some n)) := by
  have predAbove : Above idoms q n := meets.1 q isPred knownPred
  have knownN : (idoms n).isSome := links.known_above knownPred predAbove
  have higher : order.idxOf b < order.idxOf n := above.trans_le (links.rank_le predAbove)
  have agree : ∀ y, order.idxOf b + 1 ≤ order.idxOf y →
      Function.update idoms b (some n) y = idoms y := by
    intro y high
    exact update_of_ne (by rintro rfl; omega) _ _
  have climbs : Climbing (Function.update idoms b (some n)) order.idxOf entry := by
    intro y parent link apart
    rcases update_cases link with ⟨rfl, rfl⟩ | ⟨_, link⟩
    · exact higher
    · exact links.climbs y parent link apart
  have coversB : ∀ d, Dominates (fun p b => p ∈ preds b) entry d b →
      Above (Function.update idoms b (some n)) b d := by
    intro d dominates
    by_cases proper : d = b
    · exact proper ▸ .refl
    · have common : Above idoms n d := meets.2 d fun p inPreds isKnown =>
        links.covers p d isKnown
          (dominates.pred proper inPreds (numbering.reached p (links.inside p isKnown)))
      have kept := (Above.congr_upwards links.climbs links.root agree higher).2 common
      exact (of_link (update_self ..)).trans kept
  refine ⟨?_, ?_, ?_, climbs, ?_, ?_⟩
  · rw [update_of_ne (Ne.symm notEntry)]
    exact links.root
  · intro y isKnown
    by_cases atB : y = b
    · exact atB ▸ inOrder
    · rw [update_of_ne atB] at isKnown
      exact links.inside y isKnown
  · intro y parent link
    by_cases parentB : parent = b
    · simp [parentB]
    · rw [update_of_ne parentB]
      rcases update_cases link with ⟨rfl, rfl⟩ | ⟨_, link⟩
      · exact knownN
      · exact links.known y parent link
  · intro y parent link
    rcases update_cases link with ⟨rfl, rfl⟩ | ⟨_, link⟩
    · exact (links.falls_above predAbove).tail ⟨isPred, above⟩
    · exact links.falls y parent link
  · intro y d isKnown dominates
    by_cases atB : y = b
    · subst atB
      exact coversB d dominates
    · rw [update_of_ne atB] at isKnown
      rcases above_update (links.covers y d isKnown dominates) with kept | found
      · exact kept
      · -- The old chain passes `b`, and falling edges lead from `b` back to `y` below `d`.
        obtain ⟨toB, keptToB, onward, proper⟩ := found
        have climb := links.rank_lt onward proper
        obtain ⟨⟨visited, path, low⟩, lowEnd⟩ := falls_path (links.falls_above toB)
        have avoided : d ∉ visited := fun on => absurd (low d on) (by omega)
        have apart : d ≠ y := by rintro rfl; omega
        exact keptToB.trans (coversB d
          (dominates.of_avoiding (numbering.reached b inOrder) path avoided apart))

end

section
variable (order : List IRBlockId) (preds : IRBlockId → List IRBlockId) (entry : IRBlockId)

/-- The tree a block's turn sees: blocks above it already rehung, the others as before. -/
def mixed (before after : ImmediateDominators) (b : IRBlockId) : ImmediateDominators :=
  fun x => if order.idxOf b < order.idxOf x then after x else before x

/-- An iteration from `before` in which the blocks of `finished` had their turn. -/
structure RoundState (before : ImmediateDominators) (finished : List IRBlockId)
    (state : ImmediateDominators × Bool) : Prop where
  links : Links order preds entry state.1
  done : ∀ b ∈ finished, (state.1 b).isSome
  rest : ∀ b, b ∉ finished → state.1 b = before b
  met : ∀ b ∈ finished, b ≠ entry →
    ∃ n, state.1 b = some n ∧ Meets (mixed order before state.1 b) (preds b) n
  moved : state.2 = true → ∃ b ∈ order, state.1 b ≠ before b
  still : state.2 = false → state.1 = before

end

section
variable {order finished rest : List IRBlockId} {preds : IRBlockId → List IRBlockId}
  {entry b n x : IRBlockId} {first before after : ImmediateDominators} {flag : Bool}
  {state : ImmediateDominators × Bool}

theorem idxOf_turn (nodup : order.Nodup) (turn : order.reverse = finished ++ b :: rest) :
    (∀ x ∈ finished, order.idxOf b < order.idxOf x) ∧
      ∀ x ∈ order, order.idxOf b < order.idxOf x → x ∈ finished := by
  have listed : order = rest.reverse ++ b :: finished.reverse := by
    rw [← reverse_inj, turn]
    simp
  rw [listed] at nodup ⊢
  obtain ⟨_, tailNodup, disjoint⟩ := nodup_append.1 nodup
  have notBefore : ∀ x ∈ b :: finished.reverse, x ∉ rest.reverse :=
    fun x inside earlier => disjoint x earlier x inside rfl
  have atB : (rest.reverse ++ b :: finished.reverse).idxOf b = rest.length := by
    rw [idxOf_append_of_notMem (notBefore b (by simp))]
    simp
  rw [atB]
  constructor
  · intro x inside
    have apart : b ≠ x := by
      rintro rfl
      exact (nodup_cons.1 tailNodup).1 (by simpa using inside)
    rw [idxOf_append_of_notMem (notBefore x (by simp [inside])), idxOf_cons_ne _ apart]
    simp
  · intro x inside higher
    rcases mem_append.1 inside with early | late
    · rw [idxOf_append_of_mem early] at higher
      have := idxOf_lt_length_of_mem early
      simp at this
      omega
    · rcases mem_cons.1 late with rfl | late
      · omega
      · simpa using late

theorem round_turn (numbering : Numbering (fun p b => p ∈ preds b) entry order)
    (turn : order.reverse = finished ++ b :: rest)
    (round : RoundState order preds entry before finished state) :
    ∃ next, refineBlock order preds entry state b = some next ∧
      RoundState order preds entry before (finished ++ [b]) next := by
  obtain ⟨idoms, changed⟩ := state
  have inOrder : b ∈ order := by rw [← mem_reverse, turn]; simp
  obtain ⟨above, finishedAbove⟩ := idxOf_turn numbering.nodup turn
  by_cases isEntry : b = entry
  · subst isEntry
    refine ⟨(idoms, changed), by simp [refineBlock], round.links, ?_, ?_, ?_, round.moved,
      round.still⟩
    · intro x inside
      rcases mem_append.1 inside with inside | inside
      · exact round.done x inside
      · rw [mem_singleton.1 inside, round.links.root]
        rfl
    · exact fun x outside => round.rest x fun inside => outside (by simp [inside])
    · intro x inside apart
      rcases mem_append.1 inside with inside | inside
      · exact round.met x inside apart
      · exact absurd (mem_singleton.1 inside) apart
  · obtain ⟨q, inOrderQ, isPred, higher⟩ := numbering.parent b inOrder isEntry
    have knownQ := round.done q (finishedAbove q inOrderQ higher)
    have pending : b ∉ finished := fun inside => absurd (above b inside) (lt_irrefl _)
    obtain ⟨n, refined, meets⟩ :=
      refineBlock_spec numbering round.links changed isEntry isPred knownQ
    refine ⟨_, refined,
      round.links.update numbering inOrder isEntry isPred knownQ higher meets, ?_, ?_, ?_, ?_, ?_⟩
    · intro x inside
      by_cases atB : x = b
      · simp [atB]
      · simp only [update_of_ne atB]
        exact round.done x (by simpa [atB] using inside)
    · intro x outside
      have atB : x ≠ b := by rintro rfl; simp at outside
      simp only [update_of_ne atB]
      exact round.rest x fun inside => outside (by simp [inside])
    · intro x inside apart
      rcases mem_append.1 inside with earlier | inside
      · -- An earlier block's meet was taken above it, where nothing has changed since.
        obtain ⟨m, link, meetsX⟩ := round.met x earlier apart
        have atB : x ≠ b := by rintro rfl; exact pending earlier
        have sameTree : mixed order before (update idoms b (some n)) x =
            mixed order before idoms x := by
          funext y
          unfold mixed
          split
          · have := above x earlier
            exact update_of_ne (by rintro rfl; omega) _ _
          · rfl
        refine ⟨m, ?_, ?_⟩
        · simp only [update_of_ne atB]
          exact link
        · simp only [sameTree]
          exact meetsX
      · obtain rfl := mem_singleton.1 inside
        have sameTree : mixed order before (update idoms x (some n)) x = idoms := by
          funext y
          unfold mixed
          split
          · exact update_of_ne (by rintro rfl; omega) _ _
          · rename_i low
            exact (round.rest y fun inside => low (above y inside)).symm
        exact ⟨n, by simp, by simp only [sameTree]; exact meets⟩
    · intro flagged
      simp only [Bool.or_eq_true, decide_eq_true_eq] at flagged
      rcases flagged with flagged | moved
      · obtain ⟨x, inside, differs⟩ := round.moved flagged
        have atB : x ≠ b := by
          rintro rfl
          exact differs (round.rest x pending)
        exact ⟨x, inside, by simpa only [update_of_ne atB] using differs⟩
      · refine ⟨b, inOrder, ?_⟩
        have old : idoms b = before b := round.rest b pending
        simp only [update_self]
        exact fun same => moved (old.trans same.symm)
    · intro flagged
      simp only [Bool.or_eq_false_iff, decide_eq_false_iff_not, not_not] at flagged
      have unchanged : update idoms b (some n) = idoms := by
        rw [← flagged.2, Function.update_eq_self]
      simp only [unchanged]
      exact round.still flagged.1

theorem refineRound_spec (numbering : Numbering (fun p b => p ∈ preds b) entry order)
    (links : Links order preds entry before) :
    ∃ next, refineRound order preds entry before = some next ∧
      RoundState order preds entry before order.reverse next := by
  have onward : ∀ (rest finished : List IRBlockId) (state : ImmediateDominators × Bool),
      order.reverse = finished ++ rest → RoundState order preds entry before finished state →
      ∃ next, rest.foldlM (refineBlock order preds entry) state = some next ∧
        RoundState order preds entry before order.reverse next := by
    intro rest
    induction rest with
    | nil =>
      intro finished state whole round
      rw [append_nil] at whole
      exact ⟨state, rfl, whole ▸ round⟩
    | cons b _ ih =>
      intro finished state whole round
      obtain ⟨middle, refined, roundMiddle⟩ := round_turn numbering whole round
      obtain ⟨next, remaining, roundNext⟩ :=
        ih (finished ++ [b]) middle (by simpa using whole) roundMiddle
      exact ⟨next, by simp [refined, remaining], roundNext⟩
  exact onward order.reverse [] (before, false) rfl
    ⟨links, by simp, by simp, by simp, by simp, by simp⟩

/-- What a finished iteration establishes. -/
structure Round (order : List IRBlockId) (preds : IRBlockId → List IRBlockId) (entry : IRBlockId)
    (before after : ImmediateDominators) : Prop where
  links : Links order preds entry after
  full : ∀ b ∈ order, (after b).isSome
  met : ∀ b ∈ order, b ≠ entry →
    ∃ n, after b = some n ∧ Meets (mixed order before after b) (preds b) n

theorem RoundState.round (round : RoundState order preds entry before order.reverse state) :
    Round order preds entry before state.1 :=
  ⟨round.links, fun b inside => round.done b (mem_reverse.2 inside),
    fun b inside => round.met b (mem_reverse.2 inside)⟩

/-- Every ancestor in `after` was one in `before`. -/
def Refines (before after : ImmediateDominators) : Prop :=
  ∀ b d, (before b).isSome → Above after b d → Above before b d

theorem mixed_high (high : order.idxOf b + 1 ≤ order.idxOf x) :
    mixed order before after b x = after x := by
  exact if_pos (by omega)

theorem mixed_low (low : order.idxOf x ≤ order.idxOf b) :
    mixed order before after b x = before x := by
  exact if_neg (by omega)

namespace Round

variable {d : IRBlockId}

/-- Above a block, its turn sees the new tree. -/
theorem above_high (round : Round order preds entry before after)
    (high : order.idxOf b < order.idxOf x) :
    Above (mixed order before after b) x d ↔ Above after x d :=
  Above.congr_upwards round.links.climbs round.links.root (fun _ => mixed_high) high

/-- The parent of a block is an ancestor of each predecessor above it. -/
theorem above_pred (round : Round order preds entry before after) {y m : IRBlockId}
    (notEntry : y ≠ entry) (inOrder : y ∈ order) (knownX :
      (after x).isSome)
    (falls : Falls order preds x y) (link : after y = some m) : Above after x m := by
  obtain ⟨n, linkN, meets⟩ := round.met y inOrder notEntry
  rw [link, Option.some.injEq] at linkN
  subst linkN
  have seen : mixed order before after y x = after x := mixed_high falls.2
  exact (round.above_high falls.2).1 (meets.1 x falls.1 (by rw [seen]; exact knownX))

/-- Ancestors of a block that lie above a node it falls from are ancestors of that node. -/
theorem above_fall (numbering : Numbering (fun p b => p ∈ preds b) entry order)
    (round : Round order preds entry before after) {z p : IRBlockId}
    (path : Relation.ReflTransGen (Falls order preds) z p)
      (above : Above after p d)
    (inOrder : z ∈ order) (high : order.idxOf z ≤ order.idxOf d) : Above after z d := by
  induction path using head_induction_on with
  | refl => exact above
  | @head x y falls rest ih =>
    have lower := falls.2
    have inY : y ∈ order :=
      idxOf_lt_length_iff.1 (lower.trans (idxOf_lt_length_of_mem inOrder))
    have notEntry : y ≠ entry := by
      rintro rfl
      exact absurd (numbering.top x inOrder) (by omega)
    obtain ⟨m, link⟩ := Option.isSome_iff_exists.1 (round.full y inY)
    have proper : d ≠ y := by rintro rfl; omega
    exact (round.above_pred notEntry inY (round.full x inOrder) falls link).trans
      ((ih inY (by omega)).of_parent proper link)

/-- An ancestor above `b` in the finished tree was already one at the turn of `b`, for each
predecessor that had a parent then. -/
theorem above_turn (numbering : Numbering (fun p b => p ∈ preds b) entry order)
    (round : Round order preds entry before after) (linksBefore : Links order preds entry before)
    (refines : Refines before after) {p : IRBlockId} (above : Above after p d)
    (known : (mixed order before after b p).isSome) :
    Above (mixed order before after b) p d := by
  by_cases highP : order.idxOf b < order.idxOf p
  · exact (round.above_high highP).2 above
  · rw [mixed_low (by omega)] at known
    have old : Above before p d := refines p d known above
    -- Climb the old chain of `p` while it stays at or below `b`.
    have climb : ∀ x, Above before x d → Above before p x →
        Above (mixed order before after b) x d := by
      intro x chain
      induction chain using head_induction_on with
      | refl => exact fun _ => .refl
      | @head x y link rest ih =>
        intro below
        by_cases highX : order.idxOf b < order.idxOf x
        · refine (round.above_high highX).2 (round.above_fall numbering
            (linksBefore.falls_above below) above ?_ ?_)
          · exact linksBefore.inside x (by simp [link])
          · exact linksBefore.rank_le (.head link rest)
        · have step : mixed order before after b x = some y := by
            rw [mixed_low (by omega), link]
          exact (of_link step).trans (ih (below.tail link))
    exact climb p old .refl

end Round

/-- An iteration after one that only removed ancestors only removes ancestors. -/
theorem Refines.next (numbering : Numbering (fun p b => p ∈ preds b) entry order)
    (linksFirst : Links order preds entry first) (earlier : Round order preds entry first before)
    (later : Round order preds entry before after) (refines : Refines first before) :
    Refines before after := by
  intro b d known
  have inOrder := earlier.links.inside b known
  clear known
  induction height : order.length - order.idxOf b using Nat.strong_induction_on
    generalizing b d with
  | _ height ih =>
    intro above
    by_cases isEntry : b = entry
    · subst isEntry
      rw [above.of_root later.links.root]
      exact .refl
    · obtain ⟨n, link, meets⟩ := later.met b inOrder isEntry
      obtain ⟨m, oldLink, oldMeets⟩ := earlier.met b inOrder isEntry
      have climbs : order.idxOf b < order.idxOf n := later.links.climbs b n link isEntry
      have oldClimbs : order.idxOf b < order.idxOf m := earlier.links.climbs b m oldLink isEntry
      have onward : ∀ x e, order.idxOf b < order.idxOf x → (after x).isSome →
          Above after x e → Above before x e := by
        intro x e high knownX aboveX
        have inX := later.links.inside x knownX
        have boundX := idxOf_lt_length_of_mem inX
        exact ih _ (by omega) x e inX rfl aboveX
      -- The new parent is an ancestor, in the old tree, of every predecessor.
      have common : ∀ p, Above (mixed order before after b) p n →
          (mixed order before after b p).isSome → Above before p n := by
        intro p chain
        induction chain using head_induction_on with
        | refl => exact fun _ => .refl
        | @head x y step rest ih' =>
          intro knownX
          by_cases highX : order.idxOf b < order.idxOf x
          · have seen : mixed order before after b x = after x := mixed_high highX
            exact onward x n highX (seen ▸ knownX) ((later.above_high highX).1 (.head step rest))
          · rw [mixed_low (by omega)] at step
            have knownY := earlier.links.known x y step
            refine (of_link step).trans (ih' ?_)
            by_cases highY : order.idxOf b < order.idxOf y
            · rw [mixed_high highY]
              exact later.full y (earlier.links.inside y knownY)
            · rw [mixed_low (by omega)]
              exact knownY
      have parentAbove : Above before m n := by
        refine (earlier.above_high oldClimbs).1 (oldMeets.2 n fun p isPred knownP => ?_)
        have inP : p ∈ order := by
          unfold mixed at knownP
          split at knownP
          · exact earlier.links.inside p knownP
          · exact linksFirst.inside p knownP
        have knownNow : (mixed order before after b p).isSome := by
          unfold mixed
          split
          · exact later.full p inP
          · exact earlier.full p inP
        exact earlier.above_turn numbering linksFirst refines
          (common p (meets.1 p isPred knownNow) knownNow) knownP
      by_cases proper : d = b
      · exact proper ▸ .refl
      · have knownN := later.links.known b n link
        exact ((of_link oldLink).trans parentAbove).trans
          (onward n d climbs knownN (above.of_parent proper link))

/-- The sum of the postorder indices of all parents, which bounds the number of iterations. -/
def parentHeight (order : List IRBlockId) (idoms : ImmediateDominators) : Nat :=
  (order.map fun b => (idoms b).elim 0 order.idxOf).sum

theorem parentHeight_le (order : List IRBlockId) (idoms : ImmediateDominators) :
    parentHeight order idoms ≤ order.length * order.length := by
  unfold parentHeight
  have bounded : ∀ height ∈ order.map (fun b => (idoms b).elim 0 order.idxOf),
      height ≤ order.length := by
    intro height inside
    obtain ⟨b, _, rfl⟩ := mem_map.1 inside
    cases idoms b with
    | none => exact Nat.zero_le _
    | some => exact idxOf_le_length
  simpa using sum_le_card_nsmul _ _ bounded

/-- An iteration that moves a parent raises the sum of the indices. -/
theorem parentHeight_lt (earlier : Round order preds entry first before)
    (later : Round order preds entry before after) (refines : Refines before after)
    (moved : ∃ b ∈ order, after b ≠ before b) :
    parentHeight order before < parentHeight order after := by
  have rises : ∀ b ∈ order, ∃ m n, before b = some m ∧ after b = some n ∧
      (m = n ∨ order.idxOf m < order.idxOf n) := by
    intro b inOrder
    by_cases isEntry : b = entry
    · subst isEntry
      exact ⟨b, b, earlier.links.root, later.links.root, .inl rfl⟩
    · obtain ⟨m, oldLink⟩ := Option.isSome_iff_exists.1 (earlier.full b inOrder)
      obtain ⟨n, link⟩ := Option.isSome_iff_exists.1 (later.full b inOrder)
      have climbs : order.idxOf b < order.idxOf n := later.links.climbs b n link isEntry
      have above : Above before b n := refines b n (earlier.full b inOrder) (.of_link link)
      have onward := above.of_parent (by rintro rfl; omega) oldLink
      refine ⟨m, n, oldLink, link, ?_⟩
      by_cases same : n = m
      · exact .inl same.symm
      · exact .inr (earlier.links.rank_lt onward same)
  refine sum_lt_sum _ _ (fun b inOrder => ?_) ?_
  · obtain ⟨m, n, oldLink, link, rfl | higher⟩ := rises b inOrder
    · simp [oldLink, link]
    · simpa [oldLink, link] using higher.le
  · obtain ⟨b, inOrder, differs⟩ := moved
    obtain ⟨m, n, oldLink, link, rfl | higher⟩ := rises b inOrder
    · exact absurd (link.trans oldLink.symm) differs
    · exact ⟨b, inOrder, by simpa [oldLink, link] using higher⟩

/-- From a tree some iteration has built, the loop stops within the rounds that are left. -/
theorem refineUntilStable_stops (numbering : Numbering (fun p b => p ∈ preds b) entry order)
    (rounds : Nat) (linksFirst : Links order preds entry first)
    (earlier : Round order preds entry first before) (refines : Refines first before)
    (enough : order.length * order.length - parentHeight order before < rounds) :
    ∃ stable, refineUntilStable order preds entry rounds before = some stable ∧
      Links order preds entry stable ∧ (∀ b ∈ order, (stable b).isSome) ∧
      refineRound order preds entry stable = some (stable, false) := by
  induction rounds generalizing first before with
  | zero => omega
  | succ _ ih =>
    obtain ⟨⟨after, changed⟩, refined, state⟩ := refineRound_spec numbering earlier.links
    have later := state.round
    rw [refineUntilStable, refined]
    cases changed with
    | false =>
      obtain rfl : after = before := state.still rfl
      exact ⟨after, rfl, later.links, later.full, refined⟩
    | true =>
      have refinesNext := refines.next numbering linksFirst earlier later
      have rises := parentHeight_lt earlier later refinesNext (state.moved rfl)
      have bound := parentHeight_le order after
      exact ih earlier.links later refinesNext (by simp only at rises bound ⊢; omega)

theorem links_start (numbering : Numbering (fun p b => p ∈ preds b) entry order) :
    Links order preds entry (update (fun _ => none) entry (some entry)) := by
  have only : ∀ b parent, update (fun _ : IRBlockId => (none : Option IRBlockId)) entry
      (some entry) b = some parent → b = entry ∧ parent = entry := by
    intro b parent link
    rcases update_cases link with rooted | ⟨_, impossible⟩
    · exact rooted
    · cases impossible
  refine ⟨by simp, ?_, ?_, ?_, ?_, ?_⟩
  · intro b known
    obtain ⟨parent, link⟩ := Option.isSome_iff_exists.1 known
    rw [(only b parent link).1]
    exact numbering.entry_mem
  · intro b parent link
    rw [(only b parent link).2]
    simp
  · intro b parent link notEntry
    exact absurd (only b parent link).1 notEntry
  · intro b parent link
    obtain ⟨rfl, rfl⟩ := only b parent link
    exact .refl
  · intro b d known dominates
    obtain ⟨parent, link⟩ := Option.isSome_iff_exists.1 known
    obtain ⟨rfl, -⟩ := only b parent link
    rcases dominates.2 [] .nil with impossible | same
    · simp at impossible
    · exact same ▸ .refl

/-- The loop returns, with a tree whose chains hold every dominator and which another iteration
would not change. -/
theorem refineUntilStable_spec (numbering : Numbering (fun p b => p ∈ preds b) entry order) :
    ∃ stable, refineUntilStable order preds entry (order.length * order.length + 2)
        (update (fun _ => none) entry (some entry)) = some stable ∧
      Links order preds entry stable ∧ (∀ b ∈ order, (stable b).isSome) ∧
      refineRound order preds entry stable = some (stable, false) := by
  have start := links_start numbering
  obtain ⟨⟨after, changed⟩, refined, state⟩ := refineRound_spec numbering start
  have round := state.round
  rw [refineUntilStable, refined]
  cases changed with
  | false =>
    obtain rfl : after = _ := state.still rfl
    exact ⟨_, rfl, round.links, round.full, refined⟩
  | true =>
    have refines : Refines (update (fun _ => none) entry (some entry)) after := by
      intro b d known above
      by_cases isEntry : b = entry
      · subst isEntry
        rw [above.of_root round.links.root]
        exact .refl
      · simp [update_of_ne isEntry] at known
    exact refineUntilStable_stops numbering _ start round refines (by omega)

/-- The walk of `dominates` finds every ancestor below the entry. -/
theorem climbsTo_of_above (links : Links order preds entry before)
    (notEntry : d ≠ entry) (steps : Nat) (b : IRBlockId) (above : Above before b d)
    (enough : order.length - order.idxOf b < steps) :
    climbsTo (update before entry none) d steps b = true := by
  induction steps generalizing b with
  | zero => omega
  | succ steps ih =>
    rw [climbsTo]
    split
    · rfl
    · rename_i proper
      have below : b ≠ entry := by
        rintro rfl
        exact notEntry (above.of_root links.root)
      rcases cases_head above with same | ⟨parent, link, rest⟩
      · exact absurd same proper
      · rw [update_of_ne below, link]
        have climbs : order.idxOf b < order.idxOf parent := links.climbs b parent link below
        have bound : order.idxOf parent ≤ order.length := idxOf_le_length
        exact ih parent rest (by omega)

theorem above_of_climbsTo (steps : Nat) (b : IRBlockId)
    (found : climbsTo (update before entry none) d steps b = true) :
    Above before b d := by
  induction steps generalizing b with
  | zero => cases found
  | succ _ ih =>
    rw [climbsTo] at found
    split at found
    · next same => exact same ▸ .refl
    · split at found
      · next parent link =>
        have below : b ≠ entry := by
          rintro rfl
          simp at link
        rw [update_of_ne below] at link
        exact (of_link link).trans (ih parent found)
      · cases found

/-! ## The stable tree -/

section
variable {stable : ImmediateDominators}

/-- In the stable tree a block's parent is above each of its predecessors. -/
theorem stable_above_pred (numbering : Numbering (fun p b => p ∈ preds b) entry order)
    (links : Links order preds entry stable)
    (still : refineRound order preds entry stable = some (stable, false)) {p : IRBlockId}
    (notEntry : b ≠ entry) (link : stable b = some n)
    (isPred : p ∈ preds b) (known : (stable p).isSome) : Above stable p n := by
  obtain ⟨next, refined, state⟩ := refineRound_spec numbering links
  cases still.symm.trans refined
  have inOrder := links.inside b (by rw [link]; rfl)
  obtain ⟨parent, again, meets⟩ := state.round.met b inOrder notEntry
  cases link.symm.trans again
  have same : mixed order stable stable b = stable := funext fun _ => ite_self _
  rw [same] at meets
  exact meets.1 p isPred known

/-- Every path to a block meets the block's ancestors in the stable tree. -/
theorem stable_met (numbering : Numbering (fun p b => p ∈ preds b) entry order)
    (links : Links order preds entry stable) (full : ∀ b ∈ order, (stable b).isSome)
    (still : refineRound order preds entry stable = some (stable, false)) {visited : List IRBlockId}
    (path : Path (fun p b => p ∈ preds b) entry visited b) (above : Above stable b d) :
    d ∈ visited ∨ d = b := by
  induction visited using reverseRecOn generalizing b with
  | nil =>
    cases path
    exact .inr (above.of_root links.root)
  | append_singleton visited p ih =>
    obtain ⟨before, step⟩ := path.unsnoc
    by_cases proper : d = b
    · exact .inr proper
    rcases cases_head above with same | ⟨parent, link, rest⟩
    · exact absurd same.symm proper
    have notEntry : b ≠ entry := by
      rintro rfl
      exact proper (above.of_root links.root)
    have known := full p (numbering.complete p _ before ⟨b, step⟩)
    have abovePred := stable_above_pred numbering links still notEntry link step known
    rcases ih before (abovePred.trans rest) with on | rfl
    · exact .inl (mem_append_left _ on)
    · exact .inl (mem_append_right _ (mem_singleton_self _))

theorem stable_above_iff (numbering : Numbering (fun p b => p ∈ preds b) entry order)
    (links : Links order preds entry stable) (full : ∀ b ∈ order, (stable b).isSome)
    (still : refineRound order preds entry stable = some (stable, false)) (inOrder : b ∈ order) :
    Above stable b d ↔ Dominates (fun p b => p ∈ preds b) entry d b :=
  ⟨fun above => ⟨numbering.reached b inOrder,
    fun _ path => stable_met numbering links full still path above⟩,
    links.covers b d (full b inOrder)⟩

/-- A block's parent is its immediate dominator. -/
theorem stable_parent_iff (numbering : Numbering (fun p b => p ∈ preds b) entry order)
    (links : Links order preds entry stable) (full : ∀ b ∈ order, (stable b).isSome)
    (still : refineRound order preds entry stable = some (stable, false)) (inOrder : b ∈ order)
    (notEntry : b ≠ entry) :
    stable b = some d ↔ ImmediateDominator (fun p b => p ∈ preds b) entry d b := by
  have above : ∀ {x e : IRBlockId}, x ∈ order →
      (Above stable x e ↔ Dominates (fun p b => p ∈ preds b) entry e x) :=
    stable_above_iff numbering links full still
  obtain ⟨n, link⟩ := Option.isSome_iff_exists.mp (full b inOrder)
  have parent : n ∈ order := links.inside n (links.known b n link)
  have climbs : order.idxOf b < order.idxOf n := links.climbs b n link notEntry
  have isImmediate : ImmediateDominator (fun p b => p ∈ preds b) entry n b := by
    refine ⟨?_, (above inOrder).mp (.of_link link), fun e proper dominates => ?_⟩
    · rintro rfl
      omega
    · exact (above parent).mp (((above inOrder).mpr dominates).of_parent proper link)
  constructor
  · intro same
    cases link.symm.trans same
    exact isImmediate
  · rintro ⟨proper, dominates, least⟩
    have higher := ((above inOrder).mpr dominates).of_parent proper link
    have known := links.inside d (links.known_above (full n parent) higher)
    have lower := (above known).mpr (least n isImmediate.1 isImmediate.2.1)
    by_cases same : d = n
    · rw [same]
      exact link
    · have up := links.rank_lt higher same
      have down := links.rank_lt lower (Ne.symm same)
      omega

end

end

/-- A block that some path from the entry reaches. -/
def Reached (blocks : List IRBasicBlock) (entry b : IRBlockId) : Prop :=
  (blockById blocks b).isSome ∧ ∃ visited, Path (Flow blocks) entry visited b

variable {blocks : List IRBasicBlock}

/-- With unique block ids, the predecessor map is the edge relation. -/
theorem mem_predecessorMap (unique : (blocks.map (·.id)).Nodup) {source target : IRBlockId} :
    source ∈ predecessorMap blocks target ↔ Flow blocks source target := by
  unfold predecessorMap
  simp only [mem_flatMap, mem_map, mem_filter, decide_eq_true_eq]
  constructor
  · rintro ⟨block, inside, successor, ⟨isSuccessor, rfl⟩, rfl⟩
    exact ⟨block, blockById_of_mem unique inside, isSuccessor⟩
  · rintro ⟨block, found, isSuccessor⟩
    have named : block.id = source := by simpa using find?_some found
    exact ⟨block, mem_of_find?_eq_some found, target, ⟨isSuccessor, rfl⟩, named⟩

/-- The analysis returns a tree over the reachable blocks whose chains are the dominators. -/
theorem computeImmediateDominators_tree {entry : IRBlockId}
    (unique : (blocks.map (·.id)).Nodup) (present : (blockById blocks entry).isSome) :
    ∃ (order : List IRBlockId) (stable : ImmediateDominators),
      computeImmediateDominators blocks entry = some (update stable entry none) ∧
      Numbering (Flow blocks) entry order ∧ order.length ≤ blocks.length ∧
      (∀ b, b ∈ order ↔ Reached blocks entry b) ∧
      Links order (predecessorMap blocks) entry stable ∧ (∀ b ∈ order, (stable b).isSome) ∧
      ∀ b ∈ order, ∀ d, (Above stable b d ↔ Dominates (Flow blocks) entry d b) ∧
        (b ≠ entry → (stable b = some d ↔ ImmediateDominator (Flow blocks) entry d b)) := by
  have edges : (fun p b => p ∈ predecessorMap blocks b) = Flow blocks := by
    funext source target
    exact propext (mem_predecessorMap unique)
  obtain ⟨numbering, short, listed⟩ := postorder_numbering present
  rw [← edges] at numbering
  obtain ⟨stable, returned, links, full, still⟩ := refineUntilStable_spec numbering
  refine ⟨_, stable, by simp [computeImmediateDominators, returned], edges ▸ numbering, short,
    listed, links, full, fun b inOrder d => ?_⟩
  rw [← edges]
  exact ⟨stable_above_iff numbering links full still inOrder,
    stable_parent_iff numbering links full still inOrder⟩

/-- The code's `dominates` accepts exactly the ancestors in the tree. -/
theorem dominates_iff {order : List IRBlockId} {preds : IRBlockId → List IRBlockId}
    {entry b d : IRBlockId} {stable : ImmediateDominators} (links : Links order preds entry stable)
    (top : Above stable b entry) {size : Nat} (short : order.length ≤ size) :
    dominates size (update stable entry none) entry d b = true ↔ Above stable b d := by
  unfold dominates
  rw [Bool.or_eq_true, decide_eq_true_eq]
  constructor
  · rintro (rfl | found)
    · exact top
    · exact above_of_climbsTo _ b found
  · intro above
    by_cases isEntry : d = entry
    · exact .inl isEntry
    · exact .inr (climbsTo_of_above links isEntry _ b above (by omega))

/-- The code's `dominates` accepts every dominator of a block that leads somewhere. -/
theorem computeImmediateDominators_spec {entry : IRBlockId}
    (unique : (blocks.map (·.id)).Nodup) (present : (blockById blocks entry).isSome) :
    ∃ idoms, computeImmediateDominators blocks entry = some idoms ∧
      ∀ d b, (∃ next, Flow blocks b next) → Dominates (Flow blocks) entry d b →
        dominates blocks.length idoms entry d b = true := by
  obtain ⟨order, stable, returned, numbering, short, -, links, -, computed⟩ :=
    computeImmediateDominators_tree unique present
  refine ⟨_, returned, fun d b leaves dominates => ?_⟩
  obtain ⟨visited, path⟩ := dominates.1
  have inOrder := numbering.complete b visited path leaves
  have top := (computed b inOrder entry).1.mpr (Dominates.of_entry dominates.1)
  exact (dominates_iff links top short).mpr ((computed b inOrder d).1.mpr dominates)

/-- The map holds exactly the reachable blocks but the entry, each with its immediate dominator,
and `dominates` decides dominance; the walk it makes ends from everywhere. -/
theorem immediate_dominators_exact {entry : IRBlockId}
    (unique : (blocks.map (·.id)).Nodup) (present : entry ∈ blocks.map (·.id)) :
    ∃ idoms, computeImmediateDominators blocks entry = some idoms ∧
      (∀ b, (idoms b).isSome ↔ b ≠ entry ∧ Reached blocks entry b) ∧
      (∀ b, b ≠ entry → Reached blocks entry b →
        ∀ d, idoms b = some d ↔ ImmediateDominator (Flow blocks) entry d b) ∧
      (WellFounded fun parent b => idoms b = some parent) ∧
      ∀ d b, Reached blocks entry d → Reached blocks entry b → ∀ size, blocks.length ≤ size →
        (dominates size idoms entry d b = true ↔
          ∀ visited, Path (Flow blocks) entry visited b → d ∈ visited ∨ d = b) := by
  obtain ⟨block, inside, rfl⟩ := mem_map.mp present
  have found : (blockById blocks block.id).isSome := by rw [blockById_of_mem unique inside]; rfl
  obtain ⟨order, stable, returned, numbering, short, listed, links, full, computed⟩ :=
    computeImmediateDominators_tree unique found
  refine ⟨_, returned, fun b => ?_, fun b notEntry reached d => ?_, ?_,
    fun d b _ reached size fits => ?_⟩
  · rw [← listed]
    by_cases isEntry : b = block.id
    · simp [isEntry]
    · rw [update_of_ne isEntry]
      exact ⟨fun known => ⟨isEntry, links.inside b known⟩, fun inOrder => full b inOrder.2⟩
  · rw [update_of_ne notEntry]
    exact (computed b ((listed b).mpr reached) d).2 notEntry
  · refine Subrelation.wf ?_ (measure fun b => order.length - order.idxOf b).wf
    intro parent b link
    have below : b ≠ block.id := by
      rintro rfl
      simp at link
    rw [update_of_ne below] at link
    have climbs : order.idxOf b < order.idxOf parent := links.climbs b parent link below
    have bound : order.idxOf parent ≤ order.length := idxOf_le_length
    exact Nat.sub_lt_sub_left (by omega) climbs
  · have inOrder := (listed b).mpr reached
    have top := (computed b inOrder block.id).1.mpr (Dominates.of_entry reached.2)
    rw [dominates_iff links top (short.trans fits), (computed b inOrder d).1]
    exact and_iff_right reached.2

/-- A loop: its head 1 is the immediate dominator of its body 2, which leads back to it, and of its
exit 3. Nothing leads to block 4. -/
theorem loop_dominated :
    let blocks : List IRBasicBlock := [⟨0, [], [], .branch ⟨[], 1⟩⟩,
      ⟨1, [], [], .condBranch 0 ⟨[], 3⟩ ⟨[], 2⟩⟩, ⟨2, [], [], .branch ⟨[], 1⟩⟩,
      ⟨3, [], [], .unreachable⟩, ⟨4, [], [], .branch ⟨[], 2⟩⟩]
    ImmediateDominator (Flow blocks) 0 0 1 ∧ ImmediateDominator (Flow blocks) 0 1 2 ∧
      ImmediateDominator (Flow blocks) 0 1 3 ∧ ¬ Reached blocks 0 4 := by
  intro blocks
  obtain ⟨idoms, returned, keys, parents, -⟩ :=
    @immediate_dominators_exact blocks 0 (by decide) (by decide)
  have computed : (computeImmediateDominators blocks 0).map
      (fun idoms => (idoms 1, idoms 2, idoms 3, idoms 4)) =
      some (some 0, some 1, some 1, none) := by decide
  rw [returned] at computed
  simp only [Option.map_some, Option.some.injEq, Prod.mk.injEq] at computed
  obtain ⟨head, body, exit, unreached⟩ := computed
  have dominator {b d : IRBlockId} (below : b ≠ 0) (parent : idoms b = some d) :
      ImmediateDominator (Flow blocks) 0 d b :=
    (parents b below ((keys b).mp (by rw [parent]; rfl)).2 d).mp parent
  refine ⟨dominator (by decide) head, dominator (by decide) body, dominator (by decide) exit, ?_⟩
  intro reached
  have known := (keys 4).mpr ⟨by decide, reached⟩
  rw [unreached] at known
  cases known

end Koja.Guarantees.Ir
