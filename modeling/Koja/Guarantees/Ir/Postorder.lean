import Koja.Lib.FlowGraph
import Koja.Source.Ir.Dominators
import Mathlib.Data.List.Nodup
import Mathlib.Data.List.Perm.Subperm

/-!
# The postorder traversal

`postorderTraversal` lists exactly the blocks reachable from the entry, each once, the entry
last, and every other block before some predecessor of it. The search is followed through
`Explored`, what one call (or the loop over successors) adds to the visited set and the order.
-/
namespace Koja.Guarantees.Ir

open Koja.Lib Koja.Source.Ir List

/-- The control-flow edge from one block id to another. -/
def Flow (blocks : List IRBasicBlock) (source target : IRBlockId) : Prop :=
  ∃ block, blockById blocks source = some block ∧ target ∈ successors block

variable {blocks : List IRBasicBlock}

theorem blockById_of_mem (unique : (blocks.map (·.id)).Nodup)
    {block : IRBasicBlock} (inside : block ∈ blocks) : blockById blocks block.id = some block := by
  unfold blockById
  obtain ⟨found, isFound⟩ := Option.isSome_iff_exists.1
    (find?_isSome.2 ⟨block, inside, by simp⟩ :
      (blocks.find? fun other => other.id = block.id).isSome)
  have named : found.id = block.id := by simpa using find?_some isFound
  rw [isFound, inj_on_of_nodup_map unique (mem_of_find?_eq_some isFound) inside named]

/-- `first` comes before `second` in the list. -/
def Before (list : List IRBlockId) (first second : IRBlockId) : Prop :=
  ∃ front back, list = front ++ back ∧ first ∈ front ∧ second ∈ back

namespace Before

variable {list extra : List IRBlockId} {first second : IRBlockId}

theorem append_right (before : Before list first second) : Before (list ++ extra) first second := by
  obtain ⟨front, back, rfl, inFront, inBack⟩ := before
  exact ⟨front, back ++ extra, by simp, inFront, by simp [inBack]⟩

theorem append_left (before : Before list first second) : Before (extra ++ list) first second := by
  obtain ⟨front, back, rfl, inFront, inBack⟩ := before
  exact ⟨extra ++ front, back, by simp, by simp [inFront], inBack⟩

theorem idxOf_lt (before : Before list first second) (nodup : list.Nodup) :
    list.idxOf first < list.idxOf second := by
  obtain ⟨front, back, rfl, inFront, inBack⟩ := before
  have absent : second ∉ front := fun inside =>
    (nodup_append.1 nodup).2.2 second inside second inBack rfl
  rw [idxOf_append_of_mem inFront, idxOf_append_of_notMem absent]
  have := idxOf_lt_length_of_mem inFront
  omega

end Before

/-- What a search from `roots` adds: `new` is appended to the order, holds blocks not visited
before, and is closed under successors up to what was visited. -/
structure Explored (blocks : List IRBasicBlock) (roots : List IRBlockId)
    (before after : List IRBlockId × List IRBlockId) (new : List IRBlockId) : Prop where
  order : after.2 = before.2 ++ new
  keeps : ∀ id ∈ before.1, id ∈ after.1
  seen : ∀ id ∈ after.1, id ∈ before.1 ∨ id ∈ new ∨ blockById blocks id = none
  fresh : ∀ id ∈ new, id ∉ before.1 ∧ id ∈ after.1 ∧ (blockById blocks id).isSome
  nodup : new.Nodup
  closed : ∀ id ∈ new, ∀ successor, Flow blocks id successor → successor ∈ after.1
  rooted : ∀ root ∈ roots, root ∈ after.1
  parent : ∀ id ∈ new, id ∈ roots ∨ ∃ parent, Before new id parent ∧ Flow blocks parent id
  reached : ∀ id ∈ new, ∃ root ∈ roots, Relation.ReflTransGen (Flow blocks) root id

namespace Explored

variable {blocks : List IRBasicBlock} {roots : List IRBlockId} {root : IRBlockId}
  {before middle after : List IRBlockId × List IRBlockId} {new first second : List IRBlockId}

theorem nil : Explored blocks [] before before [] :=
  ⟨by simp, by simp, by simp +contextual, by simp, by simp, by simp, by simp, by simp, by simp⟩

theorem append (head : Explored blocks [root] before middle first)
    (tail : Explored blocks roots middle after second) :
    Explored blocks (root :: roots) before after (first ++ second) where
  order := by rw [tail.order, head.order, append_assoc]
  keeps id visited := tail.keeps id (head.keeps id visited)
  seen id visited := by
    rcases tail.seen id visited with visited | inside | missing
    · rcases head.seen id visited with visited | inside | missing
      · exact .inl visited
      · exact .inr (.inl (by simp [inside]))
      · exact .inr (.inr missing)
    · exact .inr (.inl (by simp [inside]))
    · exact .inr (.inr missing)
  fresh id inside := by
    rcases mem_append.1 inside with inside | inside
    · obtain ⟨unseen, visited, present⟩ := head.fresh id inside
      exact ⟨unseen, tail.keeps id visited, present⟩
    · obtain ⟨unseen, visited, present⟩ := tail.fresh id inside
      exact ⟨fun earlier => unseen (head.keeps id earlier), visited, present⟩
  nodup := by
    refine nodup_append.2 ⟨head.nodup, tail.nodup, fun id inFirst other inSecond same => ?_⟩
    subst same
    exact (tail.fresh id inSecond).1 (head.fresh id inFirst).2.1
  closed id inside successor flow := by
    rcases mem_append.1 inside with inside | inside
    · exact tail.keeps _ (head.closed id inside successor flow)
    · exact tail.closed id inside successor flow
  rooted id isRoot := by
    rcases mem_cons.1 isRoot with rfl | isRoot
    · exact tail.keeps _ (head.rooted _ (by simp))
    · exact tail.rooted id isRoot
  parent id inside := by
    rcases mem_append.1 inside with inside | inside
    · rcases head.parent id inside with isRoot | ⟨parent, earlier, flow⟩
      · exact .inl (by simp_all)
      · exact .inr ⟨parent, earlier.append_right, flow⟩
    · rcases tail.parent id inside with isRoot | ⟨parent, earlier, flow⟩
      · exact .inl (by simp [isRoot])
      · exact .inr ⟨parent, earlier.append_left, flow⟩
  reached id inside := by
    rcases mem_append.1 inside with inside | inside
    · obtain ⟨start, isRoot, path⟩ := head.reached id inside
      exact ⟨start, by simp_all, path⟩
    · obtain ⟨start, isRoot, path⟩ := tail.reached id inside
      exact ⟨start, by simp [isRoot], path⟩

/-- Finishing a block after its successors puts it behind everything found below it. -/
theorem finish {block : IRBasicBlock} {visited order : List IRBlockId}
    (unseen : root ∉ visited) (found : blockById blocks root = some block)
    (below : Explored blocks (successors block) (root :: visited, order) after new) :
    Explored blocks [root] (visited, order) (after.1, after.2 ++ [root]) (new ++ [root]) where
  order := by simp [below.order]
  keeps id earlier := below.keeps id (by simp [earlier])
  seen id later := by
    rcases below.seen id later with earlier | inside | missing
    · rcases mem_cons.1 earlier with rfl | earlier
      · exact .inr (.inl (by simp))
      · exact .inl earlier
    · exact .inr (.inl (by simp [inside]))
    · exact .inr (.inr missing)
  fresh id inside := by
    rcases mem_append.1 inside with inside | inside
    · obtain ⟨unseen', visited', present⟩ := below.fresh id inside
      exact ⟨fun earlier => unseen' (by simp [earlier]), visited', present⟩
    · obtain rfl := mem_singleton.1 inside
      exact ⟨unseen, below.keeps _ (by simp), by simp [found]⟩
  nodup := by
    refine nodup_append.2 ⟨below.nodup, by simp, fun id inNew other isRoot same => ?_⟩
    rw [mem_singleton] at isRoot
    subst same isRoot
    exact (below.fresh id inNew).1 (by simp)
  closed id inside successor flow := by
    rcases mem_append.1 inside with inside | inside
    · exact below.closed id inside successor flow
    · obtain rfl := mem_singleton.1 inside
      obtain ⟨holder, same, isSuccessor⟩ := flow
      rw [found, Option.some.injEq] at same
      exact below.rooted _ (same ▸ isSuccessor)
  rooted id isRoot := by
    obtain rfl := mem_singleton.1 isRoot
    exact below.keeps _ (by simp)
  parent id inside := by
    rcases mem_append.1 inside with inside | inside
    · rcases below.parent id inside with isSuccessor | ⟨parent, earlier, flow⟩
      · exact .inr ⟨root, ⟨new, [root], rfl, inside, by simp⟩, block, found, isSuccessor⟩
      · exact .inr ⟨parent, earlier.append_right, flow⟩
    · exact .inl inside
  reached id inside := by
    refine ⟨root, by simp, ?_⟩
    rcases mem_append.1 inside with inside | inside
    · obtain ⟨start, isSuccessor, path⟩ := below.reached id inside
      exact .head ⟨block, found, isSuccessor⟩ path
    · exact mem_singleton.1 inside ▸ .refl

end Explored

/-- The number of blocks a search may still enter. -/
def unvisited (blocks : List IRBasicBlock) (visited : List IRBlockId) : Nat :=
  (blocks.filter fun block => block.id ∉ visited).length

theorem unvisited_mono {visited later : List IRBlockId} (keeps : ∀ id ∈ visited, id ∈ later) :
    unvisited blocks later ≤ unvisited blocks visited := by
  refine List.Sublist.length_le (monotone_filter_right _ fun block unseen => ?_)
  simp only [decide_not, Bool.not_eq_true', decide_eq_false_iff_not] at unseen ⊢
  exact fun earlier => unseen (keeps _ earlier)

/-- Entering a block leaves one block less to enter. -/
theorem unvisited_cons {visited : List IRBlockId} {id : IRBlockId} {block : IRBasicBlock}
    (found : blockById blocks id = some block) (unseen : id ∉ visited) :
    unvisited blocks (id :: visited) < unvisited blocks visited := by
  have inside : block ∈ blocks := mem_of_find?_eq_some found
  have named : block.id = id := by simpa using find?_some found
  unfold unvisited
  have split : blocks.filter (fun block => block.id ∉ id :: visited) =
      (blocks.filter fun block => block.id ∉ visited).filter fun block => block.id ≠ id := by
    simp [not_or]
  rw [split]
  refine length_filter_lt_length_iff_exists.2 ⟨block, ?_, by simp [named]⟩
  simp [inside, named, unseen]

section
variable {blocks : List IRBasicBlock}

theorem explored_foldl {depth : Nat} (each : ∀ root state, unvisited blocks state.1 < depth →
      ∃ new, Explored blocks [root] state (visit blocks depth root state) new)
    (roots : List IRBlockId) (state : List IRBlockId × List IRBlockId)
    (room : unvisited blocks state.1 < depth) :
    ∃ new, Explored blocks roots state
      (roots.foldl (fun state root => visit blocks depth root state) state) new := by
  induction roots generalizing state with
  | nil => exact ⟨[], .nil⟩
  | cons root _ ih =>
    obtain ⟨first, head⟩ := each root state room
    have roomLeft := (unvisited_mono head.keeps).trans_lt room
    obtain ⟨second, tail⟩ := ih _ roomLeft
    exact ⟨first ++ second, head.append tail⟩

/-- A call of `visit` with enough depth explores everything below its block. -/
theorem explored_visit (depth : Nat) (root : IRBlockId)
    (state : List IRBlockId × List IRBlockId) (room : unvisited blocks state.1 < depth) :
    ∃ new, Explored blocks [root] state (visit blocks depth root state) new := by
  induction depth generalizing root state with
  | zero => omega
  | succ depth ih =>
    obtain ⟨visited, order⟩ := state
    rw [visit]
    split
    · rename_i earlier
      refine ⟨[], by simp, by simp, by simp +contextual, by simp, by simp, by simp, ?_, by simp,
        by simp⟩
      simpa using earlier
    · rename_i unseen
      split
      · rename_i missing
        refine ⟨[], by simp, by simp +contextual, ?_, by simp, by simp, by simp, by simp, by simp,
          by simp⟩
        intro id visited'
        rcases mem_cons.1 visited' with rfl | visited'
        · exact .inr (.inr missing)
        · exact .inl visited'
      · rename_i block found
        have roomBelow : unvisited blocks (root :: visited) < depth := by
          have := unvisited_cons found unseen
          simp only at room
          omega
        obtain ⟨new, below⟩ :=
          explored_foldl ih (successors block) (root :: visited, order) roomBelow
        exact ⟨_, .finish unseen found below⟩

end

/-- What the analysis uses of the order it numbers blocks by. -/
structure Numbering (edge : IRBlockId → IRBlockId → Prop) (entry : IRBlockId)
    (order : List IRBlockId) : Prop where
  nodup : order.Nodup
  entry_mem : entry ∈ order
  top : ∀ id ∈ order, order.idxOf id ≤ order.idxOf entry
  reached : ∀ id ∈ order, ∃ visited, Path edge entry visited id
  parent : ∀ id ∈ order, id ≠ entry →
    ∃ parent ∈ order, edge parent id ∧ order.idxOf id < order.idxOf parent
  complete : ∀ id visited, Path edge entry visited id → (∃ next, edge id next) → id ∈ order

/-- The traversal from an existing entry block numbers the reachable blocks. -/
theorem postorder_numbering {entry : IRBlockId} (present : (blockById blocks entry).isSome) :
    Numbering (Flow blocks) entry (postorderTraversal blocks entry) ∧
      (postorderTraversal blocks entry).length ≤ blocks.length ∧
      ∀ id, id ∈ postorderTraversal blocks entry ↔
        (blockById blocks id).isSome ∧ ∃ visited, Path (Flow blocks) entry visited id := by
  have room : unvisited blocks [] < blocks.length + 1 :=
    Nat.lt_succ_of_le (length_filter_le _ _)
  obtain ⟨new, explored⟩ := explored_visit (blocks.length + 1) entry ([], []) room
  have isNew : postorderTraversal blocks entry = new := by
    simpa [postorderTraversal] using explored.order
  rw [isNew]
  have visitedIn : ∀ id ∈ (visit blocks (blocks.length + 1) entry ([], [])).1,
      (blockById blocks id).isSome → id ∈ new := by
    intro id visited present
    rcases explored.seen id visited with impossible | inside | missing
    · simp at impossible
    · exact inside
    · simp [missing] at present
  have entryIn : entry ∈ new := visitedIn entry (explored.rooted entry (by simp)) present
  have parents : ∀ id ∈ new, id ≠ entry →
      ∃ parent, Before new id parent ∧ Flow blocks parent id := by
    intro id inside notEntry
    rcases explored.parent id inside with isRoot | found
    · exact absurd (mem_singleton.1 isRoot) notEntry
    · exact found
  have parentIn : ∀ {id parent}, Before new id parent → parent ∈ new := by
    rintro id parent ⟨front, back, rfl, _, inBack⟩
    exact mem_append_right _ inBack
  have listed : new ⊆ blocks.map (·.id) := by
    intro id inside
    obtain ⟨block, found⟩ := Option.isSome_iff_exists.1 (explored.fresh id inside).2.2
    have named : block.id = id := by simpa using find?_some found
    exact mem_map.2 ⟨block, mem_of_find?_eq_some found, named⟩
  have reached : ∀ id ∈ new, ∃ visited, Path (Flow blocks) entry visited id := by
    intro id inside
    obtain ⟨root, isRoot, path⟩ := explored.reached id inside
    exact Path.of_reflTransGen (mem_singleton.1 isRoot ▸ path)
  have onward : ∀ {start id visited}, Path (Flow blocks) start visited id → start ∈ new →
      (blockById blocks id).isSome → id ∈ new := by
    intro start id visited path
    induction path with
    | nil => exact fun inside _ => inside
    | @cons _ via _ _ flow rest ih =>
      intro inside present
      have viaExists : (blockById blocks via).isSome := by
        cases rest with
        | nil => exact present
        | cons step =>
          obtain ⟨block, found, -⟩ := step
          simp [found]
      exact ih (visitedIn via (explored.closed _ inside _ flow) viaExists) present
  refine ⟨⟨explored.nodup, entryIn, ?_, reached, ?_, ?_⟩,
    by simpa using (List.Nodup.subperm explored.nodup listed).length_le, fun id =>
    ⟨fun inside => ⟨(explored.fresh id inside).2.2, reached id inside⟩,
      fun ⟨present, _, path⟩ => onward path entryIn present⟩⟩
  · -- Climbing from parent to parent ends at the entry, and every step raises the index.
    intro id inside
    induction height : new.length - new.idxOf id using Nat.strong_induction_on
      generalizing id with
    | _ height ih =>
      by_cases isEntry : id = entry
      · exact le_of_eq (by rw [isEntry])
      · obtain ⟨parent, before, _⟩ := parents id inside isEntry
        have climbs := before.idxOf_lt explored.nodup
        have bound := idxOf_lt_length_of_mem (parentIn before)
        have above := ih _ (by omega) parent (parentIn before) rfl
        omega
  · intro id inside notEntry
    obtain ⟨parent, before, flow⟩ := parents id inside notEntry
    exact ⟨parent, parentIn before, flow, before.idxOf_lt explored.nodup⟩
  · rintro id visited path ⟨_, block, found, -⟩
    exact onward path entryIn (by simp [found])

end Koja.Guarantees.Ir
