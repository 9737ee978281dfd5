import Koja.Source.Ir.Function

/-!
# Dominator analysis of a function's blocks

Source: `koja-ir/src/dominators.rs` and `IRTerminator::targets`. Hash maps are functions to
`Option`. The depth-first search, the two finger walks and the fixpoint loop of the source are
recursions on a bound; `visit` gives up silently at its bound, the others with `none`, and the
guarantees show that none of the bounds is ever met.
-/
namespace Koja.Source.Ir

/-- `IRTerminator::targets`. -/
def IRTerminator.targets : IRTerminator → List IRBlockId
  | .branch target => [target.block]
  | .condBranch _ elseTarget thenTarget => [thenTarget.block, elseTarget.block]
  | .return _ | .tailCall .. | .unreachable => []

/-- The blocks an instruction may enter: the arms and the timeout of a `Receive`. -/
def IRInstruction.dispatchTargets : IRInstruction → List IRBlockId
  | .receive after arms _ _ => arms.map (·.body) ++ after.toList.map (·.body)
  | _ => []

/-- `successors`. -/
def successors (block : IRBasicBlock) : List IRBlockId :=
  block.instructions.flatMap (·.dispatchTargets) ++ block.terminator.targets

/-- The lookup `by_id` of the traversal. -/
def blockById (blocks : List IRBasicBlock) (id : IRBlockId) : Option IRBasicBlock :=
  blocks.find? fun block => block.id = id

/-- `visit`, on the visited set and the order built so far. -/
def visit (blocks : List IRBasicBlock) :
    Nat → IRBlockId → List IRBlockId × List IRBlockId → List IRBlockId × List IRBlockId
  | 0, _, state => state
  | depth + 1, id, (visited, order) =>
    if id ∈ visited then (visited, order)
    else
      match blockById blocks id with
      | none => (id :: visited, order)
      | some block =>
        let below := (successors block).foldl
          (fun state successor => visit blocks depth successor state) (id :: visited, order)
        (below.1, below.2 ++ [id])

/-- `postorder_traversal`. -/
def postorderTraversal (blocks : List IRBasicBlock) (entry : IRBlockId) : List IRBlockId :=
  (visit blocks (blocks.length + 1) entry ([], [])).2

/-- `predecessor_map`: one entry for each branch into the block. -/
def predecessorMap (blocks : List IRBasicBlock) (id : IRBlockId) : List IRBlockId :=
  blocks.flatMap fun block =>
    ((successors block).filter fun successor => successor = id).map fun _ => block.id

/-- A partially built dominator tree. -/
abbrev ImmediateDominators := IRBlockId → Option IRBlockId

/-- `intersect`: the finger with the lower postorder index walks up until both meet. -/
def intersect (idoms : ImmediateDominators) (index : IRBlockId → Nat) :
    Nat → IRBlockId → IRBlockId → Option IRBlockId
  | 0, _, _ => none
  | steps + 1, finger1, finger2 =>
    if finger1 = finger2 then some finger1
    else if index finger1 < index finger2 then
      (idoms finger1).bind fun parent => intersect idoms index steps parent finger2
    else if index finger2 < index finger1 then
      (idoms finger2).bind fun parent => intersect idoms index steps finger1 parent
    else none

section
variable (order : List IRBlockId) (predecessors : IRBlockId → List IRBlockId)

/-- The body of the loop over blocks: recompute one block's immediate dominator from its
predecessors that have one. -/
def refineBlock (entry : IRBlockId) (state : ImmediateDominators × Bool) (block : IRBlockId) :
    Option (ImmediateDominators × Bool) :=
  if block = entry then some state
  else
    match (predecessors block).filter fun predecessor => (state.1 predecessor).isSome with
    | [] => some state
    | first :: others => do
      let new ← others.foldlM
        (fun new other => intersect state.1 order.idxOf (2 * order.length + 1) other new) first
      if state.1 block = some new then return state
      else return (Function.update state.1 block (some new), true)

/-- One iteration of `while changed`, over the blocks in reverse postorder. -/
def refineRound (entry : IRBlockId) (idoms : ImmediateDominators) :
    Option (ImmediateDominators × Bool) :=
  order.reverse.foldlM (refineBlock order predecessors entry) (idoms, false)

/-- The loop `while changed`. -/
def refineUntilStable (entry : IRBlockId) : Nat → ImmediateDominators → Option ImmediateDominators
  | 0, _ => none
  | rounds + 1, idoms => do
    let (next, changed) ← refineRound order predecessors entry idoms
    if changed then refineUntilStable entry rounds next else return next

end

/-- `compute_immediate_dominators`. -/
def computeImmediateDominators (blocks : List IRBasicBlock) (entry : IRBlockId) :
    Option ImmediateDominators := do
  let order := postorderTraversal blocks entry
  let idoms ← refineUntilStable order (predecessorMap blocks) entry
    (order.length * order.length + 2) (Function.update (fun _ => none) entry (some entry))
  return Function.update idoms entry none

/-- The walk of `dominates` up the chain of immediate dominators. -/
def climbsTo (idoms : ImmediateDominators) (dominator : IRBlockId) : Nat → IRBlockId → Bool
  | 0, _ => false
  | steps + 1, current =>
    if current = dominator then true
    else
      match idoms current with
      | some parent => climbsTo idoms dominator steps parent
      | none => false

/-- `dominates`, for a function of `size` blocks. -/
def dominates (size : Nat) (idoms : ImmediateDominators) (entry dominator block : IRBlockId) :
    Bool :=
  dominator = entry || climbsTo idoms dominator (size + 1) block

end Koja.Source.Ir
