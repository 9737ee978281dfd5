import Koja.Source.Ir.Dominators

/-!
# Insertion of yield checks

Source: `koja-ir/src/yield_checks.rs`. `Vec::insert` panics past the end, so the pass returns
`Option`.
-/
namespace Koja.Source.Ir

/-- `is_param_acquire`. -/
def isParamAcquire (instruction : Option IRInstruction) (param : ValueId) : Bool :=
  match instruction with
  | some (.clone _ source _) => source = param
  | some (.call _ _ args) => args.head? = some param
  | _ => false

/-- `promotion_prefix_len`. -/
def promotionPrefixLen (params : List IRFunctionParam) (instructions : List IRInstruction) : Nat :=
  params.foldl (fun len param =>
      let declared := len + 1
      let acquired :=
        if isParamAcquire instructions[declared]? param.id then declared + 1 else declared
      acquired + 1)
    0

/-- Whether an instruction is a `Call` or a `CallClosure`. -/
def IRInstruction.isCall : IRInstruction → Bool
  | .call .. | .callClosure .. => true
  | _ => false

variable (blocks : List IRBasicBlock)

/-- Whether some block holds a call. -/
def containsCall : Bool :=
  blocks.any fun block => block.instructions.any (·.isCall)

/-- `insert_entry_check`. -/
def insertEntryCheck (function : IRFunction) : Option IRFunction :=
  if containsCall function.blocks then
    match function.blocks with
    | [] => some function
    | entry :: rest =>
      let offset := promotionPrefixLen function.params entry.instructions
      if offset ≤ entry.instructions.length then
        let checked :=
          { entry with instructions := entry.instructions.insertIdx offset .yieldCheck }
        some { function with blocks := checked :: rest }
      else none
  else some function

/-- Whether a terminator is a `Branch` or a `CondBranch`. -/
def IRTerminator.isBranch : IRTerminator → Bool
  | .branch _ | .condBranch .. => true
  | _ => false

/-- Whether a terminator is a `TailCall`. -/
def IRTerminator.isTailCall : IRTerminator → Bool
  | .tailCall .. => true
  | _ => false

/-- The immediate dominators `insert_in_body` consults: none without a branch. -/
def bodyDominators (entry : IRBlockId) :
    Option (Option ImmediateDominators) :=
  if blocks.any fun block => block.terminator.isBranch then
    (computeImmediateDominators blocks entry).map some
  else some none

/-- `on_back_edge`. -/
def onBackEdge (size : Nat) (idoms : Option ImmediateDominators) (entry : IRBlockId)
    (block : IRBasicBlock) : Bool :=
  match idoms with
  | none => false
  | some idoms =>
    (successors block).any fun successor => dominates size idoms entry successor block.id

/-- The loop body of `insert_in_body`. -/
def checkBlock (size : Nat) (idoms : Option ImmediateDominators) (entry : IRBlockId)
    (block : IRBasicBlock) : IRBasicBlock :=
  if block.terminator.isTailCall || onBackEdge size idoms entry block then
    { block with instructions := block.instructions ++ [.yieldCheck] }
  else block

/-- `insert_in_body`. -/
def insertInBody : Option (List IRBasicBlock) :=
  match blocks.head? with
  | none => some blocks
  | some first => do
    let idoms ← bodyDominators blocks first.id
    return blocks.map (checkBlock blocks.length idoms first.id)

/-- The loop body of `insert_yield_checks` over functions. -/
def insertInFunction (function : IRFunction) : Option IRFunction :=
  match function.kind with
  | .regular => do
    let blocks ← insertInBody function.blocks
    insertEntryCheck { function with blocks }
  | _ => some function

/-- The loop of `insert_yield_checks` over one package. -/
def insertInPackage (package : IRPackage) : Option IRPackage := do
  let functions ← package.functions.mapM insertInFunction
  return { package with functions }

/-- `insert_yield_checks`. -/
def insertYieldChecks (packages : List IRPackage) (body : List IRBasicBlock) :
    Option (List IRPackage × List IRBasicBlock) := do
  let packages ← packages.mapM insertInPackage
  let body ← insertInBody body
  return (packages, body)

end Koja.Source.Ir
