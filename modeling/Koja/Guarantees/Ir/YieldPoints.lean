import Koja.Guarantees.Ir.Dominators
import Koja.Lib.Traverse
import Koja.Source.Ir.YieldChecks

/-!
# Yield checks on every cycle

The program as one graph: its nodes are the blocks of the user functions, the closure bodies and
the script body, its edges are control flow, calls and tail calls. After `insertYieldChecks`
every cycle passes through a check, except a cycle that stays inside closure bodies: the pass
skips them. Which bodies a `CallClosure` may reach is a parameter, `invokes`.
-/
namespace Koja.Guarantees.Ir

open Koja.Lib Koja.Source.Ir List Option

/-! ## The graph -/

/-- A lowered body: a function's, or the inline one of a script. -/
inductive Body where
  | function (function : IRFunction)
  | script (blocks : List IRBasicBlock)

namespace Body

def blocks : Body → List IRBasicBlock
  | .function lowered => lowered.blocks
  | .script blocks => blocks

def symbol : Body → Option IRSymbol
  | .function lowered => some lowered.symbol
  | .script _ => none

def isClosure : Body → Bool
  | .function lowered =>
    match lowered.kind with
    | .closure _ => true
    | _ => false
  | .script _ => false

end Body

/-- User functions and closure bodies. -/
def isLowered (function : IRFunction) : Bool :=
  match function.kind with
  | .regular | .closure _ => true
  | .intrinsic _ | .synthesized => false

/-- The functions of the graph. -/
def loweredFunctions (packages : List IRPackage) : List IRFunction :=
  (packages.flatMap (·.functions)).filter isLowered

/-- The bodies of the graph. -/
def bodies (packages : List IRPackage) (script : List IRBasicBlock) : List Body :=
  .script script :: (loweredFunctions packages).map .function

/-- A block together with the body it belongs to. -/
structure Node where
  body : Body
  block : IRBasicBlock

/-- The parameter-promotion prologue of a list of parameters. -/
inductive Prologue : List IRFunctionParam → List IRInstruction → Prop
  | nil : Prologue [] []
  | plain {param : IRFunctionParam} {params : List IRFunctionParam}
      {instructions : List IRInstruction} : Prologue params instructions →
      Prologue (param :: params)
        (.localDecl param.localId param.ty :: .localWrite param.localId param.id :: instructions)
  | acquired {param : IRFunctionParam} {params : List IRFunctionParam}
      {instructions : List IRInstruction} (copy : ValueId) : Prologue params instructions →
      Prologue (param :: params)
        (.localDecl param.localId param.ty :: .clone copy param.id param.ty ::
          .localWrite param.localId copy :: instructions)

section
variable (invokes : Option IRSymbol → ValueId → IRSymbol → Prop) (packages : List IRPackage)

/-- The functions a call instruction may run. -/
inductive Calls (owner : Option IRSymbol) : IRInstruction → IRSymbol → Prop
  | named {dest : ValueId} {callee : IRSymbol} {args : List ValueId} :
      Calls owner (.call dest callee args) callee
  | closure {args : List ValueId} {callee dest : ValueId} {paramTypes : List IRType}
      {resultTy : IRType} {symbol : IRSymbol} : invokes owner callee symbol →
      Calls owner (.callClosure args callee dest paramTypes resultTy) symbol

variable (source target : Node)

/-- A control-flow edge. -/
def FlowStep : Prop :=
  target.body = source.body ∧ target.block ∈ source.body.blocks ∧
    target.block.id ∈ successors source.block

/-- The node is the entry block of the function with that symbol. -/
def Enters (symbol : IRSymbol) (target : Node) : Prop :=
  ∃ function ∈ loweredFunctions packages, function.symbol = symbol ∧
    target.body = .function function ∧ function.blocks.head? = some target.block

/-- A call edge. -/
def CallStep : Prop :=
  ∃ instruction ∈ source.block.instructions, ∃ symbol,
    Calls invokes source.body.symbol instruction symbol ∧ Enters packages symbol target

/-- A tail-call edge. -/
def TailStep : Prop :=
  ∃ args callee, source.block.terminator = .tailCall args callee ∧ Enters packages callee target

/-- A closed walk through the graph. -/
structure Cycle (script : List IRBasicBlock) (node : Node) (visited : List Node) : Prop where
  body : node.body ∈ bodies packages script
  block : node.block ∈ node.body.blocks
  path : Path (fun source target => FlowStep source target ∨
    (CallStep invokes packages source target ∨ TailStep packages source target)) node visited node
  nonempty : visited ≠ []

end

variable {packages : List IRPackage} {script before : List IRBasicBlock} {block : IRBasicBlock}
  {prologue : List IRInstruction} {α : Type}

/-- The start of a cycle is visited, so its end adds no node. -/
theorem Cycle.mem_visited {invokes : Option IRSymbol → ValueId → IRSymbol → Prop}
    {node via : Node} {visited : List Node} (cycle : Cycle invokes packages script node visited)
    (isVia : via ∈ visited ++ [node]) : via ∈ visited := by
  have start : node ∈ visited := by
    cases cycle.path with
    | nil => exact absurd rfl cycle.nonempty
    | cons => exact mem_cons_self
  rcases mem_append.1 isVia with isVia | isVia
  · exact isVia
  · rw [mem_singleton.1 isVia]
    exact start

/-- The block branches to a dominator of it, and ends in a check. -/
def BranchesBack (source target : Node) : Prop :=
  (∃ first, source.body.blocks.head? = some first ∧
    Dominates (Flow source.body.blocks) first.id target.block.id source.block.id) ∧
    source.block.instructions.getLast? = some .yieldCheck

/-- The block tail-calls, and ends in a check. -/
def TailChecked (node : Node) : Prop :=
  node.block.terminator.isTailCall = true ∧ node.block.instructions.getLast? = some .yieldCheck

/-- The block is a function's entry, with a check right after the promotion prologue. -/
def EntryChecked (node : Node) : Prop :=
  ∃ function prologue rest, node.body = .function function ∧
    function.blocks.head? = some node.block ∧ Prologue function.params prologue ∧
    node.block.instructions = prologue ++ .yieldCheck :: rest

/-- The walk passes through a yield check. -/
def Yields (node : Node) (visited : List Node) : Prop :=
  (∃ source target, [source, target] <:+: visited ++ [node] ∧ FlowStep source target ∧
    BranchesBack source target) ∨ ∃ via ∈ visited, TailChecked via ∨ EntryChecked via

/-- Every cycle of the graph passes through a yield check. -/
def EveryCycleYields (invokes : Option IRSymbol → ValueId → IRSymbol → Prop)
    (packages : List IRPackage) (script : List IRBasicBlock) : Prop :=
  ∀ node visited, Cycle invokes packages script node visited → Yields node visited

/-- Every cycle of the graph leaves the closure bodies. -/
def EveryCycleLeavesClosures (invokes : Option IRSymbol → ValueId → IRSymbol → Prop)
    (packages : List IRPackage) (script : List IRBasicBlock) : Prop :=
  ∀ node visited, Cycle invokes packages script node visited →
    ∃ via ∈ visited, via.body.isClosure = false

/-- An edge from a block with a `Receive` to one of the blocks it dispatches to. -/
def Dispatch (blocks : List IRBasicBlock) (source target : IRBlockId) : Prop :=
  ∃ block, blockById blocks source = some block ∧
    target ∈ block.instructions.flatMap (·.dispatchTargets)

/-- What lowering and sealing guarantee of a body: block ids are unique, the blocks a `Receive`
dispatches to are made for it, so dispatch alone closes no cycle, there is no check yet, and a
user function starts by promoting its parameters. -/
structure LoweredBody (body : Body) : Prop where
  unique : (body.blocks.map (·.id)).Nodup
  dispatch : ∀ id, ¬ Relation.TransGen (Dispatch body.blocks) id id
  unchecked : ∀ block ∈ body.blocks, .yieldCheck ∉ block.instructions
  promoted : ∀ function, body = .function function → function.kind = .regular →
    ∀ first, function.blocks.head? = some first →
      ∃ prologue rest, Prologue function.params prologue ∧ first.instructions = prologue ++ rest

/-- The body's control-flow graph is reducible. -/
def ReducibleBody (body : Body) : Prop :=
  ∀ first, body.blocks.head? = some first → Reducible (Flow body.blocks) first.id

/-! ## What the pass does to one body -/

/-- The block after the pass: the same but for added checks. -/
structure SameShape (before after : IRBasicBlock) : Prop where
  id : after.id = before.id
  terminator : after.terminator = before.terminator
  instructions : ∀ instruction, instruction ≠ .yieldCheck →
    (instruction ∈ after.instructions ↔ instruction ∈ before.instructions)

theorem mem_successors {target : IRBlockId} : target ∈ successors block ↔
      (∃ instruction ∈ block.instructions, target ∈ instruction.dispatchTargets) ∨
        target ∈ block.terminator.targets := by
  simp [successors]

namespace SameShape

variable {before middle after : IRBasicBlock}

theorem refl : SameShape before before :=
  ⟨rfl, rfl, fun _ _ => Iff.rfl⟩

theorem trans (first : SameShape before middle) (second : SameShape middle after) :
    SameShape before after :=
  ⟨second.id.trans first.id, second.terminator.trans first.terminator, fun instruction apart =>
      (second.instructions instruction apart).trans (first.instructions instruction apart)⟩

theorem successors_iff (same : SameShape before after) {target : IRBlockId} :
    target ∈ successors after ↔ target ∈ successors before := by
  rw [mem_successors, mem_successors, same.terminator]
  refine or_congr_left (exists_congr fun instruction => and_congr_left fun dispatches =>
    same.instructions _ ?_)
  rintro rfl
  simp [IRInstruction.dispatchTargets] at dispatches

end SameShape

theorem blockById_forall₂ {after : List IRBasicBlock}
    (same : List.Forall₂ SameShape before after) (id : IRBlockId) :
    (blockById before id = none ∧ blockById after id = none) ∨
      ∃ old new, blockById before id = some old ∧ blockById after id = some new ∧
        SameShape old new := by
  unfold blockById
  induction same with
  | nil => exact .inl ⟨rfl, rfl⟩
  | @cons old new before after head _ ih =>
    by_cases named : old.id = id
    · exact .inr ⟨old, new, by simp [named], by simp [head.id, named], head⟩
    · simpa [named, head.id] using ih

/-- Added checks leave the control-flow graph as it is. -/
theorem flow_forall₂ {after : List IRBasicBlock} (same : List.Forall₂ SameShape before after) :
    Flow after = Flow before := by
  funext source target
  unfold Flow
  rcases blockById_forall₂ same source with ⟨old, new⟩ | ⟨old, new, foundOld, foundNew, shape⟩
  · simp [old, new]
  · simp [foundOld, foundNew, shape.successors_iff]

/-- What `insertInBody` achieves. -/
structure BodyChecked (before after : List IRBasicBlock) : Prop where
  shape : List.Forall₂ SameShape before after
  tail : ∀ block ∈ after, block.terminator.isTailCall = true →
    block.instructions.getLast? = some .yieldCheck
  back : (∃ block ∈ before, block.terminator.isBranch = true) →
    ∀ block ∈ after, ∀ target ∈ successors block, ∀ first, before.head? = some first →
      Dominates (Flow before) first.id target block.id →
      block.instructions.getLast? = some .yieldCheck

theorem checkBlock_shape (size : Nat) (idoms : Option ImmediateDominators) (entry : IRBlockId)
    (block : IRBasicBlock) : SameShape block (checkBlock size idoms entry block) := by
  unfold checkBlock
  split
  · refine ⟨rfl, rfl, fun instruction apart => ?_⟩
    simp [apart]
  · exact .refl

/-- A block that tail-calls or branches back ends in a check. -/
theorem checkBlock_last {size : Nat} {idoms : Option ImmediateDominators} {entry : IRBlockId}
    (due : (block.terminator.isTailCall || onBackEdge size idoms entry block) = true) :
    (checkBlock size idoms entry block).instructions.getLast? = some .yieldCheck := by
  unfold checkBlock
  rw [if_pos due]
  simp

/-- `insertInBody` returns on every body with unique ids, and only appends. -/
theorem insertInBody_spec {blocks : List IRBasicBlock} (unique : (blocks.map (·.id)).Nodup) :
    ∃ checked, insertInBody blocks = some checked ∧ BodyChecked blocks checked ∧
      List.Forall₂ (fun old new => ∃ extra, new.instructions = old.instructions ++ extra)
        blocks checked := by
  unfold insertInBody
  cases entryIs : blocks.head? with
  | none =>
    obtain rfl := head?_eq_none_iff.1 entryIs
    exact ⟨[], rfl, ⟨.nil, by simp, by simp⟩, .nil⟩
  | some first =>
    have inside : first ∈ blocks := mem_of_mem_head? entryIs
    obtain ⟨idoms, computed, complete⟩ := computeImmediateDominators_spec unique
      (by simp [blockById_of_mem unique inside] : (blockById blocks first.id).isSome)
    have bodyIdoms : ∃ known, bodyDominators blocks first.id = some known ∧
        ((∃ block ∈ blocks, block.terminator.isBranch = true) → known = some idoms) := by
      unfold bodyDominators
      split
      · exact ⟨some idoms, by simp [computed], fun _ => rfl⟩
      · rename_i branchless
        refine ⟨none, rfl, fun ⟨block, isBlock, branches⟩ => ?_⟩
        exact absurd (any_eq_true.2 ⟨block, isBlock, branches⟩) branchless
    obtain ⟨known, returned, withBranch⟩ := bodyIdoms
    refine ⟨blocks.map (checkBlock blocks.length known first.id), by simp [returned],
      ⟨?_, ?_, ?_⟩, ?_⟩
    · exact forall₂_map_right_iff.2
        (forall₂_same.2 fun block _ => checkBlock_shape _ _ _ block)
    · intro block isBlock tails
      obtain ⟨old, isOld, rfl⟩ := mem_map.1 isBlock
      rw [(checkBlock_shape _ _ _ old).terminator] at tails
      exact checkBlock_last (by simp [tails])
    · intro branches block isBlock target isTarget entry isEntry dominates'
      obtain ⟨old, isOld, rfl⟩ := mem_map.1 isBlock
      have shape := checkBlock_shape blocks.length known first.id old
      have isTargetOld := (shape.successors_iff).1 isTarget
      rw [entryIs, Option.some.injEq] at isEntry
      rw [shape.id, ← isEntry] at dominates'
      refine checkBlock_last (Bool.or_eq_true _ _ ▸ .inr ?_)
      rw [withBranch branches]
      exact any_eq_true.2 ⟨target, isTargetOld, complete target old.id
        ⟨target, old, blockById_of_mem unique isOld, isTargetOld⟩ dominates'⟩
    · refine forall₂_map_right_iff.2 (forall₂_same.2 fun block _ => ?_)
      unfold checkBlock
      split
      · exact ⟨[.yieldCheck], rfl⟩
      · exact ⟨[], by simp⟩

/-! ## What the pass does to one function -/

/-- The length of the prologue is what the pass counts. -/
theorem promotionPrefixLen_prologue {params : List IRFunctionParam}
    (shape : Prologue params prologue) (rest : List IRInstruction) :
    promotionPrefixLen params (prologue ++ rest) = prologue.length := by
  generalize whole : prologue ++ rest = instructions
  -- The fold stands behind the part `skipped` of the prologue it has counted.
  have onward : ∀ skipped : List IRInstruction, instructions = skipped ++ (prologue ++ rest) →
      params.foldl (fun len param =>
          (if isParamAcquire instructions[len + 1]? param.id then len + 1 + 1 else len + 1) + 1)
        skipped.length = skipped.length + prologue.length := by
    clear whole
    induction shape with
    | nil => simp
    | @plain param params tail _ ih =>
      intro skipped split
      have second : isParamAcquire instructions[skipped.length + 1]? param.id = false := by
        simp [split, isParamAcquire]
      have next := ih (skipped ++ [.localDecl param.localId param.ty,
        .localWrite param.localId param.id]) (by simp [split])
      simp only [length_append, length_cons, length_nil] at next ⊢
      simp only [foldl_cons, second]
      exact next.trans (by omega)
    | @acquired param params tail copy _ ih =>
      intro skipped split
      have second : isParamAcquire instructions[skipped.length + 1]? param.id = true := by
        simp [split, isParamAcquire]
      have next := ih (skipped ++ [.localDecl param.localId param.ty,
        .clone copy param.id param.ty, .localWrite param.localId copy]) (by simp [split])
      simp only [length_append, length_cons, length_nil] at next ⊢
      simp only [foldl_cons, second]
      exact next.trans (by omega)
  simpa [promotionPrefixLen] using onward [] (by simp [whole])

/-- What the pass achieves for one function. -/
structure FunctionChecked (before after : IRFunction) : Prop where
  symbol : after.symbol = before.symbol
  params : after.params = before.params
  kind : after.kind = before.kind
  closed : before.kind ≠ .regular → after = before
  body : before.kind = .regular → BodyChecked before.blocks after.blocks
  entry : before.kind = .regular → containsCall after.blocks = true →
    ∀ first, after.blocks.head? = some first → ∃ prologue rest, Prologue after.params prologue ∧
        first.instructions = prologue ++ .yieldCheck :: rest

/-- Inserting the entry check behind the prologue keeps the shape and the last instruction. -/
theorem entryCheck_block {rest : List IRInstruction}
    (split : block.instructions = prologue ++ rest) :
    SameShape block { block with instructions := prologue ++ .yieldCheck :: rest } ∧
      (block.instructions.getLast? = some .yieldCheck →
        (prologue ++ .yieldCheck :: rest).getLast? = some .yieldCheck) := by
  refine ⟨⟨rfl, rfl, fun instruction apart => ?_⟩, fun last => ?_⟩
  · simp [split, apart]
  · cases rest with
    | nil => simp
    | cons =>
      rw [split, getLast?_append_of_ne_nil _ (by simp)] at last
      rw [getLast?_append_of_ne_nil _ (by simp)]
      exact last

theorem insertIdx_length (front back : List α) (new : α) :
    (front ++ back).insertIdx front.length new = front ++ new :: back := by
  induction front with
  | nil => simp
  | cons _ _ ih => simp [ih]

/-- Inserting the entry check keeps what `insertInBody` achieved. -/
theorem BodyChecked.entryCheck {rest : List IRBasicBlock} {entry : IRBasicBlock}
    {tail : List IRInstruction} (checked : BodyChecked before (entry :: rest))
    (split : entry.instructions = prologue ++ tail) :
    BodyChecked before
      ({ entry with instructions := prologue ++ .yieldCheck :: tail } :: rest) := by
  obtain ⟨same, lastKept⟩ := entryCheck_block split
  refine ⟨?_, ?_, ?_⟩
  · cases checked.shape with
    | cons head others => exact .cons (head.trans same) others
  · intro block isBlock tails
    rcases mem_cons.1 isBlock with rfl | isBlock
    · exact lastKept (checked.tail entry (by simp) tails)
    · exact checked.tail block (by simp [isBlock]) tails
  · intro branches block isBlock target isTarget first isFirst dominates'
    rcases mem_cons.1 isBlock with rfl | isBlock
    · exact lastKept (checked.back branches entry (by simp) target
        ((same.successors_iff).1 isTarget) first isFirst dominates')
    · exact checked.back branches block (by simp [isBlock]) target isTarget first isFirst dominates'

/-- `insertInFunction` returns on every function whose body, if it has one, is lowered. -/
theorem insertInFunction_spec {function : IRFunction}
    (regular : function.kind = .regular → LoweredBody (.function function)) :
    ∃ checked, insertInFunction function = some checked ∧ FunctionChecked function checked := by
  unfold insertInFunction
  split
  · rename_i isRegular
    have lowered := regular isRegular
    obtain ⟨blocks, returned, checked, appended⟩ := insertInBody_spec lowered.unique
    simp only [Body.blocks] at returned appended
    simp only [returned, bind_eq_bind, bind_some, insertEntryCheck]
    have closed : function.kind ≠ .regular → ∀ other, other = function :=
      fun notRegular => absurd isRegular notRegular
    split
    · rename_i calls
      cases blocks with
      | nil => simp [containsCall] at calls
      | cons entry =>
        obtain ⟨old, olds, ⟨extra, isExtended⟩, _, isOlds⟩ :=
          forall₂_cons_right_iff.1 appended
        obtain ⟨prologue, body, shape, isSplit⟩ :=
          lowered.promoted function rfl isRegular old (by rw [isOlds]; rfl)
        have split : entry.instructions = prologue ++ (body ++ extra) := by
          rw [isExtended, isSplit, append_assoc]
        have offset : promotionPrefixLen function.params entry.instructions = prologue.length := by
          rw [split, promotionPrefixLen_prologue shape]
        have fits : prologue.length ≤ entry.instructions.length := by simp [split]
        have inserted : entry.instructions.insertIdx prologue.length .yieldCheck =
            prologue ++ .yieldCheck :: (body ++ extra) := by
          rw [split, insertIdx_length]
        simp only [offset, fits, inserted]
        refine ⟨_, rfl, rfl, rfl, rfl, fun notRegular => closed notRegular _,
          fun _ => checked.entryCheck split, fun _ _ first isFirst => ?_⟩
        simp only [head?_cons, Option.some.injEq] at isFirst
        exact ⟨prologue, body ++ extra, shape, by rw [← isFirst]⟩
    · rename_i callless
      refine ⟨_, rfl, rfl, rfl, rfl, fun notRegular => closed notRegular _, fun _ => checked,
        fun _ calls => absurd calls callless⟩
  · rename_i notRegular
    exact ⟨function, rfl, rfl, rfl, rfl, fun _ => rfl, fun isRegular => absurd isRegular notRegular,
      fun isRegular => absurd isRegular notRegular⟩

/-! ## The whole program -/

/-- The program before and after the pass, function by function. -/
structure ProgramChecked (packages checked : List IRPackage) (script body : List IRBasicBlock) :
    Prop where
  functions : List.Forall₂ FunctionChecked (loweredFunctions packages) (loweredFunctions checked)
  script : BodyChecked script body

theorem isLowered_checked {before after : IRFunction} (checked : FunctionChecked before after) :
    isLowered after = isLowered before := by
  unfold isLowered
  rw [checked.kind]

/-- The pass returns on every lowered program. -/
theorem insertYieldChecks_spec (lowered : ∀ body ∈ bodies packages script, LoweredBody body) :
    ∃ checked body, insertYieldChecks packages script = some (checked, body) ∧
      ProgramChecked packages checked script body := by
  have eachFunction : ∀ package ∈ packages, ∀ function ∈ package.functions,
      ∃ checked, insertInFunction function = some checked ∧ FunctionChecked function checked := by
    intro package isPackage function isFunction
    refine insertInFunction_spec fun isRegular => lowered _ ?_
    refine mem_cons_of_mem _ (mem_map_of_mem (mem_filter.2 ⟨?_, ?_⟩))
    · exact mem_flatMap.2 ⟨package, isPackage, isFunction⟩
    · simp [isLowered, isRegular]
  have eachPackage : ∀ package ∈ packages, ∃ checked, insertInPackage package = some checked ∧
      List.Forall₂ FunctionChecked package.functions checked.functions := by
    intro package isPackage
    obtain ⟨functions, mapped, related⟩ := mapM_forall₂ _ (eachFunction package isPackage)
    exact ⟨{ package with functions }, by simp [insertInPackage, mapped], related⟩
  obtain ⟨checked, mapped, related⟩ := mapM_forall₂ _ eachPackage
  obtain ⟨body, returned, scriptChecked, _⟩ :=
    insertInBody_spec (lowered (.script script) (by simp [bodies])).unique
  refine ⟨checked, body, ?_, rel_filter ?_ (rel_flatMap related fun _ _ same => same),
    scriptChecked⟩
  · simp only [Body.blocks] at returned
    simp [insertYieldChecks, mapped, returned]
  · exact fun _ _ checked => by simp [isLowered_checked checked]

/-- A body of the checked program that is not a closure body comes from a body that was checked,
with the same graph. -/
theorem checked_body {checked : List IRPackage} {body : List IRBasicBlock}
    (program : ProgramChecked packages checked script body) {after : Body}
    (isBody : after ∈ bodies checked body) (notClosure : after.isClosure = false) :
    ∃ before ∈ bodies packages script, BodyChecked before.blocks after.blocks ∧
      (∀ function, after = .function function → containsCall function.blocks = true →
        ∀ first, function.blocks.head? = some first →
          ∃ prologue rest, Prologue function.params prologue ∧
            first.instructions = prologue ++ .yieldCheck :: rest) := by
  rcases mem_cons.1 isBody with rfl | isFunction
  · exact ⟨.script script, by simp [bodies], program.script, by simp⟩
  · obtain ⟨new, isNew, rfl⟩ := mem_map.1 isFunction
    obtain ⟨old, isOld, related⟩ := forall₂_mem_right program.functions isNew
    have isRegular : old.kind = .regular := by
      have oldLowered : isLowered old = true := (mem_filter.1 isOld).2
      have same := related.kind
      cases kind : old.kind <;> simp_all [isLowered, Body.isClosure]
    refine ⟨.function old, mem_cons_of_mem _ (mem_map_of_mem isOld),
      related.body isRegular, ?_⟩
    rintro function isSame calls first isFirst
    rw [Body.function.injEq] at isSame
    subst isSame
    exact related.entry isRegular calls first isFirst

/-! ## Cycles -/

section
variable {invokes : Option IRSymbol → ValueId → IRSymbol → Prop} {packages checked : List IRPackage}
  {script body : List IRBasicBlock} {target last start node : Node} {symbol : IRSymbol}
  {visited : List Node}

/-- The node belongs to the program. -/
def InProgram (packages : List IRPackage) (script : List IRBasicBlock) (node : Node) : Prop :=
  node.body ∈ bodies packages script ∧ node.block ∈ node.body.blocks

theorem Enters.block_mem (enters : Enters packages symbol target) :
    target.block ∈ target.body.blocks := by
  obtain ⟨function, _, _, isBody, isFirst⟩ := enters
  rw [isBody]
  exact mem_of_mem_head? isFirst

theorem Enters.inProgram (enters : Enters packages symbol target) :
    InProgram packages script target := by
  refine ⟨?_, enters.block_mem⟩
  obtain ⟨function, isFunction, _, isBody, _⟩ := enters
  rw [isBody]
  exact mem_cons_of_mem _ (mem_map_of_mem isFunction)

theorem enters_of_leaves {source : Node}
    (leaves : CallStep invokes packages source target ∨ TailStep packages source target) :
    ∃ symbol, Enters packages symbol target := by
  rcases leaves with ⟨_, _, symbol, _, enters⟩ | ⟨_, symbol, _, enters⟩
  · exact ⟨symbol, enters⟩
  · exact ⟨symbol, enters⟩

/-- Every node of a walk that starts in the program belongs to it. -/
theorem path_inProgram (path : Path (fun source target => FlowStep source target ∨
      (CallStep invokes packages source target ∨ TailStep packages source target))
      start visited last) (inside : InProgram packages script start) :
    ∀ node ∈ visited ++ [last], InProgram packages script node := by
  induction path with
  | nil => simpa using inside
  | cons step _ ih =>
    intro node isNode
    rcases mem_cons.1 isNode with rfl | isNode
    · exact inside
    · refine ih ?_ node isNode
      rcases step with ⟨sameBody, isBlock, _⟩ | leaves
      · exact ⟨sameBody ▸ inside.1, by rw [sameBody]; exact isBlock⟩
      · exact (enters_of_leaves leaves).choose_spec.inProgram

theorem flow_nodes
    (path : Path FlowStep start visited last) (isBlock : start.block ∈ start.body.blocks) :
    ∀ node ∈ visited ++ [last], node.body = start.body ∧ node.block ∈ start.body.blocks := by
  induction path with
  | nil => simpa using isBlock
  | cons step _ ih =>
    obtain ⟨sameBody, isVia, _⟩ := step
    rw [sameBody] at ih
    intro node isNode
    rcases mem_cons.1 isNode with rfl | isNode
    · exact ⟨rfl, isBlock⟩
    · exact ih isVia node isNode

/-- A walk along control flow is a path over block ids. -/
theorem flow_path (unique : (start.body.blocks.map (·.id)).Nodup)
    (path : Path FlowStep start visited last) (isBlock : start.block ∈ start.body.blocks) :
    Path (Flow start.body.blocks) start.block.id (visited.map (·.block.id)) last.block.id := by
  induction path with
  | nil => exact .nil
  | @cons start via last rest step _ ih =>
    obtain ⟨sameBody, isVia, isSuccessor⟩ := step
    rw [sameBody] at ih
    exact .cons ⟨start.block, blockById_of_mem unique isBlock, isSuccessor⟩ (ih unique isVia)

/-- A body with a cycle has a branch: dispatch alone closes none. -/
theorem branch_of_cycle {lowered : Body} (isLowered : LoweredBody lowered) {id : IRBlockId}
    {visited : List IRBlockId} (path : Path (Flow lowered.blocks) id visited id)
    (nonempty : visited ≠ []) :
    ∃ block ∈ lowered.blocks, block.terminator.isBranch = true := by
  by_contra unbranched
  push Not at unbranched
  refine isLowered.dispatch id ((path.mono ?_).transGen nonempty)
  rintro source target ⟨block, found, isSuccessor⟩
  have branchless := unbranched block (mem_of_find?_eq_some found)
  have noTargets : block.terminator.targets = [] := by
    cases terminator : block.terminator <;> simp_all [IRTerminator.isBranch, IRTerminator.targets]
  refine ⟨block, found, ?_⟩
  simpa [successors, noTargets] using isSuccessor

/-- A cycle along control flow outside closure bodies yields where it branches back. -/
theorem flow_cycle_yields (program : ProgramChecked packages checked script body)
    (lowered : ∀ body ∈ bodies packages script, LoweredBody body)
    (reducible : ∀ body ∈ bodies packages script, ReducibleBody body)
    (inside : InProgram checked body node) (path : Path FlowStep node visited node)
    (nonempty : visited ≠ []) (notClosure : node.body.isClosure = false) : Yields node visited := by
  obtain ⟨before, isBody, bodyChecked, _⟩ := checked_body program inside.1 notClosure
  have sameIds : node.body.blocks.map (·.id) = before.blocks.map (·.id) := by
    have ids : List.Forall₂ Eq (before.blocks.map (·.id)) (node.body.blocks.map (·.id)) :=
      forall₂_map_left_iff.2 (forall₂_map_right_iff.2
        (bodyChecked.shape.imp fun _ _ same => same.id.symm))
    exact (forall₂_eq_eq_eq ▸ ids : _ = _).symm
  have sameFlow := flow_forall₂ bodyChecked.shape
  have unique : (node.body.blocks.map (·.id)).Nodup := sameIds ▸ (lowered before isBody).unique
  have ids := flow_path unique path inside.2
  obtain ⟨first, isFirst⟩ : ∃ first, before.blocks.head? = some first := by
    obtain ⟨old, isOld, _⟩ := forall₂_mem_right bodyChecked.shape inside.2
    exact isSome_iff_exists.1 (by simp [ne_nil_of_mem isOld])
  obtain ⟨newFirst, isNewFirst, sameFirst⟩ : ∃ newFirst, node.body.blocks.head? = some newFirst ∧
      newFirst.id = first.id := by
    have heads := congrArg head? sameIds
    rw [head?_map, head?_map, isFirst, map_some, map_eq_some_iff] at heads
    exact heads
  rw [sameFlow] at ids
  have branches := branch_of_cycle (lowered before isBody) ids (by simpa using nonempty)
  obtain ⟨source, target, consecutive, dominated⟩ :=
    reducible before isBody first isFirst _ _ ids (by simpa using nonempty)
  have listed : [source, target] <:+: (visited ++ [node]).map (·.block.id) := by
    simpa using consecutive
  obtain ⟨edge, isEdge, mapped⟩ := infix_map_iff.1 listed
  obtain ⟨source, rest, rfl, rfl, isRest⟩ := map_eq_cons_iff.1 mapped.symm
  obtain ⟨target, rfl, rfl⟩ := map_eq_singleton_iff.1 isRest
  have step := path.step_of_infix isEdge
  obtain ⟨sameBody, isBlock⟩ := flow_nodes path inside.2 source (isEdge.subset (by simp))
  refine .inl ⟨source, target, isEdge, step, ⟨newFirst, by rw [sameBody]; exact isNewFirst, ?_⟩, ?_⟩
  · rw [sameBody, sameFlow, sameFirst]
    exact dominated
  · exact bodyChecked.back branches _ isBlock _ step.2.2 first isFirst dominated

/-- The node is the entry block of the function `via` belongs to. -/
def EntryOf (packages : List IRPackage) (entry via : Node) : Prop :=
  ∃ function ∈ loweredFunctions packages, via.body = .function function ∧
    entry.body = .function function ∧ function.blocks.head? = some entry.block

theorem Enters.entryOf (enters : Enters packages symbol target) :
    EntryOf packages target target := by
  obtain ⟨function, isFunction, _, isBody, isFirst⟩ := enters
  exact ⟨function, isFunction, isBody, isBody, isFirst⟩

/-- Leaving a user function by a call or a tail call yields there or at the function's entry. -/
theorem leaving_yields (program : ProgramChecked packages checked script body) {entry via : Node}
    (entryOf : EntryOf checked entry via)
    (isBlock : via.block ∈ via.body.blocks) (notClosure : via.body.isClosure = false)
    (leaves : CallStep invokes checked via target ∨ TailStep checked via target) :
    ∃ node ∈ [entry, via], TailChecked node ∨ EntryChecked node := by
  obtain ⟨function, isFunction, isBody, entryBody, isFirst⟩ := entryOf
  have inBodies : via.body ∈ bodies checked body := by
    rw [isBody]
    exact mem_cons_of_mem _ (mem_map_of_mem isFunction)
  obtain ⟨before, _, bodyChecked, entryChecked⟩ := checked_body program inBodies notClosure
  rcases leaves with ⟨instruction, isInstruction, symbol, calls, _⟩ | ⟨args, callee, tails, _⟩
  · have isCall : instruction.isCall = true := by cases calls <;> rfl
    have contains : containsCall function.blocks = true := by
      rw [isBody] at isBlock
      exact any_eq_true.2 ⟨via.block, isBlock,
        any_eq_true.2 ⟨instruction, isInstruction, isCall⟩⟩
    obtain ⟨prologue, rest, shape, split⟩ := entryChecked function isBody contains _ isFirst
    exact ⟨entry, by simp, .inr ⟨function, prologue, rest, entryBody, isFirst, shape, split⟩⟩
  · have isTail : via.block.terminator.isTailCall = true := by rw [tails]; rfl
    exact ⟨via, by simp, .inl ⟨isTail, bodyChecked.tail via.block isBlock isTail⟩⟩

/-- A walk that enters a function at its start and leaves one at its end yields, if it meets a
user function. The induction carries the entry of the function the walk is in. -/
theorem entering_walk_yields (program : ProgramChecked packages checked script body)
    {entry via : Node} (path : Path (fun source target => FlowStep source target ∨
      (CallStep invokes checked source target ∨ TailStep checked source target))
      via visited last) (entryOf : EntryOf checked entry via)
    (isBlock : via.block ∈ via.body.blocks)
    (leaves : CallStep invokes checked last target ∨ TailStep checked last target)
    (meetsUser : ∃ node ∈ visited ++ [last], node.body.isClosure = false) :
    ∃ node ∈ entry :: (visited ++ [last]), TailChecked node ∨ EntryChecked node := by
  induction path generalizing entry with
  | nil =>
    obtain ⟨node, isNode, openNode⟩ := meetsUser
    rw [nil_append, mem_singleton] at isNode
    exact leaving_yields program entryOf isBlock (isNode ▸ openNode) leaves
  | @cons via next last rest step path ih =>
    have later : via.body.isClosure = true →
        ∃ node ∈ rest ++ [last], node.body.isClosure = false := by
      intro isClosure
      obtain ⟨node, isNode, openNode⟩ := meetsUser
      rcases mem_cons.1 isNode with rfl | isNode
      · simp [isClosure] at openNode
      · exact ⟨node, isNode, openNode⟩
    rcases step with ⟨sameBody, isNext, _⟩ | leavesVia
    · obtain ⟨function, isFunction, isBody, entryBody, isFirst⟩ := entryOf
      have openRest : ∃ node ∈ rest ++ [last], node.body.isClosure = false := by
        cases isClosure : via.body.isClosure with
        | true => exact later isClosure
        | false => exact ⟨next, path.head_mem, sameBody ▸ isClosure⟩
      obtain ⟨node, isNode, yields⟩ :=
        @ih entry ⟨function, isFunction, sameBody.trans isBody, entryBody, isFirst⟩
          (sameBody ▸ isNext) leaves openRest
      refine ⟨node, ?_, yields⟩
      rcases mem_cons.1 isNode with rfl | isNode
      · simp
      · exact mem_cons_of_mem _ (mem_cons_of_mem _ isNode)
    · cases isClosure : via.body.isClosure with
      | true =>
        obtain ⟨symbol, enters⟩ := enters_of_leaves leavesVia
        obtain ⟨node, isNode, yields⟩ :=
          ih enters.entryOf enters.block_mem leaves (later isClosure)
        refine ⟨node, mem_cons_of_mem _ (mem_cons_of_mem _ ?_), yields⟩
        rcases mem_cons.1 isNode with rfl | isNode
        · exact path.head_mem
        · exact isNode
      | false =>
        obtain ⟨node, isNode, yields⟩ :=
          leaving_yields program entryOf isBlock isClosure leavesVia
        exact ⟨node, mem_append_left (rest ++ [last]) isNode, yields⟩

/-- A cycle of the checked program that leaves the closure bodies yields. -/
theorem open_cycle_yields (program : ProgramChecked packages checked script body)
    (lowered : ∀ body ∈ bodies packages script, LoweredBody body)
    (reducible : ∀ body ∈ bodies packages script, ReducibleBody body)
    (cycle : Cycle invokes checked body node visited)
    (meetsUser : ∃ via ∈ visited, via.body.isClosure = false) : Yields node visited := by
  have inside : InProgram checked body node := ⟨cycle.body, cycle.block⟩
  rcases cycle.path.split with flow | ⟨before, source, target, after, first, leaves, second, rfl⟩
  · obtain ⟨via, isVia, openVia⟩ := meetsUser
    obtain ⟨sameBody, _⟩ := flow_nodes flow cycle.block via (by simp [isVia])
    exact flow_cycle_yields program lowered reducible inside flow cycle.nonempty
      (sameBody ▸ openVia)
  · -- Start the cycle at the entry that the call or tail call leads to.
    obtain ⟨symbol, enters⟩ := enters_of_leaves leaves
    have openRotated : ∃ via ∈ (after ++ before) ++ [source], via.body.isClosure = false := by
      obtain ⟨via, isVia, openVia⟩ := meetsUser
      exact ⟨via, by simp at isVia ⊢; tauto, openVia⟩
    obtain ⟨via, isVia, yields⟩ := entering_walk_yields program (second.append first)
      enters.entryOf enters.block_mem leaves openRotated
    refine .inr ⟨via, cycle.mem_visited ?_, yields⟩
    rcases mem_cons.1 isVia with rfl | isVia
    · have isHead := second.head_mem
      simp at isHead ⊢
      tauto
    · simp at isVia ⊢
      tauto

theorem closure_mem_iff (program : ProgramChecked packages checked script body) {before : Body}
    (isClosure : before.isClosure = true) :
    before ∈ bodies checked body ↔ before ∈ bodies packages script := by
  cases before with
  | script => simp [Body.isClosure] at isClosure
  | function closure =>
    have notRegular : closure.kind ≠ .regular := fun isRegular => by
      simp [Body.isClosure, isRegular] at isClosure
    simp only [bodies, mem_cons, reduceCtorEq, false_or, List.mem_map, Body.function.injEq,
      exists_eq_right]
    constructor
    · intro isNew
      obtain ⟨old, isOld, related⟩ := forall₂_mem_right program.functions isNew
      rwa [related.closed (related.kind ▸ notRegular)]
    · intro isOld
      obtain ⟨new, isNew, related⟩ := forall₂_mem_left program.functions isOld
      rwa [← related.closed notRegular]

/-- Two programs with the same closure bodies have the same cycles inside closure bodies. -/
theorem closure_cycle_transfer {other : List IRPackage} {otherScript : List IRBasicBlock}
    (same : ∀ lowered : Body, lowered.isClosure = true → lowered ∈ bodies packages script →
      lowered ∈ bodies other otherScript) (cycle : Cycle invokes packages script node visited)
    (stays : ∀ via ∈ visited, via.body.isClosure ≠ false) :
    Cycle invokes other otherScript node visited := by
  have closed : ∀ via ∈ visited ++ [node], via.body.isClosure = true := fun via isVia => by
    simpa using stays via (cycle.mem_visited isVia)
  have enters : ∀ {symbol target}, target.body.isClosure = true →
      Enters packages symbol target → Enters other symbol target := by
    rintro symbol target isClosure ⟨function, isFunction, named, isBody, isFirst⟩
    have listed := same _ isClosure (by
      rw [isBody]
      exact mem_cons_of_mem _ (mem_map_of_mem isFunction))
    rw [isBody] at listed
    rcases mem_cons.1 listed with impossible | isFunction
    · cases impossible
    · obtain ⟨found, isFound, isSame⟩ := mem_map.1 isFunction
      rw [Body.function.injEq] at isSame
      exact ⟨function, isSame ▸ isFound, named, isBody, isFirst⟩
  refine ⟨same _ (closed node (by simp)) cycle.body, cycle.block, ?_, cycle.nonempty⟩
  refine cycle.path.mono_on (fun source target _ isClosure step => ?_) closed
  rcases step with flow | ⟨instruction, isInstruction, symbol, calls, entered⟩ |
    ⟨args, callee, tails, entered⟩
  · exact .inl flow
  · exact .inr (.inl ⟨instruction, isInstruction, symbol, calls, enters isClosure entered⟩)
  · exact .inr (.inr ⟨args, callee, tails, enters isClosure entered⟩)

theorem Cycle.check_mem (cycle : Cycle invokes packages script node visited)
    (yields : Yields node visited) : ∃ via ∈ visited, .yieldCheck ∈ via.block.instructions := by
  rcases yields with ⟨source, target, consecutive, _, _, last⟩ | ⟨via, isVia, ⟨_, last⟩ | entry⟩
  · have isSource : source ∈ visited ++ [node] := consecutive.subset (by simp)
    exact ⟨source, cycle.mem_visited isSource, mem_of_getLast? last⟩
  · exact ⟨via, isVia, mem_of_getLast? last⟩
  · obtain ⟨_, prologue, rest, _, _, _, split⟩ := entry
    exact ⟨via, isVia, by simp [split]⟩

end

/-- For every program whose lowered bodies have reducible control flow, the pass returns, and
afterwards every cycle of the graph passes through a yield check exactly when every cycle of the
given program leaves the closure bodies. -/
theorem yield_checks_on_cycles_iff (invokes : Option IRSymbol → ValueId → IRSymbol → Prop)
    (packages : List IRPackage) (script : List IRBasicBlock)
    (lowered : ∀ body ∈ bodies packages script, LoweredBody body)
    (reducible : ∀ body ∈ bodies packages script, ReducibleBody body) :
    ∃ checked body, insertYieldChecks packages script = some (checked, body) ∧
      (EveryCycleYields invokes checked body ↔
        EveryCycleLeavesClosures invokes packages script) := by
  obtain ⟨checked, body, returned, program⟩ := insertYieldChecks_spec lowered
  refine ⟨checked, body, returned, fun everyYields node visited cycle => ?_,
    fun everyLeaves node visited cycle => ?_⟩
  · by_contra stays
    push Not at stays
    have kept := closure_cycle_transfer
      (fun lowered isClosure => (closure_mem_iff program isClosure).2) cycle stays
    obtain ⟨via, isVia, isCheck⟩ := cycle.check_mem (everyYields node visited kept)
    obtain ⟨isBody, isBlock⟩ := path_inProgram cycle.path ⟨cycle.body, cycle.block⟩ via
      (by simp [isVia])
    exact (lowered _ isBody).unchecked _ isBlock isCheck
  · by_cases stays : ∃ via ∈ visited, via.body.isClosure = false
    · exact open_cycle_yields program lowered reducible cycle stays
    · push Not at stays
      obtain ⟨via, isVia, notClosure⟩ := everyLeaves node visited (closure_cycle_transfer
        (fun lowered isClosure => (closure_mem_iff program isClosure).1) cycle stays)
      exact absurd notClosure (stays via isVia)

/-- A block that branches to itself. -/
def spinBlock : IRBasicBlock where
  id := 0
  params := []
  instructions := []
  terminator := .branch { args := [], block := 0 }

variable (kind : FunctionKind)

/-- A function of the given kind that loops forever in its only block. -/
def spinFunction : IRFunction where
  blocks := [spinBlock]
  kind := kind
  params := []
  returnType := .unit
  symbol := { mangled := "Test.spin" }

/-- A package with that function. -/
def spinPackage : IRPackage where
  enums := []
  functions := [spinFunction kind]
  package := "Test"

theorem spin_flow {source target : IRBlockId} (flow : Flow [spinBlock] source target) :
    source = 0 ∧ target = 0 := by
  obtain ⟨block, found, isSuccessor⟩ := flow
  have isSpin : block = spinBlock := by simpa using mem_of_find?_eq_some found
  have named : block.id = source := by simpa using find?_some found
  subst isSpin
  refine ⟨named.symm, ?_⟩
  simpa [successors, spinBlock, IRTerminator.targets] using isSuccessor

theorem spin_lowered : LoweredBody (.function (spinFunction kind)) := by
  refine ⟨by simp [Body.blocks, spinFunction], ?_, ?_, ?_⟩
  · intro id cyclic
    obtain ⟨_, ⟨block, found, isTarget⟩, _⟩ := Relation.TransGen.head'_iff.1 cyclic
    have isSpin : block = spinBlock := by
      simpa [Body.blocks, spinFunction] using mem_of_find?_eq_some found
    simp [isSpin, spinBlock] at isTarget
  · simp [Body.blocks, spinFunction, spinBlock]
  · rintro function isSame _ first isFirst
    obtain rfl : spinFunction kind = function := by simpa using isSame
    obtain rfl : spinBlock = first := by simpa [spinFunction] using isFirst
    exact ⟨[], [], .nil, rfl⟩

theorem spin_reducible : ReducibleBody (.function (spinFunction kind)) := by
  intro first isFirst a visited path nonempty
  obtain rfl : spinBlock = first := by simpa [Body.blocks, spinFunction] using isFirst
  refine ⟨0, 0, ?_, ⟨[], .nil⟩, fun _ _ => .inr rfl⟩
  cases path with
  | nil => exact absurd rfl nonempty
  | cons step rest =>
    obtain ⟨rfl, rfl⟩ := spin_flow step
    cases rest with
    | nil => exact infix_rfl
    | cons => exact ⟨[], _, rfl⟩

theorem spin_bodies {kind : FunctionKind} {body : Body}
    (isBody : body ∈ bodies [spinPackage kind] []) :
    body = .script [] ∨ body = .function (spinFunction kind) := by
  simp only [bodies, loweredFunctions, spinPackage, flatMap_cons, flatMap_nil, append_nil,
    mem_cons, List.mem_map, List.mem_filter, not_mem_nil] at isBody
  rcases isBody with rfl | ⟨function, ⟨rfl | impossible, _⟩, rfl⟩
  · exact .inl rfl
  · exact .inr rfl
  · exact impossible.elim

theorem empty_script_lowered : LoweredBody (.script []) := by
  refine ⟨by simp [Body.blocks], ?_, by simp [Body.blocks], by simp⟩
  intro id cyclic
  obtain ⟨_, ⟨block, found, _⟩, _⟩ := Relation.TransGen.head'_iff.1 cyclic
  simp [Body.blocks, blockById] at found

/-- Both hypotheses hold of a program that only spins. -/
theorem spin_program {kind : FunctionKind} :
    (∀ body ∈ bodies [spinPackage kind] [], LoweredBody body) ∧
      ∀ body ∈ bodies [spinPackage kind] [], ReducibleBody body := by
  refine ⟨fun body isBody => ?_, fun body isBody => ?_⟩
  · rcases spin_bodies isBody with rfl | rfl
    · exact empty_script_lowered
    · exact spin_lowered kind
  · rcases spin_bodies isBody with rfl | rfl
    · intro first isFirst
      simp [Body.blocks] at isFirst
    · exact spin_reducible kind

/-- A user function that spins is interrupted on every cycle. -/
theorem spinning_function_yields :
    ∃ checked body, insertYieldChecks [spinPackage .regular] [] = some (checked, body) ∧
      EveryCycleYields (fun _ _ _ => False) checked body := by
  obtain ⟨lowered, reducible⟩ := spin_program
  obtain ⟨checked, body, returned, covered⟩ :=
    yield_checks_on_cycles_iff (fun _ _ _ => False) _ _ lowered reducible
  refine ⟨checked, body, returned, covered.2 fun node visited cycle => ?_⟩
  refine ⟨node, cycle.mem_visited (by simp), ?_⟩
  rcases spin_bodies cycle.body with isBody | isBody
  · rw [isBody]
    rfl
  · rw [isBody]
    rfl

/-- A closure body that spins is left without a check: its cycle never yields. -/
theorem spinning_closure_never_yields :
    (∀ body ∈ bodies [spinPackage (.closure [])] [], LoweredBody body ∧ ReducibleBody body) ∧
      insertYieldChecks [spinPackage (.closure [])] [] = some ([spinPackage (.closure [])], []) ∧
      ∃ node visited, Cycle (fun _ _ _ => False) [spinPackage (.closure [])] [] node visited ∧
          ¬ Yields node visited := by
  obtain ⟨lowered, reducible⟩ := spin_program
  have isBody : Body.function (spinFunction (.closure [])) ∈
      bodies [spinPackage (.closure [])] [] := by
    simp [bodies, loweredFunctions, spinPackage, isLowered, spinFunction]
  have cycle : Cycle (fun _ _ _ => False) [spinPackage (.closure [])] []
      ⟨.function (spinFunction (.closure [])), spinBlock⟩
      [⟨.function (spinFunction (.closure [])), spinBlock⟩] := by
    refine ⟨isBody, by simp [Body.blocks, spinFunction], .cons (.inl ⟨rfl, ?_, ?_⟩) .nil, by simp⟩
    · simp [Body.blocks, spinFunction]
    · simp [successors, spinBlock, IRTerminator.targets]
  refine ⟨fun body inside => ⟨lowered body inside, reducible body inside⟩, ?_,
    ⟨_, _, cycle, fun yields => ?_⟩⟩
  · simp [insertYieldChecks, insertInPackage, insertInFunction, insertInBody, spinPackage,
      spinFunction]
  · obtain ⟨via, isVia, isCheck⟩ := cycle.check_mem yields
    rw [mem_singleton.1 isVia] at isCheck
    simp [spinBlock] at isCheck

end Koja.Guarantees.Ir
