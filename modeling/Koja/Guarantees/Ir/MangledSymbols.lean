import Koja.Guarantees.Ir.Mangling

/-!
# Symbols of types, functions, methods and glue

The symbol of a member is the row of its owner, a dot, the member's name and arity, and the block
of its own arguments. Owner, member and arguments are read back from it. A glue symbol holds a dot
in front of a `$`, which no other mangled symbol does.
-/
namespace Koja.Guarantees.Ir

open Koja.Source.Ir Koja.Source.Typecheck Koja.Lib SourceType List Option

section Fence

variable (isEnum : Identifier → Bool) {declared : Identifier → Prop} {rest name : List Char}

/-- No dot stands in front of a `$`. -/
def Fenceless : List Char → Prop
  | [] => True
  | c :: rest => (c = '.' → rest.head? ≠ some '$') ∧ Fenceless rest

theorem fenceless_append_right {text : List Char} (fenceless : Fenceless (text ++ rest)) :
    Fenceless rest := by
  induction text with
  | nil => exact fenceless
  | cons _ _ ih => exact ih fenceless.2

theorem fenceless_of_no_dot {text : List Char} (noDot : '.' ∉ text)
    (fenceless : Fenceless rest) : Fenceless (text ++ rest) := by
  induction text with
  | nil => exact fenceless
  | cons _ _ ih =>
    rw [mem_cons, not_or] at noDot
    exact ⟨fun dot => absurd dot.symm noDot.1, ih noDot.2⟩

theorem name_no_dot (ident : ∀ c ∈ name, isIdentChar c = true) : '.' ∉ name := by
  intro member
  cases ident '.' member

theorem rowText_fenceless {row : List Seg} (ok : ∀ seg ∈ row, SegOk isEnum declared seg)
    (blocks : ∀ seg ∈ row, ∀ chunks, seg.block = some chunks → ∀ rest, Fenceless rest →
      Fenceless (chunkText isEnum chunks ++ rest)) (fenceless : Fenceless rest) :
    Fenceless (rowText isEnum row ++ rest) := by
  induction row with
  | nil => exact fenceless
  | cons seg row ih =>
    rw [forall_mem_cons] at ok blocks
    have after := ih ok.2 blocks.2
    have noDot := name_no_dot ok.1.valid.identChars
    have afterBlock : Fenceless (blockText isEnum seg.block ++ (rowText isEnum row ++ rest)) := by
      cases block : seg.block with
      | none => exact after
      | some chunks =>
        have inner := blocks.1 chunks block _ after
        exact ⟨by simp, by simp, inner⟩
    have afterName := fenceless_of_no_dot noDot afterBlock
    obtain ⟨first, others, named, upper, _⟩ := ok.1.valid
    rw [rowText_cons]
    cases seg.mark with
    | dot =>
      have head : ∀ text, (seg.name ++ text).head? = some first := by
        intro text
        rw [named]
        rfl
      refine ⟨fun _ fence => ?_, afterName⟩
      obtain rfl : first = '$' := Option.some.inj ((head _).symm.trans fence)
      cases upper
    | union => exact ⟨by simp, fenceless_of_no_dot (by decide) afterName⟩
    | or => exact fenceless_of_no_dot (by decide) afterName

theorem chunks_fenceless (names : AllNamesOk declared)
    {chunks : Chunks} (ok : ChunksOk declared chunks) :
    ∀ rest, Fenceless rest → Fenceless (chunkText isEnum chunks ++ rest) := by
  induction size : (chunkText isEnum chunks).length using Nat.strong_induction_on
    generalizing chunks with
  | _ n ih =>
    intro rest fenceless
    obtain ⟨types, c, others, rfl, row, ends⟩ := ok.first
    rw [chunkText_cons, length_append, length_cons] at size
    have after : Fenceless (chunkText isEnum others ++ rest) := by
      rcases ends with ⟨_, rfl⟩ | ⟨_, othersOk⟩
      · exact fenceless
      · exact ih _ (by omega) othersOk rfl rest fenceless
    have ended : Fenceless (c :: (chunkText isEnum others ++ rest)) := by
      refine ⟨?_, after⟩
      rintro rfl
      rcases ends with ⟨impossible, _⟩ | ⟨impossible | impossible, _⟩ <;> cases impossible
    rw [chunkText_cons, append_assoc, cons_append]
    rcases row with ⟨rfl, _⟩ | ⟨nonempty, ranged⟩
    · exact ended
    · have text := dotted_row isEnum names.paths nonempty ranged
      have fine := rowText_fenceless isEnum (typesRow_ok isEnum names ranged) ?_ ended
      · rw [← text] at fine
        exact fine.2
      · intro seg member inner block
        have less := block_shorter isEnum member block
        rw [← text, length_cons] at less
        exact ih _ (by omega) ((typesRow_ok isEnum names ranged seg member).block inner block).rows
          rfl

end Fence

section Members

variable (isEnum : Identifier → Bool) {declared : Identifier → Prop} {args : List SourceType}

/-- The text of an argument block, empty without arguments. -/
def argsText (args : List SourceType) : List Char :=
  blockText isEnum (argsBlock args)

/-- The text of a member after the row of its owner. -/
def memberText (name : List Char) (arity : Nat) (args : List SourceType) : List Char :=
  '.' :: (name ++ '/' :: (Nat.toDigits 10 arity ++ argsText isEnum args))

theorem arity_digits (arity : Nat) : ∀ c ∈ Nat.toDigits 10 arity, c.isDigit = true :=
  fun _ member => Nat.isDigit_of_mem_toDigits (by decide) (by decide) member

theorem arity_inj {arity arity' : Nat} (same : Nat.toDigits 10 arity = Nat.toDigits 10 arity') :
    arity = arity' := by
  have value := congrArg (fun digits => Nat.ofDigitChars 10 digits 0) same
  simpa [Nat.ofDigitChars_toDigits] using value

theorem argsText_ends (args : List SourceType) :
    ∀ c ∈ (argsText isEnum args).head?, ¬c.isDigit = true := by
  cases args with
  | nil | cons => simp [argsText, argsBlock, blockText]

theorem argsText_inj (names : AllNamesOk declared)
    (unique : UniquelyDecodable (Word declared)) {args' : List SourceType}
    (ranged : ∀ ty ∈ args, ty.Over declared) (ranged' : ∀ ty ∈ args', ty.Over declared)
    (same : argsText isEnum args = argsText isEnum args') : args = args' := by
  cases args with
  | nil =>
    cases args' with
    | nil => rfl
    | cons => simp [argsText, argsBlock, blockText] at same
  | cons arg args =>
    cases args' with
    | nil => simp [argsText, argsBlock, blockText] at same
    | cons arg' args' =>
      simp only [argsText, argsBlock, blockText] at same
      have ok : ChunksOk declared [(arg :: args, '$')] := .last (by simp) ranged
      have ok' : ChunksOk declared [(arg' :: args', '$')] := .last (by simp) ranged'
      have read := chunks_readable isEnum names unique ok _ [] [] ok' (by simp [NotUpper])
        (by simp [NotUpper]) (by simpa using same)
      simpa using read.1

theorem memberText_stops (valid : FunctionName name) (arity : Nat)
    (args : List SourceType) : Stops (memberText isEnum name arity args) := by
  obtain ⟨first, rest, rfl, lower, _⟩ := valid
  refine ⟨rfl, fun _ => ?_⟩
  intro c head
  simp only [cons_append, head?_cons, mem_some_iff] at head
  subst head
  rcases lower with lower | rfl
  · by_contra upper
    simp only [Bool.not_eq_false] at upper
    have above := UInt32.le_iff_toNat_le.mp (of_decide_eq_true (Bool.and_eq_true_iff.mp lower).1)
    have below := UInt32.le_iff_toNat_le.mp (of_decide_eq_true upper).2
    simp at above below
    omega
  · rfl

theorem FunctionName.identChars (valid : FunctionName name) : ∀ c ∈ name, isIdentChar c = true := by
  obtain ⟨first, rest, rfl, lower, others⟩ := valid
  rw [forall_mem_cons]
  refine ⟨?_, others⟩
  rcases lower with lower | rfl
  · simp [isIdentChar_eq, lower]
  · rfl

/-- The name, the arity and the arguments of a member are read back from its text. -/
theorem memberText_inj (names : AllNamesOk declared) (unique : UniquelyDecodable (Word declared))
    {name' : List Char} (valid : FunctionName name) (valid' : FunctionName name')
    {arity arity' : Nat} {args' : List SourceType} (ranged : ∀ ty ∈ args, ty.Over declared)
    (ranged' : ∀ ty ∈ args', ty.Over declared)
    (same : memberText isEnum name arity args = memberText isEnum name' arity' args') :
    name = name' ∧ arity = arity' ∧ args = args' := by
  have noSlash : ∀ {name : List Char}, FunctionName name → ∀ c ∈ name, c ≠ '/' := by
    rintro name valid c member rfl
    cases valid.identChars '/' member
  simp only [memberText, List.cons.injEq, true_and] at same
  obtain ⟨sameName, same⟩ :=
    split_unique (noSlash valid) (noSlash valid') (by simp) (by simp) same
  rw [List.cons.injEq] at same
  obtain ⟨sameArity, same⟩ := split_unique (arity_digits arity) (arity_digits arity')
    (argsText_ends isEnum args) (argsText_ends isEnum args') same.2
  exact ⟨sameName, arity_inj sameArity, argsText_inj isEnum names unique ranged ranged' same⟩

theorem memberText_fenceless (names : AllNamesOk declared) (valid : FunctionName name) (arity : Nat)
    (ranged : ∀ ty ∈ args, ty.Over declared) : Fenceless (memberText isEnum name arity args) := by
  have block : Fenceless (argsText isEnum args) := by
    cases args with
    | nil => trivial
    | cons arg args =>
      have ok : ChunksOk declared [(arg :: args, '$')] := .last (by simp) ranged
      have inner := chunks_fenceless isEnum names ok [] trivial
      rw [append_nil] at inner
      exact ⟨by simp, by simp, inner⟩
  have digits : '.' ∉ Nat.toDigits 10 arity := fun member => by cases arity_digits arity _ member
  have afterName : Fenceless ('/' :: (Nat.toDigits 10 arity ++ argsText isEnum args)) :=
    ⟨by simp, fenceless_of_no_dot digits block⟩
  refine ⟨fun _ => ?_, fenceless_of_no_dot (name_no_dot valid.identChars) afterName⟩
  obtain ⟨first, rest, rfl, lower, _⟩ := valid
  simp only [cons_append, head?_cons, ne_eq, Option.some.injEq]
  rintro rfl
  rcases lower with lower | lower <;> cases lower

end Members

section Symbols

variable (isEnum : Identifier → Bool) (declared : Identifier → Prop) {parts : List (List Char)}
  {identifier : Identifier} {ty : SourceType}

/-- A function: a package, the types it is nested in, and its name. -/
structure FunctionOk (owner : List (List Char)) (name : List Char) (identifier : Identifier) :
    Prop where
  split : segNames identifier = owner ++ [name]
  nonempty : owner ≠ []
  valid : ∀ part ∈ owner, TypeName part
  unmarked : ∀ part ∈ owner, Unmarked part
  named : FunctionName name

/-- The symbols `mangled_type_name`, `mangled_function_name` and `mangled_method_name` make. -/
inductive MangledSymbol : IRSymbol → Prop
  | type {template : Identifier} {args : List SourceType} (names : NamesOk template)
      (ranged : ∀ ty ∈ args, ty.Over declared) :
      MangledSymbol (mangledTypeName (symbolOf template) (toIrEach isEnum args))
  | function {identifier : Identifier} {owner : List (List Char)} {name : List Char}
      (names : FunctionOk owner name identifier) (arity : Nat) {args : List SourceType}
      (ranged : ∀ ty ∈ args, ty.Over declared) :
      MangledSymbol (mangledFunctionName (sourceFunctionSymbol identifier arity)
        (toIrEach isEnum args))
  | method {template : Identifier} {receiverArgs : List SourceType} {name : String}
      (names : NamesOk template) (overReceiver : ∀ ty ∈ receiverArgs, ty.Over declared)
      (named : FunctionName name.toList) (arity : Nat) {args : List SourceType}
      (ranged : ∀ ty ∈ args, ty.Over declared) :
      MangledSymbol (mangledMethodName (symbolOf template)
        (toIrEach isEnum receiverArgs) name arity (toIrEach isEnum args))

/-- The glue of a type. -/
def typeGlue : List (IRType → IRSymbol) :=
  [cloneGlueSymbol, deepCopyGlueSymbol, dropGlueSymbol, envelopeDropGlueSymbol,
    envelopeCopyGlueSymbol]

/-- The glue of a closure body, and the consuming twin. -/
def bodyGlue : List (IRSymbol → IRSymbol) :=
  [closureDropEnvSymbol, closureCopyEnvSymbol, closureEqEnvSymbol, consumeTwinSymbol]

/-- The types that have glue: source types and their boxed forms in recursive layouts. -/
def glueType (boxed : Bool) (ty : SourceType) : IRType :=
  if boxed then .indirect (ty.toIr isEnum) else ty.toIr isEnum

/-- Equal symbols come from equal parts, and no mangled symbol is a glue symbol. -/
structure SymbolsApart : Prop where
  types : ∀ template template' args args', NamesOk template → NamesOk template' →
    (∀ ty ∈ args, ty.Over declared) → (∀ ty ∈ args', ty.Over declared) →
    mangledTypeName (symbolOf template) (toIrEach isEnum args) =
      mangledTypeName (symbolOf template') (toIrEach isEnum args') →
    template = template' ∧ args = args'
  functions : ∀ identifier identifier' owner owner' name name' arity arity' args args',
    FunctionOk owner name identifier → FunctionOk owner' name' identifier' →
    (∀ ty ∈ args, ty.Over declared) → (∀ ty ∈ args', ty.Over declared) →
    mangledFunctionName (sourceFunctionSymbol identifier arity) (toIrEach isEnum args) =
      mangledFunctionName (sourceFunctionSymbol identifier' arity') (toIrEach isEnum args') →
    identifier = identifier' ∧ arity = arity' ∧ args = args'
  methods : ∀ template template' receiverArgs receiverArgs' name name' arity arity' args args',
    NamesOk template → NamesOk template' →
    (∀ ty ∈ receiverArgs, ty.Over declared) → (∀ ty ∈ receiverArgs', ty.Over declared) →
    FunctionName name.toList → FunctionName name'.toList →
    (∀ ty ∈ args, ty.Over declared) → (∀ ty ∈ args', ty.Over declared) →
    mangledMethodName (symbolOf template) (toIrEach isEnum receiverArgs) name arity
        (toIrEach isEnum args) =
      mangledMethodName (symbolOf template') (toIrEach isEnum receiverArgs') name'
        arity' (toIrEach isEnum args') →
    template = template' ∧ receiverArgs = receiverArgs' ∧ name = name' ∧ arity = arity' ∧
      args = args'
  glue : ∀ glue ∈ typeGlue, ∀ glue' ∈ typeGlue, ∀ boxed boxed' ty ty',
    ty.Over declared → ty'.Over declared →
    glue (glueType isEnum boxed ty) = glue' (glueType isEnum boxed' ty') →
    glue = glue' ∧ boxed = boxed' ∧ ty = ty'
  fenced : ∀ symbol, MangledSymbol isEnum declared symbol →
    (∀ glue ∈ typeGlue, ∀ ty, symbol ≠ glue ty) ∧ ∀ glue ∈ bodyGlue, ∀ body, symbol ≠ glue body

variable {declared}

theorem segNames_ne_nil (identifier : Identifier) : segNames identifier ≠ [] := by
  simp [segNames]

theorem mangledMethodName_text {template : Identifier} (path : template.path ≠ [])
    (receiverArgs : List SourceType) (name : String) (arity : Nat) (args : List SourceType) :
    '.' :: (mangledMethodName (symbolOf template) (toIrEach isEnum receiverArgs) name
        arity (toIrEach isEnum args)).mangled.toList =
      rowText isEnum (namedRow (segNames template) (argsBlock receiverArgs)) ++
        memberText isEnum name.toList arity args := by
  have derived : mangledMethodName (symbolOf template) (toIrEach isEnum receiverArgs) name arity
      (toIrEach isEnum args) = mangledTypeName ((mangledTypeName (symbolOf template)
        (toIrEach isEnum receiverArgs)).derived ("." ++ name ++ "/" ++ toString arity))
        (toIrEach isEnum args) := by
    cases args with
    | nil => rfl
    | cons => simp [mangledMethodName, mangledTypeName, IRSymbol.derived, toIrEach,
      String.append_assoc]
  rw [derived, mangledTypeName_block, ← mangledTypeName_text isEnum template path]
  simp [IRSymbol.derived, memberText, argsText]

theorem mangledFunctionName_text {owner : List (List Char)} (ok : FunctionOk owner name identifier)
    (arity : Nat)
    (args : List SourceType) :
    '.' :: (mangledFunctionName (sourceFunctionSymbol identifier arity)
        (toIrEach isEnum args)).mangled.toList =
      rowText isEnum (namedRow owner (argsBlock [])) ++ memberText isEnum name arity args := by
  have path : identifier.path ≠ [] := by
    intro empty
    have split := ok.split
    rw [segNames, empty, map_nil] at split
    have short := congrArg List.length split
    have long := length_pos_iff.mpr ok.nonempty
    rw [length_append, length_singleton, length_singleton] at short
    omega
  have symbol := symbolOf_text identifier path
  rw [ok.split] at symbol
  rw [namedRow_text isEnum ok.nonempty, mangledFunctionName, mangledTypeName_block]
  obtain ⟨first, rest, rfl⟩ := exists_cons_of_ne_nil ok.nonempty
  simp [sourceFunctionSymbol, IRSymbol.derived, symbol, intercalate_eq_flatMap, memberText,
    argsText,
    argsBlock, blockText]

theorem glueBase_mangled (ty : IRType) : (glueBase ty).mangled = ty.mangle := by
  cases ty <;> rfl

/-- The row of a type with glue. -/
def glueRow (boxed : Bool) (ty : SourceType) : List Seg :=
  if boxed then [⟨.dot, "Indirect".toList, some [([ty], '$')]⟩] else typesRow [ty]

theorem typesRow_not_boxed (paths : HavePaths declared) (ranged : ty.Over declared)
    (block : Option Chunks) :
    typesRow [ty] ≠ [⟨.dot, "Indirect".toList, block⟩] := by
  intro same
  rcases leaves_cons ranged [] with ⟨notUnion, split⟩ | ⟨first, others, rfl, split⟩
  · have single : typesRow [ty] = markedRow .dot ty := by
      simp [typesRow, split, leaves]
    rw [single] at same
    cases ty with
    | union => simp [isUnion] at notUnion
    | named identifier =>
      cases path : identifier.path with
      | nil => exact paths identifier ranged.1 path
      | cons _ rest =>
        cases rest <;> simp [markedRow, typeRow, segNames, path, namedRow] at same
    | plain ty =>
      simp only [markedRow, typeRow, List.cons.injEq, Seg.mk.injEq, true_and, and_true] at same
      cases ty <;> exact absurd same.1 (by decide)
    | _ => simp [markedRow, typeRow] at same
  · obtain ⟨_, notUnion, overMembers⟩ := ranged
    obtain ⟨name, inner, rest, row⟩ := typeRow_cons paths overMembers.1
      (notUnion first mem_cons_self)
    simp [typesRow, split, markedRow, row] at same

theorem typeGlue_mem {glue : IRType → IRSymbol} (member : glue ∈ typeGlue) :
    ∃ suffix, glue = typeGlueSymbol suffix ∧ Stops suffix.toList ∧ ¬Fenceless suffix.toList := by
  simp only [typeGlue, mem_cons, not_mem_nil, or_false] at member
  rcases member with rfl | rfl | rfl | rfl | rfl <;>
    exact ⟨_, rfl, ⟨rfl, fun _ c head => by simp at head; subst head; rfl⟩,
      fun fenceless => fenceless.1 rfl rfl⟩

theorem bodyGlue_mem {glue : IRSymbol → IRSymbol} (member : glue ∈ bodyGlue) :
    ∃ suffix, (∀ body, glue body = body.derived suffix) ∧ ¬Fenceless suffix.toList := by
  simp only [bodyGlue, mem_cons, not_mem_nil, or_false] at member
  rcases member with rfl | rfl | rfl | rfl <;>
    exact ⟨_, fun _ => rfl, fun fenceless => fenceless.1 rfl rfl⟩

theorem namedRow_ok (names : AllNamesOk declared)
    (valid : ∀ part ∈ parts, TypeName part) (unmarked : ∀ part ∈ parts, Unmarked part)
    (ranged : ∀ ty ∈ args, ty.Over declared) :
    ∀ seg ∈ namedRow parts (argsBlock args), SegOk isEnum declared seg := by
  intro seg member
  obtain ⟨name, block⟩ := namedRow_mem member
  refine segOk_of_block isEnum names ⟨valid _ name, unmarked _ name⟩ fun chunks own => ?_
  rcases block with blockless | same
  · rw [blockless] at own
    cases own
  · rw [same] at own
    cases args with
    | nil => cases own
    | cons =>
      cases own
      exact ⟨.last (by simp) ranged, by simp⟩

/-- An owner and what follows it are read back from the text of a symbol. -/
theorem owner_unique (names : AllNamesOk declared) (unique : UniquelyDecodable (Word declared))
    {parts' : List (List Char)} (nonempty : parts ≠ []) (nonempty' : parts' ≠ [])
    (valid : ∀ part ∈ parts, TypeName part) (valid' : ∀ part ∈ parts', TypeName part)
    (unmarked : ∀ part ∈ parts, Unmarked part) (unmarked' : ∀ part ∈ parts', Unmarked part)
    {args' : List SourceType} (ranged : ∀ ty ∈ args, ty.Over declared)
    (ranged' : ∀ ty ∈ args', ty.Over declared) {rest' : List Char} (stops : Stops rest)
    (stops' : Stops rest') (same : rowText isEnum (namedRow parts (argsBlock args)) ++ rest =
      rowText isEnum (namedRow parts' (argsBlock args')) ++ rest') :
    parts = parts' ∧ args = args' ∧ rest = rest' := by
  have ok := namedRow_ok isEnum names valid unmarked ranged
  have ok' := namedRow_ok isEnum names valid' unmarked' ranged'
  obtain ⟨sameRow, sameRest⟩ := row_unique isEnum ok ok' (fun seg member chunks block =>
      chunks_readable isEnum names unique ((ok seg member).block chunks block).rows)
    stops stops' same
  obtain ⟨sameParts, sameBlock⟩ := namedRow_inj nonempty nonempty' sameRow
  exact ⟨sameParts, argsBlock_inj sameBlock, sameRest⟩

theorem typeGlueSymbol_text (names : AllNamesOk declared) (suffix : String) (boxed : Bool)
    (ranged : ty.Over declared) :
    '.' :: (typeGlueSymbol suffix (glueType isEnum boxed ty)).mangled.toList =
      rowText isEnum (glueRow boxed ty) ++ suffix.toList := by
  rw [typeGlueSymbol, IRSymbol.derived, glueBase_mangled]
  cases boxed with
  | true =>
    simp [glueType, glueRow, IRType.mangle, rowText, Seg.text, Mark.text, blockText, chunkText,
      dotted, spell]
  | false =>
    have text := @typesRow_text isEnum _ [ty] names.paths (by simpa using ranged)
    simp only [glueRow, Bool.false_eq_true, ↓reduceIte, text]
    simp [glueType, spell]

theorem glueRow_ok (names : AllNamesOk declared) (boxed : Bool) (ranged : ty.Over declared) :
    ∀ seg ∈ glueRow boxed ty, SegOk isEnum declared seg := by
  cases boxed with
  | false => exact typesRow_ok isEnum names (by simpa using ranged)
  | true =>
    intro seg member
    simp only [glueRow, ↓reduceIte, mem_singleton] at member
    subst member
    refine segOk_of_block isEnum names (builtin_name_ok (by simp)) fun chunks own => ?_
    cases own
    exact ⟨.last (by simp) (by simpa using ranged), by simp⟩

theorem glueRow_inj (names : AllNamesOk declared) (unique : UniquelyDecodable (Word declared))
    {boxed boxed' : Bool} {ty' : SourceType} (ranged : ty.Over declared)
    (ranged' : ty'.Over declared) (same : glueRow boxed ty = glueRow boxed' ty') :
    boxed = boxed' ∧ ty = ty' := by
  cases boxed with
  | false =>
    cases boxed' with
    | false =>
      have types := typesRow_inj names.paths unique (by simpa using ranged)
        (by simpa using ranged') same
      simpa using types
    | true => exact absurd same (typesRow_not_boxed names.paths ranged _)
  | true =>
    cases boxed' with
    | false => exact absurd same.symm (typesRow_not_boxed names.paths ranged' _)
    | true => simpa [glueRow] using same

/-- No mangled symbol holds the fence of a glue symbol. -/
theorem mangledSymbol_fenceless (names : AllNamesOk declared)
    {symbol : IRSymbol} (mangled : MangledSymbol isEnum declared symbol) :
    Fenceless symbol.mangled.toList := by
  have row : ∀ {parts : List (List Char)} {args : List SourceType} {rest : List Char},
      (∀ part ∈ parts, TypeName part) → (∀ part ∈ parts, Unmarked part) →
      (∀ ty ∈ args, ty.Over declared) → Fenceless rest →
      Fenceless (rowText isEnum (namedRow parts (argsBlock args)) ++ rest) := by
    intro parts args rest valid unmarked ranged fenceless
    have ok := namedRow_ok isEnum names valid unmarked ranged
    exact rowText_fenceless isEnum ok (fun seg member chunks block =>
      chunks_fenceless isEnum names ((ok seg member).block chunks block).rows) fenceless
  cases mangled with
  | @type template args own ranged =>
    have fine := @row _ _ [] own.valid own.unmarked ranged trivial
    rw [append_nil, ← mangledTypeName_text isEnum template own.path] at fine
    exact fine.2
  | @function identifier owner name own arity args ranged =>
    have fine := @row _ [] _ own.valid own.unmarked (by simp)
      (memberText_fenceless isEnum names own.named arity ranged)
    rw [← mangledFunctionName_text isEnum own] at fine
    exact fine.2
  | @method template receiverArgs name own overReceiver named arity args ranged =>
    have fine := row own.valid own.unmarked overReceiver
      (memberText_fenceless isEnum names named arity ranged)
    rw [← mangledMethodName_text isEnum own.path] at fine
    exact fine.2

/-- Uniquely spelled names keep all symbols apart. -/
theorem symbolsApart_of_unique (names : AllNamesOk declared)
    (unique : UniquelyDecodable (Word declared)) : SymbolsApart isEnum declared := by
  have dotted : ∀ {symbol symbol' : IRSymbol}, symbol = symbol' →
      '.' :: symbol.mangled.toList = '.' :: symbol'.mangled.toList := fun same => by rw [same]
  refine ⟨?_, ?_, ?_, ?_, ?_⟩
  · intro template template' args args' own own' ranged ranged' same
    have text := dotted same
    rw [mangledTypeName_text isEnum template own.path,
      mangledTypeName_text isEnum template' own'.path] at text
    have noRest : Stops [] := trivial
    obtain ⟨sameNames, sameArgs, _⟩ := owner_unique isEnum names unique
      (segNames_ne_nil template) (segNames_ne_nil template') own.valid own'.valid own.unmarked
      own'.unmarked ranged ranged' noRest noRest (by simpa using text)
    exact ⟨segNames_inj sameNames, sameArgs⟩
  · intro identifier identifier' owner owner' name name' arity arity' args args' own own' ranged
      ranged' same
    have text := dotted same
    rw [mangledFunctionName_text isEnum own, mangledFunctionName_text isEnum own'] at text
    obtain ⟨sameOwner, _, sameMember⟩ := owner_unique isEnum names unique own.nonempty
      own'.nonempty own.valid own'.valid own.unmarked own'.unmarked (by simp) (by simp)
      (memberText_stops isEnum own.named arity args)
      (memberText_stops isEnum own'.named arity' args') text
    obtain ⟨sameName, sameArity, sameArgs⟩ := memberText_inj isEnum names unique own.named
      own'.named ranged ranged' sameMember
    have sameNames : segNames identifier = segNames identifier' := by
      rw [own.split, own'.split, sameOwner, sameName]
    exact ⟨segNames_inj sameNames, sameArity, sameArgs⟩
  · intro template template' receiverArgs receiverArgs' name name' arity arity' args args' own
      own' overReceiver overReceiver' named named' ranged ranged' same
    have text := dotted same
    rw [mangledMethodName_text isEnum own.path, mangledMethodName_text isEnum own'.path] at text
    obtain ⟨sameNames, sameReceiver, sameMember⟩ := owner_unique isEnum names unique
      (segNames_ne_nil template) (segNames_ne_nil template') own.valid own'.valid own.unmarked
      own'.unmarked overReceiver overReceiver' (memberText_stops isEnum named arity args)
      (memberText_stops isEnum named' arity' args') text
    obtain ⟨sameName, sameArity, sameArgs⟩ := memberText_inj isEnum names unique named named'
      ranged ranged' sameMember
    exact ⟨segNames_inj sameNames, sameReceiver, String.toList_inj.mp sameName, sameArity, sameArgs⟩
  · intro glue member glue' member' boxed boxed' ty ty' ranged ranged' same
    obtain ⟨suffix, rfl, stops, -⟩ := typeGlue_mem member
    obtain ⟨suffix', rfl, stops', -⟩ := typeGlue_mem member'
    have text := dotted same
    rw [typeGlueSymbol_text isEnum names suffix boxed ranged,
      typeGlueSymbol_text isEnum names suffix' boxed' ranged'] at text
    have ok := glueRow_ok isEnum names boxed ranged
    obtain ⟨sameRow, sameSuffix⟩ := row_unique isEnum ok (glueRow_ok isEnum names boxed' ranged')
      (fun seg member chunks block =>
        chunks_readable isEnum names unique ((ok seg member).block chunks block).rows)
      stops stops' text
    obtain ⟨sameBox, sameType⟩ := glueRow_inj names unique ranged ranged' sameRow
    exact ⟨congrArg typeGlueSymbol (String.toList_inj.mp sameSuffix), sameBox, sameType⟩
  · intro symbol mangled
    have fine := mangledSymbol_fenceless isEnum names mangled
    refine ⟨fun glue member ty same => ?_, fun glue member body same => ?_⟩
    · obtain ⟨suffix, rfl, -, fenced⟩ := typeGlue_mem member
      rw [same, typeGlueSymbol, IRSymbol.derived, String.toList_append] at fine
      exact fenced (fenceless_append_right fine)
    · obtain ⟨suffix, derives, fenced⟩ := bodyGlue_mem member
      rw [same, derives, IRSymbol.derived, String.toList_append] at fine
      exact fenced (fenceless_append_right fine)

end Symbols

section Collisions

variable (isEnum : Identifier → Bool) {declared : Identifier → Prop} {word : List Letter}

/-- A block of each kind, the same wherever its letter stands. -/
def sampleBlock (name : List Char) : BlockKind → Chunks
  | .args =>
    if name = "Map".toList then [([.plain .int64, .plain .int64], '$')]
    else [([.plain .int64], '$')]
  | .tuple => tupleChunks [.plain .int64, .plain .int64]
  | .function => paramChunks [] ++ [([.plain .int64], '$')]

def sampleSeg (letter : Letter) : Seg :=
  ⟨.dot, letter.1, letter.2.map (sampleBlock letter.1)⟩

theorem sampleSeg_letter (letter : Letter) : (sampleSeg letter).letter = letter := by
  obtain ⟨name, kind⟩ := letter
  cases kind with
  | none => rfl
  | some kind =>
    cases kind with
    | args =>
      simp only [sampleSeg, map_some, sampleBlock]
      split <;> rfl
    | tuple | function => rfl

theorem namedRow_sample (names : List (List Char)) (kind : Option BlockKind) :
    (nameWord names kind).map sampleSeg =
      namedRow names (kind.map (sampleBlock (names.getLastD []))) := by
  fun_induction nameWord names kind with
  | case3 name rest _ more ih =>
    obtain ⟨_, _, rfl⟩ := exists_cons_of_ne_nil more
    rw [map_cons, ih]
    rfl
  | _ => rfl

/-- Every word is the word of a type whose blocks are the sample ones. -/
theorem word_sample (known : Word declared word) :
    ∃ ty : SourceType, ty.Over declared ∧ ty.isUnion = false ∧ typeRow ty = word.map sampleSeg := by
  cases known with
  | plain ty => exact ⟨.plain ty, trivial, rfl, rfl⟩
  | builtin generic =>
    simp only [mem_cons, not_mem_nil, or_false] at generic
    rcases generic with rfl | rfl | rfl | rfl
    · exact ⟨.cPtr (.plain .int64), trivial, rfl, rfl⟩
    · exact ⟨.list (.plain .int64), trivial, rfl, rfl⟩
    · exact ⟨.map (.plain .int64) (.plain .int64), ⟨trivial, trivial⟩, rfl, rfl⟩
    · exact ⟨.set (.plain .int64), trivial, rfl, rfl⟩
  | tuple =>
    exact ⟨.tuple [.plain .int64, .plain .int64], ⟨by simp, trivial, trivial, trivial⟩, rfl, rfl⟩
  | function => exact ⟨.function [] (.plain .int64), ⟨trivial, trivial⟩, rfl, rfl⟩
  | @named identifier own generic =>
    cases generic with
    | false =>
      refine ⟨.named identifier [], ⟨own, trivial⟩, rfl, ?_⟩
      rw [namedRow_sample]
      rfl
    | true =>
      rw [namedRow_sample]
      by_cases isMap : (segNames identifier).getLastD [] = "Map".toList
      · refine ⟨.named identifier [.plain .int64, .plain .int64],
          ⟨own, trivial, trivial, trivial⟩, rfl, ?_⟩
        simp only [isMap]
        rfl
      · refine ⟨.named identifier [.plain .int64], ⟨own, trivial, trivial⟩, rfl, ?_⟩
        simp only [↓reduceIte, map_some, sampleBlock, isMap]
        rfl

theorem word_ne_nil (paths : HavePaths declared) (known : Word declared word) : word ≠ [] := by
  obtain ⟨ty, ranged, notUnion, row⟩ := word_sample known
  obtain ⟨name, block, rest, nonempty⟩ := typeRow_cons paths ranged notUnion
  rintro rfl
  rw [nonempty] at row
  cases row

theorem words_sample {words : List (List Letter)} (known : ∀ word ∈ words, Word declared word) :
    ∃ types : List SourceType, (∀ ty ∈ types, ty.Over declared) ∧
      (∀ ty ∈ types, ty.isUnion = false) ∧
      types.map typeRow = words.map (List.map sampleSeg) := by
  induction words with
  | nil => exact ⟨[], by simp, by simp, rfl⟩
  | cons _ _ ih =>
    rw [forall_mem_cons] at known
    obtain ⟨ty, ranged, notUnion, row⟩ := word_sample known.1
    obtain ⟨types, overAll, notUnions, rows⟩ := ih known.2
    refine ⟨ty :: types, by simpa using ⟨ranged, overAll⟩, by simpa using ⟨notUnion, notUnions⟩, ?_⟩
    rw [map_cons, map_cons, row, rows]

/-- Without unions a row is the rows of its types. -/
theorem typesRow_flatten (paths : HavePaths declared) {types : List SourceType}
    (ranged : ∀ ty ∈ types, ty.Over declared) (notUnion : ∀ ty ∈ types, ty.isUnion = false) :
    typesRow types = (types.map typeRow).flatten := by
  induction types with
  | nil => rfl
  | cons _ rest ih =>
    rw [forall_mem_cons] at ranged notUnion
    have others := ih ranged.2 notUnion.2
    obtain ⟨name, block, segs, row⟩ := typeRow_cons paths ranged.1 notUnion.1
    rcases leaves_cons ranged.1 rest with ⟨_, split⟩ | ⟨_, _, rfl, _⟩
    · unfold typesRow at others ⊢
      rw [split, flatMap_cons, others]
      simp [markedRow, row]
    · simp [isUnion] at notUnion

/-- Symbols that stay apart need uniquely spelled names: otherwise two argument lists have one
text. -/
theorem unique_of_symbolsApart (names : AllNamesOk declared)
    (apart : SymbolsApart isEnum declared) : UniquelyDecodable (Word declared) := by
  intro words words' known known' same
  obtain ⟨types, ranged, notUnion, rows⟩ := words_sample known
  obtain ⟨types', ranged', notUnion', rows'⟩ := words_sample known'
  have sameRow : typesRow types = typesRow types' := by
    rw [typesRow_flatten names.paths ranged notUnion,
      typesRow_flatten names.paths ranged' notUnion', rows, rows', ← map_flatten, ← map_flatten,
        same]
  have template : NamesOk ⟨"A", ["B"]⟩ := namesOk_of_valid (by simp) (by decide)
  have sameTypes : types = types' := by
    cases types with
    | nil =>
      cases types' with
      | nil => rfl
      | cons =>
        have text := typesRow_text isEnum names.paths ranged'
        rw [← sameRow] at text
        simp [typesRow, leaves, rowText] at text
    | cons ty rest =>
      cases types' with
      | nil =>
        have text := typesRow_text isEnum names.paths ranged
        rw [sameRow] at text
        simp [typesRow, leaves, rowText] at text
      | cons ty' rest' =>
        have text : dotted isEnum (ty :: rest) = dotted isEnum (ty' :: rest') := by
          have first := dotted_row isEnum names.paths (cons_ne_nil ty rest) ranged
          rw [sameRow, ← dotted_row isEnum names.paths (cons_ne_nil ty' rest') ranged'] at first
          exact (List.cons.inj first).2
        refine (apart.types ⟨"A", ["B"]⟩ ⟨"A", ["B"]⟩ _ _ template template ranged ranged' ?_).2
        have args : renderTypeArgs (toIrEach isEnum (ty :: rest)) =
            renderTypeArgs (toIrEach isEnum (ty' :: rest')) := by
          rw [← String.toList_inj, renderTypeArgs_text, renderTypeArgs_text, text]
        exact congrArg (IRSymbol.derived _) args
  subst sameTypes
  rw [rows] at rows'
  have letters := congrArg (List.map (List.map Seg.letter)) rows'
  simpa [Function.comp_def, sampleSeg_letter] using letters

/-- Names that are cut at packages and builtin names: these stand at the start of a name, or as
the first type of a package, and nowhere else. -/
structure CutNames (declared : Identifier → Prop) : Prop where
  packages : ∀ identifier, declared identifier → ∀ ty : PlainType,
    identifier.package.toList ≠ ty.word
  nested : ∀ identifier, declared identifier → ∀ name ∈ identifier.path.tail,
    (∀ ty : PlainType, name.toList ≠ ty.word) ∧
    name.toList ∉ ["CPtr".toList, "List".toList, "Map".toList, "Set".toList] ∧
    ∀ other, declared other → name ≠ other.package

/-- The letters a word may start with. -/
def Starts (declared : Identifier → Prop) (letter : Letter) : Prop :=
  ∃ rest, Word declared (letter :: rest)

theorem nameWord_mem {names : List (List Char)} {kind : Option BlockKind} {letter : Letter}
    (member : letter ∈ nameWord names kind) :
    letter.1 ∈ names ∧ (letter.2 = none ∨ letter.2 = kind) := by
  fun_induction nameWord names kind with
  | case1 => cases member
  | case2 =>
    cases mem_singleton.mp member
    simp
  | case3 _ _ _ _ ih =>
    rcases mem_cons.mp member with rfl | member
    · simp
    · obtain ⟨named, kinds⟩ := ih member
      exact ⟨mem_cons_of_mem _ named, kinds⟩

/-- A declared name is the package, its first type, and what is nested in that. -/
theorem named_word_split (paths : HavePaths declared) (own : declared identifier)
    (kind : Option BlockKind) :
    ∃ second rest, nameWord (segNames identifier) kind =
        (identifier.package.toList, none) :: second :: rest ∧
      ∀ letter ∈ rest, letter.1 ∈ identifier.path.tail.map String.toList ∧
        (letter.2 = none ∨ letter.2 = kind) := by
  cases path : identifier.path with
  | nil => exact absurd path (paths identifier own)
  | cons _ nested =>
    unfold segNames
    rw [path, map_cons]
    cases nested with
    | nil => exact ⟨_, [], rfl, by simp⟩
    | cons =>
      exact ⟨_, _, rfl, fun letter member => by
        simpa [path] using nameWord_mem member⟩

/-- Names cut at packages and builtin names are uniquely spelled. -/
theorem CutNames.uniquelyDecodable (cut : CutNames declared) (paths : HavePaths declared) :
    UniquelyDecodable (Word declared) := by
  have single : ∀ {letter second : Letter} {rest : List Letter},
      Word declared (letter :: second :: rest) → ∃ identifier kind, declared identifier ∧
        (kind = none ∨ kind = some .args) ∧
        letter :: second :: rest = nameWord (segNames identifier) kind := by
    intro letter second rest known
    generalize row : letter :: second :: rest = word at known
    cases known with
    | @named identifier own generic =>
      refine ⟨identifier, _, own, ?_, rfl⟩
      cases generic <;> simp
    | plain | builtin | tuple | function => cases row
  refine @CutByStarts.uniquelyDecodable _ _ (Starts declared)
    ⟨fun w known => word_ne_nil paths known, fun c w known => ⟨w, known⟩, ?_, ?_⟩
  · intro c d w known e member ⟨rest, start⟩
    obtain ⟨identifier, kind, own, kinds, row⟩ := single known
    obtain ⟨second, nested, split, letters⟩ := named_word_split paths own kind
    rw [split] at row
    obtain ⟨-, -, rfl⟩ := row
    obtain ⟨inPath, block⟩ := letters e member
    obtain ⟨name, inTail, named⟩ := mem_map.mp inPath
    obtain ⟨notPlain, notBuiltin, notPackage⟩ := cut.nested identifier own name inTail
    generalize starting : e :: rest = word at start
    cases start with
    | plain ty =>
      obtain ⟨rfl, _⟩ := List.cons.inj starting
      exact notPlain ty named
    | builtin generic =>
      obtain ⟨rfl, _⟩ := List.cons.inj starting
      exact notBuiltin (named ▸ generic)
    | tuple | function =>
      obtain ⟨rfl, _⟩ := List.cons.inj starting
      rcases block with block | block
      · cases block
      · rcases kinds with rfl | rfl <;> cases block
    | @named other known' generic =>
      obtain ⟨_, _, split', _⟩ := named_word_split paths known'
        (if generic then some BlockKind.args else none)
      rw [split'] at starting
      obtain ⟨rfl, _⟩ := List.cons.inj starting
      exact notPackage other known' (String.toList_inj.mp named)
  · intro c d w alone known
    obtain ⟨identifier, kind, own, kinds, row⟩ := single known
    obtain ⟨second, nested, split, _⟩ := named_word_split paths own kind
    rw [split] at row
    obtain ⟨rfl, _⟩ := List.cons.inj row
    generalize starting : [(identifier.package.toList, (none : Option BlockKind))] = word at alone
    cases alone with
    | plain ty =>
      obtain ⟨same, _⟩ := List.cons.inj starting
      exact cut.packages identifier own ty (congrArg Prod.fst same)
    | builtin | tuple | function => simp at starting
    | @named other known' generic =>
      obtain ⟨_, _, split', _⟩ := named_word_split paths known'
        (if generic then some BlockKind.args else none)
      rw [split'] at starting
      simp at starting

/-- Where no name can be read as part of a union, the symbols of types, functions, methods and
glue determine what they were made from exactly when the names of the program are uniquely
spelled. -/
theorem mangling_injective_iff (names : ∀ identifier, declared identifier → NamesOk identifier) :
    SymbolsApart isEnum declared ↔ UniquelyDecodable (Word declared) :=
  ⟨unique_of_symbolsApart isEnum names, symbolsApart_of_unique isEnum names⟩

/-- A program with a generic type and a nested one. -/
def shapeDecls (identifier : Identifier) : Prop :=
  identifier = ⟨"Test", ["Pair"]⟩ ∨ identifier = ⟨"Test", ["Shape", "Item"]⟩

theorem shapeDecls_names : ∀ identifier, shapeDecls identifier → NamesOk identifier := by
  rintro identifier (rfl | rfl)
  · exact namesOk_of_valid (by simp) (by decide)
  · exact namesOk_of_valid (by simp) (by decide)

theorem shapeDecls_cut : CutNames shapeDecls := by
  have packages : ∀ ty : PlainType, "Test".toList ≠ ty.word := by
    intro ty
    cases ty <;> decide
  have nested : ∀ ty : PlainType, "Item".toList ≠ ty.word := by
    intro ty
    cases ty <;> decide
  refine ⟨?_, ?_⟩
  · rintro identifier (rfl | rfl)
    · exact packages
    · exact packages
  · rintro identifier (rfl | rfl) name member
    · simp at member
    · simp only [tail_cons, mem_singleton] at member
      subst member
      refine ⟨nested, by decide, ?_⟩
      rintro other (rfl | rfl) <;> decide

theorem mangling_injective_iff_shape : (∀ identifier, shapeDecls identifier → NamesOk identifier) ∧
      SymbolsApart (fun _ => false) shapeDecls :=
  ⟨shapeDecls_names, (mangling_injective_iff (fun _ => false) shapeDecls_names).mpr
    (shapeDecls_cut.uniquelyDecodable fun identifier known =>
        (shapeDecls_names identifier known).path)⟩

/-- A struct of a program, as the lowering names it. -/
def structOf (package : String) (path : List String) : IRType :=
  .struct (symbolOf ⟨package, path⟩)

/-- With valid names only, two argument lists of one template have one symbol, two maps share
their clone glue, and two unions of different members are one union. -/
theorem mangled_names_collide :
    (∀ identifier ∈ [(⟨"A", ["B"]⟩ : Identifier), ⟨"A", ["B", "C"]⟩, ⟨"C", ["D", "E"]⟩,
        ⟨"D", ["E"]⟩, ⟨"A", ["X"]⟩, ⟨"B", ["Y"]⟩, ⟨"A", ["X_or_B", "Y"]⟩, ⟨"C", ["Z"]⟩],
      identifier.path ≠ [] ∧ ∀ name ∈ segNames identifier, validName name = true) ∧
    [structOf "A" ["B"], structOf "C" ["D", "E"]] ≠ [structOf "A" ["B", "C"], structOf "D" ["E"]] ∧
    mangledTypeName (symbolOf ⟨"Test", ["Pair"]⟩) [structOf "A" ["B"], structOf "C" ["D", "E"]] =
      mangledTypeName (symbolOf ⟨"Test", ["Pair"]⟩) [structOf "A" ["B", "C"], structOf "D" ["E"]] ∧
    cloneGlueSymbol (.map (structOf "A" ["B"]) (structOf "C" ["D", "E"])) =
      cloneGlueSymbol (.map (structOf "A" ["B", "C"]) (structOf "D" ["E"])) ∧
    [structOf "A" ["X"], structOf "B" ["Y"], structOf "C" ["Z"]] ≠
      [structOf "A" ["X_or_B", "Y"], structOf "C" ["Z"]] ∧
    unionMangle [structOf "A" ["X"], structOf "B" ["Y"], structOf "C" ["Z"]] =
      unionMangle [structOf "A" ["X_or_B", "Y"], structOf "C" ["Z"]] := by
  refine ⟨by decide, ?_, by decide, by decide, by simp, by decide⟩
  simp only [structOf, ne_eq, List.cons.injEq, IRType.struct.injEq]
  intro same
  exact absurd same (by decide)

end Collisions

end Koja.Guarantees.Ir
