import Koja.Lib.Code
import Koja.Source.Ir.Mangling
import Mathlib.Data.List.Infix

/-!
# The text of a mangled type

Mangled names are compared as character lists. A type is spelled as a row of segments: names
separated by dots (or by the marks of a union), each with an optional bracketed block of
arguments. The row can be read back from the text, together with where it ends.
-/
namespace Koja.Guarantees.Ir

open Koja.Lib Koja.Source.Ir Koja.Source.Typecheck List
open IRType (mangleEach mangle)

/-- `is_ident_char` of the lexer. -/
def isIdentChar (c : Char) : Bool :=
  c.isAlphanum || c = '_' || c = '?'

variable (name : List Char)

/-- A package or type name: the lexer's `TypeIdent`. -/
def TypeName : Prop :=
  ∃ first rest, name = first :: rest ∧ first.isUpper = true ∧ ∀ c ∈ rest, isIdentChar c = true

/-- A function or method name: any other identifier of the lexer. -/
def FunctionName : Prop :=
  ∃ first rest, name = first :: rest ∧ (first.isLower = true ∨ first = '_') ∧
    ∀ c ∈ rest, isIdentChar c = true

/-- A name that cannot be read as a part of a union or as the head of a function type. -/
def Unmarked : Prop :=
  ¬['_', 'o', 'r', '_'] <:+: name ∧ ¬['U', 'n', 'i', 'o', 'n', '_'] <+: name ∧
    name ≠ ['F', 'n', '_']

/-- The builtin types without arguments. -/
inductive PlainType where
  | binary | bits | bool | float32 | float64 | int8 | int16 | int32 | int64 | string | uInt8
  | uInt16 | uInt32 | uInt64 | unit
  deriving DecidableEq, Repr

def PlainType.toIr : PlainType → IRType
  | .binary => .binary
  | .bits => .bits
  | .bool => .bool
  | .float32 => .float32
  | .float64 => .float64
  | .int8 => .int8
  | .int16 => .int16
  | .int32 => .int32
  | .int64 => .int64
  | .string => .string
  | .uInt8 => .uInt8
  | .uInt16 => .uInt16
  | .uInt32 => .uInt32
  | .uInt64 => .uInt64
  | .unit => .unit

/-- A concrete type of a source program: aliases expanded and type parameters substituted. -/
inductive SourceType where
  | plain (ty : PlainType)
  | cPtr (inner : SourceType)
  | list (element : SourceType)
  | set (element : SourceType)
  | map (key value : SourceType)
  | function (params : List SourceType) (ret : SourceType)
  | tuple (elements : List SourceType)
  | union (members : List SourceType)
  | named (identifier : Identifier) (args : List SourceType)

namespace SourceType

mutual

/-- The IR type of a source type, as `resolved_type_to_ir_type` builds it; `isEnum` is the kind
of the declaration. -/
def toIr (isEnum : Identifier → Bool) : SourceType → IRType
  | .plain ty => ty.toIr
  | .cPtr inner => .cPtr (toIr isEnum inner)
  | .list element => .list (toIr isEnum element)
  | .set element => .set (toIr isEnum element)
  | .map key value => .map (toIr isEnum key) (toIr isEnum value)
  | .function params ret => .function (toIrEach isEnum params) (toIr isEnum ret)
  | .tuple elements => .tuple (toIrEach isEnum elements)
  | .union members => .union (unionMangle (toIrEach isEnum members)) (toIrEach isEnum members)
  | .named identifier args =>
    let symbol := mangledTypeName (symbolOf identifier) (toIrEach isEnum args)
    if isEnum identifier then .enum symbol else .struct symbol

def toIrEach (isEnum : Identifier → Bool) : List SourceType → List IRType
  | [] => []
  | ty :: rest => toIr isEnum ty :: toIrEach isEnum rest

end

def isUnion : SourceType → Bool
  | .union _ => true
  | _ => false

mutual

/-- Types over a set of declarations: a union has at least two members, none of them a union, and
a tuple at least two elements. -/
def Over (declared : Identifier → Prop) : SourceType → Prop
  | .plain _ => True
  | .cPtr inner => Over declared inner
  | .list element => Over declared element
  | .set element => Over declared element
  | .map key value => Over declared key ∧ Over declared value
  | .function params ret => OverEach declared params ∧ Over declared ret
  | .tuple elements => 2 ≤ elements.length ∧ OverEach declared elements
  | .union members =>
    2 ≤ members.length ∧ (∀ member ∈ members, member.isUnion = false) ∧ OverEach declared members
  | .named identifier args => declared identifier ∧ OverEach declared args

def OverEach (declared : Identifier → Prop) : List SourceType → Prop
  | [] => True
  | ty :: rest => Over declared ty ∧ OverEach declared rest

end

variable {types : List SourceType}

theorem overEach_iff {declared : Identifier → Prop} :
    OverEach declared types ↔ ∀ ty ∈ types, Over declared ty := by
  induction types with
  | nil => simp [OverEach]
  | cons _ _ ih => simp [OverEach, ih]

theorem toIrEach_eq_map (isEnum : Identifier → Bool) (types : List SourceType) :
    toIrEach isEnum types = types.map (toIr isEnum) := by
  induction types with
  | nil => rfl
  | cons _ _ ih => simp [toIrEach, ih]

end SourceType

theorem mangleEach_eq_map (types : List IRType) :
    mangleEach types = types.map mangle := by
  induction types with
  | nil => rfl
  | cons _ _ ih => simp [mangleEach, ih]

section Text

variable (isEnum : Identifier → Bool) {ty : SourceType} {declared : Identifier → Prop}

/-- The mangled text of a type. -/
def spell (ty : SourceType) : List Char :=
  (ty.toIr isEnum).mangle.toList

/-- Types of one argument block, separated by dots. -/
def dotted (types : List SourceType) : List Char :=
  ['.'].intercalate (types.map (spell isEnum))

variable (identifier : Identifier)

/-- The names of an identifier: its package and its path. -/
def segNames : List (List Char) :=
  identifier.package.toList :: identifier.path.map String.toList

/-- A bracketed block: rows of types, each with the character that ends it. -/
abbrev Chunks := List (List SourceType × Char)

def chunkText (chunks : Chunks) : List Char :=
  chunks.flatMap fun chunk => dotted isEnum chunk.1 ++ [chunk.2]

/-- How a segment is joined to what stands before it. -/
inductive Mark where
  | dot | union | or
  deriving DecidableEq, Repr

def Mark.text : Mark → List Char
  | .dot => ['.']
  | .union => ['.', 'U', 'n', 'i', 'o', 'n', '_']
  | .or => ['_', 'o', 'r', '_']

/-- One segment of a row. -/
structure Seg where
  mark : Mark
  name : List Char
  block : Option Chunks

/-- The text after the name of a segment. -/
def blockText : Option Chunks → List Char
  | none => []
  | some chunks => '_' :: '$' :: chunkText isEnum chunks

def Seg.text (seg : Seg) : List Char :=
  seg.mark.text ++ seg.name ++ blockText isEnum seg.block

def rowText (row : List Seg) : List Char :=
  row.flatMap (Seg.text isEnum)

/-- The elements of a tuple. -/
def tupleChunks : List SourceType → Chunks
  | [] => []
  | [element] => [([element], '$')]
  | element :: rest => ([element], ',') :: tupleChunks rest

/-- The parameters of a function type; no parameters leave an empty row. -/
def paramChunks : List SourceType → Chunks
  | [] => [([], ';')]
  | [param] => [([param], ';')]
  | param :: rest => ([param], ',') :: paramChunks rest

/-- A dotted name; the block belongs to its last segment. -/
def namedRow : List (List Char) → Option Chunks → List Seg
  | [], _ => []
  | [name], block => [⟨.dot, name, block⟩]
  | name :: rest, block => ⟨.dot, name, none⟩ :: namedRow rest block

def argsBlock (args : List SourceType) : Option Chunks :=
  if args.isEmpty then none else some [(args, '$')]

def PlainType.word (ty : PlainType) : List Char :=
  ty.toIr.mangle.toList

/-- The row of a type that is not a union. -/
def typeRow : SourceType → List Seg
  | .plain ty => [⟨.dot, ty.word, none⟩]
  | .cPtr inner => [⟨.dot, "CPtr".toList, some [([inner], '$')]⟩]
  | .list element => [⟨.dot, "List".toList, some [([element], '$')]⟩]
  | .set element => [⟨.dot, "Set".toList, some [([element], '$')]⟩]
  | .map key value => [⟨.dot, "Map".toList, some [([key, value], '$')]⟩]
  | .function params ret => [⟨.dot, "Fn".toList, some (paramChunks params ++ [([ret], '$')])⟩]
  | .tuple elements => [⟨.dot, "Tuple".toList, some (tupleChunks elements)⟩]
  | .union _ => []
  | .named identifier args => namedRow (segNames identifier) (argsBlock args)

/-- The row of a type, joined by `mark` to what stands before it. -/
def markedRow (mark : Mark) (ty : SourceType) : List Seg :=
  match typeRow ty with
  | [] => []
  | seg :: rest => { seg with mark := mark } :: rest

/-- The types of a row that are not unions, each with its mark. -/
def leaves : List SourceType → List (Mark × SourceType)
  | [] => []
  | .union [] :: rest => leaves rest
  | .union (first :: others) :: rest =>
    (.union, first) :: others.map (Prod.mk .or) ++ leaves rest
  | ty :: rest => (.dot, ty) :: leaves rest

/-- The row of a list of types. -/
def typesRow (types : List SourceType) : List Seg :=
  (leaves types).flatMap fun leaf => markedRow leaf.1 leaf.2

theorem mangleEach_toIrEach (types : List SourceType) :
    (mangleEach (SourceType.toIrEach isEnum types)).map String.toList =
      types.map (spell isEnum) := by
  rw [SourceType.toIrEach_eq_map, mangleEach_eq_map, map_map, map_map]
  rfl

theorem renderTypeArgs_text (args : List SourceType) :
    (renderTypeArgs (SourceType.toIrEach isEnum args)).toList =
      '_' :: '$' :: (dotted isEnum args ++ ['$']) := by
  simp [renderTypeArgs, mangleEach_toIrEach, dotted]

theorem dotted_singleton (ty : SourceType) : dotted isEnum [ty] = spell isEnum ty := by
  simp [dotted]

theorem chunkText_append (first second : Chunks) :
    chunkText isEnum (first ++ second) = chunkText isEnum first ++ chunkText isEnum second :=
  flatMap_append

theorem tupleChunks_text {elements : List SourceType} (nonempty : elements ≠ []) :
    chunkText isEnum (tupleChunks elements) =
      [','].intercalate (elements.map (spell isEnum)) ++ ['$'] := by
  fun_induction tupleChunks elements with
  | case1 => exact absurd rfl nonempty
  | case2 => simp [chunkText, dotted]
  | case3 _ _ more ih =>
    have tail := ih more
    rw [map_cons, intercalate_cons_of_ne_nil (by simpa using more)]
    simp only [chunkText, flatMap_cons, dotted_singleton] at tail ⊢
    rw [tail]
    simp

theorem paramChunks_text (params : List SourceType) : chunkText isEnum (paramChunks params) =
      [','].intercalate (params.map (spell isEnum)) ++ [';'] := by
  fun_induction paramChunks params with
  | case1 | case2 => simp [chunkText, dotted]
  | case3 _ _ more ih =>
    rw [map_cons, intercalate_cons_of_ne_nil (by simpa using more)]
    simp only [chunkText, flatMap_cons, dotted_singleton] at ih ⊢
    rw [ih]
    simp

theorem namedRow_text {names : List (List Char)} (nonempty : names ≠ []) (block : Option Chunks) :
    rowText isEnum (namedRow names block) =
      '.' :: (['.'].intercalate names ++ blockText isEnum block) := by
  fun_induction namedRow names block with
  | case1 => exact absurd rfl nonempty
  | case2 => simp [rowText, Seg.text, Mark.text]
  | case3 _ _ _ more ih =>
    rw [intercalate_cons_of_ne_nil more]
    simp only [rowText, flatMap_cons, Seg.text, Mark.text, blockText] at ih ⊢
    rw [ih more]
    simp

theorem symbolOf_text (nonempty : identifier.path ≠ []) :
    (symbolOf identifier).mangled.toList = ['.'].intercalate (segNames identifier) := by
  unfold segNames
  rw [intercalate_cons_of_ne_nil (by simpa using nonempty)]
  simp [symbolOf, Identifier.qualifiedName]

/-- A symbol with its arguments is the symbol and the block of the arguments. -/
theorem mangledTypeName_block (symbol : IRSymbol) (args : List SourceType) :
    (mangledTypeName symbol (SourceType.toIrEach isEnum args)).mangled.toList =
      symbol.mangled.toList ++ blockText isEnum (argsBlock args) := by
  cases args with
  | nil => simp [mangledTypeName, SourceType.toIrEach, argsBlock, blockText]
  | cons ty rest =>
    have derived : mangledTypeName symbol (SourceType.toIrEach isEnum (ty :: rest)) =
        symbol.derived (renderTypeArgs (SourceType.toIrEach isEnum (ty :: rest))) := rfl
    rw [derived, IRSymbol.derived, String.toList_append, renderTypeArgs_text]
    simp [argsBlock, blockText, chunkText]

theorem mangledTypeName_text (nonempty : identifier.path ≠ []) (args : List SourceType) :
    '.' :: (mangledTypeName (symbolOf identifier)
        (SourceType.toIrEach isEnum args)).mangled.toList =
      rowText isEnum (namedRow (segNames identifier) (argsBlock args)) := by
  rw [namedRow_text isEnum (by simp [segNames]), mangledTypeName_block,
    symbolOf_text identifier nonempty]

/-- Every declared identifier has a path. -/
def HavePaths (declared : Identifier → Prop) : Prop :=
  ∀ identifier, declared identifier → identifier.path ≠ []

theorem typeRow_text (paths : HavePaths declared)
    (ranged : ty.Over declared) (notUnion : ty.isUnion = false) :
    '.' :: spell isEnum ty = rowText isEnum (typeRow ty) := by
  cases ty with
  | plain => simp [spell, SourceType.toIr, typeRow, rowText, Seg.text, Mark.text, blockText,
      PlainType.word]
  | cPtr | list | set | map => simp [spell, SourceType.toIr, mangle, typeRow, rowText, Seg.text,
      Mark.text, blockText, chunkText, dotted]
  | function _ ret =>
    have last : chunkText isEnum [([ret], '$')] = spell isEnum ret ++ ['$'] := by
      simp [chunkText, dotted]
    simp [spell, SourceType.toIr, mangle, typeRow, rowText, Seg.text, Mark.text,
      blockText, chunkText_append, paramChunks_text, last, mangleEach_toIrEach]
  | tuple elements =>
    have nonempty : elements ≠ [] := by
      rintro rfl
      simp [SourceType.Over] at ranged
    simp [spell, SourceType.toIr, mangle, typeRow, rowText, Seg.text, Mark.text,
      blockText, tupleChunks_text isEnum nonempty, mangleEach_toIrEach]
  | union => simp [SourceType.isUnion] at notUnion
  | named identifier =>
    rw [typeRow, ← mangledTypeName_text isEnum identifier (paths identifier ranged.1)]
    simp only [spell, SourceType.toIr]
    split <;> rfl

theorem spell_union (members : List SourceType) :
    spell isEnum (.union members) = ['U', 'n', 'i', 'o', 'n', '_'] ++
      ['_', 'o', 'r', '_'].intercalate (members.map (spell isEnum)) := by
  simp [spell, SourceType.toIr, mangle, unionMangle, IRSymbol.synthetic, mangleEach_toIrEach]

theorem markedRow_text (paths : HavePaths declared) (mark : Mark) (ranged : ty.Over declared)
    (notUnion : ty.isUnion = false) :
    rowText isEnum (markedRow mark ty) = mark.text ++ spell isEnum ty := by
  have text := typeRow_text isEnum paths ranged notUnion
  have dotFirst : ∀ seg ∈ (typeRow ty).head?, seg.mark = .dot := by
    cases ty <;> simp [typeRow, segNames]
    case named identifier args => cases identifier.path <;> simp [namedRow]
  unfold markedRow
  cases row : typeRow ty with
  | nil => simp [row, rowText] at text
  | cons seg =>
    rw [row] at text dotFirst
    have dot : seg.mark = .dot := dotFirst seg (by simp)
    simp only [rowText, flatMap_cons, Seg.text, dot, Mark.text, cons_append,
      List.cons.injEq, true_and] at text ⊢
    rw [text]
    simp

theorem orRow_text (paths : HavePaths declared) {members : List SourceType}
    (ranged : ∀ ty ∈ members, ty.Over declared) (notUnion : ∀ ty ∈ members, ty.isUnion = false) :
    rowText isEnum ((members.map (Prod.mk Mark.or)).flatMap fun leaf => markedRow leaf.1 leaf.2) =
      members.flatMap fun ty => ['_', 'o', 'r', '_'] ++ spell isEnum ty := by
  induction members with
  | nil => rfl
  | cons _ _ ih =>
    rw [forall_mem_cons] at ranged notUnion
    have first := markedRow_text isEnum paths .or ranged.1 notUnion.1
    have others := ih ranged.2 notUnion.2
    simp only [rowText, map_cons, flatMap_cons, flatMap_append] at first others ⊢
    rw [first, others]
    rfl

/-- The first type of a row gives one leaf, or the members of a union. -/
theorem leaves_cons (ranged : ty.Over declared) (rest : List SourceType) :
    (ty.isUnion = false ∧ leaves (ty :: rest) = (.dot, ty) :: leaves rest) ∨
      ∃ first others, ty = .union (first :: others) ∧ leaves (ty :: rest) =
          (.union, first) :: (others.map (Prod.mk Mark.or) ++ leaves rest) := by
  cases ty with
  | union members =>
    cases members with
    | nil => simp [SourceType.Over] at ranged
    | cons first others => exact .inr ⟨first, others, rfl, rfl⟩
  | _ => exact .inl ⟨rfl, rfl⟩

theorem typesRow_text (paths : HavePaths declared) (ranged : ∀ ty ∈ types, ty.Over declared) :
    rowText isEnum (typesRow types) = types.flatMap fun ty => '.' :: spell isEnum ty := by
  induction types with
  | nil => rfl
  | cons ty rest ih =>
    rw [forall_mem_cons] at ranged
    have others := ih ranged.2
    rcases leaves_cons ranged.1 rest with ⟨notUnion, split⟩ | ⟨first, members, rfl, split⟩
    · have first := markedRow_text isEnum paths .dot ranged.1 notUnion
      simp only [typesRow, rowText, split, flatMap_cons, flatMap_append] at others first ⊢
      rw [first, others]
      rfl
    · obtain ⟨⟨_, notUnion, overMembers⟩, _⟩ := ranged
      rw [SourceType.overEach_iff, forall_mem_cons] at overMembers
      rw [forall_mem_cons] at notUnion
      have first := markedRow_text isEnum paths .union overMembers.1 notUnion.1
      have middle := orRow_text isEnum paths overMembers.2 notUnion.2
      simp only [typesRow, rowText, split, flatMap_cons, flatMap_append, spell_union, map_cons,
        intercalate_eq_flatMap, flatMap_map] at others first middle ⊢
      rw [first, others, middle]
      simp [Mark.text]

theorem dotted_row (paths : HavePaths declared) (nonempty : types ≠ [])
    (ranged : ∀ ty ∈ types, ty.Over declared) :
    '.' :: dotted isEnum types = rowText isEnum (typesRow types) := by
  rw [typesRow_text isEnum paths ranged]
  cases types with
  | nil => exact absurd rfl nonempty
  | cons => simp [dotted, intercalate_eq_flatMap, flatMap_map]

end Text

section Reading

variable (isEnum : Identifier → Bool) {declared : Identifier → Prop} {c : Char}
  {name text text' name' rest rest' : List Char} {row : List Seg}

theorem isIdentChar_eq (c : Char) :
    isIdentChar c = (c.isUpper || c.isLower || c.isDigit || c = '_' || c = '?') :=
  rfl

/-- A character of a name is none of the separators. -/
theorem isIdentChar_of_isUpper (upper : c.isUpper = true) : isIdentChar c = true := by
  simp [isIdentChar_eq, upper]

theorem TypeName.identChars (valid : TypeName name) : ∀ c ∈ name, isIdentChar c = true := by
  obtain ⟨first, rest, rfl, upper, others⟩ := valid
  rw [forall_mem_cons]
  exact ⟨isIdentChar_of_isUpper upper, others⟩

theorem rowText_cons (seg : Seg) (row : List Seg) (rest : List Char) :
    rowText isEnum (seg :: row) ++ rest = seg.mark.text ++ (seg.name ++
      (blockText isEnum seg.block ++ (rowText isEnum row ++ rest))) := by
  simp [rowText, Seg.text]

/-- What does not start with a capital. -/
def NotUpper (text : List Char) : Prop :=
  ∀ c ∈ text.head?, c.isUpper = false

/-- What can stand after a row: not a name character, and not the start of a further segment or
of a block. -/
def Stops : List Char → Prop
  | [] => True
  | c :: rest => isIdentChar c = false ∧ (c = '.' ∨ c = '$' → NotUpper rest)

theorem Stops.notUpper (stops : Stops text) : NotUpper text := by
  cases text with
  | nil => simp [NotUpper]
  | cons =>
    simp only [NotUpper]
    by_contra upper
    have ident := isIdentChar_of_isUpper (by simpa using upper)
    rw [stops.1] at ident
    cases ident

/-- What can stand after a name inside a row. -/
inductive AfterName (name : List Char) : List Char → Prop
  | nil : AfterName name []
  | stop {c : Char} {rest : List Char} (separator : isIdentChar c = false)
      (closing : c = '$' → NotUpper rest) : AfterName name (c :: rest)
  | block {c : Char} {rest : List Char} (starts : c.isUpper = true ∨ c = ';' ∧ name = ['F', 'n']) :
      AfterName name ('_' :: '$' :: c :: rest)
  | or {c : Char} {rest : List Char} (upper : c.isUpper = true) :
      AfterName name ('_' :: 'o' :: 'r' :: '_' :: c :: rest)

theorem AfterName.head (after : AfterName name (c :: text)) :
    isIdentChar c = false ∨ c = '_' := by
  cases after with
  | stop separator => exact .inl separator
  | block | or => exact .inr rfl

/-- A longer reading of a name would take in a separator, a block or the mark of a union. -/
theorem name_not_longer {more : List Char} (ident : ∀ c ∈ name', isIdentChar c = true)
    (unmarked : Unmarked name') (after : AfterName name text) (after' : AfterName name' text')
    (longer : name' = name ++ more) (same : text = more ++ text') : more = [] := by
  cases more with
  | nil => rfl
  | cons c more =>
    exfalso
    have identMore : ∀ d ∈ c :: more, isIdentChar d = true := by
      intro d member
      exact ident d (by rw [longer]; exact mem_append_right _ member)
    rw [forall_mem_cons] at identMore
    simp only [cons_append] at same
    cases after with
    | nil => cases same
    | stop separator =>
      simp only [List.cons.injEq] at same
      rw [same.1, identMore.1] at separator
      cases separator
    | @block d rest starts =>
      simp only [List.cons.injEq] at same
      obtain ⟨rfl, same⟩ := same
      cases more with
      | cons e =>
        simp only [cons_append, List.cons.injEq] at same
        have separator := identMore.2 e (by simp)
        rw [← same.1] at separator
        cases separator
      | nil =>
        rw [nil_append] at same
        subst same
        cases after' with
        | stop _ closing =>
          have notUpper := closing rfl d (by simp)
          rcases starts with upper | ⟨_, rfl⟩
          · rw [notUpper] at upper
            cases upper
          · exact unmarked.2.2 longer
    | @or d rest upper =>
      simp only [List.cons.injEq] at same
      obtain ⟨rfl, same⟩ := same
      -- The mark is read letter by letter: the name ends inside it, or contains it.
      match more with
      | [] =>
        simp only [nil_append] at same
        subst same
        rcases after'.head with separator | underscore
        · cases separator
        · simp at underscore
      | [e] =>
        simp only [cons_append] at same
        obtain ⟨rfl, rfl⟩ := same
        rcases after'.head with separator | underscore
        · cases separator
        · simp at underscore
      | [e, f] =>
        simp only [cons_append] at same
        obtain ⟨rfl, rfl, rfl⟩ := same
        cases after' with
        | stop separator => cases separator
        | block | or => cases upper
      | e :: f :: g :: more =>
        simp only [cons_append, List.cons.injEq] at same
        obtain ⟨rfl, rfl, rfl, _⟩ := same
        exact unmarked.1 ⟨name, more, by simp [longer]⟩

theorem name_unique (valid : TypeName name) (valid' : TypeName name') (unmarked : Unmarked name)
    (unmarked' : Unmarked name') (after : AfterName name text) (after' : AfterName name' text')
    (same : name ++ text = name' ++ text') : name = name' ∧ text = text' := by
  rcases append_eq_append_iff.mp same with ⟨more, longer, rest⟩ | ⟨more, longer, rest⟩
  · have empty := name_not_longer valid'.identChars unmarked' after after' longer rest
    simp_all
  · have empty := name_not_longer valid.identChars unmarked after' after longer rest
    simp_all

/-- After an underscore no capital follows: a block or the mark of a union does. -/
theorem AfterName.not_upper (after : AfterName name text)
    (starts : text = '_' :: c :: rest) : c.isUpper = false := by
  cases after with
  | nil => cases starts
  | stop separator =>
    rw [(List.cons.inj starts).1] at separator
    cases separator
  | block | or =>
    simp only [List.cons.injEq, true_and] at starts
    rw [← starts.1]
    rfl

theorem union_mark_last {before more : List Char}
    (split : ['U', 'n', 'i', 'o', 'n', '_'] = before ++ '_' :: more) : more = [] := by
  rcases before with _ | ⟨_, _ | ⟨_, _ | ⟨_, _ | ⟨_, _ | ⟨_, _ | _⟩⟩⟩⟩⟩ <;> simp_all

/-- A plain segment is not read as the first member of a union. -/
theorem not_union_mark (unmarked : Unmarked name)
    (valid' : TypeName name') (after : AfterName name text) :
    name ++ text ≠ ['U', 'n', 'i', 'o', 'n', '_'] ++ (name' ++ text') := by
  intro same
  obtain ⟨first, others, rfl, upper, _⟩ := valid'
  rcases append_eq_append_iff.mp same with ⟨more, longer, rest⟩ | ⟨more, longer, rest⟩
  · cases more with
    | nil => exact unmarked.2.1 ⟨[], by simpa using longer⟩
    | cons c =>
      have letters : ∀ d ∈ ['U', 'n', 'i', 'o', 'n', '_'], isIdentChar d = true :=
        all_eq_true.mp rfl
      have ident := letters c (by rw [longer]; simp)
      have head : isIdentChar c = false ∨ c = '_' := by
        rw [rest] at after
        exact after.head
      rcases head with separator | rfl
      · rw [ident] at separator
        cases separator
      · -- The name ends before the underscore of the mark, and a capital follows it.
        have last := union_mark_last longer
        subst last
        have notUpper := after.not_upper rest
        rw [upper] at notUpper
        cases notUpper
  · exact unmarked.2.1 ⟨more, longer.symm⟩

/-- Blocks of types over the declarations: rows of at least one type, closed by the last one; the
row of no parameters is empty. -/
inductive ChunksOk (declared : Identifier → Prop) : Chunks → Prop
  | last {types : List SourceType} (nonempty : types ≠ [])
      (ranged : ∀ ty ∈ types, ty.Over declared) : ChunksOk declared [(types, '$')]
  | more {types : List SourceType} {c : Char} {rest : Chunks} (nonempty : types ≠ [])
      (ranged : ∀ ty ∈ types, ty.Over declared) (separator : c = ',' ∨ c = ';')
      (others : ChunksOk declared rest) : ChunksOk declared ((types, c) :: rest)
  | none {rest : Chunks} (others : ChunksOk declared rest) : ChunksOk declared (([], ';') :: rest)

/-- A block that may follow a name: only a function type has an empty first row. -/
structure BlockOk (declared : Identifier → Prop) (name : List Char) (chunks : Chunks) : Prop where
  rows : ChunksOk declared chunks
  starts : ∀ c rest, chunkText isEnum chunks = c :: rest →
    c.isUpper = true ∨ c = ';' ∧ name = ['F', 'n']

structure SegOk (declared : Identifier → Prop) (seg : Seg) : Prop where
  valid : TypeName seg.name
  unmarked : Unmarked seg.name
  block : ∀ chunks, seg.block = some chunks → BlockOk isEnum declared seg.name chunks

theorem chunkText_ne_nil {chunks : Chunks} (ok : ChunksOk declared chunks) :
    chunkText isEnum chunks ≠ [] := by
  cases ok <;> simp [chunkText]

theorem rowText_stops (ok : ∀ seg ∈ row, SegOk isEnum declared seg)
    (stops : Stops rest) (name : List Char) :
    AfterName name (rowText isEnum row ++ rest) ∧ NotUpper (rowText isEnum row ++ rest) := by
  cases row with
  | nil =>
    refine ⟨?_, by simpa [rowText] using stops.notUpper⟩
    cases rest with
    | nil => exact .nil
    | cons => exact .stop stops.1 fun closing => stops.2 (.inr closing)
  | cons seg =>
    obtain ⟨first, others, named, upper, _⟩ := (ok seg mem_cons_self).valid
    cases mark : seg.mark with
    | dot | union =>
      simp only [rowText_cons, mark, Mark.text]
      exact ⟨.stop rfl (by simp), by simp [NotUpper]⟩
    | or =>
      simp only [rowText_cons, mark, Mark.text, named]
      exact ⟨.or upper, by simp [NotUpper]⟩

theorem blockText_after {block : Option Chunks}
    (ok : ∀ chunks, block = some chunks → BlockOk isEnum declared name chunks)
    (rowOk : ∀ seg ∈ row, SegOk isEnum declared seg) (stops : Stops rest) :
    AfterName name (blockText isEnum block ++ (rowText isEnum row ++ rest)) := by
  cases block with
  | none => exact (rowText_stops isEnum rowOk stops name).1
  | some chunks =>
    have blockOk := ok chunks rfl
    cases text : chunkText isEnum chunks with
    | nil => exact absurd text (chunkText_ne_nil isEnum blockOk.rows)
    | cons c others =>
      simp only [blockText, text]
      exact .block (blockOk.starts c others text)

/-- A block is read back from its text, with what follows it. -/
def Readable (declared : Identifier → Prop) (chunks : Chunks) : Prop :=
  ∀ chunks' rest rest', ChunksOk declared chunks' → NotUpper rest → NotUpper rest' →
    chunkText isEnum chunks ++ rest = chunkText isEnum chunks' ++ rest' →
      chunks = chunks' ∧ rest = rest'

theorem row_not_empty {seg : Seg} (ok : SegOk isEnum declared seg) (stops : Stops rest) :
    rest ≠ rowText isEnum (seg :: row) ++ rest' := by
  rintro rfl
  obtain ⟨first, others, named, upper, _⟩ := ok.valid
  cases mark : seg.mark with
  | dot =>
    rw [rowText_cons, mark, named] at stops
    have notUpper := stops.2 (.inl rfl) first (by simp)
    rw [upper] at notUpper
    cases notUpper
  | union =>
    rw [rowText_cons, mark] at stops
    have notUpper := stops.2 (.inl rfl) 'U' (by simp)
    cases notUpper
  | or =>
    rw [rowText_cons, mark] at stops
    cases stops.1

/-- A block opens with `_$`, and no continuation of a row does. -/
theorem row_not_block {others : List Char} (stops : Stops rest) :
    rowText isEnum row ++ rest ≠ '_' :: '$' :: others := by
  intro same
  cases row with
  | nil =>
    obtain rfl : rest = '_' :: '$' :: others := same
    cases stops.1
  | cons seg =>
    cases mark : seg.mark <;> simp [rowText, Seg.text, mark, Mark.text] at same

theorem mark_unique {seg seg' : Seg} (ok : SegOk isEnum declared seg)
    (ok' : SegOk isEnum declared seg') (after : AfterName seg.name text)
    (after' : AfterName seg'.name text')
    (same : seg.mark.text ++ (seg.name ++ text) = seg'.mark.text ++ (seg'.name ++ text')) :
    seg.mark = seg'.mark ∧ seg.name ++ text = seg'.name ++ text' := by
  cases mark : seg.mark <;> cases mark' : seg'.mark <;>
    simp only [mark, mark', Mark.text, cons_append, List.cons.injEq,
      true_and, reduceCtorEq, Char.reduceEq, false_and] at same ⊢
  · exact same
  · exact not_union_mark ok.unmarked ok'.valid after same
  · exact not_union_mark ok'.unmarked ok.valid after' same.symm
  · exact same
  · exact same

/-- A row is read back from its text, with what follows it. -/
theorem row_unique {row' : List Seg} (ok : ∀ seg ∈ row, SegOk isEnum declared seg)
    (ok' : ∀ seg ∈ row', SegOk isEnum declared seg)
    (readable : ∀ seg ∈ row, ∀ chunks, seg.block = some chunks → Readable isEnum declared chunks)
    (stops : Stops rest) (stops' : Stops rest')
    (same : rowText isEnum row ++ rest = rowText isEnum row' ++ rest') :
    row = row' ∧ rest = rest' := by
  induction row generalizing row' with
  | nil =>
    cases row' with
    | nil => exact ⟨rfl, same⟩
    | cons seg' =>
      exact absurd same (row_not_empty isEnum (ok' seg' mem_cons_self) stops)
  | cons seg row ih =>
    cases row' with
    | nil =>
      exact absurd same.symm (row_not_empty isEnum (ok seg mem_cons_self) stops')
    | cons seg' row' =>
      rw [forall_mem_cons] at ok ok' readable
      have after := blockText_after isEnum ok.1.block ok.2 stops
      have after' := blockText_after isEnum ok'.1.block ok'.2 stops'
      rw [rowText_cons, rowText_cons] at same
      obtain ⟨sameMark, same⟩ := mark_unique isEnum ok.1 ok'.1 after after' same
      obtain ⟨sameName, same⟩ := name_unique ok.1.valid ok'.1.valid ok.1.unmarked
        ok'.1.unmarked after after' same
      have next := rowText_stops isEnum ok.2 stops seg.name
      have next' := rowText_stops isEnum ok'.2 stops' seg'.name
      obtain ⟨mark, name, block⟩ := seg
      obtain ⟨mark', name', block'⟩ := seg'
      obtain rfl : mark = mark' := sameMark
      obtain rfl : name = name' := sameName
      have blocks : block = block' ∧ rowText isEnum row ++ rest = rowText isEnum row' ++ rest' := by
        cases block with
        | none =>
          cases block' with
          | none => exact ⟨rfl, same⟩
          | some => exact absurd same (row_not_block isEnum stops)
        | some chunks =>
          cases block' with
          | none => exact absurd same.symm (row_not_block isEnum stops')
          | some chunks' =>
            simp only [blockText, cons_append, List.cons.injEq, true_and] at same
            obtain ⟨rfl, following⟩ := readable.1 chunks rfl chunks' _ _
              (ok'.1.block chunks' rfl).rows next.2 next'.2 same
            exact ⟨rfl, following⟩
      obtain ⟨rfl, following⟩ := blocks
      obtain ⟨rfl, rfl⟩ := ih ok.2 ok'.2 readable.2 following
      exact ⟨rfl, rfl⟩

end Reading

end Koja.Guarantees.Ir
