import Koja.Guarantees.Ir.MangledText

/-!
# Injectivity of mangled names

Blocks of arguments join types by dots, and a dot also stands inside a qualified name. A mangled
name therefore fixes the sequence of name segments and nothing more: it tells two instantiations
apart exactly when the names of the program, read as words over their segments, can be cut out of
such a sequence in one way.
-/
namespace Koja.Guarantees.Ir

open Koja.Source.Ir Koja.Source.Typecheck Koja.Lib List
open SourceType (isUnion overEach_iff)

/-- What kind of block follows a name. -/
inductive BlockKind where
  | args | tuple | function
  deriving DecidableEq, Repr

/-- One letter of a spelled name: a segment and the kind of its block. -/
abbrev Letter := List Char × Option BlockKind

/-- The kind of a block shows in the characters that end its rows. -/
def blockKind (chunks : Chunks) : BlockKind :=
  if chunks.any (fun chunk => chunk.2 = ';') then .function
  else if chunks.any (fun chunk => chunk.2 = ',') then .tuple
  else .args

def Seg.letter (seg : Seg) : Letter :=
  (seg.name, seg.block.map blockKind)

/-- A dotted name, with or without arguments on its last segment. -/
def nameWord : List (List Char) → Option BlockKind → List Letter
  | [], _ => []
  | [name], kind => [(name, kind)]
  | name :: rest, kind => (name, none) :: nameWord rest kind

/-- The words of a program: the builtin names and the declared ones. -/
inductive Word (declared : Identifier → Prop) : List Letter → Prop
  | plain (ty : PlainType) : Word declared [(ty.word, none)]
  | builtin {name : List Char}
      (generic : name ∈ ["CPtr".toList, "List".toList, "Map".toList, "Set".toList]) :
      Word declared [(name, some .args)]
  | tuple : Word declared [("Tuple".toList, some .tuple)]
  | function : Word declared [("Fn".toList, some .function)]
  | named {identifier : Identifier} (known : declared identifier) (generic : Bool) :
      Word declared (nameWord (segNames identifier) (if generic then some .args else none))

section Rows

variable {declared : Identifier → Prop} {elements types types' : List SourceType} {ty : SourceType}

theorem namedRow_letters (names : List (List Char)) (block : Option Chunks) :
    (namedRow names block).map Seg.letter = nameWord names (block.map blockKind) := by
  fun_induction namedRow names block with
  | case3 name rest _ more ih =>
    rw [map_cons, ih, nameWord]
    · rfl
    · exact more
  | _ => rfl

theorem blockKind_tuple (two : 2 ≤ elements.length) :
    blockKind (tupleChunks elements) = .tuple := by
  have noSemi : ∀ elements : List SourceType,
      (tupleChunks elements).any (fun chunk => chunk.2 = ';') = false := by
    intro elements
    fun_induction tupleChunks elements with
    | case3 _ _ _ ih => simpa using ih
    | _ => rfl
  obtain ⟨first, second, rest, rfl⟩ : ∃ first second rest, elements = first :: second :: rest := by
    rcases elements with _ | ⟨first, _ | ⟨second, rest⟩⟩
    · simp at two
    · simp at two
    · exact ⟨first, second, rest, rfl⟩
  unfold blockKind
  rw [noSemi]
  simp [tupleChunks]

theorem blockKind_function (params : List SourceType) (ret : SourceType) :
    blockKind (paramChunks params ++ [([ret], '$')]) = .function := by
  have semi : (paramChunks params).any (fun chunk => chunk.2 = ';') = true := by
    fun_induction paramChunks params with
    | case3 _ _ _ ih => simpa using ih
    | _ => rfl
  unfold blockKind
  rw [any_append, semi]
  rfl

/-- The letters of a type that is not a union form a word. -/
theorem typeRow_word (ranged : ty.Over declared) (notUnion : ty.isUnion = false) :
    Word declared ((typeRow ty).map Seg.letter) := by
  cases ty with
  | plain ty => exact .plain ty
  | cPtr | list | set | map => exact .builtin (by simp)
  | function =>
    simp only [typeRow, map_cons, Seg.letter, Option.map_some, blockKind_function]
    exact .function
  | tuple =>
    simp only [typeRow, map_cons, Seg.letter, Option.map_some, blockKind_tuple ranged.1]
    exact .tuple
  | union => simp [isUnion] at notUnion
  | named _ args =>
    rw [typeRow, namedRow_letters]
    cases args with
    | nil => exact .named ranged.1 false
    | cons => exact .named ranged.1 true

theorem markedRow_letters (mark : Mark) (ty : SourceType) :
    (markedRow mark ty).map Seg.letter = (typeRow ty).map Seg.letter := by
  unfold markedRow
  cases typeRow ty <;> rfl

theorem namedRow_inj {names names' : List (List Char)} {block block' : Option Chunks}
    (nonempty : names ≠ []) (nonempty' : names' ≠ [])
    (same : namedRow names block = namedRow names' block') : names = names' ∧ block = block' := by
  induction names generalizing names' with
  | nil => exact absurd rfl nonempty
  | cons _ rest ih =>
    cases names' with
    | nil => exact absurd rfl nonempty'
    | cons _ rest' =>
      cases rest with
      | nil =>
        cases rest' with
        | nil => simpa [namedRow] using same
        | cons _ rest' =>
          cases rest' <;> simp [namedRow] at same
      | cons _ rest =>
        cases rest' with
        | nil => cases rest <;> simp [namedRow] at same
        | cons =>
          simp only [namedRow, List.cons.injEq, Seg.mk.injEq, true_and, and_true] at same
          obtain ⟨rfl, same⟩ := same
          obtain ⟨sameRest, sameBlock⟩ := ih (by simp) (by simp) same
          exact ⟨by rw [sameRest], sameBlock⟩

theorem argsBlock_inj {args args' : List SourceType} (same : argsBlock args = argsBlock args') :
    args = args' := by
  cases args <;> cases args' <;> simp_all [argsBlock]

theorem tupleChunks_elements (elements : List SourceType) :
    (tupleChunks elements).flatMap Prod.fst = elements := by
  fun_induction tupleChunks elements with
  | case3 element _ _ ih => exact congrArg (element :: ·) ih
  | _ => rfl

theorem paramChunks_params (params : List SourceType) :
    (paramChunks params).flatMap Prod.fst = params := by
  fun_induction paramChunks params with
  | case3 param _ _ ih => exact congrArg (param :: ·) ih
  | _ => rfl

theorem segNames_inj {identifier identifier' : Identifier}
    (same : segNames identifier = segNames identifier') : identifier = identifier' := by
  obtain ⟨package, path⟩ := identifier
  simp only [segNames, List.cons.injEq, String.toList_inj] at same
  obtain ⟨rfl, same⟩ := same
  rw [map_injective_iff.mpr (fun _ _ => String.toList_inj.mp) same]

theorem word_inj {ty ty' : PlainType} (same : ty.word = ty'.word) : ty = ty' := by
  cases ty <;> cases ty' <;> first | rfl | (revert same; decide)

theorem typeRow_inj (paths : HavePaths declared) {ty' : SourceType} (ranged : ty.Over declared)
    (ranged' : ty'.Over declared)
    (notUnion : ty.isUnion = false) (notUnion' : ty'.isUnion = false)
    (same : typeRow ty = typeRow ty') : ty = ty' := by
  have long : ∀ {identifier : Identifier} {args : List SourceType} {seg : Seg},
      declared identifier → typeRow (.named identifier args) ≠ [seg] := by
    intro identifier args seg known single
    have nonempty := paths identifier known
    cases path : identifier.path with
    | nil => exact nonempty path
    | cons _ rest => cases rest <;> simp [typeRow, segNames, path, namedRow] at single
  cases ty <;> cases ty' <;> simp only [isUnion] at notUnion notUnion'
  case named.named identifier args identifier' args' =>
    obtain ⟨sameNames, sameArgs⟩ := namedRow_inj (by simp [segNames]) (by simp [segNames]) same
    rw [segNames_inj sameNames, argsBlock_inj sameArgs]
  case plain.plain ty ty' =>
    simp only [typeRow, List.cons.injEq, Seg.mk.injEq, true_and, and_true] at same
    rw [word_inj same]
  case function.function params ret params' ret' =>
    simp only [typeRow, List.cons.injEq, Seg.mk.injEq, true_and, and_true,
      Option.some.injEq] at same
    obtain ⟨sameParams, sameRet⟩ := append_inj' same rfl
    simp only [List.cons.injEq, Prod.mk.injEq, and_true] at sameRet
    rw [Function.LeftInverse.injective paramChunks_params sameParams, sameRet]
  case tuple.tuple elements elements' =>
    simp only [typeRow, List.cons.injEq, Seg.mk.injEq, true_and, and_true,
      Option.some.injEq] at same
    rw [Function.LeftInverse.injective tupleChunks_elements same]
  all_goals
    first
    | exact absurd same (long ranged.1)
    | exact absurd same.symm (long ranged'.1)
    | simp_all [typeRow]

theorem typeRow_cons (paths : HavePaths declared) (ranged : ty.Over declared)
    (notUnion : ty.isUnion = false) :
    ∃ name block rest, typeRow ty = ⟨.dot, name, block⟩ :: rest := by
  cases ty with
  | union => simp [isUnion] at notUnion
  | named identifier =>
    cases path : identifier.path with
    | nil => exact absurd path (paths identifier ranged.1)
    | cons => exact ⟨_, _, _, by simp only [typeRow, segNames, path]; rfl⟩
  | _ => exact ⟨_, _, _, rfl⟩

theorem markedRow_inj (paths : HavePaths declared) {mark mark' : Mark} {ty' : SourceType}
    (ranged : ty.Over declared)
    (ranged' : ty'.Over declared) (notUnion : ty.isUnion = false) (notUnion' : ty'.isUnion = false)
    (same : markedRow mark ty = markedRow mark' ty') :
    mark = mark' ∧ ty = ty' := by
  obtain ⟨name, block, rest, first⟩ := typeRow_cons paths ranged notUnion
  obtain ⟨name', block', rest', second⟩ := typeRow_cons paths ranged' notUnion'
  simp only [markedRow, first, second, List.cons.injEq, Seg.mk.injEq] at same
  obtain ⟨⟨sameMark, rfl, rfl⟩, rfl⟩ := same
  exact ⟨sameMark, typeRow_inj paths ranged ranged' notUnion notUnion' (first.trans second.symm)⟩

theorem leaves_over (ranged : ∀ ty ∈ types, ty.Over declared) :
    ∀ leaf ∈ leaves types, leaf.2.Over declared ∧ leaf.2.isUnion = false := by
  induction types with
  | nil => simp [leaves]
  | cons _ rest ih =>
    rw [forall_mem_cons] at ranged
    have others := ih ranged.2
    rcases leaves_cons ranged.1 rest with ⟨notUnion, split⟩ | ⟨first, members, rfl, split⟩
    · rw [split, forall_mem_cons]
      exact ⟨⟨ranged.1, notUnion⟩, others⟩
    · obtain ⟨⟨_, notUnion, overMembers⟩, _⟩ := ranged
      rw [overEach_iff, forall_mem_cons] at overMembers
      rw [forall_mem_cons] at notUnion
      rw [split, forall_mem_cons, forall_mem_append, forall_mem_map]
      exact ⟨⟨overMembers.1, notUnion.1⟩,
        fun member isMember => ⟨overMembers.2 member isMember, notUnion.2 member isMember⟩,
        others⟩

/-- The first leaf of a row is not a further member of a union. -/
theorem leaves_head (ranged : ∀ ty ∈ types, ty.Over declared) :
    ∀ leaf ∈ (leaves types).head?, leaf.1 ≠ .or := by
  cases types with
  | nil => simp [leaves]
  | cons _ rest =>
    rw [forall_mem_cons] at ranged
    rcases leaves_cons ranged.1 rest with ⟨_, split⟩ | ⟨_, _, _, split⟩ <;> simp [split]

/-- The members of a union end where the marks do. -/
theorem or_leaves_split {members members' : List SourceType} {rest rest' : List (Mark × SourceType)}
    (head : ∀ leaf ∈ rest.head?, leaf.1 ≠ .or) (head' : ∀ leaf ∈ rest'.head?, leaf.1 ≠ .or)
    (same : members.map (Prod.mk Mark.or) ++ rest = members'.map (Prod.mk Mark.or) ++ rest') :
    members = members' ∧ rest = rest' := by
  have marked : ∀ members : List SourceType, ∀ leaf ∈ members.map (Prod.mk Mark.or),
      leaf.1 = .or := by simp
  obtain ⟨sameMembers, sameRest⟩ := split_unique (marked members) (marked members') head head' same
  exact ⟨map_injective_iff.mpr (fun _ _ => congrArg Prod.snd) sameMembers, sameRest⟩

theorem leaves_inj (ranged : ∀ ty ∈ types, ty.Over declared)
    (ranged' : ∀ ty ∈ types', ty.Over declared) (same : leaves types = leaves types') :
    types = types' := by
  induction types generalizing types' with
  | nil =>
    cases types' with
    | nil => rfl
    | cons _ rest' =>
      rw [forall_mem_cons] at ranged'
      rcases leaves_cons ranged'.1 rest' with ⟨_, split⟩ | ⟨_, _, _, split⟩ <;>
        simp [split, leaves] at same
  | cons _ rest ih =>
    rw [forall_mem_cons] at ranged
    cases types' with
    | nil =>
      rcases leaves_cons ranged.1 rest with ⟨_, split⟩ | ⟨_, _, _, split⟩ <;>
        simp [split, leaves] at same
    | cons _ rest' =>
      rw [forall_mem_cons] at ranged'
      rcases leaves_cons ranged.1 rest with ⟨_, split⟩ | ⟨first, members, rfl, split⟩ <;>
        rcases leaves_cons ranged'.1 rest' with ⟨_, split'⟩ | ⟨first', members', rfl, split'⟩ <;>
        rw [split, split'] at same <;>
        simp only [List.cons.injEq, Prod.mk.injEq, reduceCtorEq, false_and, true_and] at same
      · rw [same.1, ih ranged.2 ranged'.2 same.2]
      · obtain ⟨rfl, same⟩ := same
        obtain ⟨rfl, sameRest⟩ :=
          or_leaves_split (leaves_head ranged.2) (leaves_head ranged'.2) same
        rw [ih ranged.2 ranged'.2 sameRest]

theorem eq_of_map_eq {α β : Type} {f : α → β} {left right : List α}
    (inj : ∀ a ∈ left, ∀ b ∈ right, f a = f b → a = b) (same : left.map f = right.map f) :
    left = right := by
  induction left generalizing right with
  | nil => simpa using same.symm
  | cons a _ ih =>
    cases right with
    | nil => simp at same
    | cons b =>
      simp only [map_cons, List.cons.injEq] at same
      rw [inj a (by simp) b (by simp) same.1,
        ih (fun x member y member' => inj x (by simp [member]) y (by simp [member'])) same.2]

/-- Under unique spelling the types are read back from their row. -/
theorem typesRow_inj (paths : HavePaths declared) (unique : UniquelyDecodable (Word declared))
    (ranged : ∀ ty ∈ types, ty.Over declared)
    (ranged' : ∀ ty ∈ types', ty.Over declared) (same : typesRow types = typesRow types') :
    types = types' := by
  have words : ∀ {types : List SourceType}, (∀ ty ∈ types, ty.Over declared) →
      ∀ piece ∈ (leaves types).map fun leaf => markedRow leaf.1 leaf.2,
        Word declared (piece.map Seg.letter) := by
    intro types ranged
    rw [forall_mem_map]
    intro leaf member
    rw [markedRow_letters]
    exact typeRow_word (leaves_over ranged leaf member).1 (leaves_over ranged leaf member).2
  have pieces := unique.pieces (words ranged) (words ranged')
    (by simpa [typesRow, flatMap_def] using same)
  refine leaves_inj ranged ranged' ?_
  have leafInj : ∀ leaf ∈ leaves types, ∀ leaf' ∈ leaves types',
      markedRow leaf.1 leaf.2 = markedRow leaf'.1 leaf'.2 → leaf = leaf' := by
    intro leaf member leaf' member' same
    have ok := leaves_over ranged leaf member
    have ok' := leaves_over ranged' leaf' member'
    obtain ⟨sameMark, sameType⟩ := markedRow_inj paths ok.1 ok'.1 ok.2 ok'.2 same
    exact Prod.ext sameMark sameType
  exact eq_of_map_eq leafInj pieces

end Rows

section Blocks

variable (isEnum : Identifier → Bool) {declared : Identifier → Prop} {name rest : List Char}
  {seg : Seg} {types : List SourceType} {chunks : Chunks} {c : Char}

/-- Valid names that cannot be read as parts of a union. -/
structure NamesOk (identifier : Identifier) : Prop where
  path : identifier.path ≠ []
  valid : ∀ name ∈ segNames identifier, TypeName name
  unmarked : ∀ name ∈ segNames identifier, Unmarked name

def AllNamesOk (declared : Identifier → Prop) : Prop :=
  ∀ identifier, declared identifier → NamesOk identifier

theorem AllNamesOk.paths (names : AllNamesOk declared) : HavePaths declared :=
  fun identifier known => (names identifier known).path

/-- The check a concrete name passes. -/
def validName : List Char → Bool
  | [] => false
  | first :: rest => first.isUpper && rest.all isIdentChar

instance : DecidablePred Unmarked := fun _ => inferInstanceAs (Decidable (_ ∧ _ ∧ _))

theorem name_ok (valid : validName name = true ∧ Unmarked name) :
    TypeName name ∧ Unmarked name := by
  refine ⟨?_, valid.2⟩
  cases name with
  | nil => cases valid.1
  | cons first rest =>
    simp only [validName, Bool.and_eq_true, all_eq_true] at valid
    exact ⟨first, rest, rfl, valid.1⟩

theorem namesOk_of_valid {identifier : Identifier} (path : identifier.path ≠ [])
    (valid : ∀ part ∈ segNames identifier, validName part = true ∧ Unmarked part) :
    NamesOk identifier :=
  ⟨path, fun _ member => (name_ok (valid _ member)).1, fun _ member => (valid _ member).2⟩

theorem plain_word_ok (ty : PlainType) : TypeName ty.word ∧ Unmarked ty.word := by
  cases ty <;> exact name_ok (by decide)

theorem builtin_name_ok
    (builtin : name ∈ ["CPtr".toList, "List".toList, "Map".toList, "Set".toList, "Fn".toList,
      "Tuple".toList, "Indirect".toList]) : TypeName name ∧ Unmarked name := by
  refine name_ok ?_
  revert name
  decide

theorem namedRow_mem {names : List (List Char)} {block : Option Chunks}
    (member : seg ∈ namedRow names block) :
    seg.name ∈ names ∧ (seg.block = none ∨ seg.block = block) := by
  fun_induction namedRow names block with
  | case1 => cases member
  | case2 =>
    cases mem_singleton.mp member
    simp
  | case3 _ _ _ _ ih =>
    rcases mem_cons.mp member with rfl | member
    · simp
    · obtain ⟨named, blocks⟩ := ih member
      exact ⟨mem_cons_of_mem _ named, blocks⟩

/-- A segment of a row of types is a segment of one of its leaves, up to the mark. -/
theorem mem_typesRow (member : seg ∈ typesRow types) :
    ∃ leaf ∈ leaves types, ∃ own ∈ typeRow leaf.2, seg.name = own.name ∧ seg.block = own.block := by
  obtain ⟨leaf, isLeaf, member⟩ := mem_flatMap.mp member
  refine ⟨leaf, isLeaf, ?_⟩
  unfold markedRow at member
  cases row : typeRow leaf.2 with
  | nil => simp [row] at member
  | cons first =>
    rw [row, mem_cons] at member
    rcases member with rfl | member
    · exact ⟨first, by simp, rfl, rfl⟩
    · exact ⟨seg, by simp [member], rfl, rfl⟩

theorem typeRow_names (names : AllNamesOk declared) (ranged : ty.Over declared) :
    ∀ seg ∈ typeRow ty, TypeName seg.name ∧ Unmarked seg.name := by
  intro seg member
  cases ty with
  | plain ty =>
    simp only [typeRow, mem_singleton] at member
    subst member
    exact plain_word_ok ty
  | named identifier =>
    have name := (namedRow_mem member).1
    exact ⟨(names identifier ranged.1).valid _ name, (names identifier ranged.1).unmarked _ name⟩
  | union => simp [typeRow] at member
  | _ =>
    simp only [typeRow, mem_singleton] at member
    subst member
    exact builtin_name_ok (by simp)

theorem typesRow_names (names : AllNamesOk declared) (ranged : ∀ ty ∈ types, ty.Over declared) :
    ∀ seg ∈ typesRow types, TypeName seg.name ∧ Unmarked seg.name := by
  intro seg member
  obtain ⟨leaf, isLeaf, own, isOwn, sameName, -⟩ := mem_typesRow member
  rw [sameName]
  exact typeRow_names names (leaves_over ranged leaf isLeaf).1 own isOwn

theorem dotted_starts (names : AllNamesOk declared) (nonempty : types ≠ [])
    (ranged : ∀ ty ∈ types, ty.Over declared) :
    ∃ c rest, dotted isEnum types = c :: rest ∧ c.isUpper = true := by
  have text := dotted_row isEnum names.paths nonempty ranged
  cases row : typesRow types with
  | nil => simp [row, rowText] at text
  | cons seg =>
    have valid := typesRow_names names ranged
    rw [row, forall_mem_cons] at valid
    obtain ⟨first, others, named, upper, _⟩ := valid.1.1
    rw [row] at text
    cases mark : seg.mark with
    | dot =>
      simp only [rowText, flatMap_cons, Seg.text, mark, Mark.text, named,
        cons_append, List.cons.injEq, true_and] at text
      exact ⟨first, _, text, upper⟩
    | union =>
      simp only [rowText, flatMap_cons, Seg.text, mark, Mark.text, cons_append, List.cons.injEq,
        true_and] at text
      exact ⟨'U', _, text, rfl⟩
    | or => simp [rowText, Seg.text, mark, Mark.text] at text

theorem dotted_head (names : AllNamesOk declared) (nonempty : types ≠ [])
    (ranged : ∀ ty ∈ types, ty.Over declared)
    {others : List Char} (same : dotted isEnum types ++ others = c :: rest) : c.isUpper = true := by
  obtain ⟨d, more, spelled, upper⟩ := dotted_starts isEnum names nonempty ranged
  rw [spelled] at same
  rw [← (List.cons.inj same).1]
  exact upper

theorem chunks_starts (names : AllNamesOk declared) (ok : ChunksOk declared chunks)
    (text : chunkText isEnum chunks = c :: rest) :
    c.isUpper = true ∨ c = ';' ∧ ∃ others, chunks = ([], ';') :: others := by
  cases ok with
  | last some ranged | more some ranged =>
    simp only [chunkText, flatMap_cons, append_assoc] at text
    exact .inl (dotted_head isEnum names some ranged text)
  | none =>
    simp only [chunkText, flatMap_cons, dotted, map_nil, intercalate_nil,
      nil_append, cons_append, List.cons.injEq] at text
    exact .inr ⟨text.1.symm, _, rfl⟩

theorem tupleChunks_ok (nonempty : elements ≠ [])
    (ranged : ∀ ty ∈ elements, ty.Over declared) : ChunksOk declared (tupleChunks elements) := by
  fun_induction tupleChunks elements with
  | case1 => exact absurd rfl nonempty
  | case2 => exact .last (by simp) ranged
  | case3 _ _ more ih =>
    rw [forall_mem_cons] at ranged
    exact .more (by simp) (by simpa using ranged.1) (.inl rfl) (ih more ranged.2)

theorem paramChunks_ok {params : List SourceType} {last : Chunks}
    (ranged : ∀ ty ∈ params, ty.Over declared) (others : ChunksOk declared last) :
    ChunksOk declared (paramChunks params ++ last) := by
  fun_induction paramChunks params with
  | case1 => exact .none others
  | case2 => exact .more (by simp) ranged (.inr rfl) others
  | case3 _ _ _ ih =>
    rw [forall_mem_cons] at ranged
    exact .more (by simp) (by simpa using ranged.1) (.inl rfl) (ih ranged.2)

theorem tupleChunks_first (elements : List SourceType) (others : Chunks) :
    tupleChunks elements ≠ ([], ';') :: others := by
  fun_cases tupleChunks elements <;> simp

theorem typeRow_blocks (ranged : ty.Over declared) :
    ∀ seg ∈ typeRow ty, ∀ chunks, seg.block = some chunks → ChunksOk declared chunks ∧
      ∀ others, chunks = ([], ';') :: others → seg.name = ['F', 'n'] := by
  have single : ∀ {types : List SourceType}, types ≠ [] → (∀ ty ∈ types, ty.Over declared) →
      ChunksOk declared [(types, '$')] := fun some ranged => .last some ranged
  intro seg member chunks block
  cases ty
  case union => simp [typeRow] at member
  case named _ args =>
    simp only [SourceType.Over, overEach_iff] at ranged
    rcases (namedRow_mem member).2 with empty | own
    · rw [empty] at block
      cases block
    · rw [own] at block
      cases args with
      | nil => cases block
      | cons =>
        cases block
        exact ⟨single (by simp) ranged.2, by simp⟩
  all_goals
    simp only [typeRow, mem_singleton] at member
    subst member
    cases block
  case function =>
    simp only [SourceType.Over, overEach_iff] at ranged
    exact ⟨paramChunks_ok ranged.1 (single (by simp) (by simpa using ranged.2)), fun _ _ => rfl⟩
  case tuple =>
    simp only [SourceType.Over, overEach_iff] at ranged
    refine ⟨tupleChunks_ok ?_ ranged.2, fun others same => absurd same (tupleChunks_first _ _)⟩
    rintro rfl
    simp at ranged
  all_goals exact ⟨single (by simp) (by simpa [SourceType.Over] using ranged), by simp⟩

/-- A name and a block of types make a segment that can be read. -/
theorem segOk_of_block (names : AllNamesOk declared) (named : TypeName seg.name ∧ Unmarked seg.name)
    (blocks : ∀ chunks, seg.block = some chunks → ChunksOk declared chunks ∧
      ∀ others, chunks = ([], ';') :: others → seg.name = ['F', 'n']) :
    SegOk isEnum declared seg := by
  refine ⟨named.1, named.2, fun chunks block => ⟨(blocks chunks block).1, ?_⟩⟩
  intro c rest text
  rcases chunks_starts isEnum names (blocks chunks block).1 text with upper | ⟨rfl, others, rfl⟩
  · exact .inl upper
  · exact .inr ⟨rfl, (blocks _ block).2 others rfl⟩

theorem typesRow_ok (names : AllNamesOk declared) (ranged : ∀ ty ∈ types, ty.Over declared) :
    ∀ seg ∈ typesRow types, SegOk isEnum declared seg := by
  intro seg member
  refine segOk_of_block isEnum names (typesRow_names names ranged seg member) ?_
  obtain ⟨leaf, isLeaf, own, isOwn, sameName, sameBlock⟩ := mem_typesRow member
  rw [sameName, sameBlock]
  exact typeRow_blocks (leaves_over ranged leaf isLeaf).1 own isOwn

theorem block_shorter {row : List Seg} (member : seg ∈ row) (block : seg.block = some chunks) :
    (chunkText isEnum chunks).length < (rowText isEnum row).length := by
  induction row with
  | nil => simp at member
  | cons _ _ ih =>
    simp only [rowText, flatMap_cons, length_append] at ih ⊢
    rcases mem_cons.mp member with rfl | member
    · simp only [Seg.text, block, blockText, length_append, length_cons]
      omega
    · have := ih member
      omega

/-- A row of types and what ends it are read back, given the blocks inside. -/
theorem types_unique (names : AllNamesOk declared)
    (unique : UniquelyDecodable (Word declared)) (nonempty : types ≠ [])
    (nonempty' : types' ≠ []) (ranged : ∀ ty ∈ types, ty.Over declared)
    (ranged' : ∀ ty ∈ types', ty.Over declared) (readable : ∀ chunks, ChunksOk declared chunks →
      (chunkText isEnum chunks).length < (dotted isEnum types).length + 1 →
        Readable isEnum declared chunks) {rest' : List Char} (stops : Stops rest)
    (stops' : Stops rest') (same : dotted isEnum types ++ rest = dotted isEnum types' ++ rest') :
    types = types' ∧ rest = rest' := by
  have text := dotted_row isEnum names.paths nonempty ranged
  have text' := dotted_row isEnum names.paths nonempty' ranged'
  have rows : rowText isEnum (typesRow types) ++ rest =
      rowText isEnum (typesRow types') ++ rest' := by
    rw [← text, ← text', cons_append, cons_append, same]
  have blocks : ∀ seg ∈ typesRow types, ∀ chunks, seg.block = some chunks →
      Readable isEnum declared chunks := by
    intro seg member chunks block
    refine readable chunks ((typesRow_ok isEnum names ranged seg member).block chunks block).rows ?_
    have shorter := block_shorter isEnum member block
    rw [← text] at shorter
    simpa using shorter
  obtain ⟨sameRow, sameRest⟩ := row_unique isEnum (typesRow_ok isEnum names ranged)
    (typesRow_ok isEnum names ranged') blocks stops stops' rows
  exact ⟨typesRow_inj names.paths unique ranged ranged' sameRow, sameRest⟩

/-- The first row of a block: what it holds, how it ends, and what follows. -/
theorem ChunksOk.first (ok : ChunksOk declared chunks) :
    ∃ types c rest, chunks = (types, c) :: rest ∧
      (types = [] ∧ c = ';' ∨ types ≠ [] ∧ ∀ ty ∈ types, ty.Over declared) ∧
      (c = '$' ∧ rest = [] ∨ (c = ',' ∨ c = ';') ∧ ChunksOk declared rest) := by
  cases ok with
  | last nonempty ranged => exact ⟨_, _, _, rfl, .inr ⟨nonempty, ranged⟩, .inl ⟨rfl, rfl⟩⟩
  | more nonempty ranged separator others =>
    exact ⟨_, _, _, rfl, .inr ⟨nonempty, ranged⟩, .inr ⟨separator, others⟩⟩
  | none others => exact ⟨_, _, _, rfl, .inl ⟨rfl, rfl⟩, .inr ⟨.inr rfl, others⟩⟩

theorem chunk_stops {others : Chunks} (notUpper : NotUpper rest)
    (ends : c = '$' ∧ others = [] ∨ (c = ',' ∨ c = ';') ∧ ChunksOk declared others) :
    Stops (c :: (chunkText isEnum others ++ rest)) := by
  rcases ends with ⟨rfl, rfl⟩ | ⟨rfl | rfl, _⟩
  · exact ⟨rfl, fun _ => notUpper⟩
  · exact ⟨rfl, by simp⟩
  · exact ⟨rfl, by simp⟩

theorem chunkText_cons (types : List SourceType) (c : Char) (others : Chunks) :
    chunkText isEnum ((types, c) :: others) =
      dotted isEnum types ++ c :: chunkText isEnum others := by
  simp [chunkText]

/-- Under unique spelling every block is read back from its text. -/
theorem chunks_readable (names : AllNamesOk declared)
    (unique : UniquelyDecodable (Word declared)) (ok : ChunksOk declared chunks) :
    Readable isEnum declared chunks := by
  -- Induction on the length of the text: inner blocks and later rows are shorter.
  induction size : (chunkText isEnum chunks).length using Nat.strong_induction_on
    generalizing chunks with
  | _ n ih =>
    intro chunks' rest rest' ok' notUpper notUpper' same
    obtain ⟨types, c, others, rfl, row, ends⟩ := ok.first
    obtain ⟨types', c', others', rfl, row', ends'⟩ := ok'.first
    rw [chunkText_cons, length_append, length_cons] at size
    simp only [chunkText_cons, append_assoc, cons_append] at same
    have first : types = types' ∧ c :: (chunkText isEnum others ++ rest) =
        c' :: (chunkText isEnum others' ++ rest') := by
      rcases row with ⟨rfl, rfl⟩ | ⟨nonempty, ranged⟩
      · rcases row' with ⟨rfl, rfl⟩ | ⟨nonempty', ranged'⟩
        · exact ⟨rfl, same⟩
        · exact absurd (dotted_head isEnum names nonempty' ranged' same.symm) (by decide)
      · rcases row' with ⟨rfl, rfl⟩ | ⟨nonempty', ranged'⟩
        · exact absurd (dotted_head isEnum names nonempty ranged same) (by decide)
        · refine types_unique isEnum names unique nonempty nonempty' ranged ranged' ?_
            (chunk_stops isEnum notUpper ends) (chunk_stops isEnum notUpper' ends') same
          intro inner innerOk less
          exact ih _ (by omega) innerOk rfl
    obtain ⟨rfl, following⟩ := first
    obtain ⟨rfl, after⟩ := List.cons.inj following
    rcases ends with ⟨rfl, rfl⟩ | ⟨separator, othersOk⟩
    · rcases ends' with ⟨_, rfl⟩ | ⟨separator', _⟩
      · exact ⟨rfl, after⟩
      · simp at separator'
    · rcases ends' with ⟨rfl, _⟩ | ⟨_, othersOk'⟩
      · simp at separator
      · obtain ⟨rfl, sameRest⟩ := ih _ (by omega) othersOk rfl others' rest rest' othersOk'
          notUpper notUpper' after
        exact ⟨rfl, sameRest⟩

end Blocks

end Koja.Guarantees.Ir
