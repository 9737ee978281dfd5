import Koja.Lib.Traverse
import Koja.Source.Typecheck.Equivalence

/-!
# The order of union members

The comparison `canonical_union` sorts by is a linear order on types, so the sorted and
deduplicated member vector is the strictly increasing list of the flattened members.
-/
namespace Koja.Guarantees.Typecheck

open Koja.Source.Typecheck ResolvedType List

/-- Lexicographic comparisons compose: the first components are equal or already decide. -/
theorem then_lt_trans {α : Type} {compareFirst : α → α → Ordering}
    (equal : ∀ x y, compareFirst x y = .eq → x = y) (self : ∀ x, compareFirst x x = .eq)
    {x y z : α} {xy yz xz : Ordering}
    (first : compareFirst x y = .lt → compareFirst y z = .lt → compareFirst x z = .lt)
    (second : xy = .lt → yz = .lt → xz = .lt)
    (hxy : (compareFirst x y).then xy = .lt) (hyz : (compareFirst y z).then yz = .lt) :
    (compareFirst x z).then xz = .lt := by
  simp only [Ordering.then_eq_lt] at hxy hyz ⊢
  rcases hxy with hxy | ⟨exy, hxy⟩
  · rcases hyz with hyz | ⟨eyz, hyz⟩
    · exact .inl (first hxy hyz)
    · rw [← equal y z eyz]
      exact .inl hxy
  · rw [equal x y exy]
    rcases hyz with hyz | ⟨eyz, hyz⟩
    · exact .inl hyz
    · rw [← equal y z eyz]
      exact .inr ⟨self y, second hxy hyz⟩

theorem resolution_cmp_swap {a b : Resolution} : b.cmp a = (a.cmp b).swap := by
  cases a <;> cases b <;> simp [Resolution.cmp, Ordering.swap_then, Nat.compare_swap]

theorem resolution_cmp_trans {a b c : Resolution} (hab : a.cmp b = .lt) (hbc : b.cmp c = .lt) :
    a.cmp c = .lt := by
  cases a <;> cases b <;> cases c <;>
    simp only [Resolution.cmp, reduceCtorEq, Ordering.then_eq_lt, Nat.compare_eq_lt,
      Nat.compare_eq_eq] at hab hbc ⊢ <;> omega

mutual

theorem cmp_swap {a b : ResolvedType} : b.cmp a = (a.cmp b).swap := by
  cases a <;> cases b <;>
    simp only [ResolvedType.cmp, ResolvedType.variant, Ordering.swap_then, Nat.compare_swap]
  case function.function params ret params' ret' =>
    rw [cmpEach_swap, cmp_swap]
  case tuple.tuple elements elements' => exact cmpEach_swap
  case named.named resolution typeArgs resolution' typeArgs' =>
    rw [resolution_cmp_swap, cmpEach_swap]
  case union.union members members' => exact cmpEach_swap

theorem cmpEach_swap {as bs : List ResolvedType} : cmpEach bs as = (cmpEach as bs).swap := by
  cases as <;> cases bs <;> simp only [cmpEach, Ordering.swap_then]
  case nil.nil => rfl
  case nil.cons => rfl
  case cons.nil => rfl
  case cons.cons a as b bs => rw [cmp_swap, cmpEach_swap]

end

theorem cmp_of_variant_lt {a b : ResolvedType} (below : a.variant < b.variant) : a.cmp b = .lt := by
  cases a <;> cases b <;>
    simp only [ResolvedType.cmp, ResolvedType.variant, Nat.compare_eq_lt] at below ⊢ <;> omega

theorem variant_le_of_cmp {a b : ResolvedType} (below : a.cmp b = .lt) : a.variant ≤ b.variant := by
  cases a <;> cases b <;>
    simp only [ResolvedType.cmp, ResolvedType.variant, Nat.compare_eq_lt] at below ⊢ <;> omega

mutual

theorem cmp_trans {a b c : ResolvedType} (hab : a.cmp b = .lt) (hbc : b.cmp c = .lt) :
    a.cmp c = .lt := by
  by_cases below : a.variant < c.variant
  · exact cmp_of_variant_lt below
  -- Otherwise the three are one variant, and the fields decide.
  · have hab' := variant_le_of_cmp hab
    have hbc' := variant_le_of_cmp hbc
    have sameAb : a.variant = b.variant := by omega
    have sameBc : b.variant = c.variant := by omega
    cases a <;> cases b <;> try (simp [ResolvedType.variant] at sameAb; done)
    all_goals cases c <;> try (simp [ResolvedType.variant] at sameBc; done)
    all_goals simp only [ResolvedType.cmp] at hab hbc ⊢
    case function.function.function params ret params' ret' params'' ret'' =>
      exact then_lt_trans eq_of_cmpEach cmpEach_self
        (cmpEach_trans) (cmp_trans) hab hbc
    case tuple.tuple.tuple elements elements' elements'' =>
      exact cmpEach_trans hab hbc
    case named.named.named resolution args resolution' args' resolution'' args'' =>
      exact then_lt_trans (fun _ _ => Resolution.eq_of_cmp) Resolution.cmp_self
        resolution_cmp_trans (cmpEach_trans) hab hbc
    case union.union.union members members' members'' =>
      exact cmpEach_trans hab hbc
    all_goals simp [ResolvedType.variant] at hab

theorem cmpEach_trans {as bs cs : List ResolvedType} (hab : cmpEach as bs = .lt)
    (hbc : cmpEach bs cs = .lt) : cmpEach as cs = .lt := by
  cases as <;> cases bs <;> cases cs <;> simp only [cmpEach, reduceCtorEq] at hab hbc ⊢
  case cons.cons.cons a as b bs c cs =>
    exact then_lt_trans eq_of_cmp cmp_self (cmp_trans) (cmpEach_trans) hab hbc

end

section Members

variable (table : TypeTable) {a b : ResolvedType} {members : List ResolvedType}

theorem memberCmp_self (a : ResolvedType) : table.memberCmp a a = .eq := by
  simp [TypeTable.memberCmp, cmp_self]

theorem eq_of_memberCmp (same : table.memberCmp a b = .eq) : a = b := by
  simp only [TypeTable.memberCmp, Ordering.then_eq_eq] at same
  exact eq_of_cmp a b same.2

theorem memberCmp_swap (a b : ResolvedType) : table.memberCmp b a = (table.memberCmp a b).swap := by
  unfold TypeTable.memberCmp
  rw [Ordering.swap_then, ← cmp_swap, Std.OrientedOrd.eq_swap (a := table.displayResolution b)]

theorem memberCmp_trans {c : ResolvedType} (hab : table.memberCmp a b = .lt)
    (hbc : table.memberCmp b c = .lt) : table.memberCmp a c = .lt :=
  then_lt_trans (fun _ _ => Std.LawfulEqOrd.eq_of_compare) (fun _ => Std.ReflCmp.compare_self)
    Std.TransCmp.lt_trans (cmp_trans) hab hbc

/-- A strictly earlier member. -/
def MemberLt (a b : ResolvedType) : Prop :=
  table.memberCmp a b = .lt

instance : DecidableRel (MemberLt table) :=
  fun a b => inferInstanceAs (Decidable (table.memberCmp a b = .lt))

theorem memberLe_iff : table.MemberLe a b ↔ MemberLt table a b ∨ a = b := by
  unfold TypeTable.MemberLe MemberLt
  constructor
  · intro notAfter
    cases order : table.memberCmp a b with
    | lt => exact .inl rfl
    | eq => exact .inr (eq_of_memberCmp table order)
    | gt => exact absurd order notAfter
  · rintro (before | rfl)
    · simp [before]
    · simp [memberCmp_self]

instance : Std.Total table.MemberLe where
  total a b := by
    unfold TypeTable.MemberLe
    rw [memberCmp_swap table a b]
    cases table.memberCmp a b <;> simp

instance : IsTrans ResolvedType table.MemberLe where
  trans a b c hab hbc := by
    rw [memberLe_iff] at hab hbc ⊢
    rcases hab with hab | rfl
    · rcases hbc with hbc | rfl
      · exact .inl (memberCmp_trans table hab hbc)
      · exact .inl hab
    · exact hbc

instance : Std.Antisymm table.MemberLe where
  antisymm a b hab hba := by
    rw [memberLe_iff] at hab hba
    rcases hab with hab | same
    · rcases hba with hba | same
      · have loop := memberCmp_trans table hab hba
        rw [memberCmp_self] at loop
        cases loop
      · exact same.symm
    · exact same

theorem canonicalMembers_eq_dedup (members : List ResolvedType) : table.canonicalMembers members =
      ((members.flatMap table.flattenMember).insertionSort table.MemberLe).dedup :=
  List.Pairwise.destutter_eq_dedup (pairwise_insertionSort _ _)

theorem mem_canonicalMembers {ty : ResolvedType} :
    ty ∈ table.canonicalMembers members ↔ ty ∈ members.flatMap table.flattenMember := by
  rw [canonicalMembers_eq_dedup, mem_dedup]
  exact (perm_insertionSort _ _).mem_iff

theorem canonicalMembers_nodup (members : List ResolvedType) :
    (table.canonicalMembers members).Nodup := by
  rw [canonicalMembers_eq_dedup]
  exact nodup_dedup _

theorem canonicalMembers_sorted (members : List ResolvedType) :
    (table.canonicalMembers members).Pairwise table.MemberLe :=
  (pairwise_insertionSort _ _).sublist (destutter_sublist _ _)

theorem canonicalMembers_increasing (members : List ResolvedType) :
    (table.canonicalMembers members).Pairwise (MemberLt table) := by
  have sorted := canonicalMembers_sorted table members
  refine (sorted.and (canonicalMembers_nodup table members)).imp ?_
  rintro a b ⟨le, ne⟩
  exact ((memberLe_iff table).mp le).resolve_right ne

theorem canonicalMembers_congr {members others : List ResolvedType}
    (same : ∀ ty, ty ∈ members.flatMap table.flattenMember ↔
      ty ∈ others.flatMap table.flattenMember) :
    table.canonicalMembers members = table.canonicalMembers others := by
  simp only [← mem_canonicalMembers] at same
  have perm := (perm_ext_iff_of_nodup (canonicalMembers_nodup table members)
    (canonicalMembers_nodup table others)).mpr same
  exact perm.eq_of_pairwise' (canonicalMembers_sorted _ _) (canonicalMembers_sorted _ _)

/-- The canonical members are decided by the set of flattened members: how a union nests, orders
and repeats them does not show. -/
theorem canonicalMembers_eq_iff (members others : List ResolvedType) :
    table.canonicalMembers members = table.canonicalMembers others ↔
      ∀ ty, ty ∈ members.flatMap table.flattenMember ↔ ty ∈ others.flatMap table.flattenMember := by
  refine ⟨fun same ty => ?_, canonicalMembers_congr table⟩
  rw [← mem_canonicalMembers, ← mem_canonicalMembers, same]

/-- Distinct flat members are kept, in the order of the comparison. -/
theorem canonicalMembers_perm (flat : ∀ member ∈ members, table.flattenMember member = [member])
    (distinct : members.Nodup) : (table.canonicalMembers members).Perm members := by
  have flattened : members.flatMap table.flattenMember = members := by
    rw [flatMap_congr flat]
    simp
  rw [perm_ext_iff_of_nodup (canonicalMembers_nodup table members) distinct]
  intro ty
  rw [mem_canonicalMembers, flattened]

/-- An increasing list of flat members is its own canonical form. -/
theorem canonicalMembers_of_increasing
    (flat : ∀ member ∈ members, table.flattenMember member = [member])
    (increasing : members.Pairwise (MemberLt table)) :
    table.canonicalMembers members = members := by
  have distinct : members.Nodup := by
    refine increasing.imp ?_
    rintro a b below rfl
    rw [MemberLt, memberCmp_self] at below
    cases below
  exact (canonicalMembers_perm table flat distinct).eq_of_pairwise'
    (canonicalMembers_sorted table members)
    (increasing.imp fun below => (memberLe_iff table).mpr (.inl below))

end Members

end Koja.Guarantees.Typecheck
