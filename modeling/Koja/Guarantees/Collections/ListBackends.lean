import Mathlib.Algebra.Ring.Int.Defs
import Mathlib.Algebra.Ring.Nat
import Mathlib.Data.List.TakeDrop
import Mathlib.Data.Option.Basic
import Mathlib.Order.Lattice
import Koja.Lib.Calls
import Koja.Source.Eval.Collections
import Koja.Source.Llvm.List

/-!
# Lists under both backends

A native list holds the interpreter's items in the cells below its length. Every method keeps
this, with one exception: `slice` clamps its arguments as unsigned numbers natively and as signed
ones in the interpreter, so a negative start or count can give two different slices.
-/
namespace Koja.Guarantees.Collections

open Koja.Lib Koja.Source.Ir Koja.Source List BitVec

variable {T : Type} {items : List T} {list : Llvm.NativeList T} {bits start count : BitVec 64}

/-- The cells below the list's length are the items. -/
def Holds (list : Llvm.NativeList T) (items : List T) : Prop :=
  list.length = items.length ∧ list.buffer.take items.length = items.map some

theorem Holds.le_capacity (holds : Holds list items) : items.length ≤ list.buffer.length := by
  have cells := congrArg List.length holds.2
  rw [length_take, length_map] at cells
  omega

theorem Holds.load (holds : Holds list items) {index : Nat} (inside : index < items.length) :
    Llvm.loadElement list.buffer index = items[index]? := by
  have cell : list.buffer[index]? = (items.map some)[index]? := by
    rw [← holds.2, List.getElem?_take_of_lt inside]
  unfold Llvm.loadElement
  rw [cell, List.getElem?_map, List.getElem?_eq_getElem inside]
  rfl

theorem take_copyBuffer (holds : Holds list items) (capacity : Nat) :
    (Llvm.copyBuffer list.buffer list.length capacity).take items.length = items.map some := by
  unfold Llvm.copyBuffer
  rw [holds.1, holds.2, take_append_of_le_length (by simp), take_of_length_le (by simp)]

theorem length_copyBuffer {items : List T} (holds : Holds list items)
    {capacity : Nat} (enough : items.length ≤ capacity) :
    (Llvm.copyBuffer list.buffer list.length capacity).length = capacity := by
  have within := holds.le_capacity
  unfold Llvm.copyBuffer
  rw [holds.1, length_append, length_take, length_replicate]
  omega

/-- Storing an item in the cell after the last one. -/
theorem take_set_append {buffer : List (Option T)} (item : T)
    (cells : buffer.take items.length = items.map some) (room : items.length < buffer.length) :
    (buffer.set items.length (some item)).take (items ++ [item]).length =
      (items ++ [item]).map some := by
  rw [length_append, length_singleton, take_set, take_succ_eq_append_getElem
    room, cells]
  simp

theorem holds_new : Holds (Llvm.listNew : Llvm.NativeList T) [] :=
  ⟨rfl, rfl⟩

theorem holds_literalList (items : List T) : Holds (Llvm.literalList items) items := by
  refine ⟨rfl, ?_⟩
  show (items.map some).take items.length = items.map some
  rw [take_of_length_le (by simp)]

theorem Holds.clone (holds : Holds list items) : Holds (Llvm.cloneListValue list) items :=
  ⟨holds.1, take_copyBuffer holds _⟩

theorem lt_grownCapacity {current : Nat} : current < Llvm.grownCapacity current := by
  unfold Llvm.grownCapacity Llvm.initialListCapacity
  split <;> omega

theorem Holds.append (holds : Holds list items) (item : T) :
    Holds (Llvm.listAppend list item) (items ++ [item]) := by
  have room := @lt_grownCapacity list.length
  have size := @length_copyBuffer _ list items holds (Llvm.grownCapacity list.length)
    (by have := holds.1; omega)
  refine ⟨by simp [Llvm.listAppend, holds.1], ?_⟩
  have stored := take_set_append item (take_copyBuffer holds (Llvm.grownCapacity list.length))
    (by have := holds.1; omega)
  rw [← holds.1] at stored
  exact stored

theorem Holds.appendConsuming (holds : Holds list items) (item : T) :
    Holds (Llvm.listAppendConsuming list item) (items ++ [item]) := by
  unfold Llvm.listAppendConsuming
  split
  next room =>
    refine ⟨by simp [holds.1], ?_⟩
    have stored := take_set_append item holds.2 (holds.1 ▸ room)
    rw [← holds.1] at stored
    exact stored
  next full =>
    have within := holds.le_capacity
    have room := @lt_grownCapacity list.buffer.length
    have size := @length_copyBuffer _ list items holds
      (Llvm.grownCapacity list.buffer.length) (by omega)
    refine ⟨by simp [holds.1], ?_⟩
    have stored := take_set_append item
      (take_copyBuffer holds (Llvm.grownCapacity list.buffer.length)) (by omega)
    rw [← holds.1] at stored
    exact stored

theorem Holds.concat {other : Llvm.NativeList T} {others : List T}
    (holds : Holds list items) (holdsOther : Holds other others) :
    Holds (Llvm.listConcat list other) (items ++ others) := by
  refine ⟨by simp [Llvm.listConcat, holds.1, holdsOther.1], ?_⟩
  show (list.buffer.take list.length ++ other.buffer.take other.length).take _ = _
  rw [holds.1, holdsOther.1, holds.2, holdsOther.2, ← map_append,
    take_of_length_le (by simp)]

theorem Holds.take {items : List T} (holds : Holds list items)
    {count : Nat} (within : count ≤ items.length) :
    list.buffer.take count = (items.take count).map some := by
  have shorter := congrArg (List.take count) holds.2
  rw [List.take_take, Nat.min_eq_left within, ← List.map_take] at shorter
  exact shorter

theorem Holds.pop (holds : Holds list items) :
    ∃ rest, Llvm.listPop list = some (items.getLast?, rest) ∧ Holds rest items.dropLast := by
  unfold Llvm.listPop
  split
  next empty =>
    obtain rfl : items = [] := length_eq_zero_iff.mp (holds.1 ▸ empty)
    exact ⟨_, rfl, holds.clone⟩
  next nonempty =>
    have last : items.length - 1 < items.length := by
      have := holds.1
      omega
    have loaded := holds.load last
    rw [List.getLast?_eq_getElem?]
    simp only [holds.1, loaded, List.getElem?_eq_getElem last]
    refine ⟨_, rfl, by simp, ?_⟩
    unfold Llvm.copyBuffer
    rw [holds.take (by omega), Nat.sub_self, List.replicate_zero, List.append_nil,
      dropLast_eq_take, take_of_length_le (by simp)]

/-- A list whose length is a non-negative `Int`, as any list in memory has. -/
def Fits (items : List T) : Prop :=
  items.length < 2 ^ 63

/-- Within such a list an unsigned index is in range exactly if it is not negative and in
range as it is. -/
theorem toNat_lt_iff {bound : Nat} (fits : bound < 2 ^ 63) :
    bits.toNat < bound ↔ 0 ≤ bits.toInt ∧ bits.toNat < bound := by
  rw [toInt_eq_toNat_cond]
  split <;> omega

theorem toInt_eq_of_nonneg (nonneg : 0 ≤ bits.toInt) : bits.toInt.toNat = bits.toNat := by
  have value := toInt_eq_toNat_cond bits
  split at value <;> omega

theorem le_toNat_of_neg (neg : bits.toInt < 0) : 2 ^ 63 ≤ bits.toNat := by
  rw [toInt_eq_toNat_cond] at neg
  split at neg <;> omega

theorem Holds.get (holds : Holds list items) (fits : Fits items) (index : BitVec 64) :
    Llvm.listGet list index = some (Eval.listGet items index) := by
  unfold Llvm.listGet Eval.listGet
  rw [holds.1]
  split
  next inside =>
    have nonneg := ((toNat_lt_iff fits).mp inside).1
    rw [holds.load inside, if_neg (by omega), List.getElem?_eq_getElem inside]
    rfl
  next outside =>
    split
    · rfl
    · rw [List.getElem?_eq_none (by omega)]

theorem Holds.replaceAt (holds : Holds list items)
    (fits : Fits items) (index : BitVec 64) (value : T) :
    Holds (Llvm.listReplaceAt list index value) (Eval.listReplaceAt items index value) := by
  unfold Llvm.listReplaceAt Eval.listReplaceAt
  rw [holds.1]
  split
  next inside =>
    rw [if_pos ((toNat_lt_iff fits).mp inside).1]
    refine ⟨by simp, ?_⟩
    have copied := take_copyBuffer holds items.length
    rw [holds.1] at copied
    rw [length_set, take_set, copied, map_set]
  next outside =>
    split
    · rw [set_eq_of_length_le (by omega)]
      exact holds.clone
    · exact holds.clone

/-! ## Slices -/

/-- The arguments of a slice that both backends clamp alike: neither is negative, or there is
nothing to take by either reading. -/
def SliceClamps (items : List T) (start count : BitVec 64) : Prop :=
  items = [] ∨ (start.toInt < 0 ∧ count.toInt ≤ 0) ∨
    (0 ≤ start.toInt ∧ (0 ≤ count.toInt ∨ items.length ≤ start.toNat))

/-- The native slice holds the cells its clamped start and count select. -/
def nativeSlice (items : List T) (start count : BitVec 64) : List T :=
  let clampedStart := if start.toNat < items.length then start.toNat else items.length
  let remaining := items.length - clampedStart
  let clampedCount := if count.toNat ≤ remaining then count.toNat else remaining
  (items.drop clampedStart).take clampedCount

theorem Holds.slice (holds : Holds list items) (start count : BitVec 64) :
    Holds (Llvm.listSlice list start count) (nativeSlice items start count) := by
  unfold Llvm.listSlice nativeSlice
  rw [holds.1]
  simp only []
  generalize first : (if start.toNat < items.length then start.toNat else items.length) = begin
  generalize amount : (if count.toNat ≤ items.length - begin then count.toNat
    else items.length - begin) = taken
  have takenBound : taken ≤ items.length - begin := by
    rw [← amount]
    split <;> omega
  split
  next nonempty =>
    have size : ((items.drop begin).take taken).length = taken := by
      rw [length_take, length_drop]
      omega
    refine ⟨size.symm, ?_⟩
    rw [size, take_take, Nat.min_self]
    have cells := congrArg (drop begin) (@Holds.take _ list items holds (begin + taken)
      (by omega))
    rw [drop_take, ← map_drop, drop_take, Nat.add_sub_cancel_left] at cells
    exact cells
  next nothing =>
    obtain rfl : taken = 0 := by omega
    exact ⟨rfl, rfl⟩

theorem nativeSlice_of_neg_start (fits : Fits items) (neg : start.toInt < 0) (count : BitVec 64) :
    nativeSlice items start count = [] := by
  have large := le_toNat_of_neg neg
  have short : items.length < 2 ^ 63 := fits
  have past : ¬ start.toNat < items.length := by omega
  unfold nativeSlice
  simp only []
  rw [if_neg past, drop_length, take_nil]

theorem nativeSlice_of_neg_count (fits : Fits items) (start : BitVec 64) (neg : count.toInt < 0) :
    nativeSlice items start count = items.drop start.toNat := by
  have large := le_toNat_of_neg neg
  have short : items.length < 2 ^ 63 := fits
  unfold nativeSlice
  simp only []
  split
  next inside => rw [if_neg (by omega), take_of_length_le (by simp)]
  next outside =>
    rw [drop_length, take_nil, drop_eq_nil_of_le (by omega)]

theorem evalSlice_of_neg_count (start : BitVec 64) (neg : count.toInt ≤ 0) :
    Eval.listSlice items start count = [] := by
  unfold Eval.listSlice
  rw [max_eq_right neg]
  simp

theorem evalSlice_of_neg_start (neg : start.toInt < 0) (pos : 0 < count.toInt) :
    Eval.listSlice items start count = items.take count.toNat := by
  unfold Eval.listSlice
  rw [max_eq_right (Int.le_of_lt neg), max_eq_left (Int.le_of_lt pos),
    toInt_eq_of_nonneg (Int.le_of_lt pos)]
  simp [take_eq_take_iff]

theorem slices_eq_of_nonneg (startNonneg : 0 ≤ start.toInt) (countNonneg : 0 ≤ count.toInt) :
    nativeSlice items start count = Eval.listSlice items start count := by
  unfold nativeSlice Eval.listSlice
  simp only []
  rw [max_eq_left startNonneg, max_eq_left countNonneg, toInt_eq_of_nonneg startNonneg,
    toInt_eq_of_nonneg countNonneg]
  have first : (if start.toNat < items.length then start.toNat else items.length) =
      min start.toNat items.length := by
    split <;> omega
  rw [first]
  have amount : ∀ remaining, (if count.toNat ≤ remaining then count.toNat else remaining) =
      min count.toNat remaining := by
    intro remaining
    split <;> omega
  rw [amount]

/-- The two slices of a list that fits in memory are one exactly if the arguments clamp alike. -/
theorem slices_eq_iff (fits : Fits items) (start count : BitVec 64) :
    nativeSlice items start count = Eval.listSlice items start count ↔
      SliceClamps items start count := by
  by_cases startNeg : start.toInt < 0
  · rw [nativeSlice_of_neg_start fits startNeg]
    by_cases pos : 0 < count.toInt
    · have nonzero : count.toNat ≠ 0 := by
        rw [← toInt_eq_of_nonneg (Int.le_of_lt pos)]
        omega
      rw [evalSlice_of_neg_start startNeg pos, eq_comm, take_eq_nil_iff]
      constructor
      · rintro (zero | empty)
        · exact absurd zero nonzero
        · exact .inl empty
      · rintro (empty | ⟨_, nonpos⟩ | ⟨nonneg, _⟩)
        · exact .inr empty
        · omega
        · omega
    · rw [evalSlice_of_neg_count start (by omega)]
      exact iff_of_true rfl (.inr (.inl ⟨startNeg, by omega⟩))
  · by_cases countNeg : count.toInt < 0
    · rw [nativeSlice_of_neg_count fits start countNeg,
        evalSlice_of_neg_count start (Int.le_of_lt countNeg), drop_eq_nil_iff]
      constructor
      · exact fun past => .inr (.inr ⟨by omega, .inr past⟩)
      · rintro (rfl | ⟨neg, _⟩ | ⟨_, nonneg | past⟩)
        · exact Nat.zero_le _
        · omega
        · omega
        · exact past
    · exact iff_of_true (slices_eq_of_nonneg (by omega) (by omega))
        (.inr (.inr ⟨by omega, .inl (by omega)⟩))

/-! ## Sequences of calls -/

variable (state : Llvm.NativeList T × List T)

/-- A call in both backends, side by side. -/
def pairedList (call : ListCall T) :
    Option ((Llvm.NativeList T × List T) × (Answer T T × Answer T T)) :=
  (Llvm.callList state.1 call).map fun native =>
    ((native.1, (Eval.callList state.2 call).1), (native.2, (Eval.callList state.2 call).2))

/-- The native call returns, the answers are one, and so are the resulting lists. -/
def ListCallAgrees (call : ListCall T) : Prop :=
  ∃ list answer, Llvm.callList state.1 call = some (list, answer) ∧
    answer = (Eval.callList state.2 call).2 ∧ Holds list (Eval.callList state.2 call).1

/-- A slice's arguments clamp alike. -/
def ListCallClamps : ListCall T → Prop
  | .slice start count => SliceClamps state.2 start count
  | _ => True

theorem Holds.unique {others : List T} (holds : Holds list items) (holdsOther : Holds list others) :
    items = others := by
  have size : items.length = others.length := holds.1.symm.trans holdsOther.1
  have cells := holds.2
  rw [size, holdsOther.2] at cells
  exact (map_injective_iff.mpr (Option.some_injective T) cells).symm

theorem listCallAgrees_iff {state : Llvm.NativeList T × List T} (holds : Holds state.1 state.2)
    (fits : Fits state.2) (call : ListCall T) :
    ListCallAgrees state call ↔ ListCallClamps state call := by
  obtain ⟨list, items⟩ := state
  cases call with
  | append mode item =>
    refine iff_of_true ?_ trivial
    cases mode with
    | copying => exact ⟨_, _, rfl, rfl, holds.append item⟩
    | consuming => exact ⟨_, _, rfl, rfl, holds.appendConsuming item⟩
  | concat other =>
    exact iff_of_true ⟨_, _, rfl, rfl, holds.concat (holds_literalList other)⟩ trivial
  | emptyQ =>
    refine iff_of_true ⟨_, _, rfl, congrArg Answer.bool ?_, holds⟩ trivial
    rw [holds.1, Bool.eq_iff_iff, beq_iff_eq, List.length_eq_zero_iff, List.isEmpty_iff]
  | fromList listed =>
    exact iff_of_true ⟨_, _, rfl, rfl, (holds_literalList listed).clone⟩ trivial
  | get index =>
    refine iff_of_true ⟨list, _, ?_, rfl, holds⟩ trivial
    simp only [Llvm.callList, holds.get fits index]
    rfl
  | length =>
    exact iff_of_true
      ⟨_, _, rfl, congrArg (fun count : Nat => Answer.int count) holds.1, holds⟩ trivial
  | new => exact iff_of_true ⟨_, _, rfl, rfl, holds_new⟩ trivial
  | pop =>
    obtain ⟨rest, popped, holdsRest⟩ := holds.pop
    refine iff_of_true ⟨rest, .value items.getLast?, ?_, rfl, holdsRest⟩ trivial
    simp only [Llvm.callList, popped, Option.map_some]
  | replaceAt index value =>
    exact iff_of_true ⟨_, _, rfl, rfl, holds.replaceAt fits index value⟩ trivial
  | slice start count =>
    show _ ↔ SliceClamps items start count
    rw [← slices_eq_iff fits]
    constructor
    · rintro ⟨sliced, _, ⟨rfl, rfl⟩, _, holdsSlice⟩
      exact (holds.slice start count).unique holdsSlice
    · intro same
      refine ⟨_, _, rfl, rfl, ?_⟩
      show Holds (Llvm.listSlice list start count) (Eval.listSlice items start count)
      rw [← same]
      exact holds.slice start count

end Koja.Guarantees.Collections
