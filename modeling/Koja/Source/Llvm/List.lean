import Koja.Source.Ir.Collections

/-!
# Native lists

Source: `koja-ir-llvm/src/intrinsics/list.rs`. A list is a buffer, a length and a capacity, the
length of the buffer here. A cell of the buffer that was never written is `none`; reading it, or
a cell outside the buffer, is undefined, and the method then gives `none`. Index, start and count
are compared as unsigned numbers. The references a list holds are left out.
-/
namespace Koja.Source.Llvm

open Koja.Source.Ir

/-- A list value: its buffer, of the list's capacity, and its length. -/
structure NativeList (T : Type) where
  buffer : List (Option T)
  length : Nat
  deriving DecidableEq

variable {T : Type}

/-- `INITIAL_CAPACITY` of a list. -/
def initialListCapacity : Nat := 8

/-- `grown_capacity`. -/
def grownCapacity (current : Nat) : Nat :=
  if current * 2 < initialListCapacity then initialListCapacity else current * 2

/-- The load of an element. -/
def loadElement (buffer : List (Option T)) (index : Nat) : Option T :=
  buffer[index]?.join

/-- `copy_buffer`: a fresh buffer of the new capacity with the first `count` cells copied. -/
def copyBuffer (buffer : List (Option T)) (count newCapacity : Nat) : List (Option T) :=
  buffer.take count ++ List.replicate (newCapacity - count) none

/-- `emit_new`. -/
def listNew : NativeList T :=
  { buffer := List.replicate initialListCapacity none, length := 0 }

/-- A list in a buffer of just its size, as a list literal is. -/
def literalList (items : List T) : NativeList T :=
  { buffer := items.map some, length := items.length }

variable (list : NativeList T)

/-- `clone_list_value`. -/
def cloneListValue : NativeList T :=
  { buffer := copyBuffer list.buffer list.length list.length, length := list.length }

/-- `emit_append`. -/
def listAppend (item : T) : NativeList T :=
  { buffer := (copyBuffer list.buffer list.length (grownCapacity list.length)).set
      list.length (some item),
    length := list.length + 1 }

/-- `emit_append_consuming`. -/
def listAppendConsuming (item : T) : NativeList T :=
  if list.length < list.buffer.length then
    { buffer := list.buffer.set list.length (some item), length := list.length + 1 }
  else
    { buffer := (copyBuffer list.buffer list.length (grownCapacity list.buffer.length)).set
        list.length (some item),
      length := list.length + 1 }

/-- `emit_get`. -/
def listGet (index : BitVec 64) : Option (Option T) :=
  if index.toNat < list.length then
    (loadElement list.buffer index.toNat).map fun value => some value
  else some none

/-- `emit_pop`: the popped element, and the list without it. -/
def listPop : Option (Option T × NativeList T) :=
  if list.length = 0 then
    some (none, { buffer := copyBuffer list.buffer list.length list.length,
                  length := list.length })
  else
    let newLength := list.length - 1
    (loadElement list.buffer newLength).map fun value =>
      (some value, { buffer := copyBuffer list.buffer newLength newLength, length := newLength })

/-- `emit_replace_at`. -/
def listReplaceAt (index : BitVec 64) (value : T) : NativeList T :=
  if index.toNat < list.length then
    { buffer := (copyBuffer list.buffer list.length list.length).set index.toNat (some value),
      length := list.length }
  else cloneListValue list

/-- `emit_slice`. -/
def listSlice (start count : BitVec 64) : NativeList T :=
  let clampedStart := if start.toNat < list.length then start.toNat else list.length
  let remaining := list.length - clampedStart
  let clampedCount := if count.toNat ≤ remaining then count.toNat else remaining
  if 0 < clampedCount then
    { buffer := (list.buffer.drop clampedStart).take clampedCount, length := clampedCount }
  else { buffer := [], length := 0 }

/-- `emit_concat`. -/
def listConcat (other : NativeList T) : NativeList T :=
  let totalLength := list.length + other.length
  { buffer := list.buffer.take list.length ++ other.buffer.take other.length,
    length := totalLength }

/-- The method a `List` call runs. -/
def callList : ListCall T → Option (NativeList T × Answer T T)
  | .append .copying item => some (listAppend list item, .collection)
  | .append .consuming item => some (listAppendConsuming list item, .collection)
  | .concat other => some (listConcat list (literalList other), .collection)
  | .emptyQ => some (list, .bool (list.length == 0))
  | .fromList items => some (cloneListValue (literalList items), .collection)
  | .get index => (listGet list index).map fun found => (list, .value found)
  | .length => some (list, .int list.length)
  | .new => some (listNew, .collection)
  | .pop => (listPop list).map fun (popped, rest) => (rest, .value popped)
  | .replaceAt index value => some (listReplaceAt list index value, .collection)
  | .slice start count => some (listSlice list start count, .collection)

end Koja.Source.Llvm
