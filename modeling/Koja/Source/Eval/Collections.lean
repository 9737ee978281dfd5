import Koja.Source.Ir.Collections

/-!
# Collections in the interpreter

Source: `koja-ir-eval/src/intrinsics/{list,map,set,consuming}.rs`. A collection is a vector, and
keys are compared with the structural equality of interpreter values, `same` here. A consuming
call that owns its vector alone changes it in place and otherwise runs the copying original:
both give the vector below.
-/
namespace Koja.Source.Eval

open Koja.Source.Ir

variable {K V T : Type}

/-! ## Lists -/

/-- `get`. -/
def listGet (items : List T) (index : BitVec 64) : Option T :=
  if index.toInt < 0 then none else items[index.toNat]?

/-- `replace_at`. -/
def listReplaceAt (items : List T) (index : BitVec 64) (value : T) : List T :=
  if 0 ≤ index.toInt then items.set index.toNat value else items

/-- `slice`. -/
def listSlice (items : List T) (start count : BitVec 64) : List T :=
  let start := (max start.toInt 0).toNat
  let count := (max count.toInt 0).toNat
  let clampedStart := min start items.length
  let remaining := items.length - clampedStart
  let clampedCount := min count remaining
  (items.drop clampedStart).take clampedCount

/-- The method a `List` call runs. -/
def callList (items : List T) : ListCall T → List T × Answer T T
  | .append _ item => (items ++ [item], .collection)
  | .concat other => (items ++ other, .collection)
  | .emptyQ => (items, .bool items.isEmpty)
  | .fromList items => (items, .collection)
  | .get index => (items, .value (listGet items index))
  | .length => (items, .int items.length)
  | .new => ([], .collection)
  | .pop => (items.dropLast, .value items.getLast?)
  | .replaceAt index value => (listReplaceAt items index value, .collection)
  | .slice start count => (listSlice items start count, .collection)

/-! ## Maps -/

/-- `get`. -/
def mapGet (same : K → K → Bool) (entries : List (K × V)) (key : K) : Option V :=
  (entries.find? fun entry => same entry.1 key).map Prod.snd

/-- `has?`. -/
def mapHasQ (same : K → K → Bool) (entries : List (K × V)) (key : K) : Bool :=
  entries.any fun entry => same entry.1 key

/-- `put`: the first entry with the key takes the value, or the entry is pushed. -/
def mapPut (same : K → K → Bool) : List (K × V) → K → V → List (K × V)
  | [], key, value => [(key, value)]
  | entry :: rest, key, value =>
    if same entry.1 key then (entry.1, value) :: rest
    else entry :: mapPut same rest key value

/-- `remove`: the first entry with the key. -/
def mapRemove (same : K → K → Bool) (entries : List (K × V)) (key : K) : List (K × V) :=
  entries.eraseP fun entry => same entry.1 key

/-- `next`: a cursor is an index into the vector. -/
def cursorNext {E : Type} (items : List E) (cursor : Int) : Option (E × Int) :=
  if 0 ≤ cursor then items[cursor.toNat]?.map fun item => (item, cursor + 1) else none

/-- The method a `Map` call runs. -/
def callMap (same : K → K → Bool) (entries : List (K × V)) :
    MapCall K V → List (K × V) × Answer V (K × V)
  | .emptyQ => (entries, .bool entries.isEmpty)
  | .get key => (entries, .value (mapGet same entries key))
  | .hasQ key => (entries, .bool (mapHasQ same entries key))
  | .length => (entries, .int entries.length)
  | .new => ([], .collection)
  | .next cursor => (entries, .next (cursorNext entries cursor))
  | .put _ key value => (mapPut same entries key value, .collection)
  | .remove key => (mapRemove same entries key, .collection)

/-! ## Sets -/

variable (same : T → T → Bool)

/-- `has?`. -/
def setHasQ (items : List T) (item : T) : Bool :=
  items.any fun existing => same existing item

/-- `insert`. -/
def setInsert (items : List T) (item : T) : List T :=
  if setHasQ same items item then items else items ++ [item]

/-- `from_list`: one walk over the list, pushing what is not there yet. -/
def setFromList (items : List T) : List T :=
  items.foldl (setInsert same) []

/-- `remove`. -/
def setRemove (items : List T) (item : T) : List T :=
  items.eraseP fun existing => same existing item

/-- The method a `Set` call runs. -/
def callSet (items : List T) : SetCall T → List T × Answer Unit T
  | .emptyQ => (items, .bool items.isEmpty)
  | .fromList listed => (setFromList same listed, .collection)
  | .hasQ item => (items, .bool (setHasQ same items item))
  | .insert _ item => (setInsert same items item, .collection)
  | .length => (items, .int items.length)
  | .new => ([], .collection)
  | .next cursor => (items, .next (cursorNext items cursor))
  | .remove item => (setRemove same items item, .collection)

end Koja.Source.Eval
