import Koja.Lib.Probe
import Koja.Source.Ir.Collections

/-!
# The native hash table

Source: `koja-ir-llvm/src/intrinsics/hashtable/` (`mod.rs`, `util.rs`, `lifecycle.rs`, `read.rs`,
`insert.rs`, `resize.rs`, `from_list.rs`, `cursor.rs`). One open-addressed table with linear
probing backs `Map<K, V>` and `Set<T>`; a set's entries have no value part, `Unit` here. A probe
loop of the source has no bound: `none` stands for a call that never returns, and a probe here
looks at `capacity` slots, after which the ring repeats (`Wraps.probe_eq_none_iff`). Lengths and
capacities stay below the address space, so they are natural numbers. The references a table
holds are left out.
-/
namespace Koja.Source.Llvm

open Koja.Lib Koja.Source.Ir

/-- A bucket by its state byte, with the entry of an occupied one. -/
inductive Bucket (K V : Type) where
  | empty
  | occupied (key : K) (value : V)
  | tombstone
  deriving DecidableEq

/-- `KeyHashOps`: the key type's own `hash` and `equals?`. -/
structure KeyHashOps (K : Type) where
  hash : K → BitVec 64
  equals : K → K → Bool

/-- A table value. The capacity is the number of buckets. -/
structure Table (K V : Type) where
  buckets : List (Bucket K V)
  length : Nat
  deriving DecidableEq

/-- `INITIAL_CAPACITY`. -/
def initialCapacity : Nat := 8

variable {K V T : Type}

def Table.capacity (table : Table K V) : Nat :=
  table.buckets.length

/-- The bucket a state byte and an entry are read from. -/
def bucketAt (buckets : List (Bucket K V)) (slot : Nat) : Bucket K V :=
  buckets.getD slot .empty

variable (ops : KeyHashOps K)

/-- The slot a probe for the key starts at. -/
def startSlot (capacity : Nat) (key : K) : Nat :=
  (ops.hash key).toNat &&& (capacity - 1)

/-- `advance_slot`. -/
def advanceSlot (capacity slot : Nat) : Nat :=
  (slot + 1) &&& (capacity - 1)

/-- `build_empty_table`, `emit_new`. -/
def emptyTable : Table K V :=
  { buckets := List.replicate initialCapacity .empty, length := 0 }

/-- `clone_table`: both buffers are copied. -/
def cloneTable (table : Table K V) : Table K V :=
  { buckets := table.buckets, length := table.length }

/-- `writable_table`. -/
def writableTable (mode : CallMode) (table : Table K V) : Table K V :=
  match mode with
  | .consuming => table
  | .copying => cloneTable table

/-! ## Probes -/

/-- What ends the read-only probe: an empty bucket, or the key. -/
def readStops (key : K) : Bucket K V → Bool
  | .empty => true
  | .occupied existing _ => ops.equals key existing
  | .tombstone => false

/-- What ends the insert probe: a bucket without an entry, or the key. -/
def insertStops (key : K) : Bucket K V → Bool
  | .empty => true
  | .occupied existing _ => ops.equals key existing
  | .tombstone => true

/-- What ends the rehash probe. -/
def rehashStops : Bucket K V → Bool
  | .empty => true
  | .occupied _ _ | .tombstone => false

/-- A probe for the key over the ring of buckets. -/
def probeFor (stops : Bucket K V → Bool) (ops : KeyHashOps K) (buckets : List (Bucket K V))
    (key : K) : Option Nat :=
  probe (fun slot => stops (bucketAt buckets slot)) (advanceSlot buckets.length)
    buckets.length (startSlot ops buckets.length key)

/-- `emit_read_only_probe`. -/
def readOnlyProbe (table : Table K V) (key : K) : Option Nat :=
  probeFor (readStops ops key) ops table.buckets key

/-- `emit_insert_probe`. -/
def insertProbe (table : Table K V) (key : K) : Option Nat :=
  probeFor (insertStops ops key) ops table.buckets key

/-! ## Growth -/

/-- The load test: the insert would push the load past 3/4. -/
def shouldResize (table : Table K V) : Bool :=
  (table.length + 1) * 4 > table.capacity * 3

/-- `emit_rehash_loop`: the occupied old buckets, in order, each into the first empty
bucket on its key's path. -/
def rehashLoop (ops : KeyHashOps K) :
    List (Bucket K V) → List (Bucket K V) → Option (List (Bucket K V))
  | [], new => some new
  | .occupied key value :: rest, new => do
    let slot ← probeFor rehashStops ops new key
    rehashLoop ops rest (new.set slot (.occupied key value))
  | .empty :: rest, new | .tombstone :: rest, new => rehashLoop ops rest new

/-- `emit_resize_if_needed`. -/
def resizeIfNeeded (table : Table K V) : Option (Table K V) :=
  if shouldResize table then do
    let buckets ← rehashLoop ops table.buckets (List.replicate (table.capacity * 2) .empty)
    some { buckets := buckets, length := table.length }
  else some table

/-! ## Methods -/

/-- `emit_map_put`. -/
def mapPut (mode : CallMode) (table : Table K V) (key : K) (value : V) : Option (Table K V) := do
  let post ← resizeIfNeeded ops (writableTable mode table)
  let slot ← insertProbe ops post key
  match bucketAt post.buckets slot with
  | .occupied existing _ =>
    some { buckets := post.buckets.set slot (.occupied existing value), length := post.length }
  | .empty | .tombstone =>
    some { buckets := post.buckets.set slot (.occupied key value), length := post.length + 1 }

/-- `emit_set_insert`. -/
def setInsert (ops : KeyHashOps T) (mode : CallMode) (table : Table T Unit) (item : T) :
    Option (Table T Unit) := do
  let post ← resizeIfNeeded ops (writableTable mode table)
  let slot ← insertProbe ops post item
  match bucketAt post.buckets slot with
  | .occupied _ _ => some post
  | .empty | .tombstone =>
    some { buckets := post.buckets.set slot (.occupied item ()), length := post.length + 1 }

/-- `call_set_insert_inline`: `Set.insert` on the table in hand. -/
def callSetInsertInline (ops : KeyHashOps T) (table : Table T Unit) (item : T) :
    Option (Table T Unit) :=
  setInsert ops .consuming table item

/-- `emit_set_from_list`. -/
def setFromList (ops : KeyHashOps T) (items : List T) : Option (Table T Unit) :=
  items.foldlM (callSetInsertInline ops) emptyTable

/-- `emit_remove`: always on a copy. -/
def remove (table : Table K V) (key : K) : Option (Table K V) := do
  let table := cloneTable table
  let slot ← readOnlyProbe ops table key
  match bucketAt table.buckets slot with
  | .occupied _ _ =>
    some { buckets := table.buckets.set slot .tombstone, length := table.length - 1 }
  | .empty | .tombstone => some table

/-- `emit_has_q`. -/
def hasQ (table : Table K V) (key : K) : Option Bool := do
  let slot ← readOnlyProbe ops table key
  match bucketAt table.buckets slot with
  | .occupied _ _ => some true
  | .empty | .tombstone => some false

/-- `emit_map_get`. -/
def mapGet (table : Table K V) (key : K) : Option (Option V) := do
  let slot ← readOnlyProbe ops table key
  match bucketAt table.buckets slot with
  | .occupied _ value => some (some value)
  | .empty | .tombstone => some none

/-- `emit_empty_q`. -/
def emptyQ (table : Table K V) : Bool :=
  table.length == 0

/-- The scan of `emit_next` over the buckets from `slot` on. -/
def cursorScan : List (Bucket K V) → Nat → Option ((K × V) × Int)
  | [], _ => none
  | .occupied key value :: _, slot => some ((key, value), (slot : Int) + 1)
  | .empty :: rest, slot | .tombstone :: rest, slot => cursorScan rest (slot + 1)

/-- `emit_next`. -/
def next (table : Table K V) (cursor : Int) : Option ((K × V) × Int) :=
  if 0 ≤ cursor then cursorScan (table.buckets.drop cursor.toNat) cursor.toNat else none

/-- `emit_next` for a set, whose item is the key alone. -/
def setNext (table : Table T Unit) (cursor : Int) : Option (T × Int) :=
  (next table cursor).map fun (entry, after) => (entry.1, after)

/-! ## Dispatch -/

/-- The method a `Map` call runs. -/
def callMap (table : Table K V) : MapCall K V → Option (Table K V × Answer V (K × V))
  | .emptyQ => some (table, .bool (emptyQ table))
  | .get key => (mapGet ops table key).map fun found => (table, .value found)
  | .hasQ key => (hasQ ops table key).map fun holds => (table, .bool holds)
  | .length => some (table, .int table.length)
  | .new => some (emptyTable, .collection)
  | .next cursor => some (table, .next (next table cursor))
  | .put mode key value => (mapPut ops mode table key value).map fun table =>
    (table, .collection)
  | .remove key => (remove ops table key).map fun table => (table, .collection)

/-- The method a `Set` call runs. -/
def callSet (ops : KeyHashOps T) (table : Table T Unit) :
    SetCall T → Option (Table T Unit × Answer Unit T)
  | .emptyQ => some (table, .bool (emptyQ table))
  | .fromList items => (setFromList ops items).map fun table => (table, .collection)
  | .hasQ item => (hasQ ops table item).map fun holds => (table, .bool holds)
  | .insert mode item => (setInsert ops mode table item).map fun table => (table, .collection)
  | .length => some (table, .int table.length)
  | .new => some (emptyTable, .collection)
  | .next cursor => some (table, .next (setNext table cursor))
  | .remove item => (remove ops table item).map fun table => (table, .collection)

end Koja.Source.Llvm
