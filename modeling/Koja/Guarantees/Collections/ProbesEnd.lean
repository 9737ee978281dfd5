import Koja.Guarantees.Collections.TableSteps
import Koja.Lib.Calls
import Koja.Source.Llvm.Hash

/-!
# Probes end while an empty bucket is left

The growth test counts live entries, but a tombstone is no more an end to the read-only probe
than an entry is. A table keeps an empty bucket exactly as long as no insert takes the last one,
which an insert does when nothing is due to grow and every other bucket on the key's path is
taken by another key up to it.
-/
namespace Koja.Guarantees.Collections

open Koja.Lib Koja.Source.Ir Koja.Source.Llvm List

variable {K V : Type} {ops : KeyHashOps K} {table result : Table K V}

/-- Every probe of the table ends: the read-only one for any key within `capacity` slots, the
insert one for any key after the growth it may cause, and the rehash one for every entry. -/
structure ProbesEnd (ops : KeyHashOps K) (table : Table K V) : Prop where
  empty : .empty ∈ table.buckets
  read : ∀ key, ∃ slot, readOnlyProbe ops table key = some slot
  insert : ∀ key, ∃ post slot, resizeIfNeeded ops table = some post ∧
    insertProbe ops post key = some slot
  rehash : ∃ buckets, rehashLoop ops table.buckets
    (List.replicate (table.capacity * 2) .empty) = some buckets
  capacity : CapacityOk table.capacity

/-- An insert of the key takes the table's last empty bucket. -/
def TakesLastEmpty (ops : KeyHashOps K) (table : Table K V) (key : K) : Prop :=
  shouldResize table = false ∧ ∃ i, i < table.capacity ∧ (∀ j, j < i → ∃ existing value,
      bucketAt table.buckets (path ops table.capacity key j) = .occupied existing value ∧
      ops.equals key existing = false) ∧
    ∀ slot, slot < table.capacity →
      (bucketAt table.buckets slot = .empty ↔ slot = path ops table.capacity key i)

/-- The probes of a sound table end exactly if it has an empty bucket. -/
theorem probesEnd_iff (sound : Sound ops table) : ProbesEnd ops table ↔ .empty ∈ table.buckets := by
  constructor
  · exact ProbesEnd.empty
  · intro empty
    have size := sound.capacity
    refine ⟨empty, ?_, ?_, ?_, size⟩
    · intro key
      exact (readOnlyProbe_returns_iff size).mpr (.inl empty)
    · intro key
      obtain ⟨post, resized, grown⟩ := resizeIfNeeded_returns sound
      obtain ⟨slot, found⟩ := insertProbe_returns grown.sound key
      exact ⟨post, slot, resized, found⟩
    · obtain ⟨buckets, rehashed, _⟩ := rehashLoop_doubled_returns sound
      exact ⟨buckets, rehashed⟩

theorem empty_mem_emptyTable : .empty ∈ (emptyTable : Table K V).buckets :=
  mem_replicate.mpr ⟨by decide, rfl⟩

/-- A table without tombstones has an empty bucket, by its load. -/
theorem empty_mem_of_noTombstone (sound : Sound ops table) (clean : NoTombstone table.buckets) :
    .empty ∈ table.buckets := by
  obtain ⟨free, inside, unoccupied⟩ := sound.exists_unoccupied
  refine mem_iff_bucketAt.mpr ⟨free, inside, ?_⟩
  cases found : bucketAt table.buckets free with
  | empty => rfl
  | tombstone => exact absurd found (clean free)
  | occupied => simp [found, bucketEntry] at unoccupied

section Put
variable {ops : KeyHashOps K} {table post result : Table K V} {key : K} {value : V} {i : Nat}

/-- An insert that ends at step `i` takes the last empty bucket of an ungrown table only
if it ends at that bucket. -/
theorem InsertStop.index_eq (stop : InsertStop ops table post key i) {last : Nat}
    (passed : ∀ j, j < last → ∃ existing value,
      bucketAt post.buckets (path ops post.capacity key j) = .occupied existing value ∧
      ops.equals key existing = false)
    (free : bucketAt post.buckets (path ops post.capacity key last) = .empty) : i = last := by
  rcases Nat.lt_trichotomy i last with before | same | after
  · obtain ⟨existing, _, occupied, other⟩ := passed i before
    have stopped := stop.stopped
    rw [occupied] at stopped
    simp [insertStops, other] at stopped
  · exact same
  · obtain ⟨_, _, occupied, _⟩ := stop.passed after
    rw [free] at occupied
    cases occupied

/-- An empty bucket elsewhere stays empty when the insert writes its bucket. -/
theorem empty_mem_set {buckets : List (Bucket K V)} {slot other : Nat} {bucket : Bucket K V}
    (inside : slot < buckets.length) (otherInside : other < buckets.length)
    (elsewhere : slot ≠ other) (free : bucketAt buckets other = .empty) :
    .empty ∈ buckets.set slot bucket := by
  refine mem_iff_bucketAt.mpr ⟨other, by rw [length_set]; exact otherInside, ?_⟩
  rw [bucketAt_set inside, if_neg elsewhere]
  exact free

theorem empty_mem_set_occupied {buckets : List (Bucket K V)} {slot : Nat} {bucket : Bucket K V}
    (empty : .empty ∈ buckets) (here : bucketAt buckets slot = .occupied key value) :
    .empty ∈ buckets.set slot bucket := by
  obtain ⟨other, otherInside, free⟩ := mem_iff_bucketAt.mp empty
  refine empty_mem_set (inside_of_occupied here) otherInside ?_ free
  rintro rfl
  rw [free] at here
  cases here

/-- An insert that takes the last empty bucket ends there. -/
theorem TakesLastEmpty.only (stop : InsertStop ops table post key i)
    (takes : TakesLastEmpty ops post key) (slot : Nat)
    (inside : slot < post.capacity) :
    bucketAt post.buckets slot = .empty ↔ slot = path ops post.capacity key i := by
  obtain ⟨_, last, _, passed, only⟩ := takes
  have free := (only _ (stop.grown.sound.capacity.path_lt ops key last)).mpr rfl
  obtain rfl := stop.index_eq passed free
  exact only slot inside

/-- Placing an entry in an ungrown table leaves an empty bucket exactly if it does not take
the last one. -/
theorem Placed.empty_mem_iff (stop : InsertStop ops table post key i)
    (placed : Placed ops post key value i result)
    (ungrown : shouldResize post = false) (empty : .empty ∈ post.buckets) :
    .empty ∈ result.buckets ↔ ¬ TakesLastEmpty ops post key := by
  obtain ⟨unoccupied, rfl⟩ := placed
  have inside := stop.inside
  constructor
  · intro left takes
    obtain ⟨other, otherInside, emptyThere⟩ := mem_iff_bucketAt.mp left
    rw [length_set] at otherInside
    rw [bucketAt_set inside] at emptyThere
    split at emptyThere
    · cases emptyThere
    next elsewhere => exact elsewhere ((takes.only stop other otherInside).mp emptyThere).symm
  · intro keeps
    by_contra gone
    have only : ∀ slot, slot < post.buckets.length → bucketAt post.buckets slot = .empty →
        path ops post.capacity key i = slot := by
      intro slot slotInside free
      by_contra elsewhere
      exact gone (empty_mem_set inside slotInside elsewhere free)
    obtain ⟨slot, slotInside, free⟩ := mem_iff_bucketAt.mp empty
    have here := only slot slotInside free
    refine keeps ⟨ungrown, i, stop.bound, fun j before => stop.passed before, ?_⟩
    intro other otherInside
    constructor
    · exact fun emptyThere => (only other otherInside emptyThere).symm
    · rintro rfl
      rw [here]
      exact free

theorem Overwrote.not_takesLastEmpty (stop : InsertStop ops table post key i)
    (overwrote : Overwrote ops post key value i result) :
    ¬ TakesLastEmpty ops post key := by
  intro takes
  obtain ⟨_, _, occupied, _⟩ := overwrote
  rw [(takes.only stop _ stop.inside).mpr rfl] at occupied
  cases occupied

/-- Neither outcome of an insert leaves a tombstone that was not there. -/
theorem InsertStop.noTombstone (stop : InsertStop ops table post key i)
    (clean : NoTombstone post.buckets)
    (ended : Overwrote ops post key value i result ∨ Placed ops post key value i result) :
    NoTombstone result.buckets := by
  obtain ⟨existing, old, _, _, rfl⟩ | ⟨_, rfl⟩ := ended
  · exact clean.set_occupied stop.inside _ _
  · exact clean.set_occupied stop.inside _ _

/-- An insert leaves an empty bucket exactly if it does not take the last one. -/
theorem mapPut_empty_mem_iff (sound : Sound ops table) (empty : .empty ∈ table.buckets)
    {mode : CallMode} (returned : mapPut ops mode table key value = some result) :
    .empty ∈ result.buckets ↔ ¬ TakesLastEmpty ops table key := by
  obtain ⟨post, i, stop, ended⟩ := mapPut_cases sound returned
  obtain ⟨ungrown, rfl⟩ | ⟨due, clean⟩ := stop.grown.fresh
  · obtain overwrote | placed := ended
    · have keeps := overwrote.not_takesLastEmpty stop
      obtain ⟨_, _, here, _, rfl⟩ := overwrote
      exact iff_of_true (empty_mem_set_occupied empty here) keeps
    · exact placed.empty_mem_iff stop ungrown empty
  · have resultSound := mapPut_sound sound returned
    refine iff_of_true (empty_mem_of_noTombstone resultSound (stop.noTombstone clean ended)) ?_
    rintro ⟨ungrown, _⟩
    rw [due] at ungrown
    cases ungrown

theorem mapPut_noTombstone (sound : Sound ops table) (clean : NoTombstone table.buckets)
    {mode : CallMode} (returned : mapPut ops mode table key value = some result) :
    NoTombstone result.buckets := by
  obtain ⟨post, i, stop, ended⟩ := mapPut_cases sound returned
  obtain ⟨_, rfl⟩ | ⟨_, clean⟩ := stop.grown.fresh
  · exact stop.noTombstone clean ended
  · exact stop.noTombstone clean ended

end Put

theorem remove_empty_mem {key : K}
    (empty : .empty ∈ table.buckets) (removed : remove ops table key = some result) :
    .empty ∈ result.buckets := by
  obtain ⟨slot, _, ⟨existing, value, here, rfl⟩ | ⟨_, rfl⟩⟩ := remove_cases removed
  · exact empty_mem_set_occupied empty here
  · exact empty

/-- `from_list` only inserts, so it returns a table without tombstones. -/
theorem foldlM_setInsert_returns (items : List K) {table : Table K Unit}
    (sound : Sound ops table) (clean : NoTombstone table.buckets) :
    ∃ result, items.foldlM (callSetInsertInline ops) table = some result ∧
      Sound ops result ∧ NoTombstone result.buckets := by
  induction items generalizing table with
  | nil => exact ⟨table, rfl, sound, clean⟩
  | cons item _ ih =>
    obtain ⟨next, returned, _⟩ := mapPut_returns sound .consuming item ()
    obtain ⟨result, folded, resultSound, resultClean⟩ :=
      ih (mapPut_sound sound returned) (mapPut_noTombstone sound clean returned)
    refine ⟨result, ?_, resultSound, resultClean⟩
    have first : callSetInsertInline ops table item = some next := by
      unfold callSetInsertInline
      rw [setInsert_eq_mapPut]
      exact returned
    rw [foldlM_cons, first]
    exact folded

theorem setFromList_returns (ops : KeyHashOps K) (items : List K) :
    ∃ result, setFromList ops items = some result ∧ Sound ops result ∧ NoTombstone result.buckets :=
  foldlM_setInsert_returns items (sound_emptyTable ops) (noTombstone_replicate_empty _)

/-! ## Set calls as map calls -/

/-- The call of a map to `Unit` that a set call makes, `from_list` apart. -/
def mapCallOf : SetCall K → Option (MapCall K Unit)
  | .emptyQ => some .emptyQ
  | .fromList _ => none
  | .hasQ item => some (.hasQ item)
  | .insert mode item => some (.put mode item ())
  | .length => some .length
  | .new => some .new
  | .next cursor => some (.next cursor)
  | .remove item => some (.remove item)

/-- A map's answer as a set gives it, with the key alone for an entry. -/
def itemAnswer : Answer V (K × V) → Answer V K
  | .collection => .collection
  | .value found => .value found
  | .bool holds => .bool holds
  | .int count => .int count
  | .next found => .next (found.map fun (entry, after) => (entry.1, after))

theorem mapCallOf_cases (call : SetCall K) :
    (∃ items, call = .fromList items) ∨ ∃ onMap, mapCallOf call = some onMap := by
  cases call with
  | fromList items => exact .inl ⟨items, rfl⟩
  | _ => exact .inr ⟨_, rfl⟩

theorem callSet_eq {table : Table K Unit} {call : SetCall K} {onMap : MapCall K Unit}
    (asMap : mapCallOf call = some onMap) :
    callSet ops table call =
      (callMap ops table onMap).map fun (result, answer) => (result, itemAnswer answer) := by
  cases call <;> cases asMap <;>
    simp only [callSet, callMap, setInsert_eq_mapPut, Option.map_map] <;> rfl

/-! ## Sequences of calls -/

/-- A `Map` call does not take the last empty bucket. -/
def MapKeepsEmpty (ops : KeyHashOps K) (table : Table K V) : MapCall K V → Prop
  | .put _ key _ => ¬ TakesLastEmpty ops table key
  | _ => True

/-- A `Set` call does not take the last empty bucket. -/
def SetKeepsEmpty (ops : KeyHashOps K) (table : Table K Unit) : SetCall K → Prop
  | .insert _ item => ¬ TakesLastEmpty ops table item
  | _ => True

/-- Every table of the sequence has `P`: the empty one it starts with, and each one a call
returns. -/
def EveryTable {ι ω : Type} (call : Table K V → ι → Option (Table K V × ω))
    (P : Table K V → Prop) (calls : List ι) : Prop :=
  P emptyTable ∧ Throughout call (fun table i => ∀ result answer,
    call table i = some (result, answer) → P result) emptyTable calls

/-- What a table has to have for its next call: it is sound and has an empty bucket. -/
def Roomy (ops : KeyHashOps K) (table : Table K V) : Prop :=
  Sound ops table ∧ .empty ∈ table.buckets

theorem roomy_emptyTable (ops : KeyHashOps K) : Roomy ops (emptyTable : Table K V) :=
  ⟨sound_emptyTable ops, empty_mem_emptyTable⟩

/-- What a call that returns has done to the table: nothing, made one without tombstones,
inserted a key, or removed one. -/
inductive TableStep (ops : KeyHashOps K) (table : Table K V) : Option K → Table K V → Prop
  | kept : TableStep ops table none table
  | made {result : Table K V} (sound : Sound ops result) (clean : NoTombstone result.buckets) :
      TableStep ops table none result
  | inserted {mode : CallMode} {key : K} {value : V} {result : Table K V}
      (returned : mapPut ops mode table key value = some result) :
      TableStep ops table (some key) result
  | removed {key : K} {result : Table K V} (returned : remove ops table key = some result) :
      TableStep ops table none result

theorem TableStep.sound {key : Option K} (step : TableStep ops table key result)
    (sound : Sound ops table) : Sound ops result := by
  cases step with
  | kept => exact sound
  | made sound => exact sound
  | inserted returned => exact mapPut_sound sound returned
  | removed returned => exact remove_sound sound returned

theorem TableStep.empty_mem_iff {inserted : Option K} (step : TableStep ops table inserted result)
    (roomy : Roomy ops table) :
    .empty ∈ result.buckets ↔ ∀ key ∈ inserted, ¬ TakesLastEmpty ops table key := by
  obtain ⟨sound, empty⟩ := roomy
  cases step with
  | kept => exact iff_of_true empty nofun
  | made sound clean => exact iff_of_true (empty_mem_of_noTombstone sound clean) nofun
  | inserted returned => simpa using mapPut_empty_mem_iff sound empty returned
  | removed returned => exact iff_of_true (remove_empty_mem empty returned) nofun

/-- The key a `Map` call inserts. -/
def mapInserts : MapCall K V → Option K
  | .put _ key _ => some key
  | _ => none

/-- The item a `Set` call inserts into the table. -/
def setInserts : SetCall K → Option K
  | .insert _ item => some item
  | _ => none

theorem callMap_step {call : MapCall K V} {answer : Answer V (K × V)}
    (returned : callMap ops table call = some (result, answer)) :
    TableStep ops table (mapInserts call) result := by
  cases call <;> simp only [callMap, Option.map_eq_some_iff] at returned
  case put =>
    obtain ⟨_, put, rfl, _⟩ := returned
    exact .inserted put
  case remove =>
    obtain ⟨_, removed, rfl, _⟩ := returned
    exact .removed removed
  case new =>
    obtain ⟨rfl, _⟩ := returned
    exact .made (sound_emptyTable ops) (noTombstone_replicate_empty _)
  case get | hasQ =>
    obtain ⟨_, _, rfl, _⟩ := returned
    exact .kept
  all_goals
    obtain ⟨rfl, _⟩ := returned
    exact .kept

theorem callSet_step {table result : Table K Unit} {call : SetCall K} {answer : Answer Unit K}
    (returned : callSet ops table call = some (result, answer)) :
    TableStep ops table (setInserts call) result := by
  obtain ⟨items, rfl⟩ | ⟨onMap, asMap⟩ := mapCallOf_cases call
  · obtain ⟨_, built, same⟩ := Option.map_eq_some_iff.mp returned
    cases same
    obtain ⟨_, built', sound, clean⟩ := setFromList_returns ops items
    rw [built] at built'
    cases built'
    exact .made sound clean
  · rw [callSet_eq asMap, Option.map_eq_some_iff] at returned
    obtain ⟨_, called, same⟩ := returned
    cases same
    have inserts : setInserts call = mapInserts onMap := by
      cases call <;> cases asMap <;> rfl
    rw [inserts]
    exact callMap_step called

/-- Calls that take such steps, and return when they insert, keep the probes of every table
ending exactly if none of them takes the last empty bucket. -/
theorem probesEnd_throughout {ι ω : Type} {call : Table K V → ι → Option (Table K V × ω)}
    {keeps : Table K V → ι → Prop} {inserts : ι → Option K}
    (steps : ∀ {table i result answer}, call table i = some (result, answer) →
      TableStep ops table (inserts i) result)
    (returns : ∀ {table i key}, Sound ops table → inserts i = some key →
      ∃ returned, call table i = some returned)
    (same : ∀ table i, keeps table i ↔ ∀ key ∈ inserts i, ¬ TakesLastEmpty ops table key)
    (calls : List ι) :
    EveryTable call (ProbesEnd ops) calls ↔ Throughout call keeps emptyTable calls := by
  unfold EveryTable
  rw [and_iff_right ((probesEnd_iff (sound_emptyTable ops)).mpr empty_mem_emptyTable)]
  refine throughout_iff (Roomy ops) ?_ ?_ (roomy_emptyTable ops)
  · intro table i roomy
    rw [same]
    constructor
    · intro ends key inserted
      obtain ⟨_, returned⟩ := returns roomy.1 inserted
      exact ((steps returned).empty_mem_iff roomy).mp (ends _ _ returned).empty key inserted
    · intro keeps result answer returned
      have step := steps returned
      exact (probesEnd_iff (step.sound roomy.1)).mpr ((step.empty_mem_iff roomy).mpr keeps)
  · intro table i result answer roomy keeps returned
    have step := steps returned
    exact ⟨step.sound roomy.1, (step.empty_mem_iff roomy).mpr ((same _ _).mp keeps)⟩

/-- Along every sequence of map calls, and of set calls, the probes of every table end exactly
if no insert takes a table's last empty bucket. -/
theorem probes_end_iff_no_insert_takes_last_empty (ops : KeyHashOps K)
    (mapCalls : List (MapCall K V)) (setCalls : List (SetCall K)) :
    (EveryTable (callMap ops) (ProbesEnd ops) mapCalls ↔
      Throughout (callMap ops) (MapKeepsEmpty ops) emptyTable mapCalls) ∧
    (EveryTable (callSet ops) (ProbesEnd ops) setCalls ↔
      Throughout (callSet ops) (SetKeepsEmpty ops) emptyTable setCalls) := by
  constructor
  · refine probesEnd_throughout callMap_step ?_ ?_ mapCalls
    · intro table call key sound inserts
      cases call with
      | put mode key value =>
        obtain ⟨result, returned, _⟩ := mapPut_returns sound mode key value
        exact ⟨(result, .collection), by simp [callMap, returned]⟩
      | _ => cases inserts
    · intro table call
      cases call <;> simp [MapKeepsEmpty, mapInserts]
  · refine probesEnd_throughout callSet_step ?_ ?_ setCalls
    · intro table call key sound inserts
      cases call with
      | insert mode item =>
        obtain ⟨result, returned, _⟩ := mapPut_returns sound mode item ()
        exact ⟨(result, .collection), by simp [callSet, setInsert_eq_mapPut, returned]⟩
      | _ => cases inserts
    · intro table call
      cases call <;> simp [SetKeepsEmpty, setInserts]

/-! ## Eight inserts and eight removes -/

/-- `Int` keys, with the hash native code gives them. -/
def intOps : KeyHashOps (BitVec 64) :=
  { hash := emitIntHash, equals := fun a b => a == b }

/-- Insert and remove each of eight keys, whose hashes start at the eight different slots. -/
def churn : List (SetCall (BitVec 64)) :=
  [0, 10, 2, 22, 4, 1, 17, 9].flatMap fun item => [.insert .copying item, .remove item]

/-- After eight inserts and eight removes every bucket of an empty set is a tombstone, and the
probe for an item that is not in the set finds no end. -/
theorem churn_leaves_no_empty_bucket :
    ∃ table, churn.foldlM (fun table call => (callSet intOps table call).map Prod.fst)
        (emptyTable : Table (BitVec 64) Unit) = some table ∧
      table.length = 0 ∧ table.buckets = List.replicate 8 .tombstone ∧
      readOnlyProbe intOps table 0 = none :=
  ⟨{ buckets := List.replicate 8 .tombstone, length := 0 }, by decide, rfl, rfl, by decide⟩

end Koja.Guarantees.Collections
