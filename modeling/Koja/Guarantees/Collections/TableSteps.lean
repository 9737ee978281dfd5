import Mathlib.Data.List.Perm.Lattice
import Mathlib.Data.Nat.Bitwise
import Koja.Source.Llvm.Hashtable

/-!
# What the table operations do to the buckets

Every operation writes at most one bucket after an optional growth. `entries` is the content of a
bucket list up to order, and one write changes it at one place (`entries_set`). `Sound` is what
every table keeps whatever the keys' `hash` and `equals?` are: the capacity, the count, the load,
and that each entry is reached from its key's start slot over buckets that are not empty.
-/
namespace Koja.Guarantees.Collections

open Koja.Lib Koja.Source.Ir Koja.Source.Llvm List Option

variable {K V T : Type} {capacity i slot : Nat} {buckets : List (Bucket K V)} {key : K} {value : V}
  {bucket : Bucket K V} {ops : KeyHashOps K} {table post result : Table K V}

/-! ## Slots on a key's path -/

/-- A capacity probing may wrap in: a power of two no smaller than the initial one. -/
def CapacityOk (capacity : Nat) : Prop :=
  ∃ exponent, capacity = 2 ^ exponent ∧ 8 ≤ capacity

theorem CapacityOk.double (ok : CapacityOk capacity) : CapacityOk (capacity * 2) := by
  obtain ⟨exponent, rfl, large⟩ := ok
  exact ⟨exponent + 1, (pow_succ 2 exponent).symm, by omega⟩

theorem CapacityOk.pos (ok : CapacityOk capacity) : 0 < capacity := by
  obtain ⟨_, _, large⟩ := ok
  omega

theorem CapacityOk.and_mask (ok : CapacityOk capacity) (bits : Nat) : bits &&& (capacity - 1) = bits
    % capacity := by
  obtain ⟨exponent, rfl, _⟩ := ok
  exact Nat.and_two_pow_sub_one_eq_mod bits exponent

theorem CapacityOk.wraps (ok : CapacityOk capacity) : Wraps (advanceSlot capacity) capacity :=
  fun slot _ => ok.and_mask (slot + 1)

theorem CapacityOk.startSlot_lt (ok : CapacityOk capacity) (ops : KeyHashOps K) (key : K) :
    startSlot ops capacity key < capacity := by
  unfold startSlot
  rw [ok.and_mask]
  exact Nat.mod_lt _ ok.pos

/-- The `i`-th slot a probe for the key looks at. -/
def path (ops : KeyHashOps K) (capacity : Nat) (key : K) (i : Nat) : Nat :=
  (advanceSlot capacity)^[i] (startSlot ops capacity key)

theorem CapacityOk.path_lt (ok : CapacityOk capacity) (ops : KeyHashOps K) (key : K) (i : Nat) :
    path ops capacity key i < capacity :=
  ok.wraps.iterate_lt (ok.startSlot_lt ops key) i

/-! ## Buckets and their entries -/

theorem bucketAt_of_ge (outside : buckets.length ≤ slot) : bucketAt buckets slot = .empty := by
  simp [bucketAt, outside]

theorem inside_of_occupied (here : bucketAt buckets slot = .occupied key value) :
    slot < buckets.length := by
  by_contra outside
  rw [bucketAt_of_ge (by omega)] at here
  cases here

theorem bucketAt_set (inside : slot < buckets.length) (bucket : Bucket K V) (other : Nat) :
    bucketAt (buckets.set slot bucket) other =
      if slot = other then bucket else bucketAt buckets other := by
  unfold bucketAt
  simp only [getD_eq_getElem?_getD, getElem?_set]
  split
  · simp
  · rfl

theorem mem_iff_bucketAt :
    bucket ∈ buckets ↔ ∃ slot, slot < buckets.length ∧ bucketAt buckets slot = bucket := by
  rw [mem_iff_getElem]
  constructor
  · rintro ⟨slot, inside, found⟩
    exact ⟨slot, inside, by simp [bucketAt, inside, found]⟩
  · rintro ⟨slot, inside, found⟩
    exact ⟨slot, inside, by simpa [bucketAt, inside] using found⟩

/-- The entry of an occupied bucket. -/
def bucketEntry : Bucket K V → Option (K × V)
  | .occupied key value => some (key, value)
  | .empty | .tombstone => none

theorem bucketEntry_eq_some {entry : K × V} :
    bucketEntry bucket = some entry ↔ bucket = .occupied entry.1 entry.2 := by
  cases bucket <;> simp [bucketEntry, Prod.ext_iff]

/-- The entries of the occupied buckets, in bucket order. -/
def entries (buckets : List (Bucket K V)) : List (K × V) :=
  buckets.filterMap bucketEntry

theorem entries_cons (bucket : Bucket K V) (rest : List (Bucket K V)) :
    entries (bucket :: rest) = (bucketEntry bucket).toList ++ entries rest := by
  unfold entries
  rw [filterMap_cons]
  cases bucketEntry bucket <;> rfl

@[simp]
theorem entries_append (before after : List (Bucket K V)) :
    entries (before ++ after) = entries before ++ entries after :=
  filterMap_append

@[simp]
theorem entries_replicate_empty {n : Nat} :
    entries (List.replicate n (Bucket.empty : Bucket K V)) = [] := by
  induction n with
  | zero => rfl
  | succ n ih => rw [replicate_succ, entries_cons, ih]; rfl

theorem mem_entries_iff : (key, value) ∈ entries buckets ↔
      ∃ slot, bucketAt buckets slot = .occupied key value := by
  unfold entries
  simp only [mem_filterMap, bucketEntry_eq_some, exists_eq_right, mem_iff_bucketAt]
  constructor
  · rintro ⟨slot, _, found⟩
    exact ⟨slot, found⟩
  · rintro ⟨slot, found⟩
    exact ⟨slot, inside_of_occupied found, found⟩

/-- Splitting the buckets at a slot, and what a write there leaves around it. -/
theorem exists_split (inside : slot < buckets.length) :
    ∃ before after, buckets = before ++ bucketAt buckets slot :: after ∧
      ∀ bucket, buckets.set slot bucket = before ++ bucket :: after := by
  refine ⟨buckets.take slot, buckets.drop (slot + 1), ?_, ?_⟩
  · have here : bucketAt buckets slot = buckets[slot] := by simp [bucketAt, inside]
    rw [here, getElem_cons_drop, take_append_drop]
  · intro bucket
    rw [set_eq_take_append_cons_drop, if_pos inside]

theorem entries_set (inside : slot < buckets.length) :
    ∃ rest, (entries buckets).Perm ((bucketEntry (bucketAt buckets slot)).toList ++ rest) ∧
      ∀ bucket, (entries (buckets.set slot bucket)).Perm ((bucketEntry bucket).toList ++ rest) := by
  obtain ⟨before, after, split, write⟩ := exists_split inside
  have moved : ∀ bucket : Bucket K V, (entries (before ++ bucket :: after)).Perm
      ((bucketEntry bucket).toList ++ (entries before ++ entries after)) := by
    intro bucket
    rw [entries_append, entries_cons, ← append_assoc, ← append_assoc]
    exact perm_append_comm.append_right _
  refine ⟨entries before ++ entries after, ?_, ?_⟩
  · have here := moved (bucketAt buckets slot)
    rw [← split] at here
    exact here
  · intro bucket
    rw [write]
    exact moved bucket

/-- A bucket list with fewer entries than buckets has one without an entry. -/
theorem exists_unoccupied (room : (entries buckets).length < buckets.length) :
    ∃ slot, slot < buckets.length ∧ bucketEntry (bucketAt buckets slot) = none := by
  by_contra full
  have all : ∀ bucket ∈ buckets, (bucketEntry bucket).isSome := by
    intro bucket present
    obtain ⟨slot, inside, rfl⟩ := mem_iff_bucketAt.mp present
    rw [isSome_iff_ne_none]
    exact fun free => full ⟨slot, inside, free⟩
  unfold entries at room
  rw [length_filterMap_eq_countP, countP_eq_length.mpr all] at room
  omega

/-! ## Probes -/

section Probes
variable {ops : KeyHashOps K} {buckets : List (Bucket K V)} {stops : Bucket K V → Bool} {key : K}

theorem probeFor_eq_some (found : probeFor stops ops buckets key = some slot) :
    ∃ i, i < buckets.length ∧ path ops buckets.length key i = slot ∧
      stops (bucketAt buckets slot) = true ∧
      ∀ j, j < i → stops (bucketAt buckets (path ops buckets.length key j)) = false :=
  probe_eq_some_iff.mp found

/-- A probe ends exactly if some bucket stops it. -/
theorem probeFor_eq_none_iff (size : CapacityOk buckets.length) :
    probeFor stops ops buckets key = none ↔
      ∀ slot, slot < buckets.length → stops (bucketAt buckets slot) = false :=
  size.wraps.probe_eq_none_iff (size.startSlot_lt ops key)

theorem probeFor_returns (size : CapacityOk buckets.length)
    (inside : slot < buckets.length) (stopped : stops (bucketAt buckets slot) = true) :
    ∃ found, probeFor stops ops buckets key = some found := by
  rw [← ne_none_iff_exists', ne_eq, probeFor_eq_none_iff size]
  intro clear
  simp [clear slot inside] at stopped

end Probes

/-! ## Reachability along the path -/

/-- Each entry is reached from its key's start slot over buckets that are not empty. -/
def Chained (ops : KeyHashOps K) (buckets : List (Bucket K V)) : Prop :=
  ∀ slot key value, bucketAt buckets slot = .occupied key value →
    ∃ i, i < buckets.length ∧ path ops buckets.length key i = slot ∧
      ∀ j, j < i → bucketAt buckets (path ops buckets.length key j) ≠ .empty

theorem chained_replicate_empty {ops : KeyHashOps K} {n : Nat} :
    Chained ops (List.replicate n (Bucket.empty : Bucket K V)) := by
  intro slot key value found
  have free : bucketAt (List.replicate n (Bucket.empty : Bucket K V)) slot = .empty := by
    unfold bucketAt
    rw [getD_eq_getElem?_getD, getElem?_replicate]
    split <;> rfl
  rw [free] at found
  cases found

/-- Writing a bucket that is not empty keeps the other entries reached. -/
theorem Chained.set (chained : Chained ops buckets) (inside : slot < buckets.length)
    (present : bucket ≠ .empty) (reached : ∀ key value, bucket = .occupied key value →
      ∃ i, i < buckets.length ∧ path ops buckets.length key i = slot ∧
        ∀ j, j < i → bucketAt buckets (path ops buckets.length key j) ≠ .empty) :
    Chained ops (buckets.set slot bucket) := by
  have stays : ∀ other, bucketAt buckets other ≠ .empty →
      bucketAt (buckets.set slot bucket) other ≠ .empty := by
    intro other filled
    rw [bucketAt_set inside]
    split
    · exact present
    · exact filled
  intro other key value found
  rw [length_set]
  have before : ∃ i, i < buckets.length ∧ path ops buckets.length key i = other ∧
      ∀ j, j < i → bucketAt buckets (path ops buckets.length key j) ≠ .empty := by
    rw [bucketAt_set inside] at found
    split at found
    next here =>
      subst here
      exact reached key value found
    next => exact chained other key value found
  obtain ⟨i, bound, holds, clear⟩ := before
  exact ⟨i, bound, holds, fun j below => stays _ (clear j below)⟩

/-! ## Growth -/

/-- No bucket is a tombstone. -/
def NoTombstone (buckets : List (Bucket K V)) : Prop :=
  ∀ slot, bucketAt buckets slot ≠ .tombstone

theorem noTombstone_replicate_empty (n : Nat) :
    NoTombstone (List.replicate n (Bucket.empty : Bucket K V)) := by
  intro slot found
  unfold bucketAt at found
  rw [getD_eq_getElem?_getD, getElem?_replicate] at found
  split at found <;> cases found

theorem NoTombstone.set_occupied (clean : NoTombstone buckets)
    (inside : slot < buckets.length) (key : K) (value : V) :
    NoTombstone (buckets.set slot (.occupied key value)) := by
  intro other found
  rw [bucketAt_set inside] at found
  split at found
  · cases found
  · exact clean other found

/-- With room in a table without tombstones the rehash probe ends, at an empty bucket. -/
theorem rehashProbe_returns {new : List (Bucket K V)}
    (size : CapacityOk new.length) (clean : NoTombstone new)
    (room : (entries new).length < new.length) (key : K) :
    ∃ slot, probeFor rehashStops ops new key = some slot := by
  obtain ⟨free, inside, unoccupied⟩ := exists_unoccupied room
  refine probeFor_returns size inside ?_
  cases found : bucketAt new free with
  | empty => rfl
  | occupied => simp [found, bucketEntry] at unoccupied
  | tombstone => exact absurd found (clean free)

/-- What rehashing the entries `moving` into `new` leaves. -/
structure Rehashed (ops : KeyHashOps K) (moving : List (K × V))
    (new buckets : List (Bucket K V)) : Prop where
  capacity : buckets.length = new.length
  chained : Chained ops buckets
  clean : NoTombstone buckets
  moved : (entries buckets).Perm (moving ++ entries new)

theorem rehashLoop_returns {old new : List (Bucket K V)}
    (size : CapacityOk new.length) (chained : Chained ops new) (clean : NoTombstone new)
    (room : (entries old).length + (entries new).length < new.length) :
    ∃ buckets, rehashLoop ops old new = some buckets ∧ Rehashed ops (entries old) new buckets := by
  induction old generalizing new with
  | nil => exact ⟨new, rfl, rfl, chained, clean, .refl _⟩
  | cons bucket _ ih =>
    cases bucket with
    | empty | tombstone => exact ih size chained clean room
    | occupied key value =>
      rw [entries_cons, length_append] at room
      simp only [bucketEntry, toList_some, length_singleton] at room
      obtain ⟨slot, found⟩ := @rehashProbe_returns _ _ ops new size clean (by omega) key
      obtain ⟨i, bound, rfl, stopped, clear⟩ := probeFor_eq_some found
      have inside := size.path_lt ops key i
      have free : bucketAt new (path ops new.length key i) = .empty := by
        cases here : bucketAt new (path ops new.length key i) <;>
          simp [here, rehashStops] at stopped
        rfl
      obtain ⟨others, before, after⟩ := entries_set inside
      simp only [free] at before
      have placed := after (.occupied key value)
      have grown : (entries (new.set (path ops new.length key i) (.occupied key value))).Perm
          ((key, value) :: entries new) := placed.trans (before.symm.cons _)
      have reached : Chained ops (new.set (path ops new.length key i) (.occupied key value)) := by
        refine chained.set inside nofun ?_
        rintro _ _ ⟨rfl, rfl⟩
        refine ⟨i, bound, rfl, fun j below empty => ?_⟩
        simpa [empty, rehashStops] using clear j below
      obtain ⟨buckets, rehashed, result⟩ := ih
        (by rw [length_set]; exact size) reached (clean.set_occupied inside key value)
        (by rw [length_set, grown.length_eq, length_cons]; omega)
      refine ⟨buckets, ?_, ?_, result.chained, result.clean, ?_⟩
      · simp only [rehashLoop, found]
        exact rehashed
      · rw [result.capacity, length_set]
      · exact (result.moved.trans (grown.append_left _)).trans perm_middle

/-- What every table keeps, whatever the keys' `hash` and `equals?` are. -/
structure Sound (ops : KeyHashOps K) (table : Table K V) : Prop where
  capacity : CapacityOk table.capacity
  counted : table.length = (entries table.buckets).length
  load : table.length * 4 ≤ table.capacity * 3
  chained : Chained ops table.buckets

theorem sound_emptyTable (ops : KeyHashOps K) : Sound ops (emptyTable : Table K V) where
  capacity := ⟨3, rfl, Nat.le_refl 8⟩
  counted := (congrArg List.length (entries_replicate_empty)).symm
  load := Nat.zero_le _
  chained := chained_replicate_empty

/-- The load leaves a bucket without an entry. -/
theorem Sound.exists_unoccupied (sound : Sound ops table) :
    ∃ slot, slot < table.buckets.length ∧ bucketEntry (bucketAt table.buckets slot) = none := by
  obtain ⟨capacity, counted, load, _⟩ := sound
  have pos := capacity.pos
  refine Collections.exists_unoccupied ?_
  unfold Table.capacity at load pos
  omega

theorem insertProbe_returns (sound : Sound ops table) (key : K) :
    ∃ slot, insertProbe ops table key = some slot := by
  obtain ⟨free, inside, unoccupied⟩ := sound.exists_unoccupied
  refine probeFor_returns sound.capacity inside ?_
  cases found : bucketAt table.buckets free <;> simp [found, bucketEntry, insertStops] at *

/-- Rehashing into buckets twice as many ends. -/
theorem rehashLoop_doubled_returns (sound : Sound ops table) :
    ∃ buckets, rehashLoop ops table.buckets (List.replicate (table.capacity * 2) .empty) =
        some buckets ∧
      Rehashed ops (entries table.buckets) (List.replicate (table.capacity * 2) .empty)
        buckets := by
  obtain ⟨capacity, counted, load, _⟩ := sound
  have pos := capacity.pos
  refine rehashLoop_returns ?_ (chained_replicate_empty) (noTombstone_replicate_empty _) ?_
  · rw [length_replicate]
    exact capacity.double
  · rw [entries_replicate_empty, length_replicate, length_nil]
    omega

/-- The table an insert probes in: the receiver, or its entries in a table twice as large. -/
structure Grown (ops : KeyHashOps K) (table post : Table K V) : Prop where
  sound : Sound ops post
  room : (post.length + 1) * 4 ≤ post.capacity * 3
  length : post.length = table.length
  moved : (entries post.buckets).Perm (entries table.buckets)
  fresh : shouldResize table = false ∧ post = table ∨
    shouldResize table = true ∧ NoTombstone post.buckets

theorem resizeIfNeeded_returns (sound : Sound ops table) :
    ∃ post, resizeIfNeeded ops table = some post ∧ Grown ops table post := by
  unfold resizeIfNeeded
  by_cases due : shouldResize table = true
  · rw [if_pos due]
    obtain ⟨buckets, rehashed, result⟩ := rehashLoop_doubled_returns sound
    obtain ⟨capacity, counted, load, _⟩ := sound
    have large : 8 ≤ table.capacity := capacity.choose_spec.2
    have size : buckets.length = table.capacity * 2 := by
      rw [result.capacity, length_replicate]
    have moved : (entries buckets).Perm (entries table.buckets) := by
      simpa using result.moved
    refine ⟨{ buckets := buckets, length := table.length }, by rw [rehashed]; rfl, ?_⟩
    refine ⟨⟨?_, ?_, ?_, result.chained⟩, ?_, rfl, moved, .inr ⟨due, result.clean⟩⟩
    · show CapacityOk buckets.length
      exact size ▸ capacity.double
    · rw [moved.length_eq]
      exact counted
    · show table.length * 4 ≤ buckets.length * 3
      omega
    · show (table.length + 1) * 4 ≤ buckets.length * 3
      omega
  · rw [if_neg due]
    rw [Bool.not_eq_true] at due
    refine ⟨table, rfl, sound, ?_, rfl, .refl _, .inl ⟨due, rfl⟩⟩
    simpa [shouldResize] using due

/-! ## Methods -/

theorem writableTable_eq (mode : CallMode) (table : Table K V) :
    writableTable mode table = table := by
  cases mode <;> rfl

/-- Where an insert for `key` ended in the grown table: after `i` buckets that hold other keys. -/
structure InsertStop (ops : KeyHashOps K) (table post : Table K V) (key : K) (i : Nat) : Prop where
  grown : Grown ops table post
  bound : i < post.capacity
  stopped : insertStops ops key (bucketAt post.buckets (path ops post.capacity key i)) = true
  clear : ∀ j, j < i → insertStops ops key
    (bucketAt post.buckets (path ops post.capacity key j)) = false

theorem InsertStop.inside (stop : InsertStop ops table post key i) :
    path ops post.capacity key i < post.buckets.length :=
  stop.grown.sound.capacity.path_lt ops key i

/-- The buckets an insert passed are occupied by other keys. -/
theorem InsertStop.passed {j : Nat} (stop : InsertStop ops table post key i) (before : j < i) :
    ∃ existing value,
      bucketAt post.buckets (path ops post.capacity key j) = .occupied existing value ∧
      ops.equals key existing = false := by
  have clear := stop.clear j before
  cases found : bucketAt post.buckets (path ops post.capacity key j) with
  | empty | tombstone => simp [found, insertStops] at clear
  | occupied existing value =>
    rw [found] at clear
    exact ⟨existing, value, rfl, clear⟩

/-- The insert found its key and overwrote the value beside it. -/
def Overwrote (ops : KeyHashOps K) (post : Table K V) (key : K) (value : V) (i : Nat)
    (result : Table K V) : Prop :=
  ∃ existing old, bucketAt post.buckets (path ops post.capacity key i) = .occupied existing old ∧
    ops.equals key existing = true ∧
    result = { buckets := post.buckets.set (path ops post.capacity key i)
                 (.occupied existing value),
               length := post.length }

/-- The insert wrote a new entry into a bucket without one. -/
def Placed (ops : KeyHashOps K) (post : Table K V) (key : K) (value : V) (i : Nat)
    (result : Table K V) : Prop :=
  bucketEntry (bucketAt post.buckets (path ops post.capacity key i)) = none ∧
    result = { buckets := post.buckets.set (path ops post.capacity key i) (.occupied key value),
               length := post.length + 1 }

theorem mapPut_returns (sound : Sound ops table) (mode : CallMode) (key : K) (value : V) :
    ∃ result, mapPut ops mode table key value = some result ∧
      ∃ post i, InsertStop ops table post key i ∧
        (Overwrote ops post key value i result ∨ Placed ops post key value i result) := by
  obtain ⟨post, resized, grown⟩ := resizeIfNeeded_returns sound
  obtain ⟨slot, found⟩ := insertProbe_returns grown.sound key
  obtain ⟨i, bound, rfl, stopped, clear⟩ := probeFor_eq_some found
  have stop : InsertStop ops table post key i := ⟨grown, bound, stopped, clear⟩
  unfold mapPut
  simp only [writableTable_eq, resized, bind_eq_bind, bind_some, found]
  cases here : bucketAt post.buckets (path ops post.buckets.length key i) with
  | occupied existing old =>
    rw [here] at stopped
    exact ⟨_, rfl, post, i, stop, .inl ⟨existing, old, here, stopped, rfl⟩⟩
  | empty | tombstone => exact ⟨_, rfl, post, i, stop, .inr ⟨congrArg bucketEntry here, rfl⟩⟩

theorem Overwrote.entries_perm (stop : InsertStop ops table post key i)
    (overwrote : Overwrote ops post key value i result) :
    ∃ existing old rest, ops.equals key existing = true ∧
      (entries table.buckets).Perm ((existing, old) :: rest) ∧
      (entries result.buckets).Perm ((existing, value) :: rest) := by
  obtain ⟨existing, old, here, equal, rfl⟩ := overwrote
  obtain ⟨rest, before, after⟩ := entries_set stop.inside
  rw [here] at before
  exact ⟨existing, old, rest, equal, stop.grown.moved.symm.trans before, after _⟩

theorem Placed.entries_perm (stop : InsertStop ops table post key i)
    (placed : Placed ops post key value i result) :
    (entries result.buckets).Perm ((key, value) :: entries table.buckets) := by
  obtain ⟨free, rfl⟩ := placed
  obtain ⟨rest, before, after⟩ := entries_set stop.inside
  rw [free] at before
  exact (after _).trans ((before.symm.trans stop.grown.moved).cons _)

theorem Overwrote.sound (stop : InsertStop ops table post key i)
    (overwrote : Overwrote ops post key value i result) : Sound ops result := by
  obtain ⟨_, _, _, _, before, after⟩ := overwrote.entries_perm stop
  obtain ⟨existing, old, here, _, rfl⟩ := overwrote
  have grown := stop.grown
  have sound := grown.sound
  refine ⟨?_, ?_, ?_, ?_⟩
  · simpa [Table.capacity] using sound.capacity
  · rw [after.length_eq, length_cons, ← length_cons, ← before.length_eq,
      ← grown.moved.length_eq]
    exact sound.counted
  · simpa [Table.capacity] using sound.load
  · refine sound.chained.set stop.inside nofun ?_
    rintro _ _ ⟨rfl, rfl⟩
    exact sound.chained _ _ _ here

theorem Placed.sound (stop : InsertStop ops table post key i)
    (placed : Placed ops post key value i result) : Sound ops result := by
  have added := placed.entries_perm stop
  obtain ⟨free, rfl⟩ := placed
  have grown := stop.grown
  have sound := grown.sound
  refine ⟨?_, ?_, ?_, ?_⟩
  · simpa [Table.capacity] using sound.capacity
  · rw [added.length_eq, length_cons, ← grown.moved.length_eq]
    exact congrArg (· + 1) sound.counted
  · simpa [Table.capacity] using grown.room
  · refine sound.chained.set stop.inside nofun ?_
    rintro _ _ ⟨rfl, rfl⟩
    refine ⟨i, stop.bound, rfl, fun j below empty => ?_⟩
    obtain ⟨_, _, occupied, _⟩ := stop.passed below
    unfold Table.capacity at occupied
    rw [empty] at occupied
    cases occupied

/-- What an insert that returned has done. -/
theorem mapPut_cases (sound : Sound ops table) {mode : CallMode}
    (returned : mapPut ops mode table key value = some result) :
    ∃ post i, InsertStop ops table post key i ∧
      (Overwrote ops post key value i result ∨ Placed ops post key value i result) := by
  obtain ⟨_, returned', done⟩ := mapPut_returns sound mode key value
  rw [returned] at returned'
  cases returned'
  exact done

theorem mapPut_sound (sound : Sound ops table) {mode : CallMode}
    (returned : mapPut ops mode table key value = some result) : Sound ops result := by
  obtain ⟨post, i, stop, overwrote | placed⟩ := mapPut_cases sound returned
  · exact overwrote.sound stop
  · exact placed.sound stop

/-- A set is a map to `Unit`: keeping the table and storing the unit value again are the same. -/
theorem setInsert_eq_mapPut (ops : KeyHashOps T) (mode : CallMode) (table : Table T Unit)
    (item : T) : setInsert ops mode table item = mapPut ops mode table item () := by
  refine congrArg _ (funext fun post => congrArg _ (funext fun slot => ?_))
  cases here : bucketAt post.buckets slot with
  | empty | tombstone => rfl
  | occupied existing =>
    have same : post.buckets.set slot (.occupied existing ()) = post.buckets := by
      obtain ⟨before, after, split, write⟩ := exists_split (inside_of_occupied here)
      rw [write, ← here]
      exact split.symm
    show some post = some _
    rw [same]

/-- Where the read-only probe ends: at the key, or at an empty bucket. -/
theorem readOnlyProbe_cases (found : readOnlyProbe ops table key = some slot) :
    ∃ i, i < table.capacity ∧ path ops table.capacity key i = slot ∧ (∀ j, j < i → readStops ops key
        (bucketAt table.buckets (path ops table.capacity key j)) = false) ∧
      ((∃ existing value, bucketAt table.buckets slot = .occupied existing value ∧
          ops.equals key existing = true) ∨
        bucketAt table.buckets slot = .empty) := by
  obtain ⟨i, bound, reached, stopped, clear⟩ := probeFor_eq_some found
  refine ⟨i, bound, reached, clear, ?_⟩
  cases here : bucketAt table.buckets slot with
  | empty => exact .inr rfl
  | tombstone => simp [here, readStops] at stopped
  | occupied existing value =>
    rw [here] at stopped
    exact .inl ⟨existing, value, rfl, stopped⟩

/-- The read-only probe for the key ends: at an empty bucket or at the key. -/
def ReadEnds (ops : KeyHashOps K) (table : Table K V) (key : K) : Prop :=
  .empty ∈ table.buckets ∨
    ∃ existing value, (existing, value) ∈ entries table.buckets ∧ ops.equals key existing = true

instance [DecidableEq K] [DecidableEq V] (ops : KeyHashOps K) (table : Table K V) (key : K) :
    Decidable (ReadEnds ops table key) :=
  decidable_of_iff (.empty ∈ table.buckets ∨
    ∃ entry ∈ entries table.buckets, ops.equals key entry.1 = true) (by simp [ReadEnds])

theorem readOnlyProbe_returns_iff (size : CapacityOk table.capacity) :
    (∃ slot, readOnlyProbe ops table key = some slot) ↔ ReadEnds ops table key := by
  constructor
  · rintro ⟨slot, found⟩
    obtain ⟨i, bound, rfl, _, ⟨existing, value, here, equal⟩ | here⟩ := readOnlyProbe_cases found
    · exact .inr ⟨existing, value, mem_entries_iff.mpr ⟨_, here⟩, equal⟩
    · exact .inl (mem_iff_bucketAt.mpr ⟨_, size.path_lt ops key i, here⟩)
  · rintro (empty | ⟨existing, value, present, equal⟩)
    · obtain ⟨slot, inside, here⟩ := mem_iff_bucketAt.mp empty
      exact probeFor_returns size inside (by rw [here]; rfl)
    · obtain ⟨slot, here⟩ := mem_entries_iff.mp present
      exact probeFor_returns size (inside_of_occupied here) (by rw [here]; exact equal)

/-- `remove` tombstones the bucket the probe found, or changes nothing. -/
theorem remove_cases (removed : remove ops table key = some result) :
    ∃ slot, readOnlyProbe ops table key = some slot ∧
      ((∃ existing value, bucketAt table.buckets slot = .occupied existing value ∧
          result = { buckets := table.buckets.set slot .tombstone,
                     length := table.length - 1 }) ∨
        bucketAt table.buckets slot = .empty ∧ result = table) := by
  have whole : cloneTable table = table := rfl
  unfold remove at removed
  obtain ⟨slot, found, rest⟩ := bind_eq_some_iff.mp removed
  refine ⟨slot, found, ?_⟩
  obtain ⟨i, bound, rfl, _, ⟨existing, value, here, equal⟩ | here⟩ := readOnlyProbe_cases found
  · rw [here] at rest
    exact .inl ⟨existing, value, here, (Option.some.inj rest).symm⟩
  · rw [here] at rest
    exact .inr ⟨here, (Option.some.inj rest).symm⟩

theorem remove_returns_iff : (∃ result, remove ops table key = some result) ↔
      ∃ slot, readOnlyProbe ops table key = some slot := by
  constructor
  · rintro ⟨result, removed⟩
    obtain ⟨slot, found, _⟩ := remove_cases removed
    exact ⟨slot, found⟩
  · rintro ⟨slot, found⟩
    have whole : cloneTable table = table := rfl
    unfold remove
    simp only [whole, found, bind_eq_bind, bind_some]
    cases bucketAt table.buckets slot <;> exact ⟨_, rfl⟩

theorem entries_tombstone (here : bucketAt buckets slot = .occupied key value) :
    (entries buckets).Perm ((key, value) :: entries (buckets.set slot .tombstone)) := by
  obtain ⟨rest, before, after⟩ := entries_set (inside_of_occupied here)
  rw [here] at before
  exact before.trans ((after .tombstone).symm.cons _)

theorem remove_sound (sound : Sound ops table) (removed : remove ops table key = some result) :
    Sound ops result := by
  obtain ⟨slot, _, ⟨existing, value, here, rfl⟩ | ⟨_, rfl⟩⟩ := remove_cases removed
  · have left := (entries_tombstone here).length_eq
    rw [length_cons] at left
    have counted := sound.counted
    have load := sound.load
    refine ⟨?_, ?_, ?_, ?_⟩
    · simpa [Table.capacity] using sound.capacity
    · show table.length - 1 = (entries (table.buckets.set slot .tombstone)).length
      omega
    · simp only [Table.capacity, length_set] at load ⊢
      omega
    · exact sound.chained.set (inside_of_occupied here) nofun nofun
  · exact sound

end Koja.Guarantees.Collections
