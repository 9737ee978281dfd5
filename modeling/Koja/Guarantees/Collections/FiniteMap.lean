import Koja.Guarantees.Collections.ProbesEnd

/-!
# The table as a finite map

The abstract map is a function from keys to values that follows the calls. `Represents` ties it
to the table's entries up to order: the entries with a given key carry the value of the abstract
map, once. An insert of a key that is already there keeps this exactly if no tombstone lies on
the key's path before its bucket, since the insert probe ends at a tombstone; a read keeps it
exactly if its probe ends.
-/
namespace Koja.Guarantees.Collections

open Koja.Lib Koja.Source.Ir Koja.Source.Llvm List Option

variable {K V : Type}

/-- What the `Hash` and `Equality` protocols ask of a key type. -/
structure Lawful (ops : KeyHashOps K) : Prop where
  refl : ∀ a, ops.equals a a = true
  symm : ∀ a b, ops.equals a b = true → ops.equals b a = true
  trans : ∀ a b c, ops.equals a b = true → ops.equals b c = true → ops.equals a c = true
  hash : ∀ a b, ops.equals a b = true → ops.hash a = ops.hash b

section
variable {ops : KeyHashOps K}

theorem Lawful.path_congr (lawful : Lawful ops) {a b : K} (equal : ops.equals a b = true)
    (capacity i : Nat) : path ops capacity a i = path ops capacity b i := by
  unfold path startSlot
  rw [lawful.hash a b equal]

/-- Equal keys are equal to the same keys. -/
theorem Lawful.equals_congr (lawful : Lawful ops) {a b : K} (equal : ops.equals a b = true)
    (c : K) : ops.equals a c = ops.equals b c := by
  rw [Bool.eq_iff_iff]
  exact ⟨lawful.trans b a c (lawful.symm a b equal), lawful.trans a b c equal⟩

theorem Lawful.equals_comm (lawful : Lawful ops) (a b : K) : ops.equals a b = ops.equals b a := by
  rw [Bool.eq_iff_iff]
  exact ⟨lawful.symm a b, lawful.symm b a⟩

end

/-! ## The abstract map -/

section
variable (ops : KeyHashOps K) (contents : K → Option V) (listed : List (K × V))

/-- Contents after a `put`. -/
def putContents (key : K) (value : V) : K → Option V :=
  fun other => if ops.equals key other then some value else contents other

/-- Contents after a `remove`. -/
def removeContents (key : K) : K → Option V :=
  fun other => if ops.equals key other then none else contents other

/-- The values of the entries with the key. -/
def valuesOf (key : K) : List V :=
  (listed.filter fun entry => ops.equals key entry.1).map Prod.snd

/-- The entries with a given key carry the value of the abstract map, once. -/
def Represents : Prop :=
  ∀ key, valuesOf ops listed key = (contents key).toList

/-- No entry has the key. -/
def Absent (key : K) : Prop :=
  ∀ entry ∈ listed, ops.equals key entry.1 = false

end

section Contents
variable {ops : KeyHashOps K} {contents : K → Option V} {listed listed' rest : List (K × V)}
  {key existing : K} {old value : V}

theorem valuesOf_cons_equal (equal : ops.equals key existing = true) :
    valuesOf ops ((existing, value) :: rest) key = value :: valuesOf ops rest key := by
  unfold valuesOf
  rw [filter_cons, if_pos equal]
  rfl

theorem valuesOf_cons_other (different : ops.equals key existing = false) :
    valuesOf ops ((existing, value) :: rest) key = valuesOf ops rest key := by
  unfold valuesOf
  rw [filter_cons, different]
  rfl

theorem valuesOf_eq_nil_iff : valuesOf ops listed key = [] ↔ Absent ops listed key := by
  unfold valuesOf Absent
  simp

theorem Lawful.absent_congr (lawful : Lawful ops) {other : K}
    (equal : ops.equals key other = true) (absent : Absent ops listed key) :
    Absent ops listed other := by
  intro entry present
  rw [← lawful.equals_congr equal]
  exact absent entry present

theorem Represents.perm (represents : Represents ops contents listed) (same : listed.Perm listed') :
    Represents ops contents listed' := by
  intro key
  have moved : (valuesOf ops listed key).Perm (valuesOf ops listed' key) :=
    (same.filter _).map _
  rw [represents key] at moved
  cases found : contents key with
  | none =>
    rw [found] at moved
    exact nil_perm.mp moved
  | some =>
    rw [found] at moved
    exact perm_singleton.mp moved.symm

theorem Represents.contents_of_mem (represents : Represents ops contents listed)
    (present : (existing, value) ∈ listed) (equal : ops.equals key existing = true) :
    contents key = some value := by
  have inside : value ∈ (contents key).toList := by
    rw [← represents key]
    exact mem_map_of_mem (mem_filter.mpr ⟨present, equal⟩)
  exact mem_toList.mp inside

theorem Represents.contents_of_absent (represents : Represents ops contents listed)
    (absent : Absent ops listed key) : contents key = none := by
  have empty := represents key
  rw [valuesOf_eq_nil_iff.mpr absent] at empty
  exact toList_eq_nil_iff.mp empty.symm

/-- At most one entry has the key. -/
theorem Represents.absent_rest (represents : Represents ops contents ((existing, value) :: rest))
    (equal : ops.equals key existing = true) : Absent ops rest key := by
  have whole := represents key
  rw [valuesOf_cons_equal equal] at whole
  rw [← valuesOf_eq_nil_iff]
  cases found : contents key with
  | none => simp [found] at whole
  | some =>
    rw [found] at whole
    exact (List.cons.inj whole).2

theorem represents_nil : Represents ops (fun _ => none) ([] : List (K × V)) :=
  fun _ => rfl

/-- A new entry is right exactly if its key was absent. -/
theorem Represents.cons_iff (lawful : Lawful ops) (represents : Represents ops contents listed)
    (key : K) (value : V) :
    Represents ops (putContents ops contents key value) ((key, value) :: listed) ↔
      Absent ops listed key := by
  constructor
  · intro after
    exact after.absent_rest (lawful.refl key)
  · intro absent other
    unfold putContents
    rw [lawful.equals_comm key other]
    by_cases equal : ops.equals other key = true
    · have absentOther := lawful.absent_congr (lawful.symm other key equal) absent
      rw [valuesOf_cons_equal equal, valuesOf_eq_nil_iff.mpr absentOther, if_pos equal]
      rfl
    · rw [if_neg equal, valuesOf_cons_other (Bool.not_eq_true _ ▸ equal)]
      exact represents other

/-- Whether another key is the one of the entry an operation found. -/
theorem Lawful.equals_found (lawful : Lawful ops) (equal : ops.equals key existing = true)
    (other : K) :
    ops.equals key other = ops.equals other existing := by
  rw [lawful.equals_congr equal, lawful.equals_comm]

theorem Represents.overwrite (lawful : Lawful ops)
    (represents : Represents ops contents ((existing, old) :: rest))
    (equal : ops.equals key existing = true) :
    Represents ops (putContents ops contents key value) ((existing, value) :: rest) := by
  intro other
  have before := represents other
  unfold putContents
  rw [lawful.equals_found equal]
  by_cases same : ops.equals other existing = true
  · rw [valuesOf_cons_equal same, if_pos same,
      valuesOf_eq_nil_iff.mpr (represents.absent_rest same)]
    rfl
  · rw [Bool.not_eq_true] at same
    rw [valuesOf_cons_other same] at before ⊢
    rw [same]
    exact before

theorem Represents.drop (lawful : Lawful ops)
    (represents : Represents ops contents ((existing, old) :: rest))
    (equal : ops.equals key existing = true) :
    Represents ops (removeContents ops contents key) rest := by
  intro other
  have before := represents other
  unfold removeContents
  rw [lawful.equals_found equal]
  by_cases same : ops.equals other existing = true
  · rw [if_pos same, valuesOf_eq_nil_iff.mpr (represents.absent_rest same)]
    rfl
  · rw [Bool.not_eq_true] at same
    rw [valuesOf_cons_other same] at before
    rw [same]
    exact before

theorem Represents.remove_absent (lawful : Lawful ops)
    (represents : Represents ops contents listed) (absent : Absent ops listed key) :
    Represents ops (removeContents ops contents key) listed := by
  intro other
  unfold removeContents
  by_cases same : ops.equals key other = true
  · rw [if_pos same, valuesOf_eq_nil_iff.mpr (lawful.absent_congr same absent)]
    rfl
  · rw [if_neg same]
    exact represents other

end Contents

/-! ## Iteration -/

/-- The entries met by passing each cursor `next` hands out back to it, up to a bound on the
calls. -/
def visitedFrom {E : Type} (next : Int → Option (E × Int)) : Nat → Int → List E
  | 0, _ => []
  | calls + 1, cursor =>
    match next cursor with
    | none => []
    | some (entry, after) => entry :: visitedFrom next calls after

/-- The entries met by iterating `next` from cursor 0. -/
def visited (table : Table K V) : List (K × V) :=
  visitedFrom (next table) (table.capacity + 1) 0

/-- The items met by iterating a set's `next` from cursor 0. -/
def visitedItems (table : Table K Unit) : List K :=
  visitedFrom (setNext table) (table.capacity + 1) 0

theorem cursorScan_eq_none {buckets : List (Bucket K V)} {slot : Nat}
    (ended : cursorScan buckets slot = none) : entries buckets = [] := by
  induction buckets generalizing slot with
  | nil => rfl
  | cons bucket _ ih =>
    cases bucket with
    | empty | tombstone => exact ih ended
    | occupied => cases ended

theorem cursorScan_eq_some {buckets : List (Bucket K V)} {slot : Nat} {entry : K × V}
    {after : Int} (found : cursorScan buckets slot = some (entry, after)) :
    ∃ passed : Nat, passed < buckets.length ∧ after = ((slot + passed + 1 : Nat) : Int) ∧
      entries buckets = entry :: entries (buckets.drop (passed + 1)) := by
  induction buckets generalizing slot with
  | nil => cases found
  | cons bucket _ ih =>
    cases bucket with
    | occupied =>
      cases found
      exact ⟨0, Nat.succ_pos _, rfl, rfl⟩
    | empty | tombstone =>
      obtain ⟨passed, bound, reached, split⟩ := ih found
      exact ⟨passed + 1, Nat.succ_lt_succ bound, by omega, split⟩

theorem visitedFrom_eq (table : Table K V) (calls cursor : Nat)
    (enough : table.capacity < calls + cursor) :
    visitedFrom (next table) calls cursor = entries (table.buckets.drop cursor) := by
  induction calls generalizing cursor with
  | zero =>
    rw [drop_eq_nil_of_le (by unfold Table.capacity at enough; omega)]
    rfl
  | succ _ ih =>
    have scanned : next table (cursor : Int) = cursorScan (table.buckets.drop cursor) cursor := by
      unfold Source.Llvm.next
      rw [if_pos (Int.natCast_nonneg _), Int.toNat_natCast]
    unfold visitedFrom
    rw [scanned]
    cases found : cursorScan (table.buckets.drop cursor) cursor with
    | none => exact (cursorScan_eq_none found).symm
    | some reply =>
      obtain ⟨entry, after⟩ := reply
      obtain ⟨passed, _, rfl, split⟩ := cursorScan_eq_some found
      rw [split, drop_drop]
      refine congrArg (entry :: ·) ?_
      have rest := ih (cursor + passed + 1) (by omega)
      exact rest

theorem visited_eq (table : Table K V) : visited table = entries table.buckets :=
  visitedFrom_eq table (table.capacity + 1) 0 (by omega)

theorem visitedFrom_map {E F : Type} (f : E → F) (next : Int → Option (E × Int)) (calls : Nat)
    (cursor : Int) :
    visitedFrom (fun c => (next c).map fun (entry, after) => (f entry, after)) calls cursor =
      (visitedFrom next calls cursor).map f := by
  induction calls generalizing cursor with
  | zero => rfl
  | succ _ ih =>
    unfold visitedFrom
    cases found : next cursor with
    | none => rfl
    | some reply => exact congrArg (f reply.1 :: ·) (ih reply.2)

theorem visitedItems_eq (table : Table K Unit) :
    visitedItems table = (entries table.buckets).map Prod.fst := by
  rw [← visited_eq]
  exact visitedFrom_map Prod.fst (next table) _ _

/-! ## Reads -/

section Steps
variable {ops : KeyHashOps K} {contents : K → Option V} {table post result : Table K V} {key : K}
  {value : V} {i : Nat}

/-- An entry lies on the path of every key equal to its own. -/
theorem Chained.on_path (lawful : Lawful ops) (chained : Chained ops table.buckets)
    {key existing : K} {value : V}
    (present : (existing, value) ∈ entries table.buckets) (equal : ops.equals key existing = true) :
    ∃ k, k < table.capacity ∧
      bucketAt table.buckets (path ops table.capacity key k) = .occupied existing value ∧
      ∀ j, j < k → bucketAt table.buckets (path ops table.capacity key j) ≠ .empty := by
  obtain ⟨slot, here⟩ := mem_entries_iff.mp present
  obtain ⟨k, bound, reached, filled⟩ := chained slot existing value here
  simp only [lawful.path_congr equal]
  exact ⟨k, bound, (congrArg (bucketAt table.buckets) reached).trans here, filled⟩

/-- A probe that ended at an empty bucket passed no bucket that could hold the key. -/
theorem absent_of_read_empty (lawful : Lawful ops) (chained : Chained ops table.buckets)
    {key : K} {i : Nat} (clear : ∀ j, j < i → readStops ops key
      (bucketAt table.buckets (path ops table.capacity key j)) = false)
    (empty : bucketAt table.buckets (path ops table.capacity key i) = .empty) :
    Absent ops (entries table.buckets) key := by
  rintro ⟨existing, value⟩ present
  by_contra equal
  rw [Bool.not_eq_false] at equal
  obtain ⟨k, _, held, filled⟩ := chained.on_path lawful present equal
  rcases Nat.lt_trichotomy k i with before | rfl | after
  · have passed := clear k before
    rw [held] at passed
    simp [readStops, equal] at passed
  · rw [empty] at held
    cases held
  · exact filled i after empty

/-- The answer of a probe that ends: the key's entry, or that there is none. -/
theorem readOnlyProbe_right (lawful : Lawful ops) (sound : Sound ops table)
    (represents : Represents ops contents (entries table.buckets)) {key : K} {slot : Nat}
    (found : readOnlyProbe ops table key = some slot) :
    (∃ existing value, bucketAt table.buckets slot = .occupied existing value ∧
        ops.equals key existing = true ∧ contents key = some value) ∨
      bucketAt table.buckets slot = .empty ∧ Absent ops (entries table.buckets) key ∧
        contents key = none := by
  obtain ⟨i, bound, rfl, clear, ⟨existing, value, here, equal⟩ | here⟩ :=
    readOnlyProbe_cases found
  · exact .inl ⟨existing, value, here, equal,
      represents.contents_of_mem (mem_entries_iff.mpr ⟨_, here⟩) equal⟩
  · have absent := absent_of_read_empty lawful sound.chained clear here
    exact .inr ⟨here, absent, represents.contents_of_absent absent⟩

theorem mapGet_right_iff (lawful : Lawful ops) (sound : Sound ops table)
    (represents : Represents ops contents (entries table.buckets)) (key : K) :
    mapGet ops table key = some (contents key) ↔ ReadEnds ops table key := by
  rw [← readOnlyProbe_returns_iff sound.capacity]
  unfold mapGet
  constructor
  · intro returned
    obtain ⟨slot, found, _⟩ := bind_eq_some_iff.mp returned
    exact ⟨slot, found⟩
  · rintro ⟨slot, found⟩
    obtain ⟨_, _, here, _, right⟩ | ⟨here, _, right⟩ :=
      readOnlyProbe_right lawful sound represents found
    all_goals simp [found, here, right]

theorem hasQ_right_iff (lawful : Lawful ops) (sound : Sound ops table)
    (represents : Represents ops contents (entries table.buckets)) (key : K) :
    hasQ ops table key = some (contents key).isSome ↔ ReadEnds ops table key := by
  rw [← mapGet_right_iff lawful sound represents]
  unfold hasQ mapGet
  constructor
  all_goals
    intro returned
    obtain ⟨slot, found, _⟩ := bind_eq_some_iff.mp returned
    obtain ⟨_, _, here, _, right⟩ | ⟨here, _, right⟩ :=
      readOnlyProbe_right lawful sound represents found
    all_goals simp [found, here, right]

/-- `remove` drops the key's entry, or changes nothing if there is none. -/
theorem remove_right (lawful : Lawful ops) (sound : Sound ops table)
    (represents : Represents ops contents (entries table.buckets)) {key : K} {result : Table K V}
    (removed : remove ops table key = some result) :
    (∃ existing value, ops.equals key existing = true ∧
        (entries table.buckets).Perm ((existing, value) :: entries result.buckets)) ∨
      Absent ops (entries table.buckets) key ∧ result = table := by
  obtain ⟨slot, found, ⟨_, _, there, rfl⟩ | ⟨free, rfl⟩⟩ := remove_cases removed
  all_goals
    obtain ⟨existing, value, here, equal, _⟩ | ⟨here, absent, _⟩ :=
      readOnlyProbe_right lawful sound represents found
  · exact .inl ⟨existing, value, equal, entries_tombstone here⟩
  · rw [there] at here
    cases here
  · rw [free] at here
    cases here
  · exact .inr ⟨absent, rfl⟩

theorem remove_represents (lawful : Lawful ops) (sound : Sound ops table)
    (represents : Represents ops contents (entries table.buckets)) {key : K} {result : Table K V}
    (removed : remove ops table key = some result) :
    Represents ops (removeContents ops contents key) (entries result.buckets) := by
  obtain ⟨existing, value, equal, split⟩ | ⟨absent, rfl⟩ :=
    remove_right lawful sound represents removed
  · exact (represents.perm split).drop lawful equal
  · exact represents.remove_absent lawful absent

/-! ## Inserts -/

/-- The key is in the table, and a tombstone lies on its path before its bucket in a table that
is not about to grow. -/
def TombstoneAhead (ops : KeyHashOps K) (table : Table K V) (key : K) : Prop :=
  shouldResize table = false ∧ ∃ i j, j < i ∧ i < table.capacity ∧
    bucketAt table.buckets (path ops table.capacity key j) = .tombstone ∧
    ∃ existing value,
      bucketAt table.buckets (path ops table.capacity key i) = .occupied existing value ∧
      ops.equals key existing = true

instance [DecidableEq K] [DecidableEq V] (ops : KeyHashOps K) (table : Table K V) (key : K) :
    Decidable (TombstoneAhead ops table key) :=
  decidable_of_iff (shouldResize table = false ∧ ∃ i < table.capacity, ∃ j < i,
    bucketAt table.buckets (path ops table.capacity key j) = .tombstone ∧
    ∃ entry ∈ bucketEntry (bucketAt table.buckets (path ops table.capacity key i)),
      ops.equals key entry.1 = true) (and_congr_right fun _ => by
    simp only [Option.mem_def, bucketEntry_eq_some, Prod.exists]
    exact ⟨fun ⟨i, bound, j, less, here⟩ => ⟨i, j, less, bound, here⟩,
      fun ⟨i, j, less, bound, here⟩ => ⟨i, bound, j, less, here⟩⟩)

theorem NoTombstone.not_ahead {ops : KeyHashOps K} {table : Table K V} {key : K}
    (clean : NoTombstone table.buckets) : ¬ TombstoneAhead ops table key := by
  rintro ⟨_, _, _, _, _, buried, _⟩
  exact clean _ buried

/-- Each key is in at most one bucket. -/
def KeysOnce (ops : KeyHashOps K) (table : Table K V) : Prop :=
  ∀ slot slot' key key' value value', bucketAt table.buckets slot = .occupied key value →
    bucketAt table.buckets slot' = .occupied key' value' →
    ops.equals key key' = true → slot = slot'

theorem Represents.keysOnce (lawful : Lawful ops)
    (represents : Represents ops contents (entries table.buckets)) :
    KeysOnce ops table := by
  intro slot slot' key key' value value' here there equal
  by_contra apart
  have split := entries_tombstone here
  have absent := (represents.perm split).absent_rest (lawful.refl key)
  have still : bucketAt (table.buckets.set slot .tombstone) slot' = .occupied key' value' := by
    rw [bucketAt_set (inside_of_occupied here), if_neg apart]
    exact there
  have different := absent _ (mem_entries_iff.mpr ⟨slot', still⟩)
  rw [equal] at different
  cases different

/-- An insert that found its key met no tombstone before it. -/
theorem Overwrote.not_tombstoneAhead (lawful : Lawful ops) (once : KeysOnce ops post)
    (stop : InsertStop ops table post key i) (overwrote : Overwrote ops post key value i result) :
    ¬ TombstoneAhead ops post key := by
  rintro ⟨_, k, j, before, bound, buried, existing, held, here, equal⟩
  obtain ⟨found, old, there, foundEqual, _⟩ := overwrote
  have sameSlot := once _ _ _ _ _ _ there here
    (lawful.trans _ _ _ (lawful.symm _ _ foundEqual) equal)
  have same := stop.grown.sound.capacity.wraps.iterate_inj
    (stop.grown.sound.capacity.startSlot_lt ops key) stop.bound bound sameSlot
  subst same
  obtain ⟨_, _, occupied, _⟩ := stop.passed before
  rw [buried] at occupied
  cases occupied

/-- A placed key was absent exactly if no tombstone hid it. -/
theorem Placed.absent_iff (lawful : Lawful ops) (stop : InsertStop ops table post key i)
    (placed : Placed ops post key value i result) :
    Absent ops (entries table.buckets) key ↔ ¬ TombstoneAhead ops table key := by
  constructor
  · rintro absent ⟨_, k, j, _, _, _, existing, held, here, equal⟩
    have different := absent _ (mem_entries_iff.mpr ⟨_, here⟩)
    rw [equal] at different
    cases different
  · intro clear
    rintro ⟨existing, held⟩ present
    by_contra equal
    rw [Bool.not_eq_false] at equal
    obtain ⟨k, bound, stored, filled⟩ := stop.grown.sound.chained.on_path lawful
      (stop.grown.moved.symm.subset present) equal
    rcases Nat.lt_trichotomy k i with before | rfl | after
    · obtain ⟨_, _, occupied, different⟩ := stop.passed before
      rw [stored] at occupied
      cases occupied
      rw [equal] at different
      cases different
    · have free := placed.1
      rw [stored] at free
      cases free
    · -- The insert ended before the key's bucket, on its chain: at a tombstone.
      have buried : bucketAt post.buckets (path ops post.capacity key i) = .tombstone := by
        have free := placed.1
        cases found : bucketAt post.buckets (path ops post.capacity key i) with
        | empty => exact absurd found (filled i after)
        | tombstone => rfl
        | occupied =>
          rw [found] at free
          cases free
      obtain ⟨ungrown, rfl⟩ | ⟨_, clean⟩ := stop.grown.fresh
      · exact clear ⟨ungrown, k, i, after, bound, buried, existing, held, stored, equal⟩
      · exact clean _ buried

/-- An insert is right exactly if no tombstone hides its key. -/
theorem mapPut_represents_iff (lawful : Lawful ops) (sound : Sound ops table)
    (represents : Represents ops contents (entries table.buckets)) {mode : CallMode}
    (returned : mapPut ops mode table key value = some result) :
    Represents ops (putContents ops contents key value) (entries result.buckets) ↔
      ¬ TombstoneAhead ops table key := by
  obtain ⟨post, i, stop, overwrote | placed⟩ := mapPut_cases sound returned
  · obtain ⟨existing, old, rest, equal, before, after⟩ := overwrote.entries_perm stop
    refine iff_of_true (((represents.perm before).overwrite lawful equal).perm after.symm) ?_
    have postOnce : KeysOnce ops post :=
      (represents.perm stop.grown.moved.symm).keysOnce lawful
    obtain ⟨_, rfl⟩ | ⟨due, _⟩ := stop.grown.fresh
    · exact overwrote.not_tombstoneAhead lawful postOnce stop
    · rintro ⟨ungrown, _⟩
      rw [due] at ungrown
      cases ungrown
  · rw [← placed.absent_iff lawful stop, ← represents.cons_iff lawful key value]
    have added := placed.entries_perm stop
    exact ⟨fun after => after.perm added, fun after => after.perm added.symm⟩

end Steps

end Koja.Guarantees.Collections
