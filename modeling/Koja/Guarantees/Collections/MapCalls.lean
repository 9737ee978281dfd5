import Koja.Guarantees.Collections.FiniteMap

/-!
# Sequences of map and set calls against the abstract map

A state of a sequence is the table together with the abstract map, or set, that the same calls
make of an empty one. Every call is right exactly if the calls before and the call itself are
safe: no insert of a present key has a tombstone ahead of the key's bucket, and no read of an
absent key meets a table without an empty bucket.
-/
namespace Koja.Guarantees.Collections

open Koja.Lib Koja.Source.Ir Koja.Source.Llvm List Option

variable {K V : Type} {members : K → Bool}

/-! ## Maps -/

section
variable (ops : KeyHashOps K) (contents : K → Option V) (state : (K → Option V) × Table K V)

/-- The table is the finite map `contents`. -/
structure FiniteMap (table : Table K V) : Prop where
  once : KeysOnce ops table
  counted : table.length = (entries table.buckets).length
  visits : Represents ops contents (visited table)

theorem finiteMap_iff {ops : KeyHashOps K} (lawful : Lawful ops) {contents : K → Option V}
    {table : Table K V} (sound : Sound ops table) :
    FiniteMap ops contents table ↔ Represents ops contents (entries table.buckets) := by
  constructor
  · intro map
    rw [← visited_eq]
    exact map.visits
  · intro represents
    exact ⟨represents.keysOnce lawful, sound.counted, by rw [visited_eq]; exact represents⟩

/-- The abstract map after a call. -/
def mapContents : MapCall K V → K → Option V
  | .new => fun _ => none
  | .put _ key value => putContents ops contents key value
  | .remove key => removeContents ops contents key
  | .emptyQ | .get _ | .hasQ _ | .length | .next _ => contents

/-- What a call answers about the abstract map and the table it is made on. -/
def MapAnswer (table : Table K V) : MapCall K V → Answer V (K × V) → Prop
  | .emptyQ, answer => answer = .bool (entries table.buckets).isEmpty
  | .get key, answer => answer = .value (contents key)
  | .hasQ key, answer => answer = .bool (contents key).isSome
  | .length, answer => answer = .int (entries table.buckets).length
  | .new, _ | .next _, _ | .put _ _ _, _ | .remove _, _ => True

/-- The call returns, answers as the abstract map does, and leaves a table that is the abstract
map after it. -/
def MapCallRight (call : MapCall K V) : Prop :=
  ∃ result answer, callMap ops state.2 call = some (result, answer) ∧
    MapAnswer state.1 state.2 call answer ∧
    FiniteMap ops (mapContents ops state.1 call) result

/-- A call of the table beside the abstract map. -/
def tracedMap (call : MapCall K V) :
    Option (((K → Option V) × Table K V) × Answer V (K × V)) :=
  (callMap ops state.2 call).map fun returned =>
    ((mapContents ops state.1 call, returned.1), returned.2)

/-- A read's probe ends, and no tombstone hides the key of an insert. -/
def MapSafe (table : Table K V) : MapCall K V → Prop
  | .get key | .hasQ key | .remove key => ReadEnds ops table key
  | .put _ key _ => ¬ TombstoneAhead ops table key
  | .emptyQ | .length | .new | .next _ => True

instance [DecidableEq K] [DecidableEq V] (table : Table K V) :
    ∀ call, Decidable (MapSafe ops table call)
  | .get key | .hasQ key | .remove key => inferInstanceAs (Decidable (ReadEnds ops table key))
  | .put _ key _ => inferInstanceAs (Decidable (¬ TombstoneAhead ops table key))
  | .emptyQ | .length | .new | .next _ => .isTrue trivial

/-- A sound table that holds the abstract map. -/
def Faithful : Prop :=
  Sound ops state.2 ∧ Represents ops state.1 (entries state.2.buckets)

theorem faithful_empty :
    Faithful ops ((fun _ => none, emptyTable) : (K → Option V) × Table K V) := by
  refine ⟨sound_emptyTable ops, ?_⟩
  show Represents ops _ (entries (List.replicate initialCapacity .empty))
  exact represents_nil

end

section MapCalls
variable {ops : KeyHashOps K} {state : (K → Option V) × Table K V} {call : MapCall K V}

theorem emptyQ_eq (sound : Sound ops state.2) :
    emptyQ state.2 = (entries state.2.buckets).isEmpty := by
  unfold emptyQ
  rw [sound.counted, Bool.eq_iff_iff, beq_iff_eq, List.length_eq_zero_iff, List.isEmpty_iff]

/-- A safe call returns with the right answer, and the table stays the abstract map. -/
theorem MapSafe.right (lawful : Lawful ops) (faithful : Faithful ops state)
    (safe : MapSafe ops state.2 call) :
    ∃ result answer, callMap ops state.2 call = some (result, answer) ∧
      MapAnswer state.1 state.2 call answer ∧
      Faithful ops (mapContents ops state.1 call, result) := by
  obtain ⟨sound, represents⟩ := faithful
  cases call with
  | emptyQ =>
    exact ⟨_, _, rfl, congrArg Answer.bool (emptyQ_eq sound), sound, represents⟩
  | get key =>
    have found := (mapGet_right_iff lawful sound represents key).mpr safe
    exact ⟨state.2, .value (state.1 key), by simp only [callMap, found, map_some], rfl,
      sound, represents⟩
  | hasQ key =>
    have found := (hasQ_right_iff lawful sound represents key).mpr safe
    exact ⟨state.2, .bool (state.1 key).isSome, by simp only [callMap, found, map_some],
      rfl, sound, represents⟩
  | length =>
    exact ⟨_, _, rfl, congrArg (fun count : Nat => Answer.int count) sound.counted, sound,
      represents⟩
  | new => exact ⟨_, _, rfl, trivial, faithful_empty ops⟩
  | next => exact ⟨_, _, rfl, trivial, sound, represents⟩
  | put mode key value =>
    obtain ⟨result, returned, _⟩ := mapPut_returns sound mode key value
    refine ⟨result, .collection, by simp only [callMap, returned, map_some], trivial,
      mapPut_sound sound returned, ?_⟩
    exact (mapPut_represents_iff lawful sound represents returned).mpr safe
  | remove =>
    obtain ⟨result, removed⟩ :=
      remove_returns_iff.mpr ((readOnlyProbe_returns_iff sound.capacity).mpr safe)
    exact ⟨result, .collection, by simp only [callMap, removed, map_some], trivial,
      remove_sound sound removed, remove_represents lawful sound represents removed⟩

/-- A call that returns and leaves the abstract map was safe. -/
theorem safe_of_mapCallRight (lawful : Lawful ops) (faithful : Faithful ops state)
    (right : MapCallRight ops state call) :
    MapSafe ops state.2 call := by
  obtain ⟨sound, represents⟩ := faithful
  obtain ⟨result, answer, returned, answered, map⟩ := right
  cases call with
  | emptyQ | length | new | next => trivial
  | get key =>
    simp only [callMap, map_eq_some_iff] at returned
    obtain ⟨found, got, _, rfl⟩ := returned
    refine (mapGet_right_iff lawful sound represents key).mp ?_
    rw [got]
    exact congrArg some (Answer.value.inj answered)
  | hasQ key =>
    simp only [callMap, map_eq_some_iff] at returned
    obtain ⟨found, got, _, rfl⟩ := returned
    refine (hasQ_right_iff lawful sound represents key).mp ?_
    rw [got]
    exact congrArg some (Answer.bool.inj answered)
  | remove =>
    simp only [callMap, map_eq_some_iff] at returned
    obtain ⟨result', removed, _⟩ := returned
    exact (readOnlyProbe_returns_iff sound.capacity).mp (remove_returns_iff.mp ⟨result', removed⟩)
  | put =>
    simp only [callMap, map_eq_some_iff] at returned
    obtain ⟨result', put, rfl, _⟩ := returned
    refine (mapPut_represents_iff lawful sound represents put).mp ?_
    rw [← visited_eq]
    exact map.visits

theorem mapCallRight_iff (lawful : Lawful ops) (faithful : Faithful ops state)
    (call : MapCall K V) :
    MapCallRight ops state call ↔ MapSafe ops state.2 call := by
  constructor
  · exact safe_of_mapCallRight lawful faithful
  · intro safe
    obtain ⟨result, answer, returned, answered, kept⟩ := safe.right lawful faithful
    exact ⟨result, answer, returned, answered, (finiteMap_iff lawful kept.1).mpr kept.2⟩

theorem tracedMap_faithful (lawful : Lawful ops) (faithful : Faithful ops state)
    (safe : MapSafe ops state.2 call) :
    ∃ state' answer, tracedMap ops state call = some (state', answer) ∧ Faithful ops state' := by
  obtain ⟨_, _, called, _, kept⟩ := safe.right lawful faithful
  exact ⟨_, _, congrArg (Option.map _) called, kept⟩

end MapCalls

/-! ## Sets -/

section
variable (ops : KeyHashOps K)

/-- The table is the finite set `members`. -/
structure FiniteSet (members : K → Bool) (table : Table K Unit) : Prop where
  once : KeysOnce ops table
  counted : table.length = (entries table.buckets).length
  visits : ∀ item, (visitedItems table).countP (ops.equals item) = (members item).toNat

/-- A set as a map to `Unit`. -/
def memberContents (members : K → Bool) : K → Option Unit :=
  fun item => if members item then some () else none

theorem isSome_memberContents (members : K → Bool) (item : K) :
    (memberContents members item).isSome = members item := by
  unfold memberContents
  cases members item <;> rfl

theorem unitList_eq_iff {left right : List Unit} : left = right ↔ left.length = right.length :=
  ⟨congrArg List.length, fun same => ext_getElem same fun _ _ _ => rfl⟩

theorem length_valuesOf (listed : List (K × V)) (key : K) :
    (valuesOf ops listed key).length = (listed.map Prod.fst).countP (ops.equals key) := by
  unfold valuesOf
  rw [length_map, countP_map, countP_eq_length_filter]
  rfl

theorem finiteSet_iff {ops : KeyHashOps K} (lawful : Lawful ops)
    {table : Table K Unit} (sound : Sound ops table) :
    FiniteSet ops members table ↔
      Represents ops (memberContents members) (entries table.buckets) := by
  have counts : Represents ops (memberContents members) (entries table.buckets) ↔
      ∀ item, (visitedItems table).countP (ops.equals item) = (members item).toNat := by
    refine forall_congr' fun item => ?_
    rw [unitList_eq_iff, length_valuesOf, visitedItems_eq]
    unfold memberContents
    cases members item <;> exact Iff.rfl
  rw [counts]
  constructor
  · exact FiniteSet.visits
  · exact fun visits => ⟨(counts.mpr visits).keysOnce lawful, sound.counted, visits⟩

/-- Members after an `insert`. -/
def insertMember (members : K → Bool) (item : K) : K → Bool :=
  fun other => ops.equals item other || members other

/-- Members after a `remove`. -/
def removeMember (members : K → Bool) (item : K) : K → Bool :=
  fun other => !ops.equals item other && members other

/-- The abstract set after a call. -/
def setMembers (members : K → Bool) : SetCall K → K → Bool
  | .new => fun _ => false
  | .fromList items => items.foldl (insertMember ops) fun _ => false
  | .insert _ item => insertMember ops members item
  | .remove item => removeMember ops members item
  | .emptyQ | .hasQ _ | .length | .next _ => members

theorem memberContents_insert (members : K → Bool) (item : K) :
    memberContents (insertMember ops members item) =
      putContents ops (memberContents members) item () := by
  funext other
  unfold memberContents insertMember putContents
  cases ops.equals item other <;> rfl

theorem memberContents_remove (members : K → Bool) (item : K) :
    memberContents (removeMember ops members item) =
      removeContents ops (memberContents members) item := by
  funext other
  unfold memberContents removeMember removeContents
  cases ops.equals item other <;> rfl

/-- What a call answers about the abstract set and the table it is made on. -/
def SetAnswer (members : K → Bool) (table : Table K Unit) : SetCall K → Answer Unit K → Prop
  | .emptyQ, answer => answer = .bool (entries table.buckets).isEmpty
  | .hasQ item, answer => answer = .bool (members item)
  | .length, answer => answer = .int (entries table.buckets).length
  | .fromList _, _ | .insert _ _, _ | .new, _ | .next _, _ | .remove _, _ => True

/-- The call returns, answers as the abstract set does, and leaves a table that is the abstract
set after it. -/
def SetCallRight (state : (K → Bool) × Table K Unit) (call : SetCall K) : Prop :=
  ∃ result answer, callSet ops state.2 call = some (result, answer) ∧
    SetAnswer state.1 state.2 call answer ∧
    FiniteSet ops (setMembers ops state.1 call) result

/-- A call of the table beside the abstract set. -/
def tracedSet (state : (K → Bool) × Table K Unit) (call : SetCall K) :
    Option (((K → Bool) × Table K Unit) × Answer Unit K) :=
  (callSet ops state.2 call).map fun returned =>
    ((setMembers ops state.1 call, returned.1), returned.2)

/-- A read's probe ends, and no tombstone hides the item of an insert. -/
def SetSafe (table : Table K Unit) : SetCall K → Prop
  | .hasQ item | .remove item => ReadEnds ops table item
  | .insert _ item => ¬ TombstoneAhead ops table item
  | .emptyQ | .fromList _ | .length | .new | .next _ => True

end

section SetCalls
variable {ops : KeyHashOps K} {state : (K → Bool) × Table K Unit} {call : SetCall K}

/-- `from_list` inserts into tables without tombstones. -/
theorem foldlM_setInsert_represents (lawful : Lawful ops) (items : List K)
    {table result : Table K Unit} (sound : Sound ops table) (clean : NoTombstone table.buckets)
    (represents : Represents ops (memberContents members) (entries table.buckets))
    (folded : items.foldlM (callSetInsertInline ops) table = some result) :
    Represents ops (memberContents (items.foldl (insertMember ops) members))
      (entries result.buckets) := by
  induction items generalizing table members with
  | nil =>
    cases folded
    exact represents
  | cons _ _ ih =>
    obtain ⟨next, first, folded⟩ := bind_eq_some_iff.mp folded
    unfold callSetInsertInline at first
    rw [setInsert_eq_mapPut] at first
    refine ih (mapPut_sound sound first) (mapPut_noTombstone sound clean first) ?_ folded
    rw [memberContents_insert, mapPut_represents_iff lawful sound represents first]
    exact clean.not_ahead

theorem setFromList_faithful (lawful : Lawful ops) (items : List K) :
    ∃ result, setFromList ops items = some result ∧
      Faithful ops (memberContents (items.foldl (insertMember ops) fun _ => false), result) := by
  obtain ⟨result, built, sound, _⟩ := setFromList_returns ops items
  refine ⟨result, built, sound, ?_⟩
  exact foldlM_setInsert_represents lawful items (sound_emptyTable ops)
    (noTombstone_replicate_empty _) (@faithful_empty K Unit ops).2 built

section AsMap
variable {onMap : MapCall K Unit}

theorem setSafe_iff (asMap : mapCallOf call = some onMap) {table : Table K Unit} :
    SetSafe ops table call ↔ MapSafe ops table onMap := by
  cases call <;> cases asMap <;> exact Iff.rfl

theorem memberContents_setMembers (asMap : mapCallOf call = some onMap) :
    memberContents (setMembers ops members call) =
    mapContents ops (memberContents members) onMap := by
  cases call <;> cases asMap
  case insert => exact memberContents_insert ops members _
  case remove => exact memberContents_remove ops members _
  all_goals rfl

theorem setAnswer_iff (asMap : mapCallOf call = some onMap) {table : Table K Unit}
    {answer : Answer Unit (K × Unit)} :
    SetAnswer members table call (itemAnswer answer) ↔
      MapAnswer (memberContents members) table onMap answer := by
  cases call <;> cases asMap <;> cases answer <;>
    simp [SetAnswer, MapAnswer, itemAnswer, isSome_memberContents]

end AsMap

/-- A safe call returns with the right answer, and the table stays the abstract set. -/
theorem SetSafe.right (lawful : Lawful ops)
    (faithful : Faithful ops (memberContents state.1, state.2)) (safe : SetSafe ops state.2 call) :
    ∃ result answer, callSet ops state.2 call = some (result, answer) ∧
      SetAnswer state.1 state.2 call answer ∧
      Faithful ops (memberContents (setMembers ops state.1 call), result) := by
  obtain ⟨items, rfl⟩ | ⟨onMap, asMap⟩ := mapCallOf_cases call
  · obtain ⟨result, built, kept⟩ := setFromList_faithful lawful items
    exact ⟨result, .collection, by simp only [callSet, built, map_some], trivial, kept⟩
  · obtain ⟨result, answer, called, answered, kept⟩ :=
      MapSafe.right lawful faithful ((setSafe_iff asMap).mp safe)
    rw [← memberContents_setMembers asMap] at kept
    refine ⟨result, itemAnswer answer, ?_, (setAnswer_iff asMap).mpr answered, kept⟩
    rw [callSet_eq asMap, called]
    rfl

/-- A call that returns and leaves the abstract set was safe. -/
theorem safe_of_setCallRight (lawful : Lawful ops)
    (faithful : Faithful ops (memberContents state.1, state.2))
    (right : SetCallRight ops state call) :
    SetSafe ops state.2 call := by
  obtain ⟨_, rfl⟩ | ⟨onMap, asMap⟩ := mapCallOf_cases call
  · trivial
  · obtain ⟨_, _, returned, answered, set⟩ := right
    rw [callSet_eq asMap, map_eq_some_iff] at returned
    obtain ⟨_, called, same⟩ := returned
    cases same
    have sound := (callMap_step called).sound faithful.1
    rw [finiteSet_iff lawful sound, memberContents_setMembers asMap] at set
    refine (setSafe_iff asMap).mpr (safe_of_mapCallRight lawful faithful ?_)
    exact ⟨_, _, called, (setAnswer_iff asMap).mp answered, (finiteMap_iff lawful sound).mpr set⟩

theorem setCallRight_iff (lawful : Lawful ops)
    (faithful : Faithful ops (memberContents state.1, state.2)) (call : SetCall K) :
    SetCallRight ops state call ↔ SetSafe ops state.2 call := by
  constructor
  · exact safe_of_setCallRight lawful faithful
  · intro safe
    obtain ⟨result, answer, returned, answered, kept⟩ := safe.right lawful faithful
    exact ⟨result, answer, returned, answered, (finiteSet_iff lawful kept.1).mpr kept.2⟩

theorem tracedSet_faithful (lawful : Lawful ops)
    (faithful : Faithful ops (memberContents state.1, state.2)) (safe : SetSafe ops state.2 call) :
    ∃ state' answer, tracedSet ops state call = some (state', answer) ∧
      Faithful ops (memberContents state'.1, state'.2) := by
  obtain ⟨_, _, called, _, kept⟩ := safe.right lawful faithful
  exact ⟨_, _, congrArg (Option.map _) called, kept⟩

end SetCalls

/-- Along every sequence of map calls, and of set calls, in either mode, every call is right
exactly if every call is safe. -/
theorem table_is_finite_map_iff {ops : KeyHashOps K} (lawful : Lawful ops)
    (mapCalls : List (MapCall K V)) (setCalls : List (SetCall K)) :
    (FiniteMap ops (fun _ => none) (emptyTable : Table K V) ∧
        Throughout (tracedMap ops) (MapCallRight ops) (fun _ => none, emptyTable) mapCalls ↔
      Throughout (callMap ops) (MapSafe ops) emptyTable mapCalls) ∧
    (FiniteSet ops (fun _ => false) emptyTable ∧
        Throughout (tracedSet ops) (SetCallRight ops) (fun _ => false, emptyTable) setCalls ↔
      Throughout (callSet ops) (SetSafe ops) emptyTable setCalls) := by
  constructor
  · have initially := @faithful_empty K V ops
    rw [and_iff_right ((finiteMap_iff lawful initially.1).mpr initially.2)]
    refine (throughout_iff (Faithful ops) ?_ ?_ initially).trans
      (throughout_along Prod.snd id fun _ _ => map_restored)
    · exact fun _ call faithful => mapCallRight_iff lawful faithful call
    · exact kept_of_returns fun _ _ faithful => tracedMap_faithful lawful faithful
  · have initially : Faithful ops (memberContents (fun _ : K => false), emptyTable) :=
      faithful_empty ops
    rw [and_iff_right ((finiteSet_iff lawful initially.1).mpr initially.2)]
    refine (throughout_iff (fun state => Faithful ops (memberContents state.1, state.2)) ?_ ?_
      initially).trans (throughout_along Prod.snd id fun _ _ => map_restored)
    · exact fun _ call faithful => setCallRight_iff lawful faithful call
    · exact kept_of_returns fun _ _ faithful => tracedSet_faithful lawful faithful

theorem intOps_lawful : Lawful intOps where
  refl a := beq_self_eq_true a
  symm _ _ equal := beq_iff_eq.mpr (eq_of_beq equal).symm
  trans _ _ _ ab bc := beq_iff_eq.mpr ((eq_of_beq ab).trans (eq_of_beq bc))
  hash _ _ equal := by rw [eq_of_beq equal]

/-- Keys 0 and 8 start at one slot; 8 is found past the tombstone of 0, which is then reused. -/
theorem reused_tombstone_right : Throughout (tracedMap intOps) (MapCallRight intOps)
      ((fun _ => none, emptyTable) : (BitVec 64 → Option Nat) × Table (BitVec 64) Nat)
      [.put .copying 0 1, .put .copying 8 2, .remove 0, .get 8, .put .copying 0 3, .get 0] :=
  ((table_is_finite_map_iff intOps_lawful _ []).1.mpr (by decide)).2

/-- Keys 0 and 8 start at one slot. Removing 0 leaves a tombstone ahead of 8, and the next
`put` of 8 stores it a second time: the length is 2 for one key, and `remove` leaves it there. -/
theorem put_after_remove_duplicates_key :
    ∃ table, [MapCall.put .copying 0 1, .put .copying 8 2, .remove 0, .put .copying 8 3].foldlM
        (fun table call => (callMap intOps table call).map Prod.fst)
        (emptyTable : Table (BitVec 64) Nat) = some table ∧
      table.length = 2 ∧ visited table = [(8, 3), (8, 2)] ∧
      (remove intOps table 8).bind (fun after => mapGet intOps after 8) = some (some 2) :=
  ⟨⟨[.occupied 8 3, .occupied 8 2, .empty, .empty, .empty, .empty, .empty, .empty], 2⟩,
    by decide, rfl, by decide, by decide⟩

end Koja.Guarantees.Collections
