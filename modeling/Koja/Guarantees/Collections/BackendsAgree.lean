import Koja.Guarantees.Collections.ListBackends
import Koja.Guarantees.Collections.MapCalls

/-!
# Collections under both backends

The interpreter keeps a map as a vector of entries and compares keys structurally; the native
table compares them with the key type's own `equals?`. Where the two comparisons agree on a call's
key against the keys in the table, and the native call is safe, both backends answer alike and
keep the same entries up to order.
-/
namespace Koja.Guarantees.Collections

open Koja.Lib Koja.Source.Ir Koja.Source List Option
open Koja.Source.Llvm (KeyHashOps Table Bucket bucketAt emptyTable)
open Eval (mapGet mapHasQ mapPut mapRemove setInsert)
open Answer (bool int)

variable {K V : Type}

/-- The key type's `equals?` and the structural equality agree on the key against each entry. -/
def ComparesAlike (ops : KeyHashOps K) (same : K → K → Bool) (listed : List (K × V)) (key : K) :
    Prop :=
  ∀ entry ∈ listed, same entry.1 key = ops.equals key entry.1

section Interpreter
variable {ops : KeyHashOps K} {same : K → K → Bool} {contents : K → Option V}
  {listed : List (K × V)} {key : K} {value : V}

theorem ComparesAlike.perm (alike : ComparesAlike ops same listed key) {other : List (K × V)}
    (moved : listed.Perm other) :
    ComparesAlike ops same other key :=
  fun entry present => alike entry (moved.symm.subset present)

theorem evalGet_right (alike : ComparesAlike ops same listed key)
    (represents : Represents ops contents listed) :
    mapGet same listed key = contents key := by
  unfold mapGet
  have values := represents key
  unfold valuesOf at values
  rw [← head?_filter, filter_congr alike, ← head?_map, values]
  cases contents key <;> rfl

theorem evalHasQ_right (alike : ComparesAlike ops same listed key)
    (represents : Represents ops contents listed) :
    mapHasQ same listed key = (contents key).isSome := by
  rw [← evalGet_right alike represents]
  unfold mapHasQ mapGet
  rw [Option.isSome_map, Bool.eq_iff_iff, List.any_eq_true, List.find?_isSome]

theorem Represents.entry_unique (represents : Represents ops contents listed)
    {entry other : K × V} (present : entry ∈ listed) (otherPresent : other ∈ listed)
    (equal : ops.equals key entry.1 = true) (otherEqual : ops.equals key other.1 = true) :
    entry = other := by
  classical
  have split := perm_cons_erase present
  by_contra apart
  have left : other ∈ listed.erase entry := (mem_erase_of_ne (Ne.symm apart)).mpr otherPresent
  have absent := (represents.perm split).absent_rest equal
  have different := absent other left
  rw [otherEqual] at different
  cases different

theorem evalPut_absent (alike : ComparesAlike ops same listed key)
    (absent : Absent ops listed key) :
    mapPut same listed key value = listed ++ [(key, value)] := by
  induction listed with
  | nil => rfl
  | cons entry _ ih =>
    have different : same entry.1 key = false := by
      rw [alike entry mem_cons_self]
      exact absent entry mem_cons_self
    unfold mapPut
    rw [different]
    exact congrArg (entry :: ·) (ih (fun e present => alike e (mem_cons_of_mem _ present))
      (fun e present => absent e (mem_cons_of_mem _ present)))

/-- The interpreter's `put` of a key that is there replaces the value of one entry. -/
theorem evalPut_present (alike : ComparesAlike ops same listed key)
    (present : ¬ Absent ops listed key) :
    ∃ existing old rest, ops.equals key existing = true ∧ listed.Perm ((existing, old) :: rest) ∧
      (mapPut same listed key value).Perm ((existing, value) :: rest) := by
  induction listed with
  | nil => exact absurd nofun present
  | cons entry rest ih =>
    unfold mapPut
    by_cases here : same entry.1 key = true
    · rw [if_pos here]
      refine ⟨entry.1, entry.2, rest, ?_, .refl _, .refl _⟩
      rw [← alike entry mem_cons_self]
      exact here
    · rw [if_neg here]
      have inRest : ¬ Absent ops rest key := by
        intro absent
        refine present (forall_mem_cons.mpr ⟨?_, absent⟩)
        rw [← alike entry mem_cons_self]
        simpa using here
      obtain ⟨existing, old, others, equal, before, after⟩ :=
        ih (fun e inside => alike e (mem_cons_of_mem _ inside)) inRest
      exact ⟨existing, old, entry :: others, equal,
        (before.cons entry).trans (.swap _ _ _), (after.cons entry).trans (.swap _ _ _)⟩

theorem evalRemove_absent (alike : ComparesAlike ops same listed key)
    (absent : Absent ops listed key) : mapRemove same listed key = listed := by
  refine eraseP_of_forall_not fun entry present => ?_
  rw [alike entry present, absent entry present]
  exact Bool.false_ne_true

/-- The interpreter's `remove` of a key that is there drops one entry. -/
theorem evalRemove_present (alike : ComparesAlike ops same listed key)
    (present : ¬ Absent ops listed key) :
    ∃ existing old, ops.equals key existing = true ∧
      listed.Perm ((existing, old) :: mapRemove same listed key) := by
  have held : ∃ entry ∈ listed, same entry.1 key = true := by
    by_contra unmatched
    refine present fun entry inside => ?_
    rw [← alike entry inside, ← Bool.not_eq_true]
    exact fun equal => unmatched ⟨entry, inside, equal⟩
  obtain ⟨entry, inside, equal⟩ := held
  obtain ⟨found, before, after, _, foundEqual, split, erased⟩ :=
    @exists_of_eraseP _ (fun entry => same entry.1 key) listed entry inside equal
  have foundInside : found ∈ listed := by
    rw [split]
    exact mem_append_right _ mem_cons_self
  refine ⟨found.1, found.2, ?_, ?_⟩
  · rw [← alike found foundInside]
    exact foundEqual
  · unfold mapRemove
    rw [erased]
    nth_rewrite 1 [split]
    exact perm_middle

end Interpreter

/-! ## One call in both backends -/

section Calls
variable {ops : KeyHashOps K} {same : K → K → Bool} {contents : K → Option V}
  {table result : Table K V} {listed : List (K × V)} {key : K} {value : V}

/-- Two ways to split one entry with the key off the same entries. -/
theorem rest_perm (represents : Represents ops contents listed) {existing found : K} {old held : V}
    {rest others : List (K × V)} (split : listed.Perm ((existing, old) :: rest))
    (foundSplit : listed.Perm ((found, held) :: others)) (equal : ops.equals key existing = true)
    (foundEqual : ops.equals key found = true) :
    existing = found ∧ rest.Perm others := by
  have one : ((existing, old) : K × V) = (found, held) :=
    represents.entry_unique (split.symm.subset mem_cons_self)
      (foundSplit.symm.subset mem_cons_self) equal foundEqual
  cases one
  exact ⟨rfl, (split.symm.trans foundSplit).cons_inv⟩

theorem not_absent_of_split {existing : K} {old : V} {rest : List (K × V)}
    (split : listed.Perm ((existing, old) :: rest)) (equal : ops.equals key existing = true) :
    ¬ Absent ops listed key := by
  intro absent
  have different := absent _ (split.symm.subset mem_cons_self)
  rw [equal] at different
  cases different

/-- A safe `put` adds an absent key's entry or replaces the value of the key's entry. -/
theorem mapPut_entries (lawful : Lawful ops) (sound : Sound ops table)
    (safe : ¬ TombstoneAhead ops table key) {mode : CallMode}
    (returned : Llvm.mapPut ops mode table key value = some result) :
    (Absent ops (entries table.buckets) key ∧
        (entries result.buckets).Perm ((key, value) :: entries table.buckets)) ∨
      ∃ existing old rest, ops.equals key existing = true ∧
        (entries table.buckets).Perm ((existing, old) :: rest) ∧
        (entries result.buckets).Perm ((existing, value) :: rest) := by
  obtain ⟨post, i, stop, overwrote | placed⟩ := mapPut_cases sound returned
  · exact .inr (overwrote.entries_perm stop)
  · exact .inl ⟨(placed.absent_iff lawful stop).mpr safe, placed.entries_perm stop⟩

theorem put_perm (lawful : Lawful ops) (sound : Sound ops table)
    (represents : Represents ops contents (entries table.buckets))
    (moved : (entries table.buckets).Perm listed)
    (alike : ComparesAlike ops same (entries table.buckets) key)
    (safe : ¬ TombstoneAhead ops table key) {mode : CallMode}
    (returned : Llvm.mapPut ops mode table key value = some result) :
    (entries result.buckets).Perm (mapPut same listed key value) := by
  have alikeListed := alike.perm moved
  obtain ⟨absent, added⟩ | ⟨existing, old, rest, equal, before, after⟩ :=
    mapPut_entries lawful sound safe returned
  · rw [evalPut_absent alikeListed fun entry present => absent entry (moved.symm.subset present)]
    exact (added.trans (moved.cons _)).trans (perm_append_singleton _ _).symm
  · have beforeListed := moved.symm.trans before
    obtain ⟨found, held, others, foundEqual, foundBefore, foundAfter⟩ :=
      @evalPut_present _ _ _ _ _ _ value alikeListed (not_absent_of_split beforeListed equal)
    obtain ⟨rfl, leftOver⟩ :=
      rest_perm (represents.perm moved) beforeListed foundBefore equal foundEqual
    exact (after.trans (leftOver.cons _)).trans foundAfter.symm

theorem remove_perm (lawful : Lawful ops) (sound : Sound ops table)
    (represents : Represents ops contents (entries table.buckets))
    (moved : (entries table.buckets).Perm listed)
    (alike : ComparesAlike ops same (entries table.buckets) key)
    (removed : Llvm.remove ops table key = some result) :
    (entries result.buckets).Perm (mapRemove same listed key) := by
  have alikeListed := alike.perm moved
  obtain ⟨existing, old, equal, split⟩ | ⟨absent, rfl⟩ :=
    remove_right lawful sound represents removed
  · have listedSplit := moved.symm.trans split
    obtain ⟨gone, held, goneEqual, goneSplit⟩ :=
      evalRemove_present alikeListed (not_absent_of_split listedSplit equal)
    exact (rest_perm (represents.perm moved) listedSplit goneSplit equal goneEqual).2
  · rw [evalRemove_absent alikeListed fun entry present => absent entry (moved.symm.subset present)]
    exact moved

end Calls

/-! ## Sequences of map calls -/

section
variable (ops : KeyHashOps K) (same : K → K → Bool) (state : Table K V × List (K × V))

/-- A call in both backends, side by side. -/
def pairedMap (call : MapCall K V) :
    Option ((Table K V × List (K × V)) × (Answer V (K × V) × Answer V (K × V))) :=
  (Llvm.callMap ops state.1 call).map fun native =>
    ((native.1, (Eval.callMap same state.2 call).1), (native.2, (Eval.callMap same state.2 call).2))

/-- Two answers that only differ in the order `next` walks in. -/
def AnswersAgree {W E : Type} : Answer W E → Answer W E → Prop
  | .next _, .next _ => True
  | native, interpreted => native = interpreted

/-- The native call returns, the answers agree, and the maps have the same entries. -/
def MapCallAgrees (call : MapCall K V) : Prop :=
  ∃ table answer, Llvm.callMap ops state.1 call = some (table, answer) ∧
    AnswersAgree answer (Eval.callMap same state.2 call).2 ∧
    (visited table).Perm (Eval.callMap same state.2 call).1

/-- The native call is safe, and both comparisons agree on its key. -/
def MapCallAlike (table : Table K V) (call : MapCall K V) : Prop :=
  MapSafe ops table call ∧ match call with
    | .get key | .hasQ key | .remove key | .put _ key _ =>
      ComparesAlike ops same (entries table.buckets) key
    | .emptyQ | .length | .new | .next _ => True

instance [DecidableEq K] [DecidableEq V] (table : Table K V) (call : MapCall K V) :
    Decidable (MapCallAlike ops same table call) := by
  unfold MapCallAlike ComparesAlike
  cases call <;> infer_instance

/-- A table that is some finite map, with the interpreter's entries. -/
def SameEntries : Prop :=
  ∃ contents, Faithful ops (contents, state.1) ∧ (entries state.1.buckets).Perm state.2

end

section MapRuns
variable {ops : KeyHashOps K} {same : K → K → Bool}

theorem sameEntries_empty : SameEntries ops ((emptyTable, []) : Table K V × List (K × V)) :=
  ⟨fun _ => none, faithful_empty ops, .refl _⟩

/-- One call: the answers agree and the entries stay the same. -/
theorem mapCall_step (lawful : Lawful ops) {state : Table K V × List (K × V)}
    (entriesSame : SameEntries ops state) {call : MapCall K V}
    (alike : MapCallAlike ops same state.1 call) :
    ∃ table answer, Llvm.callMap ops state.1 call = some (table, answer) ∧
      AnswersAgree answer (Eval.callMap same state.2 call).2 ∧
      SameEntries ops (table, (Eval.callMap same state.2 call).1) := by
  obtain ⟨table, listed⟩ := state
  obtain ⟨contents, faithful, moved⟩ := entriesSame
  obtain ⟨safe, compares⟩ := alike
  have sound := faithful.1
  have represents := faithful.2
  obtain ⟨result, answer, called, answered, kept⟩ :=
    MapSafe.right lawful faithful safe
  refine ⟨result, answer, called, ?_⟩
  cases call with
  | emptyQ =>
    cases called
    refine ⟨?_, contents, faithful, moved⟩
    rw [show bool _ = _ from answered]
    exact congrArg bool moved.isEmpty_eq
  | length =>
    cases called
    refine ⟨?_, contents, faithful, moved⟩
    rw [show int _ = _ from answered]
    exact congrArg (fun count : Nat => int count) moved.length_eq
  | new =>
    cases called
    exact ⟨rfl, sameEntries_empty⟩
  | next =>
    cases called
    exact ⟨trivial, contents, faithful, moved⟩
  | get key =>
    have right := evalGet_right (ComparesAlike.perm compares moved) (represents.perm moved)
    obtain rfl : answer = .value (contents key) := answered
    simp only [Llvm.callMap, map_eq_some_iff] at called
    obtain ⟨_, _, rfl, _⟩ := called
    exact ⟨congrArg Answer.value right.symm, contents, faithful, moved⟩
  | hasQ key =>
    have right := evalHasQ_right (ComparesAlike.perm compares moved) (represents.perm moved)
    obtain rfl : answer = .bool (contents key).isSome := answered
    simp only [Llvm.callMap, map_eq_some_iff] at called
    obtain ⟨_, _, rfl, _⟩ := called
    exact ⟨congrArg bool right.symm, contents, faithful, moved⟩
  | put =>
    simp only [Llvm.callMap, map_eq_some_iff] at called
    obtain ⟨_, put, rfl, rfl⟩ := called
    exact ⟨rfl, _, kept, put_perm lawful sound represents moved compares safe put⟩
  | remove =>
    simp only [Llvm.callMap, map_eq_some_iff] at called
    obtain ⟨_, removed, rfl, rfl⟩ := called
    exact ⟨rfl, _, kept, remove_perm lawful sound represents moved compares removed⟩

end MapRuns

/-! ## Sequences of set calls -/

section
variable (ops : KeyHashOps K) (same : K → K → Bool) (state : Table K Unit × List K)

/-- A call in both backends, side by side. -/
def pairedSet (call : SetCall K) :
    Option ((Table K Unit × List K) × (Answer Unit K × Answer Unit K)) :=
  (Llvm.callSet ops state.1 call).map fun native =>
    ((native.1, (Eval.callSet same state.2 call).1), (native.2, (Eval.callSet same state.2 call).2))

/-- The native call returns, the answers agree, and the sets have the same items. -/
def SetCallAgrees (call : SetCall K) : Prop :=
  ∃ table answer, Llvm.callSet ops state.1 call = some (table, answer) ∧
    AnswersAgree answer (Eval.callSet same state.2 call).2 ∧
    (visitedItems table).Perm (Eval.callSet same state.2 call).1

/-- The native call is safe, and both comparisons agree on its items. -/
def SetCallAlike (table : Table K Unit) (call : SetCall K) : Prop :=
  SetSafe ops table call ∧ match call with
    | .hasQ item | .remove item | .insert _ item =>
      ComparesAlike ops same (entries table.buckets) item
    | .fromList items => ∀ a ∈ items, ∀ b ∈ items, same a b = ops.equals b a
    | .emptyQ | .length | .new | .next _ => True

/-- An item as an entry. -/
def unitEntry (item : K) : K × Unit :=
  (item, ())

theorem map_fst_unitEntry (items : List K) : (items.map unitEntry).map Prod.fst = items := by
  rw [List.map_map]
  exact List.map_id' items

/-- A table that is some finite set, with the interpreter's items. -/
def SameItems : Prop :=
  ∃ members, Faithful ops (memberContents members, state.1) ∧
    (entries state.1.buckets).Perm (state.2.map unitEntry)

end

section SetRuns
variable {ops : KeyHashOps K} {same : K → K → Bool} (items : List K)

theorem evalSetHasQ_eq (item : K) :
    Eval.setHasQ same items item = mapHasQ same (items.map unitEntry) item := by
  unfold mapHasQ
  rw [List.any_map]
  rfl

theorem evalSetRemove_eq (item : K) :
    (Eval.setRemove same items item).map unitEntry =
      mapRemove same (items.map unitEntry) item := by
  unfold mapRemove
  rw [eraseP_map]
  rfl

theorem evalSetInsert_eq (item : K) :
    (setInsert same items item).map unitEntry =
      mapPut same (items.map unitEntry) item () := by
  induction items with
  | nil => rfl
  | cons first _ ih =>
    unfold setInsert Eval.setHasQ at ih ⊢
    rw [any_cons, map_cons]
    unfold mapPut
    by_cases here : same first item = true
    · rw [here, Bool.true_or, if_pos (show same (unitEntry first).1 item = true from
        here)]
      rfl
    · rw [Bool.not_eq_true] at here
      rw [here, Bool.false_or, if_neg (show ¬ same (unitEntry first).1 item = true by
        simpa [unitEntry] using here), ← ih]
      split <;> rfl

/-- A set with its items is a map to `Unit` with their entries. -/
theorem sameItems_iff {table : Table K Unit} {items : List K} :
    SameItems ops (table, items) ↔ SameEntries ops (table, items.map unitEntry) := by
  constructor
  · rintro ⟨members, held⟩
    exact ⟨memberContents members, held⟩
  · rintro ⟨contents, held⟩
    have members : memberContents (fun item => (contents item).isSome) = contents := by
      funext item
      cases found : contents item <;> simp [memberContents, found]
    exact ⟨_, by rw [members]; exact held⟩

theorem sameItems_empty : SameItems ops ((emptyTable, []) : Table K Unit × List K) :=
  sameItems_iff.mpr sameEntries_empty

theorem SameItems.visited_perm {state : Table K Unit × List K} (itemsSame : SameItems ops state) :
    (visitedItems state.1).Perm state.2 := by
  obtain ⟨_, _, moved⟩ := itemsSame
  rw [visitedItems_eq]
  have items := moved.map Prod.fst
  rw [map_fst_unitEntry] at items
  exact items

/-- `from_list` in both backends, over items that both comparisons agree on. -/
theorem foldlM_setInsert_perm (lawful : Lawful ops) {whole : List K}
    (alike : ∀ a ∈ whole, ∀ b ∈ whole, same a b = ops.equals b a) (items : List K)
    (within : items ⊆ whole) {members : K → Bool} {table result : Table K Unit} {listed : List K}
    (sound : Sound ops table) (clean : NoTombstone table.buckets)
    (represents : Represents ops (memberContents members) (entries table.buckets))
    (moved : (entries table.buckets).Perm (listed.map unitEntry)) (listedWithin : listed ⊆ whole)
    (folded : items.foldlM (Llvm.callSetInsertInline ops) table = some result) :
    (entries result.buckets).Perm ((items.foldl (setInsert same) listed).map unitEntry) := by
  induction items generalizing table members listed with
  | nil =>
    cases folded
    exact moved
  | cons item _ ih =>
    obtain ⟨next, first, folded⟩ := bind_eq_some_iff.mp folded
    unfold Llvm.callSetInsertInline at first
    rw [setInsert_eq_mapPut] at first
    have itemWithin : item ∈ whole := within mem_cons_self
    have safe : ¬ TombstoneAhead ops table item := clean.not_ahead
    have compares : ComparesAlike ops same (entries table.buckets) item := by
      intro entry present
      obtain ⟨existing, inside, rfl⟩ := mem_map.mp (moved.subset present)
      exact alike existing (listedWithin inside) item itemWithin
    have after := put_perm lawful sound represents moved compares safe first
    rw [← evalSetInsert_eq] at after
    have representsAfter := (mapPut_represents_iff lawful sound represents first).mpr safe
    rw [← memberContents_insert] at representsAfter
    refine ih (fun _ inside => within (mem_cons_of_mem _ inside))
      (mapPut_sound sound first) (mapPut_noTombstone sound clean first) representsAfter after ?_
      folded
    unfold setInsert
    split
    · exact listedWithin
    · exact append_subset.mpr ⟨listedWithin, cons_subset.mpr ⟨itemWithin, nil_subset _⟩⟩

section AsMap
variable {call : SetCall K} {onMap : MapCall K Unit}

theorem setCallAlike_iff (asMap : mapCallOf call = some onMap) {table : Table K Unit} :
    SetCallAlike ops same table call ↔ MapCallAlike ops same table onMap := by
  cases call <;> cases asMap <;> exact Iff.rfl

theorem evalCallSet_eq (asMap : mapCallOf call = some onMap) (items : List K) :
    (Eval.callSet same items call).1.map unitEntry =
    (Eval.callMap same (items.map unitEntry) onMap).1 := by
  cases call <;> cases asMap
  case insert => exact evalSetInsert_eq items _
  case remove => exact evalSetRemove_eq items _
  all_goals rfl

theorem AnswersAgree.item (asMap : mapCallOf call = some onMap) {items : List K}
    {answer : Answer Unit (K × Unit)}
    (agree : AnswersAgree answer (Eval.callMap same (items.map unitEntry) onMap).2) :
    AnswersAgree (itemAnswer answer) (Eval.callSet same items call).2 := by
  cases call <;> cases asMap <;> cases answer <;> cases agree <;>
    simp [AnswersAgree, itemAnswer, Eval.callSet, evalSetHasQ_eq]

end AsMap

/-- One call: the answers agree and the items stay the same. -/
theorem setCall_step (lawful : Lawful ops) {state : Table K Unit × List K}
    (itemsSame : SameItems ops state) {call : SetCall K}
    (alike : SetCallAlike ops same state.1 call) :
    ∃ table answer, Llvm.callSet ops state.1 call = some (table, answer) ∧
      AnswersAgree answer (Eval.callSet same state.2 call).2 ∧
      SameItems ops (table, (Eval.callSet same state.2 call).1) := by
  obtain ⟨listed, rfl⟩ | ⟨onMap, asMap⟩ := mapCallOf_cases call
  · obtain ⟨result, built, kept⟩ := setFromList_faithful lawful listed
    refine ⟨result, .collection, by simp only [Llvm.callSet, built, map_some], rfl, _, kept, ?_⟩
    exact foldlM_setInsert_perm lawful alike.2 listed (List.Subset.refl _)
      (sound_emptyTable ops) (noTombstone_replicate_empty _)
      (show Represents ops (memberContents fun _ => false) _ from (faithful_empty ops).2)
      (.refl _) (nil_subset _) built
  · obtain ⟨result, answer, called, agree, kept⟩ :=
      mapCall_step lawful (sameItems_iff.mp itemsSame) ((setCallAlike_iff asMap).mp alike)
    rw [← evalCallSet_eq asMap] at kept
    refine ⟨result, itemAnswer answer, ?_, agree.item asMap, sameItems_iff.mpr kept⟩
    rw [callSet_eq asMap, called]
    rfl

end SetRuns

/-! ## Both backends along a sequence -/

/-- Along every sequence of list calls on lists that fit in memory both backends agree exactly
if every slice's arguments clamp alike. Along every sequence of map calls, and of set calls, they
agree if every native call is safe and both key comparisons agree on what it compares. -/
theorem backends_agree {ops : KeyHashOps K} (lawful : Lawful ops) (same : K → K → Bool)
    (listCalls : List (ListCall V)) (mapCalls : List (MapCall K V)) (setCalls : List (SetCall K)) :
    (Throughout pairedList (fun state call => Fits state.2 ∧ ListCallAgrees state call)
        (Llvm.listNew, []) listCalls ↔
      Throughout pairedList (fun state call => Fits state.2 ∧ ListCallClamps state call)
        (Llvm.listNew, []) listCalls) ∧
    (Throughout (Llvm.callMap ops) (MapCallAlike ops same) emptyTable mapCalls →
      Throughout (pairedMap ops same) (MapCallAgrees ops same) (emptyTable, []) mapCalls) ∧
    (Throughout (Llvm.callSet ops) (SetCallAlike ops same) emptyTable setCalls →
      Throughout (pairedSet ops same) (SetCallAgrees ops same) (emptyTable, []) setCalls) := by
  refine ⟨?_, ?_, ?_⟩
  · refine throughout_iff (fun state => Holds state.1 state.2) ?_ ?_ holds_new
    · intro state call holds
      exact and_congr_right fun fits => listCallAgrees_iff holds fits call
    · refine kept_of_returns fun state call holds ⟨fits, clamps⟩ => ?_
      obtain ⟨_, _, called, _, holdsAfter⟩ := (listCallAgrees_iff holds fits call).mpr clamps
      exact ⟨_, _, congrArg (Option.map _) called, holdsAfter⟩
  · intro alike
    have paired : Throughout (pairedMap ops same)
        (fun state call => MapCallAlike ops same state.1 call) (emptyTable, []) mapCalls :=
      (throughout_along Prod.fst Prod.fst fun _ _ => map_restored).mpr alike
    refine Throughout.imp (SameEntries ops) ?_ ?_ sameEntries_empty paired
    · intro state call entriesSame callAlike
      obtain ⟨table, answer, called, answered, _, _, moved⟩ :=
        mapCall_step lawful entriesSame callAlike
      exact ⟨table, answer, called, answered, by rw [visited_eq]; exact moved⟩
    · refine kept_of_returns fun state call entriesSame callAlike => ?_
      obtain ⟨_, _, called, _, kept⟩ := mapCall_step lawful entriesSame callAlike
      exact ⟨_, _, congrArg (Option.map _) called, kept⟩
  · intro alike
    have paired : Throughout (pairedSet ops same)
        (fun state call => SetCallAlike ops same state.1 call) (emptyTable, []) setCalls :=
      (throughout_along Prod.fst Prod.fst fun _ _ => map_restored).mpr alike
    refine Throughout.imp (SameItems ops) ?_ ?_ sameItems_empty paired
    · intro state call itemsSame callAlike
      obtain ⟨table, answer, called, answered, kept⟩ := setCall_step lawful itemsSame callAlike
      exact ⟨table, answer, called, answered, kept.visited_perm⟩
    · refine kept_of_returns fun state call itemsSame callAlike => ?_
      obtain ⟨_, _, called, _, kept⟩ := setCall_step lawful itemsSame callAlike
      exact ⟨_, _, congrArg (Option.map _) called, kept⟩

/-- Calls on `Int` keys that meet in a slot, compared structurally by both backends. -/
theorem reused_tombstone_agrees :
    Throughout (pairedMap intOps fun a b => a == b) (MapCallAgrees intOps fun a b => a == b)
      ((emptyTable, []) : Table (BitVec 64) Nat × List (BitVec 64 × Nat))
      [.put .copying 0 1, .put .copying 8 2, .remove 0, .get 8, .put .copying 0 3, .get 0] :=
  (backends_agree intOps_lawful (fun a b => a == b) [] _ []).2.1 (by decide)

/-- Natural numbers compared and hashed by their last digit. -/
def lastDigitOps : KeyHashOps Nat :=
  { hash := fun key => BitVec.ofNat 64 (key % 10), equals := fun a b => a % 10 == b % 10 }

theorem lastDigitOps_lawful : Lawful lastDigitOps where
  refl a := beq_self_eq_true (a % 10)
  symm _ _ equal := beq_iff_eq.mpr (eq_of_beq equal).symm
  trans _ _ _ ab bc := beq_iff_eq.mpr ((eq_of_beq ab).trans (eq_of_beq bc))
  hash _ _ equal := congrArg (BitVec.ofNat 64) (eq_of_beq equal)

/-- A negative count takes the rest of a list natively and nothing in the interpreter, and a key
equal by its type's `equals?` alone is found natively and not in the interpreter. -/
theorem negative_count_and_custom_equality_differ :
    (∃ list, Llvm.callList (Llvm.literalList [1, 2, 3]) (.slice 0 (-1)) =
        some (list, .collection) ∧ Holds list [1, 2, 3]) ∧
    (Eval.callList [1, 2, 3] (.slice 0 (-1))).1 = ([] : List Nat) ∧
    Lawful lastDigitOps ∧
    (Llvm.mapPut lastDigitOps .copying emptyTable 1 7).bind
        (fun table => Llvm.mapGet lastDigitOps table 11) = some (some 7) ∧
    Eval.mapGet (fun a b => a == b) (Eval.mapPut (fun a b => a == b) [] 1 7) 11 =
      (none : Option Nat) :=
  ⟨⟨_, rfl, rfl, rfl⟩, by decide, lastDigitOps_lawful, by decide, by decide⟩

end Koja.Guarantees.Collections
