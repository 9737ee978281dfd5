import Mathlib.Algebra.Ring.Nat
import Mathlib.Data.List.Sort
import Mathlib.Data.List.Perm.Lattice
import Mathlib.Data.List.TakeWhile
import Koja.Lib.Runs
import Koja.Source.Runtime.TimerWheel

/-!
# The wheel is a sorted list of timers

`timer_wheel.rs` spreads the pending entries over buckets and an overflow map and leaves
its cursor behind on drains that find nothing due. What it stands for is the list of
pending entries in firing order; every operation is followed here on both.
-/
namespace Koja.Guarantees.Runtime.Wheel

open Koja.Lib Koja.Source.Runtime TimerWheel Function
open List hiding insert
open Option (map_eq_some_iff mem_toList some_injective any_some)

variable {M A : Type} {entry : WheelEntry M} {wheel after : TimerWheel M}
  {gone left : List (WheelEntry M)} {place : Option Nat} {token : TimerToken}
  {origin base now : Instant}

/-! ## The list of timers -/

/-- The pending entries in firing order, and the number of insertions so far. -/
structure TimerList (M : Type) where
  pending : List (WheelEntry M)
  seq : Nat

namespace TimerList

variable (timers : TimerList M)

def insert (fireAt : Instant) (pid : Pid) (kind : WheelKind M) :
    TimerList M :=
  ⟨timers.pending.orderedInsert (fun a b => a.before b) ⟨fireAt, kind, pid, timers.seq + 1⟩,
    timers.seq + 1⟩

def cancel (token : TimerToken) : TimerList M :=
  { timers with pending := timers.pending.filter (¬ ·.seq = token.seq) }

def due (now : Instant) : List (WheelEntry M) :=
  timers.pending.filter (·.fireAt ≤ now)

def drain (now : Instant) : TimerList M :=
  { timers with pending := timers.pending.filter (¬ ·.fireAt ≤ now) }

end TimerList

/-! ## Runs of the operations -/

/-- A wheel and its list of timers after the same operations: the tokens returned so far,
the first instant inserted, and the instant of the last drain. -/
structure Served (M : Type) where
  wheel : TimerWheel M
  timers : TimerList M
  tokens : List TimerToken
  first : Option Instant
  clock : Instant

namespace Served

def init : Served M := ⟨.new, ⟨[], 0⟩, [], none, 0⟩

variable (s : Served M)

/-- The instants a drain may name: they never decrease and stay within `2^64` nanoseconds
of the first instant inserted. -/
def Admits (now : Instant) : Prop :=
  s.clock ≤ now ∧ ∀ first ∈ s.first, now < first + 2 ^ 64

def insert (fireAt : Instant) (pid : Pid) (kind : WheelKind M)
    (tokens : List TimerToken) : Served M :=
  { s with
    wheel := (s.wheel.insert fireAt pid kind).2
    timers := s.timers.insert fireAt pid kind
    tokens := tokens
    first := s.first.or (some fireAt) }

def cancel (token : TimerToken) : Served M :=
  { s with wheel := s.wheel.cancel token, timers := s.timers.cancel token }

def drain (now : Instant) : Served M :=
  { s with
    wheel := (s.wheel.drainDue now).2
    timers := s.timers.drain now
    clock := now }

end Served

inductive WheelOp (M : Type) where
  | insertDeliver (fireAt : Instant) (targetPid : Pid) (envelope : M)
  | insertDeadline (fireAt : Instant) (pid : Pid)
  | cancel (token : TimerToken)
  | drainDue (now : Instant)

/-- The token of a delayed delivery is dropped; a cancel names any token ever returned. The
sequence counter does not wrap: there are fewer than `2^64` insertions. -/
inductive Serve : Served M → WheelOp M → Served M → Prop
  | insertDeliver {s : Served M} (fireAt : Instant) (targetPid : Pid) (envelope : M)
      (room : s.timers.seq + 1 < 2 ^ 64) :
      Serve s (.insertDeliver fireAt targetPid envelope)
        (s.insert fireAt targetPid (.deliver envelope) s.tokens)
  | insertDeadline {s : Served M} (fireAt : Instant) (pid : Pid)
      (room : s.timers.seq + 1 < 2 ^ 64) :
      Serve s (.insertDeadline fireAt pid)
        (s.insert fireAt pid .promote ((s.wheel.insertDeadline fireAt pid).1 :: s.tokens))
  | cancel {s : Served M} {token : TimerToken} (returned : token ∈ s.tokens) :
      Serve s (.cancel token) (s.cancel token)
  | drainDue {s : Served M} {now : Instant} (admitted : s.Admits now) :
      Serve s (.drainDue now) (s.drain now)

/-! ## Lists cut in two -/

/-- A list that is a permutation of two parts told apart by a test. -/
theorem filter_parts {whole part rest : List A} {test : A → Prop} [DecidablePred test]
    (perm : whole.Perm (part ++ rest)) (yes : ∀ a ∈ part, test a) (no : ∀ a ∈ rest, ¬ test a) :
    (whole.filter (test ·)).Perm part ∧ (whole.filter (¬ test ·)).Perm rest := by
  have taken := perm.filter (test ·)
  have left := perm.filter (¬ test ·)
  rw [filter_append] at taken left
  have all : part.filter (test ·) = part := filter_eq_self.mpr (by simpa using yes)
  have noneKept : rest.filter (test ·) = [] := filter_eq_nil_iff.mpr (by simpa using no)
  have gone : part.filter (¬ test ·) = [] := filter_eq_nil_iff.mpr (by simpa using yes)
  have stays : rest.filter (¬ test ·) = rest := filter_eq_self.mpr (by simpa using no)
  rw [all, noneKept, append_nil] at taken
  rw [gone, stays] at left
  exact ⟨taken, left⟩

/-- Changing one bucket changes the entries of all of them by that bucket. -/
theorem flatMap_update_perm {K : Type} [DecidableEq K] {keys : List K} (distinct : keys.Nodup)
    {buckets : K → List A} {key : K} (member : key ∈ keys) : ∃ rest, ∀ bucket,
      (keys.flatMap (update buckets key bucket)).Perm (bucket ++ rest) := by
  refine ⟨(keys.erase key).flatMap buckets, fun bucket => ?_⟩
  refine ((perm_cons_erase member).flatMap_right _).trans ?_
  rw [flatMap_cons, update_self]
  refine List.Perm.append_left _ (List.Perm.of_eq (flatMap_congr ?_))
  intro other kept
  exact update_of_ne (distinct.mem_erase_iff.mp kept).1 _ _

/-! ## The order of firing -/

/-- In firing order. -/
def InOrder (list : List (WheelEntry M)) : Prop := list.Pairwise (fun a b => a.before b = true)

theorem before_iff {other : WheelEntry M} :
    entry.before other = true ↔
      entry.fireAt < other.fireAt ∨ entry.fireAt = other.fireAt ∧ entry.seq ≤ other.seq := by
  simp [WheelEntry.before]

theorem before_trans (a b c : WheelEntry M) (first : a.before b = true)
    (second : b.before c = true) : a.before c = true := by
  rw [before_iff] at *
  unfold Instant at *
  omega

theorem before_total (a b : WheelEntry M) : (a.before b || b.before a) = true := by
  rw [Bool.or_eq_true, before_iff, before_iff]
  unfold Instant
  omega

instance : IsTrans (WheelEntry M) (fun a b => a.before b = true) := ⟨before_trans⟩

instance : Std.Total (fun a b : WheelEntry M => a.before b = true) :=
  ⟨fun a b => (Bool.or_eq_true _ _).mp (before_total a b)⟩

/-- The head of a list in firing order fires first. -/
theorem InOrder.head_le {first : WheelEntry M} {rest : List (WheelEntry M)}
    (sorted : InOrder (first :: rest)) : ∀ entry ∈ first :: rest, first.fireAt ≤ entry.fireAt := by
  intro entry member
  rcases mem_cons.mp member with rfl | later
  · exact Nat.le_refl _
  · have ahead := before_iff.mp ((pairwise_cons.mp sorted).1 entry later)
    unfold Instant at *
    omega

variable {timers : List (WheelEntry M)}

theorem InOrder.head_bound (sorted : InOrder timers) (member : entry ∈ timers) :
    ∃ bound, timers.head?.map (·.fireAt) = some bound ∧ bound ≤ entry.fireAt := by
  cases timers with
  | nil => cases member
  | cons first => exact ⟨first.fireAt, rfl, sorted.head_le entry member⟩

/-- Past the due entries of the overflow map there is none left. -/
theorem InOrder.dropWhile_late (now : Instant) {overflow : List (WheelEntry M)}
    (sorted : InOrder overflow) :
    ∀ entry ∈ overflow.dropWhile (·.fireAt ≤ now), ¬ entry.fireAt ≤ now := by
  induction overflow with
  | nil => simp
  | cons head rest ih =>
    intro entry member
    by_cases due : head.fireAt ≤ now
    · rw [dropWhile_cons_of_pos (by simpa using due)] at member
      exact ih (pairwise_cons.mp sorted).2 entry member
    · rw [dropWhile_cons_of_neg (by simpa using due)] at member
      exact fun past => due ((sorted.head_le entry member).trans past)

/-! ## What the wheel holds -/

/-- The entries of one place: a bucket, or the overflow map. -/
def stored (wheel : TimerWheel M) : Option Nat → List (WheelEntry M)
  | none => wheel.overflow
  | some index => wheel.slots index

def places : List (Option Nat) := none :: (range wheelSlots).map some

/-- Every pending entry. -/
def entries (wheel : TimerWheel M) : List (WheelEntry M) := places.flatMap (stored wheel)

/-- A bucket that holds an entry has its occupancy bit set. -/
def Marked (wheel : TimerWheel M) : Prop :=
  ∀ index, wheel.slots index ≠ [] → wheel.occupied index = true

theorem mem_places {place : Option Nat} : place ∈ places ↔ ∀ index ∈ place, index < wheelSlots := by
  cases place <;> simp [places]

theorem mem_entries : entry ∈ entries wheel ↔ ∃ place ∈ places, entry ∈ stored wheel place :=
  mem_flatMap

theorem stored_slots (wheel : TimerWheel M) (index : Nat) (bucket : List (WheelEntry M)) :
    stored { wheel with slots := update wheel.slots index bucket } =
      update (stored wheel) (some index) bucket := by
  funext place
  cases place <;> simp [stored, update_apply]

theorem stored_overflow (wheel : TimerWheel M) (overflow : List (WheelEntry M)) :
    stored { wheel with overflow := overflow } = update (stored wheel) none overflow := by
  funext place
  cases place <;> simp [stored]

/-- Cutting some entries out of one place cuts them out of the wheel. -/
theorem entries_cut (member : place ∈ places) (cut : (stored wheel place).Perm (gone ++ left))
    (written : stored after = update (stored wheel) place left) :
    (entries wheel).Perm (gone ++ entries after) := by
  have distinct : places.Nodup :=
    nodup_cons.mpr ⟨by simp, nodup_range.map (some_injective _)⟩
  obtain ⟨rest, split⟩ := flatMap_update_perm distinct member
  have whole := split (stored wheel place)
  rw [update_eq_self] at whole
  calc (entries wheel).Perm (stored wheel place ++ rest) := whole
    _ |>.Perm (gone ++ (left ++ rest)) := by
      rw [← append_assoc]
      exact cut.append_right rest
    _ |>.Perm (gone ++ entries after) := by
      rw [entries, written]
      exact (split left).symm.append_left gone

theorem mem_written {bucket : List (WheelEntry M)} {other : Option Nat}
    (written : stored after = update (stored wheel) place bucket)
    (member : entry ∈ stored after other) :
    entry ∈ stored wheel other ∨ other = place ∧ entry ∈ bucket := by
  rw [written] at member
  by_cases same : other = place
  · rw [same, update_self] at member
    exact .inr ⟨same, member⟩
  · rw [update_of_ne same] at member
    exact .inl member

/-- What a removal of the entries `gone` leaves of a wheel. -/
structure Thinned (wheel : TimerWheel M) (gone : List (WheelEntry M)) (after : TimerWheel M) :
    Prop where
  shape : ∃ occupied overflow slots,
    after = { wheel with occupied := occupied, overflow := overflow, slots := slots }
  parts : (entries wheel).Perm (gone ++ entries after)
  kept : ∀ place, stored after place ⊆ stored wheel place
  overflow : after.overflow.Sublist wheel.overflow
  marked : Marked wheel → Marked after

theorem Thinned.trans {middle : TimerWheel M} {later : List (WheelEntry M)}
    (first : Thinned wheel gone middle) (second : Thinned middle later after) :
    Thinned wheel (gone ++ later) after where
  shape := by
    obtain ⟨_, _, _, rfl⟩ := first.shape
    exact second.shape
  parts := by
    rw [append_assoc]
    exact first.parts.trans (second.parts.append_left gone)
  kept := fun place => List.Subset.trans (second.kept place) (first.kept place)
  overflow := second.overflow.trans first.overflow
  marked := fun marked => second.marked (first.marked marked)

theorem thinned_kept (cut : (stored wheel place).Perm (gone ++ left))
    (written : stored after = update (stored wheel) place left) (other : Option Nat) :
    stored after other ⊆ stored wheel other := by
  intro entry member
  rcases mem_written written member with old | ⟨rfl, stays⟩
  · exact old
  · exact cut.mem_iff.mpr (mem_append_right _ stays)

theorem thinned_overflow (cut : wheel.overflow.Perm (gone ++ left))
    (sublist : left.Sublist wheel.overflow) :
    Thinned wheel gone { wheel with overflow := left } := by
  have written := stored_overflow wheel left
  have here : (stored wheel none).Perm (gone ++ left) := cut
  exact ⟨⟨_, _, _, rfl⟩, entries_cut (mem_cons_self ..) here written,
    thinned_kept here written, sublist, id⟩

theorem release_slots (wheel : TimerWheel M) (index : Nat) :
    (wheel.releaseBucketIfEmpty index).slots = wheel.slots := by
  unfold releaseBucketIfEmpty
  split <;> rfl

/-- A bucket that loses some entries is released if nothing is left. -/
theorem thinned_bucket {index : Nat} (inRange : index < wheelSlots)
    (cut : (wheel.slots index).Perm (gone ++ left)) :
    Thinned wheel gone (releaseBucketIfEmpty
      { wheel with slots := update wheel.slots index left } index) := by
  have written := stored_slots wheel index left
  have here : (stored wheel (some index)).Perm (gone ++ left) := cut
  have parts := entries_cut (mem_places.mpr (by simpa using inRange)) here written
  have kept := thinned_kept here written
  have filled : Marked wheel → ∀ i, update wheel.slots index left i ≠ [] →
      wheel.occupied i = true := by
    intro marked i filled
    refine marked i fun empty => filled (subset_nil.mp ?_)
    rw [← empty]
    exact kept (some i)
  unfold releaseBucketIfEmpty
  split
  · next empty =>
    refine ⟨⟨_, _, _, rfl⟩, parts, kept, .refl _, ?_⟩
    intro marked i stored
    have apart : i ≠ index := by
      rintro rfl
      exact stored (isEmpty_iff.mp empty)
    dsimp only
    rw [update_of_ne apart]
    exact filled marked i stored
  · exact ⟨⟨_, _, _, rfl⟩, parts, kept, .refl _, filled⟩

/-! ## Drains -/

/-- The scan of some ticks only removes entries, and leaves none that is due in their
buckets. -/
theorem drainTicks_thinned (now : Instant) (ticks : List Nat) (wheel : TimerWheel M) :
    Thinned wheel (drainTicks now ticks wheel).1 (drainTicks now ticks wheel).2 ∧
      ∀ tick ∈ ticks, ∀ entry ∈ (drainTicks now ticks wheel).2.slots
        (tick % wheelSlots), ¬ entry.fireAt ≤ now := by
  induction ticks generalizing wheel with
  | nil => exact ⟨⟨⟨_, _, _, rfl⟩, .rfl, fun _ _ => id, .refl _, id⟩, nofun⟩
  | cons tick _ ih =>
    obtain ⟨taken, stays⟩ := drainBucket_perm now [] (wheel.slots (tick % wheelSlots))
    have late : ∀ entry ∈ (drainBucket now [] (wheel.slots (tick % wheelSlots))).2,
        ¬ entry.fireAt ≤ now :=
      fun entry member => by simpa using of_mem_filter (stays.mem_iff.mp member)
    simp only [decide_not] at stays
    have cut := (taken.append stays).trans (filter_append_perm _ _)
    have here := thinned_bucket (Nat.mod_lt tick (by decide)) cut.symm
    obtain ⟨rest, later⟩ := ih _
    refine ⟨here.trans rest, ?_⟩
    intro one member entry stored
    rcases mem_cons.mp member with rfl | other
    · have left := rest.kept (some _) stored
      simp only [Wheel.stored, release_slots, update_self] at left
      exact late entry left
    · exact later one other entry stored

/-! ## The nearest instant -/

theorem foldl_nearest (bucketed : List (WheelEntry M)) (best : Option Instant) :
    bucketed.foldl (fun best entry => some (best.elim entry.fireAt (min · entry.fireAt))) best =
      (best.toList ++ bucketed.map (·.fireAt)).min? := by
  induction bucketed generalizing best with
  | nil => cases best <;> rfl
  | cons entry rest ih =>
    rw [foldl_cons, ih]
    cases best <;> rfl

/-- The nearest instant is that of the first of the entries in firing order. -/
theorem nearest_of_sorted (parked : InOrder wheel.overflow) (marked : Marked wheel)
    (held : (entries wheel).Perm timers) (sorted : InOrder timers) :
    wheel.nearest = timers.head?.map (·.fireAt) := by
  unfold nearest
  rw [foldl_nearest]
  generalize seen : (wheel.overflow.head?.map (·.fireAt)).toList ++ map (·.fireAt)
    (((range wheelSlots).filter wheel.occupied).flatMap wheel.slots) = instants
  have pending : ∀ found ∈ instants, ∃ entry ∈ timers, entry.fireAt = found := by
    intro found member
    rw [← seen] at member
    rcases mem_append.mp member with parked | bucketed
    · obtain ⟨entry, first, rfl⟩ := map_eq_some_iff.mp (mem_toList.mp parked)
      exact ⟨entry, held.mem_iff.mp (mem_entries.mpr
        ⟨none, mem_cons_self .., mem_of_head? first⟩), rfl⟩
    · obtain ⟨entry, stored, rfl⟩ := mem_map.mp bucketed
      simp only [mem_flatMap, mem_filter] at stored
      obtain ⟨index, ⟨inRange, -⟩, bucketed⟩ := stored
      exact ⟨entry, held.mem_iff.mp (mem_entries.mpr
        ⟨some index, mem_places.mpr (by simpa using inRange), bucketed⟩), rfl⟩
  cases timers with
  | nil =>
    have noInstants : instants = [] := eq_nil_iff_forall_not_mem.mpr fun found member => by
      obtain ⟨_, absent, -⟩ := pending found member
      cases absent
    rw [noInstants]
    rfl
  | cons first rest =>
    have least : ∀ found ∈ instants, first.fireAt ≤ found := by
      intro found member
      obtain ⟨entry, among, rfl⟩ := pending found member
      exact sorted.head_le entry among
    have bounded : ∃ found ∈ instants, found ≤ first.fireAt := by
      rw [← seen]
      obtain ⟨place, known, held⟩ := mem_entries.mp (held.mem_iff.mpr (mem_cons_self ..))
      cases place with
      | none =>
        obtain ⟨bound, head, earlier⟩ := parked.head_bound held
        exact ⟨bound, by simp [head], earlier⟩
      | some index =>
        have inRange := mem_range.mpr (mem_places.mp known index rfl)
        have filled := marked index (ne_nil_of_mem held)
        exact ⟨first.fireAt, mem_append_right _ (mem_map_of_mem (mem_flatMap.mpr
          ⟨index, mem_filter.mpr ⟨inRange, filled⟩, held⟩)), Nat.le_refl _⟩
    obtain ⟨found, among, earlier⟩ := bounded
    obtain rfl : found = first.fireAt := Nat.le_antisymm earlier (least found among)
    exact min?_eq_some_iff.mpr ⟨among, least⟩

/-! ## The wheel stands for its list -/

/-- Where an entry of the given tick is kept while the cursor is at `cursor`. -/
def InBucket (cursor index tick : Nat) : Prop :=
  max tick cursor < cursor + wheelSlots ∧ index = max tick cursor % wheelSlots

/-- Every bucketed entry that a drain can reach is where its tick puts it. -/
def Placed (wheel : TimerWheel M) (first : Option Instant) : Prop :=
  ∀ base ∈ first, ∀ index, ∀ entry ∈ wheel.slots index, entry.fireAt - base < 2 ^ 64 →
    InBucket wheel.cursorTick index (tickOf base entry.fireAt)

/-- A token names the place of its entry, for as long as the entry is pending. -/
structure Names (wheel : TimerWheel M) (token : TimerToken) : Prop where
  known : token.slot ∈ places
  found : ∀ place ∈ places, ∀ entry ∈ stored wheel place, entry.seq = token.seq →
    place = token.slot ∧ entry.fireAt = token.fireAt

structure Stands (s : Served M) : Prop where
  fresh : s.first = none → s.wheel = .new
  base : s.wheel.base = s.first
  seq : s.wheel.seq = s.timers.seq
  held : (entries s.wheel).Perm s.timers.pending
  sorted : InOrder s.timers.pending
  distinct : (s.timers.pending.map (·.seq)).Nodup
  numbered : ∀ entry ∈ s.timers.pending, entry.seq ≤ s.timers.seq
  parked : InOrder s.wheel.overflow
  marked : Marked s.wheel
  count : s.wheel.pending = s.timers.pending.length
  soonest : ∀ entry ∈ s.timers.pending, ∃ bound, s.wheel.soonest = some bound ∧ bound ≤ entry.fireAt
  placed : Placed s.wheel s.first
  cursor : ∀ base ∈ s.first, s.wheel.cursorTick ≤ tickOf base s.clock
  tokens : ∀ token ∈ s.tokens, token.seq ≤ s.timers.seq ∧ Names s.wheel token

theorem entries_new : entries (.new : TimerWheel M) = [] := by
  simp [entries, places, stored, new]

theorem stands_init : Stands (Served.init : Served M) where
  fresh := fun _ => rfl
  base := rfl
  seq := rfl
  held := .of_eq entries_new
  sorted := .nil
  distinct := .nil
  numbered := nofun
  parked := .nil
  marked := fun _ filled => absurd rfl filled
  count := rfl
  soonest := nofun
  placed := nofun
  cursor := nofun
  tokens := nofun

/-! ### Insertion -/

/-- What an insertion adds: one entry, in the place its token names. -/
structure Added (wheel : TimerWheel M) (origin : Instant) (entry : WheelEntry M)
    (token : TimerToken) (after : TimerWheel M) : Prop where
  names : token.fireAt = entry.fireAt ∧ token.seq = entry.seq
  known : token.slot ∈ places
  based : after.base = some origin
  cursor : after.cursorTick = wheel.cursorTick
  count : after.pending = wheel.pending + 1
  seq : after.seq = wheel.seq + 1
  soonest : after.soonest = some (wheel.soonest.elim entry.fireAt (min · entry.fireAt))
  written : ∃ bucket, bucket.Perm ([entry] ++ stored wheel token.slot) ∧
    stored after = update (stored wheel) token.slot bucket
  parked : InOrder wheel.overflow → InOrder after.overflow
  bucket : ∀ index ∈ token.slot, InBucket wheel.cursorTick index (tickOf origin entry.fireAt)
  marked : Marked wheel → Marked after

theorem insert_added {first : Option Instant} (base : wheel.base = first)
    (fresh : first = none → wheel = .new) (room : wheel.seq + 1 < 2 ^ 64) (fireAt : Instant)
    (pid : Pid) (kind : WheelKind M) :
    Added wheel (first.getD fireAt) ⟨fireAt, kind, pid, wheel.seq + 1⟩
      (wheel.insert fireAt pid kind).1 (wheel.insert fireAt pid kind).2 := by
  have ensured : wheel.ensureBase fireAt =
      (first.getD fireAt, { wheel with base := some (first.getD fireAt) }) := by
    cases first with
    | none => rw [fresh rfl]; rfl
    | some =>
      obtain ⟨⟩ := wheel
      cases base
      rfl
  unfold TimerWheel.insert
  rw [ensured]
  dsimp only
  rw [Nat.mod_eq_of_lt room]
  split
  · next near =>
    have inRange : max (tickOf (first.getD fireAt) fireAt) wheel.cursorTick % wheelSlots <
      wheelSlots := Nat.mod_lt _ (by decide)
    have here : InBucket wheel.cursorTick _ (tickOf (first.getD fireAt) fireAt) := ⟨near, rfl⟩
    generalize max (tickOf (first.getD fireAt) fireAt) wheel.cursorTick % wheelSlots = slot at *
    refine ⟨⟨rfl, rfl⟩, mem_places.mpr (by simpa using inRange), rfl, rfl, rfl, rfl, rfl,
      ⟨_, perm_append_comm, stored_slots wheel slot _⟩, id, by simpa using here, ?_⟩
    intro marked index filled
    dsimp only at filled ⊢
    by_cases same : index = slot
    · rw [same, update_self]
    · rw [update_of_ne same] at filled ⊢
      exact marked index filled
  · exact ⟨⟨rfl, rfl⟩, mem_cons_self .., rfl, rfl, rfl, rfl, rfl,
      ⟨_, perm_orderedInsert _ _ _, stored_overflow wheel _⟩, .orderedInsert _ _, nofun, id⟩

theorem Added.held (added : Added wheel origin entry token after) :
    (entries after).Perm (entry :: entries wheel) := by
  obtain ⟨bucket, perm, written⟩ := added.written
  refine entries_cut added.known (by rwa [written, update_self]) ?_
  rw [written, update_idem, update_eq_self]

theorem Added.mem (added : Added wheel origin entry token after) {other : WheelEntry M}
    (member : other ∈ stored after place) :
    other ∈ stored wheel place ∨ place = token.slot ∧ other = entry := by
  obtain ⟨bucket, perm, written⟩ := added.written
  rcases mem_written written member with old | ⟨rfl, new⟩
  · exact .inl old
  · exact (mem_cons.mp (perm.mem_iff.mp new)).symm.imp id fun new => ⟨rfl, new⟩

/-- The tokens of earlier entries keep naming them, and the new token names the new entry. -/
theorem Added.named (added : Added wheel origin entry token after)
    (later : ∀ old ∈ entries wheel, old.seq < entry.seq) {earlier : TimerToken}
    (returned : earlier.seq < entry.seq ∧ Names wheel earlier ∨ earlier = token) :
    Names after earlier := by
  rcases returned with ⟨older, names⟩ | rfl
  · refine ⟨names.known, fun place known other member same => ?_⟩
    rcases added.mem member with old | ⟨-, rfl⟩
    · exact names.found place known other old same
    · exact absurd (same ▸ older) (Nat.lt_irrefl _)
  · refine ⟨added.known, fun place known other member same => ?_⟩
    rcases added.mem member with old | ⟨named, rfl⟩
    · have older := later other (mem_entries.mpr ⟨place, known, old⟩)
      exact absurd (added.names.2 ▸ same ▸ older) (Nat.lt_irrefl _)
    · exact ⟨named, added.names.1.symm⟩

variable {s : Served M}

theorem Stands.insert (stands : Stands s) (room : s.timers.seq + 1 < 2 ^ 64) (fireAt : Instant)
    (pid : Pid) (kind : WheelKind M) {tokens : List TimerToken}
    (returned : ∀ token ∈ tokens, token ∈ s.tokens ∨ token = (s.wheel.insert fireAt pid kind).1) :
    Stands (s.insert fireAt pid kind tokens) := by
  have added := insert_added stands.base stands.fresh (stands.seq ▸ room) fireAt pid kind
  have based : s.first.or (some fireAt) = some (s.first.getD fireAt) := by
    cases s.first <;> rfl
  have perm := perm_orderedInsert (fun a b => a.before b)
    (⟨fireAt, kind, pid, s.timers.seq + 1⟩ : WheelEntry M) s.timers.pending
  rw [stands.seq] at added
  have older : ∀ old ∈ entries s.wheel, old.seq < s.timers.seq + 1 :=
    fun old held => Nat.lt_succ_of_le (stands.numbered old (stands.held.mem_iff.mp held))
  refine ⟨?_, added.based.trans based.symm, ?_,
    added.held.trans ((stands.held.cons _).trans perm.symm), stands.sorted.orderedInsert _ _,
    ?_, ?_, added.parked stands.parked, added.marked stands.marked, ?_, ?_, ?_, ?_, ?_⟩
  · intro none
    cases based.symm.trans none
  · exact added.seq.trans (congrArg (· + 1) stands.seq)
  · refine (perm.map _).nodup_iff.mpr (nodup_cons.mpr ⟨?_, stands.distinct⟩)
    intro member
    obtain ⟨entry, pending, same⟩ := mem_map.mp member
    exact absurd (same ▸ stands.numbered entry pending) (Nat.not_succ_le_self _)
  · intro entry member
    rcases mem_cons.mp (perm.mem_iff.mp member) with rfl | pending
    · exact Nat.le_refl _
    · exact Nat.le_succ_of_le (stands.numbered entry pending)
  · exact added.count.trans ((congrArg (· + 1) stands.count).trans perm.length_eq.symm)
  · intro entry member
    refine ⟨_, added.soonest, ?_⟩
    rcases mem_cons.mp (perm.mem_iff.mp member) with rfl | pending
    · cases s.wheel.soonest with
      | none => exact Nat.le_refl _
      | some => exact Nat.min_le_right _ _
    · obtain ⟨bound, known, earlier⟩ := stands.soonest entry pending
      rw [known]
      exact (Nat.min_le_left _ _).trans earlier
  · intro base known index entry held near
    obtain rfl : s.first.getD fireAt = base := Option.some.inj (based.symm.trans known)
    change InBucket (s.wheel.insert fireAt pid kind).2.cursorTick _ _
    rw [added.cursor]
    have kept : entry ∈ stored _ (some index) := held
    rcases added.mem kept with old | ⟨named, rfl⟩
    · cases first : s.first with
      | none => rw [stands.fresh first] at old; cases old
      | some base =>
        rw [first] at near
        exact stands.placed base first index entry old near
    · exact added.bucket index named.symm
  · intro base known
    obtain rfl : s.first.getD fireAt = base := Option.some.inj (based.symm.trans known)
    refine (Nat.le_of_eq added.cursor).trans ?_
    cases first : s.first with
    | none => rw [stands.fresh first]; exact Nat.zero_le _
    | some base => exact stands.cursor base first
  · intro token member
    rcases returned token member with earlier | rfl
    · obtain ⟨known, names⟩ := stands.tokens token earlier
      exact ⟨Nat.le_succ_of_le known, added.named older (.inl ⟨Nat.lt_succ_of_le known, names⟩)⟩
    · exact ⟨Nat.le_of_eq added.names.2, added.named older (.inr rfl)⟩

/-! ### Removal -/

/-- The list keeps the entries that stay in the wheel. -/
theorem Stands.thin (stands : Stands s) (based : s.first ≠ none)
    (thinned : Thinned s.wheel gone after) {keep : WheelEntry M → Bool}
    (stays : (s.timers.pending.filter keep).Perm (entries after)) {clock : Instant} {tick : Nat}
    (cursor : ∀ base ∈ s.first, tick ≤ tickOf base clock)
    (placed : Placed { after with cursorTick := tick } s.first) {nearest : Option Instant}
    (soonest : ∀ entry ∈ entries after, ∃ bound, nearest = some bound ∧ bound ≤ entry.fireAt) :
    Stands { s with
      wheel := { after with
        cursorTick := tick
        pending := after.pending - gone.length
        soonest := nearest }
      timers := { s.timers with pending := s.timers.pending.filter keep }
      clock := clock } := by
  obtain ⟨_, _, _, rfl⟩ := thinned.shape
  refine ⟨fun unbased => absurd unbased based, stands.base, stands.seq, stays.symm,
    stands.sorted.filter _, stands.distinct.sublist (filter_sublist.map _),
    fun entry member => stands.numbered entry (mem_of_mem_filter member),
    stands.parked.sublist thinned.overflow, thinned.marked stands.marked, ?_,
    fun entry member => soonest entry (stays.mem_iff.mp member), placed, cursor, ?_⟩
  · have all := (stands.held.symm.trans thinned.parts).length_eq
    rw [length_append, ← stays.length_eq] at all
    rw [stands.count, all]
    exact Nat.add_sub_cancel_left _ _
  · intro token member
    obtain ⟨seq, names⟩ := stands.tokens token member
    exact ⟨seq, names.known, fun place known entry held =>
      names.found place known entry (thinned.kept place held)⟩

/-- Which entry a list's first position passing a test is. -/
theorem split_findIdx {list : List A} {test : A → Bool} {position : Nat}
    (found : list.findIdx? test = some position) :
    ∃ entry, test entry = true ∧ list = list.take position ++ entry :: list.drop (position + 1) ∧
      (list.take position).length = position := by
  obtain ⟨inRange, passes, -⟩ := findIdx?_eq_some_iff_getElem.mp found
  refine ⟨list[position], passes, ?_, length_take_of_le (Nat.le_of_lt inRange)⟩
  rw [getElem_cons_drop, take_append_drop]

/-- A token that finds no entry in its place has none anywhere. -/
theorem Names.absent (names : Names wheel token) {test : WheelEntry M → Bool}
    (passes : ∀ entry, entry.fireAt = token.fireAt → entry.seq = token.seq → test entry = true)
    (missed : (stored wheel token.slot).findIdx? test = none) :
    ∀ entry ∈ entries wheel, entry.seq ≠ token.seq := by
  intro entry member same
  obtain ⟨place, known, held⟩ := mem_entries.mp member
  obtain ⟨rfl, instant⟩ := names.found place known entry held same
  have refused := findIdx?_eq_none_iff.mp missed entry held
  rw [passes entry instant same] at refused
  cases refused

theorem cancel_cases (names : Names wheel token) :
    wheel.cancel token = wheel ∧ (∀ entry ∈ entries wheel, entry.seq ≠ token.seq) ∨
      ∃ entry after, entry.seq = token.seq ∧ Thinned wheel [entry] after ∧
        wheel.cancel token = { after with pending := after.pending - 1 } := by
  have absent := @names.absent
  have known := names.known
  unfold cancel
  cases named : token.slot with
  | some index =>
    rw [named] at absent known
    dsimp only
    cases found : (wheel.slots index).findIdx? (·.seq = token.seq) with
    | none => exact .inl ⟨rfl, absent (fun _ _ same => decide_eq_true same) found⟩
    | some position =>
      obtain ⟨entry, same, cut, front⟩ := split_findIdx found
      have swapped := swapRemove_perm ((wheel.slots index).take position)
        ((wheel.slots index).drop (position + 1)) entry
      rw [← cut, front] at swapped
      have parts : (wheel.slots index).Perm ([entry] ++ swapRemove (wheel.slots index) position) :=
        (List.Perm.of_eq cut).trans (perm_middle.trans (swapped.symm.cons entry))
      exact .inr ⟨entry, _, of_decide_eq_true same,
        thinned_bucket (mem_places.mp known index rfl) parts, rfl⟩
  | none =>
    rw [named] at absent
    cases found : wheel.overflow.findIdx? fun entry =>
        entry.fireAt = token.fireAt ∧ entry.seq = token.seq with
    | none =>
      exact .inl ⟨rfl, absent (fun _ instant same => decide_eq_true ⟨instant, same⟩) found⟩
    | some position =>
      obtain ⟨entry, same, cut, -⟩ := split_findIdx found
      have erased : wheel.overflow.Perm ([entry] ++ wheel.overflow.eraseIdx position) := by
        rw [eraseIdx_eq_take_drop_succ]
        exact (List.Perm.of_eq cut).trans perm_middle
      exact .inr ⟨entry, _, (of_decide_eq_true same).2,
        thinned_overflow erased (eraseIdx_sublist _ _), rfl⟩

theorem Stands.cancel (stands : Stands s) (returned : token ∈ s.tokens) :
    Stands (s.cancel token) := by
  unfold Served.cancel TimerList.cancel
  rcases cancel_cases (stands.tokens token returned).2 with
    ⟨same, absent⟩ | ⟨entry, after, names, thinned, run⟩
  · have unchanged : s.timers.pending.filter (¬ ·.seq = token.seq) = s.timers.pending :=
      filter_eq_self.mpr fun entry member =>
        decide_eq_true (absent entry (stands.held.mem_iff.mpr member))
    rw [same, unchanged]
    exact stands
  · have whole := stands.held.symm.trans thinned.parts
    have apart : ∀ other ∈ entries after, ¬ other.seq = token.seq := by
      intro other member same
      exact (nodup_cons.mp ((whole.map (·.seq)).nodup_iff.mp stands.distinct)).1
        (mem_map.mpr ⟨other, member, same.trans names.symm⟩)
    have based : s.first ≠ none := by
      intro none
      have held := whole.mem_iff.mpr (mem_cons_self ..)
      rw [← stands.held.mem_iff, stands.fresh none, entries_new] at held
      cases held
    obtain ⟨-, stays⟩ := filter_parts whole (by simpa using names) apart
    rw [run]
    obtain ⟨_, _, _, rfl⟩ := thinned.shape
    refine stands.thin based thinned stays stands.cursor ?_ ?_
    · intro base known index other held
      exact stands.placed base known index other (thinned.kept (some index) held)
    · intro other member
      exact stands.soonest other (whole.mem_iff.mpr (mem_append_right _ member))

/-- A cancel that removes an entry finds it counted. -/
theorem Stands.counted (stands : Stands s) (returned : token ∈ s.tokens)
    (removes : s.wheel.cancel token ≠ s.wheel) : 0 < s.wheel.pending := by
  rcases cancel_cases (stands.tokens token returned).2 with ⟨same, -⟩ | ⟨_, _, -, thinned, -⟩
  · exact absurd same removes
  · rw [stands.count]
    exact length_pos_of_mem
      ((stands.held.symm.trans thinned.parts).mem_iff.mpr (mem_cons_self ..))

/-! ### Drains -/

theorem tickOf_mono {earlier later : Instant} (ordered : earlier ≤ later)
    (near : later - base < 2 ^ 64) : tickOf base earlier ≤ tickOf base later := by
  have nearer : earlier - base ≤ later - base := Nat.sub_le_sub_right ordered base
  unfold tickOf
  rw [Nat.mod_eq_of_lt near, Nat.mod_eq_of_lt (Nat.lt_of_le_of_lt nearer near)]
  exact Nat.div_le_div_right nearer

theorem Served.Admits.near (admitted : s.Admits now) (known : base ∈ s.first) :
    now - base < 2 ^ 64 := by
  have bound := admitted.2 base known
  unfold Instant at *
  omega

/-- The ticks a drain scans. -/
def scanned (cursor target : Nat) : List Nat :=
  (range (min (target - cursor) wheelSlots + 1)).map (cursor + ·)

/-- The scanned ticks include the bucket of every entry that is due. -/
theorem scan_reaches {cursor index tick target : Nat} (due : tick ≤ target)
    (behind : cursor ≤ target) (placed : InBucket cursor index tick) :
    ∃ reached ∈ scanned cursor target, reached % wheelSlots = index := by
  obtain ⟨within, rfl⟩ := placed
  refine ⟨max tick cursor, mem_map.mpr ⟨max tick cursor - cursor, ?_, by omega⟩, rfl⟩
  rw [mem_range]
  omega

/-- An entry that is not due keeps its bucket when the cursor moves to the drain's tick. -/
theorem InBucket.advance {cursor index tick target : Nat} (later : target ≤ tick)
    (behind : cursor ≤ target) (placed : InBucket cursor index tick) :
    InBucket target index tick := by
  obtain ⟨within, rfl⟩ := placed
  rw [Nat.max_eq_left (behind.trans later)] at within ⊢
  unfold InBucket
  rw [Nat.max_eq_left later]
  exact ⟨by omega, rfl⟩

/-- The drained entries, sorted, are the due timers of the list. -/
theorem mergeSort_due {due : List (WheelEntry M)} (sorted : InOrder timers)
    (distinct : (timers.map (·.seq)).Nodup) (perm : (timers.filter (·.fireAt ≤ now)).Perm due) :
    due.mergeSort WheelEntry.before = timers.filter (·.fireAt ≤ now) := by
  refine List.Perm.eq_of_pairwise ?_ (pairwise_mergeSort before_trans before_total due)
    (sorted.filter _) ((mergeSort_perm _ _).trans perm.symm)
  intro entry other first second ahead behind
  rw [mem_mergeSort, ← perm.mem_iff] at first
  refine inj_on_of_nodup_map distinct (mem_of_mem_filter first)
    (mem_of_mem_filter second) ?_
  rw [before_iff] at ahead behind
  unfold Instant at *
  omega

/-- A drain that finds nothing due leaves the wheel as it is, its cursor behind. -/
theorem Stands.idle (stands : Stands s) (admitted : s.Admits now)
    (idle : ∀ entry ∈ s.timers.pending, ¬ entry.fireAt ≤ now)
    (same : s.wheel.drainDue now = ([], s.wheel)) :
    (s.wheel.drainDue now).1 = (s.timers.due now).map (·.toDue) ∧ Stands (s.drain now) := by
  have nothingDue : s.timers.due now = [] := filter_eq_nil_iff.mpr (by simpa using idle)
  have all : s.timers.pending.filter (¬ ·.fireAt ≤ now) = s.timers.pending :=
    filter_eq_self.mpr (by simpa using idle)
  unfold Served.drain TimerList.drain
  rw [nothingDue, same, all]
  refine ⟨rfl, { stands with cursor := ?_ }⟩
  intro base known
  exact (stands.cursor base known).trans (tickOf_mono admitted.1 (admitted.near known))

/-- What a drain that scans the wheel leaves of it. -/
theorem drainDue_scan (based : wheel.base = some base)
    (scans : ¬ (wheel.pending = 0 ∨ wheel.soonest.any (now < ·) = true))
    (parked : InOrder wheel.overflow) :
    ∃ due after, Thinned wheel due after ∧
      wheel.drainDue now = ((due.mergeSort WheelEntry.before).map (·.toDue),
        { after with
          cursorTick := tickOf base now
          pending := after.pending - due.length
          soonest := after.nearest }) ∧
      (∀ entry ∈ due, entry.fireAt ≤ now) ∧ (∀ entry ∈ after.overflow, ¬ entry.fireAt ≤ now) ∧
      ∀ tick ∈ scanned wheel.cursorTick (tickOf base now),
        ∀ entry ∈ after.slots (tick % wheelSlots), ¬ entry.fireAt ≤ now := by
  unfold drainDue
  rw [if_neg scans]
  split
  · next absent => cases absent.symm.trans based
  next origin known =>
  obtain rfl : origin = base := Option.some.inj (known.symm.trans based)
  dsimp only
  have split : wheel.overflow = wheel.overflow.takeWhile (·.fireAt ≤ now) ++
    wheel.overflow.dropWhile (·.fireAt ≤ now) := takeWhile_append_dropWhile.symm
  have dropped := thinned_overflow (.of_eq split) (dropWhile_sublist _)
  obtain ⟨rest, late⟩ := drainTicks_thinned now (scanned wheel.cursorTick (tickOf origin now))
    { wheel with overflow := wheel.overflow.dropWhile (·.fireAt ≤ now) }
  have exact := drainTicks_due now (scanned wheel.cursorTick (tickOf origin now))
    { wheel with overflow := wheel.overflow.dropWhile (·.fireAt ≤ now) }
  unfold scanned at rest late exact ⊢
  refine ⟨_, _, dropped.trans rest, by simp only [nearest], ?_, ?_, late⟩
  · intro entry member
    rcases mem_append.mp member with first | second
    · have passed := mem_takeWhile_imp first
      exact of_decide_eq_true passed
    · exact exact entry second
  · exact fun entry held => parked.dropWhile_late now entry (rest.overflow.subset held)

/-- A drain hands out exactly the due timers, in order. -/
theorem Stands.drained (stands : Stands s) (admitted : s.Admits now) :
    (s.wheel.drainDue now).1 = (s.timers.due now).map (·.toDue) ∧ Stands (s.drain now) := by
  by_cases fast : s.wheel.pending = 0 ∨ s.wheel.soonest.any (now < ·) = true
  · have same : s.wheel.drainDue now = ([], s.wheel) := by
      unfold drainDue
      rw [if_pos fast]
    refine stands.idle admitted ?_ same
    intro entry member due
    rcases fast with empty | future
    · rw [length_eq_zero_iff.mp (stands.count.symm.trans empty)] at member
      cases member
    · obtain ⟨bound, known, earlier⟩ := stands.soonest entry member
      rw [known, any_some, decide_eq_true_eq] at future
      exact absurd (earlier.trans due) (Nat.not_le.mpr future)
  · cases known : s.first with
    | none =>
      rw [stands.fresh known] at fast
      exact absurd (.inl rfl) fast
    | some base =>
      obtain ⟨due, after, thinned, run, yes, overflow, late⟩ :=
        drainDue_scan (stands.base.trans known) fast stands.parked
      have near := admitted.near known
      have behind := (stands.cursor base known).trans (tickOf_mono admitted.1 near)
      have stays : ∀ index, ∀ entry ∈ after.slots index, ¬ entry.fireAt ≤ now := by
        intro index entry held due
        have reached : entry.fireAt - base < 2 ^ 64 :=
          Nat.lt_of_le_of_lt (Nat.sub_le_sub_right due base) near
        obtain ⟨tick, scanned, rfl⟩ := scan_reaches (tickOf_mono due near) behind
          (stands.placed base known index entry (thinned.kept (some index) held) reached)
        exact late tick scanned entry held due
      have no : ∀ entry ∈ entries after, ¬ entry.fireAt ≤ now := by
        intro entry member
        obtain ⟨place, -, held⟩ := mem_entries.mp member
        cases place with
        | none => exact overflow entry held
        | some index => exact stays index entry held
      obtain ⟨removed, kept⟩ :=
        filter_parts (stands.held.symm.trans thinned.parts) yes no
      have ordered : InOrder (s.timers.pending.filter (¬ ·.fireAt ≤ now)) :=
        stands.sorted.filter _
      unfold Served.drain
      rw [run]
      refine ⟨congrArg _ (mergeSort_due stands.sorted stands.distinct removed),
        stands.thin (by rw [known]; nofun) thinned kept ?_ ?_ ?_⟩
      · intro other same
        obtain rfl := Option.some.inj (known.symm.trans same)
        exact Nat.le_refl _
      · intro other same index entry held reached
        obtain rfl := Option.some.inj (known.symm.trans same)
        exact (stands.placed base known index entry (thinned.kept (some index) held)
          reached).advance (tickOf_mono (Nat.le_of_not_le (stays index entry held)) reached) behind
      · intro entry member
        rw [nearest_of_sorted (stands.parked.sublist thinned.overflow)
          (thinned.marked stands.marked) kept.symm ordered]
        exact ordered.head_bound (kept.mem_iff.mpr member)

/-! ## Every run -/

theorem stands_of_run {history : List (WheelOp M)}
    (run : Run Serve (fun _ _ _ => True) Served.init history s) : Stands s := by
  refine run.invariant (fun _ s => Stands s) stands_init ?_
  intro history s op after stands _ step
  cases step with
  | insertDeliver fireAt targetPid envelope room =>
    exact stands.insert room fireAt targetPid _ fun _ member => .inl member
  | insertDeadline fireAt pid room =>
    exact stands.insert room fireAt pid _ fun _ member => (mem_cons.mp member).symm
  | cancel returned => exact stands.cancel returned
  | drainDue admitted => exact (stands.drained admitted).2

/-- After any operations, a drain hands out exactly the pending timers that are due, each
once and in firing order; the wheel is empty when none is pending; its nearest instant is
the first timer's, and the bound on it is never later. The counter is the number of pending
timers, and neither decrement of it goes below zero. -/
theorem wheel_refines_timer_list {history : List (WheelOp M)}
    (run : Run Serve (fun _ _ _ => True) Served.init history s) :
    (∀ now, s.Admits now → (s.wheel.drainDue now).1 = (s.timers.due now).map (·.toDue)) ∧
    (s.wheel.isEmpty = true ↔ s.timers.pending = []) ∧
    s.wheel.nearest = s.timers.pending.head?.map (·.fireAt) ∧
    (∀ nearest, s.wheel.nearest = some nearest →
      ∃ bound, s.wheel.soonestBound = some bound ∧ bound ≤ nearest) ∧
    s.wheel.pending = s.timers.pending.length ∧
    (∀ token ∈ s.tokens, s.wheel.cancel token ≠ s.wheel → 0 < s.wheel.pending) ∧
    (∀ now, s.Admits now → (s.wheel.drainDue now).1.length ≤ s.wheel.pending) := by
  have stands := stands_of_run run
  have nearest := nearest_of_sorted stands.parked stands.marked stands.held stands.sorted
  refine ⟨fun now admitted => (stands.drained admitted).1, ?_, nearest, ?_, stands.count,
    fun token returned => stands.counted returned, ?_⟩
  · unfold TimerWheel.isEmpty
    rw [decide_eq_true_eq, stands.count, length_eq_zero_iff]
  · intro instant found
    rw [nearest] at found
    obtain ⟨first, head, rfl⟩ := map_eq_some_iff.mp found
    obtain ⟨bound, known, earlier⟩ := stands.soonest first (mem_of_head? head)
    refine ⟨bound, ?_, earlier⟩
    unfold soonestBound
    rw [if_neg, known]
    rw [stands.count, length_eq_zero_iff]
    rintro empty
    rw [empty] at head
    cases head
  · intro now admitted
    rw [(stands.drained admitted).1, length_map, stands.count]
    exact length_filter_le _ _

/-- Timers up to two rotations away, one of them cancelled. The second drain finds nothing due and
leaves the cursor behind; the last timer is inserted after it. -/
theorem two_rotations_drained :
    let armed : TimerWheel Unit :=
      ((new.insertDeadline 5 1).2.insertDeadline 9000000000 2).2.insertDeliver 5000000000 3 ()
    let cancelled := armed.insertDeadline 6000000000 4
    let early := (cancelled.2.cancel cancelled.1).drainDue 7
    let idle := early.2.drainDue 4100000000
    early.1 = [.promote 1 5] ∧ idle.1 = [] ∧
    ((idle.2.insertDeadline 8500000000 5).2.drainDue 10000000000).1 =
      [.deliver () 3, .promote 5 8500000000, .promote 2 9000000000] := by
  have admitted {history : List (WheelOp Unit)} {s : Served Unit}
      (_ : Run Serve (fun _ _ _ => True) .init history s) (now : Instant)
      (first : s.first = some 5) (clock : s.clock ≤ now) (near : now < 5 + 2 ^ 64) :
      s.Admits now := by
    refine ⟨clock, fun origin based => ?_⟩
    rw [first] at based
    exact Option.some.inj based ▸ near
  have start : Run Serve (fun _ _ _ => True) (.init : Served Unit) [] .init := .nil
  have first := start.snoc trivial (.insertDeadline 5 1 (by decide))
  have second := first.snoc trivial (.insertDeadline 9000000000 2 (by decide))
  have third := second.snoc trivial (.insertDeliver 5000000000 3 () (by decide))
  have fourth := third.snoc trivial (.insertDeadline 6000000000 4 (by decide))
  have early := fourth.snoc trivial (.cancel (mem_cons_self ..))
  have firstDrain := admitted early 7 rfl (by decide) (by decide)
  have idle := early.snoc trivial (.drainDue firstDrain)
  have secondDrain := admitted idle 4100000000 rfl (by decide) (by decide)
  have late := (idle.snoc trivial (.drainDue secondDrain)).snoc trivial
    (.insertDeadline 8500000000 5 (by decide))
  have lastDrain := admitted late 10000000000 rfl (by decide) (by decide)
  refine ⟨(wheel_refines_timer_list early).1 _ firstDrain, ?_, ?_⟩
  · have second := (wheel_refines_timer_list idle).1 _ secondDrain
    unfold Served.drain at second
    exact second
  · have third := (wheel_refines_timer_list late).1 _ lastDrain
    simp only [Served.insert, Served.drain] at third
    unfold insertDeadline
    refine third.trans ?_
    rfl

end Koja.Guarantees.Runtime.Wheel
