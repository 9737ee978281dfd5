import Mathlib.Data.List.TakeWhile
import Koja.Source.Runtime.Protocol

/-!
# Timing wheel

`koja-runtime-core/src/timer_wheel.rs`: buckets at tick resolution plus an overflow
map for what lies beyond one rotation. Instants are nanoseconds; a bucket is the list of
its entries in storage order, the overflow map the list of its entries in key order. The
sequence counter is a `u64` that wraps, as it does in a build without overflow checks. Bucket
capacities are memory management and not modelled.
-/
namespace Koja.Source.Runtime

def wheelTickNanos : Nat := 1000000

def wheelSlots : Nat := 4096

/-- What a fired entry asks the table to do. -/
inductive WheelKind (M : Type) where
  | deliver (envelope : M)
  | promote

structure WheelEntry (M : Type) where
  fireAt : Instant
  kind : WheelKind M
  pid : Pid
  seq : Nat

/-- Names a pending deadline entry: its bucket, or the overflow map. -/
structure TimerToken where
  fireAt : Instant
  seq : Nat
  slot : Option Nat
  deriving DecidableEq, Repr

/-- A due entry handed to the driver. -/
inductive Due (M : Type) where
  | deliver (envelope : M) (targetPid : Pid)
  | promote (pid : Pid) (fireAt : Instant)

/-- Ticks between `base` and `t`, zero for an earlier `t`. The nanoseconds are truncated to
`u64`. -/
def tickOf (base t : Instant) : Nat := (t - base) % 2 ^ 64 / wheelTickNanos

/-- `Vec::swap_remove`: the last entry takes the place of the removed one. -/
def swapRemove {A : Type} (bucket : List A) (index : Nat) : List A :=
  match bucket.getLast? with
  | none => []
  | some last => (bucket.set index last).dropLast

/-- `slots` is allocated together with `base`. -/
structure TimerWheel (M : Type) where
  base : Option Instant
  cursorTick : Nat
  occupied : Nat → Bool
  overflow : List (WheelEntry M)
  pending : Nat
  seq : Nat
  slots : Nat → List (WheelEntry M)
  soonest : Option Instant

variable {M : Type}

namespace WheelEntry

/-- The order of firing: by instant, then by insertion. -/
def before (entry other : WheelEntry M) : Bool :=
  entry.fireAt < other.fireAt ∨ (entry.fireAt = other.fireAt ∧ entry.seq ≤ other.seq)

def toDue (entry : WheelEntry M) : Due M :=
  match entry.kind with
  | .deliver envelope => .deliver envelope entry.pid
  | .promote => .promote entry.pid entry.fireAt

end WheelEntry

namespace TimerWheel

open List

def new : TimerWheel M := ⟨none, 0, fun _ => false, [], 0, 0, fun _ => [], none⟩

variable (wheel : TimerWheel M)

def isEmpty : Bool := wheel.pending = 0

/-- Fixes the tick reference on first use. -/
def ensureBase (t : Instant) : Instant × TimerWheel M :=
  match wheel.base with
  | some base => (base, wheel)
  | none => (t, { wheel with base := some t, slots := fun _ => [] })

variable (fireAt now : Instant)

def insert (pid : Pid) (kind : WheelKind M) : TimerToken × TimerWheel M :=
  let (base, wheel) := wheel.ensureBase fireAt
  let seq := (wheel.seq + 1) % 2 ^ 64
  let targetTick := max (tickOf base fireAt) wheel.cursorTick
  let entry := ⟨fireAt, kind, pid, seq⟩
  let wheel := { wheel with
    seq := seq
    pending := wheel.pending + 1
    soonest := some (wheel.soonest.elim fireAt (min · fireAt)) }
  if targetTick < wheel.cursorTick + wheelSlots then
    let index := targetTick % wheelSlots
    (⟨fireAt, seq, some index⟩,
      { wheel with
        occupied := Function.update wheel.occupied index true
        slots := Function.update wheel.slots index (wheel.slots index ++ [entry]) })
  else
    (⟨fireAt, seq, none⟩,
      { wheel with overflow := wheel.overflow.orderedInsert (fun a b => a.before b) entry })

def insertDeliver (targetPid : Pid) (envelope : M) : TimerWheel M :=
  (wheel.insert fireAt targetPid (.deliver envelope)).2

def insertDeadline (pid : Pid) : TimerToken × TimerWheel M :=
  wheel.insert fireAt pid .promote

/-- Clears the occupancy bit of an emptied bucket. -/
def releaseBucketIfEmpty (index : Nat) : TimerWheel M :=
  if (wheel.slots index).isEmpty then
    { wheel with occupied := Function.update wheel.occupied index false }
  else wheel

/-- Removes the entry `token` names; nothing if it fired or was removed before. -/
def cancel (token : TimerToken) : TimerWheel M :=
  match token.slot with
  | some index =>
    match (wheel.slots index).findIdx? (·.seq = token.seq) with
    | none => wheel
    | some position =>
      let wheel := { wheel with
        slots := Function.update wheel.slots index (swapRemove (wheel.slots index) position) }
      let wheel := wheel.releaseBucketIfEmpty index
      { wheel with pending := wheel.pending - 1 }
  | none =>
    match wheel.overflow.findIdx? fun entry =>
        entry.fireAt = token.fireAt ∧ entry.seq = token.seq with
    | none => wheel
    | some position =>
      { wheel with
        overflow := wheel.overflow.eraseIdx position
        pending := wheel.pending - 1 }

/-- The scan of one bucket: what it hands out, and what stays. The entries before the
scan's index were not due; a removal moves the last entry to the index. -/
def drainBucket (now : Instant) (kept rest : List (WheelEntry M)) :
    List (WheelEntry M) × List (WheelEntry M) :=
  match rest with
  | [] => ([], kept)
  | entry :: others =>
    if entry.fireAt ≤ now then
      let (due, left) := drainBucket now kept (swapRemove (entry :: others) 0)
      (entry :: due, left)
    else drainBucket now (kept ++ [entry]) others
  termination_by rest.length
  decreasing_by
    · simp [swapRemove, List.getLast?_cons]
    · simp

/-- The scan of the buckets of the given ticks, in order. -/
def drainTicks (now : Instant) : List Nat → TimerWheel M → List (WheelEntry M) × TimerWheel M
  | [], wheel => ([], wheel)
  | tick :: ticks, wheel =>
    let index := tick % wheelSlots
    let (due, left) := drainBucket now [] (wheel.slots index)
    let wheel := { wheel with slots := Function.update wheel.slots index left }
    let (later, wheel) := drainTicks now ticks (wheel.releaseBucketIfEmpty index)
    (due ++ later, wheel)

/-- The soonest pending instant, over the overflow map and the occupied buckets. -/
def nearest : Option Instant :=
  let buckets := (List.range wheelSlots).filter wheel.occupied
  let first := wheel.overflow.head?.map (·.fireAt)
  (buckets.flatMap wheel.slots).foldl
    (fun best entry => some (best.elim entry.fireAt (min · entry.fireAt))) first

/-- Removes and returns every entry due at `now`, soonest first. -/
def drainDue : List (Due M) × TimerWheel M :=
  if wheel.pending = 0 ∨ wheel.soonest.any (now < ·) then ([], wheel)
  else
    match wheel.base with
    | none => ([], wheel)
    | some base =>
      let target := tickOf base now
      let parked := wheel.overflow.takeWhile (·.fireAt ≤ now)
      let wheel := { wheel with overflow := wheel.overflow.dropWhile (·.fireAt ≤ now) }
      let span := min (target - wheel.cursorTick) wheelSlots
      let (scanned, wheel) :=
        drainTicks now ((List.range (span + 1)).map (wheel.cursorTick + ·)) wheel
      let due := parked ++ scanned
      let wheel := { wheel with cursorTick := target, pending := wheel.pending - due.length }
      ((due.mergeSort WheelEntry.before).map (·.toDue),
        { wheel with soonest := wheel.nearest })

/-- A lower bound on the soonest pending instant, without a scan. -/
def soonestBound : Option Instant :=
  if wheel.pending = 0 then none else wheel.soonest

/-! ### What a drain hands out -/

theorem swapRemove_perm {A : Type} (front back : List A) (removed : A) :
    (swapRemove (front ++ removed :: back) front.length).Perm (front ++ back) := by
  unfold swapRemove
  rcases eq_nil_or_concat back with rfl | ⟨middle, last, rfl⟩
  · simp
  · rw [concat_eq_append, ← cons_append, ← append_assoc, getLast?_concat]
    simp only [append_assoc, cons_append, set_append_right _ _ (Nat.le_refl _),
      Nat.sub_self, set_cons_zero]
    rw [← cons_append, ← append_assoc, dropLast_concat]
    exact (perm_append_singleton last middle).symm.append_left front

theorem drainBucket_perm (kept rest : List (WheelEntry M)) :
    (drainBucket now kept rest).1.Perm (rest.filter (·.fireAt ≤ now)) ∧
      (drainBucket now kept rest).2.Perm (kept ++ rest.filter (¬ ·.fireAt ≤ now)) := by
  fun_induction drainBucket now kept rest with
  | case1 => simp
  | case2 _ head others due _ _ scanned ih =>
    rw [scanned] at ih
    have swapped := swapRemove_perm [] others head
    rw [filter_cons_of_pos (by simpa using due), filter_cons_of_neg (by simpa using due)]
    exact ⟨(ih.1.trans (swapped.filter _)).cons _, ih.2.trans ((swapped.filter _).append_left _)⟩
  | case3 _ _ _ future ih =>
    rw [filter_cons_of_neg (by simpa using future),
      filter_cons_of_pos (by simpa using future)]
    simpa using ih

theorem drainBucket_due (kept rest : List (WheelEntry M)) :
    ∀ entry ∈ (drainBucket now kept rest).1, entry.fireAt ≤ now := by
  intro entry member
  have passed := of_mem_filter ((drainBucket_perm now kept rest).1.mem_iff.mp member)
  exact of_decide_eq_true passed

theorem drainTicks_due (ticks : List Nat) (wheel : TimerWheel M) :
    ∀ entry ∈ (drainTicks now ticks wheel).1, entry.fireAt ≤ now := by
  induction ticks generalizing wheel with
  | nil => exact fun entry member => absurd member not_mem_nil
  | cons _ _ ih =>
    intro entry member
    rcases mem_append.mp member with here | later
    · exact drainBucket_due now [] _ entry here
    · exact ih _ entry later

/-- Firing is exact: a drain hands out no entry before its instant. -/
theorem drainDue_due {pid : Pid} {fireAt : Instant}
    (member : .promote pid fireAt ∈ (wheel.drainDue now).1) : fireAt ≤ now := by
  unfold drainDue at member
  split at member
  · cases member
  · split at member
    · cases member
    · obtain ⟨entry, drained, same⟩ := mem_map.mp member
      have reached : entry.fireAt ≤ now := by
        rcases mem_append.mp (mem_mergeSort.mp drained) with parked | scanned
        · have passed := mem_takeWhile_imp parked
          exact of_decide_eq_true passed
        · exact drainTicks_due now _ _ entry scanned
      unfold WheelEntry.toDue at same
      split at same
      · cases same
      · cases same
        exact reached

end TimerWheel

end Koja.Source.Runtime
