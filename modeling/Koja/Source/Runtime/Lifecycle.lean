import Mathlib.Data.Nat.Bitwise
import Koja.Lib.CasLoop
import Koja.Source.Runtime.Protocol

/-!
# The lifecycle word

`koja-runtime-core/src/lifecycle.rs` with the edge table of `process_table.rs`.
Generation, state and the `on_cpu` claim flag share one `AtomicU64`, and every
edge is a compare-and-swap loop over it. The edges below are the loops' bodies:
what each writes over the word it observes, or `none` where it gives up.
`LifecycleWord.loop_atomic` is why one observation is enough.
-/
namespace Koja.Source.Runtime
open Koja.Lib

inductive ProcessState where
  | created | runnable | running | blocked | waitingIo | dead
  deriving DecidableEq, Repr

/-- Whether `source -> target` is a legal process lifecycle edge. -/
def isLegalTransition : ProcessState → ProcessState → Bool
  | .created, .running | .runnable, .running => true
  | .running, .blocked | .running, .waitingIo | .running, .dead => true
  | .running, .runnable | .blocked, .runnable | .waitingIo, .runnable => true
  | .created, .dead | .runnable, .dead | .blocked, .dead | .waitingIo, .dead => true
  | _, _ => false

/-- Bit layout of the word: `[63:32]` generation, `[3]` on_cpu, `[2:0]` state. -/
def onCpuBit : Nat := 1 <<< 3
def stateMask : Nat := 0b111
def generationShift : Nat := 32
def vacant : Nat := 0

def stateCode : ProcessState → Nat
  | .created => 1
  | .runnable => 2
  | .running => 3
  | .blocked => 4
  | .waitingIo => 5
  | .dead => 6

def stateOf : Nat → Option ProcessState
  | 1 => some .created
  | 2 => some .runnable
  | 3 => some .running
  | 4 => some .blocked
  | 5 => some .waitingIo
  | 6 => some .dead
  | _ => none

def pack (generation state : Nat) (onCpu : Bool) : Nat :=
  (generation <<< generationShift) ||| (if onCpu then onCpuBit else 0) ||| state

/-- One decoded observation of the word. `state` is `none` for a vacant slot. -/
structure WordState where
  generation : UInt32
  onCpu : Bool
  state : Option ProcessState
  deriving DecidableEq, Repr

namespace WordState

def decode (word : Nat) : WordState where
  generation := UInt32.ofNat (word >>> generationShift)
  onCpu := word &&& onCpuBit != 0
  state := stateOf (word &&& stateMask)

def encode (word : WordState) : Nat :=
  pack word.generation.toNat (word.state.elim vacant stateCode) word.onCpu

/-- Whether this observation is the live (non-dead) occupant for `generation`. -/
def isAlive (word : WordState) (generation : UInt32) : Bool :=
  word.generation == generation && word.state.any (· ≠ .dead)

end WordState

/-- The packed word determines the observation, so a swap that compares packed
words compares observations. -/
theorem WordState.decode_encode (word : WordState) : WordState.decode word.encode = word := by
  obtain ⟨generation, onCpu, state⟩ := word
  -- The generation leaves the low nibble to the claim flag and the state code.
  have code : generation.toNat <<< 32 &&& 7 = 0 := by
    rw [Nat.and_two_pow_sub_one_eq_mod _ 3, Nat.shiftLeft_eq]
    omega
  have flag : generation.toNat <<< 32 &&& 8 = 0 := by
    rw [show 8 = 2 ^ 3 from rfl, Nat.and_two_pow, Nat.testBit_shiftLeft]
    rfl
  rcases state with _ | (_ | _ | _ | _ | _ | _) <;> cases onCpu <;>
    simp [decode, encode, pack, vacant, onCpuBit, stateMask, generationShift, stateCode, stateOf,
      Nat.and_or_distrib_right, Nat.shiftRight_or_distrib, code, flag]

namespace LifecycleWord

/-- A vacant slot at generation 0. -/
def new : WordState := ⟨0, false, none⟩

/-- The claim edge: a fresh or runnable process off the cpu starts running on it. -/
def tryClaim (word : WordState) (generation : UInt32) : Option WordState :=
  if word.generation = generation ∧ word.onCpu = false ∧
      (word.state = some .created ∨ word.state = some .runnable) then
    some { word with onCpu := true, state := some .running }
  else none

/-- A guarded state edge at `generation`, leaving the claim flag as is. -/
def tryEdge (word : WordState) (generation : UInt32) (source target : ProcessState) :
    Option WordState :=
  if word.generation ≠ generation ∨ word.state ≠ some source then none
  else some { word with state := some target }

/-- The kill edge: any live state to dead, leaving the claim flag as is. -/
def tryKill (word : WordState) (generation : UInt32) : Option WordState :=
  if word.isAlive generation then some { word with state := some .dead } else none

/-- The switch-out release: clears the claim flag. -/
def release (word : WordState) (generation : UInt32) : Option WordState :=
  if word.generation ≠ generation ∨ word.onCpu = false then none
  else some { word with onCpu := false }

/-- The word `occupy` stores, whatever was there before. -/
def occupy (generation : UInt32) : WordState := ⟨generation, false, some .created⟩

/-- The word `vacate` stores: the generation is bumped with `u32` wrap-around. -/
def vacate (word : WordState) : WordState := ⟨word.generation + 1, false, none⟩

/-- A loop as the source runs it: the memory holds packed words, decoded to decide and encoded
to swap. -/
def packedLoop (edge : WordState → Option WordState) : Nat → List Nat → Option (CasOutcome Nat) :=
  casLoop fun word => (edge (.decode word)).map (·.encode)

theorem packedLoop_eq (edge : WordState → Option WordState) (observed : WordState)
    (met : List WordState) : packedLoop edge observed.encode (met.map (·.encode)) =
      (casLoop edge observed met).map (.map (·.encode)) := by
  have injective : Function.Injective WordState.encode :=
    Function.LeftInverse.injective WordState.decode_encode
  refine casLoop_map injective fun word => ?_
  rw [WordState.decode_encode]

/-- However other threads move the word between its accesses, a loop succeeds at the first attempt
that finds the observed word in memory and stores what its edge makes of that word; it gives up at
the first observed word its edge rejects. Before either, every attempt found another word. -/
theorem loop_atomic (edge : WordState → Option WordState) (observed : WordState)
    (met : List WordState) :
    (∀ before after,
      packedLoop edge observed.encode (met.map (·.encode)) = some (.swapped before after) ↔
      ∃ word next, before = word.encode ∧ after = next.encode ∧
        ∃ k, ((observed :: met)[k]? = some word ∧ met[k]? = some word ∧ edge word = some next) ∧
          ∀ i < k, AttemptFailed edge observed met i) ∧
    ∀ rejected,
      packedLoop edge observed.encode (met.map (·.encode)) = some (.refused rejected) ↔
      ∃ word, rejected = word.encode ∧
        ∃ k, ((observed :: met)[k]? = some word ∧ edge word = none) ∧
          ∀ i < k, AttemptFailed edge observed met i := by
  simp only [packedLoop_eq, Option.map_eq_some_iff, ← casLoop_swapped_iff, ← casLoop_refused_iff]
  constructor
  · intro before after
    constructor
    · rintro ⟨_ | _, ended, same⟩ <;> cases same
      exact ⟨_, _, rfl, rfl, ended⟩
    · rintro ⟨word, next, rfl, rfl, ended⟩
      exact ⟨_, ended, rfl⟩
  · intro rejected
    constructor
    · rintro ⟨_ | _, ended, same⟩ <;> cases same
      exact ⟨_, rfl, ended⟩
    · rintro ⟨word, rfl, ended⟩
      exact ⟨_, ended, rfl⟩

/-! What each edge does to the word. -/

variable {word : WordState} {generation : UInt32}

theorem tryEdge_eq (source target : ProcessState) : tryEdge word generation source target =
      if word.generation = generation ∧ word.state = some source then
        some { word with state := some target }
      else none := by
  simp only [tryEdge, ne_eq, ← not_and_or, ite_not]

theorem isAlive_iff : word.isAlive generation = true ↔
      word.generation = generation ∧ ∃ state, word.state = some state ∧ state ≠ .dead := by
  cases h : word.state <;> simp [WordState.isAlive, h]

theorem release_eq : release word generation =
      if word.generation = generation ∧ word.onCpu = true then some { word with onCpu := false }
      else none := by
  simp only [release, ne_eq, ← Bool.not_eq_true, ← not_and_or, ite_not]

end LifecycleWord

end Koja.Source.Runtime
