import Mathlib.Data.List.Basic

/-!
# Byte buffers written by stores and single bits

A buffer is a list of bytes, read as a bit string with the most significant bit of each byte
first. It is written by whole-byte stores and by setting single bits; an operation outside the
buffer fails. Everything a program of such operations does is described bit by bit (`bitAt`).
-/
namespace Koja.Lib

/-- The bit of a byte at a position counted from the most significant one. -/
def bitOf (byte : UInt8) (position : Nat) : Bool :=
  byte.toBitVec.getLsbD (7 - position)

/-- The bit of a buffer at a position. -/
def bitAt (buffer : List UInt8) (position : Nat) : Bool :=
  (buffer[position / 8]?).any fun byte => bitOf byte (position % 8)

/-- The first bits of a buffer. -/
def readBits (buffer : List UInt8) (length : Nat) : List Bool :=
  (List.range length).map (bitAt buffer)

/-- One write. -/
inductive ByteOp where
  | store (index : Nat) (byte : UInt8)
  | setBit (position : Nat)
  deriving DecidableEq, Repr

namespace ByteOp

/-- The byte a write changes. -/
def index : ByteOp → Nat
  | .store index _ => index
  | .setBit position => position / 8

/-- The byte a write leaves behind. -/
def update : ByteOp → UInt8 → UInt8
  | .store _ byte, _ => byte
  | .setBit position, old => old ||| 1 <<< UInt8.ofNat (7 - position % 8)

/-- The write on a buffer. -/
def apply (op : ByteOp) (buffer : List UInt8) : Option (List UInt8) :=
  (buffer[op.index]?).map fun old => buffer.set op.index (op.update old)

/-- What the write leaves at a bit that held `old`. -/
def bitAfter (op : ByteOp) (position : Nat) (old : Bool) : Bool :=
  match op with
  | .store index byte => if position / 8 = index then bitOf byte (position % 8) else old
  | .setBit set => old || decide (position = set)

/-- The write changes bits of a segment only. -/
def Within (start width : Nat) : ByteOp → Prop
  | .store index _ => start ≤ 8 * index ∧ 8 * index + 8 ≤ start + width
  | .setBit position => start ≤ position ∧ position < start + width

end ByteOp

/-- A list of writes on a buffer. -/
def applyOps (ops : List ByteOp) (buffer : List UInt8) : Option (List UInt8) :=
  ops.foldlM (fun buffer op => op.apply buffer) buffer

theorem bitOf_ext {a b : UInt8} (same : ∀ position < 8, bitOf a position = bitOf b position) :
    a = b := by
  apply UInt8.eq_of_toBitVec_eq
  apply BitVec.eq_of_getLsbD_eq
  intro i small
  have sameBit := same (7 - i) (by omega)
  unfold bitOf at sameBit
  rwa [show 7 - (7 - i) = i by omega] at sameBit

theorem bitOf_or_bit (old : UInt8) {bit position : Nat} (bitSmall : bit < 8)
    (small : position < 8) :
    bitOf (old ||| 1 <<< UInt8.ofNat (7 - bit)) position =
      (bitOf old position || decide (position = bit)) := by
  have mask : ∀ bit < 8, ∀ position < 8,
      bitOf (1 <<< UInt8.ofNat (7 - bit)) position = decide (position = bit) := by
    decide
  rw [← mask bit bitSmall position small]
  simp [bitOf]

section
variable {op : ByteOp} {ops : List ByteOp} {buffer after : List UInt8} {start width position : Nat}

theorem ByteOp.apply_length (applied : op.apply buffer = some after) :
    after.length = buffer.length := by
  obtain ⟨old, _, rfl⟩ := Option.map_eq_some_iff.1 applied
  simp

theorem ByteOp.apply_isSome (inside : op.index < buffer.length) :
    ∃ after, op.apply buffer = some after := by
  unfold ByteOp.apply
  rw [List.getElem?_eq_getElem inside]
  exact ⟨_, rfl⟩

theorem ByteOp.apply_bitAt (applied : op.apply buffer = some after) (position : Nat) :
    bitAt after position = op.bitAfter position (bitAt buffer position) := by
  obtain ⟨old, found, rfl⟩ := Option.map_eq_some_iff.1 applied
  have inside : op.index < buffer.length := (List.getElem?_eq_some_iff.1 found).1
  cases op with
  | store index =>
    simp only [ByteOp.index, ByteOp.update, ByteOp.bitAfter] at inside found ⊢
    unfold bitAt
    by_cases same : position / 8 = index
    · simp [same, inside]
    · rw [List.getElem?_set_ne (Ne.symm same)]
      simp [same]
  | setBit set =>
    simp only [ByteOp.index, ByteOp.update, ByteOp.bitAfter] at inside found ⊢
    unfold bitAt
    by_cases same : position / 8 = set / 8
    · rw [same, List.getElem?_set_self inside, found]
      simp only [Option.any_some]
      rw [bitOf_or_bit old (Nat.mod_lt _ (by decide)) (Nat.mod_lt _ (by decide))]
      congr 1
      exact decide_eq_decide.2 (by omega)
    · have apart : position ≠ set := by rintro rfl; exact same rfl
      rw [List.getElem?_set_ne (Ne.symm same)]
      simp [apart]

theorem ByteOp.apply_frame (applied : op.apply buffer = some after)
    (within : op.Within start width) (outside : position < start ∨ start + width ≤ position) :
    bitAt after position = bitAt buffer position := by
  rw [ByteOp.apply_bitAt applied]
  cases op with
  | store =>
    simp only [ByteOp.Within] at within
    exact if_neg (by omega)
  | setBit set =>
    simp only [ByteOp.Within] at within
    have apart : position ≠ set := by omega
    simp [ByteOp.bitAfter, apart]

theorem ByteOp.index_of_within (within : op.Within start width)
    (fits : start + width ≤ 8 * buffer.length) : op.index < buffer.length := by
  cases op <;> simp only [ByteOp.Within, ByteOp.index] at within ⊢ <;> omega

end

section
variable {ops more : List ByteOp} {buffer after : List UInt8} {start width position : Nat}

@[simp] theorem applyOps_nil : applyOps [] buffer = some buffer := rfl

theorem applyOps_cons (op : ByteOp) :
    applyOps (op :: ops) buffer = (op.apply buffer).bind (applyOps ops) := by
  rfl

theorem applyOps_length (applied : applyOps ops buffer = some after) :
    after.length = buffer.length := by
  induction ops generalizing buffer with
  | nil => simp_all
  | cons _ _ ih =>
    rw [applyOps_cons] at applied
    obtain ⟨middle, first, rest⟩ := Option.bind_eq_some_iff.1 applied
    rw [ih rest, ByteOp.apply_length first]

theorem applyOps_isSome (within : ∀ op ∈ ops, op.Within start width)
    (fits : start + width ≤ 8 * buffer.length) : ∃ after, applyOps ops buffer = some after := by
  induction ops generalizing buffer with
  | nil => exact ⟨buffer, rfl⟩
  | cons op _ ih =>
    obtain ⟨middle, first⟩ :=
      ByteOp.apply_isSome (ByteOp.index_of_within (within op (by simp)) fits)
    obtain ⟨after, rest⟩ := @ih middle (fun op inside => within op (by simp [inside]))
      (by rw [ByteOp.apply_length first]; exact fits)
    exact ⟨after, by rw [applyOps_cons, first, Option.bind_some, rest]⟩

theorem applyOps_frame (applied : applyOps ops buffer = some after)
    (within : ∀ op ∈ ops, op.Within start width)
    (outside : position < start ∨ start + width ≤ position) :
    bitAt after position = bitAt buffer position := by
  induction ops generalizing buffer with
  | nil => simp_all
  | cons op _ ih =>
    rw [applyOps_cons] at applied
    obtain ⟨middle, first, rest⟩ := Option.bind_eq_some_iff.1 applied
    rw [ih rest fun op inside => within op (by simp [inside]),
      ByteOp.apply_frame first (within op (by simp)) outside]

theorem applyOps_setBits {positions : List Nat}
    (applied : applyOps (positions.map .setBit) buffer = some after) :
    bitAt after position = (bitAt buffer position || decide (position ∈ positions)) := by
  induction positions generalizing buffer with
  | nil => simp_all
  | cons _ _ ih =>
    rw [List.map_cons] at applied
    obtain ⟨middle, first, rest⟩ := Option.bind_eq_some_iff.1 applied
    rw [ih rest, ByteOp.apply_bitAt first]
    simp only [ByteOp.bitAfter, List.mem_cons, Bool.decide_or, Bool.or_assoc]

theorem applyOps_append :
    applyOps (ops ++ more) buffer = (applyOps ops buffer).bind (applyOps more) := by
  induction ops generalizing buffer with
  | nil => rfl
  | cons _ _ ih =>
    rw [List.cons_append, applyOps_cons, applyOps_cons, Option.bind_assoc]
    congr 1
    funext middle
    exact ih

theorem applyOps_stores {first count : Nat} {bytes : Nat → UInt8}
    (applied : applyOps ((List.range count).map fun i => .store (first + i) (bytes i)) buffer =
      some after) (inside : first ≤ position / 8) (bound : position / 8 < first + count) :
    bitAt after position = bitOf (bytes (position / 8 - first)) (position % 8) := by
  induction count generalizing after with
  | zero => omega
  | succ count ih =>
    rw [List.range_succ, List.map_append, applyOps_append] at applied
    obtain ⟨middle, earlier, last⟩ := Option.bind_eq_some_iff.1 applied
    rw [List.map_cons] at last
    obtain ⟨_, stored, done⟩ := Option.bind_eq_some_iff.1 last
    obtain rfl := Option.some.inj done
    rw [ByteOp.apply_bitAt stored]
    by_cases here : position / 8 = first + count
    · rw [show position / 8 - first = count by omega]
      exact if_pos here
    · rw [ih earlier (by omega)]
      exact if_neg here

end

end Koja.Lib
