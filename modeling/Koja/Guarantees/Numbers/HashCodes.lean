import Mathlib.Logic.Function.Basic
import Koja.Source.Llvm.Hash

/-!
# Hash codes of the two backends

Byte strings hash alike. Numbers do not: the interpreter adds the SplitMix64 increment before it
mixes, native code mixes the value itself, and mixing is injective.
-/
namespace Koja.Guarantees.Numbers

open Koja.Source Koja.Source.Ir

/-- The cell of `Hash.hash` for a value. -/
def hashImpl : Datum → Option HashImpl
  | .int kind _ => some (.int kind)
  | .bool _ => some .bool
  | .string _ => some .string
  | .binary _ => some .binary
  | _ => none

/-- Both backends return the same code. -/
def SameCode (impl : HashImpl) (datum : Datum) : Prop :=
  ∃ code, Eval.hash impl (Eval.valueOf datum) = some (.int code) ∧
    Llvm.hash impl (Llvm.valueOf datum) = some (.int 64 code)

theorem fnvLoop_eq (front rest : List UInt8) (hash : BitVec 64) :
    Llvm.fnvLoop (front ++ rest) front.length hash rest.length = some (rest.foldl
      (fun hash byte => (hash ^^^ byte.toBitVec.setWidth 64) * Eval.fnvPrime) hash) := by
  induction rest generalizing front hash with
  | nil => rfl
  | cons byte rest ih =>
    have next := ih (front ++ [byte]) ((hash ^^^ byte.toBitVec.setWidth 64) * Eval.fnvPrime)
    rw [List.append_assoc, List.length_append] at next
    simpa [Llvm.fnvLoop, show Llvm.fnvPrime = Eval.fnvPrime from rfl] using next

theorem emitBytesHash_eq (bytes : List UInt8) :
    Llvm.emitBytesHash (.ofBytes bytes) = some (Eval.fnv1a bytes) := by
  unfold Llvm.emitBytesHash Llvm.Block.ofBytes
  rw [Nat.mul_div_cancel_left _ (by decide)]
  exact fnvLoop_eq [] bytes _

/-! ## Mixing -/

theorem xorShift_injective {k : Nat} (positive : 0 < k) :
    Function.Injective fun z : BitVec 64 => z ^^^ z >>> k := by
  intro x y same
  -- A bit is fixed by the mixed bit and the bit `k` places above it.
  have bits : ∀ above i, 64 ≤ i + above → x.getLsbD i = y.getLsbD i := by
    intro above
    induction above with
    | zero =>
      intro i high
      rw [BitVec.getLsbD_of_ge _ _ (by omega), BitVec.getLsbD_of_ge _ _ (by omega)]
    | succ above ih =>
      intro i high
      have mixed := congrArg (BitVec.getLsbD · i) same
      simp only [BitVec.getLsbD_xor, BitVec.getLsbD_ushiftRight, ih (k + i) (by omega)] at mixed
      exact Bool.xor_left_inj.mp mixed
  exact BitVec.eq_of_getLsbD_eq fun i _ => bits 64 i (by omega)

theorem mul_injective {c : BitVec 64} (d : BitVec 64) (inverts : c * d = 1) :
    Function.Injective fun z : BitVec 64 => z * c := by
  intro x y same
  have restored := congrArg (· * d) same
  simpa [BitVec.mul_assoc, inverts] using restored

theorem native_splitmix64_injective : Function.Injective Llvm.splitmix64 :=
  (@xorShift_injective 31 (by decide)).comp ((mul_injective 0x319642b2d24d8ec3 (by decide)).comp
    ((@xorShift_injective 27 (by decide)).comp ((mul_injective 0x96de1b173f119089 (by decide)).comp
    (@xorShift_injective 30 (by decide)))))

/-- The increment is odd, so numbers with the same last bit never hash alike. -/
theorem not_sameCode {impl : HashImpl} {datum : Datum} {x y : BitVec 64}
    (eval : Eval.hash impl (Eval.valueOf datum) = some (.int (Eval.splitmix64 x)))
    (native : Llvm.hash impl (Llvm.valueOf datum) = some (.int 64 (Llvm.splitmix64 y)))
    (low : x.getLsbD 0 = y.getLsbD 0) : ¬ SameCode impl datum := by
  rintro ⟨code, first, second⟩
  rw [eval] at first
  rw [native] at second
  cases first
  have mixed : Llvm.splitmix64 y = Eval.splitmix64 x := by simpa using second
  have moved : y = x + 0x9E3779B97F4A7C15 := native_splitmix64_injective mixed
  rw [moved, BitVec.getLsbD_add (by decide), BitVec.carry_zero] at low
  simp at low

/-- The two backends agree exactly on strings and binaries. -/
theorem hash_codes_agree_iff (datum : Datum) (impl : HashImpl)
    (covered : hashImpl datum = some impl) :
    SameCode impl datum ↔ impl = .string ∨ impl = .binary := by
  cases datum with
  | int kind pattern =>
    cases covered
    refine iff_of_false (not_sameCode rfl rfl ?_) (by simp)
    have positive : 0 < kind.width := by cases kind <;> decide
    split_ifs <;> simp [BitVec.getElem_signExtend, positive]
  | bool value =>
    cases covered
    exact iff_of_false (not_sameCode rfl rfl rfl) (by simp)
  | string bytes | binary bytes =>
    cases covered
    refine iff_of_true ⟨Eval.fnv1a bytes, rfl, ?_⟩ (by simp)
    exact congrArg (Option.map _) (emitBytesHash_eq bytes)
  | _ => cases covered

theorem koja_hashes_alike : SameCode .string (.string [107, 111, 106, 97]) :=
  (hash_codes_agree_iff _ _ rfl).mpr (.inl rfl)

theorem zero_hashes_differently : ¬ SameCode (.int .int64) (.int .int64 0) := by
  rintro ⟨code, eval, native⟩
  cases eval
  exact absurd native (by decide)

end Koja.Guarantees.Numbers
