import Mathlib
import Koja.Source.Stdlib.Checksum

/-!
# The checksum is a cyclic redundancy check

The register holds a polynomial over the two-element field, its lowest bit the highest coefficient.
Modulo the generator a bit step multiplies it by `X`, and a byte joins it with its last bit at
`X ^ 24`, so the loops compute a remainder.
-/
namespace Koja.Guarantees.Numbers

open Koja.Source.Stdlib.Checksum Polynomial List

noncomputable section

/-- The polynomial with the given coefficients, the highest one first. -/
def polyOf : List Bool → (ZMod 2)[X]
  | [] => 0
  | bit :: rest => C (bit.toNat : ZMod 2) * X ^ rest.length + polyOf rest

/-- The bits of a byte in the order they are sent. -/
def byteBits (byte : BitVec 8) : List Bool :=
  (range 8).map byte.getLsbD

/-- The bits of a message in the order they are sent. -/
def sentBits (data : List (BitVec 8)) : List Bool :=
  data.flatMap byteBits

/-- The polynomial a register holds. -/
def registerPoly (crc : BitVec 32) : (ZMod 2)[X] :=
  polyOf ((range 32).map crc.getLsbD)

/-- The generator whose lower coefficients a constant holds. -/
def generator (polynomial : BitVec 32) : (ZMod 2)[X] :=
  X ^ 32 + registerPoly polynomial

/-- The message times `X ^ 32`, with its first 32 coefficients complemented. -/
def complementedMessage (bits : List Bool) : (ZMod 2)[X] :=
  polyOf bits * X ^ 32 + polyOf (replicate 32 true) * X ^ bits.length

/-- Two messages differ within 32 consecutive bits, and nowhere else. -/
def DifferInBurst (data other : List (BitVec 8)) : Prop :=
  ∃ before burst burst' after, burst ≠ burst' ∧ burst.length ≤ 32 ∧
    burst'.length = burst.length ∧ sentBits data = before ++ burst ++ after ∧
    sentBits other = before ++ burst' ++ after

/-! ## Polynomials of bits -/

theorem polyOf_append (first second : List Bool) :
    polyOf (first ++ second) = polyOf first * X ^ second.length + polyOf second := by
  induction first with
  | nil => simp [polyOf]
  | cons bit rest ih =>
    rw [cons_append, polyOf, polyOf, ih, length_append]
    ring

theorem polyOf_xor {ι : Type} (f g : ι → Bool) (indices : List ι) :
    polyOf (indices.map fun i => f i ^^ g i) = polyOf (indices.map f) + polyOf (indices.map g) := by
  have sum : ∀ a b : Bool, ((a ^^ b).toNat : ZMod 2) = a.toNat + b.toNat := by decide
  induction indices with
  | nil => simp [polyOf]
  | cons i rest ih =>
    simp only [map_cons, polyOf, length_map, ih, sum, C_add]
    ring

theorem degree_polyOf (bits : List Bool) : (polyOf bits).degree < bits.length := by
  induction bits with
  | nil => simp [polyOf]
  | cons bit rest ih =>
    have longer : (rest.length : WithBot ℕ) < (bit :: rest).length :=
      Nat.cast_lt.mpr rest.length.lt_succ_self
    exact lt_of_le_of_lt (degree_add_le _ _)
      (max_lt (lt_of_le_of_lt (degree_C_mul_X_pow_le _ _) longer) (ih.trans longer))

theorem polyOf_inj {bits bits' : List Bool} (long : bits'.length = bits.length)
    (same : polyOf bits = polyOf bits') : bits = bits' := by
  induction bits generalizing bits' with
  | nil => exact (eq_nil_of_length_eq_zero long).symm
  | cons bit rest ih =>
    obtain _ | ⟨bit', rest'⟩ := bits'
    · cases long
    have restLong : rest'.length = rest.length := Nat.succ.inj long
    rw [polyOf, polyOf, restLong] at same
    have top := congrArg (coeff · rest.length) same
    have low := coeff_eq_zero_of_degree_lt (degree_polyOf rest)
    have low' := coeff_eq_zero_of_degree_lt (degree_polyOf rest')
    rw [restLong] at low'
    simp only [coeff_add, coeff_C_mul, coeff_X_pow_self, mul_one, low, low', add_zero] at top
    obtain rfl : bit = bit' := by
      revert top
      cases bit <;> cases bit' <;> decide
    rw [ih restLong (add_left_cancel same)]

/-! ## The register -/

/-- A bit step within 32 bits. -/
def shortStep (polynomial crc : BitVec 32) : BitVec 32 :=
  if crc.getLsbD 0 then polynomial ^^^ crc >>> 1 else crc >>> 1

/-- A byte step within 32 bits. -/
def shortByte (polynomial crc : BitVec 32) (byte : BitVec 8) : BitVec 32 :=
  (shortStep polynomial)^[8] (crc ^^^ byte.setWidth 32)

/-- The register after a message. -/
def shortCrc (polynomial : BitVec 32) (data : List (BitVec 8)) : BitVec 32 :=
  data.foldl (shortByte polynomial) (BitVec.allOnes 32)

theorem registerPoly_xor (a b : BitVec 32) :
    registerPoly (a ^^^ b) = registerPoly a + registerPoly b := by
  unfold registerPoly
  rw [← polyOf_xor]
  simp only [← BitVec.getLsbD_xor]

/-- Multiplied by `X`, a register's highest coefficient leaves it. -/
theorem registerPoly_shift (crc : BitVec 32) :
    X * registerPoly crc =
      C ((crc.getLsbD 0).toNat : ZMod 2) * X ^ 32 + registerPoly (crc >>> 1) := by
  have bits : (crc >>> 1).getLsbD = fun i => crc.getLsbD (i + 1) := by
    funext i
    rw [BitVec.getLsbD_ushiftRight, Nat.add_comm]
  have last : registerPoly (crc >>> 1) =
      polyOf ((range 31).map fun i => crc.getLsbD (i + 1)) * X := by
    unfold registerPoly
    rw [bits, range_succ, map_append, polyOf_append]
    simp [polyOf]
  have first : registerPoly crc = C ((crc.getLsbD 0).toNat : ZMod 2) * X ^ 31 +
      polyOf ((range 31).map fun i => crc.getLsbD (i + 1)) := by
    unfold registerPoly
    rw [range_succ_eq_map, map_cons, map_map, polyOf, length_map, length_range]
    rfl
  rw [first, last]
  ring

theorem registerPoly_byte (byte : BitVec 8) :
    registerPoly (byte.setWidth 32) = polyOf (byteBits byte) * X ^ 24 := by
  have bits : (range 32).map (byte.setWidth 32).getLsbD = byteBits byte ++ replicate 24 false := by
    revert byte
    decide +kernel
  have noBits : polyOf (replicate 24 false) = 0 := by simp [polyOf, replicate]
  unfold registerPoly
  rw [bits, polyOf_append, noBits, add_zero, length_replicate]

variable (polynomial : BitVec 32)

theorem residue_step (crc : BitVec 32) :
    AdjoinRoot.mk (generator polynomial) (registerPoly (shortStep polynomial crc)) =
      AdjoinRoot.mk (generator polynomial) (X * registerPoly crc) := by
  rw [registerPoly_shift, AdjoinRoot.mk_eq_mk]
  unfold shortStep
  cases crc.getLsbD 0
  · simp
  · refine ⟨-1, ?_⟩
    unfold generator
    simp only [if_true, registerPoly_xor, Bool.toNat_true, Nat.cast_one, C_1, one_mul]
    linear_combination (registerPoly polynomial) * (CharTwo.two_eq_zero : (2 : (ZMod 2)[X]) = 0)

theorem residue_steps (crc : BitVec 32) (n : Nat) :
    AdjoinRoot.mk (generator polynomial) (registerPoly ((shortStep polynomial)^[n] crc)) =
      AdjoinRoot.mk (generator polynomial) (X ^ n * registerPoly crc) := by
  induction n with
  | zero => simp
  | succ n ih =>
    rw [Function.iterate_succ_apply', residue_step, map_mul, ih, ← map_mul]
    ring_nf

theorem residue_message (data : List (BitVec 8)) :
    AdjoinRoot.mk (generator polynomial) (registerPoly (shortCrc polynomial data)) =
      AdjoinRoot.mk (generator polynomial) (complementedMessage (sentBits data)) := by
  induction data using reverseRecOn with
  | nil =>
    have ones : (range 32).map (BitVec.allOnes 32).getLsbD = replicate 32 true := by decide
    refine congrArg (AdjoinRoot.mk _) ?_
    unfold registerPoly shortCrc complementedMessage
    rw [foldl_nil, ones]
    simp [sentBits, show polyOf [] = 0 from rfl]
  | append_singleton data byte ih =>
    have bits : sentBits (data ++ [byte]) = sentBits data ++ byteBits byte := by
      simp [sentBits]
    have eight : (byteBits byte).length = 8 := rfl
    unfold shortCrc at ih ⊢
    rw [foldl_append, foldl_cons, foldl_nil, shortByte, residue_steps, registerPoly_xor, mul_add,
      map_add, map_mul, ih, ← map_mul, ← map_add, registerPoly_byte, bits]
    unfold complementedMessage
    rw [polyOf_append, length_append, eight]
    ring_nf

/-! ## The 64-bit loops -/

theorem bitStep_setWidth (crc : BitVec 32) :
    bitStep (polynomial.setWidth 64) (crc.setWidth 64) =
      (shortStep polynomial crc).setWidth 64 := by
  have low : crc.setWidth 64 &&& 1 = 1 ↔ crc.getLsbD 0 = true := by
    have bit := @BitVec.and_one_eq_setWidth_ofBool_getLsbD 64 (crc.setWidth 64)
    rw [BitVec.ofNat_eq_ofNat, bit, BitVec.getLsbD_setWidth]
    cases crc.getLsbD 0 <;> simp
  have shifted : (crc.setWidth 64).sshiftRight 1 = (crc >>> 1).setWidth 64 := by
    rw [BitVec.sshiftRight_eq_of_msb_false (by simp [BitVec.msb_setWidth])]
    simp [BitVec.setWidth_ushiftRight]
  unfold bitStep shortStep
  simp only [low, shifted]
  split <;> simp [BitVec.setWidth_xor]

theorem bitSteps_setWidth (crc : BitVec 32) (byte : BitVec 8) (n : Nat) :
    (bitStep (polynomial.setWidth 64))^[n] (crc.setWidth 64 ^^^ byte.setWidth 64) =
      ((shortStep polynomial)^[n] (crc ^^^ byte.setWidth 32)).setWidth 64 := by
  have steps : Function.Semiconj (BitVec.setWidth 64) (shortStep polynomial)
      (bitStep (polynomial.setWidth 64)) := fun crc => (bitStep_setWidth polynomial crc).symm
  rw [(steps.iterate_right n).eq, BitVec.setWidth_xor]
  simp

theorem byteStep_setWidth (crc : BitVec 32) (byte : BitVec 8) :
    byteStep (polynomial.setWidth 64) (crc.setWidth 64) byte =
      (shortByte polynomial crc byte).setWidth 64 :=
  bitSteps_setWidth polynomial crc byte 8

theorem byteLoop_eq (data : List (BitVec 8)) (crc : BitVec 32) (rounds index : Nat)
    (inside : index + rounds ≤ data.length) :
    byteLoop data (polynomial.setWidth 64) rounds index (crc.setWidth 64) =
      some ((((data.drop index).take rounds).foldl (shortByte polynomial) crc).setWidth 64) := by
  induction rounds generalizing index crc with
  | zero => simp [byteLoop]
  | succ rounds ih =>
    have here : index < data.length := by omega
    rw [byteLoop, getElem?_eq_getElem here, drop_eq_getElem_cons here, take_succ_cons, foldl_cons]
    simp only [Option.bind_eq_bind, Option.bind_some, byteStep_setWidth]
    exact ih _ _ (by omega)

theorem calculate_eq (data : List (BitVec 8)) :
    calculate data (polynomial.setWidth 64) = some (~~~ shortCrc polynomial data) := by
  have looped := byteLoop_eq polynomial data (BitVec.allOnes 32) data.length 0 (by omega)
  rw [drop_zero, take_length] at looped
  have converted : ∀ value : BitVec 32, toUint32 (value.setWidth 64) = some value := by
    intro value
    unfold toUint32
    rw [BitVec.toInt_eq_toNat_of_lt (by bv_omega), if_pos (by bv_omega)]
    simp
  unfold calculate
  rw [show crcInitial = (BitVec.allOnes 32).setWidth 64 from rfl, looped]
  show toUint32 ((shortCrc polynomial data).setWidth 64 ^^^ (BitVec.allOnes 32).setWidth 64) = _
  rw [← BitVec.setWidth_xor, BitVec.xor_allOnes, converted]

/-! ## Remainders and bursts -/

theorem degree_registerPoly (crc : BitVec 32) : (registerPoly crc).degree < (32 : ℕ) := by
  have bound := degree_polyOf ((range 32).map crc.getLsbD)
  rwa [length_map, length_range] at bound

theorem generator_monic : (generator polynomial).Monic :=
  monic_X_pow_add (degree_registerPoly polynomial)

theorem degree_generator : (generator polynomial).degree = (32 : ℕ) := by
  unfold generator
  rw [degree_add_eq_left_of_degree_lt] <;> rw [degree_X_pow]
  exact degree_registerPoly polynomial

/-- A constant whose highest bit is set is a generator with a constant term. -/
theorem generator_coprime (odd : polynomial.getLsbD 31 = true) :
    IsCoprime (generator polynomial) X := by
  have split : registerPoly polynomial = polyOf ((range 31).map polynomial.getLsbD) * X + 1 := by
    unfold registerPoly
    rw [range_succ, map_append, polyOf_append, map_singleton, odd]
    simp [polyOf]
  unfold generator
  rw [split]
  exact ⟨1, -(X ^ 31 + polyOf ((range 31).map polynomial.getLsbD)), by ring⟩

/-- The register holds the remainder of the message. -/
theorem registerPoly_shortCrc (data : List (BitVec 8)) :
    registerPoly (shortCrc polynomial data) =
      complementedMessage (sentBits data) %ₘ generator polynomial := by
  have divides := AdjoinRoot.mk_eq_mk.mp (residue_message polynomial data)
  have monic := generator_monic polynomial
  rw [← modByMonic_eq_of_dvd_sub monic divides, (modByMonic_eq_self_iff monic).mpr]
  rw [degree_generator]
  exact degree_registerPoly _

theorem burst_detected (odd : polynomial.getLsbD 31 = true) {data other : List (BitVec 8)}
    (burst : DifferInBurst data other) : shortCrc polynomial data ≠ shortCrc polynomial other := by
  intro same
  obtain ⟨before, burst, burst', after, apart, short, long, bits, bits'⟩ := burst
  have equal := residue_message polynomial data
  rw [same, residue_message polynomial other] at equal
  have divides := AdjoinRoot.mk_eq_mk.mp equal
  have difference : complementedMessage (sentBits other) - complementedMessage (sentBits data) =
      (polyOf burst' - polyOf burst) * X ^ (after.length + 32) := by
    unfold complementedMessage
    rw [bits, bits']
    simp only [polyOf_append, length_append, long]
    ring
  rw [difference] at divides
  have sameBurst : polyOf burst' - polyOf burst = 0 := by
    by_contra nonzero
    refine (generator_monic polynomial).not_dvd_of_degree_lt nonzero ?_
      ((generator_coprime polynomial odd).pow_right.dvd_of_dvd_mul_right divides)
    have bound : ∀ {bits : List Bool}, bits.length ≤ 32 → (polyOf bits).degree < (32 : ℕ) :=
      fun fits => (degree_polyOf _).trans_le (Nat.cast_le.mpr fits)
    rw [degree_generator]
    exact (degree_sub_le _ _).trans_lt (max_lt (bound (long.le.trans short)) (bound short))
  exact apart (polyOf_inj long (sub_eq_zero.mp sameBurst).symm)

end

/-- For both constants and every message: after each byte, and each bit of the next, the register is
within 32 bits, the checksum is the complement of the remainder of the message, and a message that
differs within 32 consecutive bits has another checksum. -/
theorem checksum_is_cyclic_redundancy (data : List (BitVec 8)) (polynomial : BitVec 64)
    (given : polynomial = crc32Polynomial ∨ polynomial = crc32cPolynomial) :
    (∀ rounds ≤ data.length, ∃ crc : BitVec 32,
      byteLoop data polynomial rounds 0 crcInitial = some (crc.setWidth 64) ∧
      ∀ byte ∈ data[rounds]?, ∀ bits ≤ 8, ∃ inner : BitVec 32, (bitStep polynomial)^[bits]
        (crc.setWidth 64 ^^^ byte.setWidth 64) = inner.setWidth 64) ∧
    (∃ crc, calculate data polynomial = some crc ∧ registerPoly (~~~ crc) =
      complementedMessage (sentBits data) %ₘ generator (polynomial.setWidth 32)) ∧
    ∀ other, DifferInBurst data other → calculate data polynomial ≠ calculate other polynomial := by
  obtain ⟨short, odd, rfl⟩ : ∃ short : BitVec 32, short.getLsbD 31 = true ∧
      polynomial = short.setWidth 64 := by
    obtain rfl | rfl := given
    · exact ⟨0xEDB88320, by decide, by decide⟩
    · exact ⟨0x82F63B78, by decide, by decide⟩
  rw [BitVec.setWidth_setWidth_of_le _ (by decide), BitVec.setWidth_eq]
  refine ⟨fun rounds inside => ?_, ⟨_, calculate_eq short data, ?_⟩, fun other burst same => ?_⟩
  · exact ⟨_, byteLoop_eq short data (BitVec.allOnes 32) rounds 0 (by omega),
      fun byte _ bits _ => ⟨_, bitSteps_setWidth short _ byte bits⟩⟩
  · rw [BitVec.not_not]
    exact registerPoly_shortCrc short data
  · rw [calculate_eq, calculate_eq, Option.some.injEq, BitVec.not_inj] at same
    exact burst_detected short odd burst same

/-- One bit changed. -/
theorem changed_bit_detected : crc32 [0, 0] ≠ crc32 [0, 1] :=
  (checksum_is_cyclic_redundancy [0, 0] crc32Polynomial (.inl rfl)).2.2 [0, 1]
    ⟨replicate 8 false, [false], [true], replicate 7 false, nofun, by decide, rfl, rfl, rfl⟩

end Koja.Guarantees.Numbers
