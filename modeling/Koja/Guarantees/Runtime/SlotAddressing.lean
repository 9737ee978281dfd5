import Koja.Source.Runtime.SlotArena
import Mathlib.Algebra.Order.Ring.Nat

/-!
# Slot addressing

Chunk `k` of the slot arena spans the indices from `64 * (2 ^ k - 1)` on, so the chunk of an index
is the position of the highest bit of its granule number, and an arena that grows by one slot at a
time allocates its chunks in order.
-/
namespace Koja.Guarantees.Runtime
open Koja.Source.Runtime

/-- The first index of a chunk. -/
def chunkStart (chunk : Nat) : Nat := baseChunk * (2 ^ chunk - 1)

theorem chunkLen_eq (chunk : Nat) : chunkLen chunk = baseChunk * 2 ^ chunk :=
  Nat.shiftLeft_eq _ _

theorem chunkStart_succ (chunk : Nat) :
    chunkStart (chunk + 1) = chunkStart chunk + chunkLen chunk := by
  have positive := Nat.two_pow_pos chunk
  rw [chunkLen_eq, chunkStart, chunkStart, Nat.pow_succ]
  unfold baseChunk
  omega

theorem chunkStart_strictMono : StrictMono chunkStart := by
  refine strictMono_nat_of_lt_succ fun chunk => ?_
  have positive := Nat.two_pow_pos chunk
  rw [chunkStart_succ, chunkLen_eq]
  unfold baseChunk
  omega

theorem sum_chunkLen (count : Nat) :
    ((List.range count).map chunkLen).sum = chunkStart count := by
  induction count with
  | zero => rfl
  | succ count ih =>
    rw [List.range_succ, List.map_append, List.sum_append, ih, chunkStart_succ]
    rfl

variable {index chunk offset allocated : Nat}

/-- The leading zeros of a word end at its highest bit. -/
theorem highBit_eq {word : Nat} (low : 2 ^ chunk ≤ word) (high : word < 2 ^ (chunk + 1))
    (fits : word < 2 ^ 64) : 64 - 1 - (BitVec.ofNat 64 word).clz.toNat = chunk := by
  have value : (BitVec.ofNat 64 word).toNat = word := by
    rw [BitVec.toNat_ofNat, Nat.mod_eq_of_lt fits]
  have positive := Nat.two_pow_pos chunk
  have nonzero : BitVec.ofNat 64 word ≠ 0#64 := by
    intro zero
    rw [zero, BitVec.toNat_zero] at value
    omega
  have least := BitVec.two_pow_sub_clz_le_toNat_of_ne_zero (by decide) nonzero
  have most := @BitVec.toNat_lt_two_pow_sub_clz 64 (BitVec.ofNat 64 word)
  rw [value] at least most
  have below := (Nat.pow_lt_pow_iff_right (by decide)).mp (least.trans_lt high)
  have above := (Nat.pow_lt_pow_iff_right (by decide)).mp (low.trans_lt most)
  omega

theorem chunkPosition_at (inside : chunk < maxChunks) (short : offset < chunkLen chunk) :
    chunkPosition (chunkStart chunk + offset) = (chunk, offset) := by
  have positive := Nat.two_pow_pos chunk
  have bound : 2 ^ chunk < 2 ^ maxChunks := Nat.pow_lt_pow_right (by decide) inside
  rw [chunkLen_eq] at short
  unfold baseChunk at short
  unfold maxChunks at bound
  have granule : (chunkStart chunk + offset) / baseChunk + 1 = 2 ^ chunk + offset / 64 := by
    unfold chunkStart baseChunk
    omega
  have high : 64 - 1 - (BitVec.ofNat 64 (2 ^ chunk + offset / 64)).clz.toNat = chunk :=
    highBit_eq (by omega) (by omega) (by omega)
  unfold chunkPosition
  rw [granule]
  dsimp only
  rw [high, Nat.one_shiftLeft, ← chunkStart, Nat.add_sub_cancel_left]

/-- Up to the end of the last chunk every index lies in one chunk. -/
theorem chunkPosition_iff (inside : index < chunkStart maxChunks) :
    chunkPosition index = (chunk, offset) ↔
      chunk < maxChunks ∧ offset < chunkLen chunk ∧ index = chunkStart chunk + offset := by
  constructor
  · intro position
    obtain ⟨found, low, high⟩ : ∃ found, chunkStart found ≤ index ∧
        index < chunkStart (found + 1) := by
      have low : 2 ^ (index / 64 + 1).log2 ≤ index / 64 + 1 :=
        Nat.log2_self_le (Nat.succ_ne_zero _)
      have high := @Nat.lt_log2_self (index / 64 + 1)
      refine ⟨(index / 64 + 1).log2, ?_⟩
      unfold chunkStart baseChunk
      omega
    obtain ⟨rest, rfl⟩ := Nat.exists_eq_add_of_le low
    rw [chunkStart_succ, Nat.add_lt_add_iff_left] at high
    have early := chunkStart_strictMono.lt_iff_lt.mp (low.trans_lt inside)
    cases (chunkPosition_at early high).symm.trans position
    exact ⟨early, high, rfl⟩
  · rintro ⟨early, short, rfl⟩
    exact chunkPosition_at early short

theorem chunk_spans (short : offset < chunkLen chunk) :
    chunkStart chunk + offset < chunkStart allocated ↔ chunk < allocated := by
  have next := chunkStart_succ chunk
  constructor
  · intro below
    exact chunkStart_strictMono.lt_iff_lt.mp (by omega)
  · intro early
    have : chunkStart (chunk + 1) ≤ chunkStart allocated := chunkStart_strictMono.monotone early
    omega

variable {S : Type} {fresh : S} {arena : SlotArena S} {count : Nat}

/-- The first `allocated` chunks are there, no more than `count` slots need. -/
structure ArenaGrown (fresh : S) (count allocated : Nat) (arena : SlotArena S) : Prop where
  published : arena.published = count
  chunks : ∀ chunk, arena.chunks chunk =
    if chunk < allocated then some (List.replicate (chunkLen chunk) fresh) else none
  covered : count ≤ chunkStart allocated
  needed : ∀ chunk < allocated, chunkStart chunk < count

theorem ArenaGrown.grow (grown : ArenaGrown fresh count allocated arena)
    (room : count < chunkStart maxChunks) :
    ∃ arena' allocated', arena.grow fresh = some (count.toUInt32, arena') ∧
      ArenaGrown fresh (count + 1) allocated' arena' := by
  obtain ⟨published, chunks, covered, needed⟩ := grown
  rcases position : chunkPosition count with ⟨chunk, offset⟩
  obtain ⟨early, short, start⟩ := (chunkPosition_iff room).mp position
  have next := chunkStart_succ chunk
  simp only [SlotArena.grow, published, position, if_pos early]
  by_cases there : chunk < allocated
  · refine ⟨_, allocated, rfl, rfl, ?_, ?_, fun other less => Nat.lt_succ_of_lt (needed other less)⟩
    · simp [chunks, there]
    · rw [start]
      exact (chunk_spans short).mpr there
  · -- The index is the first of its chunk, and the chunks before it are all there.
    obtain rfl : chunk = allocated := by
      refine le_antisymm ?_ (not_lt.mp there)
      exact chunkStart_strictMono.le_iff_le.mp (by omega)
    refine ⟨_, chunk + 1, rfl, rfl, fun other => ?_, by omega, fun other less => ?_⟩
    · rw [chunks, if_neg there]
      rcases eq_or_ne other chunk with rfl | apart
      · simp
      · have same : other < chunk + 1 ↔ other < chunk := by omega
        simp [apart, chunks, same]
    · have := chunkStart_strictMono.monotone (Nat.le_of_lt_succ less)
      omega

theorem growTimes_grown (fits : count ≤ chunkStart maxChunks) :
    ∃ arena allocated, SlotArena.growTimes fresh count = some arena ∧
      ArenaGrown fresh count allocated arena := by
  induction count with
  | zero => exact ⟨_, 0, rfl, rfl, fun _ => rfl, Nat.zero_le _, by simp⟩
  | succ count ih =>
    obtain ⟨arena, allocated, run, grown⟩ := ih (Nat.le_of_succ_le fits)
    obtain ⟨arena', allocated', grows, grown'⟩ := grown.grow fits
    refine ⟨arena', allocated', ?_, grown'⟩
    simp [SlotArena.growTimes, run, grows]

theorem index_inside (index : UInt32) : index.toNat < chunkStart maxChunks :=
  index.toNat_lt.trans (by decide)

/-- Chunk and offset of an index are those of the one chunk that spans it, whatever the index. As
the arena grows slot by slot, to the end of the last chunk if it must, the indices below the length
of the chunks allocated so far are those whose chunk is allocated, each names a slot there, and the
published ones can be read. -/
theorem slot_addressing_bijective :
    (∀ (i : UInt32) (c o : Nat), chunkPosition i.toNat = (c, o) ↔
      c < maxChunks ∧ o < chunkLen c ∧ i.toNat = 64 * (2 ^ c - 1) + o) ∧
    (∀ i j : UInt32, chunkPosition i.toNat = chunkPosition j.toNat → i = j) ∧
    ∀ (S : Type) (fresh : S) (count : Nat), count ≤ ((List.range maxChunks).map chunkLen).sum →
      ∃ arena allocated, SlotArena.growTimes fresh count = some arena ∧
        (∀ c, (arena.chunks c).map List.length = if c < allocated then some
          (chunkLen c) else none) ∧
        ∀ (i : UInt32) (c o : Nat), chunkPosition i.toNat = (c, o) →
          (i.toNat < ((List.range allocated).map chunkLen).sum ↔ (arena.chunks c).isSome) ∧
          (∀ slots, arena.chunks c = some slots → o < slots.length) ∧
          (i.toNat < count → arena.get i = some fresh) := by
  have position (i : UInt32) (c o : Nat) := @chunkPosition_iff i.toNat c o (index_inside i)
  refine ⟨position, fun i j same => ?_, fun S fresh count fits => ?_⟩
  · obtain ⟨-, -, start⟩ := (position i _ _).mp rfl
    obtain ⟨-, -, start'⟩ := (position j _ _).mp same.symm
    exact UInt32.toNat_inj.mp (start.trans start'.symm)
  · rw [sum_chunkLen] at fits
    obtain ⟨arena, allocated, run, grown⟩ := @growTimes_grown S fresh count fits
    refine ⟨arena, allocated, run, fun c => ?_, fun i c o located => ?_⟩
    · rw [grown.chunks]
      split <;> simp
    · obtain ⟨-, short, start⟩ := (position i c o).mp located
      have spans := @chunk_spans c o allocated short
      rw [← start] at spans
      rw [sum_chunkLen, spans, grown.chunks]
      refine ⟨by split <;> simp [*], fun slots there => ?_, fun read => ?_⟩
      · split at there
        · cases there
          rwa [List.length_replicate]
        · cases there
      · have early := spans.mp (read.trans_le grown.covered)
        simp [SlotArena.get, grown.published, not_le.mpr read, located, grown.chunks, early, short]

end Koja.Guarantees.Runtime
