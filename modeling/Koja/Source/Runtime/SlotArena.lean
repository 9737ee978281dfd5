import Mathlib.Logic.Function.Basic

/-!
# The slot arena

The chunked slot storage of `koja-runtime-core/src/process_table.rs`, with words of type `usize`
64 bits wide. A chunk pointer that is still null is `none`.
-/
namespace Koja.Source.Runtime

/-- Slots of chunk 0; chunk `k` holds `baseChunk << k`. -/
def baseChunk : Nat := 64

def maxChunks : Nat := 32

/-- The chunk of an index and its offset there. -/
def chunkPosition (index : Nat) : Nat × Nat :=
  let granule := index / baseChunk + 1
  let chunk := 64 - 1 - (BitVec.ofNat 64 granule).clz.toNat
  let offset := index - baseChunk * ((1 <<< chunk) - 1)
  (chunk, offset)

def chunkLen (chunk : Nat) : Nat := baseChunk <<< chunk

structure SlotArena (S : Type) where
  chunks : Nat → Option (List S)
  published : Nat

namespace SlotArena
variable {S : Type}

def new : SlotArena S := ⟨fun _ => none, 0⟩

/-- The slot at `index`, or `none` beyond the published length. -/
def get (arena : SlotArena S) (index : UInt32) : Option S :=
  if index.toNat ≥ arena.published then none
  else
    let (chunk, offset) := chunkPosition index.toNat
    (arena.chunks chunk).bind (·[offset]?)

/-- Publishes one more slot, allocating its chunk if this index is the first to land there.
`none`: the chunk lies beyond the pointer array. -/
def grow (fresh : S) (arena : SlotArena S) : Option (UInt32 × SlotArena S) :=
  let index := arena.published
  let (chunk, _) := chunkPosition index
  if chunk < maxChunks then
    let chunks := if (arena.chunks chunk).isNone then
        Function.update arena.chunks chunk (some (List.replicate (chunkLen chunk) fresh))
      else arena.chunks
    some (index.toUInt32, ⟨chunks, index + 1⟩)
  else none

/-- The arena after `count` growths. -/
def growTimes (fresh : S) : Nat → Option (SlotArena S)
  | 0 => some new
  | count + 1 => do
    let arena ← growTimes fresh count
    let (_, arena) ← arena.grow fresh
    return arena

end SlotArena

end Koja.Source.Runtime
