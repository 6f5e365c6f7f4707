import Mathlib.Algebra.Group.Nat.Defs
import Mathlib.Data.List.Perm.Subperm
import Mathlib.Logic.Function.Basic
import Mathlib.Logic.Relation

/-!
The pools from which items of one size are taken. Items are carved off chunks, a chunk stands in one of
three lists, and the list says whether it is empty, used or full. Empty chunks are given back by the
garbage collector when they were not needed since it ran last.
-/

namespace IrcdHybrid.MemoryPools

open Function

abbrev ChunkPtr := ℕ

/-- An item, by its chunk and its place in it. -/
abbrev Item := ChunkPtr × ℕ

/-- `mp_chunk_t`; `nextMem` counts what was carved off. -/
structure Chunk where
  firstFree : List ℕ
  nAllocated : ℕ
  nextMem : ℕ

/-- `mp_pool_t`, with its chunks. -/
structure Pool where
  emptyChunks : List ChunkPtr
  usedChunks : List ChunkPtr
  fullChunks : List ChunkPtr
  nEmptyChunks : ℕ
  minEmptyChunks : ℕ
  newChunkCapacity : ℕ
  totalItemsAllocated : ℕ
  totalChunksAllocated : ℕ
  totalChunksFreed : ℕ
  chunks : ChunkPtr → Option Chunk

def setChunk (pool : Pool) (k : ChunkPtr) (c : Chunk) : Pool := { pool with chunks := update pool.chunks k (some c) }

/-- One step of `tor_log2`: what is left of the number, and the logarithm so far. -/
def log2Step (n : ℕ) (u : ℕ × ℕ) : ℕ × ℕ := if 2 ^ n ≤ u.1 then (u.1 / 2 ^ n, u.2 + n) else u

def torLog2 (u64 : ℕ) : ℕ :=
  (log2Step 1 (log2Step 2 (log2Step 4 (log2Step 8 (log2Step 16 (log2Step 32 (u64, 0))))))).2

/-- `round_to_power_of_2` -/
def roundToPowerOf2 (u64 : ℕ) : ℕ :=
  if u64 = 0 then 1
  else
    let lg2 := torLog2 u64
    let low := 2 ^ lg2
    if lg2 = 63 then low
    else
      let high := 2 ^ (lg2 + 1)
      if high - u64 < u64 - low then high else low

/-- `sizeof` and `offsetof` where a pointer has eight bytes. -/
def ALIGNMENT : ℕ := 8
def ITEM_OVERHEAD : ℕ := 8
def SIZEOF_ALLOCATED : ℕ := 16
def CHUNK_OVERHEAD : ℕ := 64

def MAX_CHUNK : ℕ := 8 * 2 ^ 20
def MIN_CHUNK : ℕ := 4096

/-- `item_alloc_size` -/
def itemAllocSize (itemSize : ℕ) : ℕ :=
  let size := ITEM_OVERHEAD + itemSize
  let size := if size < SIZEOF_ALLOCATED then SIZEOF_ALLOCATED else size
  let size := if size % ALIGNMENT ≠ 0 then size + ALIGNMENT - size % ALIGNMENT else size
  if size < ALIGNMENT then ALIGNMENT else size

/-- The loop that doubles the size of a chunk. -/
def growChunk (need chunkCapacity : ℕ) : ℕ :=
  if 0 < chunkCapacity ∧ chunkCapacity < need then growChunk need (chunkCapacity * 2) else chunkCapacity
termination_by need - chunkCapacity

/-- How many bytes a chunk has. -/
def chunkBytes (itemSize chunkCapacity : ℕ) : ℕ :=
  let bytes := roundToPowerOf2 (if MAX_CHUNK < chunkCapacity then MAX_CHUNK else chunkCapacity)
  let bytes := growChunk (itemAllocSize itemSize * 2 + CHUNK_OVERHEAD) bytes
  if bytes < MIN_CHUNK then MIN_CHUNK else bytes

/-- `new_chunk_capacity` -/
def newChunkCapacity (itemSize chunkCapacity : ℕ) : ℕ :=
  (chunkBytes itemSize chunkCapacity - CHUNK_OVERHEAD) / itemAllocSize itemSize

variable (pool : Pool)

/-- The chunk of which an item is taken, in front of the used ones; `new` is the one that is allocated if
there is no other. -/
def usedChunk (new : ChunkPtr) : ChunkPtr × Pool :=
  match pool.usedChunks with
  | k :: _ => (k, pool)
  | [] =>
    match pool.emptyChunks with
    | k :: rest =>
      let nEmpty := pool.nEmptyChunks - 1
      (k, { pool with
        emptyChunks := rest
        usedChunks := [k]
        nEmptyChunks := nEmpty
        minEmptyChunks := if nEmpty < pool.minEmptyChunks then nEmpty else pool.minEmptyChunks })
    | [] =>
      (new, { pool with
        usedChunks := [new]
        totalChunksAllocated := pool.totalChunksAllocated + 1
        chunks := update pool.chunks new (some ⟨[], 0, 0⟩) })

/-- An item of a chunk, from its free list or of what was never used; behind its end there is none. -/
def takeItem (capacity : ℕ) (c : Chunk) : Option (ℕ × Chunk) :=
  match c.firstFree with
  | i :: rest => some (i, { c with firstFree := rest })
  | [] => if c.nextMem < capacity then some (c.nextMem, { c with nextMem := c.nextMem + 1 }) else none

/-- `mp_pool_get`; without a result an assertion has failed. -/
def mpPoolGet (new : ChunkPtr) : Option (Item × Pool) :=
  let (k, pool) := usedChunk pool new
  match pool.chunks k with
  | none => none
  | some c =>
    if pool.newChunkCapacity ≤ c.nAllocated then none
    else
      match takeItem pool.newChunkCapacity c with
      | none => none
      | some (i, c) =>
        let c := { c with nAllocated := c.nAllocated + 1 }
        let pool := { setChunk pool k c with totalItemsAllocated := pool.totalItemsAllocated + 1 }
        some ((k, i), if c.nAllocated = pool.newChunkCapacity then
          { pool with usedChunks := pool.usedChunks.tail, fullChunks := k :: pool.fullChunks } else pool)

/-- `mp_pool_release` -/
def mpPoolRelease (item : Item) : Option Pool :=
  let (k, i) := item
  match pool.chunks k with
  | none => none
  | some c =>
    if c.nAllocated = 0 then none
    else
      let less : Chunk := ⟨i :: c.firstFree, c.nAllocated - 1, c.nextMem⟩
      if c.nAllocated = pool.newChunkCapacity then
        some { setChunk pool k less with
          fullChunks := pool.fullChunks.erase k, usedChunks := k :: pool.usedChunks }
      else if c.nAllocated = 1 then
        some { setChunk pool k ⟨[], 0, 0⟩ with
          usedChunks := pool.usedChunks.erase k
          emptyChunks := k :: pool.emptyChunks
          nEmptyChunks := pool.nEmptyChunks + 1 }
      else some (setChunk pool k less)

def allocatedOf (k : ChunkPtr) : ℕ := ((pool.chunks k).map Chunk.nAllocated).getD 0

/-- Whether a chunk is followed by one that is fuller. -/
def inverted : List ChunkPtr → Bool
  | k :: k' :: rest => decide (allocatedOf pool k < allocatedOf pool k') || inverted (k' :: rest)
  | _ => false

/-- `assert_chunks_ok` -/
def assertChunksOk (fills : ℕ → Bool) (list : List ChunkPtr) : Bool :=
  list.all fun k =>
    match pool.chunks k with
    | none => false
    | some c => fills c.nAllocated && decide (c.nextMem ≤ pool.newChunkCapacity)

/-- `mp_pool_assert_ok` -/
def mpPoolAssertOk : Bool :=
  assertChunksOk pool (· = 0) pool.emptyChunks &&
    assertChunksOk pool (· = pool.newChunkCapacity) pool.fullChunks &&
    assertChunksOk pool (fun n => 0 < n && n < pool.newChunkCapacity) pool.usedChunks &&
    decide (pool.nEmptyChunks = pool.emptyChunks.length)

/-- `mp_pool_sort_used_chunks`; `sorted` is what `qsort` makes of the used ones. -/
def sortUsedChunks (sorted : List ChunkPtr) : Option Pool :=
  if inverted pool pool.usedChunks then
    let pool := { pool with usedChunks := sorted }
    if mpPoolAssertOk pool then some pool else none
  else some pool

/-- `mp_pool_clean` -/
def mpPoolClean (nToKeep : ℕ) (keepRecentlyUsed : Bool) (sorted : List ChunkPtr) : Option Pool :=
  (sortUsedChunks pool sorted).map fun pool =>
    let recently := pool.nEmptyChunks - pool.minEmptyChunks
    let nToKeep := if keepRecentlyUsed && decide (nToKeep < recently) then recently else nToKeep
    let freed := pool.emptyChunks.drop nToKeep
    if freed = [] then { pool with minEmptyChunks := pool.nEmptyChunks }
    else
      { pool with
        emptyChunks := pool.emptyChunks.take nToKeep
        nEmptyChunks := pool.nEmptyChunks - freed.length
        minEmptyChunks := pool.nEmptyChunks - freed.length
        totalChunksFreed := pool.totalChunksFreed + freed.length
        chunks := fun k => if k ∈ freed then none else pool.chunks k }

/-- A pool, and the items that are in use. -/
structure State where
  pool : Pool
  live : List Item

inductive Event where
  | get (new : ChunkPtr)
  | release (item : Item)
  | clean (nToKeep : ℕ) (keepRecentlyUsed : Bool) (sorted : List ChunkPtr)

/-- New memory is not in use, an item is given back by who has it, and `qsort` sorts. -/
def Possible (s : State) : Event → Prop
  | .get new => s.pool.chunks new = none
  | .release item => item ∈ s.live
  | .clean _ _ sorted => sorted.Perm s.pool.usedChunks ∧
      sorted.Pairwise fun k k' => allocatedOf s.pool k' ≤ allocatedOf s.pool k

def step (s : State) : Event → Option State
  | .get new => (mpPoolGet s.pool new).map fun r => ⟨r.2, r.1 :: s.live⟩
  | .release item => (mpPoolRelease s.pool item).map fun pool => ⟨pool, s.live.erase item⟩
  | .clean nToKeep keepRecentlyUsed sorted =>
    (mpPoolClean s.pool nToKeep keepRecentlyUsed sorted).map fun pool => ⟨pool, s.live⟩

/-- `mp_pool_new`, with the capacity of its chunks. -/
def mpPoolNew (capacity : ℕ) : Pool := ⟨[], [], [], 0, 0, capacity, 0, 0, 0, fun _ => none⟩

/-- A new pool, of which nothing is in use. -/
def start (itemSize chunkCapacity : ℕ) : State :=
  ⟨mpPoolNew (newChunkCapacity itemSize chunkCapacity), []⟩

end IrcdHybrid.MemoryPools
