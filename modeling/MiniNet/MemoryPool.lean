import MiniNet.Lib.Machine
import MiniNet.Lib.Memory

/-!
# The pool of fixed-size blocks

A chunk is obtained from `malloc` and cut into blocks; a block that is not in
use holds the address of the next free one in its first octets.  Sizes are
`size_t` and wrap at `2 ^ 64`.  Next to the pool the state has the memory it
works in, the blocks its clients hold and the largest number of them so far.
-/

namespace MiniNet

structure MemoryPool where
  blockSize : Nat
  blocksPerChunk : Nat
  freeList : Nat
  chunks : List Nat
  totalBlocks : Nat

namespace MemoryPool

/-- `sizeof(Block)`. -/
def pointerSize : Nat := 8

/-- `alignof(std::max_align_t)`. -/
def maxAlign : Nat := 16

/-- The constructor. -/
def create (blockSize blocksPerChunk : Nat) : MemoryPool where
  blockSize :=
    if blockSize < pointerSize then pointerSize
    else (blockSize + maxAlign - 1) % 2 ^ 64 / maxAlign * maxAlign
  blocksPerChunk := if blocksPerChunk = 0 then 1 else blocksPerChunk
  freeList := 0
  chunks := []
  totalBlocks := 0

/-- The size that `grow` asks `malloc` for. -/
def chunkSize (pool : MemoryPool) : Nat :=
  pool.blockSize * pool.blocksPerChunk % 2 ^ 64

/-- The address of a block of a chunk. -/
def block (pool : MemoryPool) (chunk i : Nat) : Nat :=
  (chunk + i * pool.blockSize % 2 ^ 64) % 2 ^ 64

/-- The pool with its surroundings. -/
structure State where
  pool : MemoryPool
  mem : Memory
  live : List Nat
  peak : Nat

namespace State

/-- `block->next = free_list_; free_list_ = block`. -/
def push (s : State) (p : Nat) : State :=
  { s with
    pool := { s.pool with freeList := p }
    mem := s.mem.writePtr p s.pool.freeList }

/-- Register a new chunk and put its blocks on the free list. -/
def grow (s : State) (chunk : Nat) : State :=
  let grown := { s with
    pool := { s.pool with
      chunks := s.pool.chunks ++ [chunk]
      totalBlocks := (s.pool.totalBlocks + s.pool.blocksPerChunk) % 2 ^ 64 } }
  (List.range s.pool.blocksPerChunk).foldl
    (fun s i => s.push (s.pool.block chunk i)) grown

/-- Take the head of the free list. -/
def pop (s : State) : State × Nat :=
  let p := s.pool.freeList
  ({ s with
      pool := { s.pool with freeList := s.mem.readPtr p }
      live := p :: s.live
      peak := max s.peak (s.live.length + 1) }, p)

end State

inductive Action where
  /-- A call of `allocate`, with the chunk that memory is there for, if any. -/
  | allocate (chunk : Option Nat)
  | deallocate (p : Nat)
  /-- A write of a client to memory. -/
  | poke (a : Nat) (octet : UInt8)
  deriving DecidableEq

inductive Result where
  | block (p : Nat)
  | badAlloc
  | done
  deriving DecidableEq

def allocate (s : State) (chunk : Option Nat) : State × Result :=
  if s.pool.freeList = 0 then
    match chunk with
    | none => (s, .badAlloc)
    | some chunk =>
        let popped := (s.grow chunk).pop
        (popped.1, .block popped.2)
  else
    let popped := s.pop
    (popped.1, .block popped.2)

def deallocate (s : State) (p : Nat) : State :=
  if p = 0 then s else { s.push p with live := s.live.erase p }

def step (s : State) : Action → Option (State × Result)
  | .allocate chunk => some (allocate s chunk)
  | .deallocate p => some (deallocate s p, .done)
  | .poke a octet => some ({ s with mem := Function.update s.mem a octet }, .done)

def start (blockSize blocksPerChunk : Nat) (mem : Memory) : State where
  pool := create blockSize blocksPerChunk
  mem := mem
  live := []
  peak := 0

/-! ## What the surroundings keep to -/

/-- The blocks that have been cut from chunks. -/
def blocks (pool : MemoryPool) : List Nat :=
  pool.chunks.flatMap fun chunk =>
    (List.range pool.blocksPerChunk).map fun i => pool.block chunk i

/-- A region of memory that `malloc` may return: not null, inside the address
space and apart from the chunks it has returned before. -/
def Fresh (pool : MemoryPool) (chunk : Nat) : Prop :=
  chunk ≠ 0 ∧ chunk + pool.chunkSize ≤ 2 ^ 64 ∧
    ∀ other ∈ pool.chunks,
      chunk + pool.chunkSize ≤ other ∨ other + pool.chunkSize ≤ chunk

instance (pool : MemoryPool) (chunk : Nat) : Decidable (pool.Fresh chunk) :=
  inferInstanceAs (Decidable (_ ∧ _ ∧ ∀ other ∈ pool.chunks,
    chunk + pool.chunkSize ≤ other ∨ other + pool.chunkSize ≤ chunk))

/-- Memory comes from `malloc`, only live blocks are given back, and nobody
writes into a block that is not live. -/
def Allowed (s : State) : Action → Prop
  | .allocate chunk => ∀ region ∈ chunk, s.pool.Fresh region
  | .deallocate p => p = 0 ∨ p ∈ s.live
  | .poke a _ => ∀ p ∈ s.pool.blocks, p ∉ s.live → a < p ∨ p + s.pool.blockSize ≤ a

instance (s : State) : (a : Action) → Decidable (Allowed s a)
  | .allocate chunk => inferInstanceAs (Decidable (∀ region ∈ chunk, s.pool.Fresh region))
  | .deallocate p => inferInstanceAs (Decidable (p = 0 ∨ p ∈ s.live))
  | .poke a _ => inferInstanceAs (Decidable
      (∀ p ∈ s.pool.blocks, p ∉ s.live → a < p ∨ p + s.pool.blockSize ≤ a))

end MemoryPool

end MiniNet
