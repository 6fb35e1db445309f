import MiniNet.MemoryPool.Invariant

/-!
# Alignment of the blocks

The constructor rounds the block size up to a multiple of the largest
alignment, but a size below that of a pointer becomes the size of a pointer,
which is no such multiple.  Both the rounding and the size of a chunk may
wrap around, and then some block leaves its chunk.
-/

namespace MiniNet

namespace MemoryPool

/-- A region that `malloc` may return for a chunk: not null, aligned and
inside the address space. -/
structure Region (pool : MemoryPool) (chunk : Nat) : Prop where
  not_null : chunk ≠ 0
  aligned : maxAlign ∣ chunk
  inside : chunk + pool.chunkSize ≤ 2 ^ 64

/-- The block size is large enough and aligned, and so is every block of the
chunk, which holds all of it. -/
structure LaidOut (pool : MemoryPool) (blockSize chunk : Nat) : Prop where
  large : max blockSize pointerSize ≤ pool.blockSize
  multiple : maxAlign ∣ pool.blockSize
  aligned : ∀ i < pool.blocksPerChunk, maxAlign ∣ pool.block chunk i
  inside : ∀ i < pool.blocksPerChunk,
    chunk ≤ pool.block chunk i ∧
      pool.block chunk i + pool.blockSize ≤ chunk + pool.chunkSize

section

variable {blockSize blocksPerChunk chunk : Nat}

theorem maxAlign_dvd_roundUp (large : pointerSize ≤ blockSize) :
    maxAlign ∣ roundUp blockSize := by
  rw [roundUp, if_neg (Nat.not_lt.mpr large)]
  exact Nat.dvd_mul_left _ _

/-- Without overflow only the block size of small blocks is not aligned. -/
theorem laidOut_of_noOverflow (large : pointerSize ≤ blockSize)
    (noOverflow : NoOverflow blockSize blocksPerChunk)
    (region : (create blockSize blocksPerChunk).Region chunk) :
    (create blockSize blocksPerChunk).LaidOut blockSize chunk := by
  have geometry := geometry_create noOverflow
  have size := blockSize_create noOverflow
  have multiple : maxAlign ∣ (create blockSize blocksPerChunk).blockSize := by
    rw [size]
    exact maxAlign_dvd_roundUp large
  refine ⟨?_, multiple, ?_, ?_⟩
  · rw [Nat.max_eq_left large, size]
    exact le_roundUp blockSize
  · intro i small
    rw [geometry.block_eq region.inside small]
    exact Nat.dvd_add region.aligned (Nat.dvd_mul_left_of_dvd multiple i)
  · intro i small
    have ends := geometry.block_end small
    rw [geometry.block_eq region.inside small]
    omega

/-- An aligned block size that is large enough has been computed without wrap
around, from a size not below that of a pointer. -/
theorem blockSize_eq_of_laidOut
    (laidOut : (create blockSize blocksPerChunk).LaidOut blockSize chunk)
    (word : blockSize < 2 ^ 64) :
    pointerSize ≤ blockSize ∧
      (create blockSize blocksPerChunk).blockSize = roundUp blockSize := by
  have large := laidOut.large
  have multiple := laidOut.multiple
  by_cases small : blockSize < pointerSize
  · simp only [create, if_pos small] at multiple
    exact absurd multiple (by decide)
  · refine ⟨Nat.not_lt.mp small, ?_⟩
    rw [create, if_neg small] at large ⊢
    rw [roundUp, if_neg small]
    simp only [pointerSize, maxAlign] at large small ⊢
    omega

/-- If the size of the chunk has wrapped around, then the first block that
ends behind the chunk is cut from it all the same. -/
theorem noOverflow_of_laidOut (word : blockSize < 2 ^ 64)
    (region : (create blockSize blocksPerChunk).Region chunk)
    (laidOut : (create blockSize blocksPerChunk).LaidOut blockSize chunk) :
    NoOverflow blockSize blocksPerChunk := by
  have size := (blockSize_eq_of_laidOut laidOut word).2
  have count := blocksPerChunk_create blockSize blocksPerChunk
  have large := laidOut.large
  generalize create blockSize blocksPerChunk = pool at *
  rw [NoOverflow, ← size, ← count]
  by_contra wraps
  have positive : 0 < pool.blockSize := by
    simp only [pointerSize] at large
    omega
  have start := Nat.div_mul_le_self pool.chunkSize pool.blockSize
  have behind := Nat.lt_div_mul_add (a := pool.chunkSize) positive
  have word : pool.chunkSize < 2 ^ 64 := Nat.mod_lt _ (Nat.two_pow_pos 64)
  have cut : pool.chunkSize / pool.blockSize < pool.blocksPerChunk := by
    apply Nat.lt_of_mul_lt_mul_left (a := pool.blockSize)
    rw [Nat.mul_comm pool.blockSize (pool.chunkSize / pool.blockSize)]
    omega
  obtain ⟨low, high⟩ := laidOut.inside _ cut
  have notNull := region.not_null
  have bound := region.inside
  have offset : pool.chunkSize / pool.blockSize * pool.blockSize % 2 ^ 64 =
      pool.chunkSize / pool.blockSize * pool.blockSize :=
    Nat.mod_eq_of_lt (by omega)
  rw [block, offset] at low high
  omega

/-- The blocks of a chunk are laid out as they should be exactly if the block
size is not below that of a pointer and the size of a chunk, computed with
unbounded numbers, is a `size_t`. -/
theorem laidOut_iff (word : blockSize < 2 ^ 64)
    (region : (create blockSize blocksPerChunk).Region chunk) :
    (create blockSize blocksPerChunk).LaidOut blockSize chunk ↔
      pointerSize ≤ blockSize ∧ NoOverflow blockSize blocksPerChunk := by
  constructor
  · intro laidOut
    exact ⟨(blockSize_eq_of_laidOut laidOut word).1,
      noOverflow_of_laidOut word region laidOut⟩
  · rintro ⟨large, noOverflow⟩
    exact laidOut_of_noOverflow large noOverflow region

theorem laidOut_iff_small :
    (24 < 2 ^ 64 ∧ (create 24 64).Region 4096) ∧ (create 24 64).LaidOut 24 4096 := by
  have region : (create 24 64).Region 4096 := ⟨by decide, by decide, by decide⟩
  exact ⟨⟨by decide, region⟩, (laidOut_iff (by decide) region).mpr ⟨by decide, by decide⟩⟩

theorem not_laidOut_one :
    ¬∀ blockSize blocksPerChunk chunk, blockSize < 2 ^ 64 → blocksPerChunk < 2 ^ 64 →
      (create blockSize blocksPerChunk).Region chunk →
        (create blockSize blocksPerChunk).LaidOut blockSize chunk := by
  intro always
  have laidOut := always 1 64 4096 (by decide) (by decide)
    ⟨by decide, by decide, by decide⟩
  exact absurd laidOut.multiple (by decide)

end

end MemoryPool

end MiniNet
