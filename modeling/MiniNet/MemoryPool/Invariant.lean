import MiniNet.MemoryPool

/-!
# The free list of the pool

As long as a chunk's size can be computed without overflow, the free list and
the live blocks share out the blocks of the chunks, and the pool grows only
when every block is live.
-/

namespace MiniNet

namespace MemoryPool

open Memory

/-! ## Geometry -/

/-- The block size that the constructor means to compute. -/
def roundUp (blockSize : Nat) : Nat :=
  if blockSize < pointerSize then pointerSize
  else (blockSize + maxAlign - 1) / maxAlign * maxAlign

/-- The size of a chunk is a `size_t`. -/
def NoOverflow (blockSize blocksPerChunk : Nat) : Prop :=
  roundUp blockSize * max 1 blocksPerChunk < 2 ^ 64

instance (blockSize blocksPerChunk : Nat) : Decidable (NoOverflow blockSize blocksPerChunk) :=
  inferInstanceAs (Decidable (_ < _))

/-- What the proofs use of the parameters. -/
structure Geometry (pool : MemoryPool) : Prop where
  pointer : 8 ≤ pool.blockSize
  some_block : 1 ≤ pool.blocksPerChunk
  fits : pool.blockSize * pool.blocksPerChunk < 2 ^ 64

theorem le_roundUp (blockSize : Nat) : blockSize ≤ roundUp blockSize := by
  unfold roundUp pointerSize maxAlign
  split <;> omega

theorem blockSize_create {blockSize blocksPerChunk : Nat}
    (noOverflow : NoOverflow blockSize blocksPerChunk) :
    (create blockSize blocksPerChunk).blockSize = roundUp blockSize := by
  have rounded : roundUp blockSize < 2 ^ 64 :=
    Nat.lt_of_le_of_lt (Nat.le_mul_of_pos_right _ (Nat.le_max_left 1 _)) noOverflow
  unfold create roundUp pointerSize maxAlign at *
  simp only
  split
  · rfl
  · rename_i large
    rw [if_neg large] at rounded
    rw [Nat.mod_eq_of_lt (by omega)]

theorem blocksPerChunk_create (blockSize blocksPerChunk : Nat) :
    (create blockSize blocksPerChunk).blocksPerChunk = max 1 blocksPerChunk := by
  unfold create
  simp only
  split <;> omega

theorem geometry_create {blockSize blocksPerChunk : Nat}
    (noOverflow : NoOverflow blockSize blocksPerChunk) :
    (create blockSize blocksPerChunk).Geometry := by
  have count := blocksPerChunk_create blockSize blocksPerChunk
  refine ⟨?_, ?_, ?_⟩
  · rw [blockSize_create noOverflow]
    unfold roundUp pointerSize maxAlign
    split <;> omega
  · rw [count]
    exact Nat.le_max_left 1 _
  · rw [blockSize_create noOverflow, count]
    exact noOverflow

/-- The chunks that `malloc` has returned. -/
structure Regions (pool : MemoryPool) : Prop extends pool.Geometry where
  inside : ∀ chunk ∈ pool.chunks, chunk ≠ 0 ∧ chunk + pool.chunkSize ≤ 2 ^ 64
  apart : pool.chunks.Pairwise (Apart pool.chunkSize)

section

variable {pool : MemoryPool}

theorem Geometry.chunkSize (geometry : pool.Geometry) :
    pool.chunkSize = pool.blockSize * pool.blocksPerChunk :=
  Nat.mod_eq_of_lt geometry.fits

/-- A block lies behind those before it and ends inside its chunk. -/
theorem Geometry.block_end (geometry : pool.Geometry) {i : Nat}
    (small : i < pool.blocksPerChunk) :
    i * pool.blockSize + pool.blockSize ≤ pool.chunkSize := by
  have next : (i + 1) * pool.blockSize ≤ pool.blocksPerChunk * pool.blockSize :=
    Nat.mul_le_mul_right _ small
  rw [geometry.chunkSize, Nat.mul_comm pool.blockSize]
  rwa [Nat.succ_mul] at next

theorem Geometry.block_eq (geometry : pool.Geometry) {chunk i : Nat}
    (inside : chunk + pool.chunkSize ≤ 2 ^ 64) (small : i < pool.blocksPerChunk) :
    pool.block chunk i = chunk + i * pool.blockSize := by
  have ends := geometry.block_end small
  have pointer := geometry.pointer
  rw [block, Nat.mod_eq_of_lt (by omega), Nat.mod_eq_of_lt (by omega)]

theorem Regions.mem_blocks (regions : pool.Regions) {p : Nat} :
    p ∈ pool.blocks ↔
      ∃ chunk ∈ pool.chunks, ∃ i < pool.blocksPerChunk, p = chunk + i * pool.blockSize := by
  unfold blocks
  rw [List.mem_flatMap]
  refine exists_congr fun chunk => and_congr_right fun member => ?_
  rw [List.mem_map]
  constructor
  · rintro ⟨i, small, rfl⟩
    rw [List.mem_range] at small
    exact ⟨i, small, regions.block_eq (regions.inside chunk member).2 small⟩
  · rintro ⟨i, small, rfl⟩
    exact ⟨i, List.mem_range.mpr small,
      regions.block_eq (regions.inside chunk member).2 small⟩

/-- Every block lies in its chunk. -/
theorem Regions.block_inside (regions : pool.Regions) {p : Nat} (member : p ∈ pool.blocks) :
    ∃ chunk ∈ pool.chunks, chunk ≤ p ∧ p + pool.blockSize ≤ chunk + pool.chunkSize := by
  obtain ⟨chunk, inChunks, i, small, rfl⟩ := regions.mem_blocks.mp member
  have ends := regions.block_end small
  exact ⟨chunk, inChunks, by omega, by omega⟩

theorem Regions.block_bounds (regions : pool.Regions) {p : Nat} (member : p ∈ pool.blocks) :
    p ≠ 0 ∧ p < 2 ^ 64 := by
  obtain ⟨chunk, inChunks, low, high⟩ := regions.block_inside member
  have inside := regions.inside chunk inChunks
  have pointer := regions.pointer
  omega

private theorem mul_apart {size i j : Nat} (different : i ≠ j) :
    Apart size (i * size) (j * size) := by
  rcases Nat.lt_or_gt_of_ne different with less | more
  · left
    have next : (i + 1) * size ≤ j * size := Nat.mul_le_mul_right _ less
    rwa [Nat.succ_mul] at next
  · right
    have next : (j + 1) * size ≤ i * size := Nat.mul_le_mul_right _ more
    rwa [Nat.succ_mul] at next

/-- Different blocks do not meet. -/
theorem Regions.block_apart (regions : pool.Regions) {p q : Nat} (memberP : p ∈ pool.blocks)
    (memberQ : q ∈ pool.blocks) (different : p ≠ q) : Apart pool.blockSize p q := by
  obtain ⟨c, inC, i, smallI, rfl⟩ := regions.mem_blocks.mp memberP
  obtain ⟨d, inD, j, smallJ, rfl⟩ := regions.mem_blocks.mp memberQ
  by_cases same : c = d
  · subst same
    have indices : i ≠ j := by
      rintro rfl
      exact different rfl
    have between := @mul_apart pool.blockSize i j indices
    unfold Apart at *
    omega
  · have between := regions.apart.forall inC inD same
    have endI := regions.block_end smallI
    have endJ := regions.block_end smallJ
    unfold Apart at *
    omega

theorem nodup_blocks_of_chunk (regions : pool.Regions) {chunk : Nat}
    (inside : chunk + pool.chunkSize ≤ 2 ^ 64) :
    ((List.range pool.blocksPerChunk).map fun i => pool.block chunk i).Nodup := by
  rw [List.nodup_map_iff_inj_on List.nodup_range]
  intro i memberI j memberJ same
  rw [regions.block_eq inside (List.mem_range.mp memberI),
    regions.block_eq inside (List.mem_range.mp memberJ)] at same
  by_contra different
  have between := @mul_apart pool.blockSize i j different
  have pointer := regions.pointer
  unfold Apart at between
  omega

theorem Regions.nodup_blocks (regions : pool.Regions) : pool.blocks.Nodup := by
  unfold blocks
  rw [List.nodup_flatMap]
  refine ⟨fun chunk member =>
    nodup_blocks_of_chunk regions (regions.inside chunk member).2, ?_⟩
  refine regions.apart.imp_of_mem ?_
  intro c d inC inD between p memberC memberD
  obtain ⟨i, smallI, rfl⟩ := List.mem_map.mp memberC
  obtain ⟨j, smallJ, same⟩ := List.mem_map.mp memberD
  rw [List.mem_range] at smallI smallJ
  rw [regions.block_eq (regions.inside c inC).2 smallI,
    regions.block_eq (regions.inside d inD).2 smallJ] at same
  have endI := regions.block_end smallI
  have endJ := regions.block_end smallJ
  have pointer := regions.pointer
  unfold Apart at between
  omega

theorem blocks_withFreeList (pool : MemoryPool) (freeList : Nat) :
    blocks { pool with freeList := freeList } = pool.blocks := rfl

theorem length_blocks (pool : MemoryPool) :
    pool.blocks.length = pool.chunks.length * pool.blocksPerChunk := by
  unfold blocks
  induction pool.chunks with
  | nil => simp
  | cons chunk chunks ih =>
      rw [List.flatMap_cons, List.length_append, ih, List.length_map, List.length_range,
        List.length_cons, Nat.succ_mul, Nat.add_comm]

/-- There are fewer blocks than addresses. -/
theorem Regions.count_lt (regions : pool.Regions) :
    pool.chunks.length * pool.blocksPerChunk < 2 ^ 64 := by
  have positive : 0 < pool.chunkSize := by
    rw [regions.chunkSize]
    exact Nat.mul_pos (by have := regions.pointer; omega) regions.some_block
  have packed := length_mul_le_of_apart positive regions.apart
    fun chunk member => (regions.inside chunk member).2
  have larger : pool.chunks.length * pool.blocksPerChunk * 8 ≤
      pool.chunks.length * pool.chunkSize := by
    rw [regions.chunkSize, Nat.mul_assoc, Nat.mul_comm pool.blockSize]
    exact Nat.mul_le_mul_left _ (Nat.mul_le_mul_left _ regions.pointer)
  omega

end

/-- The free list has no part in the geometry. -/
theorem Regions.withFreeList {pool : MemoryPool} (regions : pool.Regions) (freeList : Nat) :
    Regions { pool with freeList := freeList } where
  toGeometry := ⟨regions.pointer, regions.some_block, regions.fits⟩
  inside := regions.inside
  apart := regions.apart

/-! ## The free list -/

/-- The free list is threaded through `free`, and with the live blocks it makes
up all blocks. -/
structure Shared (s : State) (free : List Nat) : Prop extends s.pool.Regions where
  threaded : Threaded s.mem s.pool.freeList free
  shared : (free ++ s.live).Perm s.pool.blocks
  total : s.pool.totalBlocks = s.pool.chunks.length * s.pool.blocksPerChunk

section

variable {s : State} {free : List Nat}

theorem Shared.mem_blocks_of_free (kept : Shared s free) {p : Nat} (member : p ∈ free) :
    p ∈ s.pool.blocks :=
  kept.shared.subset (List.mem_append_left _ member)

theorem Shared.mem_blocks_of_live (kept : Shared s free) {p : Nat} (member : p ∈ s.live) :
    p ∈ s.pool.blocks :=
  kept.shared.subset (List.mem_append_right _ member)

theorem Shared.nodup (kept : Shared s free) : (free ++ s.live).Nodup :=
  kept.shared.nodup_iff.mpr kept.nodup_blocks

theorem Shared.notLive (kept : Shared s free) {p : Nat} (member : p ∈ free) :
    p ∉ s.live :=
  fun live => (List.nodup_append.mp kept.nodup).2.2 p member p live rfl

theorem Shared.count (kept : Shared s free) :
    free.length + s.live.length = s.pool.chunks.length * s.pool.blocksPerChunk := by
  rw [← List.length_append, kept.shared.length_eq, length_blocks]

theorem Shared.freeList_lt (kept : Shared s free) : s.pool.freeList < 2 ^ 64 := by
  have threaded := kept.threaded
  cases free with
  | nil =>
      rw [show s.pool.freeList = 0 from threaded]
      decide
  | cons p free =>
      rw [threaded.1]
      exact (kept.block_bounds (kept.mem_blocks_of_free List.mem_cons_self)).2

/-- Taking a block off the list makes it live. -/
theorem Shared.pop {p : Nat} (kept : Shared s (p :: free)) : Shared s.pop.1 free where
  toRegions := kept.toRegions.withFreeList _
  threaded := by
    obtain ⟨head, _, later⟩ := kept.threaded
    rw [← head] at later
    exact later
  shared := by
    have head : s.pool.freeList = p := kept.threaded.1
    have moved : (free ++ s.pool.freeList :: s.live).Perm (p :: free ++ s.live) := by
      rw [head]
      exact List.perm_middle
    rw [State.pop, blocks_withFreeList]
    exact moved.trans kept.shared
  total := kept.total

/-- A live block is put back. -/
theorem Shared.deallocate {p : Nat} (kept : Shared s free) (live : p ∈ s.live) :
    Shared (deallocate s p) (p :: free) := by
  have solid := (kept.block_bounds (kept.mem_blocks_of_live live)).1
  rw [MemoryPool.deallocate, if_neg solid]
  refine ⟨kept.toRegions.withFreeList p, ?_, ?_, kept.total⟩
  · refine kept.threaded.push solid kept.freeList_lt ?_
    intro q member
    have different : q ≠ p := by
      rintro rfl
      exact kept.notLive member live
    exact (kept.block_apart (kept.mem_blocks_of_free member) (kept.mem_blocks_of_live live)
      different).mono kept.pointer
  · have moved : (p :: free ++ s.live.erase p).Perm (free ++ s.live) :=
      List.perm_middle.symm.trans ((List.perm_cons_erase live).symm.append_left free)
    exact moved.trans kept.shared

/-- A write outside the free blocks. -/
theorem Shared.poke (kept : Shared s free) {a : Nat} (octet : UInt8)
    (outside : ∀ p ∈ s.pool.blocks, p ∉ s.live → a < p ∨ p + s.pool.blockSize ≤ a) :
    Shared { s with mem := Function.update s.mem a octet } free where
  toRegions := kept.toRegions
  threaded := by
    refine kept.threaded.congr fun p member => readPtr_congr fun x low high => ?_
    have pointer := kept.pointer
    have clear := outside p (kept.mem_blocks_of_free member) (kept.notLive member)
    exact Function.update_of_ne (by omega) _ _
  shared := kept.shared
  total := kept.total

end

/-! ## Growing -/

/-- Pushing addresses one by one. -/
theorem foldl_push (ps : List Nat) (s : State) {free : List Nat}
    (threaded : Threaded s.mem s.pool.freeList free) (fits : s.pool.freeList < 2 ^ 64)
    (bounds : ∀ p ∈ ps, p ≠ 0 ∧ p < 2 ^ 64)
    (apart : (ps.reverse ++ free).Pairwise (Apart 8)) :
    ∃ mem freeList, ps.foldl State.push s =
        { s with pool := { s.pool with freeList := freeList }, mem := mem } ∧
      Threaded mem freeList (ps.reverse ++ free) := by
  induction ps generalizing s free with
  | nil => exact ⟨s.mem, s.pool.freeList, rfl, threaded⟩
  | cons p ps ih =>
      have regroup : (p :: ps).reverse ++ free = ps.reverse ++ (p :: free) := by
        rw [List.reverse_cons, List.append_assoc]
        rfl
      rw [regroup] at apart ⊢
      obtain ⟨solid, small⟩ := bounds p List.mem_cons_self
      have here : ∀ q ∈ free, q + 8 ≤ p ∨ p + 8 ≤ q := by
        intro q member
        have tail := (List.pairwise_append.mp apart).2.1
        exact Or.symm ((List.pairwise_cons.mp tail).1 q member)
      exact ih (s.push p) (threaded.push solid fits here) small
        (fun q member => bounds q (List.mem_cons_of_mem p member)) apart

theorem foldl_push_blocks (chunk : Nat) (indices : List Nat) (s : State) :
    indices.foldl (fun s i => s.push (s.pool.block chunk i)) s =
      (indices.map fun i => s.pool.block chunk i).foldl State.push s := by
  induction indices generalizing s with
  | nil => rfl
  | cons i indices ih =>
      rw [List.foldl_cons, List.map_cons, List.foldl_cons, ih]
      rfl

/-- A fresh chunk fits the others. -/
theorem Regions.add {pool : MemoryPool} {chunk : Nat} (regions : pool.Regions)
    (fresh : pool.Fresh chunk) (total : Nat) :
    Regions { pool with chunks := pool.chunks ++ [chunk], totalBlocks := total } where
  toGeometry := ⟨regions.pointer, regions.some_block, regions.fits⟩
  inside := by
    intro c member
    rcases List.mem_append.mp member with old | new
    · exact regions.inside c old
    · cases List.mem_singleton.mp new
      exact ⟨fresh.1, fresh.2.1⟩
  apart := by
    refine List.pairwise_append.mpr ⟨regions.apart, List.pairwise_singleton _ _, ?_⟩
    intro c old d new
    cases List.mem_singleton.mp new
    exact Or.symm (fresh.2.2 c old)

theorem Shared.grow {s : State} (kept : Shared s []) {chunk : Nat}
    (fresh : s.pool.Fresh chunk) :
    ∃ p free, Shared (s.grow chunk) (p :: free) ∧
      (s.grow chunk).pool.blockSize = s.pool.blockSize ∧
      (s.grow chunk).pool.chunks = s.pool.chunks ++ [chunk] ∧
      (s.grow chunk).pool.blocksPerChunk = s.pool.blocksPerChunk ∧
      (s.grow chunk).live = s.live ∧ (s.grow chunk).peak = s.peak := by
  let total := (s.pool.totalBlocks + s.pool.blocksPerChunk) % 2 ^ 64
  let pool := { s.pool with chunks := s.pool.chunks ++ [chunk], totalBlocks := total }
  let new := (List.range s.pool.blocksPerChunk).map fun i => s.pool.block chunk i
  have regions : Regions pool := kept.toRegions.add fresh total
  have blocks_eq : pool.blocks = s.pool.blocks ++ new := by
    simp only [blocks, pool, new, List.flatMap_append, List.flatMap_cons, List.flatMap_nil,
      List.append_nil]
    rfl
  have inBlocks : ∀ p ∈ new, p ∈ pool.blocks := by
    intro p member
    rw [blocks_eq]
    exact List.mem_append_right _ member
  have nodup : new.Nodup :=
    (List.nodup_append.mp (blocks_eq ▸ regions.nodup_blocks)).2.1
  have apart : (new.reverse ++ []).Pairwise (Apart 8) := by
    rw [List.append_nil]
    refine List.Pairwise.imp_of_mem ?_ (List.nodup_reverse.mpr nodup)
    intro p q memberP memberQ different
    exact (regions.block_apart (inBlocks p (List.mem_reverse.mp memberP))
      (inBlocks q (List.mem_reverse.mp memberQ)) different).mono kept.pointer
  obtain ⟨mem, freeList, pushed, threaded⟩ := foldl_push new { s with pool := pool }
    kept.threaded kept.freeList_lt (fun p member => regions.block_bounds (inBlocks p member))
    apart
  have grown : s.grow chunk =
      { s with pool := { pool with freeList := freeList }, mem := mem } := by
    rw [State.grow, foldl_push_blocks]
    exact pushed
  have some_new : new.reverse ++ [] ≠ [] := by
    have some_block := kept.some_block
    rw [List.append_nil]
    simp only [new, ne_eq, List.reverse_eq_nil_iff, List.map_eq_nil_iff, List.range_eq_nil]
    omega
  obtain ⟨p, free, cells⟩ := List.exists_cons_of_ne_nil some_new
  rw [cells] at threaded
  refine ⟨p, free, ?_, ?_, ?_, ?_, ?_, ?_⟩
  · rw [grown]
    refine ⟨regions.withFreeList freeList, threaded, ?_, ?_⟩
    · have all : (p :: free ++ s.live).Perm (s.pool.blocks ++ new) := by
        rw [← cells, List.append_nil]
        refine List.perm_append_comm.trans ?_
        exact (kept.shared.append (List.reverse_perm new))
      exact all.trans (List.Perm.of_eq blocks_eq.symm)
    · have small := regions.count_lt
      simp only [pool, List.length_append, List.length_singleton] at small ⊢
      rw [Nat.succ_mul] at small ⊢
      simp only [total, kept.total]
      exact Nat.mod_eq_of_lt small
  all_goals rw [grown]

/-! ## Growth goes by the peak -/

/-- The peak lies in the last chunk. -/
structure Peaked (live chunks blocksPerChunk peak : Nat) : Prop where
  live : live ≤ peak
  high : peak ≤ chunks * blocksPerChunk
  low : ∀ n, chunks = n + 1 → n * blocksPerChunk < peak

section

variable {live chunks blocksPerChunk peak : Nat}

/-- A block becomes live while another one is free. -/
theorem Peaked.take (peaked : Peaked live chunks blocksPerChunk peak)
    (free : live < chunks * blocksPerChunk) :
    Peaked (live + 1) chunks blocksPerChunk (max peak (live + 1)) where
  live := Nat.le_max_right _ _
  high := Nat.max_le.mpr ⟨peaked.high, free⟩
  low := fun n size => Nat.lt_of_lt_of_le (peaked.low n size) (Nat.le_max_left _ _)

/-- When the pool grows, every block is live, and the next one is the first of
the new chunk. -/
theorem Peaked.grow (peaked : Peaked live chunks blocksPerChunk peak)
    (full : live = chunks * blocksPerChunk) (some_block : 1 ≤ blocksPerChunk) :
    Peaked (live + 1) (chunks + 1) blocksPerChunk (max peak (live + 1)) where
  live := Nat.le_max_right _ _
  high := by
    have high := peaked.high
    rw [Nat.succ_mul]
    omega
  low := by
    intro n size
    obtain rfl : chunks = n := by omega
    omega

theorem Peaked.chunks_eq (peaked : Peaked live chunks blocksPerChunk peak)
    (some_block : 1 ≤ blocksPerChunk) :
    chunks = (peak + blocksPerChunk - 1) / blocksPerChunk := by
  have high := peaked.high
  symm
  rw [Nat.div_eq_iff (by omega)]
  cases chunks with
  | zero => omega
  | succ n =>
      have low := peaked.low n rfl
      rw [Nat.succ_mul] at *
      omega

end

/-! ## Runs -/

/-- The invariant of a pool with blocks of this size. -/
structure Inv (size : Nat) (s : State) : Prop where
  list : ∃ free, Shared s free
  peaked : Peaked s.live.length s.pool.chunks.length s.pool.blocksPerChunk s.peak
  size : s.pool.blockSize = size

theorem inv_start {blockSize blocksPerChunk : Nat} (mem : Memory)
    (noOverflow : NoOverflow blockSize blocksPerChunk) :
    Inv (roundUp blockSize) (start blockSize blocksPerChunk mem) where
  list := by
    have geometry := geometry_create noOverflow
    refine ⟨[], ⟨geometry, ?_, List.Pairwise.nil⟩, rfl, List.Perm.refl [], ?_⟩
    · intro chunk member
      cases member
    · exact (Nat.zero_mul _).symm
  peaked := by
    refine ⟨Nat.le_refl 0, Nat.zero_le _, ?_⟩
    intro n size
    cases size
  size := blockSize_create noOverflow

section

variable {size : Nat} {s : State}

theorem Inv.pop {p : Nat} {free : List Nat} (kept : Shared s (p :: free))
    (peaked : Peaked (s.live.length + 1) s.pool.chunks.length s.pool.blocksPerChunk
      (max s.peak (s.live.length + 1)))
    (sized : s.pool.blockSize = size) : Inv size s.pop.1 :=
  ⟨⟨free, kept.pop⟩, peaked, sized⟩

theorem Inv.allocate {chunk : Option Nat} (inv : Inv size s)
    (fresh : ∀ region ∈ chunk, s.pool.Fresh region) : Inv size (allocate s chunk).1 := by
  obtain ⟨free, kept⟩ := inv.list
  have count := kept.count
  unfold MemoryPool.allocate
  split
  · rename_i empty
    obtain rfl := kept.threaded.eq_nil_iff.mp empty
    rw [List.length_nil, Nat.zero_add] at count
    cases chunk with
    | none => exact inv
    | some chunk =>
        obtain ⟨p, free, grown, same, chunks, perChunk, live, peak⟩ :=
          kept.grow (fresh chunk rfl)
        refine Inv.pop grown ?_ (same.trans inv.size)
        rw [chunks, perChunk, live, peak, List.length_append]
        exact inv.peaked.grow count kept.some_block
  · rename_i solid
    have some_free : free ≠ [] := fun none => solid (kept.threaded.eq_nil_iff.mpr none)
    obtain ⟨p, free, rfl⟩ := List.exists_cons_of_ne_nil some_free
    rw [List.length_cons] at count
    exact Inv.pop kept (inv.peaked.take (by omega)) inv.size

theorem Inv.deallocate {p : Nat} (inv : Inv size s) (live : p ∈ s.live) :
    Inv size (deallocate s p) := by
  obtain ⟨free, kept⟩ := inv.list
  have solid := (kept.block_bounds (kept.mem_blocks_of_live live)).1
  refine ⟨⟨p :: free, kept.deallocate live⟩, ?_, ?_⟩
  · rw [MemoryPool.deallocate, if_neg solid]
    have fewer : (s.live.erase p).length ≤ s.live.length := List.length_erase_le
    exact ⟨fewer.trans inv.peaked.live, inv.peaked.high, inv.peaked.low⟩
  · rw [MemoryPool.deallocate, if_neg solid]
    exact inv.size

theorem Inv.step {t : State} {a : Action} {result : Result} (inv : Inv size s)
    (allowed : Allowed s a) (stepped : step s a = some (t, result)) : Inv size t := by
  cases a with
  | allocate chunk =>
      have after : (MemoryPool.allocate s chunk).1 = t :=
        congrArg Prod.fst (Option.some.inj stepped)
      rw [← after]
      exact inv.allocate allowed
  | deallocate p =>
      have after : MemoryPool.deallocate s p = t :=
        congrArg Prod.fst (Option.some.inj stepped)
      rw [← after]
      rcases allowed with rfl | live
      · exact inv
      · exact inv.deallocate live
  | poke a octet =>
      obtain ⟨free, kept⟩ := inv.list
      have after : { s with mem := Function.update s.mem a octet } = t :=
        congrArg Prod.fst (Option.some.inj stepped)
      rw [← after]
      exact ⟨⟨free, kept.poke octet allowed⟩, inv.peaked, inv.size⟩

end

/-- What the pool's representation promises: `free` is the free list. -/
structure Represented (blockSize : Nat) (s : State) (free : List Nat) : Prop where
  list : Threaded s.mem s.pool.freeList free
  nodup : free.Nodup
  notLive : ∀ p ∈ s.live, p ∉ free
  all : (s.live ++ free).Perm s.pool.blocks
  distinct : s.pool.blocks.Nodup
  count : s.pool.blocks.length = s.pool.totalBlocks
  total : s.pool.totalBlocks = s.pool.chunks.length * s.pool.blocksPerChunk
  size : blockSize ≤ s.pool.blockSize
  disjoint : ∀ p ∈ s.pool.blocks, ∀ q ∈ s.pool.blocks, p ≠ q →
    p + s.pool.blockSize ≤ q ∨ q + s.pool.blockSize ≤ p
  inside : ∀ p ∈ s.pool.blocks, ∃ chunk ∈ s.pool.chunks,
    chunk ≤ p ∧ p + s.pool.blockSize ≤ chunk + s.pool.chunkSize
  growth : s.pool.chunks.length =
    (s.peak + s.pool.blocksPerChunk - 1) / s.pool.blocksPerChunk

theorem Inv.represented {s : State} {size blockSize : Nat} (inv : Inv size s)
    (large : blockSize ≤ size) : ∃ free, Represented blockSize s free := by
  obtain ⟨free, kept⟩ := inv.list
  exact ⟨free, {
    list := kept.threaded
    nodup := (List.nodup_append.mp kept.nodup).1
    notLive := fun p live member => kept.notLive member live
    all := List.perm_append_comm.trans kept.shared
    distinct := kept.nodup_blocks
    count := (length_blocks s.pool).trans kept.total.symm
    total := kept.total
    size := inv.size ▸ large
    disjoint := fun p memberP q memberQ => kept.block_apart memberP memberQ
    inside := fun p member => kept.block_inside member
    growth := inv.peaked.chunks_eq kept.some_block }⟩

/-- After every history of calls the free list is what it should be, and the
number of chunks is the rounded-up quotient of the peak. -/
theorem represented_of_run {blockSize blocksPerChunk : Nat} {mem : Memory}
    {actions : List Action} {s : State} {trace : List (Action × Result)}
    (noOverflow : NoOverflow blockSize blocksPerChunk)
    (kept : Machine.Along step Allowed (start blockSize blocksPerChunk mem) actions)
    (ran : Machine.run step (start blockSize blocksPerChunk mem) actions = some (s, trace)) :
    ∃ free, Represented blockSize s free := by
  have inv : Inv (roundUp blockSize) s := by
    refine Machine.run_along (motive := fun _ s => Inv (roundUp blockSize) s) ?_
      (inv_start mem noOverflow) kept ran
    intro _ s a t result inv allowed stepped
    exact inv.step allowed stepped
  exact inv.represented (le_roundUp blockSize)

/-- Three blocks of a pool with two in a chunk, one of them given back, written
to in between and taken again. -/
theorem represented_of_reuse :
    NoOverflow 24 2 ∧
      ∃ s trace, Machine.run step (start 24 2 fun _ => 0)
          [.allocate (some 4096), .allocate none, .poke 4096 7, .allocate (some 8192),
            .deallocate 4096, .allocate none] = some (s, trace) ∧
        s.pool.freeList = 8192 ∧ s.live = [4096, 8224, 4128] ∧
        ∃ free, Represented 24 s free := by
  have kept : Machine.Along step Allowed (start 24 2 fun _ => 0)
      [.allocate (some 4096), .allocate none, .poke 4096 7, .allocate (some 8192),
        .deallocate 4096, .allocate none] := by
    decide +kernel
  have ran : ((Machine.run step (start 24 2 fun _ => 0)
      [.allocate (some 4096), .allocate none, .poke 4096 7, .allocate (some 8192),
        .deallocate 4096, .allocate none]).any fun r =>
          decide (r.1.pool.freeList = 8192 ∧ r.1.live = [4096, 8224, 4128])) = true := by
    decide +kernel
  obtain ⟨r, ran, ends⟩ := (Option.any_eq_true _ _).mp ran
  obtain ⟨freeList, live⟩ := of_decide_eq_true ends
  have noOverflow : NoOverflow 24 2 := by decide
  exact ⟨noOverflow, r.1, r.2, ran, freeList, live, represented_of_run noOverflow kept ran⟩

end MemoryPool

end MiniNet
