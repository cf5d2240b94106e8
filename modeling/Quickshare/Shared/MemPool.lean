import Quickshare.Lib.Runs
import Mathlib.Tactic.Common
import Mathlib.Tactic.Ring

/-! `shared/mem_pool`: one block taken from `malloc`, cut into pieces that are never
given back. Sizes and addresses are 64-bit words, and sums of them wrap around. -/

namespace Quickshare

open Runs

abbrev Pointer := UInt64

/-- `NULL`. -/
def null : Pointer := 0

/-- `Block`; `last` is its `end`, the address after the last byte. -/
structure Block where
  next : Pointer
  mem : Pointer
  free : Pointer
  last : Pointer

structure MemoryPool where
  root : Block
  blockSize : UInt64
  memUsed : UInt64

/-- `init_block` on the root; `malloc` is `NULL` where it fails. -/
def initBlock (malloc : UInt64 → Pointer) (pool : MemoryPool) : Bool × MemoryPool :=
  let mem := malloc pool.blockSize
  if mem = null then (false, { pool with root := { pool.root with mem } })
  else (true, { pool with root := { next := null, mem, free := mem, last := mem + pool.blockSize } })

def memPoolInit (malloc : UInt64 → Pointer) (pool : MemoryPool) (blockSize : UInt64) :
    Bool × MemoryPool :=
  initBlock malloc { pool with memUsed := 0, blockSize }

theorem padding_less {size : UInt64} (loose : size % 8 ≠ 0) :
    (8 - (size + 1).toNat % 8) % 8 < (8 - size.toNat % 8) % 8 := by
  have loose : size.toNat % 8 ≠ 0 := fun none => loose (UInt64.toNat_inj.mp (by simpa using none))
  rw [UInt64.toNat_add]
  simp only [UInt64.reduceToNat]
  omega

/-- The loop that pads a size for 8 byte alignment. -/
def pad (size : UInt64) : UInt64 :=
  if size % 8 ≠ 0 then pad (size + 1) else size
termination_by (8 - size.toNat % 8) % 8
decreasing_by exact padding_less ‹_›

def alloc (pool : MemoryPool) (size : UInt64) : Pointer × MemoryPool :=
  let ptr := pool.root.free
  let size := pad size
  if pool.root.free + size > pool.root.last then (null, pool)
  else (ptr, { pool with
    root := { pool.root with free := pool.root.free + size }
    memUsed := pool.memUsed + size })

/-- The next multiple of 8. -/
def padded (n : Nat) : Nat := (n + 7) / 8 * 8

/-- Padding a size in the last seven values before the wrap gives 0. -/
theorem pad_toNat (size : UInt64) : (pad size).toNat = padded size.toNat % 2 ^ 64 := by
  induction size using pad.induct with
  | case1 size loose ih =>
    have loose : size.toNat % 8 ≠ 0 := fun none => loose (UInt64.toNat_inj.mp (by simpa using none))
    have bound := size.toNat_lt
    rw [pad, if_pos (by assumption), ih, UInt64.toNat_add]
    simp only [UInt64.reduceToNat, padded]
    omega
  | case2 size even =>
    have even : size.toNat % 8 = 0 := by simpa using congrArg UInt64.toNat (not_not.mp even)
    have bound := size.toNat_lt
    rw [pad, if_neg ‹_›, padded]
    omega

/-- `free` lies in the block of the pool. -/
structure MemoryPool.Sound (pool : MemoryPool) : Prop where
  present : pool.root.mem ≠ null
  start : pool.root.mem.toNat ≤ pool.root.free.toNat
  inside : pool.root.free.toNat ≤ pool.root.last.toNat

section Alloc

variable {pool : MemoryPool} {size : UInt64}

/-- The pool once a call got its block. -/
def MemoryPool.granted (pool : MemoryPool) (size : UInt64) : MemoryPool := { pool with
  root := { pool.root with free := pool.root.free + pad size }
  memUsed := pool.memUsed + pad size }

/-- A size that fits gets the free bytes from `free` on. -/
theorem alloc_room (room : pool.root.free.toNat + padded size.toNat ≤ pool.root.last.toNat) :
    alloc pool size = (pool.root.free, pool.granted size) ∧
      (pool.granted size).root.free.toNat = pool.root.free.toNat + padded size.toNat := by
  have bound := pool.root.last.toNat_lt
  have moved : (pool.root.free + pad size).toNat =
      pool.root.free.toNat + padded size.toNat := by
    rw [UInt64.toNat_add, pad_toNat]
    omega
  have low : ¬ pool.root.free + pad size > pool.root.last := by
    rw [gt_iff_lt, UInt64.lt_iff_toNat_lt, moved]
    omega
  exact ⟨if_neg low, moved⟩

theorem MemoryPool.Sound.granted (sound : pool.Sound)
    (room : pool.root.free.toNat + padded size.toNat ≤ pool.root.last.toNat) :
    (pool.granted size).Sound := by
  have moved := (alloc_room room).2
  exact ⟨sound.present, moved ▸ Nat.le_add_right_of_le sound.start, moved ▸ room⟩

theorem MemoryPool.Sound.free_ne (sound : pool.Sound) : pool.root.free ≠ null := by
  intro zero
  have start := sound.start
  rw [zero] at start
  exact sound.present (UInt64.toNat_inj.mp (Nat.le_zero.mp start))

theorem alloc_full (fits : pool.root.free.toNat + padded size.toNat < 2 ^ 64)
    (full : pool.root.last.toNat < pool.root.free.toNat + padded size.toNat) :
    alloc pool size = (null, pool) := by
  have moved : (pool.root.free + pad size).toNat =
      pool.root.free.toNat + padded size.toNat := by
    rw [UInt64.toNat_add, pad_toNat]
    omega
  refine if_pos ?_
  rwa [gt_iff_lt, UInt64.lt_iff_toNat_lt, moved]

end Alloc

/-! Calls of `alloc` in a row -/

/-- The pool with the blocks returned so far, each from its first byte to the one after
its last. -/
structure Allocations where
  pool : MemoryPool
  blocks : List (Nat × Nat)

/-- One call of `alloc`. -/
def allocCall (s : Allocations) (size : UInt64) : Except Empty Allocations :=
  let (ptr, pool) := alloc s.pool size
  .ok ⟨pool, if ptr = null then s.blocks else (ptr.toNat, pool.root.free.toNat) :: s.blocks⟩

namespace Allocations

variable {s t : Allocations} {size : UInt64}

/-- The block from `ptr` to the new `free` has the size asked for, lies in the pool at a
multiple of 8 from its start and overlaps no block returned before. -/
structure Grants (s : Allocations) (size : UInt64) (ptr : Pointer) (free : Pointer) : Prop where
  room : ptr.toNat + size.toNat ≤ free.toNat
  start : s.pool.root.mem.toNat ≤ ptr.toNat
  inside : free.toNat ≤ s.pool.root.last.toNat
  aligned : 8 ∣ ptr.toNat - s.pool.root.mem.toNat
  apart : ∀ block ∈ s.blocks, block.2 ≤ ptr.toNat ∨ free.toNat ≤ block.1

/-- What callers of `alloc` rely on. -/
def Serves (s : Allocations) (size : UInt64) : Prop :=
  let (ptr, pool) := alloc s.pool size
  (ptr = null ∧ pool = s.pool ∨ s.Grants size ptr pool.root.free) ∧
    pool.memUsed = pool.root.free - pool.root.mem

/-- The padded size, counted from `free`, does not run past the last address. -/
def Fits (s : Allocations) (size : UInt64) : Prop :=
  s.pool.root.free.toNat + padded size.toNat < 2 ^ 64

instance (s : Allocations) (size : UInt64) : Decidable (s.Fits size) :=
  inferInstanceAs (Decidable (_ < _))

/-- `free` lies behind every block returned and at a multiple of 8. -/
structure Sound (s : Allocations) : Prop extends s.pool.Sound where
  aligned : 8 ∣ s.pool.root.free.toNat - s.pool.root.mem.toNat
  behind : ∀ block ∈ s.blocks, block.2 ≤ s.pool.root.free.toNat
  used : s.pool.memUsed = s.pool.root.free - s.pool.root.mem

/-- A size that fits is refused, or its block is cut off at `free`. -/
theorem Sound.call (sound : s.Sound) (fits : s.Fits size) :
    alloc s.pool size = (null, s.pool) ∧ allocCall s size = .ok s ∨
    ∃ pool, alloc s.pool size = (s.pool.root.free, pool) ∧
      allocCall s size = .ok ⟨pool, (s.pool.root.free.toNat, pool.root.free.toNat) :: s.blocks⟩ ∧
      pool.root.mem = s.pool.root.mem ∧ pool.root.last = s.pool.root.last ∧
      pool.root.free.toNat = s.pool.root.free.toNat + padded size.toNat ∧
      pool.root.free.toNat ≤ pool.root.last.toNat ∧
      pool.memUsed = pool.root.free - pool.root.mem := by
  by_cases room : s.pool.root.free.toNat + padded size.toNat ≤ s.pool.root.last.toNat
  · obtain ⟨granted, moved⟩ := alloc_room room
    refine .inr ⟨_, granted, ?_, rfl, rfl, moved, by rw [moved]; exact room, ?_⟩
    · simp only [allocCall, granted, if_neg sound.free_ne]
    · rw [MemoryPool.granted, sound.used]
      grind
  · have refused := alloc_full fits (Nat.not_le.mp room)
    refine .inl ⟨refused, ?_⟩
    simp only [allocCall, refused, if_pos]

theorem Sound.serves (sound : s.Sound) (fits : s.Fits size) : s.Serves size := by
  rcases sound.call fits with ⟨refused, -⟩ | ⟨pool, granted, -, mem, last, moved, inside, used⟩
  · rw [Serves, refused]
    exact ⟨.inl ⟨rfl, rfl⟩, sound.used⟩
  · rw [Serves, granted]
    refine ⟨.inr ⟨?_, sound.start, last ▸ inside, sound.aligned, fun block member => ?_⟩, used⟩
    · rw [moved, padded]
      omega
    · exact .inl (sound.behind block member)

/-- A sum that wraps passes the check, and `free` moves back or stays. -/
theorem Sound.not_serves (sound : s.Sound) (wraps : ¬ s.Fits size) : ¬ s.Serves size := by
  unfold Fits at wraps
  have bound := size.toNat_lt
  have low := s.pool.root.last.toNat_lt
  have inside := sound.inside
  have moved : (s.pool.root.free + pad size).toNat =
      s.pool.root.free.toNat + padded size.toNat - 2 ^ 64 := by
    rw [UInt64.toNat_add, pad_toNat]
    unfold padded at wraps ⊢
    omega
  have passes : ¬ s.pool.root.free + pad size > s.pool.root.last := by
    rw [gt_iff_lt, UInt64.lt_iff_toNat_lt, moved]
    unfold padded at wraps ⊢
    omega
  have granted : alloc s.pool size = (s.pool.root.free, _) := if_neg passes
  rw [Serves, granted]
  rintro ⟨⟨refused, -⟩ | grants, -⟩
  · exact sound.free_ne refused
  · have room : s.pool.root.free.toNat + size.toNat ≤ (s.pool.root.free + pad size).toNat :=
      grants.room
    rw [moved] at room
    unfold padded at wraps room
    omega

theorem Sound.serves_iff (sound : s.Sound) (size : UInt64) : s.Serves size ↔ s.Fits size :=
  ⟨fun served => not_not.mp fun wraps => sound.not_serves wraps served, sound.serves⟩

theorem Sound.step (sound : s.Sound) (fits : s.Fits size) (taken : allocCall s size = .ok t) :
    t.Sound := by
  rcases sound.call fits with ⟨-, same⟩ | ⟨pool, -, same, mem, last, moved, inside, used⟩
  · cases same.symm.trans taken
    exact sound
  · cases same.symm.trans taken
    have start := sound.start
    have aligned := sound.aligned
    refine ⟨⟨mem ▸ sound.present, ?_, inside⟩, ?_, fun block member => ?_, used⟩
    · rw [mem, moved]
      omega
    · rw [mem, moved, padded]
      omega
    · rcases List.mem_cons.mp member with rfl | before
      · exact Nat.le_refl _
      · have behind := sound.behind block before
        rw [moved]
        omega

end Allocations

/-- The address after an object that `malloc` returns is a 64-bit word. -/
def MallocBounded (malloc : UInt64 → Pointer) : Prop :=
  ∀ size, malloc size ≠ null → (malloc size).toNat + size.toNat < 2 ^ 64

section Pool

variable {malloc : UInt64 → Pointer} {before : MemoryPool} {blockSize : UInt64}

theorem memPoolInit_sound (bounded : MallocBounded malloc)
    (started : (memPoolInit malloc before blockSize).1 = true) :
    Allocations.Sound ⟨(memPoolInit malloc before blockSize).2, []⟩ := by
  have present : malloc blockSize ≠ null := by
    intro failed
    simp [memPoolInit, initBlock, failed] at started
  have bound := bounded blockSize present
  simp only [memPoolInit, initBlock, if_neg present]
  refine ⟨⟨present, Nat.le_refl _, ?_⟩, ?_, nofun, ?_⟩
  · show (malloc blockSize).toNat ≤ (malloc blockSize + blockSize).toNat
    rw [UInt64.toNat_add]
    omega
  · simp
  · simp

/-- In a row of calls each gets nothing or a block of its own exactly if no padded size
runs past the last address. -/
theorem alloc_serves_iff (bounded : MallocBounded malloc)
    (started : (memPoolInit malloc before blockSize).1 = true) (sizes : List UInt64) :
    Guarded allocCall Allocations.Serves ⟨(memPoolInit malloc before blockSize).2, []⟩ sizes ↔
      Guarded allocCall Allocations.Fits ⟨(memPoolInit malloc before blockSize).2, []⟩ sizes :=
  guarded_iff_guarded (memPoolInit_sound bounded started)
    (fun _ _ _ sound fits taken => sound.step fits taken) fun _ size sound => sound.serves_iff size

/-- Where `malloc` has one block, of this size, at the address 4096. -/
def mallocOf (block size : UInt64) : Pointer := if size = block then 4096 else null

/-- `mem_pool` before `mem_pool_init`. -/
def MemoryPool.zero : MemoryPool := ⟨⟨null, null, null, null⟩, 0, 0⟩

theorem mallocOf_bounded {block : UInt64} (low : block.toNat < 2 ^ 63) :
    MallocBounded (mallocOf block) := by
  intro size present
  by_cases same : size = block
  · rw [mallocOf, if_pos same, same]
    simp only [UInt64.reduceToNat]
    omega
  · exact absurd (if_neg same) present

/-- Of four calls in a pool of 64 bytes, the one for 30 is refused. -/
theorem alloc_serves_four :
    let start : Allocations := ⟨(memPoolInit (mallocOf 64) .zero 64).2, []⟩
    (run allocCall start [5, 40, 30, 8]).map Allocations.blocks =
      .ok [(4144, 4152), (4104, 4144), (4096, 4104)] ∧
    Guarded allocCall Allocations.Serves start [5, 40, 30, 8] := by
  intro start
  constructor
  · decide +kernel
  · apply (alloc_serves_iff (mallocOf_bounded (by decide)) rfl [5, 40, 30, 8]).mpr
    decide +kernel

/-- The greatest size is padded to 0 and granted. -/
theorem alloc_serves_fails : ¬ Guarded allocCall Allocations.Serves
    ⟨(memPoolInit (mallocOf 64) .zero 64).2, []⟩ [18446744073709551615] := by
  intro served
  have sound : Allocations.Sound ⟨(memPoolInit (mallocOf 64) .zero 64).2, []⟩ :=
    memPoolInit_sound (mallocOf_bounded (by decide)) rfl
  exact sound.not_serves (by decide) served.1

end Pool

end Quickshare
