import Quickshare.Lib.Bytes
import Quickshare.Shared.MemPool

/-! The bytes of the pool. They hold what they held before `malloc` until they are
written, and an access outside them is not defined; neither is an `int` out of range. -/

namespace Quickshare

open Bytes

/-- Where a computation has no defined result or `die` stops it. -/
inductive MemFault where
  | overflow
  | outOfBounds
  | died
  deriving DecidableEq, Repr

/-- An `int` result. -/
def int (z : Int) : Except MemFault Int32 :=
  if -2 ^ 31 ≤ z ∧ z < 2 ^ 31 then .ok (Int32.ofInt z) else .error .overflow

/-- An `int` converted to `size_t` or added to an address. -/
def sizeT (x : Int32) : UInt64 := UInt64.ofNat (x.toInt % 2 ^ 64).toNat

/-- The pool with its `n` bytes. -/
structure Heap (n : Nat) where
  pool : MemoryPool
  data : Mem n
  /-- The ranges written so far, by first byte and length (kept for specifications). -/
  written : List (Nat × Nat)

namespace Heap

variable {n : Nat}

/-- Where an address lies in the pool. -/
def offset (h : Heap n) (p : Pointer) : Nat := p.toNat - h.pool.root.mem.toNat

/-- The `w` bytes from `p` on lie in the pool. -/
def Holds (h : Heap n) (p : Pointer) (w : Nat) : Prop :=
  h.pool.root.mem.toNat ≤ p.toNat ∧ h.offset p + w ≤ n

instance (h : Heap n) (p : Pointer) (w : Nat) : Decidable (h.Holds p w) :=
  inferInstanceAs (Decidable (_ ∧ _))

/-- The heap with these bytes at an offset. -/
def wrote (h : Heap n) (off : Nat) (bytes : List UInt8) : Heap n := { h with
  data := h.data.write off bytes
  written := h.written ++ [(off, bytes.length)] }

/-- `memcpy`, `memset` or an assignment through `p`. -/
def write (h : Heap n) (p : Pointer) (bytes : List UInt8) : Except MemFault (Heap n) :=
  if h.Holds p bytes.length then .ok (h.wrote (h.offset p) bytes) else .error .outOfBounds

/-- The `w` bytes at `p`. -/
def read (h : Heap n) (p : Pointer) (w : Nat) : Except MemFault (Mem w) :=
  if h.Holds p w then .ok (h.data.part (h.offset p) w) else .error .outOfBounds

def alloc (h : Heap n) (size : UInt64) : Pointer × Heap n :=
  let (p, pool) := Quickshare.alloc h.pool size
  (p, { h with pool })

end Heap

/-- The `int` at an offset. -/
def Bytes.Mem.loadInt (m : Mem n) (off : Nat) : Int32 := Int32.ofNat (m.load off 4)

theorem int_eq {z : Int} (low : -2 ^ 31 ≤ z) (high : z < 2 ^ 31) : int z = .ok (Int32.ofInt z) :=
  if_pos ⟨low, high⟩

theorem int_nat {k : Nat} (high : k < 2 ^ 31) : int k = .ok (Int32.ofNat k) := by
  rw [int_eq (by omega) (by omega), Int32.ofInt_eq_ofNat]

theorem sizeT_ofNat {k : Nat} (high : k < 2 ^ 31) : (sizeT (Int32.ofNat k)).toNat = k := by
  rw [sizeT, Int32.toInt_ofNat_of_lt high, UInt64.toNat_ofNat']
  omega

namespace Heap

/-- The heap once a call of `alloc` got its block. -/
def granted (h : Heap n) (size : UInt64) : Heap n := { h with pool := h.pool.granted size }

/-- The block of the pool is the `n` bytes. -/
structure Sound (h : Heap n) : Prop extends h.pool.Sound where
  size : h.pool.root.last.toNat = h.pool.root.mem.toNat + n

section Sound

variable {h : Heap n} {size : UInt64}

theorem alloc_room (room : h.pool.root.free.toNat + padded size.toNat ≤ h.pool.root.last.toNat) :
    h.alloc size = (h.pool.root.free, h.granted size) := by
  rw [alloc, (Quickshare.alloc_room room).1]
  rfl

theorem Sound.granted (sound : h.Sound)
    (room : h.pool.root.free.toNat + padded size.toNat ≤ h.pool.root.last.toNat) :
    (h.granted size).Sound :=
  ⟨sound.toSound.granted room, sound.size⟩

/-- An access through the address of an offset. -/
theorem holds_of {h : Heap n} {p : Pointer} {off w : Nat}
    (address : p.toNat = h.pool.root.mem.toNat + off) (inside : off + w ≤ n) :
    h.Holds p w ∧ h.offset p = off := by
  have here : h.offset p = off := by
    rw [offset]
    omega
  exact ⟨⟨by omega, by rwa [here]⟩, here⟩

theorem write_eq {h : Heap n} {p : Pointer} {off : Nat} {bytes : List UInt8}
    (address : p.toNat = h.pool.root.mem.toNat + off) (inside : off + bytes.length ≤ n) :
    h.write p bytes = .ok (h.wrote off bytes) := by
  obtain ⟨holds, here⟩ := holds_of address inside
  rw [write, if_pos holds, here]

end Sound

/-- A pool that has just been set up is sound, whatever its bytes are. -/
theorem sound_init {malloc : UInt64 → Pointer} {before : MemoryPool} {blockSize : UInt64}
    (bounded : MallocBounded malloc) (started : (memPoolInit malloc before blockSize).1 = true)
    (data : Mem blockSize.toNat) : Sound ⟨(memPoolInit malloc before blockSize).2, data, []⟩ := by
  have sound := memPoolInit_sound bounded started
  have present : malloc blockSize ≠ null := by
    intro failed
    simp [memPoolInit, initBlock, failed] at started
  refine ⟨sound.toSound, ?_⟩
  simp only [memPoolInit, initBlock, if_neg present]
  rw [UInt64.toNat_add, Nat.mod_eq_of_lt (bounded blockSize present)]

end Heap

end Quickshare
