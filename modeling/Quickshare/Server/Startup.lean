import Quickshare.Server.Client
import Quickshare.Server.RawQueue

/-! `client_list_init` on the bytes of the pool, which hold anything at first. It sets
neither the state of a slot nor, before it clears the items of a queue, their number and
size, so what it leaves depends on those bytes. Structures are laid out as on x86-64. -/

namespace Quickshare

open Bytes Runs

abbrev memPoolSize : UInt64 := 1024 * 1024

/-- `sizeof(Client)`. -/
abbrev clientSize : Nat := 192

/-- Offsets of the members of `Client` that `client_list_init` sets or should set. -/
abbrev encryptedBufAt : Nat := 56
abbrev stateAt : Nat := 80
abbrev msgQueueAt : Nat := 96
abbrev readBufAt : Nat := 144
abbrev decryptBufAt : Nat := 168

/-- `Buffer` as it lies in memory. -/
structure RawBuffer where
  data : Pointer
  len : Nat
  size : Nat
  bytes : Nat

def RawBuffer.image (b : RawBuffer) : List UInt8 :=
  toLE 8 b.data.toNat ++ toLE 4 b.len ++ toLE 4 b.size ++ toLE 4 b.bytes

def Bytes.Mem.buffer (m : Mem n) (off : Nat) : RawBuffer where
  data := UInt64.ofNat (m.load off 8)
  len := m.load (off + 8) 4
  size := m.load (off + 12) 4
  bytes := m.load (off + 16) 4

def RawQueue.image (q : RawQueue) : List UInt8 :=
  toLE 8 q.items.toNat ++ toLE 4 q.head.toUInt32.toNat ++ toLE 4 q.tail.toUInt32.toNat ++
    toLE 4 q.len.toUInt32.toNat ++ toLE 4 q.size.toUInt32.toNat ++ toLE 4 q.count.toUInt32.toNat

def Bytes.Mem.queue (m : Mem n) (off : Nat) : RawQueue where
  items := UInt64.ofNat (m.load off 8)
  head := m.loadInt (off + 8)
  tail := m.loadInt (off + 12)
  len := m.loadInt (off + 16)
  size := m.loadInt (off + 20)
  count := m.loadInt (off + 24)

/-- `BUFFER_ALLOC` on the buffer at `p`; the address it leaves in `data`. -/
def Heap.bufferAlloc (h : Heap n) (p : Pointer) (bsize : Nat) : Except MemFault (Pointer × Heap n) := do
  let (data, h) := h.alloc (UInt64.ofNat bsize)
  let h ← h.write p (RawBuffer.image ⟨data, 0, 0, bsize⟩)
  return (data, h)

/-- One turn of the loop. -/
def Heap.slotInit (h : Heap n) (list : Pointer) (i : Nat) : Except MemFault (Heap n) := do
  let slot := list + UInt64.ofNat (clientSize * i)
  let (readBuf, h) ← h.bufferAlloc (slot + UInt64.ofNat readBufAt) packetMaxSize
  let (decryptBuf, h) ← h.bufferAlloc (slot + UInt64.ofNat decryptBufAt) packetMaxSize
  let (encryptedBuf, h) ← h.bufferAlloc (slot + UInt64.ofNat encryptedBufAt) (packetMaxSize * 2)
  if readBuf = null ∨ decryptBuf = null ∨ encryptedBuf = null then .error .died
  else
    let msgQueue := slot + UInt64.ofNat msgQueueAt
    let (done, q, h) ← RawQueue.init h (h.data.queue (h.offset msgQueue)) (Int32.ofNat packetMaxSize)
      (Int32.ofNat (maxClients / 2))
    if done then h.write msgQueue q.image else .error .died

/-- `Client_List`. -/
structure RawClientList where
  list : Pointer
  nCli : Nat

def Heap.clientListInit (h : Heap n) : Except MemFault (RawClientList × Heap n) := do
  let (list, h) := h.alloc (UInt64.ofNat (maxClients * clientSize))
  if list = null then .error .died
  else
    let h ← (List.range maxClients).foldlM (fun h i => h.slotInit list i) h
    return (⟨list, 0⟩, h)

/-! What is established and what it takes -/

/-- Each queue of an initialised list is like this. -/
structure RawQueue.Initial (q : RawQueue) : Prop where
  head : q.head = 0
  tail : q.tail = 0
  count : q.count = 0
  len : q.len = Int32.ofNat (maxClients / 2)
  size : q.size = Int32.ofNat packetMaxSize

/-- The bytes of all items of a queue. -/
abbrev itemsBytes : Nat := packetMaxSize * (maxClients / 2)

namespace RawClientList

variable {n : Nat}

/-- `list[i].state`; `C_EMPTY` is 0. -/
def state (clients : RawClientList) (h : Heap n) (i : Nat) : Nat :=
  h.data.load (h.offset clients.list + clientSize * i + stateAt) 4

def msgQueue (clients : RawClientList) (h : Heap n) (i : Nat) : RawQueue :=
  h.data.queue (h.offset clients.list + clientSize * i + msgQueueAt)

/-- Where the items of the `i`-th queue start. -/
def items (clients : RawClientList) (h : Heap n) (i : Nat) : Nat :=
  h.offset (clients.msgQueue h i).items

end RawClientList

/-- What later code relies on once `client_list_init` returned. -/
structure Established {n : Nat} (before : Heap n) (clients : RawClientList) (after : Heap n) : Prop where
  empty : ∀ i < maxClients, clients.state after i = 0
  none : clients.nCli = 0
  counted : clients.nCli = ((List.range maxClients).filter (clients.state after · ≠ 0)).length
  queues : ∀ i < maxClients, (clients.msgQueue after i).Initial
  zero : ∀ i < maxClients, ∀ k < itemsBytes, after.data.byte (clients.items after i + k) = 0
  /-- The items of a queue lie behind the clients and before those of the next queue. -/
  own : ∀ i < maxClients, after.offset clients.list + clientSize * maxClients ≤ clients.items after i ∧
    ∀ j < i, clients.items after j + itemsBytes ≤ clients.items after i
  granted : ∀ i < maxClients,
    clients.items after i + itemsBytes ≤ after.offset after.pool.root.free
  /-- Only bytes that `alloc` gave out here were written. -/
  written : ∀ range ∈ after.written, before.offset before.pool.root.free ≤ range.1 ∧
    range.1 + range.2 ≤ after.offset after.pool.root.free

/-- The pool is cut up to here when the `i`-th turn of the loop starts: the clients, and
28800 bytes for the buffers and the queue of each slot before. -/
def usedAt (i : Nat) : Nat := 6144 + 28800 * i

def itemsAt (i : Nat) : Nat := usedAt i + 5760

theorem usedAt_succ (i : Nat) : usedAt (i + 1) = usedAt i + 28800 := by
  rw [usedAt, usedAt, Nat.mul_succ, Nat.add_assoc]

theorem usedAt_start (i : Nat) : 6144 ≤ usedAt i := Nat.le_add_right ..

/-- `q->size * q->len` of the `i`-th queue before it is set up. -/
def Bytes.Mem.stale {n : Nat} (m : Mem n) (i : Nat) : Int :=
  (m.queue (clientSize * i + msgQueueAt)).size.toInt *
    (m.queue (clientSize * i + msgQueueAt)).len.toInt

/-- The content of the pool from which the initialisation works: the states are 0 already,
and what the old fields of the queues count stays inside and covers what is not 0. -/
structure Bytes.Mem.Ready {n : Nat} (m : Mem n) : Prop where
  states : ∀ i < maxClients, m.load (clientSize * i + stateAt) 4 = 0
  least : ∀ i < maxClients, 0 ≤ m.stale i
  most : ∀ i < maxClients, itemsAt i + m.stale i ≤ usedAt maxClients
  covered : ∀ i < maxClients, ∀ k < itemsBytes, m.byte (itemsAt i + k) = 0 ∨
    ∃ j < maxClients, itemsAt j ≤ itemsAt i + k ∧ itemsAt i + k < itemsAt j + m.stale j

/-! Images in memory -/

theorem int32_image (x : Int32) : Int32.ofNat (x.toUInt32.toNat % 256 ^ 4) = x := by
  have bound := x.toUInt32.toNat_lt
  rw [Nat.mod_eq_of_lt (by omega)]
  apply Int32.toBitVec.inj
  simp

theorem pointer_image (p : Pointer) : UInt64.ofNat (p.toNat % 256 ^ 8) = p := by
  have bound := p.toNat_lt
  rw [Nat.mod_eq_of_lt (by omega), UInt64.ofNat_toNat]

section Images

variable {n off : Nat}

/-- The image of a queue, member by member. -/
theorem write_queue (m : Mem n) (off : Nat) (q : RawQueue) :
    m.write off q.image =
      (((((m.store off 8 q.items.toNat).store (off + 8) 4 q.head.toUInt32.toNat).store (off + 12) 4
        q.tail.toUInt32.toNat).store (off + 16) 4 q.len.toUInt32.toNat).store (off + 20) 4
          q.size.toUInt32.toNat).store (off + 24) 4 q.count.toUInt32.toNat := by
  simp only [RawQueue.image, Mem.write_append, List.length_append, toLE_length, Mem.store]

theorem queue_image (m : Mem n) (q : RawQueue) (fits : off + 28 ≤ n) :
    (m.write off q.image).queue off = q := by
  simp (disch := omega) only [write_queue, Mem.queue, Mem.loadInt, Mem.load_store_apart,
    Mem.load_store, int32_image, pointer_image]

theorem RawQueue.image_length (q : RawQueue) : q.image.length = 28 := by
  simp [RawQueue.image]

theorem RawBuffer.image_length (b : RawBuffer) : b.image.length = 20 := by
  simp [RawBuffer.image]

theorem Bytes.Mem.queue_write_apart (m : Mem n) (bytes : List UInt8)
    (apart : start + 28 ≤ off ∨ off + bytes.length ≤ start) :
    (m.write off bytes).queue start = m.queue start := by
  simp (disch := omega) only [Mem.queue, Mem.loadInt, Mem.load_write_apart]

end Images

/-! One turn of the loop -/

namespace Heap

/-- The pool is cut up to the offset `used`. -/
structure Cut {n : Nat} (h : Heap n) (mem : Pointer) (used : Nat) : Prop where
  sound : h.Sound
  base : h.pool.root.mem = mem
  free : h.pool.root.free = mem + UInt64.ofNat used

section Cut

variable {n used off : Nat} {h : Heap n} {mem : Pointer}

theorem Cut.top (cut : h.Cut mem used) : mem.toNat + n < 2 ^ 64 := by
  have size := cut.sound.size
  have bound := h.pool.root.last.toNat_lt
  rw [cut.base] at size
  omega

theorem pointer_add (mem : Pointer) (low : mem.toNat + off < 2 ^ 64) :
    (mem + UInt64.ofNat off).toNat = mem.toNat + off := by
  rw [UInt64.toNat_add, UInt64.toNat_ofNat']
  omega

theorem Cut.alloc (cut : h.Cut mem used) (size : UInt64) (room : used + padded size.toNat ≤ n) :
    h.pool.root.free.toNat + padded size.toNat ≤ h.pool.root.last.toNat ∧
      h.alloc size = (mem + UInt64.ofNat used, h.granted size) ∧
      (h.granted size).Cut mem (used + padded size.toNat) := by
  have top := cut.top
  have bytes := cut.sound.size
  have free : h.pool.root.free.toNat = mem.toNat + used := by
    rw [cut.free, pointer_add mem (by omega)]
  rw [cut.base] at bytes
  have fits : h.pool.root.free.toNat + padded size.toNat ≤ h.pool.root.last.toNat := by omega
  have moved := (Quickshare.alloc_room fits).2
  refine ⟨fits, ?_, cut.sound.granted fits, cut.base, ?_⟩
  · rw [alloc_room fits, cut.free]
  · apply UInt64.toNat_inj.mp
    rw [pointer_add mem (by omega)]
    exact moved.trans (by rw [free, Nat.add_assoc])

theorem Cut.wrote (cut : h.Cut mem used) (off : Nat) (bytes : List UInt8) :
    (h.wrote off bytes).Cut mem used :=
  ⟨⟨cut.sound.toSound, cut.sound.size⟩, cut.base, cut.free⟩

theorem Cut.offset_eq (cut : h.Cut mem used) (low : off ≤ n) :
    h.offset (mem + UInt64.ofNat off) = off := by
  have top := cut.top
  rw [offset, pointer_add mem (by omega), cut.base, Nat.add_sub_cancel_left]

theorem Cut.write_if (cut : h.Cut mem used) {bytes : List UInt8} (low : off ≤ n) :
    h.write (mem + UInt64.ofNat off) bytes =
      if off + bytes.length ≤ n then .ok (h.wrote off bytes) else .error .outOfBounds := by
  have top := cut.top
  have start : h.pool.root.mem.toNat ≤ (mem + UInt64.ofNat off).toNat := by
    rw [pointer_add mem (by omega), cut.base]
    exact Nat.le_add_right ..
  simp only [Heap.write, Holds, cut.offset_eq low, start, true_and]

theorem Cut.write (cut : h.Cut mem used) {bytes : List UInt8} (inside : off + bytes.length ≤ n) :
    h.write (mem + UInt64.ofNat off) bytes = .ok (h.wrote off bytes) := by
  have top := cut.top
  exact write_eq (by rw [cut.base, pointer_add mem (by omega)]) inside

theorem Cut.free_ne (cut : h.Cut mem used) : mem + UInt64.ofNat used ≠ null :=
  cut.free ▸ cut.sound.free_ne

/-- The heap once a buffer of `bytes` bytes at the offset `used` is set up at `off`. -/
def withBuffer (h : Heap n) (mem : Pointer) (off used bytes : Nat) : Heap n :=
  (h.granted (UInt64.ofNat bytes)).wrote off
    (RawBuffer.image ⟨mem + UInt64.ofNat used, 0, 0, bytes⟩)

theorem withBuffer_data (h : Heap n) (mem : Pointer) (off used bytes : Nat) :
    (h.withBuffer mem off used bytes).data =
      h.data.write off (RawBuffer.image ⟨mem + UInt64.ofNat used, 0, 0, bytes⟩) := rfl

theorem Cut.bufferAlloc (cut : h.Cut mem used) (off bytes : Nat) (even : bytes % 8 = 0)
    (room : used + bytes ≤ n) (inside : off + 20 ≤ n) :
    h.bufferAlloc (mem + UInt64.ofNat off) bytes =
        .ok (mem + UInt64.ofNat used, h.withBuffer mem off used bytes) ∧
      (h.withBuffer mem off used bytes).Cut mem (used + bytes) := by
  have top := cut.top
  have size : padded (UInt64.ofNat bytes).toNat = bytes := by
    rw [UInt64.toNat_ofNat', padded]
    omega
  obtain ⟨-, taken, cut'⟩ := cut.alloc (UInt64.ofNat bytes) (by omega)
  rw [size] at cut'
  have inside : off + (RawBuffer.image ⟨mem + UInt64.ofNat used, 0, 0, bytes⟩).length ≤ n := by
    rw [RawBuffer.image_length]
    omega
  have written := cut'.write inside
  refine ⟨?_, cut'.wrote off _⟩
  simp only [Heap.bufferAlloc, taken, written, bind, Except.bind]
  rfl

end Cut

/-- The heap once the three buffers of slot `i` are set up. -/
def buffered {n : Nat} (h : Heap n) (mem : Pointer) (i : Nat) : Heap n :=
  ((h.withBuffer mem (192 * i + 144) (usedAt i) 1440).withBuffer mem (192 * i + 168)
    (usedAt i + 1440) 1440).withBuffer mem (192 * i + 56)
      (usedAt i + 1440 + 1440) 2880

section Turn

variable {n i : Nat} {h h' : Heap n} {mem : Pointer}

theorem member_address (mem : Pointer) (a b : Nat) :
    mem + UInt64.ofNat a + UInt64.ofNat b = mem + UInt64.ofNat (a + b) := by
  rw [UInt64.add_assoc, ← UInt64.ofNat_add]

theorem Cut.buffered (cut : h.Cut mem (usedAt i)) (less : i < 32) (room : usedAt (i + 1) ≤ n) :
    (h.buffered mem i).Cut mem (itemsAt i) ∧ h.slotInit mem i = (do
      let (done, q, h) ← RawQueue.init (h.buffered mem i) (h.data.queue (192 * i + 96))
        (Int32.ofNat 1440) (Int32.ofNat 16)
      if done then h.write (mem + UInt64.ofNat (192 * i + 96)) q.image else .error .died) := by
  rw [usedAt_succ] at room
  have start := usedAt_start i
  obtain ⟨first, cut1⟩ := cut.bufferAlloc (192 * i + 144) 1440 rfl (by omega) (by omega)
  obtain ⟨second, cut2⟩ := cut1.bufferAlloc (192 * i + 168) 1440 rfl (by omega) (by omega)
  obtain ⟨third, cut3⟩ := cut2.bufferAlloc (192 * i + 56) 2880 rfl (by omega) (by omega)
  have used : usedAt i + 1440 + 1440 + 2880 = itemsAt i := by
    rw [itemsAt, Nat.add_assoc, Nat.add_assoc]
  change _ = Except.ok (_, h.buffered mem i) at third
  refine ⟨used ▸ cut3, ?_⟩
  have here : (h.buffered mem i).offset (mem + UInt64.ofNat (192 * i + 96)) = 192 * i + 96 :=
    cut3.offset_eq (by omega)
  have fields : (h.buffered mem i).data.queue (192 * i + 96) = h.data.queue (192 * i + 96) := by
    simp only [Heap.buffered, withBuffer_data]
    rw [Bytes.Mem.queue_write_apart _ _ (by simp only [RawBuffer.image_length]; omega),
      Bytes.Mem.queue_write_apart _ _ (by simp only [RawBuffer.image_length]; omega),
      Bytes.Mem.queue_write_apart _ _ (by simp only [RawBuffer.image_length]; omega)]
  simp only [Heap.slotInit, packetMaxSize, clientSize, readBufAt, decryptBufAt, encryptedBufAt,
    msgQueueAt, maxClients, member_address, first, second, third, bind, Except.bind, cut.free_ne,
    cut1.free_ne, cut2.free_ne]
  simp only [or_self, if_false, here, fields]

theorem queueRoom : padded (sizeT (Int32.ofNat 1440) * sizeT (Int32.ofNat 16)).toNat = 23040 := by
  decide

/-- The heap once `cleared` bytes of the items are cleared and the queue is set up. -/
def finished (h : Heap n) (mem : Pointer) (i cleared : Nat) : Heap n :=
  (((h.buffered mem i).granted (sizeT (Int32.ofNat 1440) * sizeT (Int32.ofNat 16))).wrote
    (itemsAt i) (List.replicate cleared 0)).wrote (192 * i + 96) (RawQueue.image
      ⟨mem + UInt64.ofNat (itemsAt i), 0, 0, Int32.ofNat 16, Int32.ofNat 1440, 0⟩)

theorem Cut.finished (cut : h.Cut mem (usedAt i)) (less : i < 32) (room : usedAt (i + 1) ≤ n) :
    (∀ cleared, (h.finished mem i cleared).Cut mem (usedAt (i + 1))) ∧
    h.slotInit mem i = (do
      let cleared ← int (h.data.stale i)
      if itemsAt i + (sizeT cleared).toNat ≤ n then .ok (h.finished mem i (sizeT cleared).toNat)
      else .error .outOfBounds) := by
  obtain ⟨cut', turn⟩ := cut.buffered less room
  rw [usedAt_succ] at room
  have start := usedAt_start i
  have shape : QueueShape (Int32.ofNat 1440) (Int32.ofNat 16) 1440 16 :=
    ⟨rfl, rfl, by decide, ⟨4, rfl⟩, by decide⟩
  have plain : padded (1440 * 16) = 23040 := by decide
  have behind : itemsAt i = usedAt i + 5760 := rfl
  obtain ⟨fits, -, cut4⟩ := cut'.alloc (sizeT (Int32.ofNat 1440) * sizeT (Int32.ofNat 16))
    (by rw [queueRoom]; omega)
  have used : itemsAt i + 23040 = usedAt (i + 1) := by
    rw [usedAt_succ]
    omega
  rw [queueRoom] at fits cut4
  have top := cut.top
  rw [used] at cut4
  refine ⟨fun cleared => (cut4.wrote ..).wrote .., ?_⟩
  have count : (h.data.queue (192 * i + 96)).size.toInt * (h.data.queue (192 * i + 96)).len.toInt =
      h.data.stale i := rfl
  rw [turn, RawQueue.init_eq cut'.sound shape (plain ▸ fits), count, cut'.free]
  cases int (h.data.stale i) with
  | error fault => rfl
  | ok cleared =>
    simp only [bind, Except.bind]
    rw [cut4.write_if (by omega), List.length_replicate]
    by_cases inside : itemsAt i + (sizeT cleared).toNat ≤ n
    · rw [if_pos inside, if_pos inside]
      exact (cut4.wrote _ _).write (by rw [RawQueue.image_length]; omega)
    · rw [if_neg inside, if_neg inside]

theorem finished_data (h : Heap n) (mem : Pointer) (i cleared : Nat) :
    (h.finished mem i cleared).data =
      ((((h.data.write (192 * i + 144) (RawBuffer.image ⟨mem + UInt64.ofNat (usedAt i), 0, 0, 1440⟩)).write
        (192 * i + 168) (RawBuffer.image ⟨mem + UInt64.ofNat (usedAt i + 1440), 0, 0, 1440⟩)).write
          (192 * i + 56) (RawBuffer.image ⟨mem + UInt64.ofNat (usedAt i + 1440 + 1440), 0, 0, 2880⟩)).write
            (itemsAt i) (List.replicate cleared 0)).write (192 * i + 96) (RawQueue.image
              ⟨mem + UInt64.ofNat (itemsAt i), 0, 0, Int32.ofNat 16, Int32.ofNat 1440, 0⟩) := rfl

/-- A turn comes to its end if what the old fields of the queue count is inside the pool. -/
theorem Cut.slotInit_ok (cut : h.Cut mem (usedAt i)) (less : i < 32) (room : usedAt (i + 1) ≤ n)
    (small : n < 2 ^ 31) : h.slotInit mem i = .ok h' ↔
      (0 ≤ h.data.stale i ∧ itemsAt i + h.data.stale i ≤ n) ∧
        h.finished mem i (h.data.stale i).toNat = h' := by
  rw [(cut.finished less room).2]
  by_cases range : -2 ^ 31 ≤ h.data.stale i ∧ h.data.stale i < 2 ^ 31
  · have same : (sizeT (Int32.ofInt (h.data.stale i))).toNat = (h.data.stale i % 2 ^ 64).toNat := by
      rw [sizeT, Int32.toInt_ofInt_of_le range.1 range.2, UInt64.toNat_ofNat']
      omega
    rw [int, if_pos range]
    simp only [bind, Except.bind, same]
    by_cases least : 0 ≤ h.data.stale i
    · have whole : (h.data.stale i % 2 ^ 64).toNat = (h.data.stale i).toNat := by omega
      rw [whole]
      by_cases inside : itemsAt i + (h.data.stale i).toNat ≤ n
      · rw [if_pos inside, Except.ok.injEq]
        exact ⟨fun taken => ⟨⟨least, by omega⟩, taken⟩, fun taken => taken.2⟩
      · rw [if_neg inside]
        exact ⟨fun taken => (by cases taken), fun taken => absurd taken.1.2 (by omega)⟩
    · rw [if_neg (by omega)]
      exact ⟨fun taken => (by cases taken), fun taken => absurd taken.1.1 least⟩
  · rw [int, if_neg range]
    exact ⟨fun taken => (by cases taken), fun taken => absurd taken.1 (by omega)⟩

end Turn

/-! The whole loop -/

/-- The ranges written in the `i`-th turn of the loop. -/
def slotRanges {n : Nat} (m : Mem n) (i : Nat) : List (Nat × Nat) :=
  [(192 * i + 144, 20), (192 * i + 168, 20), (192 * i + 56, 20), (itemsAt i, (m.stale i).toNat),
    (192 * i + 96, 28)]

/-- The pool, which held `m`, after `k` turns of the loop. -/
structure Turned {n : Nat} (m : Mem n) (mem : Pointer) (k : Nat) (h : Heap n) : Prop where
  cut : h.Cut mem (usedAt k)
  states : ∀ i < 32, h.data.load (192 * i + 80) 4 = m.load (192 * i + 80) 4
  stale : ∀ i < 32, k ≤ i → h.data.stale i = m.stale i
  queues : ∀ i < k, h.data.queue (192 * i + 96) =
    ⟨mem + UInt64.ofNat (itemsAt i), 0, 0, Int32.ofNat 16, Int32.ofNat 1440, 0⟩
  cleared : ∀ a, usedAt 0 ≤ a → (∃ i < k, itemsAt i ≤ a ∧ a < itemsAt i + m.stale i) →
    h.data.byte a = 0
  kept : ∀ a, usedAt 0 ≤ a → (¬ ∃ i < k, itemsAt i ≤ a ∧ a < itemsAt i + m.stale i) →
    h.data.byte a = m.byte a
  written : h.written = (List.range k).flatMap (slotRanges m)

section Loop

variable {n k : Nat} {m : Mem n} {h h' : Heap n} {mem : Pointer}

theorem itemsAt_start (i : Nat) : 6144 ≤ itemsAt i := Nat.le_trans (usedAt_start i) (Nat.le_add_right ..)

theorem finished_state (h : Heap n) (mem : Pointer) (cleared : Nat) (i : Nat) (less : i < 32) :
    (h.finished mem k cleared).data.load (192 * i + 80) 4 = h.data.load (192 * i + 80) 4 := by
  have start := itemsAt_start k
  simp (disch := simp only [RawBuffer.image_length, RawQueue.image_length, List.length_replicate]; omega)
    only [finished_data, Mem.load_write_apart]

theorem finished_queue_apart (h : Heap n) (mem : Pointer) (cleared : Nat) (less : i < 32) (apart : i ≠ k) :
    (h.finished mem k cleared).data.queue (192 * i + 96) = h.data.queue (192 * i + 96) := by
  have start := itemsAt_start k
  simp (disch := simp only [RawBuffer.image_length, RawQueue.image_length, List.length_replicate]; omega)
    only [finished_data, Mem.queue_write_apart]

/-- Behind the clients only items are written. -/
theorem finished_byte (h : Heap n) (mem : Pointer) (less : k < 32) (behind : usedAt 0 ≤ a) :
    (h.finished mem k cleared).data.byte a =
      (h.data.write (itemsAt k) (List.replicate cleared 0)).byte a := by
  have start : 6144 ≤ a := behind
  rw [finished_data, Mem.byte_write_outside _ _ (.inr (by rw [RawQueue.image_length]; omega)),
    Mem.byte_write, Mem.byte_write_outside _ _ (.inr (by rw [RawBuffer.image_length]; omega)),
    Mem.byte_write_outside _ _ (.inr (by rw [RawBuffer.image_length]; omega)),
    Mem.byte_write_outside _ _ (.inr (by rw [RawBuffer.image_length]; omega)), Mem.byte_write]

theorem byte_clear (m : Mem n) (start cleared a : Nat) :
    (m.write start (List.replicate cleared 0)).byte a =
      if start ≤ a ∧ a < start + cleared then 0 else m.byte a := by
  by_cases within : start ≤ a ∧ a < start + cleared
  · rw [if_pos within]
    by_cases inside : a < n
    · have member : a - start < cleared := by omega
      simp [Mem.byte_write, inside, within.1, member]
    · simp [Mem.byte, inside]
  · rw [if_neg within, Mem.byte_write_outside]
    rw [List.length_replicate]
    omega

theorem Turned.step (turned : Turned m mem k h) (less : k < 32) (room : usedAt (k + 1) ≤ n)
    (least : 0 ≤ m.stale k) (inside : itemsAt k + m.stale k ≤ n) :
    Turned m mem (k + 1) (h.finished mem k (m.stale k).toNat) where
  cut := (turned.cut.finished less room).1 _
  states i member := by rw [finished_state h mem _ i member, turned.states i member]
  stale i member later := by
    have same : (h.finished mem k (m.stale k).toNat).data.stale i = h.data.stale i := by
      have apart := finished_queue_apart h mem (m.stale k).toNat member (by omega : i ≠ k)
      exact congrArg (fun q : RawQueue => q.size.toInt * q.len.toInt) apart
    rw [same, turned.stale i member (by omega)]
  queues i member := by
    by_cases here : i = k
    · subst here
      have start := usedAt_start i
      rw [usedAt_succ] at room
      rw [finished_data, queue_image _ _ (by omega)]
    · rw [finished_queue_apart h mem _ (by omega) here, turned.queues i (by omega)]
  cleared a behind found := by
    rw [finished_byte h mem less behind, byte_clear]
    by_cases here : itemsAt k ≤ a ∧ a < itemsAt k + (m.stale k).toNat
    · rw [if_pos here]
    · rw [if_neg here]
      obtain ⟨i, member, within⟩ := found
      have earlier : i ≠ k := by
        rintro rfl
        omega
      exact turned.cleared a behind ⟨i, by omega, within⟩
  kept a behind absent := by
    have apart : ¬ (itemsAt k ≤ a ∧ a < itemsAt k + (m.stale k).toNat) := fun within =>
      absent ⟨k, Nat.lt_succ_self k, within.1, by omega⟩
    rw [finished_byte h mem less behind, byte_clear, if_neg apart]
    exact turned.kept a behind fun ⟨i, member, within⟩ => absent ⟨i, Nat.lt_succ_of_lt member, within⟩
  written := by
    rw [List.range_succ, List.flatMap_append, ← turned.written]
    simp [finished, buffered, withBuffer, wrote, granted, slotRanges, RawBuffer.image_length,
      RawQueue.image_length]

theorem usedAt_mono {i j : Nat} (least : i ≤ j) : usedAt i ≤ usedAt j :=
  Nat.add_le_add_left (Nat.mul_le_mul_left _ least) _

/-- The loop comes to its end if every turn does. -/
theorem Turned.loop (start : Turned m mem 0 h) (room : usedAt 32 ≤ n) (small : n < 2 ^ 31)
    (less : k ≤ 32) :
    (∀ h', (List.range k).foldlM (fun h i => h.slotInit mem i) h = .ok h' →
      Turned m mem k h' ∧ ∀ i < k, 0 ≤ m.stale i ∧ itemsAt i + m.stale i ≤ n) ∧
    ((∀ i < k, 0 ≤ m.stale i ∧ itemsAt i + m.stale i ≤ n) →
      ∃ h', (List.range k).foldlM (fun h i => h.slotInit mem i) h = .ok h') := by
  induction k with
  | zero =>
    refine ⟨fun h' taken => ?_, fun _ => ⟨h, rfl⟩⟩
    cases taken
    exact ⟨start, nofun⟩
  | succ k ih =>
    obtain ⟨reached, reaches⟩ := ih (by omega)
    have here : usedAt (k + 1) ≤ n := Nat.le_trans (usedAt_mono less) room
    have last : (List.range (k + 1)).foldlM (fun h i => h.slotInit mem i) h =
        (List.range k).foldlM (fun h i => h.slotInit mem i) h >>= fun h => h.slotInit mem k := by
      rw [List.range_succ, List.foldlM_append]
      exact congrArg _ (funext fun h => by simp)
    rw [last]
    refine ⟨fun h' taken => ?_, fun fits => ?_⟩
    · obtain ⟨before, ran, turn⟩ := bind_ok taken
      obtain ⟨turned, fits⟩ := reached before ran
      have ok := (turned.cut.slotInit_ok less here small).mp turn
      rw [turned.stale k less (Nat.le_refl _)] at ok
      refine ⟨ok.2 ▸ turned.step less here ok.1.1 ok.1.2, fun i member => ?_⟩
      rcases Nat.lt_succ_iff_lt_or_eq.mp member with earlier | rfl
      · exact fits i earlier
      · exact ok.1
    · obtain ⟨before, ran⟩ := reaches fun i member => fits i (Nat.lt_succ_of_lt member)
      obtain ⟨turned, -⟩ := reached before ran
      rw [ran]
      refine ⟨_, (turned.cut.slotInit_ok less here small).mpr ⟨?_, rfl⟩⟩
      rw [turned.stale k less (Nat.le_refl _)]
      exact fits k (Nat.lt_succ_self k)

/-- What a finished loop leaves, in the terms of the list. -/
theorem Turned.views (turned : Turned m mem 32 h) (room : usedAt 32 ≤ n) {i : Nat} (less : i < 32) :
    RawClientList.state ⟨mem, 0⟩ h i = m.load (192 * i + 80) 4 ∧
      RawClientList.msgQueue ⟨mem, 0⟩ h i =
        ⟨mem + UInt64.ofNat (itemsAt i), 0, 0, Int32.ofNat 16, Int32.ofNat 1440, 0⟩ ∧
      RawClientList.items ⟨mem, 0⟩ h i = itemsAt i ∧ itemsAt i + 23040 = usedAt (i + 1) := by
  have offset : h.offset mem = 0 := by
    rw [Heap.offset, turned.cut.base, Nat.sub_self]
  have queue : RawClientList.msgQueue ⟨mem, 0⟩ h i =
      ⟨mem + UInt64.ofNat (itemsAt i), 0, 0, Int32.ofNat 16, Int32.ofNat 1440, 0⟩ := by
    rw [RawClientList.msgQueue, offset, Nat.zero_add, turned.queues i less]
  have behind : itemsAt i = usedAt i + 5760 := rfl
  have next := usedAt_succ i
  have later : usedAt (i + 1) ≤ usedAt 32 := usedAt_mono less
  refine ⟨?_, queue, ?_, by omega⟩
  · rw [RawClientList.state, offset, Nat.zero_add, turned.states i less]
  · rw [RawClientList.items, queue, turned.cut.offset_eq (by omega)]

/-- The items of a queue are zeroed if the bytes not cleared were 0 before. -/
theorem Turned.zero_iff (turned : Turned m mem 32 h) {a : Nat} (behind : usedAt 0 ≤ a) :
    h.data.byte a = 0 ↔ m.byte a = 0 ∨ ∃ j < 32, itemsAt j ≤ a ∧ a < itemsAt j + m.stale j := by
  by_cases found : ∃ j < 32, itemsAt j ≤ a ∧ a < itemsAt j + m.stale j
  · exact iff_of_true (turned.cleared a behind found) (.inr found)
  · rw [turned.kept a behind found]
    exact ⟨.inl, fun zero => zero.resolve_right found⟩

theorem Turned.written_inside (turned : Turned m mem 32 h) (inside : ∀ i < 32, 0 ≤ m.stale i) :
    (∀ range ∈ h.written, range.1 + range.2 ≤ usedAt 32) ↔
      ∀ i < 32, itemsAt i + m.stale i ≤ usedAt 32 := by
  rw [turned.written]
  constructor
  · intro all i less
    have cleared := all (itemsAt i, (m.stale i).toNat)
      (List.mem_flatMap.mpr ⟨i, List.mem_range.mpr less, by simp [slotRanges]⟩)
    have least := inside i less
    omega
  · intro most range member
    obtain ⟨i, less, written⟩ := List.mem_flatMap.mp member
    have less := List.mem_range.mp less
    have most := most i less
    have least := inside i less
    have clients : usedAt 32 = 927744 := rfl
    simp only [slotRanges, List.mem_cons, List.not_mem_nil, or_false] at written
    rcases written with rfl | rfl | rfl | rfl | rfl <;> omega

theorem Turned.established_iff (turned : Turned m mem 32 h) (room : usedAt 32 ≤ n)
    (least : ∀ i < 32, 0 ≤ m.stale i) {before : Heap n}
    (fresh : before.offset before.pool.root.free = 0) :
    Established before ⟨mem, 0⟩ h ↔ m.Ready := by
  have free : h.offset h.pool.root.free = usedAt 32 := by
    rw [turned.cut.free, turned.cut.offset_eq room]
  have views : ∀ i < 32, _ := fun i less => turned.views room less
  have behind : ∀ i k, usedAt 0 ≤ itemsAt i + k := fun i k =>
    Nat.le_trans (itemsAt_start i) (Nat.le_add_right ..)
  constructor
  · intro established
    refine ⟨fun i less => ?_, least, ?_, fun i less k member => ?_⟩
    · rw [← established.empty i less]
      exact (views i less).1.symm
    · refine (turned.written_inside least).mp fun range member => ?_
      rw [← free]
      exact (established.written range member).2
    · have zero := established.zero i less k member
      rw [(views i less).2.2.1] at zero
      exact (turned.zero_iff (behind i k)).mp zero
  · intro ready
    have empty : ∀ i < 32, RawClientList.state ⟨mem, 0⟩ h i = 0 := fun i less =>
      (views i less).1.trans (ready.states i less)
    refine ⟨empty, rfl, ?_, fun i less => ?_, fun i less k member => ?_, fun i less => ⟨?_, fun j earlier => ?_⟩,
      fun i less => ?_, fun range member => ⟨?_, ?_⟩⟩
    · symm
      rw [List.length_eq_zero_iff, List.filter_eq_nil_iff]
      intro i member
      simp [empty i (List.mem_range.mp member)]
    · rw [(views i less).2.1]
      exact ⟨rfl, rfl, rfl, rfl, rfl⟩
    · rw [(views i less).2.2.1]
      exact (turned.zero_iff (behind i k)).mpr (ready.covered i less k member)
    · rw [(views i less).2.2.1, Heap.offset, turned.cut.base, Nat.sub_self, Nat.zero_add]
      exact itemsAt_start i
    · obtain ⟨-, -, first, next⟩ := views j (Nat.lt_trans earlier less)
      rw [first, (views i less).2.2.1]
      calc itemsAt j + itemsBytes = usedAt (j + 1) := next
        _ ≤ usedAt i := usedAt_mono earlier
        _ ≤ itemsAt i := Nat.le_add_right ..
    · obtain ⟨-, -, here, next⟩ := views i less
      rw [here, free]
      calc itemsAt i + itemsBytes = usedAt (i + 1) := next
        _ ≤ usedAt 32 := usedAt_mono less
    · rw [fresh]
      exact Nat.zero_le _
    · rw [free]
      exact (turned.written_inside least).mpr ready.most range member

/-- The queue of a slot is one of 16 cells. -/
theorem Turned.stored (turned : Turned m mem 32 h) (room : usedAt 32 ≤ n) {i : Nat} (less : i < 32) :
    Stored h (mem + UInt64.ofNat (itemsAt i))
        (Queue.fresh h (mem + UInt64.ofNat (itemsAt i)) packetMaxSize (maxClients / 2)) ∧
      RawClientList.msgQueue ⟨mem, 0⟩ h i =
        (Queue.fresh h (mem + UInt64.ofNat (itemsAt i)) packetMaxSize (maxClients / 2)).raw
          (mem + UInt64.ofNat (itemsAt i)) := by
  obtain ⟨-, queue, -, next⟩ := turned.views room less
  have later : usedAt (i + 1) ≤ usedAt 32 := usedAt_mono less
  have top := turned.cut.top
  have address := pointer_add mem (show mem.toNat + itemsAt i < 2 ^ 64 by omega)
  refine ⟨⟨fun zero => ?_, ?_, ?_, ?_, fun _ => rfl, rfl, by decide,
    show 16 ≤ 2 ^ 30 by decide, show 15 * 1440 < 2 ^ 31 by decide⟩, queue⟩
  · have present := turned.cut.sound.present
    rw [zero] at address
    rw [turned.cut.base] at present
    have none : (null : Pointer).toNat = 0 := rfl
    exact present (UInt64.toNat_inj.mp (show mem.toNat = 0 by omega))
  · rw [turned.cut.base, address]
    exact Nat.le_add_right ..
  · rw [turned.cut.offset_eq (by omega)]
    calc itemsAt i + maxClients / 2 * packetMaxSize = usedAt (i + 1) := next
      _ ≤ n := Nat.le_trans later room
  · rw [turned.cut.base]
    exact top

end Loop

end Heap

section Init

variable {malloc : UInt64 → Pointer} {before : MemoryPool}

theorem memPool_cut (bounded : MallocBounded malloc)
    (started : (memPoolInit malloc before memPoolSize).1 = true) (m : Mem memPoolSize.toNat) :
    Heap.Cut ⟨(memPoolInit malloc before memPoolSize).2, m, []⟩ (malloc memPoolSize) 0 := by
  have present : malloc memPoolSize ≠ null := by
    intro failed
    simp [memPoolInit, initBlock, failed] at started
  refine ⟨Heap.sound_init bounded started m, ?_, ?_⟩
  · simp only [memPoolInit, initBlock, if_neg present]
  · simp only [memPoolInit, initBlock, if_neg present]
    exact (UInt64.add_zero _).symm

/-- The initialisation returns if every turn of the loop comes to its end. -/
theorem clientListInit_ok (bounded : MallocBounded malloc)
    (started : (memPoolInit malloc before memPoolSize).1 = true) (m : Mem memPoolSize.toNat) :
    (∀ clients after, Heap.clientListInit ⟨(memPoolInit malloc before memPoolSize).2, m, []⟩ =
        .ok (clients, after) →
      clients = ⟨malloc memPoolSize, 0⟩ ∧ Heap.Turned m (malloc memPoolSize) 32 after ∧
        ∀ i < 32, 0 ≤ m.stale i ∧ itemsAt i + m.stale i ≤ memPoolSize.toNat) ∧
    ((∀ i < 32, 0 ≤ m.stale i ∧ itemsAt i + m.stale i ≤ memPoolSize.toNat) →
      ∃ clients after, Heap.clientListInit ⟨(memPoolInit malloc before memPoolSize).2, m, []⟩ =
        .ok (clients, after)) := by
  have cut := memPool_cut bounded started m
  have size : padded (UInt64.ofNat (maxClients * clientSize)).toNat = usedAt 0 := by decide
  have present := cut.free_ne
  obtain ⟨-, taken, cut0⟩ := cut.alloc (UInt64.ofNat (maxClients * clientSize)) (by decide)
  rw [show malloc memPoolSize + UInt64.ofNat 0 = malloc memPoolSize from UInt64.add_zero _]
    at taken present
  rw [size, Nat.zero_add] at cut0
  have start : Heap.Turned m (malloc memPoolSize) 0 _ :=
    ⟨cut0, fun _ _ => rfl, fun _ _ _ => rfl, nofun, nofun, fun _ _ _ => rfl, rfl⟩
  obtain ⟨reached, reaches⟩ := start.loop (by decide) (by decide) (Nat.le_refl 32)
  simp only [Heap.clientListInit, taken, if_neg present]
  refine ⟨fun clients after ran => ?_, fun fits => ?_⟩
  · obtain ⟨h, loop, done⟩ := bind_ok ran
    cases done
    exact ⟨rfl, reached _ loop⟩
  · obtain ⟨h, loop⟩ := reaches fits
    refine ⟨⟨malloc memPoolSize, 0⟩, h, ?_⟩
    change (List.range 32).foldlM _ _ >>= _ = _
    rw [loop]
    rfl

theorem memPool_fresh (bounded : MallocBounded malloc)
    (started : (memPoolInit malloc before memPoolSize).1 = true) (m : Mem memPoolSize.toNat) :
    Heap.offset ⟨(memPoolInit malloc before memPoolSize).2, m, []⟩
      (memPoolInit malloc before memPoolSize).2.root.free = 0 := by
  have cut := memPool_cut bounded started m
  rw [cut.free]
  exact cut.offset_eq (Nat.zero_le _)

/-- The pool at the address 4096, holding `m`. -/
def poolOf (m : Mem memPoolSize.toNat) : Heap memPoolSize.toNat :=
  ⟨(memPoolInit (mallocOf memPoolSize) .zero memPoolSize).2, m, []⟩

theorem ready_zero : (Mem.zero memPoolSize.toNat).Ready where
  states := by decide +kernel
  least := by decide +kernel
  most := by decide +kernel
  covered i _ k _ := .inl (by simp [Mem.byte, Mem.zero])

/-- The list is set up as the rest of the server relies on exactly if what was in the
memory is ready for it. -/
theorem clientListInit_establishes_iff (bounded : MallocBounded malloc)
    (started : (memPoolInit malloc before memPoolSize).1 = true) (m : Mem memPoolSize.toNat) :
    (∃ clients after, Heap.clientListInit ⟨(memPoolInit malloc before memPoolSize).2, m, []⟩ =
        .ok (clients, after) ∧
      Established ⟨(memPoolInit malloc before memPoolSize).2, m, []⟩ clients after) ↔ m.Ready := by
  have room : usedAt 32 ≤ memPoolSize.toNat := by decide
  have fresh := memPool_fresh bounded started m
  obtain ⟨returned, returns⟩ := clientListInit_ok bounded started m
  constructor
  · rintro ⟨clients, after, ran, established⟩
    obtain ⟨rfl, turned, fits⟩ := returned clients after ran
    exact (turned.established_iff room (fun i less => (fits i less).1) fresh).mp established
  · intro ready
    obtain ⟨clients, after, ran⟩ := returns fun i less => ⟨ready.least i less, by
      have most : itemsAt i + m.stale i ≤ usedAt 32 := ready.most i less
      omega⟩
    obtain ⟨rfl, turned, -⟩ := returned clients after ran
    exact ⟨_, after, ran, (turned.established_iff room ready.least fresh).mpr ready⟩

theorem clientListInit_establishes_zero : ∃ clients after,
    Heap.clientListInit (poolOf (Mem.zero _)) = .ok (clients, after) ∧
      Established (poolOf (Mem.zero _)) clients after :=
  (clientListInit_establishes_iff (mallocOf_bounded (by decide)) rfl (Mem.zero _)).mpr ready_zero

/-- In memory where each byte is 255 no slot is empty and the items are not cleared. -/
theorem clientListInit_establishes_fails : ∃ clients after,
    Heap.clientListInit (poolOf ⟨fun _ => 255⟩) = .ok (clients, after) ∧
      clients.state after 0 = 4294967295 ∧ after.data.byte (clients.items after 0 + 1) = 255 ∧
      ¬ Established (poolOf ⟨fun _ => 255⟩) clients after := by
  have bounded := mallocOf_bounded (show memPoolSize.toNat < 2 ^ 63 by decide)
  obtain ⟨returned, returns⟩ := clientListInit_ok bounded rfl ⟨fun _ => 255⟩
  obtain ⟨clients, after, ran⟩ := returns (by decide +kernel)
  obtain ⟨rfl, turned, -⟩ := returned clients after ran
  obtain ⟨state, -, items, -⟩ := turned.views (by decide) (show 0 < 32 by decide)
  refine ⟨_, after, ran, ?_, ?_, ?_⟩
  · rw [state]
    decide +kernel
  · rw [items, turned.kept _ (by decide) (by decide +kernel)]
    decide +kernel
  · intro established
    have empty := established.empty 0 (by decide)
    rw [state] at empty
    exact absurd empty (by decide +kernel)

/-- What is set up in memory that is ready for it are the slots the server starts from. -/
theorem clientListInit_slots (bounded : MallocBounded malloc)
    (started : (memPoolInit malloc before memPoolSize).1 = true) {m : Mem memPoolSize.toNat}
    (ready : m.Ready)
    (ran : Heap.clientListInit ⟨(memPoolInit malloc before memPoolSize).2, m, []⟩ =
      .ok (clients, after)) (i : Slot) :
    clients.state after i = 0 ∧ ∃ items q, Stored after items q ∧
      clients.msgQueue after i = q.raw items ∧
      (∀ k < q.len, q.items k = (clientListInit.list i).msgQueue.items k) ∧
      { q with items := (clientListInit.list i).msgQueue.items } = (clientListInit.list i).msgQueue := by
  obtain ⟨rfl, turned, -⟩ := (clientListInit_ok bounded started m).1 clients after ran
  have room : usedAt 32 ≤ memPoolSize.toNat := by decide
  obtain ⟨state, -, -, next⟩ := turned.views room i.isLt
  obtain ⟨stored, raw⟩ := turned.stored room i.isLt
  refine ⟨state.trans (ready.states i i.isLt), _, _, stored, raw, fun k less => ?_, rfl⟩
  have later : usedAt (i + 1) ≤ usedAt 32 := Heap.usedAt_mono i.isLt
  have within : k * packetMaxSize + packetMaxSize ≤ maxClients / 2 * packetMaxSize := slot_le less _
  ext a
  have inside := a.isLt
  change (after.data.byte (after.offset _ + k * packetMaxSize + a)).toNat = _
  rw [turned.cut.offset_eq (by omega), Nat.add_assoc]
  refine congrArg UInt8.toNat ((turned.zero_iff ?_).mpr ?_)
  · exact Nat.le_trans (Heap.itemsAt_start i) (Nat.le_add_right ..)
  · exact ready.covered i i.isLt _ (by
      have bytes : itemsBytes = maxClients / 2 * packetMaxSize := rfl
      omega)

end Init

end Quickshare
