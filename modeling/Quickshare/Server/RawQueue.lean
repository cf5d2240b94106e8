import Quickshare.Lib.Fifo
import Quickshare.Lib.Runs
import Quickshare.Server.Queue
import Quickshare.Shared.PoolMemory

/-! `queue.c` on the bytes of the pool, with the `int`s it counts in. Its slots are as
many items of a bounded queue, as long as the last of them starts at an offset that is
an `int`. -/

namespace Quickshare

open Bytes Fifo Runs

/-- `Queue`. -/
structure RawQueue where
  items : Pointer
  head : Int32
  tail : Int32
  len : Int32
  size : Int32
  count : Int32

namespace RawQueue

variable {n : Nat}

/-- `queue_reset`, which clears as many bytes as the fields say. -/
def reset (h : Heap n) (q : RawQueue) : Except MemFault (RawQueue × Heap n) := do
  let bytes ← int (q.size.toInt * q.len.toInt)
  let h ← h.write q.items (List.replicate (sizeT bytes).toNat 0)
  return ({ q with head := 0, tail := 0, count := 0 }, h)

/-- `queue_init`. The fields hold what they held before when `queue_reset` reads them. -/
def init (h : Heap n) (q : RawQueue) (size length : Int32) :
    Except MemFault (Bool × RawQueue × Heap n) := do
  let mask ← int (length.toInt - 1)
  if length &&& mask ≠ 0 then return (false, q, h)
  else
    let (items, h) := h.alloc (sizeT size * sizeT length)
    let q := { q with items }
    if items = null then return (false, q, h)
    else
      let (q, h) ← q.reset h
      return (true, { q with len := length, size }, h)

def empty (q : RawQueue) : Bool := q.count == 0

def full (q : RawQueue) : Bool := q.count == q.len

/-- `(char*)q->items + (i * q->size)`. -/
def slot (q : RawQueue) (i : Int32) : Except MemFault Pointer := do
  let off ← int (i.toInt * q.size.toInt)
  return q.items + sizeT off

/-- `(i + 1) & (q->len - 1)`. -/
def next (q : RawQueue) (i : Int32) : Except MemFault Int32 := do
  let i ← int (i.toInt + 1)
  let mask ← int (q.len.toInt - 1)
  return i &&& mask

def enqueue (q : RawQueue) : Except MemFault (Pointer × RawQueue) := do
  if q.full then return (null, q)
  else
    let data ← q.slot q.head
    let head ← q.next q.head
    let count ← int (q.count.toInt + 1)
    return (data, { q with head, count })

def peek (q : RawQueue) : Except MemFault Pointer := do
  if q.empty then return null else q.slot q.tail

def dequeue (q : RawQueue) : Except MemFault (Pointer × RawQueue) := do
  if q.empty then return (null, q)
  else
    let data ← q.slot q.tail
    let tail ← q.next q.tail
    let count ← int (q.count.toInt - 1)
    return (data, { q with tail, count })

/-- A caller's use of the queue: the slot `enqueue` returns is filled, and what the
pointers of `queue_peek` and `dequeue` lead to is read. -/
def use {w : Nat} (q : RawQueue) (h : Heap n) :
    Op (Mem w) → Except MemFault (Answer (Mem w) × RawQueue × Heap n)
  | .put x => do
    let (slot, q) ← q.enqueue
    if slot = null then return (.put false, q, h)
    else
      let h ← h.write slot x.bytes
      return (.put true, q, h)
  | .look => do
    let slot ← q.peek
    if slot = null then return (.got none, q, h)
    else
      let x ← h.read slot w
      return (.got (some x), q, h)
  | .take => do
    let (slot, q) ← q.dequeue
    if slot = null then return (.got none, q, h)
    else
      let x ← h.read slot w
      return (.got (some x), q, h)

end RawQueue

/-! A queue of cells is a bounded queue -/

section Cells

variable {Item : Type} {capacity : Nat} {q : Queue Item} {f : Bounded Item capacity}

/-- The same use of a queue of cells. -/
def Queue.use (q : Queue Item) : Op Item → Answer Item × Queue Item
  | .put x => match q.enqueue with
    | none => (.put false, q)
    | some (slot, next) => (.put true, next.fill slot fun _ => x)
  | .look => (.got q.peek, q)
  | .take => match q.dequeue with
    | none => (.got none, q)
    | some (x, next) => (.got (some x), next)

theorem Queue.use_shape (q : Queue Item) (op : Op Item) :
    (q.use op).2.len = q.len ∧ (q.use op).2.size = q.size := by
  cases op with
  | put x =>
    simp only [use, enqueue]
    split <;> rename_i taken <;> split at taken <;> cases taken <;> exact ⟨rfl, rfl⟩
  | look => exact ⟨rfl, rfl⟩
  | take =>
    simp only [use, dequeue]
    split <;> rename_i taken <;> split at taken <;> cases taken <;> exact ⟨rfl, rfl⟩

/-- The oldest packet, if there is one, is the one `queue_peek` and `dequeue` lead to. -/
theorem Queue.contents_head (q : Queue Item) (valid : q.Valid) : q.contents.head? = q.peek := by
  cases taken : q.dequeue with
  | none =>
    have empty : q.empty = true := by
      by_contra held
      simp [dequeue, held] at taken
    rw [dequeue_none taken, peek, if_pos empty]
    rfl
  | some found =>
    obtain ⟨x, next⟩ := found
    rw [valid.dequeue_contents taken, peek]
    unfold dequeue at taken
    split at taken
    · cases taken
    · rename_i held
      cases taken
      rw [if_neg held]
      rfl

/-- A valid queue of cells answers as the bounded queue of its contents, and goes on as it. -/
theorem Queue.Valid.use (valid : q.Valid) (capacity_eq : q.len = capacity)
    (same : f.items = q.contents) (op : Op Item) :
    (q.use op).1 = (f.apply op).1 ∧ (q.use op).2.Valid ∧
      (f.apply op).2.items = (q.use op).2.contents := by
  have length : f.items.length = q.count := by rw [same, Queue.contents_length]
  cases op with
  | put x =>
    simp only [Queue.use, Bounded.apply]
    cases taken : q.enqueue with
    | none =>
      have full : f.push x = none :=
        Bounded.push_eq_none.mpr (by rw [length, Queue.enqueue_eq_none.mp taken, capacity_eq])
      rw [full]
      exact ⟨rfl, valid, same⟩
    | some found =>
      obtain ⟨slot, next⟩ := found
      cases pushed : f.push x with
      | none =>
        have full := Bounded.push_eq_none.mp pushed
        rw [length, ← capacity_eq] at full
        rw [Queue.enqueue_eq_none.mpr full] at taken
        cases taken
      | some g =>
        refine ⟨rfl, (valid.enqueue taken).fill slot fun _ => x, ?_⟩
        rw [Bounded.push_items pushed, valid.enqueue_contents taken, same]
  | look =>
    refine ⟨?_, valid, same⟩
    rw [Queue.use, Bounded.apply, Bounded.front, same, q.contents_head valid]
  | take =>
    have front : f.front = q.peek := by rw [Bounded.front, same, q.contents_head valid]
    simp only [Queue.use, Bounded.apply, front, Bounded.rest, same]
    cases taken : q.dequeue with
    | none =>
      have none := Queue.dequeue_none taken
      refine ⟨?_, valid, by rw [none]; rfl⟩
      rw [← q.contents_head valid, none]
      rfl
    | some found =>
      obtain ⟨x, next⟩ := found
      have contents := valid.dequeue_contents taken
      refine ⟨?_, valid.dequeue taken, by rw [contents]; rfl⟩
      rw [← q.contents_head valid, contents]
      rfl

end Cells

/-! A queue in the pool is a queue of cells -/

/-- The fields of a queue with its items at an address. -/
def Queue.raw {Item : Type} (q : Queue Item) (items : Pointer) : RawQueue where
  items := items
  head := Int32.ofNat q.head
  tail := Int32.ofNat q.tail
  len := Int32.ofNat q.len
  size := Int32.ofNat q.size
  count := Int32.ofNat q.count

/-- The cells of `q` are the bytes from `items` on, and each starts at an offset that is
an `int`. -/
structure Stored {n w : Nat} (h : Heap n) (items : Pointer) (q : Queue (Mem w)) : Prop where
  present : items ≠ null
  start : h.pool.root.mem.toNat ≤ items.toNat
  room : h.offset items + q.len * w ≤ n
  top : h.pool.root.mem.toNat + n < 2 ^ 64
  cells : ∀ k, q.items k = h.data.part (h.offset items + k * w) w
  size : q.size = w
  width : w < 2 ^ 31
  short : q.len ≤ 2 ^ 30
  last : (q.len - 1) * w < 2 ^ 31

section Stored

variable {n w i : Nat} {h : Heap n} {items : Pointer} {q : Queue (Mem w)}

theorem slot_le {len : Nat} (less : i < len) (w : Nat) : i * w + w ≤ len * w := by
  rw [← Nat.succ_mul]
  exact Nat.mul_le_mul_right w less

theorem Int32.ofNat_and (a b : Nat) : Int32.ofNat a &&& Int32.ofNat b = Int32.ofNat (a &&& b) := by
  apply Int32.toBitVec.inj
  simp

theorem Int32.ofNat_beq {a b : Nat} (left : a < 2 ^ 31) (right : b < 2 ^ 31) :
    (Int32.ofNat a == Int32.ofNat b) = (a == b) := by
  rw [Bool.eq_iff_iff, beq_iff_eq, beq_iff_eq, ← Int32.toInt_inj, Int32.toInt_ofNat_of_lt left,
    Int32.toInt_ofNat_of_lt right, Int.natCast_inj]

/-- The address of the `i`-th slot. -/
theorem Stored.slot (stored : Stored h items q) (less : i < q.len) :
    ∃ p, (q.raw items).slot (Int32.ofNat i) = .ok p ∧ p ≠ null ∧
      h.pool.root.mem.toNat ≤ p.toNat ∧ h.offset p = h.offset items + i * w := by
  have short := stored.short
  have within := slot_le less w
  have room := stored.room
  have top := stored.top
  have start := stored.start
  have low : i * w < 2 ^ 31 :=
    Nat.lt_of_le_of_lt (Nat.mul_le_mul_right w (by omega)) stored.last
  have product : (Int32.ofNat i).toInt * (q.raw items).size.toInt = (i * w : Nat) := by
    rw [Queue.raw, stored.size, Int32.toInt_ofNat_of_lt (by omega),
      Int32.toInt_ofNat_of_lt stored.width, Int.natCast_mul]
  have address : (items + sizeT (Int32.ofNat (i * w))).toNat = items.toNat + i * w := by
    rw [UInt64.toNat_add, sizeT_ofNat low, Nat.mod_eq_of_lt]
    unfold Heap.offset at room
    omega
  refine ⟨items + sizeT (Int32.ofNat (i * w)), ?_, fun zero => ?_, ?_, ?_⟩
  · rw [RawQueue.slot, product, int_nat low]
    rfl
  · rw [zero] at address
    exact stored.present (UInt64.toNat_inj.mp (show items.toNat = 0 by
      have none : (null : Pointer).toNat = 0 := rfl
      omega))
  · omega
  · rw [Heap.offset, Heap.offset, address]
    omega

/-- Masking advances an index and takes the last one back to 0. -/
theorem RawQueue.next_eq {raw : RawQueue} {len : Nat} (same : raw.len = Int32.ofNat len)
    (short : len ≤ 2 ^ 30) (less : i < len) :
    raw.next (Int32.ofNat i) = .ok (Int32.ofNat ((i + 1) &&& (len - 1))) := by
  have first : (Int32.ofNat i).toInt + 1 = (i + 1 : Nat) := by
    rw [Int32.toInt_ofNat_of_lt (by omega)]
    rfl
  have mask : raw.len.toInt - 1 = (len - 1 : Nat) := by
    rw [same, Int32.toInt_ofNat_of_lt (by omega)]
    omega
  rw [RawQueue.next, first, mask, int_nat (by omega), int_nat (by omega)]
  exact congrArg Except.ok (Int32.ofNat_and ..)

theorem Stored.next (stored : Stored h items q) (less : i < q.len) :
    (q.raw items).next (Int32.ofNat i) = .ok (Int32.ofNat ((i + 1) &&& (q.len - 1))) :=
  RawQueue.next_eq rfl stored.short less

theorem Stored.raw_full (stored : Stored h items q) (valid : q.Valid) :
    (q.raw items).full = q.full := by
  have short := stored.short
  have most := valid.count_le
  exact Int32.ofNat_beq (by omega) (by omega)

theorem Stored.raw_empty (stored : Stored h items q) (valid : q.Valid) :
    (q.raw items).empty = q.empty := by
  have short := stored.short
  have most := valid.count_le
  exact Int32.ofNat_beq (b := 0) (by omega) (by omega)

/-- `p` is the address of the `i`-th slot. -/
structure SlotAt (h : Heap n) (items : Pointer) (w i : Nat) (p : Pointer) : Prop where
  present : p ≠ null
  start : h.pool.root.mem.toNat ≤ p.toNat
  offset : h.offset p = h.offset items + i * w

theorem Stored.enqueue (stored : Stored h items q) (valid : q.Valid) :
    (q.enqueue = none ∧ (q.raw items).enqueue = .ok (null, q.raw items)) ∨
    ∃ slot next p, q.enqueue = some (slot, next) ∧ slot < q.len ∧ SlotAt h items w slot p ∧
      (q.raw items).enqueue = .ok (p, next.raw items) := by
  unfold Queue.enqueue RawQueue.enqueue
  rw [stored.raw_full valid]
  by_cases full : q.full = true
  · rw [if_pos full, if_pos full]
    exact .inl ⟨rfl, rfl⟩
  · rw [if_neg full, if_neg full]
    have short := stored.short
    have most := valid.count_le
    have less : q.head < q.len := by
      rw [valid.head_eq]
      exact Nat.mod_lt _ (Nat.lt_of_le_of_lt (Nat.zero_le _) valid.tail_lt)
    obtain ⟨p, found, present, start, offset⟩ := stored.slot less
    have more : (q.raw items).count.toInt + 1 = (q.count + 1 : Nat) := by
      rw [Queue.raw, Int32.toInt_ofNat_of_lt (by omega)]
      rfl
    refine .inr ⟨q.head, _, p, rfl, less, ⟨present, start, offset⟩, ?_⟩
    have head : (q.raw items).next (q.raw items).head = _ := stored.next less
    have data : (q.raw items).slot (q.raw items).head = .ok p := found
    rw [data, head, more, int_nat (by omega)]
    rfl

theorem Stored.peek (stored : Stored h items q) (valid : q.Valid) :
    (q.peek = none ∧ (q.raw items).peek = .ok null) ∨
    ∃ p, q.peek = some (q.items q.tail) ∧ SlotAt h items w q.tail p ∧
      (q.raw items).peek = .ok p := by
  unfold Queue.peek RawQueue.peek
  rw [stored.raw_empty valid]
  by_cases empty : q.empty = true
  · rw [if_pos empty, if_pos empty]
    exact .inl ⟨rfl, rfl⟩
  · rw [if_neg empty, if_neg empty]
    obtain ⟨p, found, present, start, offset⟩ := stored.slot valid.tail_lt
    exact .inr ⟨p, rfl, ⟨present, start, offset⟩, found⟩

theorem Stored.dequeue (stored : Stored h items q) (valid : q.Valid) :
    (q.dequeue = none ∧ (q.raw items).dequeue = .ok (null, q.raw items)) ∨
    ∃ next p, q.dequeue = some (q.items q.tail, next) ∧ SlotAt h items w q.tail p ∧
      (q.raw items).dequeue = .ok (p, next.raw items) := by
  unfold Queue.dequeue RawQueue.dequeue
  rw [stored.raw_empty valid]
  by_cases empty : q.empty = true
  · rw [if_pos empty, if_pos empty]
    exact .inl ⟨rfl, rfl⟩
  · rw [if_neg empty, if_neg empty]
    have short := stored.short
    have most := valid.count_le
    have some : q.count ≠ 0 := by simpa [Queue.empty] using empty
    obtain ⟨p, found, present, start, offset⟩ := stored.slot valid.tail_lt
    have fewer : (q.raw items).count.toInt - 1 = (q.count - 1 : Nat) := by
      rw [Queue.raw, Int32.toInt_ofNat_of_lt (by omega)]
      omega
    refine .inr ⟨_, p, rfl, ⟨present, start, offset⟩, ?_⟩
    have tail : (q.raw items).next (q.raw items).tail = _ := stored.next valid.tail_lt
    have data : (q.raw items).slot (q.raw items).tail = .ok p := found
    rw [data, tail, fewer, int_nat (by omega)]
    rfl

/-- Filling a slot fills its cell and no other. -/
theorem Stored.write (stored : Stored h items q) {p : Pointer} (less : i < q.len)
    (at_slot : SlotAt h items w i p) (x : Mem w) :
    ∃ h', h.write p x.bytes = .ok h' ∧ Stored h' items (q.fill i fun _ => x) := by
  have within := slot_le less w
  have room := stored.room
  have inside : h.Holds p x.bytes.length := by
    refine ⟨at_slot.start, ?_⟩
    rw [at_slot.offset, Mem.bytes_length]
    omega
  refine ⟨_, if_pos inside, stored.present, stored.start, room, stored.top, fun k => ?_,
    stored.size, stored.width, stored.short, stored.last⟩
  show Function.update q.items i x k =
    (h.data.write (h.offset p) x.bytes).part (h.offset items + k * w) w
  rw [at_slot.offset]
  by_cases here : k = i
  · subst here
    rw [Function.update_self, Mem.part_write _ x (by omega)]
  · rw [Function.update_of_ne here, stored.cells k, Mem.part_write_apart]
    rcases Nat.lt_or_gt_of_ne here with less | more
    · have apart := slot_le less w
      omega
    · have apart := slot_le more w
      rw [Mem.bytes_length]
      omega

theorem Stored.read (stored : Stored h items q) {p : Pointer} (less : i < q.len)
    (at_slot : SlotAt h items w i p) : h.read p w = .ok (q.items i) := by
  have within := slot_le less w
  have room := stored.room
  have inside : h.Holds p w := ⟨at_slot.start, by rw [at_slot.offset]; omega⟩
  rw [Heap.read, if_pos inside, at_slot.offset, stored.cells i]

/-- Fields that do not count for what is stored. -/
theorem Stored.congr (stored : Stored h items q) {next : Queue (Mem w)} (cells : next.items = q.items)
    (len : next.len = q.len) (size : next.size = q.size) : Stored h items next where
  present := stored.present
  start := stored.start
  room := len ▸ stored.room
  top := stored.top
  cells := fun k => by rw [cells, stored.cells k]
  size := size.trans stored.size
  width := stored.width
  short := len ▸ stored.short
  last := len ▸ stored.last

/-- A queue in the pool answers as the queue of its cells, and goes on as it. -/
theorem Stored.use (stored : Stored h items q) (valid : q.Valid) (op : Op (Mem w)) :
    ∃ h', (q.raw items).use h op = .ok ((q.use op).1, (q.use op).2.raw items, h') ∧
      Stored h' items (q.use op).2 := by
  cases op with
  | put x =>
    simp only [RawQueue.use, Queue.use]
    rcases stored.enqueue valid with ⟨none, raw⟩ | ⟨slot, next, p, taken, less, at_slot, raw⟩
    · rw [none, raw]
      exact ⟨h, rfl, stored⟩
    · rw [taken, raw]
      have kept : next.items = q.items ∧ next.len = q.len ∧ next.size = q.size := by
        unfold Queue.enqueue at taken
        split at taken <;> cases taken
        exact ⟨rfl, rfl, rfl⟩
      obtain ⟨h', written, stored'⟩ := (stored.congr kept.1 kept.2.1 kept.2.2).write
        (kept.2.1 ▸ less) at_slot x
      refine ⟨h', ?_, stored'⟩
      simp only [bind, Except.bind, if_neg at_slot.present, written]
      rfl
  | look =>
    simp only [RawQueue.use, Queue.use]
    rcases stored.peek valid with ⟨none, raw⟩ | ⟨p, some, at_slot, raw⟩
    · rw [none, raw]
      exact ⟨h, rfl, stored⟩
    · rw [some, raw]
      refine ⟨h, ?_, stored⟩
      simp only [bind, Except.bind, if_neg at_slot.present, stored.read valid.tail_lt at_slot]
      rfl
  | take =>
    simp only [RawQueue.use, Queue.use]
    rcases stored.dequeue valid with ⟨none, raw⟩ | ⟨next, p, taken, at_slot, raw⟩
    · rw [none, raw]
      exact ⟨h, rfl, stored⟩
    · rw [taken, raw]
      have kept : next.items = q.items ∧ next.len = q.len ∧ next.size = q.size := by
        unfold Queue.dequeue at taken
        split at taken <;> cases taken
        exact ⟨rfl, rfl, rfl⟩
      refine ⟨h, ?_, stored.congr kept.1 kept.2.1 kept.2.2⟩
      simp only [bind, Except.bind, if_neg at_slot.present, stored.read valid.tail_lt at_slot]
      rfl

end Stored

/-! Refinement -/

/-- `head` and `count` fit together. -/
structure RawQueue.Wraps (q : RawQueue) : Prop where
  head : q.head.toInt = (q.tail.toInt + q.count.toInt) % q.len.toInt
  least : 0 ≤ q.count.toInt
  most : q.count.toInt ≤ q.len.toInt

/-- A queue in the pool beside a bounded queue of the same items. -/
structure Twin (n w capacity : Nat) where
  queue : RawQueue
  heap : Heap n
  fifo : Bounded (Mem w) capacity

/-- One use of both. -/
def Twin.step {n w capacity : Nat} (s : Twin n w capacity) (op : Op (Mem w)) :
    Except MemFault (Twin n w capacity) := do
  let (_, queue, heap) ← s.queue.use s.heap op
  return ⟨queue, heap, (s.fifo.apply op).2⟩

/-- Both give one answer, and `head` and `count` fit together before and after. -/
def Twin.Agrees {n w capacity : Nat} (s : Twin n w capacity) (op : Op (Mem w)) : Prop :=
  s.queue.Wraps ∧ ∃ queue heap,
    s.queue.use s.heap op = .ok ((s.fifo.apply op).1, queue, heap) ∧ queue.Wraps

section Refines

variable {n w capacity : Nat} {h next : Heap n} {items : Pointer} {q : Queue (Mem w)}
variable {raw before : RawQueue} {size length : Int32}

theorem Stored.wraps (stored : Stored h items q) (valid : q.Valid) : (q.raw items).Wraps := by
  have short := stored.short
  have most := valid.count_le
  have last := valid.tail_lt
  have less : q.head < q.len := by
    rw [valid.head_eq]
    exact Nat.mod_lt _ (by omega)
  have tail : (q.raw items).tail.toInt = q.tail := Int32.toInt_ofNat_of_lt (by omega)
  have count : (q.raw items).count.toInt = q.count := Int32.toInt_ofNat_of_lt (by omega)
  have len : (q.raw items).len.toInt = q.len := Int32.toInt_ofNat_of_lt (by omega)
  refine ⟨?_, by omega, by omega⟩
  rw [tail, count, len, Queue.raw, Int32.toInt_ofNat_of_lt (by omega), valid.head_eq]
  push_cast
  rfl

/-- The twin holds one queue in three forms. -/
def Twin.Same (s : Twin n w capacity) : Prop :=
  ∃ (items : Pointer) (q : Queue (Mem w)), s.queue = q.raw items ∧ Stored s.heap items q ∧
    q.Valid ∧ q.len = capacity ∧ s.fifo.items = q.contents

theorem Twin.Same.use {s : Twin n w capacity} (same : s.Same) (op : Op (Mem w)) :
    ∃ queue heap, s.queue.use s.heap op = .ok ((s.fifo.apply op).1, queue, heap) ∧
      Twin.Same ⟨queue, heap, (s.fifo.apply op).2⟩ := by
  obtain ⟨items, q, raw, stored, valid, len, contents⟩ := same
  obtain ⟨answer, valid', contents'⟩ := valid.use len contents op
  obtain ⟨heap, used, stored'⟩ := stored.use valid op
  refine ⟨(q.use op).2.raw items, heap, ?_, items, (q.use op).2, rfl, stored', valid',
    (q.use_shape op).1.trans len, contents'⟩
  rw [raw, used, answer]

theorem Twin.Same.wraps {s : Twin n w capacity} (same : s.Same) : s.queue.Wraps := by
  obtain ⟨items, q, raw, stored, valid, -, -⟩ := same
  exact raw ▸ stored.wraps valid

theorem Twin.Same.agrees {s : Twin n w capacity} (same : s.Same) (op : Op (Mem w)) :
    s.Agrees op := by
  obtain ⟨queue, heap, used, later⟩ := same.use op
  exact ⟨same.wraps, queue, heap, used, later.wraps⟩

theorem Twin.Same.step {s t : Twin n w capacity} (same : s.Same) {op : Op (Mem w)}
    (taken : s.step op = .ok t) : t.Same := by
  obtain ⟨queue, heap, used, later⟩ := same.use op
  rw [Twin.step, used] at taken
  cases taken
  exact later

/-- A queue just set up, over the bytes its items have then. -/
def Queue.fresh (h : Heap n) (items : Pointer) (w len : Nat) : Queue (Mem w) where
  items := fun k => h.data.part (h.offset items + k * w) w
  head := 0
  tail := 0
  len := len
  size := w
  count := 0

/-- What `queue_init` does where it succeeds. -/
theorem RawQueue.init_ok (ready : RawQueue.init h before size length = .ok (true, raw, next)) :
    alloc h.pool (sizeT size * sizeT length) = (raw.items, next.pool) ∧ raw.items ≠ null ∧
      raw = ⟨raw.items, 0, 0, length, size, 0⟩ := by
  unfold RawQueue.init at ready
  obtain ⟨mask, -, ready⟩ := bind_ok ready
  split at ready
  · cases ready
  · cases taken : alloc h.pool (sizeT size * sizeT length) with | mk items pool => ?_
    simp only [Heap.alloc, taken] at ready
    split at ready
    · cases ready
    · rename_i present
      obtain ⟨⟨cleared, heap⟩, reset, ready⟩ := bind_ok ready
      cases ready
      unfold RawQueue.reset at reset
      obtain ⟨bytes, -, reset⟩ := bind_ok reset
      obtain ⟨written, wrote, reset⟩ := bind_ok reset
      cases reset
      unfold Heap.write at wrote
      split at wrote
      · cases wrote
        exact ⟨rfl, present, rfl⟩
      · cases wrote

/-- The lengths and sizes a queue is set up with. -/
structure QueueShape (size length : Int32) (w len : Nat) : Prop where
  size : size = Int32.ofNat w
  length : length = Int32.ofNat len
  width : w < 2 ^ 31
  power : ∃ k, len = 2 ^ k
  short : len ≤ 2 ^ 30

theorem QueueShape.of_int (positive : 1 ≤ size.toInt) (power : ∃ k : Nat, length.toInt = 2 ^ k) :
    QueueShape size length size.toInt.toNat length.toInt.toNat := by
  obtain ⟨k, same⟩ := power
  have least : (0 : Int) < 2 ^ k := by exact_mod_cast Nat.two_pow_pos k
  have below := size.toInt_lt
  have bound := length.toInt_lt
  have nat : length.toInt.toNat = 2 ^ k := by
    have cast : ((2 ^ k : Nat) : Int) = 2 ^ k := by push_cast; rfl
    omega
  refine ⟨?_, ?_, by omega, ⟨k, nat⟩, ?_⟩
  · rw [← Int32.ofInt_eq_ofNat, Int.toNat_of_nonneg (by omega), Int32.ofInt_toInt]
  · rw [← Int32.ofInt_eq_ofNat, Int.toNat_of_nonneg (by omega), Int32.ofInt_toInt]
  · rw [nat]
    have less : 2 ^ k < 2 ^ 31 := by omega
    exact Nat.pow_le_pow_right (by decide) (Nat.le_of_lt_succ ((Nat.pow_lt_pow_iff_right (by decide)).mp less))

theorem QueueShape.bytes {w len : Nat} (shape : QueueShape size length w len) :
    (sizeT size * sizeT length).toNat = w * len ∧ w * len ≤ 2 ^ 61 := by
  have short := shape.short
  have product : w * len ≤ 2 ^ 31 * 2 ^ 30 := Nat.mul_le_mul (Nat.le_of_lt shape.width) short
  refine ⟨?_, product⟩
  rw [UInt64.toNat_mul, shape.size, shape.length, sizeT_ofNat shape.width,
    sizeT_ofNat (by omega), Nat.mod_eq_of_lt (by omega)]

/-- `queue_init` where the pool has room: the bytes cleared are those the old fields count. -/
theorem RawQueue.init_eq {w len : Nat} (sound : h.Sound) (shape : QueueShape size length w len)
    (room : h.pool.root.free.toNat + padded (w * len) ≤ h.pool.root.last.toNat) :
    RawQueue.init h before size length = do
      let bytes ← int (before.size.toInt * before.len.toInt)
      let next ← (h.granted (sizeT size * sizeT length)).write h.pool.root.free
        (List.replicate (sizeT bytes).toNat 0)
      return (true, ⟨h.pool.root.free, 0, 0, length, size, 0⟩, next) := by
  have short := shape.short
  have least : 1 ≤ len := by
    obtain ⟨k, same⟩ := shape.power
    rw [same]
    exact Nat.two_pow_pos k
  have mask : length.toInt - 1 = (len - 1 : Nat) := by
    rw [shape.length, Int32.toInt_ofNat_of_lt (by omega)]
    omega
  have power : length &&& Int32.ofNat (len - 1) = 0 := by
    obtain ⟨k, same⟩ := shape.power
    rw [shape.length, Int32.ofNat_and, same, Ring.mask_eq_mod, Nat.mod_self]
    rfl
  have taken := Heap.alloc_room (shape.bytes.1 ▸ room)
  unfold RawQueue.init RawQueue.reset
  rw [mask, int_nat (by omega)]
  simp only [bind, Except.bind, power, ne_eq, not_true_eq_false, if_false, taken, sound.free_ne]
  cases int (before.size.toInt * before.len.toInt) with
  | error fault => rfl
  | ok bytes =>
    dsimp only
    cases (h.granted (sizeT size * sizeT length)).write h.pool.root.free
      (List.replicate (sizeT bytes).toNat 0) <;> rfl

/-- A queue set up in the lower half of the address space is stored if its last slot
starts at an offset that is an `int`. -/
theorem RawQueue.init_stored {w len : Nat} (sound : h.Sound)
    (low : h.pool.root.last.toNat ≤ 2 ^ 63) (shape : QueueShape size length w len)
    (last : (len - 1) * w < 2 ^ 31)
    (ready : RawQueue.init h before size length = .ok (true, raw, next)) :
    Stored next raw.items (Queue.fresh next raw.items w len) ∧
      raw = (Queue.fresh next raw.items w len).raw raw.items := by
  obtain ⟨taken, present, fields⟩ := RawQueue.init_ok ready
  obtain ⟨bytes, product⟩ := shape.bytes
  have top := sound.size
  have limit := h.pool.root.last.toNat_lt
  have inside := sound.inside
  by_cases room : h.pool.root.free.toNat + padded (w * len) ≤ h.pool.root.last.toNat
  · obtain ⟨granted, moved⟩ := alloc_room (bytes ▸ room)
    obtain ⟨here, pool⟩ := Prod.ext_iff.mp (granted.symm.trans taken)
    have here : h.pool.root.free = raw.items := here
    have mem : next.pool.root.mem = h.pool.root.mem :=
      congrArg (fun pool => pool.root.mem) pool.symm
    have start := sound.start
    refine ⟨⟨present, ?_, ?_, ?_, fun _ => rfl, rfl, shape.width, shape.short, last⟩, ?_⟩
    · rw [mem, ← here]
      exact start
    · have enough : w * len ≤ padded (w * len) := by
        unfold padded
        omega
      rw [Heap.offset, mem, ← here]
      show _ + len * w ≤ n
      rw [Nat.mul_comm]
      omega
    · rw [mem]
      omega
    · rw [fields, Queue.raw, Queue.fresh, shape.size, shape.length]
      rfl
  · have padding : padded (w * len) < 2 ^ 62 := by
      unfold padded
      omega
    have refused := alloc_full (bytes ▸ show h.pool.root.free.toNat + padded (w * len) < 2 ^ 64 by
      omega) (bytes ▸ Nat.not_le.mp room)
    exact absurd (Prod.ext_iff.mp (refused.symm.trans taken)).1.symm present

theorem Queue.fresh_valid {w len : Nat} (power : ∃ k, len = 2 ^ k) :
    (Queue.fresh h items w len).Valid where
  power := power
  count_le := Nat.zero_le _
  tail_lt := by
    obtain ⟨k, rfl⟩ := power
    exact Nat.two_pow_pos k
  head_eq := (Nat.zero_mod _).symm

/-- An item that is not refused has a slot, and the queue goes on behind it. -/
theorem RawQueue.put_ok {w : Nat} {x : Mem w} {answer : Answer (Mem w)}
    (room : ¬ before.full = true) (used : before.use h (.put x) = .ok (answer, raw, next)) :
    ∃ p head count, before.slot before.head = .ok p ∧ before.next before.head = .ok head ∧
      int (before.count.toInt + 1) = .ok count ∧ raw = { before with head, count } := by
  obtain ⟨⟨data, grown⟩, taken, used⟩ := bind_ok used
  unfold RawQueue.enqueue at taken
  rw [if_neg room] at taken
  obtain ⟨p, found, taken⟩ := bind_ok taken
  obtain ⟨head, advanced, taken⟩ := bind_ok taken
  obtain ⟨count, counted, taken⟩ := bind_ok taken
  cases taken
  refine ⟨_, head, count, found, advanced, counted, ?_⟩
  dsimp only at used
  split at used
  · cases used
    rfl
  · obtain ⟨heap, -, used⟩ := bind_ok used
    cases used
    rfl

/-- `raw` has taken `i` items, all of them into its first slots. -/
structure RawQueue.Filled (raw : RawQueue) (size length : Int32) (i : Nat) : Prop where
  size : raw.size = size
  length : raw.len = length
  head : raw.head = Int32.ofNat i
  count : raw.count = Int32.ofNat i

/-- Where the next item is put the slot starts at an offset that is an `int`. -/
theorem RawQueue.Filled.put {w len i : Nat} {x : Mem w} {answer : Answer (Mem w)}
    (filled : before.Filled size length i) (shape : QueueShape size length w len)
    (less : i < len) (used : before.use h (.put x) = .ok (answer, raw, next)) :
    i * w < 2 ^ 31 ∧ (i + 1 < len → raw.Filled size length (i + 1)) := by
  have short := shape.short
  have room : ¬ before.full = true := by
    rw [RawQueue.full, filled.count, filled.length, shape.length,
      Int32.ofNat_beq (by omega) (by omega), beq_iff_eq]
    omega
  obtain ⟨p, head, count, found, advanced, counted, rfl⟩ := RawQueue.put_ok room used
  refine ⟨?_, fun more => ⟨filled.size, filled.length, ?_, ?_⟩⟩
  · obtain ⟨off, product, -⟩ := bind_ok found
    have offset : before.head.toInt * before.size.toInt = (i * w : Nat) := by
      rw [filled.head, filled.size, shape.size, Int32.toInt_ofNat_of_lt (by omega),
        Int32.toInt_ofNat_of_lt shape.width, Int.natCast_mul]
    by_contra far
    rw [offset, int, if_neg (by omega)] at product
    cases product
  · rw [filled.head, RawQueue.next_eq (filled.length.trans shape.length) short less] at advanced
    obtain ⟨k, power⟩ := shape.power
    have kept : (i + 1) &&& (len - 1) = i + 1 := by
      rw [power, Ring.mask_eq_mod, ← power, Nat.mod_eq_of_lt more]
    rw [kept] at advanced
    exact (Except.ok.inj advanced).symm
  · have sum : before.count.toInt + 1 = (i + 1 : Nat) := by
      rw [filled.count, Int32.toInt_ofNat_of_lt (by omega)]
      rfl
    rw [sum, int_nat (by omega)] at counted
    exact (Except.ok.inj counted).symm

/-- A queue that can be filled up has its last slot at an offset that is an `int`. -/
theorem RawQueue.Filled.last {w len i more : Nat} {f : Bounded (Mem w) capacity} {x : Mem w}
    (filled : raw.Filled size length i) (shape : QueueShape size length w len)
    (reaches : i + more + 1 = len)
    (agree : Guarded Twin.step Twin.Agrees ⟨raw, h, f⟩ (List.replicate (more + 1) (.put x))) :
    (len - 1) * w < 2 ^ 31 := by
  induction more generalizing raw h f i with
  | zero =>
    obtain ⟨⟨-, queue, heap, used, -⟩, -⟩ := agree
    have here := (filled.put shape (by omega) used).1
    rwa [show len - 1 = i by omega]
  | succ more ih =>
    obtain ⟨⟨-, queue, heap, used, -⟩, later⟩ := agree
    have grown := (filled.put shape (by omega) used).2 (by omega)
    refine ih grown (by omega) (later ⟨queue, heap, (f.apply (.put x)).2⟩ ?_)
    rw [Twin.step, used]
    rfl

/-- Set up in the lower half of the address space, the ring is a bounded queue in every
use of it exactly if its last slot starts at an offset that is an `int`. -/
theorem queue_refines_iff (sound : h.Sound) (low : h.pool.root.last.toNat ≤ 2 ^ 63)
    (positive : 1 ≤ size.toInt) (power : ∃ k : Nat, length.toInt = 2 ^ k)
    (ready : RawQueue.init h before size length = .ok (true, raw, next)) :
    (∀ ops : List (Op (Mem size.toInt.toNat)), Guarded Twin.step Twin.Agrees
      ⟨raw, next, Bounded.empty _ length.toInt.toNat⟩ ops) ↔
        (length.toInt - 1) * size.toInt < 2 ^ 31 := by
  have shape := QueueShape.of_int positive power
  obtain ⟨-, -, fields⟩ := RawQueue.init_ok ready
  have least : 1 ≤ length.toInt.toNat := by
    obtain ⟨k, same⟩ := shape.power
    rw [same]
    exact Nat.two_pow_pos k
  have last : (length.toInt - 1) * size.toInt =
      ((length.toInt.toNat - 1) * size.toInt.toNat : Nat) := by
    rw [Int.natCast_mul, Int.toNat_of_nonneg (by omega)]
    congr 1
    omega
  rw [last]
  constructor
  · intro agree
    have filled : raw.Filled size length 0 := by
      rw [fields]
      exact ⟨rfl, rfl, rfl, rfl⟩
    have most := filled.last shape (show 0 + (length.toInt.toNat - 1) + 1 = _ by omega)
      (agree (List.replicate _ (.put (Mem.zero _))))
    exact_mod_cast most
  · intro most ops
    obtain ⟨stored, same⟩ := RawQueue.init_stored sound low shape (by omega) ready
    have start : Twin.Same ⟨raw, next, Bounded.empty _ length.toInt.toNat⟩ :=
      ⟨raw.items, _, same, stored, Queue.fresh_valid shape.power, rfl, rfl⟩
    have always : Guarded Twin.step (fun _ _ => True)
        ⟨raw, next, Bounded.empty (Mem size.toInt.toNat) length.toInt.toNat⟩ ops :=
      Guarded.always (fun _ _ => trivial) _ _
    exact always.transfer start (fun _ _ _ same _ taken => same.step taken)
      fun _ op same _ => same.agrees op

/-- A queue all of whose bytes are 0. -/
def RawQueue.zero : RawQueue := ⟨null, 0, 0, 0, 0, 0⟩

/-- Setting up a zeroed queue clears nothing. -/
theorem RawQueue.init_zero {w len : Nat} (sound : h.Sound) (shape : QueueShape size length w len)
    (room : h.pool.root.free.toNat + padded (w * len) ≤ h.pool.root.last.toNat) :
    ∃ next, RawQueue.init h .zero size length =
      .ok (true, ⟨h.pool.root.free, 0, 0, length, size, 0⟩, next) := by
  have inside : (h.granted (sizeT size * sizeT length)).Holds h.pool.root.free 0 := by
    have top := sound.size
    refine ⟨sound.start, ?_⟩
    show h.pool.root.free.toNat - h.pool.root.mem.toNat + 0 ≤ n
    omega
  have cleared : (h.granted (sizeT size * sizeT length)).write h.pool.root.free [] = .ok _ :=
    if_pos inside
  have none : int (RawQueue.zero.size.toInt * RawQueue.zero.len.toInt) = .ok 0 := rfl
  rw [RawQueue.init_eq sound shape room, none]
  simp only [bind, Except.bind]
  rw [show (sizeT 0).toNat = 0 from rfl, List.replicate_zero, cleared]
  exact ⟨_, rfl⟩

/-- A pool of `size` zeroed bytes at the address 4096. -/
def zeroedHeap (size : UInt64) : Heap size.toNat :=
  ⟨(memPoolInit (fun _ => 4096) .zero size).2, Mem.zero _, []⟩

theorem zeroedHeap_sound {bytes : UInt64} (small : bytes.toNat < 2 ^ 63) : (zeroedHeap bytes).Sound where
  present := show (4096 : UInt64) ≠ null by decide
  start := Nat.le_refl _
  inside := show (4096 : UInt64).toNat ≤ (4096 + bytes).toNat by
    rw [UInt64.toNat_add]
    simp only [UInt64.reduceToNat]
    omega
  size := show (4096 + bytes).toNat = (4096 : UInt64).toNat + bytes.toNat by
    rw [UInt64.toNat_add]
    simp only [UInt64.reduceToNat]
    omega

theorem queue_refines_four : ∃ raw next, RawQueue.init (zeroedHeap 64) .zero 8 4 = .ok (true, raw, next) ∧
    ∀ ops : List (Op (Mem 8)), Guarded Twin.step Twin.Agrees ⟨raw, next, Bounded.empty _ 4⟩ ops := by
  have sound : (zeroedHeap 64).Sound := zeroedHeap_sound (by decide)
  have shape : QueueShape 8 4 8 4 := ⟨rfl, rfl, by decide, ⟨2, rfl⟩, by decide⟩
  obtain ⟨next, ready⟩ := RawQueue.init_zero sound shape (by decide)
  exact ⟨_, next, ready, (queue_refines_iff sound (by decide) (by decide) ⟨2, rfl⟩ ready).mpr
    (by decide)⟩

/-- Four items of 2^30 bytes: the third slot starts at 2^31. -/
theorem queue_refines_fails : ∃ raw next,
    RawQueue.init (zeroedHeap 4294967296) .zero 1073741824 4 = .ok (true, raw, next) ∧
      ¬ ∀ ops : List (Op (Mem 1073741824)),
        Guarded Twin.step Twin.Agrees ⟨raw, next, Bounded.empty _ 4⟩ ops := by
  have sound : (zeroedHeap 4294967296).Sound := zeroedHeap_sound (by decide)
  have shape : QueueShape 1073741824 4 1073741824 4 := ⟨rfl, rfl, by decide, ⟨2, rfl⟩, by decide⟩
  obtain ⟨next, ready⟩ := RawQueue.init_zero sound shape (by decide)
  refine ⟨_, next, ready, fun agree => ?_⟩
  have filled : RawQueue.Filled ⟨(zeroedHeap 4294967296).pool.root.free, 0, 0, 4, 1073741824, 0⟩
      1073741824 4 0 := ⟨rfl, rfl, rfl, rfl⟩
  have last := filled.last shape (show 0 + 3 + 1 = 4 from rfl)
    (agree (List.replicate 4 (.put (Mem.zero _))))
  exact absurd last (by decide)

end Refines

end Quickshare
