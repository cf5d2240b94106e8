import Quickshare.Lib.Fifo
import Quickshare.Lib.Ring
import Quickshare.Lib.Runs
import Mathlib.Tactic.Ring

/-! `LockFreeQueueCpp11.h`: a ring of nodes that any number of threads push to and pop
from. Each step of a call is one access to memory that other threads see, and the
accesses of all threads interleave in any order. -/

namespace Quickshare

universe u v

open Fifo Runs Function

/-- `LockFreeQueueCpp11::Node`. -/
structure QueueNode (Item : Type u) where
  data : Item
  tail : Nat
  head : Nat

/-- `LockFreeQueueCpp11`; a `size_t` is a number below `2 ^ 64`. -/
structure LockFreeQueue (Item : Type u) where
  capacityMask : Nat
  queue : Nat → QueueNode Item
  capacity : Nat
  tail : Nat
  head : Nat

/-- Where a thread is in a call, with the values it has loaded. -/
inductive Call (Item : Type u) where
  | push (data : Item)
  | pushCheck (data : Item) (tail : Nat)
  | pushSwap (data : Item) (tail : Nat)
  | pushCopy (data : Item) (tail : Nat)
  | pushPublish (data : Item) (tail : Nat)
  | peek
  | peekCheck (head : Nat)
  | peekCopy (head : Nat)
  | pop
  | popCheck (head : Nat)
  | popSwap (head : Nat)
  | popRelease (head : Nat)

/-- What a call returns. -/
inductive Returned (Item : Type u) where
  | pushed (done : Bool)
  | peeked (result : Option Item)
  | popped (done : Bool)

namespace LockFreeQueue

variable {Item : Type u} (q : LockFreeQueue Item)

/-- The loop over `i = 1, 2, 4, .., 32` of the constructor. -/
def maskOf (capacity : Nat) : Nat :=
  (List.range 6).foldl (fun mask k => mask ||| mask >>> 2 ^ k) ((capacity + (2 ^ 64 - 1)) % 2 ^ 64)

/-- The constructor; nothing is written to the data of the nodes. -/
def new (capacity : Nat) (memory : Nat → Item) : LockFreeQueue Item where
  capacityMask := maskOf capacity
  queue i := ⟨memory i, i, 2 ^ 64 - 1⟩
  capacity := (maskOf capacity + 1) % 2 ^ 64
  tail := 0
  head := 0

/-- `_queue[i & _capacityMask]`. -/
def node (i : Nat) : QueueNode Item := q.queue (i &&& q.capacityMask)

def setNode (i : Nat) (n : QueueNode Item) : LockFreeQueue Item :=
  { q with queue := update q.queue (i &&& q.capacityMask) n }

/-- The next access of a call, and what is left of the call or what it returns. A
`compare_exchange_weak` may fail for no reason. -/
def access (fails : Bool) : Call Item → LockFreeQueue Item × (Call Item ⊕ Returned Item)
  | .push data => (q, .inl (.pushCheck data q.tail))
  | .pushCheck data tail =>
    (q, if (q.node tail).tail ≠ tail then .inr (.pushed false) else .inl (.pushSwap data tail))
  | .pushSwap data tail =>
    if q.tail = tail ∧ ¬ fails then
      ({ q with tail := (tail + 1) % 2 ^ 64 }, .inl (.pushCopy data tail))
    else (q, .inl (.pushCheck data q.tail))
  | .pushCopy data tail =>
    (q.setNode tail { q.node tail with data }, .inl (.pushPublish data tail))
  | .pushPublish _ tail =>
    (q.setNode tail { q.node tail with head := tail }, .inr (.pushed true))
  | .peek => (q, .inl (.peekCheck q.head))
  | .peekCheck head =>
    (q, if (q.node head).head ≠ head then .inr (.peeked none) else .inl (.peekCopy head))
  | .peekCopy head => (q, .inr (.peeked (some (q.node head).data)))
  | .pop => (q, .inl (.popCheck q.head))
  | .popCheck head =>
    (q, if (q.node head).head ≠ head then .inr (.popped false) else .inl (.popSwap head))
  | .popSwap head =>
    if q.head = head ∧ ¬ fails then
      ({ q with head := (head + 1) % 2 ^ 64 }, .inl (.popRelease head))
    else (q, .inl (.popCheck q.head))
  | .popRelease head =>
    (q.setNode head { q.node head with tail := (head + q.capacity) % 2 ^ 64 },
      .inr (.popped true))

theorem maskOf_eq {capacity : Nat} (positive : 0 < capacity) (small : capacity < 2 ^ 64) :
    maskOf capacity = 2 ^ Nat.clog 2 capacity - 1 := by
  obtain ⟨n, rfl⟩ : ∃ n, capacity = n + 1 := ⟨capacity - 1, by omega⟩
  have less : (n + 1 + (2 ^ 64 - 1)) % 2 ^ 64 = n := by omega
  rw [maskOf, less]
  exact Ring.spread_eq (by omega)

theorem new_capacity {capacity : Nat} (positive : 0 < capacity) (small : capacity ≤ 2 ^ 63)
    (memory : Nat → Item) :
    (new capacity memory).capacity = 2 ^ Nat.clog 2 capacity := by
  have below : 2 ^ Nat.clog 2 capacity ≤ 2 ^ 63 :=
    Nat.pow_le_pow_right (by omega) ((Nat.clog_le_iff_le_pow (by omega)).mpr small)
  have one : 1 ≤ 2 ^ Nat.clog 2 capacity := Nat.one_le_two_pow
  rw [new, maskOf_eq positive (by omega), Nat.sub_add_cancel one]
  exact Nat.mod_eq_of_lt (by omega)

/-- The constructor rounds the capacity up to the next power of two, and masking a place is
reduction modulo that. -/
theorem capacity_least (capacity : Nat) (memory : Nat → Item) (positive : 0 < capacity)
    (small : capacity ≤ 2 ^ 63) :
    ((∃ n, (new capacity memory).capacity = 2 ^ n) ∧ capacity ≤ (new capacity memory).capacity ∧
      ∀ k, capacity ≤ 2 ^ k → (new capacity memory).capacity ≤ 2 ^ k) ∧
    ∀ i, i &&& (new capacity memory).capacityMask = i % (new capacity memory).capacity := by
  rw [new_capacity positive small]
  refine ⟨⟨⟨_, rfl⟩, Nat.le_pow_clog (by omega) capacity, fun k above => ?_⟩, fun i => ?_⟩
  · exact Nat.pow_le_pow_right (by omega) ((Nat.clog_le_iff_le_pow (by omega)).mpr above)
  · rw [new, maskOf_eq positive (by omega), Ring.mask_eq_mod]

/-- The six commands asked for get eight nodes. -/
theorem capacity_least_six : (new 6 fun _ => ()).capacity = 2 ^ 3 ∧
    ∀ i, i &&& (new 6 fun _ => ()).capacityMask = i % (new 6 fun _ => ()).capacity := by
  obtain ⟨⟨⟨n, power⟩, above, least⟩, masks⟩ :=
    capacity_least 6 (fun _ => ()) (by decide) (by decide)
  refine ⟨?_, masks⟩
  have most := least 3 (by decide)
  rw [power] at above most ⊢
  have few : n ≤ 3 := (Nat.pow_le_pow_iff_right (by decide)).mp most
  have many : 2 < n := (Nat.pow_lt_pow_iff_right (by decide)).mp (Nat.lt_of_lt_of_le (by decide) above)
  rw [Nat.le_antisymm few many]

end LockFreeQueue

/-- The call that starts an operation, and the operation of a call. -/
def Call.start {Item : Type u} : Op Item → Call Item
  | .put data => .push data
  | .look => .peek
  | .take => .pop

def Call.op {Item : Type u} : Call Item → Op Item
  | .push data | .pushCheck data _ | .pushSwap data _ | .pushCopy data _
  | .pushPublish data _ => .put data
  | .peek | .peekCheck _ | .peekCopy _ => .look
  | .pop | .popCheck _ | .popSwap _ | .popRelease _ => .take

/-- A queue and the threads that use it. -/
structure Threads (Item : Type u) (Thread : Type v) where
  queue : LockFreeQueue Item
  /-- The call each thread is in. -/
  calls : Thread → Option (Call Item)
  /-- What the pushes that took a place had to store, in the order of the places (kept for
  specifications). -/
  granted : List Item
  /-- What the places held that pops took, in the order in which they did (kept for
  specifications). -/
  popped : List Item
  /-- What the calls returned, in the order in which they did (kept for specifications). -/
  returns : List (Op Item × Returned Item)

/-- A thread starts a call or makes the next access of the one it is in. -/
inductive ThreadEvent (Item : Type u) (Thread : Type v) where
  | begins (thread : Thread) (op : Op Item)
  | acts (thread : Thread) (fails : Bool)

/-- No thread does this: it is in a call already, or in none. -/
inductive Misuse where
  | busy
  | idle

namespace Threads

variable {Item : Type u} {Thread : Type v} [DecidableEq Thread]

def init (capacity : Nat) (memory : Nat → Item) : Threads Item Thread :=
  ⟨.new capacity memory, fun _ => none, [], [], []⟩

/-- What a place is taken for by the next access of a call. -/
def grants (q : LockFreeQueue Item) (fails : Bool) : Call Item → List Item
  | .pushSwap data tail => if q.tail = tail ∧ ¬ fails then [data] else []
  | _ => []

/-- What is in the place that the next access of a call takes. -/
def takes (q : LockFreeQueue Item) (fails : Bool) : Call Item → List Item
  | .popSwap head => if q.head = head ∧ ¬ fails then [(q.node head).data] else []
  | _ => []

/-- The next access of the call a thread is in. -/
def act (s : Threads Item Thread) (thread : Thread) (fails : Bool) (call : Call Item) :
    Threads Item Thread :=
  let (queue, after) := s.queue.access fails call
  { queue
    calls := update s.calls thread after.getLeft?
    granted := s.granted ++ grants s.queue fails call
    popped := s.popped ++ takes s.queue fails call
    returns := s.returns ++ (after.getRight?.map fun r => (call.op, r)).toList }

def step (s : Threads Item Thread) : ThreadEvent Item Thread → Except Misuse (Threads Item Thread)
  | .begins thread op => match s.calls thread with
    | some _ => .error .busy
    | none => .ok { s with calls := update s.calls thread (some (.start op)) }
  | .acts thread fails => match s.calls thread with
    | none => .error .idle
    | some call => .ok (s.act thread fails call)

end Threads

/-- The place that the rest of a call has to itself. -/
def Call.place {Item : Type u} : Call Item → Option Nat
  | .pushCopy _ tail | .pushPublish _ tail => some tail
  | .popRelease head => some head
  | _ => none

namespace Threads

variable {Item : Type u} {Thread : Type v}

/-- What a thread may rely on in the middle of a call. -/
def Fits (q : LockFreeQueue Item) (granted : List Item) : Call Item → Prop
  | .push _ | .peek | .pop => True
  | .pushCheck _ tail => tail ≤ q.tail
  | .pushSwap _ tail => tail ≤ q.tail ∧ tail ≤ (q.node tail).tail
  | .pushCopy data tail =>
    tail < q.tail ∧ (q.node tail).tail = tail ∧ (q.node tail).head ≠ tail ∧
      granted[tail]? = some data
  | .pushPublish data tail =>
    tail < q.tail ∧ (q.node tail).tail = tail ∧ (q.node tail).head ≠ tail ∧
      granted[tail]? = some data ∧ (q.node tail).data = data
  | .peekCheck head | .popCheck head => head ≤ q.head
  | .peekCopy head | .popSwap head =>
    head ≤ q.head ∧ (head = q.head → (q.node head).tail = head ∧ (q.node head).head = head)
  | .popRelease head =>
    head < q.head ∧ (q.node head).tail = head ∧ (q.node head).head = head

/-- What holds between the accesses. -/
structure Sound (s : Threads Item Thread) : Prop where
  power : ∃ k, s.queue.capacity = 2 ^ k
  mask : s.queue.capacityMask = s.queue.capacity - 1
  tail : s.queue.tail = s.granted.length
  order : s.queue.head ≤ s.queue.tail
  place : ∀ i < s.queue.capacity, (s.queue.queue i).tail % s.queue.capacity = i
  window : ∀ i < s.queue.capacity, s.queue.tail ≤ (s.queue.queue i).tail + s.queue.capacity ∧
    (s.queue.queue i).tail < s.queue.head + s.queue.capacity
  stage : ∀ i < s.queue.capacity, (s.queue.queue i).head = (s.queue.queue i).tail ∨
    (s.queue.queue i).tail = (s.queue.queue i).head + s.queue.capacity ∨
    (s.queue.queue i).tail < s.queue.capacity ∧ (s.queue.queue i).head = 2 ^ 64 - 1
  published : ∀ i < s.queue.capacity, (s.queue.queue i).head = (s.queue.queue i).tail →
    (s.queue.queue i).tail < s.queue.tail ∧
      s.granted[(s.queue.queue i).tail]? = some (s.queue.queue i).data
  waiting : ∀ i < s.queue.capacity, (s.queue.queue i).head ≠ (s.queue.queue i).tail →
    s.queue.head ≤ (s.queue.queue i).tail
  fits : ∀ thread call, s.calls thread = some call → Fits s.queue s.granted call
  apart : ∀ first second a b i, s.calls first = some a → s.calls second = some b →
    a.place = some i → b.place = some i → first = second
  held : ∀ i < s.queue.capacity, (s.queue.queue i).tail < s.queue.tail →
    (s.queue.queue i).head ≠ (s.queue.queue i).tail →
    ∃ thread data, s.calls thread = some (.pushCopy data (s.queue.queue i).tail) ∨
      s.calls thread = some (.pushPublish data (s.queue.queue i).tail)
  taken : ∀ i < s.queue.capacity, (s.queue.queue i).tail < s.queue.head →
    ∃ thread, s.calls thread = some (.popRelease (s.queue.queue i).tail)

theorem step_cases [DecidableEq Thread] {s next : Threads Item Thread}
    {e : ThreadEvent Item Thread} (taken : s.step e = .ok next) :
    (∃ thread op, e = .begins thread op ∧ s.calls thread = none ∧
      next = { s with calls := update s.calls thread (some (.start op)) }) ∨
    ∃ thread fails call, e = .acts thread fails ∧ s.calls thread = some call ∧
      next = s.act thread fails call := by
  cases e with
  | begins thread op =>
    simp only [step] at taken
    split at taken
    · cases taken
    · exact .inl ⟨thread, op, rfl, ‹_›, (Except.ok.inj taken).symm⟩
  | acts thread fails =>
    simp only [step] at taken
    split at taken
    · cases taken
    · exact .inr ⟨thread, fails, _, rfl, ‹_›, (Except.ok.inj taken).symm⟩

/-- A `size_t` has room for the places of all pushes so far. -/
def few (s : Threads Item Thread) : Prop := s.granted.length + s.queue.capacity < 2 ^ 64

end Threads

end Quickshare
