import Quickshare.Lib.Ring

/-! `queue.c`: the ring of packet slots a client's messages wait in. `enqueue`
hands out a slot with whatever it held before; the caller fills it. -/

namespace Quickshare

structure Queue (Item : Type) where
  items : Nat → Item
  head : Nat
  tail : Nat
  len : Nat
  size : Nat
  count : Nat

namespace Queue

variable {Item : Type} {q next : Queue Item} {x : Item}

def reset (zero : Item) (q : Queue Item) : Queue Item :=
  { q with items := fun _ => zero, head := 0, tail := 0, count := 0 }

def empty (q : Queue Item) : Bool := q.count == 0

def full (q : Queue Item) : Bool := q.count == q.len

def enqueue (q : Queue Item) : Option (Nat × Queue Item) :=
  if q.full then none
  else some (q.head, { q with head := (q.head + 1) &&& (q.len - 1), count := q.count + 1 })

def peek (q : Queue Item) : Option Item :=
  if q.empty then none else some (q.items q.tail)

def dequeue (q : Queue Item) : Option (Item × Queue Item) :=
  if q.empty then none
  else some (q.items q.tail,
    { q with tail := (q.tail + 1) &&& (q.len - 1), count := q.count - 1 })

/-- Write through the pointer `enqueue` returned. -/
def fill (q : Queue Item) (slot : Nat) (f : Item → Item) : Queue Item :=
  { q with items := Function.update q.items slot (f (q.items slot)) }

/-- What `queue_init` and every later operation keep. -/
structure Valid (q : Queue Item) : Prop where
  power : ∃ k, q.len = 2 ^ k
  count_le : q.count ≤ q.len
  tail_lt : q.tail < q.len
  head_eq : q.head = (q.tail + q.count) % q.len

/-- The packets waiting, oldest first. -/
def contents (q : Queue Item) : List Item := Ring.contents q.items q.tail q.len q.count

@[simp] theorem contents_length (q : Queue Item) : q.contents.length = q.count := by
  simp [contents]

theorem enqueue_eq_none : q.enqueue = none ↔ q.count = q.len := by
  simp [enqueue, full]

theorem Valid.reset (zero : Item) (valid : q.Valid) : (q.reset zero).Valid where
  power := valid.power
  count_le := Nat.zero_le _
  tail_lt := by
    obtain ⟨k, same⟩ := valid.power
    rw [Queue.reset, same]
    exact Nat.two_pow_pos k
  head_eq := by simp [Queue.reset]

theorem reset_contents (zero : Item) (q : Queue Item) : (q.reset zero).contents = [] := by
  simp [contents, reset, Ring.contents]

theorem Valid.mask (valid : q.Valid) (i : Nat) : i &&& (q.len - 1) = i % q.len := by
  obtain ⟨k, same⟩ := valid.power
  rw [same]
  exact Ring.mask_eq_mod k i

theorem Valid.fill (slot : Nat) (f : Item → Item) (valid : q.Valid) : (q.fill slot f).Valid :=
  ⟨valid.power, valid.count_le, valid.tail_lt, valid.head_eq⟩

theorem Valid.enqueue (valid : q.Valid) (taken : q.enqueue = some (slot, next)) :
    next.Valid := by
  simp only [Queue.enqueue] at taken
  split at taken
  · cases taken
  · rename_i room
    cases taken
    have space : q.count ≠ q.len := by simpa [full] using room
    refine ⟨valid.power, ?_, valid.tail_lt, ?_⟩
    · have := valid.count_le
      simp only
      omega
    · simp only [valid.mask, valid.head_eq, Nat.mod_add_mod, Nat.add_assoc]

/-- A filled slot is the newest packet waiting. -/
theorem Valid.enqueue_contents (valid : q.Valid)
    (taken : q.enqueue = some (slot, next)) (f : Item → Item) :
    (next.fill slot f).contents = q.contents ++ [f (q.items slot)] := by
  simp only [Queue.enqueue] at taken
  split at taken
  · cases taken
  · rename_i room
    cases taken
    have space : q.count < q.len := by
      have := valid.count_le
      have : q.count ≠ q.len := by simpa [full] using room
      omega
    simp only [contents, Queue.fill, valid.head_eq]
    exact Ring.contents_push q.items q.tail space _

theorem Valid.dequeue (valid : q.Valid) (taken : q.dequeue = some (x, next)) :
    next.Valid := by
  simp only [Queue.dequeue] at taken
  split at taken
  · cases taken
  · rename_i held
    cases taken
    have some : q.count ≠ 0 := by simpa [empty] using held
    have bound := valid.count_le
    have positive : 0 < q.len := by have := valid.tail_lt; omega
    refine ⟨valid.power, ?_, ?_, ?_⟩
    · simp only
      omega
    · simp only [valid.mask]
      exact Nat.mod_lt _ positive
    · simp only [valid.mask, valid.head_eq, Nat.mod_add_mod]
      congr 1
      omega

/-- The oldest packet leaves first. -/
theorem Valid.dequeue_contents (valid : q.Valid) (taken : q.dequeue = some (x, next)) :
    q.contents = x :: next.contents := by
  simp only [Queue.dequeue] at taken
  split at taken
  · cases taken
  · rename_i held
    cases taken
    obtain ⟨count, same⟩ : ∃ count, q.count = count + 1 :=
      Nat.exists_eq_succ_of_ne_zero (by simpa [empty] using held)
    simp only [contents, valid.mask, same, Nat.add_sub_cancel]
    rw [Ring.contents_pop, Nat.mod_eq_of_lt valid.tail_lt]

theorem dequeue_none (missing : q.dequeue = none) : q.contents = [] := by
  have none : q.count = 0 := by
    by_contra held
    simp [dequeue, empty, held] at missing
  exact List.length_eq_zero_iff.mp (by rw [contents_length, none])

theorem dequeue_count (taken : q.dequeue = some (x, next)) : q.count = next.count + 1 := by
  simp only [dequeue] at taken
  split at taken
  · cases taken
  · rename_i held
    cases taken
    have some : q.count ≠ 0 := by simpa [empty] using held
    simp only
    omega

end Queue

end Quickshare
