import Mathlib.Tactic.Common

/-! A first-in first-out queue that holds a bounded number of items, and the answers it
gives when items are put, looked at and taken. -/

namespace Quickshare.Fifo

universe u
variable {Item : Type u} {capacity : Nat}

/-- At most `capacity` items, oldest first. -/
structure Bounded (Item : Type u) (capacity : Nat) where
  items : List Item
  fits : items.length ≤ capacity

inductive Op (Item : Type u) where
  | put (x : Item)
  | look
  | take

inductive Answer (Item : Type u) where
  | put (done : Bool)
  | got (item : Option Item)

namespace Bounded

variable {f g : Bounded Item capacity} {x : Item}

def empty (Item : Type u) (capacity : Nat) : Bounded Item capacity := ⟨[], Nat.zero_le _⟩

def push (f : Bounded Item capacity) (x : Item) : Option (Bounded Item capacity) :=
  if room : f.items.length < capacity then
    some ⟨f.items ++ [x], by rw [List.length_append]; exact room⟩
  else none

def front (f : Bounded Item capacity) : Option Item := f.items.head?

def rest (f : Bounded Item capacity) : Bounded Item capacity :=
  ⟨f.items.tail, Nat.le_trans (List.tail_sublist f.items).length_le f.fits⟩

/-- The answer to an operation and the queue after it. -/
def apply (f : Bounded Item capacity) : Op Item → Answer Item × Bounded Item capacity
  | .put x => match f.push x with
    | none => (.put false, f)
    | some g => (.put true, g)
  | .look => (.got f.front, f)
  | .take => (.got f.front, f.rest)

/-- The answers to operations made one after another, and the queue after them. -/
def handle (f : Bounded Item capacity) : List (Op Item) → List (Answer Item) × Bounded Item capacity
  | [] => ([], f)
  | op :: rest =>
    let (answer, g) := f.apply op
    (answer :: (g.handle rest).1, (g.handle rest).2)

theorem handle_concat (f : Bounded Item capacity) (ops : List (Op Item)) (op : Op Item) :
    f.handle (ops ++ [op]) =
      ((f.handle ops).1 ++ [((f.handle ops).2.apply op).1], ((f.handle ops).2.apply op).2) := by
  induction ops generalizing f with
  | nil => rfl
  | cons first rest ih => simp [handle, ih]

theorem handle_length (f : Bounded Item capacity) (ops : List (Op Item)) :
    (f.handle ops).1.length = ops.length := by
  induction ops generalizing f with
  | nil => rfl
  | cons first rest ih => simp [handle, ih]

theorem push_eq_none : f.push x = none ↔ f.items.length = capacity := by
  have fits := f.fits
  unfold push
  split
  · rename_i room
    simp [Nat.ne_of_lt room]
  · simp only [true_iff]
    omega

theorem push_items (pushed : f.push x = some g) : g.items = f.items ++ [x] := by
  unfold push at pushed
  split at pushed
  · cases pushed
    rfl
  · cases pushed

end Bounded

end Quickshare.Fifo
