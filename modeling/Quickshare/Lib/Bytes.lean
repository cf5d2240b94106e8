import Mathlib.Data.List.Basic
import Mathlib.Tactic.Ring
import Mathlib.Tactic.Common

/-! Fixed-size memory and the little-endian words kept in it. A copy into
memory is one `write` of a list of bytes; every field of a packed structure is
a `read` at its offset, so two lemmas settle what a later read sees. -/

namespace Quickshare.Bytes

/-- `n` consecutive bytes. -/
@[ext] structure Mem (n : Nat) where
  get : Fin n → UInt8

def Mem.zero (n : Nat) : Mem n := ⟨fun _ => 0⟩

def Mem.byte (m : Mem n) (i : Nat) : UInt8 :=
  if inside : i < n then m.get ⟨i, inside⟩ else 0

/-- The `w` bytes from offset `off` on. -/
def Mem.read (m : Mem n) (off w : Nat) : List UInt8 :=
  (List.range w).map fun k => m.byte (off + k)

/-- `memcpy` of `bytes` to offset `off`. -/
def Mem.write (m : Mem n) (off : Nat) (bytes : List UInt8) : Mem n :=
  ⟨fun i => if off ≤ i.val then (bytes[i.val - off]?).getD (m.get i) else m.get i⟩

/-- The `w` bytes of `v`, least significant first. -/
def toLE : Nat → Nat → List UInt8
  | 0, _ => []
  | w + 1, v => UInt8.ofNat (v % 256) :: toLE w (v / 256)

def ofLE : List UInt8 → Nat
  | [] => 0
  | b :: rest => b.toNat + 256 * ofLE rest

def Mem.load (m : Mem n) (off w : Nat) : Nat := ofLE (m.read off w)

def Mem.store (m : Mem n) (off w v : Nat) : Mem n := m.write off (toLE w v)

def Mem.loadInt64 (m : Mem n) (off : Nat) : Int64 := (UInt64.ofNat (m.load off 8)).toInt64

def Mem.storeInt64 (m : Mem n) (off : Nat) (v : Int64) : Mem n :=
  m.store off 8 v.toUInt64.toNat

@[simp] theorem toLE_length (w v : Nat) : (toLE w v).length = w := by
  induction w generalizing v with
  | zero => rfl
  | succ w ih => simp [toLE, ih]

theorem ofLE_toLE (w v : Nat) : ofLE (toLE w v) = v % 256 ^ w := by
  induction w generalizing v with
  | zero => simp [toLE, ofLE, Nat.mod_one]
  | succ w ih =>
    have low : (UInt8.ofNat (v % 256)).toNat = v % 256 := by
      simp only [UInt8.toNat_ofNat']
      omega
    rw [toLE, ofLE, ih, low, Nat.pow_succ', Nat.mod_mul]

@[simp] theorem Mem.read_length (m : Mem n) (off w : Nat) : (m.read off w).length = w := by
  simp [Mem.read]

theorem Mem.read_add (m : Mem n) (off j k : Nat) :
    m.read off (j + k) = m.read off j ++ m.read (off + j) k := by
  simp [Mem.read, List.range_add, Nat.add_assoc, Function.comp_def]

theorem Mem.read_take (m : Mem n) (off : Nat) (less : k ≤ w) :
    (m.read off w).take k = m.read off k := by
  obtain ⟨rest, rfl⟩ := Nat.exists_eq_add_of_le less
  rw [Mem.read_add, List.take_left' (by simp)]

theorem Mem.read_drop (m : Mem n) (off k rest : Nat) :
    (m.read off (k + rest)).drop k = m.read (off + k) rest := by
  rw [Mem.read_add, List.drop_left' (by simp)]

theorem Mem.byte_write (m : Mem n) (off : Nat) (bytes : List UInt8) (i : Nat) :
    (m.write off bytes).byte i =
      if i < n ∧ off ≤ i then (bytes[i - off]?).getD (m.byte i) else m.byte i := by
  by_cases inside : i < n
  · by_cases later : off ≤ i
    · simp [Mem.byte, Mem.write, inside, later]
    · simp [Mem.byte, Mem.write, inside, later]
  · simp [Mem.byte, inside]

theorem Mem.byte_write_inside (m : Mem n) (bytes : List UInt8) (fits : off + bytes.length ≤ n)
    (k : Nat) (member : k < bytes.length) : (m.write off bytes).byte (off + k) = bytes[k] := by
  have inside : off + k < n := by omega
  simp [Mem.byte_write, inside, member]

theorem Mem.byte_write_outside (m : Mem n) (bytes : List UInt8)
    (apart : i < off ∨ off + bytes.length ≤ i) : (m.write off bytes).byte i = m.byte i := by
  rw [Mem.byte_write]
  split
  · rename_i written
    have past : bytes.length ≤ i - off := by omega
    simp [past]
  · rfl

/-- A copied byte does not depend on what was there. -/
theorem Mem.byte_write_same (first second : Mem n) (bytes : List UInt8) (late : off ≤ i)
    (less : i < off + bytes.length) : (second.write off bytes).byte i = (first.write off bytes).byte i := by
  have member : i - off < bytes.length := by omega
  by_cases inside : i < n
  · simp [Mem.byte_write, inside, late, member]
  · simp [Mem.byte, inside]

/-- Copying two pieces is copying one behind the other. -/
theorem Mem.write_append (m : Mem n) (off : Nat) (first second : List UInt8) :
    m.write off (first ++ second) = (m.write off first).write (off + first.length) second := by
  ext i
  simp only [Mem.write]
  by_cases before : off ≤ i.val
  · by_cases behind : off + first.length ≤ i.val
    · have past : first.length ≤ i.val - off := by omega
      have rest : i.val - off - first.length = i.val - (off + first.length) := by omega
      rw [if_pos before, if_pos behind, if_pos before, List.getElem?_append_right past, rest,
        List.getElem?_eq_none past, Option.getD_none]
    · rw [if_pos before, if_neg behind, if_pos before, List.getElem?_append_left (by omega)]
  · rw [if_neg before, if_neg (by omega), if_neg before]

/-- Reading back what was just copied. -/
theorem Mem.read_write (m : Mem n) (bytes : List UInt8) (fits : off + bytes.length ≤ n) :
    (m.write off bytes).read off bytes.length = bytes := by
  apply List.ext_getElem
  · simp
  · intro k first second
    simpa [Mem.read] using m.byte_write_inside bytes fits k second

/-- A copy leaves every read apart from its range unchanged. -/
theorem Mem.read_write_apart (m : Mem n) (bytes : List UInt8)
    (apart : start + w ≤ off ∨ off + bytes.length ≤ start) :
    (m.write off bytes).read start w = m.read start w := by
  apply List.ext_getElem
  · simp
  · intro k first second
    have bound : k < w := by simpa using first
    simpa [Mem.read] using m.byte_write_outside bytes (i := start + k) (by omega)

theorem Mem.load_store (m : Mem n) (fits : off + w ≤ n) :
    (m.store off w v).load off w = v % 256 ^ w := by
  have inside : off + (toLE w v).length ≤ n := by simpa using fits
  have same := m.read_write (toLE w v) inside
  simp only [toLE_length] at same
  rw [Mem.load, Mem.store, same, ofLE_toLE]

theorem Mem.load_write_apart (m : Mem n) (bytes : List UInt8)
    (apart : start + w ≤ off ∨ off + bytes.length ≤ start) :
    (m.write off bytes).load start w = m.load start w := by
  rw [Mem.load, m.read_write_apart bytes apart, Mem.load]

theorem Mem.load_store_apart (m : Mem n)
    (apart : start + w ≤ off ∨ off + size ≤ start) :
    (m.store off size v).load start w = m.load start w :=
  m.load_write_apart _ (by simpa using apart)

theorem Mem.read_store_apart (m : Mem n)
    (apart : start + w ≤ off ∨ off + size ≤ start) :
    (m.store off size v).read start w = m.read start w :=
  m.read_write_apart _ (by simpa using apart)

theorem Mem.loadInt64_storeInt64 (m : Mem n) (fits : off + 8 ≤ n) :
    (m.storeInt64 off v).loadInt64 off = v := by
  have bound : v.toUInt64.toNat < 256 ^ 8 := by
    have := v.toUInt64.toNat_lt
    omega
  rw [Mem.loadInt64, Mem.storeInt64, m.load_store fits, Nat.mod_eq_of_lt bound]
  simp

theorem Mem.loadInt64_write_apart (m : Mem n) (bytes : List UInt8)
    (apart : start + 8 ≤ off ∨ off + bytes.length ≤ start) :
    (m.write off bytes).loadInt64 start = m.loadInt64 start := by
  rw [Mem.loadInt64, m.load_write_apart bytes apart, Mem.loadInt64]

theorem Mem.loadInt64_store_apart (m : Mem n)
    (apart : start + 8 ≤ off ∨ off + size ≤ start) :
    (m.store off size v).loadInt64 start = m.loadInt64 start :=
  m.loadInt64_write_apart _ (by simpa using apart)

/-! Parts of a memory -/

/-- The `w` bytes from `off` on, as a memory of their own. -/
def Mem.part (m : Mem n) (off w : Nat) : Mem w := ⟨fun i => m.byte (off + i)⟩

def Mem.bytes (m : Mem n) : List UInt8 := List.ofFn m.get

@[simp] theorem Mem.bytes_length (m : Mem n) : m.bytes.length = n := List.length_ofFn

theorem Mem.part_write (m : Mem n) (x : Mem w) (fits : off + w ≤ n) :
    (m.write off x.bytes).part off w = x := by
  ext i
  have copied := m.byte_write_inside x.bytes (by simpa using fits) i (by simp)
  exact congrArg UInt8.toNat (copied.trans (by simp [Mem.bytes]))

theorem Mem.part_write_apart (m : Mem n) (bytes : List UInt8)
    (apart : start + w ≤ off ∨ off + bytes.length ≤ start) :
    (m.write off bytes).part start w = m.part start w := by
  ext i
  have less := i.isLt
  exact congrArg UInt8.toNat (m.byte_write_outside bytes (i := start + i) (by omega))

/-! Words stored one behind the other -/

section Words

variable {k base : Nat} {v : Fin k → Int64}

/-- Words leave every read apart from their range unchanged. -/
theorem Mem.read_words_apart (m : Mem n) (is : List (Fin k))
    (apart : start + w ≤ base ∨ base + 8 * k ≤ start) :
    (is.foldl (fun (m : Mem n) i => m.storeInt64 (base + 8 * i.val) (v i)) m).read start w =
      m.read start w := by
  induction is generalizing m with
  | nil => rfl
  | cons i rest ih =>
    have less := i.isLt
    rw [List.foldl_cons, ih, Mem.storeInt64, m.read_store_apart (by omega)]

/-- A word is read back if it was stored, and is as before if not. -/
theorem Mem.loadInt64_foldl (m : Mem n) (is : List (Fin k)) (fits : base + 8 * k ≤ n)
    (j : Fin k) :
    let stored := is.foldl (fun (m : Mem n) i => m.storeInt64 (base + 8 * i.val) (v i)) m
    (j ∈ is → stored.loadInt64 (base + 8 * j.val) = v j) ∧
      (j ∉ is → stored.loadInt64 (base + 8 * j.val) = m.loadInt64 (base + 8 * j.val)) := by
  induction is generalizing m with
  | nil => exact ⟨fun member => absurd member List.not_mem_nil, fun _ => rfl⟩
  | cons i rest ih =>
    have less := j.isLt
    obtain ⟨again, kept⟩ := ih (m.storeInt64 (base + 8 * i.val) (v i))
    refine ⟨fun member => ?_, fun absent => ?_⟩
    · by_cases later : j ∈ rest
      · exact again later
      · obtain rfl : j = i := (List.mem_cons.mp member).resolve_right later
        exact (kept later).trans (m.loadInt64_storeInt64 (by omega))
    · obtain ⟨ne, later⟩ := not_or.mp (mt List.mem_cons.mpr absent)
      have apart : j.val ≠ i.val := fun same => ne (Fin.ext same)
      exact (kept later).trans (m.loadInt64_store_apart (by omega))

/-- Reading back one of all the words. -/
theorem Mem.loadInt64_words (m : Mem n) (fits : base + 8 * k ≤ n) (j : Fin k) :
    ((List.finRange k).foldl (fun (m : Mem n) i => m.storeInt64 (base + 8 * i.val) (v i)) m).loadInt64
      (base + 8 * j.val) = v j :=
  (m.loadInt64_foldl _ fits j).1 (List.mem_finRange j)

end Words

/-! Memories that agree up to an offset -/

/-- The first `k` bytes are the same. -/
def Mem.SameTo (k : Nat) (first second : Mem n) : Prop := ∀ i < k, second.byte i = first.byte i

section SameTo

variable {first second : Mem n}

theorem Mem.SameTo.of_read (same : second.read 0 k = first.read 0 k) : SameTo k first second := by
  intro i less
  have here := congrArg (·[i]?) same
  simpa [Mem.read, less] using here

theorem Mem.SameTo.mono (same : SameTo k first second) (less : j ≤ k) : SameTo j first second :=
  fun i member => same i (Nat.lt_of_lt_of_le member less)

theorem Mem.SameTo.read (same : SameTo k first second) (inside : off + w ≤ k) :
    second.read off w = first.read off w := by
  apply List.map_congr_left
  intro i member
  apply same
  have := List.mem_range.mp member
  omega

theorem Mem.SameTo.load (same : SameTo k first second) (inside : off + w ≤ k) :
    second.load off w = first.load off w := by
  rw [Mem.load, same.read inside, Mem.load]

theorem Mem.SameTo.loadInt64 (same : SameTo k first second) (inside : off + 8 ≤ k) :
    second.loadInt64 off = first.loadInt64 off := by
  rw [Mem.loadInt64, same.load inside, Mem.loadInt64]

/-- One copy into both keeps what agrees. -/
theorem Mem.SameTo.write (same : SameTo k first second) (off : Nat) (bytes : List UInt8) :
    SameTo k (first.write off bytes) (second.write off bytes) := by
  intro i less
  rw [Mem.byte_write, Mem.byte_write, same i less]

theorem Mem.SameTo.store (same : SameTo k first second) (off w v : Nat) :
    SameTo k (first.store off w v) (second.store off w v) :=
  same.write off _

theorem Mem.SameTo.storeInt64 (same : SameTo k first second) (off : Nat) (v : Int64) :
    SameTo k (first.storeInt64 off v) (second.storeInt64 off v) :=
  same.store off 8 _

/-- A copy behind an offset changes nothing before it. -/
theorem Mem.sameTo_write (m : Mem n) (bytes : List UInt8) (behind : k ≤ off) :
    SameTo k m (m.write off bytes) := by
  intro i less
  exact m.byte_write_outside bytes (.inl (by omega))

end SameTo

end Quickshare.Bytes
