import Mathlib.Logic.Function.Basic
import Mathlib.Data.Nat.Bitwise
import Mathlib.Data.Nat.Log
import Mathlib.Data.Nat.ModEq
import Mathlib.Tactic.Common

/-! The first-in first-out view of a circular array: `count` cells read from
`tail` on, indices taken modulo the length. -/

namespace Quickshare.Ring

universe u
variable {Item : Type u}

/-- The cells held, oldest first. -/
def contents (cells : Nat → Item) (tail len count : Nat) : List Item :=
  (List.range count).map fun k => cells ((tail + k) % len)

@[simp] theorem contents_length (cells : Nat → Item) (tail len count : Nat) :
    (contents cells tail len count).length = count := by
  simp [contents]

/-- Offsets below the length reach different cells. -/
theorem index_ne {j k len : Nat} (less : j < k) (bound : k < len) : (tail + j) % len ≠ (tail + k) % len := by
  intro same
  have equal : j % len = k % len := Nat.ModEq.add_left_cancel' tail same
  rw [Nat.mod_eq_of_lt (by omega), Nat.mod_eq_of_lt bound] at equal
  omega

/-- Filling the cell after the newest one appends it. -/
theorem contents_push {len : Nat} (cells : Nat → Item) (tail : Nat) (room : count < len) (x : Item) :
    contents (Function.update cells ((tail + count) % len) x) tail len (count + 1) =
      contents cells tail len count ++ [x] := by
  have kept : ∀ k ∈ List.range count,
      Function.update cells ((tail + count) % len) x ((tail + k) % len) =
        cells ((tail + k) % len) := by
    intro k member
    exact Function.update_of_ne (index_ne (List.mem_range.mp member) room) _ _
  simp only [contents, List.range_succ, List.map_append, List.map_cons, List.map_nil,
    Function.update_self]
  rw [List.map_congr_left kept]

/-- Cells outside the held ones do not matter. -/
theorem contents_congr {first second : Nat → Item}
    (same : ∀ k < count, first ((tail + k) % len) = second ((tail + k) % len)) :
    contents first tail len count = contents second tail len count :=
  List.map_congr_left fun k member => same k (List.mem_range.mp member)

/-- Removing the oldest cell advances the tail. -/
theorem contents_pop (cells : Nat → Item) (tail len count : Nat) :
    contents cells tail len (count + 1) =
      cells (tail % len) :: contents cells ((tail + 1) % len) len count := by
  simp only [contents, List.range_succ_eq_map, List.map_cons, List.map_map, Nat.add_zero,
    List.cons.injEq, true_and]
  apply List.map_congr_left
  intro k _
  have next : (tail + (k + 1)) % len = ((tail + 1) % len + k) % len := by
    rw [Nat.mod_add_mod]
    congr 1
    omega
  simp [next]

/-- Masking with a power of two less one is reduction modulo the power. -/
theorem mask_eq_mod (k i : Nat) : i &&& (2 ^ k - 1) = i % 2 ^ k :=
  Nat.and_two_pow_sub_one_eq_mod i k

/-- Or-ing in shifts by 1, 2, 4 and so on spreads each bit over those below it. -/
theorem testBit_spread (k m i : Nat) :
    ((List.range k).foldl (fun mask j => mask ||| mask >>> 2 ^ j) m).testBit i = true ↔
      ∃ d < 2 ^ k, m.testBit (i + d) = true := by
  induction k generalizing i with
  | zero => simp
  | succ k ih =>
    rw [List.range_succ, List.foldl_append, List.foldl_cons, List.foldl_nil, Nat.testBit_or,
      Nat.testBit_shiftRight, Bool.or_eq_true, ih, ih]
    constructor
    · rintro (⟨d, less, found⟩ | ⟨d, less, found⟩)
      · exact ⟨d, by rw [Nat.pow_succ]; omega, found⟩
      · exact ⟨2 ^ k + d, by rw [Nat.pow_succ]; omega, by
          rwa [Nat.add_comm (2 ^ k) i, Nat.add_assoc] at found⟩
    · rintro ⟨d, less, found⟩
      rw [Nat.pow_succ] at less
      rcases Nat.lt_or_ge d (2 ^ k) with small | big
      · exact .inl ⟨d, small, found⟩
      · refine .inr ⟨d - 2 ^ k, by omega, ?_⟩
        rwa [Nat.add_comm (2 ^ k) i, Nat.add_assoc, Nat.add_sub_cancel' big]

/-- Spread over all the bits of a word, the highest bit leaves one less than a power of two. -/
theorem spread_eq {n : Nat} (small : n < 2 ^ 2 ^ k) :
    (List.range k).foldl (fun mask j => mask ||| mask >>> 2 ^ j) n = 2 ^ Nat.clog 2 (n + 1) - 1 := by
  apply Nat.eq_of_testBit_eq
  intro i
  rw [Bool.eq_iff_iff, testBit_spread, Nat.testBit_two_pow_sub_one, decide_eq_true_iff,
    Nat.lt_clog_iff_pow_lt (by omega), Nat.lt_succ_iff]
  constructor
  · rintro ⟨d, _, found⟩
    have below : 2 ^ i ≤ 2 ^ (i + d) := Nat.pow_le_pow_right (by omega) (Nat.le_add_right ..)
    exact Nat.le_trans below (Nat.ge_two_pow_of_testBit found)
  · intro large
    obtain ⟨j, above, found⟩ := Nat.exists_ge_and_testBit_of_ge_two_pow large
    have inside : j < 2 ^ k := by
      by_contra outside
      have power : 2 ^ 2 ^ k ≤ 2 ^ j := Nat.pow_le_pow_right (by omega) (by omega)
      have top := Nat.ge_two_pow_of_testBit found
      omega
    exact ⟨j - i, by omega, by rwa [Nat.add_sub_cancel' above]⟩

end Quickshare.Ring
