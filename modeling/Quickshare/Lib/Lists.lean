import Mathlib.Data.List.Basic
import Mathlib.Data.List.Nodup
import Mathlib.Tactic.Common

/-! The members of a list picked by a list of flags, counts, and lists kept up to date by
single insertions and removals. -/

namespace Quickshare.Lists

universe u v
variable {Item : Type u}

/-- The members whose flag is set. -/
def picked : List Item → List Bool → List Item
  | x :: xs, flag :: flags => if flag then x :: picked xs flags else picked xs flags
  | _, _ => []

variable {xs ys : List Item} {flags more : List Bool}

theorem picked_length_le (xs : List Item) (flags : List Bool) :
    (picked xs flags).length ≤ xs.length := by
  induction xs generalizing flags with
  | nil => simp [picked]
  | cons x rest ih =>
    cases flags with
    | nil => simp [picked]
    | cons flag flags =>
      have shorter := ih flags
      cases flag <;> simp [picked] <;> omega

theorem picked_append (same : xs.length = flags.length) :
    picked (xs ++ ys) (flags ++ more) = picked xs flags ++ picked ys more := by
  induction xs generalizing flags with
  | nil =>
    have empty : flags = [] := List.length_eq_zero_iff.mp same.symm
    simp [empty, picked]
  | cons x rest ih =>
    cases flags with
    | nil => simp at same
    | cons flag flags =>
      have later := ih (show rest.length = flags.length by simpa using same)
      cases flag <;> simp [picked, later]

/-- Nothing is missing exactly if every flag is set. -/
theorem picked_length_eq_iff (same : xs.length = flags.length) :
    (picked xs flags).length = xs.length ↔ ∀ flag ∈ flags, flag = true := by
  induction xs generalizing flags with
  | nil =>
    have empty : flags = [] := List.length_eq_zero_iff.mp same.symm
    simp [empty, picked]
  | cons x rest ih =>
    cases flags with
    | nil => simp at same
    | cons flag flags =>
      have later := ih (show rest.length = flags.length by simpa using same)
      have shorter := picked_length_le rest flags
      cases flag with
      | true => simpa [picked] using later
      | false =>
        simp [picked]
        omega

theorem picked_all (same : xs.length = flags.length) (all : ∀ flag ∈ flags, flag = true) :
    picked xs flags = xs := by
  induction xs generalizing flags with
  | nil => simp [picked]
  | cons x rest ih =>
    cases flags with
    | nil => simp at same
    | cons flag flags =>
      have set := all flag (List.mem_cons_self ..)
      have later := ih (show rest.length = flags.length by simpa using same)
        fun flag member => all flag (List.mem_cons_of_mem _ member)
      simp [picked, set, later]

theorem mem_dropLast_append {x : Item} (member : x ∈ xs.dropLast) : x ∈ (xs ++ ys).dropLast := by
  cases ys with
  | nil => simpa using member
  | cons y rest =>
    rw [List.dropLast_append_cons]
    exact List.mem_append_left _ (List.dropLast_subset xs member)

/-- Of distinct members a prefix that misses at most one is picked exactly if
every flag but the last is set. -/
theorem picked_prefix_iff (distinct : xs.Nodup) (same : xs.length = flags.length) :
    (picked xs flags <+: xs ∧ xs.length ≤ (picked xs flags).length + 1) ↔
      ∀ flag ∈ flags.dropLast, flag = true := by
  induction xs generalizing flags with
  | nil =>
    have empty : flags = [] := List.length_eq_zero_iff.mp same.symm
    simp [empty, picked]
  | cons x rest ih =>
    cases flags with
    | nil => simp at same
    | cons flag flags =>
      have lengths : rest.length = flags.length := by simpa using same
      obtain ⟨fresh, distinct⟩ := List.nodup_cons.mp distinct
      cases flag with
      | true =>
        have later := ih distinct lengths
        cases flags with
        | nil =>
          have empty : rest = [] := List.length_eq_zero_iff.mp lengths
          simp [empty, picked]
        | cons next others => simpa [picked, List.prefix_cons_inj] using later
      | false =>
        have shorter := picked_length_le rest flags
        constructor
        · rintro ⟨front, enough⟩
          -- everything after the unset flag is picked, so nothing can come after it
          have full : (picked rest flags).length = rest.length := by
            simp [picked] at enough
            omega
          have whole := picked_all lengths ((picked_length_eq_iff lengths).mp full)
          cases rest with
          | nil =>
            have empty : flags = [] := List.length_eq_zero_iff.mp lengths.symm
            simp [empty]
          | cons y others =>
            simp only [picked, Bool.false_eq_true, if_false, whole] at front
            have first : y = x := (List.cons_prefix_cons.mp front).1
            exact absurd (first ▸ List.mem_cons_self ..) fresh
        · intro set
          cases flags with
          | nil =>
            have empty : rest = [] := List.length_eq_zero_iff.mp lengths
            simp [empty, picked]
          | cons next others =>
            have unset := set false (by simp)
            cases unset

/-- Distinct members, each repeated as often as it says. -/
theorem count_repeated [DecidableEq Item] (distinct : xs.Nodup) (times : Item → Nat) (x : Item) :
    (xs.flatMap fun y => List.replicate (times y) y).count x = if x ∈ xs then times x else 0 := by
  induction xs with
  | nil => simp
  | cons first rest ih =>
    obtain ⟨new, distinct⟩ := List.nodup_cons.mp distinct
    rw [List.flatMap_cons, List.count_append, ih distinct, List.count_replicate]
    by_cases here : first = x
    · subst here
      simp [new]
    · simp [here, Ne.symm here]

/-- A member that passes the filter is left once. -/
theorem count_filter [DecidableEq Item] {x : Item} (distinct : xs.Nodup) (listed : x ∈ xs)
    (keep : Item → Bool) : (xs.filter keep).count x = if keep x then 1 else 0 := by
  rw [(distinct.filter keep).count]
  simp [listed]

/-- One more member passes the filter. -/
theorem filter_insert [DecidableEq Item] {x : Item} {keep : Item → Bool} (distinct : xs.Nodup)
    (listed : x ∈ xs) (new : keep x = false) :
    (xs.filter fun y => keep y || decide (y = x)).Perm (xs.filter keep ++ [x]) := by
  induction xs with
  | nil => cases listed
  | cons first rest ih =>
    obtain ⟨once, distinct⟩ := List.nodup_cons.mp distinct
    by_cases here : first = x
    · subst here
      have same : (rest.filter fun y => keep y || decide (y = first)) = rest.filter keep :=
        List.filter_congr fun y member => by
          have other : y ≠ first := fun same => once (same ▸ member)
          simp [other]
      have front : ((first :: rest).filter fun y => keep y || decide (y = first)) =
          first :: rest.filter keep := by simp [same]
      have back : (first :: rest).filter keep = rest.filter keep := by simp [new]
      rw [front, back]
      exact (List.perm_append_singleton first _).symm
    · have later := ih distinct ((List.mem_cons.mp listed).resolve_left (Ne.symm here))
      cases kept : keep first with
      | true => simpa [kept] using later.cons first
      | false => simpa [kept, here] using later

/-- The value of a single member is removed. -/
theorem eraseP_map {Value : Type v} [DecidableEq Item] {x : Item} (value : Item → Value)
    (gone : Value → Bool) (distinct : xs.Nodup)
    (only : ∀ y ∈ xs, gone (value y) = true ↔ y = x) :
    (xs.map value).eraseP gone = (xs.filter fun y => decide (y ≠ x)).map value := by
  induction xs with
  | nil => rfl
  | cons first rest ih =>
    obtain ⟨once, distinct⟩ := List.nodup_cons.mp distinct
    have here := only first (List.mem_cons_self ..)
    by_cases same : first = x
    · subst same
      have all : (rest.filter fun y => decide (y ≠ first)) = rest :=
        List.filter_eq_self.mpr fun y member =>
          decide_eq_true fun same => once (same ▸ member)
      rw [List.filter_cons_of_neg (by simp), all, List.map_cons,
        List.eraseP_cons_of_pos (here.mpr rfl)]
    · have later := ih distinct fun y member => only y (List.mem_cons_of_mem _ member)
      have kept : gone (value first) = false := by simpa [same] using here
      simp [kept, same, later]

end Quickshare.Lists
