import Mathlib.Data.List.Basic
import Mathlib.Tactic.Common

/-! Path names. A path is split at its separators and walked component by
component; empty components and single dots stay, and what a name or a double
dot leads to is up to the file system, so links are covered. -/

namespace Quickshare.Paths

universe u

variable {Symbol : Type} [DecidableEq Symbol]

/-- The components of a path, empty ones included. -/
def split (separator : Symbol) : List Symbol → List (List Symbol)
  | [] => [[]]
  | x :: rest =>
    if x = separator then [] :: split separator rest
    else match split separator rest with
      | [] => [[x]]
      | first :: others => (x :: first) :: others

theorem split_ne_nil (separator : Symbol) (path : List Symbol) : split separator path ≠ [] := by
  cases path with
  | nil => simp [split]
  | cons x rest =>
    simp only [split]
    split
    · simp
    · split <;> simp

/-- The components of two paths joined by a separator. -/
theorem split_append (separator : Symbol) (first second : List Symbol) :
    split separator (first ++ separator :: second) =
      split separator first ++ split separator second := by
  induction first with
  | nil => simp [split]
  | cons x rest ih =>
    simp only [List.cons_append, split]
    split
    · rw [ih, List.cons_append]
    · rw [ih]
      cases parts : split separator rest with
      | nil => exact absurd parts (split_ne_nil separator rest)
      | cons head others => rfl

/-- Directories and what a component leads to. -/
structure FileSystem (Symbol : Type) where
  Dir : Type
  root : Dir
  child : Dir → List Symbol → Option Dir
  parent : Dir → Dir

/-- The symbols a path gives a meaning of its own. -/
structure Syntax (Symbol : Type) where
  separator : Symbol
  dot : Symbol
  apart : dot ≠ separator

variable (syn : Syntax Symbol)

/-- Components that stay in their directory. -/
def Syntax.stays (component : List Symbol) : Prop := component = [] ∨ component = [syn.dot]

/-- Components that can name an entry of their directory. -/
def Syntax.isEntry (component : List Symbol) : Prop :=
  ¬ syn.stays component ∧ component ≠ [syn.dot, syn.dot]

instance (component : List Symbol) : Decidable (syn.stays component) :=
  inferInstanceAs (Decidable (_ ∨ _))

instance (component : List Symbol) : Decidable (syn.isEntry component) :=
  inferInstanceAs (Decidable (_ ∧ _))

namespace FileSystem

variable (fs : FileSystem Symbol)

def enter (d : fs.Dir) (component : List Symbol) : Option fs.Dir :=
  if syn.stays component then some d
  else if component = [syn.dot, syn.dot] then some (fs.parent d)
  else fs.child d component

def walk (d : fs.Dir) (components : List (List Symbol)) : Option fs.Dir :=
  components.foldlM (fs.enter syn) d

/-- The directory an absolute path leads to. -/
def directory (path : List Symbol) : Option fs.Dir :=
  fs.walk syn fs.root (split syn.separator path)

/-- The directory that holds the entry a path names, and the entry's name. -/
def resolve (path : List Symbol) : Option (fs.Dir × List Symbol) :=
  let components := split syn.separator path
  (fs.walk syn fs.root components.dropLast).map (·, components.getLastD [])

end FileSystem

/-- Wherever `directory` exists, the path names an entry right in it. -/
def DirectlyInside (directory path : List Symbol) : Prop :=
  ∀ (fs : FileSystem Symbol) (d : fs.Dir), fs.directory syn directory = some d →
    ∃ name, syn.isEntry name ∧ fs.resolve syn path = some (d, name)

/-- The last component names an entry and those before it stay. -/
def PlainName (name : List Symbol) : Prop :=
  (∀ component ∈ (split syn.separator name).dropLast, syn.stays component) ∧
    syn.isEntry ((split syn.separator name).getLastD [])

instance (name : List Symbol) : Decidable (PlainName syn name) :=
  inferInstanceAs (Decidable (_ ∧ _))

variable {syn} {directory name : List Symbol}

theorem FileSystem.walk_cons (fs : FileSystem Symbol) (d : fs.Dir) (first : List Symbol)
    (rest : List (List Symbol)) :
    fs.walk syn d (first :: rest) = (fs.enter syn d first).bind fun e => fs.walk syn e rest := by
  rw [walk, List.foldlM_cons]
  rfl

theorem FileSystem.walk_stays (fs : FileSystem Symbol) (d : fs.Dir)
    {components : List (List Symbol)} (stays : ∀ component ∈ components, syn.stays component) :
    fs.walk syn d components = some d := by
  induction components with
  | nil => rfl
  | cons first rest ih =>
    have here : fs.enter syn d first = some d := if_pos (stays first (List.mem_cons_self ..))
    rw [walk_cons, here]
    exact ih fun component member => stays component (List.mem_cons_of_mem _ member)

/-- What a path below a directory resolves to. -/
theorem FileSystem.resolve_below (fs : FileSystem Symbol) {d : fs.Dir}
    (found : fs.directory syn directory = some d) :
    fs.resolve syn (directory ++ syn.separator :: name) =
      (fs.walk syn d (split syn.separator name).dropLast).map
        (·, (split syn.separator name).getLastD []) := by
  have some : split syn.separator name ≠ [] := split_ne_nil _ _
  simp only [resolve, split_append, List.dropLast_append_of_ne_nil some]
  have walked : fs.walk syn fs.root (split syn.separator directory ++
      (split syn.separator name).dropLast) =
        fs.walk syn d (split syn.separator name).dropLast := by
    rw [walk, List.foldlM_append]
    have front : List.foldlM (fs.enter syn) fs.root (split syn.separator directory) = .some d := found
    rw [front]
    rfl
  rw [walked, List.getLastD_eq_getLast?, List.getLastD_eq_getLast?, List.getLast?_append_of_ne_nil _ some]

/-- A file system in which every component that moves leads one level on. -/
abbrev FileSystem.counting (Symbol : Type) : FileSystem Symbol where
  Dir := Nat
  root := 0
  child d _ := some (d + 1)
  parent d := d + 1

theorem FileSystem.counting_enter (d : Nat) (component : List Symbol) :
    (counting Symbol).enter syn d component = if syn.stays component then some d else some (d + 1) := by
  unfold enter
  split
  · rfl
  · split <;> rfl

theorem FileSystem.counting_walk (d : Nat) (components : List (List Symbol)) :
    (counting Symbol).walk syn d components =
      some (d + components.countP fun component => ¬ syn.stays component) := by
  induction components generalizing d with
  | nil => rfl
  | cons first rest ih =>
    rw [walk_cons, counting_enter, List.countP_cons]
    by_cases stays : syn.stays first
    · simp only [stays, if_true, not_true_eq_false, decide_false, Bool.false_eq_true, if_false]
      exact ih d
    · simp only [stays, if_false, not_false_eq_true, decide_true, if_true]
      refine (ih (d + 1)).trans ?_
      congr 1
      exact Nat.add_right_comm d 1 _

/-- A name appended to a directory names an entry right in it exactly if it is plain. -/
theorem directlyInside_iff :
    DirectlyInside syn directory (directory ++ syn.separator :: name) ↔ PlainName syn name := by
  constructor
  · intro inside
    have found : (FileSystem.counting Symbol).directory syn directory = some _ :=
      FileSystem.counting_walk 0 (split syn.separator directory)
    obtain ⟨entry, named, resolved⟩ := inside (.counting Symbol) _ found
    rw [FileSystem.resolve_below _ found, FileSystem.counting_walk] at resolved
    obtain ⟨level, last⟩ := Prod.mk.inj (Option.some.inj resolved)
    refine ⟨?_, last ▸ named⟩
    intro component member
    have none : ((split syn.separator name).dropLast.countP
        fun component => ¬ syn.stays component) = 0 := by
      exact Nat.add_left_cancel (level.trans (Nat.add_zero _).symm)
    simpa using List.countP_eq_zero.mp none component member
  · rintro ⟨stays, named⟩ fs d found
    refine ⟨_, named, ?_⟩
    rw [fs.resolve_below found, fs.walk_stays d stays]
    rfl

end Quickshare.Paths
