import Mathlib.Tactic.Common

/-! Runs of a state machine whose steps may fault. A claim over whole runs is a
property of every step taken (`Guarded`) or of every state passed
(`Throughout`); both follow from one invariant kept by each step. -/

namespace Quickshare.Runs

universe u v w
variable {State : Type u} {Event : Type v} {Fault : Type w}
variable {step : State → Event → Except Fault State}

theorem bind_bind {First Second Third : Type u} (r : Except Fault First)
    (f : First → Except Fault Second) (g : Second → Except Fault Third) :
    (r.bind f).bind g = r.bind fun x => (f x).bind g := by
  cases r <;> rfl

theorem bind_ok {First Second : Type u} {r : Except Fault First} {next : First → Except Fault Second}
    {last : Second} (done : (r >>= next) = .ok last) : ∃ x, r = .ok x ∧ next x = .ok last := by
  cases r with
  | ok x => exact ⟨x, rfl, done⟩
  | error fault => cases done

/-- How a computation that may fault ends: `post` where it succeeds, `fail` where not. -/
def Ends (post : State → Prop) (fail : Fault → Prop) : Except Fault State → Prop
  | .ok s => post s
  | .error fault => fail fault

theorem Ends.bind {Result : Type u} {r : Except Fault State} {next : State → Except Fault Result}
    {post : State → Prop} {last : Result → Prop} {fail : Fault → Prop} (first : Ends post fail r)
    (after : ∀ s, post s → Ends last fail (next s)) : Ends last fail (r.bind next) := by
  cases r with
  | ok s => exact after s first
  | error fault => exact first

theorem Ends.mono {r : Except Fault State} {post last : State → Prop} {fail lost : Fault → Prop}
    (ends : Ends post fail r) (weaker : ∀ s, r = .ok s → post s → last s)
    (failed : ∀ fault, fail fault → lost fault) : Ends last lost r := by
  cases r with
  | ok s => exact weaker s rfl ends
  | error fault => exact failed fault ends

theorem Ends.and {r : Except Fault State} {post last : State → Prop} {fail lost : Fault → Prop}
    (first : Ends post fail r) (second : Ends last lost r) :
    Ends (fun s => post s ∧ last s) (fun fault => fail fault ∧ lost fault) r := by
  cases r <;> exact ⟨first, second⟩

/-- Handle the events in order, stopping at the first fault. -/
def run (step : State → Event → Except Fault State) : State → List Event → Except Fault State
  | s, [] => .ok s
  | s, e :: rest => match step s e with
    | .ok t => run step t rest
    | .error fault => .error fault

/-- `meets` holds of every event at the state in which the run handles it. -/
def Guarded (step : State → Event → Except Fault State) (meets : State → Event → Prop) :
    State → List Event → Prop
  | _, [] => True
  | s, e :: rest => meets s e ∧ ∀ t, step s e = .ok t → Guarded step meets t rest

/-- `good` holds of every state the run passes, the first included. -/
def Throughout (step : State → Event → Except Fault State) (good : State → Prop) :
    State → List Event → Prop
  | s, [] => good s
  | s, e :: rest => good s ∧ ∀ t, step s e = .ok t → Throughout step good t rest

/-- A guard that can be decided at every step can be decided of a run. -/
instance Guarded.decidable {meets : State → Event → Prop} [∀ s e, Decidable (meets s e)] :
    (s : State) → (events : List Event) → Decidable (Guarded step meets s events)
  | _, [] => isTrue trivial
  | s, e :: rest =>
    match taken : step s e with
    | .ok t =>
      have : Decidable (Guarded step meets t rest) := Guarded.decidable t rest
      decidable_of_iff (meets s e ∧ Guarded step meets t rest)
        (and_congr_right fun _ => ⟨fun later u same => by
          cases taken.symm.trans same
          exact later, fun later => later t taken⟩)
    | .error _ =>
      decidable_of_iff (meets s e)
        ⟨fun held => ⟨held, fun t same => nomatch taken.symm.trans same⟩, And.left⟩

instance Throughout.decidable {good : State → Prop} [∀ s, Decidable (good s)] :
    (s : State) → (events : List Event) → Decidable (Throughout step good s events)
  | s, [] => inferInstanceAs (Decidable (good s))
  | s, e :: rest =>
    match taken : step s e with
    | .ok t =>
      have : Decidable (Throughout step good t rest) := Throughout.decidable t rest
      decidable_of_iff (good s ∧ Throughout step good t rest)
        (and_congr_right fun _ => ⟨fun later u same => by
          cases taken.symm.trans same
          exact later, fun later => later t taken⟩)
    | .error _ =>
      decidable_of_iff (good s)
        ⟨fun held => ⟨held, fun t same => nomatch taken.symm.trans same⟩, And.left⟩

theorem Guarded.single {meets : State → Event → Prop} {s : State} {e : Event} (here : meets s e) :
    Guarded step meets s [e] := ⟨here, fun _ _ => trivial⟩

theorem Guarded.and {first second : State → Event → Prop} {s : State} {events : List Event}
    (left : Guarded step first s events) (right : Guarded step second s events) :
    Guarded step (fun s e => first s e ∧ second s e) s events := by
  induction events generalizing s with
  | nil => trivial
  | cons e rest ih => exact ⟨⟨left.1, right.1⟩, fun t taken => ih (left.2 t taken) (right.2 t taken)⟩

/-- A property of every step taken anywhere is met along every run. -/
theorem Guarded.always {meets : State → Event → Prop} (all : ∀ s e, meets s e) (s : State)
    (events : List Event) : Guarded step meets s events := by
  induction events generalizing s with
  | nil => trivial
  | cons e rest ih => exact ⟨all s e, fun t _ => ih t⟩

/-- A stronger guard gives a weaker one. -/
theorem Guarded.mono {meets prop : State → Event → Prop} {s : State} {events : List Event}
    (guarded : Guarded step meets s events) (weaker : ∀ s e, meets s e → prop s e) :
    Guarded step prop s events := by
  induction events generalizing s with
  | nil => trivial
  | cons e rest ih => exact ⟨weaker s e guarded.1, fun t taken => ih (guarded.2 t taken)⟩

/-- Guards that agree everywhere agree on runs. -/
theorem guarded_congr {meets prop : State → Event → Prop} {s : State} {events : List Event}
    (same : ∀ s e, prop s e ↔ meets s e) :
    Guarded step prop s events ↔ Guarded step meets s events :=
  ⟨fun held => held.mono fun s e => (same s e).mp, fun held => held.mono fun s e => (same s e).mpr⟩

/-- A property of the events alone is met wherever they are handled. -/
theorem Guarded.of_events {meets : Event → Prop} {events : List Event}
    (all : ∀ e ∈ events, meets e) (s : State) : Guarded step (fun _ => meets) s events := by
  induction events generalizing s with
  | nil => trivial
  | cons e rest ih =>
    exact ⟨all e (List.mem_cons_self ..), fun t _ => ih (fun e member =>
      all e (List.mem_cons_of_mem _ member)) t⟩

theorem run_append (s : State) (first second : List Event) :
    run step s (first ++ second) = (run step s first).bind fun t => run step t second := by
  induction first generalizing s with
  | nil => rfl
  | cons e rest ih =>
    simp only [List.cons_append, run]
    cases step s e with
    | ok t => exact ih t
    | error fault => rfl

/-- A guard is met along two runs in a row. -/
theorem guarded_append {meets : State → Event → Prop} {s : State} {first second : List Event} :
    Guarded step meets s (first ++ second) ↔ Guarded step meets s first ∧
      ∀ t, run step s first = .ok t → Guarded step meets t second := by
  induction first generalizing s with
  | nil => exact ⟨fun held => ⟨trivial, fun t same => by cases same; exact held⟩, fun held => held.2 s rfl⟩
  | cons e rest ih =>
    simp only [List.cons_append, Guarded, run]
    cases step s e with
    | ok t => simp [ih, and_assoc]
    | error fault => simp

theorem run_cons_ok (reached : run step s (e :: rest) = .ok last) :
    ∃ t, step s e = .ok t ∧ run step t rest = .ok last := by
  cases taken : step s e with
  | ok t => exact ⟨t, rfl, by simpa [run, taken] using reached⟩
  | error fault => simp [run, taken] at reached

theorem run_singleton_error {fault : Fault} (failed : run step s [e] = .error fault) :
    step s e = .error fault := by
  cases taken : step s e with
  | ok t => simp [run, taken] at failed
  | error first => simpa [run, taken] using failed

section Invariant

variable {inv good : State → Prop} {meets prop : State → Event → Prop} {s last : State}
variable {events : List Event}

/-- An invariant kept by every step that meets the guard holds where the run ends. -/
theorem Guarded.invariant (guarded : Guarded step meets s events) (start : inv s)
    (keep : ∀ s e t, inv s → meets s e → step s e = .ok t → inv t)
    (reached : run step s events = .ok last) : inv last := by
  induction events generalizing s with
  | nil => cases reached; exact start
  | cons e rest ih =>
    obtain ⟨t, taken, remaining⟩ := run_cons_ok reached
    exact ih (guarded.2 t taken) (keep s e t start guarded.1 taken) remaining

/-- An invariant kept by every step needs no guard. -/
theorem run_invariant (start : inv s) (keep : ∀ s e t, inv s → step s e = .ok t → inv t)
    (reached : run step s events = .ok last) : inv last := by
  induction events generalizing s with
  | nil => cases reached; exact start
  | cons e rest ih =>
    obtain ⟨t, taken, remaining⟩ := run_cons_ok reached
    exact ih (keep s e t start taken) remaining

/-- What the guard and the invariant give at one step holds of every step. -/
theorem Guarded.transfer (guarded : Guarded step meets s events) (start : inv s)
    (keep : ∀ s e t, inv s → meets s e → step s e = .ok t → inv t)
    (use : ∀ s e, inv s → meets s e → prop s e) : Guarded step prop s events := by
  induction events generalizing s with
  | nil => trivial
  | cons e rest ih =>
    refine ⟨use s e start guarded.1, fun t taken => ?_⟩
    exact ih (guarded.2 t taken) (keep s e t start guarded.1 taken)

theorem Guarded.throughout (guarded : Guarded step meets s events) (start : inv s)
    (keep : ∀ s e t, inv s → meets s e → step s e = .ok t → inv t)
    (use : ∀ s, inv s → good s) : Throughout step good s events := by
  induction events generalizing s with
  | nil => exact use s start
  | cons e rest ih =>
    refine ⟨use s start, fun t taken => ?_⟩
    exact ih (guarded.2 t taken) (keep s e t start guarded.1 taken)

theorem Throughout.here (passed : Throughout step good s events) : good s := by
  cases events with
  | nil => exact passed
  | cons e rest => exact passed.1

theorem Throughout.mono {prop : State → Prop} (passed : Throughout step good s events)
    (weaker : ∀ s, good s → prop s) : Throughout step prop s events := by
  induction events generalizing s with
  | nil => exact weaker s passed
  | cons e rest ih => exact ⟨weaker s passed.1, fun t taken => ih (passed.2 t taken)⟩

theorem Throughout.final (passed : Throughout step good s events)
    (reached : run step s events = .ok last) : good last := by
  induction events generalizing s with
  | nil => cases reached; exact passed
  | cons e rest ih =>
    obtain ⟨t, taken, remaining⟩ := run_cons_ok reached
    exact ih (passed.2 t taken) remaining

/-- When a step that misses the guard reaches a bad state, passing only good
states is the same as meeting the guard at every step. -/
theorem throughout_iff_guarded (start : inv s)
    (keep : ∀ s e t, inv s → meets s e → step s e = .ok t → inv t)
    (use : ∀ s, inv s → good s)
    (miss : ∀ s e, inv s → ¬ meets s e → ∃ t, step s e = .ok t ∧ ¬ good t) :
    Throughout step good s events ↔ Guarded step meets s events := by
  constructor
  · intro passed
    induction events generalizing s with
    | nil => trivial
    | cons e rest ih =>
      have met : meets s e := by
        by_contra missed
        obtain ⟨t, taken, bad⟩ := miss s e start missed
        exact bad (passed.2 t taken).here
      exact ⟨met, fun t taken => ih (keep s e t start met taken) (passed.2 t taken)⟩
  · exact fun guarded => guarded.throughout start keep use

/-- Step properties that agree wherever the invariant holds agree on runs. -/
theorem guarded_iff_guarded (start : inv s)
    (keep : ∀ s e t, inv s → meets s e → step s e = .ok t → inv t)
    (same : ∀ s e, inv s → (prop s e ↔ meets s e)) :
    Guarded step prop s events ↔ Guarded step meets s events := by
  constructor
  · intro held
    induction events generalizing s with
    | nil => trivial
    | cons e rest ih =>
      have met := (same s e start).mp held.1
      exact ⟨met, fun t taken => ih (keep s e t start met taken) (held.2 t taken)⟩
  · exact fun guarded => guarded.transfer start keep fun s e held met => (same s e held).mpr met

/-- Step properties that agree wherever the invariant and an assumption hold
agree on the runs whose events all meet the assumption. -/
theorem guarded_iff_of_assumed {assumed : State → Event → Prop}
    (given : Guarded step assumed s events) (start : inv s)
    (keep : ∀ s e t, inv s → assumed s e → step s e = .ok t → inv t)
    (same : ∀ s e, inv s → assumed s e → (prop s e ↔ meets s e)) :
    Guarded step prop s events ↔ Guarded step meets s events := by
  induction events generalizing s with
  | nil => exact Iff.rfl
  | cons e rest ih =>
    refine and_congr (same s e start given.1) (forall_congr' fun t => forall_congr' fun taken => ?_)
    exact ih (given.2 t taken) (keep s e t start given.1 taken)

/-- A run that faults does so at a step that meets the guard. -/
theorem Guarded.at_fault {fault : Fault} (guarded : Guarded step meets s events)
    (failed : run step s events = .error fault) : ∃ t e, meets t e ∧ step t e = .error fault := by
  induction events generalizing s with
  | nil => cases failed
  | cons e rest ih =>
    cases taken : step s e with
    | ok t => exact ih (guarded.2 t taken) (by simpa [run, taken] using failed)
    | error first =>
      have same : first = fault := by simpa [run, taken] using failed
      exact ⟨s, e, guarded.1, same ▸ taken⟩

/-- The guard at a step can be read off the run that leads to it. -/
theorem Guarded.at {t : State} (guarded : Guarded step meets s (events ++ e :: rest))
    (reached : run step s events = .ok t) : meets t e := by
  induction events generalizing s with
  | nil => cases reached; exact guarded.1
  | cons first others ih =>
    obtain ⟨next, taken, remaining⟩ := run_cons_ok reached
    exact ih (guarded.2 next taken) remaining

end Invariant

end Quickshare.Runs
