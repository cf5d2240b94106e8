import Quickshare.Lib.Runs

/-! Two computations side by side. They agree when both succeed with related
results or both fail with related faults; runs of steps that agree agree. -/

namespace Quickshare.Runs

universe u v w

/-- Both succeed with results in `post`, or both fail with faults in `fail`. -/
def Agree {First Second : Type u} {Fault : Type w} (post : First → Second → Prop)
    (fail : Fault → Fault → Prop) : Except Fault First → Except Fault Second → Prop
  | .ok x, .ok y => post x y
  | .error left, .error right => fail left right
  | _, _ => False

section

variable {First Second : Type u} {Fault : Type w} {post : First → Second → Prop}
variable {fail : Fault → Fault → Prop} {r : Except Fault First} {r' : Except Fault Second}

theorem Agree.bind {Result Other : Type u} {last : Result → Other → Prop}
    {next : First → Except Fault Result} {next' : Second → Except Fault Other}
    (both : Agree post fail r r') (after : ∀ x y, post x y → Agree last fail (next x) (next' y)) :
    Agree last fail (r.bind next) (r'.bind next') := by
  cases r with
  | ok x =>
    cases r' with
    | ok y => exact after x y both
    | error right => cases both
  | error left =>
    cases r' with
    | ok y => cases both
    | error right => exact both

theorem Agree.mono {last : First → Second → Prop} (both : Agree post fail r r')
    (weaker : ∀ x y, r = .ok x → r' = .ok y → post x y → last x y) : Agree last fail r r' := by
  cases r with
  | ok x =>
    cases r' with
    | ok y => exact weaker x y rfl rfl both
    | error right => cases both
  | error left =>
    cases r' with
    | ok y => cases both
    | error right => exact both

theorem Agree.mono_fail {lost : Fault → Fault → Prop} (both : Agree post fail r r')
    (weaker : ∀ left right, fail left right → lost left right) : Agree post lost r r' := by
  cases r with
  | ok x =>
    cases r' with
    | ok y => exact both
    | error right => cases both
  | error left =>
    cases r' with
    | ok y => cases both
    | error right => exact weaker left right both

/-- Computations that agree succeed together. -/
theorem Agree.ok {x : First} (both : Agree post fail r r') (done : r = .ok x) :
    ∃ y, r' = .ok y ∧ post x y := by
  subst done
  cases r' with
  | ok y => exact ⟨y, rfl, both⟩
  | error right => cases both

end

section Run

variable {State : Type u} {Event : Type v} {Fault : Type w}
variable {step : State → Event → Except Fault State} {meets : State → Event → Prop}
variable {same : State → State → Prop} {fail : Fault → Fault → Prop} {events : List Event}

/-- Steps that keep states related as long as the guard is met keep runs related. -/
theorem Guarded.agree (guarded : Guarded step meets s events) (start : same s t)
    (keep : ∀ s t e, same s t → meets s e → Agree same fail (step s e) (step t e)) :
    Agree same fail (run step s events) (run step t events) := by
  induction events generalizing s t with
  | nil => exact start
  | cons e rest ih =>
    have both := keep s t e start guarded.1
    have later := guarded.2
    simp only [run]
    cases left : step s e with
    | ok u =>
      cases right : step t e with
      | ok v =>
        rw [left, right] at both
        exact ih (later u left) both
      | error fault =>
        rw [left, right] at both
        cases both
    | error fault =>
      cases right : step t e with
      | ok v =>
        rw [left, right] at both
        cases both
      | error other =>
        rw [left, right] at both
        exact both

end Run

end Quickshare.Runs
