import Promptbook.Action.Outcome

set_option autoImplicit false

/-!
# Timers

A timer adds up the time of the frames it is advanced by and is done as soon as the sum reaches its
duration, in the first frame already if the duration is zero.
-/

namespace Promptbook

/-- Waiting for a duration, some of which may have passed. -/
structure Timer where
  duration : Duration
  elapsed : Duration
  deriving DecidableEq, Inhabited

namespace Timer

/-- A timer of which nothing has passed. -/
def start (duration : Duration) : Timer := ⟨duration, .zero⟩

/-- Let the time of a frame pass. -/
def advance (t : Timer) (delta : Duration) : Outcome × Timer :=
  match t.elapsed.add? delta with
  | none => (.error .overflow, t)
  | some elapsed =>
    (.ok (if t.duration ≤ elapsed then .done else .running), { t with elapsed := elapsed })

/-- A timer is done exactly when the time that has passed reaches its duration. -/
theorem advance_eq_done_iff (t : Timer) (delta : Duration) :
    (t.advance delta).1 = .ok .done ↔
      t.elapsed.nanos + delta.nanos < Duration.bound ∧
        t.duration.nanos ≤ t.elapsed.nanos + delta.nanos := by
  unfold advance
  cases h : t.elapsed.add? delta with
  | none =>
    have := Duration.add?_eq_none_iff.1 h
    simp only [reduceCtorEq, false_iff, not_and]
    omega
  | some e =>
    have he := Duration.add?_eq_some_iff.1 h
    have hlt := e.nanos_lt
    simp only [Duration.le_iff, he]
    split <;> simp <;> omega

/-- A timer overflows exactly when the sum is beyond the bound. -/
theorem advance_eq_overflow_iff (t : Timer) (delta : Duration) :
    (t.advance delta).1 = .error .overflow ↔
      Duration.bound ≤ t.elapsed.nanos + delta.nanos := by
  rw [← Duration.add?_eq_none_iff]
  unfold advance
  cases t.elapsed.add? delta <;> simp

end Timer

end Promptbook
