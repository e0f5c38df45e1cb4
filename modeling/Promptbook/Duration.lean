set_option autoImplicit false

/-!
# Durations

A duration is a whole number of nanoseconds below 2⁶⁴ seconds.  Addition is checked: a sum beyond
the bound does not exist.  Subtraction stops at zero and is only used where the subtrahend is not
larger.
-/

namespace Promptbook

/-- Nanoseconds in a second. -/
def nanosPerSecond : Nat := 1000000000

/-- All durations are shorter than this many nanoseconds. -/
def Duration.bound : Nat := UInt64.size * nanosPerSecond

/-- A span of time in whole nanoseconds. -/
structure Duration where
  nanos : Nat
  nanos_lt : nanos < Duration.bound
  deriving DecidableEq

namespace Duration

/-- No time at all. -/
def zero : Duration := ⟨0, by decide⟩

instance : Inhabited Duration := ⟨zero⟩

/-- The duration of that many nanoseconds, if it is below the bound. -/
def ofNanos? (n : Nat) : Option Duration :=
  if h : n < bound then some ⟨n, h⟩ else none

/-- That many milliseconds. -/
def ofMillis (n : Nat) (h : n * 1000000 < bound := by decide) : Duration := ⟨n * 1000000, h⟩

/-- The sum, if it is below the bound. -/
def add? (a b : Duration) : Option Duration := ofNanos? (a.nanos + b.nanos)

/-- The difference, or zero if `b` is longer. -/
def sub (a b : Duration) : Duration :=
  ⟨a.nanos - b.nanos, Nat.lt_of_le_of_lt (Nat.sub_le _ _) a.nanos_lt⟩

instance : LE Duration := ⟨fun a b => a.nanos ≤ b.nanos⟩

instance (a b : Duration) : Decidable (a ≤ b) := inferInstanceAs (Decidable (a.nanos ≤ b.nanos))

/-- Whole seconds of a duration. -/
def seconds (d : Duration) : Nat := d.nanos / nanosPerSecond

/-- Nanoseconds of a duration beyond its whole seconds. -/
def subsecond (d : Duration) : Nat := d.nanos % nanosPerSecond

/-! ## Laws -/

theorem le_iff {a b : Duration} : a ≤ b ↔ a.nanos ≤ b.nanos := Iff.rfl

theorem ext_nanos {a b : Duration} (h : a.nanos = b.nanos) : a = b := by
  cases a
  cases b
  simpa using h

@[simp]
theorem nanos_zero : zero.nanos = 0 := rfl

@[simp]
theorem nanos_sub (a b : Duration) : (a.sub b).nanos = a.nanos - b.nanos := rfl

theorem ofNanos?_eq_some_iff {n : Nat} {d : Duration} : ofNanos? n = some d ↔ d.nanos = n := by
  unfold ofNanos?
  split
  · next h =>
    rw [Option.some.injEq]
    exact ⟨fun e => e ▸ rfl, fun e => ext_nanos e.symm⟩
  · next h =>
    simp only [reduceCtorEq, false_iff]
    intro e
    exact h (e ▸ d.nanos_lt)

/-- A sum exists exactly when it is below the bound. -/
theorem add?_eq_some_iff {a b c : Duration} : a.add? b = some c ↔ c.nanos = a.nanos + b.nanos :=
  ofNanos?_eq_some_iff

theorem add?_eq_none_iff {a b : Duration} : a.add? b = none ↔ bound ≤ a.nanos + b.nanos := by
  unfold add? ofNanos?
  split <;> simp <;> omega

theorem seconds_add_subsecond (d : Duration) :
    d.seconds * nanosPerSecond + d.subsecond = d.nanos := by
  simp only [seconds, subsecond]
  exact Nat.div_add_mod' d.nanos nanosPerSecond

end Duration

end Promptbook
