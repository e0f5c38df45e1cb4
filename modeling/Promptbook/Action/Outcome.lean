import Promptbook.Frame
import Promptbook.Script.Fault

set_option autoImplicit false

/-!
# Outcomes

Advancing an action by one frame either makes progress or fails.  An action that fails keeps a state
all the same and can be advanced again; only a sum of durations beyond their bound ends everything.
-/

namespace Promptbook

/-- Why an action failed, or why a script could not be started. -/
inductive RuntimeError where
  /-- A choice bubble finished although nothing was selected. -/
  | noSelection
  /-- The selected index has no branch. -/
  | invalidSelection (index numChoices : Nat)
  | invalidScript (cause : Script.ParseError)
  deriving DecidableEq, Inhabited

/-- The text of an error. -/
def RuntimeError.message : RuntimeError → String
  | noSelection => "choice prompt finished without a selection being made"
  | invalidSelection index numChoices =>
    "selected choice " ++ Nat.repr index ++ " is out of range for " ++ Nat.repr numChoices ++
      " choices"
  | invalidScript cause => "cannot run an invalid script: " ++ cause.message

/-- What stops an action: an error of its own, or a sum of durations beyond their bound. -/
inductive Fault where
  | failed (error : RuntimeError)
  | overflow
  deriving DecidableEq, Inhabited

/-- How far an action is after a frame. -/
abbrev Outcome := Except Fault Progress

/-- Whether an action has more to do. -/
def Outcome.isRunning : Outcome → Bool
  | .ok .running => true
  | _ => false

/-- The result of advancing something: the outcome, its next state and the world it leaves. -/
structure Step (σ W : Type) where
  outcome : Outcome
  next : σ
  world : W

namespace Step

variable {σ τ W : Type}

/-- The same step of a state that contains the one that was advanced. -/
def mapNext (f : σ → τ) (s : Step σ W) : Step τ W := ⟨s.outcome, f s.next, s.world⟩

@[simp]
theorem outcome_mapNext (f : σ → τ) (s : Step σ W) : (s.mapNext f).outcome = s.outcome := rfl

@[simp]
theorem next_mapNext (f : σ → τ) (s : Step σ W) : (s.mapNext f).next = f s.next := rfl

@[simp]
theorem world_mapNext (f : σ → τ) (s : Step σ W) : (s.mapNext f).world = s.world := rfl

end Step

end Promptbook
