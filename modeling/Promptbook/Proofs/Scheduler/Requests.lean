import Promptbook.Scheduler

set_option autoImplicit false

/-!
# Requests

A scheduler is asked to spawn actions and to tick, in any order and any number of times.  `services`
lists what each request comes to, and `after` is where all of them lead.
-/

namespace Promptbook

/-- What a scheduler can be asked for. -/
inductive Request (W κ : Type) where
  | spawn (action : Action W κ)
  | tick (frame : Frame)

/-- What a scheduler answers. -/
inductive Answer where
  | spawned (id : TaskId)
  | ticked (result : Except Fault Unit)

/-- Whether a sum of durations has overflowed. -/
def overflowed {α : Type} : Except Fault α → Bool
  | .error .overflow => true
  | .error (.failed _) | .ok _ => false

theorem overflowed_iff {α : Type} {r : Except Fault α} :
    overflowed r = true ↔ r = .error .overflow := by
  cases r with
  | ok a => simp [overflowed]
  | error fault => cases fault <;> simp [overflowed]

instance {α : Type} (r : Except Fault α) : Decidable (r = .error .overflow) :=
  decidable_of_iff (overflowed r = true) overflowed_iff

instance : (a : Answer) → Decidable (a = .ticked (.error .overflow))
  | .spawned _ => .isFalse nofun
  | .ticked r => decidable_of_iff (r = .error .overflow) ⟨congrArg _, Answer.ticked.inj⟩

/-- The answer to a request, with the scheduler and the world after it. -/
structure Service (W κ : Type) where
  answer : Answer
  scheduler : Scheduler W κ
  world : W

namespace Request

variable {W κ : Type}

/-- How many actions are spawned. -/
def spawns : List (Request W κ) → Nat
  | [] => 0
  | .spawn _ :: rest => spawns rest + 1
  | .tick _ :: rest => spawns rest

/-- The frames of the ticks. -/
def frames : List (Request W κ) → List Frame
  | [] => []
  | .spawn _ :: rest => frames rest
  | .tick frame :: rest => frame :: frames rest

end Request

namespace Scheduler

variable {W κ : Type}

/-- What a request comes to. -/
def serve (host : Host W κ) (s : Scheduler W κ) (w : W) : Request W κ → Service W κ
  | .spawn action =>
    let (id, s, w) := s.spawn host action w
    ⟨.spawned id, s, w⟩
  | .tick frame =>
    let t := s.tick host frame w
    ⟨.ticked t.result, t.scheduler, t.world⟩

/-- What one request after the other comes to. -/
def services (host : Host W κ) (s : Scheduler W κ) : List (Request W κ) → W → List (Service W κ)
  | [], _ => []
  | r :: rest, w =>
    let v := s.serve host w r
    v :: services host v.scheduler rest v.world

/-- Where a scheduler and its world are after all requests. -/
def after (host : Host W κ) (s : Scheduler W κ) : List (Request W κ) → W → Scheduler W κ × W
  | [], w => (s, w)
  | r :: rest, w =>
    let v := s.serve host w r
    after host v.scheduler rest v.world

theorem after_append (host : Host W κ) (requests more : List (Request W κ)) (s : Scheduler W κ)
    (w : W) : s.after host (requests ++ more) w =
      (s.after host requests w).1.after host more (s.after host requests w).2 := by
  induction requests generalizing s w with
  | nil => rfl
  | cons r rest ih => exact ih _ _

/-- No sum of durations overflows in a tick. -/
def Undisturbed (host : Host W κ) (s : Scheduler W κ) (requests : List (Request W κ)) (w : W) :
    Prop :=
  ∀ v ∈ s.services host requests w, v.answer ≠ .ticked (.error .overflow)

instance (host : Host W κ) (s : Scheduler W κ) (requests : List (Request W κ)) (w : W) :
    Decidable (s.Undisturbed host requests w) :=
  inferInstanceAs (Decidable (∀ v ∈ s.services host requests w, _))

end Scheduler

end Promptbook
