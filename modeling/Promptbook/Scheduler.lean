import Promptbook.Action.Basic

set_option autoImplicit false

/-!
# Scheduling

A scheduler runs any number of actions side by side and advances each of them once per tick, in the
order in which they were spawned.  A task that is done or fails is removed; a failing task does not
keep the others from being advanced in the same tick.
-/

namespace Promptbook

/-- The tasks that are running, oldest first, and the number of the next one. -/
structure Scheduler (W κ : Type) where
  tasks : List (TaskId × Action W κ)
  nextNumber : Nat

/-- The result of advancing every task: the error of the first that failed, the tasks that are still
running and the world they leave. -/
structure Round (W κ : Type) where
  result : Except Fault Unit
  tasks : List (TaskId × Action W κ)
  world : W

/-- The result of a tick. -/
structure Tick (W κ : Type) where
  result : Except Fault Unit
  scheduler : Scheduler W κ
  world : W

namespace Scheduler

variable {W κ : Type}

/-- No tasks. -/
def empty : Scheduler W κ := ⟨[], 0⟩

instance : Inhabited (Scheduler W κ) := ⟨empty⟩

/-- Add an action, which is first advanced on the next tick. -/
def spawn (host : Host W κ) (action : Action W κ) (s : Scheduler W κ) (w : W) :
    TaskId × Scheduler W κ × W :=
  let id : TaskId := ⟨s.nextNumber⟩
  (id, ⟨s.tasks ++ [(id, action)], s.nextNumber + 1⟩, host.record (.spawned id) w)

/-- The first error of a round whose first task failed with `error`. -/
def firstError (error : RuntimeError) : Except Fault Unit → Except Fault Unit
  | .error .overflow => .error .overflow
  | _ => .error (.failed error)

/-- Advance every task once. -/
def advanceTasks (host : Host W κ) (frame : Frame) : List (TaskId × Action W κ) → W → Round W κ
  | [], w => ⟨.ok (), [], w⟩
  | (id, action) :: rest, w =>
    let s := action.advance host frame w
    match s.outcome with
    | .ok .running =>
      let r := advanceTasks host frame rest s.world
      ⟨r.result, (id, s.next) :: r.tasks, r.world⟩
    | .ok .done => advanceTasks host frame rest (host.record (.finished id) s.world)
    | .error (.failed error) =>
      let r := advanceTasks host frame rest (host.record (.failed id error) s.world)
      ⟨firstError error r.result, r.tasks, r.world⟩
    | .error .overflow => ⟨.error .overflow, (id, s.next) :: rest, s.world⟩

/-- One tick: advance every task once and remove those that are done or failed. -/
def tick (host : Host W κ) (frame : Frame) (s : Scheduler W κ) (w : W) :
    Tick W κ :=
  let r := advanceTasks host frame s.tasks w
  ⟨r.result, ⟨r.tasks, s.nextNumber⟩, r.world⟩

/-- Whether a task is running. -/
def isRunning (s : Scheduler W κ) (id : TaskId) : Bool := s.tasks.any fun t => t.1 == id

/-- Whether no task is running. -/
def isIdle (s : Scheduler W κ) : Bool := s.tasks.isEmpty

/-- How many tasks are running. -/
def size (s : Scheduler W κ) : Nat := s.tasks.length

end Scheduler

end Promptbook
