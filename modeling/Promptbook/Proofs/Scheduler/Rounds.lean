import Promptbook.Proofs.Action.Appearance
import Promptbook.Proofs.Scheduler.Requests

set_option autoImplicit false

/-!
# Rounds

All that a tick can do, said once: `Rounds` takes the tasks in their order, with one appearance for
each, and `Runs` takes one request after the other.  Unless a sum of durations overflows, every tick
is a round (`rounds_advanceTasks`) and every list of requests is a run (`runs_after`), and the
appearances are those that are written down when every task is played under its id.

`Sweeps` is what a tick can do in any case: after an overflow the tasks that are left do not appear.
-/

namespace Promptbook

namespace Scheduler

variable {W κ : Type}

/-! ## Tasks under their ids -/

/-- A task whose action is played under its id. -/
def namedTask (task : TaskId × Action W κ) :
    TaskId × Action (Attended TaskId W) (κ ⊕ (TaskId × Action W κ)) :=
  (task.1, .named task.1 task.2)

/-- The scheduler with the same tasks, each of them played under its id. -/
def attended (s : Scheduler W κ) :
    Scheduler (Attended TaskId W) (κ ⊕ (TaskId × Action W κ)) :=
  ⟨s.tasks.map namedTask, s.nextNumber⟩

/-- The same requests, with every action to be played under the id that it will have; `n` is the
number of the next one. -/
def attendFrom (n : Nat) :
    List (Request W κ) → List (Request (Attended TaskId W) (κ ⊕ (TaskId × Action W κ)))
  | [] => []
  | .spawn action :: rest => .spawn (.named ⟨n⟩ action) :: attendFrom (n + 1) rest
  | .tick frame :: rest => .tick frame :: attendFrom n rest

/-! ## What a tick and a list of requests can do -/

/-- The world after a task was advanced, with a note if that was the end of it. -/
def noted (host : Host W κ) (id : TaskId) (s : Step (Action W κ) W) : W :=
  match s.outcome with
  | .ok .done => host.record (.finished id) s.world
  | .error (.failed error) => host.record (.failed id error) s.world
  | _ => s.world

/-- The task again, if it is running. -/
def kept (id : TaskId) (s : Step (Action W κ) W) : List (TaskId × Action W κ) :=
  if s.outcome.isRunning then [(id, s.next)] else []

/-- The result of a round in which a task comes before others. -/
def resultBefore (outcome : Outcome) (others : Except Fault Unit) : Except Fault Unit :=
  match outcome with
  | .ok _ => others
  | .error fault => .error fault

/-- A round: the tasks are advanced one after the other, each appears once, and those that are
running are kept. -/
inductive Rounds (host : Host W κ) (frame : Frame) :
    List (TaskId × Action W κ) → W → List (Appearance TaskId W) → Round W κ → Prop where
  | nil (w : W) : Rounds host frame [] w [] ⟨.ok (), [], w⟩
  | cons {id : TaskId} {action : Action W κ} {s : Step (Action W κ) W}
      {rest : List (TaskId × Action W κ)} {w : W} {as : List (Appearance TaskId W)} {r : Round W κ}
      (hstep : action.advance host frame w = s)
      (hrest : Rounds host frame rest (noted host id s) as r) :
      Rounds host frame ((id, action) :: rest) w (⟨id, frame, w, s.outcome, s.world⟩ :: as)
        ⟨resultBefore s.outcome r.result, kept id s ++ r.tasks, r.world⟩

/-- The result of a tick in which a task comes before others, one of which may overflow. -/
def resultAmong (outcome : Outcome) (others : Except Fault Unit) : Except Fault Unit :=
  match outcome with
  | .error (.failed error) => firstError error others
  | _ => others

/-- A tick: the tasks are advanced one after the other until a sum of durations overflows, and those
that are running are kept.  The task that overflows is kept as well, with all after it. -/
inductive Sweeps (host : Host W κ) (frame : Frame) :
    List (TaskId × Action W κ) → W → List (Appearance TaskId W) → Round W κ → Prop where
  | nil (w : W) : Sweeps host frame [] w [] ⟨.ok (), [], w⟩
  | cons {id : TaskId} {action : Action W κ} {s : Step (Action W κ) W}
      {rest : List (TaskId × Action W κ)} {w : W} {as : List (Appearance TaskId W)} {r : Round W κ}
      (hstep : action.advance host frame w = s) (hne : s.outcome ≠ .error .overflow)
      (hrest : Sweeps host frame rest (noted host id s) as r) :
      Sweeps host frame ((id, action) :: rest) w (⟨id, frame, w, s.outcome, s.world⟩ :: as)
        ⟨resultAmong s.outcome r.result, kept id s ++ r.tasks, r.world⟩
  | overflow {id : TaskId} {action : Action W κ} {s : Step (Action W κ) W}
      {rest : List (TaskId × Action W κ)} {w : W} (hstep : action.advance host frame w = s)
      (ho : s.outcome = .error .overflow) :
      Sweeps host frame ((id, action) :: rest) w [⟨id, frame, w, s.outcome, s.world⟩]
        ⟨.error .overflow, (id, s.next) :: rest, s.world⟩

/-- A run: one request is served after the other, and every tick is a round. -/
inductive Runs (host : Host W κ) :
    Scheduler W κ → W → List (Request W κ) → List (Appearance TaskId W) → Scheduler W κ → W →
      Prop where
  | nil (s : Scheduler W κ) (w : W) : Runs host s w [] [] s w
  | spawn {s s' : Scheduler W κ} {w w' : W} {action : Action W κ} {rest : List (Request W κ)}
      {as : List (Appearance TaskId W)}
      (hrest : Runs host (s.spawn host action w).2.1 (s.spawn host action w).2.2 rest as s' w') :
      Runs host s w (.spawn action :: rest) as s' w'
  | tick {s s' : Scheduler W κ} {w w' : W} {frame : Frame} {rest : List (Request W κ)}
      {as bs : List (Appearance TaskId W)} {r : Round W κ}
      (hround : Rounds host frame s.tasks w as r)
      (hrest : Runs host ⟨r.tasks, s.nextNumber⟩ r.world rest bs s' w') :
      Runs host s w (.tick frame :: rest) (as ++ bs) s' w'

/-! ## Single tasks -/

section Tasks

variable {host : Host W κ} {frame : Frame} {id : TaskId} {action next : Action W κ}
  {rest : List (TaskId × Action W κ)} {w v : W}

theorem advanceTasks_of_running (h : action.advance host frame w = ⟨.ok .running, next, v⟩) :
    advanceTasks host frame ((id, action) :: rest) w =
      ⟨(advanceTasks host frame rest v).result,
        (id, next) :: (advanceTasks host frame rest v).tasks,
        (advanceTasks host frame rest v).world⟩ := by
  rw [advanceTasks, h]

theorem advanceTasks_of_done (h : action.advance host frame w = ⟨.ok .done, next, v⟩) :
    advanceTasks host frame ((id, action) :: rest) w =
      advanceTasks host frame rest (host.record (.finished id) v) := by
  rw [advanceTasks, h]

theorem advanceTasks_of_failed {error : RuntimeError}
    (h : action.advance host frame w = ⟨.error (.failed error), next, v⟩) :
    advanceTasks host frame ((id, action) :: rest) w =
      ⟨firstError error
          (advanceTasks host frame rest (host.record (.failed id error) v)).result,
        (advanceTasks host frame rest (host.record (.failed id error) v)).tasks,
        (advanceTasks host frame rest (host.record (.failed id error) v)).world⟩ := by
  rw [advanceTasks, h]

theorem advanceTasks_of_overflow
    (h : action.advance host frame w = ⟨.error .overflow, next, v⟩) :
    advanceTasks host frame ((id, action) :: rest) w =
      ⟨.error .overflow, (id, next) :: rest, v⟩ := by
  rw [advanceTasks, h]

/-- A task that is played under its id makes the same step and appears. -/
theorem advance_named_task (id : TaskId) {outcome : Outcome} (log : List (Appearance TaskId W))
    (h : action.advance host frame w = ⟨outcome, next, v⟩) :
    (Action.named id action).advance host.attended frame ⟨w, log⟩ =
      ⟨outcome, .named id next, ⟨v, log ++ [⟨id, frame, w, outcome, v⟩]⟩⟩ := by
  rw [Action.advance_named]
  dsimp only
  rw [h]
  rfl

theorem record_attended (note : Note) (log : List (Appearance TaskId W)) :
    host.attended.record note (⟨w, log⟩ : Attended TaskId W) = ⟨host.record note w, log⟩ := rfl

/-- An error is the first of a round if nothing overflows. -/
theorem firstError_of_ne {error : RuntimeError} {result : Except Fault Unit}
    (h : result ≠ .error .overflow) : firstError error result = .error (.failed error) := by
  unfold firstError
  split
  · exact absurd rfl h
  · rfl

end Tasks

/-! ## Ticks -/

/-- The appearances of a tick are written down. -/
theorem sweeps_advanceTasks (host : Host W κ) (frame : Frame) (tasks : List (TaskId × Action W κ))
    (w : W) (log : List (Appearance TaskId W)) :
    ∃ as, Sweeps host frame tasks w as (advanceTasks host frame tasks w) ∧
      advanceTasks host.attended frame (tasks.map namedTask) ⟨w, log⟩ =
        ⟨(advanceTasks host frame tasks w).result,
          (advanceTasks host frame tasks w).tasks.map namedTask,
          ⟨(advanceTasks host frame tasks w).world, log ++ as⟩⟩ := by
  induction tasks generalizing w log with
  | nil => exact ⟨[], .nil w, by simp [advanceTasks]⟩
  | cons task rest ih =>
    obtain ⟨id, action⟩ := task
    rcases hstep : action.advance host frame w with ⟨outcome, next, v⟩
    have hnamed := advance_named_task id log hstep
    rw [show ((id, action) :: rest).map namedTask = (id, .named id action) :: rest.map namedTask
      from rfl]
    cases outcome with
    | ok p =>
      cases p with
      | running =>
        rw [advanceTasks_of_running hstep]
        obtain ⟨as, hsweep, hwatched⟩ := ih v (log ++ [⟨id, frame, w, .ok .running, v⟩])
        refine ⟨_, .cons hstep (by simp) hsweep, ?_⟩
        rw [advanceTasks_of_running hnamed, hwatched, List.append_assoc]
        rfl
      | done =>
        rw [advanceTasks_of_done hstep]
        obtain ⟨as, hsweep, hwatched⟩ :=
          ih (host.record (.finished id) v) (log ++ [⟨id, frame, w, .ok .done, v⟩])
        refine ⟨_, .cons hstep (by simp) hsweep, ?_⟩
        rw [List.append_assoc] at hwatched
        exact (advanceTasks_of_done hnamed).trans hwatched
    | error fault =>
      cases fault with
      | overflow =>
        rw [advanceTasks_of_overflow hstep]
        refine ⟨_, .overflow hstep rfl, ?_⟩
        rw [advanceTasks_of_overflow hnamed]
        rfl
      | failed error =>
        rw [advanceTasks_of_failed hstep]
        obtain ⟨as, hsweep, hwatched⟩ :=
          ih (host.record (.failed id error) v) (log ++ [⟨id, frame, w, .error (.failed error), v⟩])
        refine ⟨_, .cons hstep (by simp) hsweep, ?_⟩
        rw [List.append_assoc] at hwatched
        rw [advanceTasks_of_failed hnamed, record_attended, hwatched]
        rfl

/-- Unless a sum of durations overflows, a tick is a round. -/
theorem Sweeps.rounds {host : Host W κ} {frame : Frame} {tasks : List (TaskId × Action W κ)} {w : W}
    {as : List (Appearance TaskId W)} {r : Round W κ} (h : Sweeps host frame tasks w as r)
    (hne : r.result ≠ .error .overflow) : Rounds host frame tasks w as r := by
  induction h with
  | nil w => exact .nil w
  | overflow _ _ => exact absurd rfl hne
  | @cons id action s rest w as r hstep hs _ ih =>
    have hothers : r.result ≠ .error .overflow := by
      intro ho
      rw [ho] at hne
      unfold resultAmong at hne
      split at hne <;> exact hne rfl
    have hresult : resultAmong s.outcome r.result = resultBefore s.outcome r.result := by
      cases ho : s.outcome with
      | ok p => rfl
      | error fault =>
        cases fault with
        | overflow => exact absurd ho hs
        | failed error => exact firstError_of_ne hothers
    rw [hresult]
    exact .cons hstep (ih hothers)

/-- A tick in which nothing overflows is a round, and its appearances are written down. -/
theorem rounds_advanceTasks {host : Host W κ} {frame : Frame} {tasks : List (TaskId × Action W κ)}
    {w : W} (h : (advanceTasks host frame tasks w).result ≠ .error .overflow)
    (log : List (Appearance TaskId W)) :
    ∃ as, Rounds host frame tasks w as (advanceTasks host frame tasks w) ∧
      advanceTasks host.attended frame (tasks.map namedTask) ⟨w, log⟩ =
        ⟨(advanceTasks host frame tasks w).result,
          (advanceTasks host frame tasks w).tasks.map namedTask,
          ⟨(advanceTasks host frame tasks w).world, log ++ as⟩⟩ := by
  obtain ⟨as, hsweep, hwatched⟩ := sweeps_advanceTasks host frame tasks w log
  exact ⟨as, hsweep.rounds h, hwatched⟩

/-! ## Requests -/

/-- Spawning a task to be played under its id is spawning it. -/
theorem serve_spawn_attended (host : Host W κ) (s : Scheduler W κ) (w : W)
    (log : List (Appearance TaskId W)) (action : Action W κ) :
    s.attended.serve host.attended ⟨w, log⟩ (.spawn (.named ⟨s.nextNumber⟩ action)) =
      ⟨.spawned ⟨s.nextNumber⟩, (s.spawn host action w).2.1.attended,
        ⟨(s.spawn host action w).2.2, log⟩⟩ := by
  simp [serve, spawn, attended, namedTask, record_attended]

/-- A tick of tasks that are played under their ids is the tick, with its appearances. -/
theorem serve_tick_attended {host : Host W κ} {s : Scheduler W κ} {w : W} {frame : Frame}
    {log more : List (Appearance TaskId W)}
    (h : advanceTasks host.attended frame (s.tasks.map namedTask) ⟨w, log⟩ =
      ⟨(advanceTasks host frame s.tasks w).result,
        (advanceTasks host frame s.tasks w).tasks.map namedTask,
        ⟨(advanceTasks host frame s.tasks w).world, more⟩⟩) :
    s.attended.serve host.attended ⟨w, log⟩ (.tick frame) =
      ⟨.ticked (s.tick host frame w).result, (s.tick host frame w).scheduler.attended,
        ⟨(s.tick host frame w).world, more⟩⟩ := by
  rw [serve, tick, attended, h]
  rfl

/-- A list of requests in which nothing overflows is a run, and its appearances are written down. -/
theorem runs_after {host : Host W κ} {requests : List (Request W κ)} {s : Scheduler W κ} {w : W}
    (h : s.Undisturbed host requests w) (log : List (Appearance TaskId W)) :
    ∃ as, Runs host s w requests as (s.after host requests w).1 (s.after host requests w).2 ∧
      s.attended.after host.attended (attendFrom s.nextNumber requests) ⟨w, log⟩ =
        ((s.after host requests w).1.attended, ⟨(s.after host requests w).2, log ++ as⟩) := by
  induction requests generalizing s w log with
  | nil => exact ⟨[], .nil s w, by simp [after, attendFrom]⟩
  | cons r rest ih =>
    obtain ⟨hnow, hlater⟩ := List.forall_mem_cons.mp h
    cases r with
    | spawn action =>
      obtain ⟨as, hrun, hwatched⟩ := ih hlater log
      refine ⟨as, .spawn hrun, ?_⟩
      rw [attendFrom, after, serve_spawn_attended]
      exact hwatched
    | tick frame =>
      have hresult : (advanceTasks host frame s.tasks w).result ≠ .error .overflow :=
        fun ho => hnow (congrArg Answer.ticked ho)
      obtain ⟨as, hround, hround'⟩ := rounds_advanceTasks hresult log
      obtain ⟨bs, hrun, hwatched⟩ := ih hlater (log ++ as)
      refine ⟨as ++ bs, .tick hround hrun, ?_⟩
      rw [List.append_assoc] at hwatched
      rw [attendFrom, after, serve_tick_attended hround']
      exact hwatched

end Scheduler

end Promptbook
