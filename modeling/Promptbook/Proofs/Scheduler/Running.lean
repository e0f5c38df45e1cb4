import Mathlib.Data.List.Nodup
import Promptbook.Proofs.Scheduler.Rounds

set_option autoImplicit false

/-!
# Who is running

Which tasks are running can be told from the number of tasks that were spawned and the appearances
that were made: a task is running if it was running in all its appearances so far.  In a round every
such task appears once, in the order of the ids (`Counted.round`), and so this is what a scheduler
knows after any list of requests (`Counted.run`).
-/

namespace Promptbook

namespace Scheduler

variable {W κ : Type} {host : Host W κ} {frame : Frame}

/-! ## Told from outside -/

/-- The tasks, of `n` that were spawned, that were running in all their appearances. -/
def runningIn (n : Nat) (log : List (Appearance TaskId W)) : List TaskId :=
  ((List.range n).map TaskId.mk).filter fun id =>
    log.all fun a => a.name != id || a.outcome.isRunning

/-- The result of a tick with these appearances: the error of the first task that failed. -/
def resultOf : List (Appearance TaskId W) → Except Fault Unit
  | [] => .ok ()
  | a :: rest => resultBefore a.outcome (resultOf rest)

theorem nodup_runningIn (n : Nat) (log : List (Appearance TaskId W)) : (runningIn n log).Nodup := by
  refine List.Nodup.sublist List.filter_sublist ?_
  refine List.Nodup.map ?_ List.nodup_range
  intro i j h
  exact TaskId.mk.inj h

theorem number_lt_of_mem_runningIn {n : Nat} {log : List (Appearance TaskId W)} {id : TaskId}
    (h : id ∈ runningIn n log) : id.number < n := by
  obtain ⟨i, hi, rfl⟩ := List.mem_map.mp (List.mem_filter.mp h).1
  exact List.mem_range.mp hi

/-- Nobody has seen a task that is only spawned now. -/
theorem runningIn_succ {n : Nat} {log : List (Appearance TaskId W)}
    (h : ∀ a ∈ log, a.name.number < n) : runningIn (n + 1) log = runningIn n log ++ [⟨n⟩] := by
  have hnew : (log.all fun a => a.name != ⟨n⟩ || a.outcome.isRunning) = true := by
    rw [List.all_eq_true]
    intro a ha
    have hne : a.name ≠ ⟨n⟩ := fun he => Nat.lt_irrefl n (by simpa [he] using h a ha)
    simp [hne]
  rw [runningIn, List.range_succ, List.map_append, List.filter_append]
  simp [runningIn, hnew]

/-! ## Rounds -/

namespace Rounds

variable {tasks : List (TaskId × Action W κ)} {w : W} {as : List (Appearance TaskId W)}
  {r : Round W κ}

/-- Every task appears once, in the order of the tasks. -/
theorem names (h : Rounds host frame tasks w as r) : as.map (·.name) = tasks.map (·.1) := by
  induction h with
  | nil => rfl
  | cons _ _ ih => simp [ih]

/-- All tasks are advanced by the frame of the tick. -/
theorem frames (h : Rounds host frame tasks w as r) : ∀ a ∈ as, a.frame = frame := by
  induction h with
  | nil => simp
  | cons _ _ ih => simpa using ih

/-- The tasks that are left are those that were running. -/
theorem left (h : Rounds host frame tasks w as r) :
    r.tasks.map (·.1) = (as.filter fun a => a.outcome.isRunning).map (·.name) := by
  induction h with
  | nil => rfl
  | cons _ _ ih =>
    rw [List.map_append, ih, List.filter_cons, kept]
    split <;> simp

theorem result (h : Rounds host frame tasks w as r) : r.result = resultOf as := by
  induction h with
  | nil => rfl
  | cons _ _ ih => rw [resultOf, ← ih]

end Rounds

/-- If every name appears once, the appearances of those that are running can be told by name. -/
theorem map_name_filter {as : List (Appearance TaskId W)} (h : (as.map (·.name)).Nodup) :
    (as.filter fun a => a.outcome.isRunning).map (·.name) =
      (as.map (·.name)).filter fun id => as.all fun a => a.name != id || a.outcome.isRunning := by
  rw [List.filter_map]
  congr 1
  refine List.filter_congr fun a ha => ?_
  rw [Bool.eq_iff_iff, Function.comp_apply, List.all_eq_true]
  constructor
  · intro hrunning b hb
    by_cases hname : b.name = a.name
    · obtain rfl : b = a := List.inj_on_of_nodup_map h hb ha hname
      simp [hrunning]
    · simp [hname]
  · intro hall
    simpa using hall a ha

/-! ## Schedulers -/

/-- What a scheduler has is what can be told from the appearances so far. -/
structure Counted (s : Scheduler W κ) (log : List (Appearance TaskId W)) : Prop where
  ids : s.tasks.map (·.1) = runningIn s.nextNumber log
  known : ∀ a ∈ log, a.name.number < s.nextNumber

namespace Counted

variable {s s' : Scheduler W κ} {log as : List (Appearance TaskId W)} {w w' : W}

theorem empty : Counted (Scheduler.empty : Scheduler W κ) [] := ⟨rfl, by simp⟩

theorem spawn (h : Counted s log) (action : Action W κ) :
    Counted (s.spawn host action w).2.1 log := by
  refine ⟨?_, fun a ha => Nat.lt_succ_of_lt (h.known a ha)⟩
  rw [Scheduler.spawn]
  dsimp only
  rw [runningIn_succ h.known, List.map_append, h.ids]
  rfl

/-- The tasks that appear in a round are those that are running. -/
theorem round {r : Round W κ} (h : Counted s log) (hround : Rounds host frame s.tasks w as r) :
    as.map (·.name) = runningIn s.nextNumber log ∧
      Counted (⟨r.tasks, s.nextNumber⟩ : Scheduler W κ) (log ++ as) := by
  have hnames : as.map (·.name) = runningIn s.nextNumber log := hround.names.trans h.ids
  have hnodup : (as.map (·.name)).Nodup := hnames ▸ nodup_runningIn s.nextNumber log
  refine ⟨hnames, ?_, ?_⟩
  · change r.tasks.map (·.1) = runningIn s.nextNumber (log ++ as)
    rw [hround.left, map_name_filter hnodup, hnames, runningIn, List.filter_filter, runningIn]
    refine List.filter_congr fun id _ => ?_
    rw [List.all_append, Bool.and_comm]
  · intro a ha
    rcases List.mem_append.mp ha with ha | ha
    · exact h.known a ha
    · exact number_lt_of_mem_runningIn (hnames ▸ List.mem_map_of_mem ha)

/-- The number of tasks and who is running are known after all requests. -/
theorem run {requests : List (Request W κ)} (h : Counted s log)
    (hrun : Runs host s w requests as s' w') :
    Counted s' (log ++ as) ∧ s'.nextNumber = s.nextNumber + Request.spawns requests := by
  induction hrun generalizing log with
  | nil => exact ⟨by simpa using h, rfl⟩
  | @spawn s _ w _ action rest _ _ ih =>
    obtain ⟨hcounted, hnumber⟩ := ih (h.spawn action)
    exact ⟨hcounted, hnumber.trans (Nat.add_right_comm s.nextNumber 1 (Request.spawns rest))⟩
  | tick hround _ ih =>
    obtain ⟨hcounted, hnumber⟩ := ih (h.round hround).2
    rw [List.append_assoc] at hcounted
    exact ⟨hcounted, hnumber⟩

end Counted

end Scheduler

end Promptbook
