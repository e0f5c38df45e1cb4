import Promptbook.Dialogue
import Promptbook.Proofs.Scheduler.Isolation
import Promptbook.Rehearsal.Answering
import Promptbook.Rehearsal.Puppet

set_option autoImplicit false

/-!
# Schedulers are faithful

After any list of spawns and ticks, all that can be asked of a scheduler is told by the number of
spawns and by the appearances of the tasks, and a task apart was played as if it was alone:
`after_requests_faithful`.
-/

namespace Promptbook

namespace Scheduler

variable {W κ : Type} {host : Host W κ} {frame : Frame} {s s' : Scheduler W κ} {w w' : W}
  {requests : List (Request W κ)} {log as : List (Appearance TaskId W)}

/-- A scheduler in a world after requests, with the appearances of its tasks so far. -/
structure Faithful (host : Host W κ) (requests : List (Request W κ)) (s : Scheduler W κ) (w : W)
    (log : List (Appearance TaskId W)) : Prop where
  /-- An action that is spawned is given the number of actions that were spawned before. -/
  spawn_id : ∀ action, (s.spawn host action w).1 = ⟨Request.spawns requests⟩
  isRunning_iff : ∀ id, s.isRunning id = true ↔ id ∈ runningIn (Request.spawns requests) log
  size_eq : s.size = (runningIn (Request.spawns requests) log).length
  isIdle_iff : s.isIdle = true ↔ runningIn (Request.spawns requests) log = []
  /-- On a tick every task that is running appears once, oldest first, and no other; the result is
  the error of the first that failed. -/
  tick_eq : ∀ frame, (s.tick host frame w).result ≠ .error .overflow →
    ∃ as, s.attended.tick host.attended frame ⟨w, log⟩ =
        ⟨resultOf as, (s.tick host frame w).scheduler.attended,
          ⟨(s.tick host frame w).world, log ++ as⟩⟩ ∧
      (s.tick host frame w).result = resultOf as ∧
      as.map (·.name) = runningIn (Request.spawns requests) log ∧ ∀ a ∈ as, a.frame = frame
  /-- A dialogue whose script is broken leaves the scheduler alone; any other spawns its action. -/
  trigger_eq : ∀ (d : Dialogue) (stage : Stage),
    d.trigger host stage s w =
      match (Script.readScript stage d.script).result with
      | .error es =>
        (.error (.invalidScript ⟨es⟩), s,
          Dialogue.recordReading host (Script.readScript stage d.script) w)
      | .ok script =>
        (.ok ⟨Request.spawns requests⟩,
          (s.spawn host (.ofScript host d.settings script)
            (Dialogue.recordReading host (Script.readScript stage d.script) w)).2)

/-- A scheduler that is counted is faithful. -/
theorem Counted.faithful (h : Counted s log) (hnumber : s.nextNumber = Request.spawns requests)
    (w : W) : Faithful host requests s w log := by
  have hids : s.tasks.map (·.1) = runningIn (Request.spawns requests) log := hnumber ▸ h.ids
  refine ⟨fun action => congrArg TaskId.mk hnumber, fun id => ?_, ?_, ?_, ?_, ?_⟩
  · rw [← hids, isRunning, List.any_eq_true, List.mem_map]
    simp
  · rw [← hids, size, List.length_map]
  · rw [← hids, isIdle, List.isEmpty_iff, List.map_eq_nil_iff]
  · intro frame hresult
    obtain ⟨as, hround, hwatched⟩ := rounds_advanceTasks hresult log
    refine ⟨as, ?_, hround.result, hnumber ▸ (h.round hround).1, hround.frames⟩
    rw [tick, attended, hwatched, ← hround.result]
    rfl
  · intro d stage
    rw [Dialogue.trigger, Dialogue.action]
    cases (Script.readScript stage d.script).result with
    | error es => rfl
    | ok script =>
      dsimp only
      rw [Scheduler.spawn, hnumber]

theorem attendFrom_append (n : Nat) (requests more : List (Request W κ)) :
    attendFrom n (requests ++ more) =
      attendFrom n requests ++ attendFrom (n + Request.spawns requests) more := by
  induction requests generalizing n with
  | nil => rfl
  | cons r rest ih =>
    cases r with
    | spawn action =>
      rw [List.cons_append, attendFrom, attendFrom, ih, Request.spawns, Nat.add_right_comm]
      rfl
    | tick frame =>
      rw [List.cons_append, attendFrom, attendFrom, ih, Request.spawns]
      rfl

/-- What is asked for later does not disturb what was asked for before. -/
theorem undisturbed_append {requests more : List (Request W κ)} {s : Scheduler W κ} {w : W}
    (h : s.Undisturbed host (requests ++ more) w) :
    s.Undisturbed host requests w ∧
      (s.after host requests w).1.Undisturbed host more (s.after host requests w).2 := by
  induction requests generalizing s w with
  | nil => exact ⟨by simp [Undisturbed, services], h⟩
  | cons r rest ih =>
    obtain ⟨hnow, hlater⟩ := List.forall_mem_cons.mp h
    obtain ⟨hbefore, hmore⟩ := ih hlater
    exact ⟨List.forall_mem_cons.mpr ⟨hnow, hbefore⟩, hmore⟩

/-- Whatever a scheduler is asked for, if no sum of durations overflows: playing every task under
its id changes nothing, the scheduler is faithful to the appearances that are seen so, and a task
that shares no state with the others is seen to go, from its spawn on, as it would alone. -/
theorem after_requests_faithful (host : Host W κ) (requests : List (Request W κ)) (w : W)
    (h : empty.Undisturbed host requests w) :
    ∃ log, empty.after host.attended (attendFrom 0 requests) ⟨w, []⟩ =
        ((empty.after host requests w).1.attended, ⟨(empty.after host requests w).2, log⟩) ∧
      Faithful host requests (empty.after host requests w).1 (empty.after host requests w).2 log ∧
      ∀ earlier action later, requests = earlier ++ .spawn action :: later →
        ∀ (P : Type) (view : W → P) (own : Action W κ → Action W κ → Prop)
          (others : Action W κ → Prop), Apart host view own others → own action action →
          (∀ other, .spawn other ∈ earlier ++ later → others other) →
          ∀ v, view v = view (empty.after host earlier w).2 →
            seenOf view ⟨Request.spawns earlier⟩ log =
              action.alone host view (Request.frames later) v := by
  obtain ⟨log, hrun, hwatched⟩ := runs_after h []
  obtain ⟨hcounted, hnumber⟩ := Counted.empty.run hrun
  rw [List.nil_append] at hcounted hwatched
  refine ⟨log, hwatched, hcounted.faithful (hnumber.trans (Nat.zero_add _)) _, ?_⟩
  rintro earlier action later rfl P view own others hview hown hothers v hv
  obtain ⟨hbefore, hrest⟩ := undisturbed_append h
  obtain ⟨before, hrunBefore, hwatchedBefore⟩ := runs_after hbefore []
  obtain ⟨as, hrunRest, hwatchedRest⟩ := runs_after hrest before
  obtain ⟨hcountedBefore, hnumberBefore⟩ := Counted.empty.run hrunBefore
  rw [List.nil_append] at hcountedBefore hwatchedBefore
  have hlog : log = before ++ as := by
    rw [attendFrom_append, after_append, hwatchedBefore] at hwatched
    rw [hnumberBefore] at hwatchedRest
    exact congrArg (fun p => p.2.appearances) (hwatched.symm.trans hwatchedRest)
  have hamong := hrunBefore.apart_others hview (by simp [empty])
    fun other ho => hothers other (List.mem_append_left _ ho)
  have hseen := hrunRest.apart_of_spawn hview hcountedBefore hamong
    (fun other ho => hothers other (List.mem_append_right _ ho)) hown hv
  rw [hnumberBefore] at hseen
  rw [hlog, ← hseen, empty, Nat.zero_add]

end Scheduler

/-! ## Puppets and variables -/

namespace Rehearsal

/-- The host of puppets whose bubbles answer by themselves. -/
abbrev stageHost : Host (World Cast Answers) (Part ⊕ Answering) := .ofParts puppets answering

/-- Switch the first variable on. -/
def switchOn : Action (World Cast Answers) (Part ⊕ Answering) :=
  .effect (stageHost.setVariable ⟨0⟩ true)

/-- Work of puppets does not touch variables, and switching one on needs nothing else. -/
theorem apart_switchOn :
    Scheduler.Apart stageHost World.cells (fun a b => a = b ∧ (a = switchOn ∨ a = .finished))
      fun a => ∃ part, a = .machine (.inl part) where
  outcome frame w v h _ := by
    obtain ⟨rfl, rfl | rfl⟩ := h <;> rfl
  world frame w v h hsee := by
    obtain ⟨rfl, rfl | rfl⟩ := h
    · exact congrArg (Cells.set ⟨0⟩ true) hsee
    · exact hsee
  next frame w v h _ := by
    obtain ⟨rfl, rfl | rfl⟩ := h
    · exact ⟨rfl, .inr rfl⟩
    · exact ⟨rfl, .inr rfl⟩
  others_world frame w h := by
    obtain ⟨part, rfl⟩ := h
    exact World.cells_recordAll _ _
  others_next frame w h := by
    obtain ⟨part, rfl⟩ := h
    exact ⟨_, rfl⟩
  record note w := rfl

/-- One task fails before another switches a variable on while a third is going on. -/
theorem switchOn_among_puppets :
    let w : World Cast Answers := ⟨.empty, ⟨[], 0⟩, ⟨[false]⟩, .empty, #[]⟩
    let earlier : List (Request (World Cast Answers) (Part ⊕ Answering)) :=
      [.spawn (.machine (.inl (.mishap "fall" 1 0 .noSelection))), .tick {}]
    let later : List (Request (World Cast Answers) (Part ⊕ Answering)) :=
      [.spawn (.machine (.inl (.drill "walk" 3 0))), .tick {}, .tick {}, .tick {}]
    let requests := earlier ++ .spawn switchOn :: later
    Scheduler.empty.Undisturbed stageHost requests w ∧
      ∃ log, Scheduler.empty.after stageHost.attended (Scheduler.attendFrom 0 requests) ⟨w, []⟩ =
          ((Scheduler.empty.after stageHost requests w).1.attended,
            ⟨(Scheduler.empty.after stageHost requests w).2, log⟩) ∧
        Scheduler.Faithful stageHost requests (Scheduler.empty.after stageHost requests w).1
          (Scheduler.empty.after stageHost requests w).2 log ∧
        Scheduler.seenOf World.cells ⟨1⟩ log =
          [({}, .ok .running, ⟨[true]⟩), ({}, .ok .done, ⟨[true]⟩)] := by
  intro w earlier later requests
  have hundisturbed : Scheduler.empty.Undisturbed stageHost requests w := by decide +kernel
  refine ⟨hundisturbed, ?_⟩
  obtain ⟨log, hwatched, hfaithful, hapart⟩ :=
    Scheduler.after_requests_faithful stageHost requests w hundisturbed
  refine ⟨log, hwatched, hfaithful, ?_⟩
  have hothers (other : Action (World Cast Answers) (Part ⊕ Answering))
      (h : .spawn other ∈ earlier ++ later) : ∃ part, other = .machine (.inl part) := by
    have hspawned : other = .machine (.inl (.mishap "fall" 1 0 .noSelection)) ∨
        other = .machine (.inl (.drill "walk" 3 0)) := by simpa [earlier, later] using h
    rcases hspawned with rfl | rfl <;> exact ⟨_, rfl⟩
  exact hapart earlier switchOn later rfl Cells World.cells _ _ apart_switchOn ⟨rfl, .inl rfl⟩
    hothers _ rfl

end Rehearsal

end Promptbook
