import Promptbook.Proofs.Scheduler.Running

set_option autoImplicit false

/-!
# Tasks apart

A task shares no state with the others if there is a part of the world, seen through a `view`, that
decides all it does and that the others leave alone (`Apart`).  Such a task goes tick for tick as if
it was played alone on the frames since it was spawned, whatever becomes of the others
(`Runs.apart`).
-/

namespace Promptbook

namespace Action

variable {W κ P : Type}

/-- An action alone, one frame after the other until it is not running any more: every frame, the
outcome and what can be seen of the world. -/
def alone (host : Host W κ) (view : W → P) :
    List Frame → Action W κ → W → List (Frame × Outcome × P)
  | [], _, _ => []
  | frame :: rest, action, w =>
    let s := action.advance host frame w
    (frame, s.outcome, view s.world) ::
      if s.outcome.isRunning then alone host view rest s.next s.world else []

end Action

namespace Scheduler

variable {W κ P : Type}

/-- Some actions only look at and change what can be seen of the world, and others leave that alone.
Actions are `own` to each other if they go the same way wherever the same can be seen. -/
structure Apart (host : Host W κ) (view : W → P) (own : Action W κ → Action W κ → Prop)
    (others : Action W κ → Prop) : Prop where
  outcome : ∀ {a b : Action W κ} (frame : Frame) {w v : W}, own a b → view w = view v →
    (a.advance host frame w).outcome = (b.advance host frame v).outcome
  world : ∀ {a b : Action W κ} (frame : Frame) {w v : W}, own a b → view w = view v →
    view (a.advance host frame w).world = view (b.advance host frame v).world
  next : ∀ {a b : Action W κ} (frame : Frame) {w v : W}, own a b → view w = view v →
    own (a.advance host frame w).next (b.advance host frame v).next
  others_world : ∀ {a : Action W κ} (frame : Frame) (w : W), others a →
    view (a.advance host frame w).world = view w
  others_next : ∀ {a : Action W κ} (frame : Frame) (w : W), others a →
    others (a.advance host frame w).next
  record : ∀ note w, view (host.record note w) = view w

/-- The appearances of one task: every frame, the outcome and what can be seen of the world. -/
def seenOf (view : W → P) (id : TaskId) (log : List (Appearance TaskId W)) :
    List (Frame × Outcome × P) :=
  (log.filter fun a => a.name == id).map fun a => (a.frame, a.outcome, view a.after)

section

variable {view : W → P} {id : TaskId}

theorem seenOf_append (log more : List (Appearance TaskId W)) :
    seenOf view id (log ++ more) = seenOf view id log ++ seenOf view id more := by
  simp [seenOf]

theorem seenOf_cons_self {a : Appearance TaskId W} (h : a.name = id)
    (log : List (Appearance TaskId W)) :
    seenOf view id (a :: log) = (a.frame, a.outcome, view a.after) :: seenOf view id log := by
  simp [seenOf, h]

theorem seenOf_cons_of_ne {a : Appearance TaskId W} (h : a.name ≠ id)
    (log : List (Appearance TaskId W)) : seenOf view id (a :: log) = seenOf view id log := by
  simp [seenOf, h]

/-- A task that does not appear is not seen. -/
theorem seenOf_of_not_mem {log : List (Appearance TaskId W)} (h : id ∉ log.map (·.name)) :
    seenOf view id log = [] := by
  have hnone : log.filter (fun a => a.name == id) = [] := by
    rw [List.filter_eq_nil_iff]
    intro a ha he
    exact h (List.mem_map.mpr ⟨a, ha, by simpa using he⟩)
  rw [seenOf, hnone, List.map_nil]

end

variable {host : Host W κ} {frame : Frame} {view : W → P} {own : Action W κ → Action W κ → Prop}
  {others : Action W κ → Prop} {id : TaskId}

theorem Apart.noted (h : Apart host view own others) (id : TaskId) (s : Step (Action W κ) W) :
    view (noted host id s) = view s.world := by
  unfold Scheduler.noted
  split
  · exact h.record _ _
  · exact h.record _ _
  · rfl

theorem mem_kept {t : TaskId × Action W κ} {s : Step (Action W κ) W} (h : t ∈ kept id s) :
    t = (id, s.next) := by
  unfold kept at h
  split at h
  · exact List.mem_singleton.mp h
  · simp at h

/-! ## Rounds -/

namespace Rounds

variable {tasks : List (TaskId × Action W κ)} {w : W} {as : List (Appearance TaskId W)}
  {r : Round W κ}

/-- A round of others leaves what can be seen alone. -/
theorem apart_others (hview : Apart host view own others) (h : Rounds host frame tasks w as r)
    (hothers : ∀ t ∈ tasks, others t.2) : view r.world = view w ∧ ∀ t ∈ r.tasks, others t.2 := by
  induction h with
  | nil => exact ⟨rfl, by simp⟩
  | @cons id action s rest w as r hstep _ ih =>
    obtain ⟨hfirst, hrest⟩ := List.forall_mem_cons.mp hothers
    obtain ⟨hworld, hleft⟩ := ih hrest
    have hsame := hview.others_world frame w hfirst
    have hnext := hview.others_next frame w hfirst
    rw [hstep] at hsame hnext
    refine ⟨hworld.trans ((hview.noted id s).trans hsame), ?_⟩
    refine List.forall_mem_append.mpr ⟨fun t ht => ?_, hleft⟩
    rw [mem_kept ht]
    exact hnext

/-- No task is left that was not there. -/
theorem mem_of_mem_left (h : Rounds host frame tasks w as r) (hid : id ∈ r.tasks.map (·.1)) :
    id ∈ tasks.map (·.1) := by
  rw [h.left, List.mem_map] at hid
  obtain ⟨a, ha, rfl⟩ := hid
  rw [← h.names]
  exact List.mem_map_of_mem (List.mem_filter.mp ha).1

/-- In a round a task apart makes the step that it would make alone. -/
theorem apart_own (hview : Apart host view own others) (h : Rounds host frame tasks w as r)
    {a b : Action W κ} {v : W} (hnodup : (tasks.map (·.1)).Nodup) (ha : (id, a) ∈ tasks)
    (hothers : ∀ t ∈ tasks, t.1 ≠ id → others t.2) (hown : own a b) (hsee : view w = view v) :
    seenOf view id as =
        [(frame, (b.advance host frame v).outcome, view (b.advance host frame v).world)] ∧
      view r.world = view (b.advance host frame v).world ∧
      (∀ t ∈ r.tasks, t.1 ≠ id → others t.2) ∧
      ((b.advance host frame v).outcome.isRunning = true →
        ∃ a', (id, a') ∈ r.tasks ∧ own a' (b.advance host frame v).next) ∧
      ((b.advance host frame v).outcome.isRunning = false → id ∉ r.tasks.map (·.1)) := by
  induction h with
  | nil => simp at ha
  | @cons id' action s rest w as r hstep hrest ih =>
    rw [List.map_cons, List.nodup_cons] at hnodup
    obtain ⟨hnew, hnodup⟩ := hnodup
    have hrestOthers : ∀ t ∈ rest, t.1 ≠ id → others t.2 :=
      fun t ht => hothers t (List.mem_cons_of_mem _ ht)
    by_cases hid : id' = id
    · subst hid
      obtain rfl : a = action := by
        rcases List.mem_cons.mp ha with he | hmem
        · exact (Prod.mk.inj he).2
        · exact absurd (List.mem_map.mpr ⟨_, hmem, rfl⟩) hnew
      have houtcome := hview.outcome frame hown hsee
      have hworld := hview.world frame hown hsee
      have hnext := hview.next frame hown hsee
      rw [hstep] at houtcome hworld hnext
      obtain ⟨hlast, hleft⟩ := hrest.apart_others hview fun t ht =>
        hrestOthers t ht fun he => hnew (List.mem_map.mpr ⟨t, ht, he⟩)
      have hgone : id' ∉ r.tasks.map (·.1) := fun he => hnew (hrest.mem_of_mem_left he)
      refine ⟨(seenOf_cons_self (by rfl) as).trans ?_,
        hlast.trans ((hview.noted id' s).trans hworld), ?_, ?_, ?_⟩
      · rw [seenOf_of_not_mem (by rwa [hrest.names]), houtcome, hworld]
      · refine List.forall_mem_append.mpr ⟨fun t ht hne => ?_, fun t ht _ => hleft t ht⟩
        exact absurd (by rw [mem_kept ht]) hne
      · intro hrunning
        rw [← houtcome] at hrunning
        exact ⟨s.next, by simp [kept, hrunning], hnext⟩
      · intro hstopped
        rw [← houtcome] at hstopped
        simpa [kept, hstopped] using hgone
    · have haction := hothers (id', action) List.mem_cons_self hid
      have hsame := hview.others_world frame w haction
      have hnext := hview.others_next frame w haction
      rw [hstep] at hsame hnext
      have hmem : (id, a) ∈ rest := by
        rcases List.mem_cons.mp ha with he | hmem
        · exact absurd (Prod.mk.inj he).1.symm hid
        · exact hmem
      obtain ⟨hseen, hlast, hleft, hrunning, hstopped⟩ :=
        ih hnodup hmem hrestOthers ((hview.noted id' s).trans (hsame.trans hsee))
      refine ⟨(seenOf_cons_of_ne hid as).trans hseen, hlast, ?_, ?_, ?_⟩
      · refine List.forall_mem_append.mpr ⟨fun t ht _ => ?_, hleft⟩
        rw [mem_kept ht]
        exact hnext
      · intro h
        obtain ⟨a', ha', hown'⟩ := hrunning h
        exact ⟨a', List.mem_append_right _ ha', hown'⟩
      · intro h
        rw [List.map_append, List.mem_append, not_or]
        refine ⟨fun hkept => ?_, hstopped h⟩
        obtain ⟨t, ht, he⟩ := List.mem_map.mp hkept
        rw [mem_kept ht] at he
        exact hid he

end Rounds

/-! ## Runs -/

namespace Runs

variable {s s' : Scheduler W κ} {requests : List (Request W κ)} {w w' : W}
  {log as : List (Appearance TaskId W)}

/-- The others are among themselves as long as nobody else is spawned. -/
theorem apart_others (hview : Apart host view own others) (h : Runs host s w requests as s' w')
    (hothers : ∀ t ∈ s.tasks, others t.2)
    (hspawned : ∀ action, .spawn action ∈ requests → others action) :
    ∀ t ∈ s'.tasks, others t.2 := by
  induction h with
  | nil => exact hothers
  | spawn _ ih =>
    refine ih (List.forall_mem_append.mpr ⟨hothers, ?_⟩)
      fun other h => hspawned other (List.mem_cons_of_mem _ h)
    rw [List.forall_mem_singleton]
    exact hspawned _ List.mem_cons_self
  | tick hround _ ih =>
    exact ih (hround.apart_others hview hothers).2
      fun other h => hspawned other (List.mem_cons_of_mem _ h)

/-- A task that is not running any more is not seen again. -/
theorem seenOf_of_gone (h : Runs host s w requests as s' w') (hnumber : id.number < s.nextNumber)
    (hid : id ∉ s.tasks.map (·.1)) : seenOf view id as = [] := by
  induction h with
  | nil => rfl
  | @spawn s _ w _ action _ _ _ ih =>
    refine ih (Nat.lt_succ_of_lt hnumber) ?_
    have hne : id ≠ ⟨s.nextNumber⟩ := by
      rintro rfl
      exact Nat.lt_irrefl _ hnumber
    simpa [Scheduler.spawn, hne] using hid
  | tick hround _ ih =>
    rw [seenOf_append, seenOf_of_not_mem (by rwa [hround.names]), List.nil_append]
    exact ih hnumber fun he => hid (hround.mem_of_mem_left he)

/-- A task apart is seen to go as if it was alone, from where it is on. -/
theorem apart (hview : Apart host view own others) (h : Runs host s w requests as s' w')
    (hcounted : Counted s log) {a b : Action W κ} {v : W} (ha : (id, a) ∈ s.tasks)
    (hothers : ∀ t ∈ s.tasks, t.1 ≠ id → others t.2)
    (hspawned : ∀ action, .spawn action ∈ requests → others action) (hown : own a b)
    (hsee : view w = view v) :
    seenOf view id as = b.alone host view (Request.frames requests) v := by
  induction h generalizing log a b v with
  | nil => rfl
  | @spawn s _ w _ action rest _ _ ih =>
    refine ih (hcounted.spawn action) (List.mem_append_left _ ha) ?_
      (fun other h => hspawned other (List.mem_cons_of_mem _ h)) hown
      ((hview.record _ w).trans hsee)
    refine List.forall_mem_append.mpr ⟨hothers, ?_⟩
    rw [List.forall_mem_singleton]
    exact fun _ => hspawned action List.mem_cons_self
  | @tick s _ w _ frame rest as bs r hround hrest ih =>
    have hnodup : (s.tasks.map (·.1)).Nodup := hcounted.ids ▸ nodup_runningIn s.nextNumber log
    have hnumber : id.number < s.nextNumber :=
      number_lt_of_mem_runningIn (hcounted.ids ▸ List.mem_map.mpr ⟨_, ha, rfl⟩)
    obtain ⟨hseen, hworld, hleft, hrunning, hstopped⟩ :=
      hround.apart_own hview hnodup ha hothers hown hsee
    rw [seenOf_append, hseen, Request.frames, Action.alone, List.singleton_append]
    congr 1
    cases hgoes : (b.advance host frame v).outcome.isRunning with
    | true =>
      obtain ⟨a', ha', hown'⟩ := hrunning hgoes
      exact ih (hcounted.round hround).2 ha' hleft
        (fun other h => hspawned other (List.mem_cons_of_mem _ h)) hown' hworld
    | false => exact hrest.seenOf_of_gone hnumber (hstopped hgoes)

/-- A task apart that is spawned among others is seen to go as if it was alone. -/
theorem apart_of_spawn (hview : Apart host view own others) {action : Action W κ}
    (h : Runs host s w (.spawn action :: requests) as s' w') (hcounted : Counted s log)
    (hothers : ∀ t ∈ s.tasks, others t.2)
    (hspawned : ∀ other, .spawn other ∈ requests → others other) (hown : own action action) {v : W}
    (hsee : view v = view w) :
    seenOf view ⟨s.nextNumber⟩ (log ++ as) =
      action.alone host view (Request.frames requests) v := by
  have hbefore : (⟨s.nextNumber⟩ : TaskId) ∉ log.map (·.name) := by
    intro hmem
    obtain ⟨a, ha, he⟩ := List.mem_map.mp hmem
    have hlt := hcounted.known a ha
    rw [he] at hlt
    exact Nat.lt_irrefl _ hlt
  rw [seenOf_append, seenOf_of_not_mem hbefore, List.nil_append]
  cases h with
  | spawn hrun =>
    refine hrun.apart hview (hcounted.spawn action) (List.mem_append_right _ (by simp)) ?_
      hspawned hown ((hview.record _ w).trans hsee.symm)
    refine List.forall_mem_append.mpr ⟨fun t ht _ => hothers t ht, ?_⟩
    rw [List.forall_mem_singleton]
    exact fun hne => absurd rfl hne

end Runs

end Scheduler

end Promptbook
