import Mathlib.Data.List.Nodup
import Promptbook.Proofs.Performance.Recording
import Promptbook.Proofs.Performance.Soundness
import Promptbook.Proofs.Scheduler.Rounds

set_option autoImplicit false

/-!
# Scripts that share a transcript

Any number of accepted scripts can be played at the same time with one transcript.  It is only ever
added to, and its entries are those of the appearances of the tasks, in their order.  What was entered
while a task appeared is the beginning of a path through its script, and a whole path if the task is
done.
-/

namespace Promptbook

open Bubble (Delays Transcript OpenBubble Entry)

variable {A α : Type} {company : Company A α} {delays : Delays}

/-! ## Entries of a task -/

/-- What was entered during an appearance. -/
def Appearance.entered {ι : Type} (a : Appearance ι (World A Transcript)) : List Entry :=
  a.after.bubbles.entries.drop a.before.bubbles.entries.length

/-- What was recorded of a task. -/
def recordsOf (id : TaskId) (log : List (Appearance TaskId (World A Transcript))) : List Record :=
  ((log.filter fun a => a.name == id).flatMap (·.entered)).map (·.record)

section Logs

variable {id : TaskId} {a : Appearance TaskId (World A Transcript)}
  {log : List (Appearance TaskId (World A Transcript))}

theorem recordsOf_append_own (h : a.name = id) :
    recordsOf id (log ++ [a]) = recordsOf id log ++ a.entered.map (·.record) := by
  simp [recordsOf, h]

theorem recordsOf_append_other (h : a.name ≠ id) :
    recordsOf id (log ++ [a]) = recordsOf id log := by
  simp [recordsOf, h]

/-- Nothing was recorded of a task that did not appear. -/
theorem recordsOf_of_unknown (h : ∀ a ∈ log, a.name ≠ id) : recordsOf id log = [] := by
  have hnone : log.filter (fun a => a.name == id) = [] := by
    rw [List.filter_eq_nil_iff]
    intro a ha
    simpa using h a ha
  rw [recordsOf, hnone]
  rfl

end Logs

namespace AcceptedScript

variable {script : AcceptedScript} {id : TaskId} {slots more : Nat}
  {action : Action (World A Transcript) (α ⊕ OpenBubble)}
  {log : List (Appearance TaskId (World A Transcript))}
  {a : Appearance TaskId (World A Transcript)} {w : World A Transcript}

/-- What was recorded of a task is the beginning of a path through its script, and a path if the task
is done. -/
structure Follows (script : AcceptedScript) (id : TaskId)
    (log : List (Appearance TaskId (World A Transcript))) : Prop where
  begins : ∃ path, IsPath script.statements path ∧ recordsOf id log <+: path
  done : ∀ a ∈ log, a.name = id → a.outcome = .ok .done →
    IsPath script.statements (recordsOf id log)

variable (company delays) in
/-- A task that plays a script and is not done. -/
structure Ongoing (script : AcceptedScript) (slots : Nat)
    (log : List (Appearance TaskId (World A Transcript)))
    (task : TaskId × Action (World A Transcript) (α ⊕ OpenBubble)) : Prop where
  performing : script.Performing company delays slots (recordsOf task.1 log) task.2
  unfinished : ∀ a ∈ log, a.name = task.1 → a.outcome ≠ .ok .done

/-- The appearances of others do not matter. -/
theorem Follows.other (h : script.Follows id log) (hne : a.name ≠ id) :
    script.Follows id (log ++ [a]) := by
  obtain ⟨hbegins, hdone⟩ := h
  rw [← recordsOf_append_other hne] at hbegins hdone
  exact ⟨hbegins, List.forall_mem_append.mpr
    ⟨hdone, List.forall_mem_singleton.mpr fun hname => absurd hname hne⟩⟩

theorem Ongoing.other {task : TaskId × Action (World A Transcript) (α ⊕ OpenBubble)}
    (h : script.Ongoing company delays slots log task) (hle : slots ≤ more)
    (hne : a.name ≠ task.1) : script.Ongoing company delays more (log ++ [a]) task := by
  obtain ⟨hperforming, hunfinished⟩ := h
  rw [← recordsOf_append_other hne] at hperforming
  exact ⟨hperforming.mono hle, List.forall_mem_append.mpr
    ⟨hunfinished, List.forall_mem_singleton.mpr fun hname => absurd hname hne⟩⟩

theorem Ongoing.follows {task : TaskId × Action (World A Transcript) (α ⊕ OpenBubble)}
    (h : script.Ongoing company delays slots log task) : script.Follows task.1 log := by
  obtain ⟨p, hp⟩ := h.performing.exists_path
  exact ⟨⟨_, hp, List.prefix_append _ _⟩,
    fun a ha hname hdone => absurd hdone (h.unfinished a ha hname)⟩

/-- When a task appears its script is followed, and it goes on unless it is done. -/
theorem Ongoing.appear (h : script.Ongoing company delays w.slots log (id, action)) (frame : Frame)
    {s : Step (Action (World A Transcript) (α ⊕ OpenBubble)) (World A Transcript)}
    (hs : action.advance (company.withTranscript delays) frame w = s) :
    let a : Appearance TaskId (World A Transcript) := ⟨id, frame, w, s.outcome, s.world⟩
    s.world.bubbles.entries = w.bubbles.entries ++ a.entered ∧ w.slots ≤ s.world.slots ∧
      script.Follows id (log ++ [a]) ∧
      (s.outcome ≠ .ok .done →
        script.Ongoing company delays s.world.slots (log ++ [a]) (id, s.next)) := by
  intro a
  obtain ⟨added, hentries, hslots, hnext, hdone⟩ := h.performing.advance frame
  rw [hs] at hentries hslots hnext hdone
  have hentered : a.entered = added := by
    simp only [Appearance.entered, a, hentries, List.drop_left]
  have hrecords : recordsOf id (log ++ [a]) = recordsOf id log ++ added.map (·.record) := by
    rw [recordsOf_append_own (by rfl), hentered]
  rw [← hrecords] at hnext hdone
  obtain ⟨p, hp⟩ := hnext.exists_path
  refine ⟨by rw [hentered, hentries], hslots, ⟨⟨_, hp, List.prefix_append _ _⟩, ?_⟩, fun hne =>
    ⟨hnext, ?_⟩⟩
  · exact List.forall_mem_append.mpr
      ⟨fun b hb hname houtcome => absurd houtcome (h.unfinished b hb hname),
        List.forall_mem_singleton.mpr fun _ => hdone⟩
  · exact List.forall_mem_append.mpr
      ⟨h.unfinished, List.forall_mem_singleton.mpr fun _ => hne⟩

end AcceptedScript

/-- From one world to a later one entries are only added, those of the appearances in between. -/
structure Adds (w : World A Transcript) (as : List (Appearance TaskId (World A Transcript)))
    (w' : World A Transcript) : Prop where
  entries : w'.bubbles.entries = w.bubbles.entries ++ as.flatMap (·.entered)
  each : ∀ a ∈ as, a.before.bubbles.entries <+: a.after.bubbles.entries

namespace Adds

variable {w v u : World A Transcript} {as bs : List (Appearance TaskId (World A Transcript))}

theorem refl (w : World A Transcript) : Adds w [] w := ⟨by simp, by simp⟩

theorem trans (h : Adds w as v) (h' : Adds v bs u) : Adds w (as ++ bs) u := by
  refine ⟨?_, List.forall_mem_append.mpr ⟨h.each, h'.each⟩⟩
  rw [h'.entries, h.entries, List.flatMap_append, List.append_assoc]

theorem of_appearance {a : Appearance TaskId (World A Transcript)}
    (h : a.after.bubbles.entries = a.before.bubbles.entries ++ a.entered) :
    Adds a.before [a] a.after := by
  refine ⟨by rw [h, List.flatMap_singleton], ?_⟩
  rw [List.forall_mem_singleton, h]
  exact List.prefix_append _ _

theorem sameBubbles (h : Adds w as v) (hsame : v.SameBubbles u) : Adds w as u :=
  ⟨by rw [hsame.bubbles, h.entries], h.each⟩

end Adds

/-! ## Ticks -/

namespace Scheduler

variable {scripts : List AcceptedScript} {frame : Frame}
  {tasks before rest left : List (TaskId × Action (World A Transcript) (α ⊕ OpenBubble))}
  {log as : List (Appearance TaskId (World A Transcript))} {w v : World A Transcript}

variable (company delays) in
/-- Tasks that play scripts: the task of a number that of the script which was started under it. -/
structure Sharing (scripts : List AcceptedScript) (slots : Nat)
    (tasks : List (TaskId × Action (World A Transcript) (α ⊕ OpenBubble)))
    (log : List (Appearance TaskId (World A Transcript))) : Prop where
  nodup : (tasks.map (·.1)).Nodup
  ongoing : ∀ t ∈ tasks, ∃ script, scripts[t.1.number]? = some script ∧
    script.Ongoing company delays slots log t
  follows : ∀ n (script : AcceptedScript), scripts[n]? = some script → script.Follows ⟨n⟩ log
  known : ∀ a ∈ log, a.name.number < scripts.length

/-- The tasks are of scripts that were started. -/
theorem Sharing.number_lt {slots : Nat} (h : Sharing company delays scripts slots tasks log)
    {t : TaskId × Action (World A Transcript) (α ⊕ OpenBubble)} (ht : t ∈ tasks) :
    t.1.number < scripts.length := by
  obtain ⟨script, hscript, -⟩ := h.ongoing t ht
  exact (List.getElem?_eq_some_iff.mp hscript).1

/-- No task of a script that was not started has appeared. -/
theorem Sharing.name_ne {slots : Nat} (h : Sharing company delays scripts slots tasks log) :
    ∀ a ∈ log, a.name ≠ ⟨scripts.length⟩ := by
  intro a ha heq
  have hnumber := h.known a ha
  rw [heq] at hnumber
  exact Nat.lt_irrefl _ hnumber

/-- No other task has the id of a task. -/
theorem Sharing.ne_of_mem {slots : Nat} {id : TaskId}
    {action : Action (World A Transcript) (α ⊕ OpenBubble)}
    (h : Sharing company delays scripts slots (before ++ (id, action) :: rest) log)
    {t : TaskId × Action (World A Transcript) (α ⊕ OpenBubble)} (ht : t ∈ before ++ rest) :
    id ≠ t.1 := by
  have hnodup := h.nodup
  rw [List.map_append, List.map_cons, List.nodup_middle, ← List.map_append] at hnodup
  intro heq
  exact (List.nodup_cons.mp hnodup).1 (List.mem_map.mpr ⟨t, ht, heq.symm⟩)

/-- When a task appears, it is kept at most once, and not if it is done. -/
theorem Sharing.appear {id : TaskId} {action : Action (World A Transcript) (α ⊕ OpenBubble)}
    {s : Step (Action (World A Transcript) (α ⊕ OpenBubble)) (World A Transcript)}
    (h : Sharing company delays scripts w.slots (before ++ (id, action) :: rest) log)
    (hs : action.advance (company.withTranscript delays) frame w = s)
    (hleft : left.Sublist [(id, s.next)]) (hdone : s.outcome = .ok .done → left = []) :
    let a : Appearance TaskId (World A Transcript) := ⟨id, frame, w, s.outcome, s.world⟩
    Adds w [a] s.world ∧
      Sharing company delays scripts s.world.slots (before ++ (left ++ rest)) (log ++ [a]) := by
  intro a
  obtain ⟨script, hscript, htask⟩ := h.ongoing (id, action) (by simp)
  obtain ⟨hentries, hslots, hnow, hnext⟩ := htask.appear frame hs
  have hids : ((before ++ (left ++ rest)).map (·.1)).Sublist
      ((before ++ (id, action) :: rest).map (·.1)) := by
    simp only [List.map_append, List.map_cons]
    exact (List.Sublist.refl _).append ((hleft.map _).append (List.Sublist.refl _))
  have hadds : Adds a.before [a] a.after := .of_appearance hentries
  refine ⟨hadds, h.nodup.sublist hids, ?_, ?_, ?_⟩
  · have hothers {t : TaskId × Action (World A Transcript) (α ⊕ OpenBubble)}
        (ht : t ∈ before ++ rest) : ∃ script, scripts[t.1.number]? = some script ∧
          script.Ongoing company delays s.world.slots (log ++ [a]) t := by
      have hmem : t ∈ before ++ (id, action) :: rest := by
        rw [List.mem_append, List.mem_cons]
        rw [List.mem_append] at ht
        tauto
      obtain ⟨other, hother, htold⟩ := h.ongoing t hmem
      exact ⟨other, hother, htold.other hslots (h.ne_of_mem ht)⟩
    intro t ht
    simp only [List.mem_append] at ht
    rcases ht with ht | ht | ht
    · exact hothers (List.mem_append_left _ ht)
    · obtain rfl := List.mem_singleton.mp (hleft.subset ht)
      refine ⟨script, hscript, hnext fun ho => ?_⟩
      rw [hdone ho] at ht
      simp at ht
    · exact hothers (List.mem_append_right _ ht)
  · intro n other hother
    by_cases hn : id = ⟨n⟩
    · subst hn
      obtain rfl := Option.some.inj (hscript.symm.trans hother)
      exact hnow
    · exact (h.follows n other hother).other hn
  · refine List.forall_mem_append.mpr ⟨h.known, ?_⟩
    rw [List.forall_mem_singleton]
    exact (List.getElem?_eq_some_iff.mp hscript).1

theorem sameBubbles_noted (id : TaskId)
    (s : Step (Action (World A Transcript) (α ⊕ OpenBubble)) (World A Transcript)) :
    s.world.SameBubbles (noted (company.withTranscript delays) id s) := by
  unfold noted
  split
  · exact ⟨rfl, rfl⟩
  · exact ⟨rfl, rfl⟩
  · exact .refl _

/-- A tick only adds entries, and leaves tasks that play their scripts. -/
theorem Sweeps.sharing {r : Round (World A Transcript) (α ⊕ OpenBubble)}
    (h : Sweeps (company.withTranscript delays) frame tasks w as r)
    (hsharing : Sharing company delays scripts w.slots (before ++ tasks) log) :
    Adds w as r.world ∧
      Sharing company delays scripts r.world.slots (before ++ r.tasks) (log ++ as) := by
  induction h generalizing before log with
  | nil w => exact ⟨.refl w, by simpa using hsharing⟩
  | overflow hstep ho =>
    exact hsharing.appear hstep (List.Sublist.refl _) (by simp [ho])
  | @cons id action s rest w as r hstep _ _ ih =>
    have hsame : s.world.SameBubbles (noted (company.withTranscript delays) id s) :=
      sameBubbles_noted id s
    have hdone : s.outcome = .ok .done → kept id s = [] := by
      intro ho
      rw [kept, ho]
      rfl
    have hkept : (kept id s).Sublist [(id, s.next)] := by
      unfold kept
      split
      · exact List.Sublist.refl _
      · exact List.nil_sublist _
    obtain ⟨hadds, hnext⟩ := hsharing.appear hstep hkept hdone
    rw [← List.append_assoc, ← hsame.slots_eq] at hnext
    obtain ⟨hmore, hlast⟩ := ih hnext
    rw [List.append_assoc, List.append_assoc] at hlast
    exact ⟨(hadds.sameBubbles hsame).trans hmore, hlast⟩

/-- A script that is started is followed from its beginning. -/
theorem Sharing.spawn {slots : Nat} (h : Sharing company delays scripts slots tasks log)
    (script : AcceptedScript) :
    Sharing company delays (scripts ++ [script]) slots
      (tasks ++ [(⟨scripts.length⟩, script.action (company.withTranscript delays))]) log := by
  have hnew : script.Ongoing company delays slots log
      (⟨scripts.length⟩, script.action (company.withTranscript delays)) := by
    refine ⟨?_, fun a ha hname => absurd hname (h.name_ne a ha)⟩
    rw [recordsOf_of_unknown h.name_ne]
    exact script.performing_action slots
  refine ⟨?_, ?_, ?_, ?_⟩
  · rw [List.map_append, List.nodup_append]
    refine ⟨h.nodup, by simp, fun i hi j hj => ?_⟩
    obtain ⟨t, ht, rfl⟩ := List.mem_map.mp hi
    obtain rfl := List.mem_singleton.mp hj
    intro heq
    have hnumber := h.number_lt ht
    rw [heq] at hnumber
    exact Nat.lt_irrefl _ hnumber
  · refine List.forall_mem_append.mpr ⟨fun t ht => ?_, ?_⟩
    · obtain ⟨other, hother, ht'⟩ := h.ongoing t ht
      exact ⟨other, by rwa [List.getElem?_append_left (h.number_lt ht)], ht'⟩
    · rw [List.forall_mem_singleton]
      exact ⟨script, by simp, hnew⟩
  · intro n other hother
    rcases Nat.lt_or_ge n scripts.length with hn | hn
    · rw [List.getElem?_append_left hn] at hother
      exact h.follows n other hother
    · have hlast := (List.getElem?_eq_some_iff.mp hother).1
      rw [List.length_append, List.length_singleton] at hlast
      obtain rfl : n = scripts.length := Nat.le_antisymm (Nat.le_of_lt_succ hlast) hn
      obtain rfl : script = other := by simpa using hother
      exact hnew.follows
  · intro a ha
    rw [List.length_append]
    exact Nat.lt_add_right _ (h.known a ha)

end Scheduler

/-! ## Requests -/

/-- What is asked of a scheduler that plays scripts. -/
inductive Order where
  | start (script : AcceptedScript)
  | tick (frame : Frame)

namespace Order

/-- The requests that are made of the scheduler. -/
def requests {W κ : Type} (host : Host W κ) : List Order → List (Request W κ)
  | [] => []
  | .start script :: rest => .spawn (script.action host) :: requests host rest
  | .tick frame :: rest => .tick frame :: requests host rest

/-- The scripts that are started. -/
def started : List Order → List AcceptedScript
  | [] => []
  | .start script :: rest => script :: started rest
  | .tick _ :: rest => started rest

theorem requests_append {W κ : Type} (host : Host W κ) (orders more : List Order) :
    requests host (orders ++ more) = requests host orders ++ requests host more := by
  induction orders with
  | nil => rfl
  | cons order rest ih => cases order <;> exact congrArg (List.cons _) ih

end Order

namespace Scheduler

variable {scripts : List AcceptedScript} {log : List (Appearance TaskId (World A Transcript))}
  {s : Scheduler (World A Transcript) (α ⊕ OpenBubble)} {w : World A Transcript}

/-- Whatever is asked for, entries are only added, and every task plays its script.  The appearances
are those that are written down when every task is played under its id. -/
theorem Sharing.exists_after (hnumber : s.nextNumber = scripts.length)
    (h : Sharing company delays scripts w.slots s.tasks log) (orders : List Order) :
    let requests := Order.requests (company.withTranscript delays) orders
    ∃ as s' w', s.after (company.withTranscript delays) requests w = (s', w') ∧
      s.attended.after (company.withTranscript delays).attended (attendFrom s.nextNumber requests)
        ⟨w, log⟩ = (s'.attended, ⟨w', log ++ as⟩) ∧
      Adds w as w' ∧ s'.nextNumber = (scripts ++ Order.started orders).length ∧
      Sharing company delays (scripts ++ Order.started orders) w'.slots s'.tasks (log ++ as) := by
  induction orders generalizing s w log scripts with
  | nil =>
    refine ⟨[], s, w, rfl, ?_, .refl w, ?_, ?_⟩
    · rw [List.append_nil]
      rfl
    · rwa [Order.started, List.append_nil]
    · rwa [Order.started, List.append_nil, List.append_nil]
  | cons order rest ih =>
    cases order with
    | start script =>
      have hspawned := h.spawn script
      rw [← hnumber] at hspawned
      have hcounted : s.nextNumber + 1 = (scripts ++ [script]).length := by
        rw [List.length_append, hnumber, List.length_singleton]
      obtain ⟨as, s', w', hafter, hwatched, hadds, hcount, hsharing⟩ :=
        ih (s := ⟨_, s.nextNumber + 1⟩) (w := w.record (.spawned ⟨s.nextNumber⟩)) hcounted hspawned
      rw [List.append_assoc] at hcount hsharing
      refine ⟨as, s', w', hafter, ?_, ⟨hadds.entries, hadds.each⟩, hcount, hsharing⟩
      rw [Order.requests, attendFrom, after, serve_spawn_attended]
      exact hwatched
    | tick frame =>
      have hbefore : Sharing company delays scripts w.slots ([] ++ s.tasks) log := h
      obtain ⟨as, hsweep, hround⟩ :=
        sweeps_advanceTasks (company.withTranscript delays) frame s.tasks w log
      obtain ⟨hadds, hnext⟩ := hsweep.sharing hbefore
      obtain ⟨bs, s', w', hafter, hwatched, hmore, hcount, hsharing⟩ :=
        ih (s := (s.tick (company.withTranscript delays) frame w).scheduler) hnumber hnext
      rw [List.append_assoc] at hwatched hsharing
      refine ⟨as ++ bs, s', w', hafter, ?_, hadds.trans hmore, hcount, hsharing⟩
      rw [Order.requests, attendFrom, after, serve_tick_attended hround]
      exact hwatched

end Scheduler

/-- A transcript records the paths that were played.  When one accepted script is played, what was
added after any frame is the beginning of a path through it, and a whole path if the script is done.
When any number of them are started in between the ticks of a scheduler, entries are only ever added,
and they are those that were entered during the appearances of the tasks, one after the other; what
was recorded of each task is the beginning of a path through its script, and a whole path if the task
is done. -/
theorem accepted_scripts_record_paths {A α : Type} (company : Company A α) (delays : Delays)
    (w : World A Transcript) :
    let host := company.withTranscript delays
    (∀ (script : AcceptedScript) (frames : List Frame),
      ∀ s ∈ Action.advances host frames (script.action host) w,
        ∃ added path, s.world.bubbles.entries = w.bubbles.entries ++ added ∧
          IsPath script.statements path ∧ added.map (·.record) <+: path ∧
          (s.outcome = .ok .done → added.map (·.record) = path)) ∧
    ∀ orders : List Order,
      let requests := Order.requests host orders
      let after := Scheduler.empty.after host requests w
      ∃ log, Scheduler.empty.after host.attended (Scheduler.attendFrom 0 requests) ⟨w, []⟩ =
          (after.1.attended, ⟨after.2, log⟩) ∧
        Adds w log after.2 ∧
        (∀ a ∈ log, a.name.number < (Order.started orders).length) ∧
        (∀ n (script : AcceptedScript), (Order.started orders)[n]? = some script →
          script.Follows ⟨n⟩ log) ∧
        ∀ earlier later, orders = earlier ++ later →
          (Scheduler.empty.after host (Order.requests host earlier) w).2.bubbles.entries <+:
            after.2.bubbles.entries := by
  intro host
  constructor
  · intro script frames s hs
    have hstart : script.Performing company delays w.slots [] (script.action host) :=
      script.performing_action w.slots
    obtain ⟨added, hentries, ⟨p, hp⟩, hdone⟩ := hstart.advances frames s hs
    rw [List.nil_append] at hp hdone
    by_cases ho : s.outcome = .ok .done
    · exact ⟨added, _, hentries, hdone ho, List.prefix_refl _, fun _ => rfl⟩
    · exact ⟨added, _, hentries, hp, List.prefix_append _ _, fun h => absurd h ho⟩
  · intro orders requests after
    have hempty : Scheduler.Sharing company delays [] w.slots Scheduler.empty.tasks [] :=
      ⟨by simp [Scheduler.empty], by simp [Scheduler.empty], by simp, by simp⟩
    obtain ⟨log, s', w', hafter, hwatched, hadds, -, hsharing⟩ := hempty.exists_after rfl orders
    have hafter' : after = (s', w') := hafter
    rw [hafter']
    refine ⟨log, hwatched, hadds, hsharing.known, hsharing.follows, ?_⟩
    rintro earlier later rfl
    obtain ⟨first, s₁, w₁, hearlier, -, -, hcount, hsharing₁⟩ := hempty.exists_after rfl earlier
    obtain ⟨second, s₂, w₂, hlater, -, hmore, -, -⟩ := hsharing₁.exists_after hcount later
    rw [Order.requests_append, Scheduler.after_append, hearlier, hlater] at hafter
    rw [hearlier, ← (Prod.mk.inj hafter).2, hmore.entries]
    exact List.prefix_append _ _

namespace Rehearsal

/-- The choice that Ann is asked, as it was accepted. -/
def annAsked : AcceptedScript :=
  ⟨annAlone.stage ⟨[]⟩, .standard, Script.written askScript, askScript, readScript_askScript⟩

/-- Two choices end with the same submit; in the first of them the label was moved before. -/
example :
    let host := puppets.withTranscript ⟨.zero, .zero⟩
    let w : World Cast Transcript := ⟨annAlone, .empty, .empty, .empty, #[]⟩
    let orders := [.start annAsked, .tick {}, .tick {}, .tick ⟨.zero, { next := true }⟩,
      .start annAsked, .tick {}, .tick {}, .tick {}, .tick ⟨.zero, { submit := true }⟩]
    (Scheduler.empty.after host (Order.requests host orders) w).2.bubbles.entries.map (·.record) =
      [.choice ["No", "Yes"] 1, .choice ["No", "Yes"] 0, .line "Oh"] := by
  decide +kernel

end Rehearsal

end Promptbook
