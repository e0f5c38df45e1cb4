import Promptbook.Proofs.Performance.Performable
import Promptbook.Proofs.Scheduler.Requests
import Promptbook.Proofs.Script.ReadingBack
import Promptbook.Rehearsal.Puppet

set_option autoImplicit false

/-!
# Accepted scripts do not fail

Played frame by frame, alone or as one of any number of tasks that share a transcript, an accepted
script never reports an error: `accepted_scripts_do_not_fail`.
-/

namespace Promptbook

open Bubble (Delays Transcript OpenBubble ChoiceBubble)

/-! ## Work in progress -/

namespace Action

variable {W κ : Type}

mutual

/-- The animations and bubbles that are in progress in an action. -/
def works : Action W κ → List κ
  | .machine work => [work]
  | .sequence children => worksOf children
  | .parallel children => worksOf children
  | .speaking _ _ bubble => [bubble]
  | .prompt _ branches => worksOf branches
  | .choosing _ _ bubble branches => bubble :: worksOf branches
  | .following branch => works branch
  | .wait _ | .waitUntil _ | .effect _ | .finished | .deferred _ _ | .speak _ => []

/-- The animations and bubbles that are in progress in actions. -/
def worksOf : List (Action W κ) → List κ
  | [] => []
  | a :: rest => works a ++ worksOf rest

end

theorem mem_worksOf {work : κ} {actions : List (Action W κ)} :
    work ∈ worksOf actions ↔ ∃ a ∈ actions, work ∈ works a := by
  induction actions with
  | nil => simp [worksOf]
  | cons a rest ih => simp [worksOf, ih]

end Action

variable {A α : Type} {company : Company A α} {delays : Delays} {fit : A → Prop} {sound : α → Prop}

/-- Every open choice of a performable action highlights a label that exists. -/
theorem Action.Performable.inRange {slots : Nat}
    {a : Action (World A Transcript) (α ⊕ OpenBubble)}
    (h : a.Performable company delays fit sound slots) {b : ChoiceBubble}
    (hb : .inr (.choice b) ∈ a.works) : b.InRange := by
  induction h with
  | animation _ | cue _ | assignment _ | finished | speak _ | speaking _ _ _ =>
    simp [works, ofCue, ofAssignment] at hb
  | sequence _ ih =>
    obtain ⟨c, hc, hb⟩ := mem_worksOf.mp hb
    exact ih c hc hb
  | parallel _ ih =>
    obtain ⟨c, hc, hb⟩ := mem_worksOf.mp hb
    exact ih c hc hb
  | prompt _ _ _ ih =>
    obtain ⟨c, hc, hb⟩ := mem_worksOf.mp hb
    exact ih c hc hb
  | choosing hput _ ih =>
    rcases List.mem_cons.mp hb with heq | hb
    · obtain rfl : b = _ := by simpa using heq
      exact hput.inRange
    · obtain ⟨c, hc, hb⟩ := mem_worksOf.mp hb
      exact ih c hc hb
  | following _ ih => exact ih hb

/-! ## One script -/

/-- The action of a text that was accepted on a stage whose animations never fail. -/
def Accepted (company : Company A α) (delays : Delays) (fit : A → Prop) (sound : α → Prop)
    (action : Action (World A Transcript) (α ⊕ OpenBubble)) : Prop :=
  ∃ (stage : Stage) (settings : Settings) (content : String) (script : List Script.Statement),
    company.Reliable stage fit sound ∧ (Script.readScript stage content).result = .ok script ∧
      action = .ofScript (company.withTranscript delays) settings script

/-- An accepted action is a sequence of performable actions. -/
theorem Accepted.exists_sequence {action : Action (World A Transcript) (α ⊕ OpenBubble)}
    (h : Accepted company delays fit sound action) (slots : Nat) :
    ∃ stage children, company.Reliable stage fit sound ∧ action = .sequence children ∧
      Action.AllPerformable company delays fit sound slots children := by
  obtain ⟨stage, settings, content, script, hr, hread, rfl⟩ := h
  exact ⟨stage, _, hr, rfl,
    Action.Performable.ofStatements hr settings (Script.playable_of_readLines hread)⟩

/-- A sequence of performable actions does not fail, however often it is advanced. -/
theorem advances_sequence_of_allPerformable {stage : Stage}
    (hr : company.Reliable stage fit sound) {frames : List Frame}
    {children : List (Action (World A Transcript) (α ⊕ OpenBubble))} {w : World A Transcript}
    (hfit : fit w.actors)
    (hready : Action.AllPerformable company delays fit sound w.slots children)
    (hoverflow :
      ∀ s ∈ Action.advances (company.withTranscript delays) frames (.sequence children) w,
        s.outcome ≠ .error .overflow) :
    ∀ s ∈ Action.advances (company.withTranscript delays) frames (.sequence children) w,
      (∃ p, s.outcome = .ok p) ∧
        ∀ b : ChoiceBubble, .inr (.choice b) ∈ s.next.works → b.InRange := by
  induction frames generalizing children w with
  | nil => simp [Action.advances]
  | cons frame frames ih =>
    rw [Action.advances, Action.advance] at hoverflow ⊢
    obtain ⟨hnow, hlater⟩ := List.forall_mem_cons.mp hoverflow
    have hchild (c : Action (World A Transcript) (α ⊕ OpenBubble)) (hc : c ∈ children)
        (v : World A Transcript) (hv : fit v.actors) (hle : w.slots ≤ v.slots) :=
      (hready c hc).advance hr frame hv hle
    have hstep : ∃ p, (Action.advanceSequence (company.withTranscript delays) frame children
          w).outcome = .ok p ∧
        Kept fit w (Action.advanceSequence (company.withTranscript delays) frame children w).world ∧
        Action.AllPerformable company delays fit sound
          (Action.advanceSequence (company.withTranscript delays) frame children w).world.slots
          (Action.advanceSequence (company.withTranscript delays) frame children w).next := by
      cases carried_advanceSequence hfit hready hchild with
      | overflow ho => exact absurd ho hnow
      | done ho hkept =>
        refine ⟨.done, ho, hkept, ?_⟩
        rw [Action.next_advanceSequence ho]
        simp [Action.AllPerformable]
      | running ho hkept hnext => exact ⟨.running, ho, hkept, hnext⟩
    obtain ⟨p, ho, hkept, hnext⟩ := hstep
    refine List.forall_mem_cons.mpr ⟨⟨⟨p, ho⟩, fun b hb => ?_⟩, ih hkept.fit hnext hlater⟩
    exact (Action.Performable.sequence hnext).inRange hb

/-! ## Many scripts -/

/-- A task that does not fail next. -/
def Unfailing (company : Company A α) (delays : Delays) (fit : A → Prop) (sound : α → Prop)
    (slots : Nat) (task : TaskId × Action (World A Transcript) (α ⊕ OpenBubble)) : Prop :=
  ∃ stage, company.Reliable stage fit sound ∧
    task.2.Performable company delays fit sound slots

theorem Unfailing.mono {slots more : Nat} (hle : slots ≤ more)
    {task : TaskId × Action (World A Transcript) (α ⊕ OpenBubble)}
    (h : Unfailing company delays fit sound slots task) :
    Unfailing company delays fit sound more task := by
  obtain ⟨stage, hr, hready⟩ := h
  exact ⟨stage, hr, hready.mono hle⟩

/-- Tasks that do not fail leave tasks that do not. -/
theorem advanceTasks_of_unfailing (frame : Frame)
    {tasks : List (TaskId × Action (World A Transcript) (α ⊕ OpenBubble))}
    {w : World A Transcript} (hfit : fit w.actors)
    (hready : ∀ t ∈ tasks, Unfailing company delays fit sound w.slots t) :
    (Scheduler.advanceTasks (company.withTranscript delays) frame tasks w).result =
        .error .overflow ∨
      (Scheduler.advanceTasks (company.withTranscript delays) frame tasks w).result = .ok () ∧
      Kept fit w (Scheduler.advanceTasks (company.withTranscript delays) frame tasks w).world ∧
      ∀ t ∈ (Scheduler.advanceTasks (company.withTranscript delays) frame tasks w).tasks,
        Unfailing company delays fit sound
          (Scheduler.advanceTasks (company.withTranscript delays) frame tasks w).world.slots t := by
  induction tasks generalizing w with
  | nil => exact .inr ⟨rfl, .refl hfit, by simp [Scheduler.advanceTasks]⟩
  | cons task rest ih =>
    obtain ⟨id, action⟩ := task
    obtain ⟨⟨stage, hr, haction⟩, hrest⟩ := List.forall_mem_cons.mp hready
    have hothers {v : World A Transcript} (hkept : Kept fit w v) :=
      ih hkept.fit fun t ht => (hrest t ht).mono hkept.slots_le
    rw [Scheduler.advanceTasks]
    dsimp only
    cases haction.advance hr frame hfit (Nat.le_refl _) with
    | overflow ho =>
      rw [ho]
      exact .inl rfl
    | done ho hkept =>
      rw [ho]
      rcases hothers (hkept.record (.finished id)) with hoverflow | ⟨hok, hlast, hleft⟩
      · exact .inl hoverflow
      · exact .inr ⟨hok, (hkept.record _).trans hlast, hleft⟩
    | running ho hkept hnext =>
      rw [ho]
      rcases hothers hkept with hoverflow | ⟨hok, hlast, hleft⟩
      · exact .inl hoverflow
      · refine .inr ⟨hok, hkept.trans hlast, List.forall_mem_cons.mpr ⟨⟨stage, hr, ?_⟩, hleft⟩⟩
        exact hnext.mono hlast.slots_le

/-- A request of a scheduler whose tasks do not fail is no failure and leaves such tasks. -/
theorem serve_of_unfailing {s : Scheduler (World A Transcript) (α ⊕ OpenBubble)}
    {w : World A Transcript} (hfit : fit w.actors)
    (hready : ∀ t ∈ s.tasks, Unfailing company delays fit sound w.slots t)
    {r : Request (World A Transcript) (α ⊕ OpenBubble)}
    (haccepted : ∀ action, .spawn action = r → Accepted company delays fit sound action)
    (hoverflow : (s.serve (company.withTranscript delays) w r).answer ≠
      .ticked (.error .overflow)) :
    (∀ result, (s.serve (company.withTranscript delays) w r).answer = .ticked result →
        result = .ok ()) ∧
      fit (s.serve (company.withTranscript delays) w r).world.actors ∧
      ∀ t ∈ (s.serve (company.withTranscript delays) w r).scheduler.tasks,
        Unfailing company delays fit sound
          (s.serve (company.withTranscript delays) w r).world.slots t := by
  cases r with
  | spawn action =>
    obtain ⟨stage, children, hr, rfl, hchildren⟩ := (haccepted action rfl).exists_sequence w.slots
    refine ⟨fun result h => by simp [Scheduler.serve] at h, hfit, ?_⟩
    refine List.forall_mem_append.mpr ⟨hready, ?_⟩
    rw [List.forall_mem_singleton]
    exact ⟨stage, hr, .sequence hchildren⟩
  | tick frame =>
    rcases advanceTasks_of_unfailing frame hfit hready with ho | ⟨hok, hkept, hleft⟩
    · exact absurd (congrArg Answer.ticked ho) hoverflow
    · refine ⟨fun result h => ?_, hkept.fit, hleft⟩
      exact (Answer.ticked.inj h).symm.trans hok

/-- Tasks of accepted scripts do not fail, whatever a scheduler is asked for. -/
theorem services_of_unfailing
    {requests : List (Request (World A Transcript) (α ⊕ OpenBubble))}
    {s : Scheduler (World A Transcript) (α ⊕ OpenBubble)} {w : World A Transcript}
    (hfit : fit w.actors) (hready : ∀ t ∈ s.tasks, Unfailing company delays fit sound w.slots t)
    (haccepted : ∀ action, .spawn action ∈ requests → Accepted company delays fit sound action)
    (hoverflow : ∀ v ∈ s.services (company.withTranscript delays) requests w,
      v.answer ≠ .ticked (.error .overflow)) :
    ∀ v ∈ s.services (company.withTranscript delays) requests w,
      (∀ r, v.answer = .ticked r → r = .ok ()) ∧ ∀ t ∈ v.scheduler.tasks,
        ∀ b : ChoiceBubble, .inr (.choice b) ∈ t.2.works → b.InRange := by
  induction requests generalizing s w with
  | nil => simp [Scheduler.services]
  | cons r rest ih =>
    rw [Scheduler.services] at hoverflow ⊢
    obtain ⟨hnow, hlater⟩ := List.forall_mem_cons.mp hoverflow
    obtain ⟨hok, hkept, hleft⟩ := serve_of_unfailing hfit hready
      (fun action h => haccepted action (h ▸ List.mem_cons_self)) hnow
    refine List.forall_mem_cons.mpr ⟨⟨hok, fun t ht b hb => ?_⟩, ih hkept hleft ?_ hlater⟩
    · obtain ⟨stage, hr, hready⟩ := hleft t ht
      exact hready.inRange hb
    · exact fun action h => haccepted action (List.mem_cons_of_mem _ h)

/-- An accepted script never fails, unless a sum of durations overflows, and an open choice always
highlights a label that it has.  The same is true of any number of accepted scripts that are spawned
in between ticks and share one transcript: every tick is a success. -/
theorem accepted_scripts_do_not_fail {A α : Type} (company : Company A α) (delays : Delays)
    (fit : A → Prop) (sound : α → Prop) (w : World A Transcript) (hfit : fit w.actors) :
    (∀ action frames, Accepted company delays fit sound action →
      (∀ s ∈ Action.advances (company.withTranscript delays) frames action w,
        s.outcome ≠ .error .overflow) →
      ∀ s ∈ Action.advances (company.withTranscript delays) frames action w,
        (∃ p, s.outcome = .ok p) ∧
          ∀ b : ChoiceBubble, .inr (.choice b) ∈ s.next.works → b.InRange) ∧
    ∀ requests : List (Request (World A Transcript) (α ⊕ OpenBubble)),
      (∀ action, .spawn action ∈ requests → Accepted company delays fit sound action) →
      (∀ v ∈ Scheduler.empty.services (company.withTranscript delays) requests w,
        v.answer ≠ .ticked (.error .overflow)) →
      ∀ v ∈ Scheduler.empty.services (company.withTranscript delays) requests w,
        (∀ r, v.answer = .ticked r → r = .ok ()) ∧
          ∀ t ∈ v.scheduler.tasks,
            ∀ b : ChoiceBubble, .inr (.choice b) ∈ t.2.works → b.InRange := by
  constructor
  · intro action frames haccepted hoverflow
    obtain ⟨stage, children, hr, rfl, hready⟩ := haccepted.exists_sequence w.slots
    exact advances_sequence_of_allPerformable hr hfit hready hoverflow
  · intro requests haccepted hoverflow
    exact services_of_unfailing hfit (by simp [Scheduler.empty]) haccepted hoverflow

/-! ## Puppets -/

namespace Rehearsal

/-- No routine of a puppet ever fails. -/
def Cast.Steady (c : Cast) : Prop := ∀ id, ∀ r ∈ (c.puppet id).routines, r.failAt = 0

/-- The animation of a routine that never fails. -/
def Part.Steady : Part → Prop
  | waiting _ => True
  | counting _ r _ => r.failAt = 0
  | drill _ _ _ => True
  | mishap _ _ _ _ => False

theorem Part.steady_ofRoutine {r : Routine} (h : r.failAt = 0) (actor : String) :
    (Part.ofRoutine actor r).Steady := by
  unfold Part.ofRoutine
  split
  · trivial
  · exact h

/-- Work that never fails goes on as such, and does not fail. -/
theorem Part.Steady.advance {work : Part} (h : work.Steady) (frame : Frame) :
    (work.advance frame).2.1.Steady ∧
      ∀ error, (work.advance frame).1 ≠ .error (.failed error) := by
  cases work with
  | waiting timer =>
    refine ⟨trivial, fun error he => ?_⟩
    change (timer.advance frame.delta).1 = _ at he
    rcases timer.advance_cases frame.delta with ho | ⟨p, hp⟩
    · simp [ho] at he
    · simp [hp] at he
  | counting actor r n =>
    have hnever : ¬n + 1 = r.failAt := by
      rw [show r.failAt = 0 from h]
      exact Nat.succ_ne_zero n
    unfold Part.advance
    simp only [hnever, if_false]
    split <;> exact ⟨h, by simp⟩
  | drill name ticks n =>
    unfold Part.advance
    dsimp only
    split <;> exact ⟨trivial, by simp⟩
  | mishap name ticks n error => exact absurd h id

theorem Cast.routines_update (c : Cast) (id : ActorId) {f : Puppet → Puppet}
    (hf : ∀ p, (f p).routines = p.routines) (other : ActorId) :
    ((c.update id f).puppet other).routines = (c.puppet other).routines := by
  simp only [Cast.puppet, Cast.update, List.getD_eq_getElem?_getD, List.getElem?_modify]
  by_cases heq : id.index = other.index
  · cases c.puppets[other.index]? <;> simp [heq, hf]
  · cases c.puppets[other.index]? <;> simp [heq]

theorem Cast.Steady.update {c : Cast} (hc : c.Steady) (id : ActorId) {f : Puppet → Puppet}
    (hf : ∀ p, (f p).routines = p.routines) : (c.update id f).Steady := by
  intro other r hr
  rw [c.routines_update id hf other] at hr
  exact hc other r hr

/-- Puppets without a routine that fails are reliable on every stage. -/
theorem reliable_puppets (stage : Stage) :
    puppets.Reliable stage Cast.Steady Part.Steady where
  plays actor animation _ c hc := by
    refine ⟨Part.steady_ofRoutine ?_ _, hc⟩
    cases hfound : (c.puppet actor).routines.find? fun r => r.name == animation with
    | none => rfl
    | some r => exact hc actor r (List.mem_of_find?_eq_some hfound)
  setParameter actor name value c hc := hc.update actor fun p => rfl
  step_fit work frame c hc hwork := hc
  step_sound work frame c hc hwork hrunning := (hwork.advance frame).1
  step_ne_failed work frame c hc hwork := (hwork.advance frame).2

/-- A choice between a line and an animation. -/
def askScript : List Script.Statement :=
  [.choice ⟨"Ann", ⟨0⟩⟩
    [("No", [.dialogue ⟨⟨"Ann", ⟨0⟩⟩, "Oh", .ofIndex 2⟩]),
      ("Yes", [.animation [⟨⟨"Ann", ⟨0⟩⟩, "nod"⟩]])]
    (.ofIndex 0)]

/-- One puppet, who can nod. -/
def annAlone : Cast := Cast.empty.enter ⟨"Ann", default, [], [{ name := "nod", ticks := 2 }]⟩

/-- The choice is put, the second label is submitted, and the animation takes two frames. -/
def askFrames : List Frame :=
  [{}, {}, ⟨.zero, { next := true }⟩, {}, ⟨.zero, { submit := true }⟩, {}]

/-- A script in which every line has the number that it is printed with is accepted as it is, on every
stage that has what it names. -/
theorem readScript_of_placed {stage : Stage} {script : List Script.Statement}
    (hplaced : Script.placedFrom 0 script = script)
    (hw : ∀ t ∈ Script.partsOf script, t.Writable)
    (hs : ∀ t ∈ Script.partsOf script, t.StandsOn stage) :
    (Script.readScript stage (Script.written script)).result = .ok script := by
  rw [Script.readScript, Script.scriptLines_written hw, Script.readLines_of_readsBack]
  · exact congrArg Except.ok hplaced
  · intro s hmem
    exact Script.Statement.readsBack (fun t ht => hw t (Script.mem_partsOf.mpr ⟨s, hmem, ht⟩))
      fun t ht => hs t (Script.mem_partsOf.mpr ⟨s, hmem, ht⟩)

/-- The choice is accepted on every stage that has its animation. -/
theorem readScript_askScript_of_standsOn {stage : Stage}
    (hs : ∀ t ∈ Script.partsOf askScript, t.StandsOn stage) :
    (Script.readScript stage (Script.written askScript)).result = .ok askScript :=
  readScript_of_placed rfl (by decide +kernel) hs

theorem readScript_askScript :
    (Script.readScript (annAlone.stage ⟨[]⟩) (Script.written askScript)).result =
      .ok askScript :=
  readScript_askScript_of_standsOn (by decide +kernel)

theorem accepted_annAlone :
    Accepted puppets ⟨.zero, .zero⟩ Cast.Steady Part.Steady
      (.ofScript (puppets.withTranscript ⟨.zero, .zero⟩) .standard askScript) :=
  ⟨annAlone.stage ⟨[]⟩, .standard, Script.written askScript, askScript, reliable_puppets _,
    readScript_askScript, rfl⟩

theorem steady_annAlone : annAlone.Steady := by
  rintro ⟨_ | n⟩ r hr
  · obtain rfl := List.mem_singleton.mp hr
    rfl
  · simp [annAlone, Cast.enter, Cast.empty, Cast.puppet] at hr
    exact absurd hr (by simp [default, instInhabitedPuppet.default])

/-- The choice alone, and twice at the same time. -/
theorem askScript_does_not_fail :
    let host := puppets.withTranscript ⟨.zero, .zero⟩
    let action := Action.ofScript host .standard askScript
    let w : World Cast Transcript := ⟨annAlone, .empty, .empty, .empty, #[]⟩
    annAlone.Steady ∧
      (∀ s ∈ Action.advances host askFrames action w, (∃ p, s.outcome = .ok p) ∧
        ∀ b : ChoiceBubble, .inr (.choice b) ∈ s.next.works → b.InRange) ∧
      ∀ v ∈ Scheduler.empty.services host
          (.spawn action :: .spawn action :: askFrames.map .tick) w,
        (∀ r, v.answer = .ticked r → r = .ok ()) ∧
          ∀ t ∈ v.scheduler.tasks,
            ∀ b : ChoiceBubble, .inr (.choice b) ∈ t.2.works → b.InRange := by
  intro host action w
  obtain ⟨halone, htogether⟩ := accepted_scripts_do_not_fail puppets ⟨.zero, .zero⟩ Cast.Steady
    Part.Steady w steady_annAlone
  refine ⟨steady_annAlone, halone action askFrames accepted_annAlone (by decide +kernel),
    htogether _ (fun a ha => ?_) (by decide +kernel)⟩
  have heq : a = action := by simpa [askFrames] using ha
  exact heq ▸ accepted_annAlone

end Rehearsal

end Promptbook
