import Promptbook.Proofs.Bubble.Limits
import Promptbook.Proofs.Performance.Recording
import Promptbook.Proofs.Performance.Remainder
import Promptbook.Proofs.Performance.Soundness
import Promptbook.Proofs.Scheduler.Rounds

set_option autoImplicit false

/-!
# Performances that do not overflow

Whatever is in progress in a performance carries less time into the next frame than one delay, be it
that of a bubble or of an animation that waits: `Spot.Within` says so, every move and every halt
keeps it, whether the frame overflows or not.  So no sum overflows in a frame whose time and the
longest delay are not too much together, and it does not matter how many frames came before or how
many tasks share the scheduler.
-/

namespace Promptbook

open Bubble (Delays Transcript OpenBubble Reveal)
open Script (Statement Cue Assignment)

/-! ## Actors -/

/-- The animations of a stage do not reckon with time, or they wait for a duration that is not
longer than the longest.  `tempo` relates work to the timer in it if it waits, and to nothing if it
does not reckon with time. -/
structure Company.WaitsWithin {A α : Type} (company : Company A α) (stage : Stage) (fit : A → Prop)
    (tempo : α → Option Timer → Prop) (longest : Duration) : Prop where
  setParameter : ∀ actor name value a, fit a → fit (company.setParameter actor name value a).1
  plays : ∀ actor animation, stage.hasAnimation actor animation = true → ∀ a, fit a →
    fit (company.play actor animation a).1.2 ∧
      (tempo (company.play actor animation a).1.1 none ∨
        ∃ duration ≤ longest, tempo (company.play actor animation a).1.1 (some (.start duration)))
  step_fit : ∀ work time frame a, tempo work time → fit a →
    fit (company.step work frame a).1.world
  untimed : ∀ work frame a, tempo work none → fit a →
    (company.step work frame a).1.outcome ≠ .error .overflow ∧
      ((company.step work frame a).1.outcome ≠ .ok .done →
        tempo (company.step work frame a).1.next none)
  timed : ∀ work timer frame a, tempo work (some timer) → fit a →
    (company.step work frame a).1.outcome = (timer.advance frame.delta).1 ∧
      ((company.step work frame a).1.outcome ≠ .ok .done →
        tempo (company.step work frame a).1.next (some (timer.advance frame.delta).2))

section Limits

variable {A α : Type} {company : Company A α} {delays : Delays} {stage : Stage}
  {fit : A → Prop} {tempo : α → Option Timer → Prop} {longest : Duration}

/-- An animation whose timer, if it has one, carries over no more than its duration. -/
def AnimationWithin (tempo : α → Option Timer → Prop) (longest : Duration)
    (work : α ⊕ OpenBubble) : Prop :=
  ∃ animation time, work = .inl animation ∧ tempo animation time ∧
    ∀ timer ∈ time, timer.Within longest

variable (delays) in
/-- An animation that begins carries nothing over. -/
theorem Company.WaitsWithin.play (hc : company.WaitsWithin stage fit tempo longest) {cue : Cue}
    (hcue : stage.hasAnimation cue.performer.actor cue.animation = true) {w : World A Transcript}
    (hfit : fit w.actors) :
    ∃ work after, (company.withTranscript delays).play cue.performer.actor cue.animation
        ((company.withTranscript delays).record (.playing cue) w) = (work, after) ∧
      AnimationWithin tempo longest work ∧ fit after.actors := by
  obtain ⟨hafter, htempo⟩ := hc.plays _ _ hcue w.actors hfit
  refine ⟨_, _, rfl, ?_, ?_⟩
  · rcases htempo with hnone | ⟨duration, hle, hsome⟩
    · exact ⟨_, none, rfl, hnone, by simp⟩
    · refine ⟨_, _, rfl, hsome, fun timer ht => ?_⟩
      exact Option.some.inj ht ▸ Timer.within_start hle
  · simp only [Company.withTranscript, Host.ofParts, World.remark, World.actors_recordAll]
    exact hafter

/-- A frame of an animation carries over no more than its duration, and does not overflow if it
fits. -/
theorem Company.WaitsWithin.step (hc : company.WaitsWithin stage fit tempo longest)
    {work : α ⊕ OpenBubble} (hwork : AnimationWithin tempo longest work) (frame : Frame)
    {w : World A Transcript} (hfit : fit w.actors) :
    let s := (company.withTranscript delays).step work frame w
    (s.outcome ≠ .ok .done → AnimationWithin tempo longest s.next) ∧ fit s.world.actors ∧
      ∀ fault, s.outcome = .error fault → frame.Fits longest → fault ≠ .overflow := by
  obtain ⟨animation, time, rfl, htempo, htime⟩ := hwork
  refine ⟨fun hne => ?_, ?_, fun fault hfault hfits heq => ?_⟩
  · cases time with
    | none => exact ⟨_, none, rfl, (hc.untimed _ _ _ htempo hfit).2 hne, by simp⟩
    | some timer =>
      obtain ⟨houtcome, hnext⟩ := hc.timed _ _ frame _ htempo hfit
      refine ⟨_, _, rfl, hnext hne, fun timer' ht => ?_⟩
      exact Option.some.inj ht ▸ (htime timer rfl).advance frame.delta fun hdone =>
        hne (houtcome.trans hdone)
  · simp only [Company.withTranscript, Host.ofParts, Host.stepActor, World.remark,
      World.actors_recordAll]
    exact hc.step_fit _ _ _ _ htempo hfit
  · subst heq
    cases time with
    | none => exact (hc.untimed _ _ _ htempo hfit).1 hfault
    | some timer =>
      exact (htime timer rfl).ne_overflow hfits ((hc.timed _ _ _ _ htempo hfit).1.symm.trans hfault)

/-- Bubbles leave the actors alone, carry over no more than a delay, and do not overflow in a frame
that fits. -/
theorem within_of_step_bubble {b : OpenBubble} (hb : b.Within longest) {frame : Frame}
    {w after : World A Transcript} {outcome : Outcome} {next : α ⊕ OpenBubble}
    (h : (company.withTranscript delays).step (.inr b) frame w = ⟨outcome, next, after⟩) :
    (∃ b' : OpenBubble, next = .inr b' ∧ b'.Within longest) ∧ after.actors = w.actors ∧
      (frame.Fits longest → outcome ≠ .error .overflow) := by
  have hactors := actors_of_step_bubble h
  obtain ⟨rfl, rfl, rfl⟩ := Step.mk.inj h
  obtain ⟨hnext, hfits⟩ := hb.advance frame (w.bubbles, w.selections)
  exact ⟨⟨_, rfl, hnext⟩, hactors, hfits⟩

/-! ## Spots -/

/-- What is in progress carries over no more than a delay. -/
inductive Business.Within (tempo : α → Option Timer → Prop) (longest : Duration) :
    Business (α ⊕ OpenBubble) → Prop where
  | speaking {d : Delivery} {talking : Bool} {b : OpenBubble} (hb : b.Within longest) :
      Within tempo longest (.speaking d talking (.inr b))
  | playing {parts : List ((α ⊕ OpenBubble) ⊕ Cue)}
      (hworks : ∀ work, .inl work ∈ parts → AnimationWithin tempo longest work) :
      Within tempo longest (.playing parts)
  | stored : Within tempo longest .stored
  | choosing {q : Question} {slot : Slot} {b : OpenBubble}
      {branches : List (String × List Statement)} (hb : b.Within longest) :
      Within tempo longest (.choosing q slot (.inr b) branches)

/-- A frame of animations, and of cues that can be played. -/
theorem stepParts_within (hc : company.WaitsWithin stage fit tempo longest)
    {parts : List ((α ⊕ OpenBubble) ⊕ Cue)}
    (h : (Business.playing parts).Within tempo longest)
    (hcues : (Business.playing parts).All (Statement.Playable stage)) (frame : Frame)
    {w : World A Transcript} (hfit : fit w.actors) :
    let s := (company.withTranscript delays).stepParts frame parts w
    (Business.playing s.next).Within tempo longest ∧ fit s.world.actors ∧
      (frame.Fits longest → s.outcome ≠ .error .overflow) := by
  have hplay (cue : Cue) (hcue : .inr cue ∈ parts) :
      stage.hasAnimation cue.performer.actor cue.animation = true := by
    obtain ⟨cues, hmem, hplayable⟩ := hcues cue hcue
    exact hplayable cue hmem
  cases h with
  | playing hworks =>
    obtain ⟨hnext, hworld, hfaults⟩ := Host.stepParts_carries
      (I := fun v : World A Transcript => fit v.actors) (P := AnimationWithin tempo longest)
      (Q := fun fault => frame.Fits longest → fault ≠ .overflow)
      (fun cue hcue v hv => hc.play delays (hplay cue hcue) hv)
      (fun work v hwork hv => hc.step hwork frame hv) hworks hfit
    exact ⟨.playing hnext, hworld, fun hfits hoverflow => hfaults _ hoverflow hfits rfl⟩

/-- What is in progress at a spot carries over no more than a delay, what is still to come can be
played, and the actors are fit. -/
structure Spot.Within (stage : Stage) (fit : A → Prop) (tempo : α → Option Timer → Prop)
    (longest : Duration) (spot : Spot (α ⊕ OpenBubble)) (w : World A Transcript) : Prop where
  now : ∀ business ∈ spot.now, business.Within tempo longest
  playable : spot.All (Statement.Playable stage)
  fit : fit w.actors

section Frames

variable {settings : Settings} {frame : Frame} {spot spot' : Spot (α ⊕ OpenBubble)}
  {w w' : World A Transcript}

/-- A move carries over no more than a delay. -/
theorem Spot.Within.move (hc : company.WaitsWithin stage fit tempo longest)
    (hopening : delays.opening ≤ longest) (hreveal : delays.reveal ≤ longest)
    (hmove : Move (company.withTranscript delays) settings frame spot w spot' w')
    (h : spot.Within stage fit tempo longest w) : spot'.Within stage fit tempo longest w' := by
  refine ⟨?_, h.playable.move hmove, ?_⟩
  · cases hmove with
    | speak hopen =>
      obtain ⟨position, rfl, -⟩ := Action.openLine_withTranscript hopen
      simpa using .speaking (OpenBubble.within_ofLine hopening hreveal _ _)
    | ask hopen =>
      obtain ⟨⟨position, rfl⟩, -⟩ := Action.openChoices_withTranscript hopen
      simpa using .choosing (OpenBubble.within_ofChoices hopening hreveal _ _ _)
    | play => simpa using .playing (by simp)
    | said _ | played _ | stored | chose _ _ _ => simp
  · cases hmove with
    | speak hopen => exact fit_openLine hc.setParameter hopen h.fit
    | said hstep =>
      cases h.now _ rfl with
      | speaking hb =>
        exact fit_hushing hc.setParameter _ _ (actors_of_step_bubble hstep ▸ h.fit)
    | played _ =>
      exact (stepParts_within hc (h.now _ rfl) (h.playable.now _ rfl) frame h.fit).2.1
    | ask hopen => exact actors_openChoices hopen ▸ h.fit
    | chose hstep _ _ =>
      cases h.now _ rfl with
      | choosing hb => exact actors_of_step_bubble hstep ▸ h.fit
    | play | stored => exact h.fit

/-- A halt carries over no more than a delay, and is no overflow if the frame fits. -/
theorem Spot.Within.halt (hc : company.WaitsWithin stage fit tempo longest) {outcome : Outcome}
    (hhalt : Halt (company.withTranscript delays) frame spot w outcome spot' w')
    (h : spot.Within stage fit tempo longest w) :
    spot'.Within stage fit tempo longest w' ∧
      (frame.Fits longest → outcome ≠ .error .overflow) := by
  have hplayable := h.playable.halt hhalt
  cases hhalt with
  | finished => exact ⟨h, by simp⟩
  | store =>
    exact ⟨⟨by simpa using .stored, hplayable, fit_storing hc.setParameter _ h.fit⟩, by simp⟩
  | speaking hstep _ =>
    cases h.now _ rfl with
    | speaking hb =>
      obtain ⟨⟨b', rfl, hnext⟩, hactors, hfits⟩ := within_of_step_bubble hb hstep
      exact ⟨⟨by simpa using .speaking hnext, hplayable, hactors ▸ h.fit⟩, hfits⟩
  | playing _ =>
    obtain ⟨hnext, hafter, hfits⟩ :=
      stepParts_within hc (h.now _ rfl) (h.playable.now _ rfl) frame h.fit
    exact ⟨⟨by simpa using hnext, hplayable, hafter⟩, hfits⟩
  | choosing hstep _ =>
    cases h.now _ rfl with
    | choosing hb =>
      obtain ⟨⟨b', rfl, hnext⟩, hactors, hfits⟩ := within_of_step_bubble hb hstep
      exact ⟨⟨by simpa using .choosing hnext, hplayable, hactors ▸ h.fit⟩, hfits⟩
  | unselected hstep _ =>
    cases h.now _ rfl with
    | choosing hb =>
      obtain ⟨⟨b', rfl, hnext⟩, hactors, -⟩ := within_of_step_bubble hb hstep
      exact ⟨⟨by simpa using .choosing hnext, hplayable, hactors ▸ h.fit⟩, by simp⟩
  | invalid hstep _ _ =>
    cases h.now _ rfl with
    | choosing hb =>
      obtain ⟨⟨b', rfl, hnext⟩, hactors, -⟩ := within_of_step_bubble hb hstep
      exact ⟨⟨by simpa using .choosing hnext, hplayable, hactors ▸ h.fit⟩, by simp⟩

end Frames

/-! ## Tasks -/

theorem Scheduler.firstError_ne_overflow {error : RuntimeError} {result : Except Fault Unit}
    (h : result ≠ .error .overflow) : firstError error result ≠ .error .overflow := by
  rw [firstError_of_ne h]
  simp

variable (company delays fit tempo longest) in
/-- What is left of a script carries over no more than a delay. -/
def Action.Within (action : Action (World A Transcript) (α ⊕ OpenBubble)) : Prop :=
  ∃ stage settings children spot, company.WaitsWithin stage fit tempo longest ∧
    action = .sequence children ∧ Stands (company.withTranscript delays) settings children spot ∧
    (∀ business ∈ spot.now, business.Within tempo longest) ∧ spot.All (Statement.Playable stage)

/-- The action of an accepted script carries nothing over yet. -/
theorem AcceptedScript.within {script : AcceptedScript}
    (hc : company.WaitsWithin script.stage fit tempo longest) :
    (script.action (company.withTranscript delays)).Within company delays fit tempo longest :=
  ⟨script.stage, script.settings, _, ⟨none, script.statements⟩, hc, rfl, .script _, by simp,
    .script (Script.playable_of_readLines script.accepted)⟩

section Runs

variable (hopening : delays.opening ≤ longest) (hreveal : delays.reveal ≤ longest)
  {w : World A Transcript}

include hopening hreveal

/-- A frame carries over no more than a delay, and does not overflow if it fits. -/
theorem Action.Within.advance {action : Action (World A Transcript) (α ⊕ OpenBubble)}
    (h : action.Within company delays fit tempo longest) (frame : Frame) (hfit : fit w.actors) :
    let s := action.advance (company.withTranscript delays) frame w
    s.next.Within company delays fit tempo longest ∧ fit s.world.actors ∧
      (frame.Fits longest → s.outcome ≠ .error .overflow) := by
  obtain ⟨stage, settings, children, spot, hc, rfl, hstands, hnow, hplayable⟩ := h
  obtain ⟨last, hpasses, hlast⟩ := hstands.passes frame w
  obtain ⟨mid, v, hmid, hhalt⟩ := hpasses.exists_halt
    (fun hmove hJ => Spot.Within.move hc hopening hreveal hmove hJ) ⟨hnow, hplayable, hfit⟩
  obtain ⟨hnext, hfits⟩ := hmid.halt hc hhalt
  rw [Action.advance]
  exact ⟨⟨stage, settings, _, last, hc, rfl, hlast, hnext.now, hnext.playable⟩, hnext.fit, hfits⟩

/-- No frame that fits overflows, however many came before. -/
theorem Action.Within.advances {action : Action (World A Transcript) (α ⊕ OpenBubble)}
    (h : action.Within company delays fit tempo longest) {frames : List Frame}
    (hframes : ∀ frame ∈ frames, frame.Fits longest) (hfit : fit w.actors) :
    ∀ s ∈ action.advances (company.withTranscript delays) frames w,
      s.outcome ≠ .error .overflow := by
  induction frames generalizing action w with
  | nil => simp [advances]
  | cons frame frames ih =>
    obtain ⟨hframe, hlater⟩ := List.forall_mem_cons.mp hframes
    obtain ⟨hnext, hafter, hfits⟩ := h.advance hopening hreveal frame hfit
    rw [advances]
    exact List.forall_mem_cons.mpr ⟨hfits hframe, ih hnext hlater hafter⟩

/-- Tasks that share a tick carry over no more than a delay each. -/
theorem advanceTasks_of_within {frame : Frame} (hframe : frame.Fits longest)
    {tasks : List (TaskId × Action (World A Transcript) (α ⊕ OpenBubble))}
    (htasks : ∀ t ∈ tasks, t.2.Within company delays fit tempo longest) (hfit : fit w.actors) :
    let r := Scheduler.advanceTasks (company.withTranscript delays) frame tasks w
    r.result ≠ .error .overflow ∧ fit r.world.actors ∧
      ∀ t ∈ r.tasks, t.2.Within company delays fit tempo longest := by
  induction tasks generalizing w with
  | nil => exact ⟨by simp [Scheduler.advanceTasks], hfit, by simp [Scheduler.advanceTasks]⟩
  | cons task rest ih =>
    obtain ⟨id, action⟩ := task
    obtain ⟨hfirst, hrest⟩ := List.forall_mem_cons.mp htasks
    obtain ⟨hnext, hafter, hfits⟩ := hfirst.advance hopening hreveal frame hfit
    rw [Scheduler.advanceTasks]
    dsimp only
    split
    · obtain ⟨hresult, hlast, hleft⟩ := ih hrest hafter
      exact ⟨hresult, hlast, List.forall_mem_cons.mpr ⟨hnext, hleft⟩⟩
    · exact ih hrest hafter
    · next error _ =>
      let noted := (company.withTranscript delays).record (.failed id error)
        (action.advance (company.withTranscript delays) frame w).world
      obtain ⟨hresult, hlast, hleft⟩ := ih (w := noted) hrest hafter
      exact ⟨Scheduler.firstError_ne_overflow hresult, hlast, hleft⟩
    · next hoverflow => exact absurd hoverflow (hfits hframe)

/-- A scheduler of such tasks serves a request without an overflow, and is left with such tasks. -/
theorem serve_of_within {s : Scheduler (World A Transcript) (α ⊕ OpenBubble)}
    (htasks : ∀ t ∈ s.tasks, t.2.Within company delays fit tempo longest) (hfit : fit w.actors)
    {r : Request (World A Transcript) (α ⊕ OpenBubble)}
    (hspawned : ∀ action, r = .spawn action → action.Within company delays fit tempo longest)
    (hframe : ∀ frame, r = .tick frame → frame.Fits longest) :
    let v := s.serve (company.withTranscript delays) w r
    v.answer ≠ .ticked (.error .overflow) ∧ fit v.world.actors ∧
      ∀ t ∈ v.scheduler.tasks, t.2.Within company delays fit tempo longest := by
  cases r with
  | spawn action =>
    refine ⟨by simp [Scheduler.serve], hfit, List.forall_mem_append.mpr ⟨htasks, ?_⟩⟩
    exact List.forall_mem_singleton.mpr (hspawned action rfl)
  | tick frame =>
    obtain ⟨hresult, hafter, hleft⟩ :=
      advanceTasks_of_within hopening hreveal (hframe frame rfl) htasks hfit
    exact ⟨fun heq => hresult (Answer.ticked.inj heq), hafter, hleft⟩

/-- Whatever such a scheduler is asked for, no tick that fits overflows. -/
theorem undisturbed_of_within {requests : List (Request (World A Transcript) (α ⊕ OpenBubble))}
    {s : Scheduler (World A Transcript) (α ⊕ OpenBubble)}
    (htasks : ∀ t ∈ s.tasks, t.2.Within company delays fit tempo longest) (hfit : fit w.actors)
    (hspawned : ∀ action, .spawn action ∈ requests →
      action.Within company delays fit tempo longest)
    (hframes : ∀ frame, .tick frame ∈ requests → frame.Fits longest) :
    s.Undisturbed (company.withTranscript delays) requests w := by
  induction requests generalizing s w with
  | nil => simp [Scheduler.Undisturbed, Scheduler.services]
  | cons r rest ih =>
    obtain ⟨hanswer, hafter, hleft⟩ := serve_of_within hopening hreveal htasks hfit
      (fun action heq => hspawned action (heq ▸ List.mem_cons_self))
      fun frame heq => hframes frame (heq ▸ List.mem_cons_self)
    rw [Scheduler.Undisturbed, Scheduler.services]
    refine List.forall_mem_cons.mpr ⟨hanswer, ih hleft hafter ?_ ?_⟩
    · exact fun action h => hspawned action (List.mem_cons_of_mem _ h)
    · exact fun frame h => hframes frame (List.mem_cons_of_mem _ h)

end Runs

end Limits

/-- Only absurd durations overflow.  Let the bubbles of a transcript have delays that are not longer
than the longest, and let the animations wait for no more than that if they reckon with time at all.
Then no accepted script overflows in any of its frames, however many there are, if to the time of
each of them the longest could be added; nor does any tick of a scheduler on which such scripts are
spawned. Taking a delay away from the time for a character never falls below zero either: a text is
revealed just as it is when that is checked. -/
theorem accepted_scripts_do_not_overflow {A α : Type} (company : Company A α) (delays : Delays)
    (fit : A → Prop) (tempo : α → Option Timer → Prop) (longest : Duration)
    (hopening : delays.opening ≤ longest) (hreveal : delays.reveal ≤ longest)
    (w : World A Transcript) (hfit : fit w.actors) :
    let host := company.withTranscript delays
    (∀ (script : AcceptedScript) (frames : List Frame),
      company.WaitsWithin script.stage fit tempo longest →
        (∀ frame ∈ frames, frame.Fits longest) →
          ∀ s ∈ (script.action host).advances host frames w, s.outcome ≠ .error .overflow) ∧
      (∀ requests : List (Request (World A Transcript) (α ⊕ OpenBubble)),
        (∀ action, .spawn action ∈ requests → ∃ script : AcceptedScript,
          company.WaitsWithin script.stage fit tempo longest ∧ action = script.action host) →
        (∀ frame, .tick frame ∈ requests → frame.Fits longest) →
          Scheduler.empty.Undisturbed host requests w) ∧
      ∀ (r : Reveal) (delta : Duration) (display : String),
        r.advanceChecked delta display = r.advance delta display := by
  intro host
  refine ⟨fun script frames hc hframes => ?_, fun requests hspawned hframes => ?_,
    Reveal.advanceChecked_eq⟩
  · exact (AcceptedScript.within hc).advances hopening hreveal hframes hfit
  · have hwithin (action : Action (World A Transcript) (α ⊕ OpenBubble))
        (hmem : .spawn action ∈ requests) : action.Within company delays fit tempo longest := by
      obtain ⟨script, hc, rfl⟩ := hspawned action hmem
      exact AcceptedScript.within hc
    exact undisturbed_of_within hopening hreveal (by simp [Scheduler.empty]) hfit hwithin hframes

/-! ## Puppets -/

namespace Rehearsal

/-- No routine of a puppet waits for longer than that. -/
def Cast.Patient (longest : Duration) (c : Cast) : Prop :=
  ∀ id, ∀ r ∈ (c.puppet id).routines, ∀ duration, r.wait = some duration → duration ≤ longest

/-- The timer in the work of a puppet, if it waits. -/
def Part.timer? : Part → Option Timer
  | waiting timer => some timer
  | counting _ _ _ | drill _ _ _ | mishap _ _ _ _ => none

/-- Work that does not wait goes on without a timer, and does not overflow. -/
theorem Part.advance_of_timer?_eq_none {work : Part} (h : work.timer? = none) (frame : Frame) :
    (work.advance frame).1 ≠ .error .overflow ∧ (work.advance frame).2.1.timer? = none := by
  cases work with
  | waiting timer => simp [timer?] at h
  | counting actor r n =>
    unfold Part.advance
    dsimp only
    split
    · exact ⟨by simp, rfl⟩
    · split <;> exact ⟨by simp, rfl⟩
  | drill name ticks n =>
    unfold Part.advance
    dsimp only
    split <;> exact ⟨by simp, rfl⟩
  | mishap name ticks n error =>
    unfold Part.advance
    dsimp only
    split <;> exact ⟨by simp, rfl⟩

/-- A routine that waits begins with its whole duration before it. -/
theorem Part.timer?_ofRoutine (actor : String) (r : Routine) :
    (Part.ofRoutine actor r).timer? = r.wait.map .start := by
  unfold Part.ofRoutine
  cases r.wait <;> rfl

/-- Puppets wait within their routines on every stage. -/
theorem waitsWithin_puppets (stage : Stage) (longest : Duration) :
    puppets.WaitsWithin stage (Cast.Patient longest) (fun work time => work.timer? = time)
      longest where
  setParameter actor name value c hc := by
    intro other r hr
    have hkept := c.routines_update actor
      (f := fun p => { p with parameters := setEntry name value p.parameters }) (fun _ => rfl) other
    exact hc other r (hkept ▸ hr)
  plays actor animation _ c hc := by
    refine ⟨hc, ?_⟩
    cases hfound : (c.puppet actor).routines.find? fun r => r.name == animation with
    | none =>
      left
      simp [puppets, hfound, Part.timer?_ofRoutine]
    | some r =>
      have hmem := List.mem_of_find?_eq_some hfound
      cases hwait : r.wait with
      | none =>
        left
        simp [puppets, hfound, Part.timer?_ofRoutine, hwait]
      | some duration =>
        right
        refine ⟨duration, hc actor r hmem duration hwait, ?_⟩
        simp [puppets, hfound, Part.timer?_ofRoutine, hwait]
  step_fit work time frame c _ hc := hc
  untimed work frame c hnone _ :=
    ⟨(Part.advance_of_timer?_eq_none hnone frame).1,
      fun _ => (Part.advance_of_timer?_eq_none hnone frame).2⟩
  timed work timer frame c hsome _ := by
    cases work with
    | waiting t =>
      obtain rfl := Option.some.inj hsome
      exact ⟨rfl, fun _ => rfl⟩
    | counting actor r n => simp [Part.timer?] at hsome
    | drill name ticks n => simp [Part.timer?] at hsome
    | mishap name ticks n error => simp [Part.timer?] at hsome

/-- One puppet, whose nod takes an hour. -/
def annPatient : Cast :=
  Cast.empty.enter ⟨"Ann", default, [], [{ name := "nod", wait := some (.ofMillis 3600000) }]⟩

theorem patient_annPatient : annPatient.Patient (.ofMillis 3600000) := by
  rintro ⟨_ | n⟩ r hr duration hwait
  · obtain rfl := List.mem_singleton.mp hr
    obtain rfl := Option.some.inj hwait
    exact Nat.le_refl _
  · simp [annPatient, Cast.enter, Cast.empty, Cast.puppet] at hr
    exact absurd hr (by simp [default, instInhabitedPuppet.default])

/-- The longest time to which an hour can still be added, while the second label is submitted. -/
def endlessFrames : List Frame :=
  let delta : Duration := ⟨Duration.bound - 1 - 3600000000000, by decide⟩
  [⟨delta, {}⟩, ⟨delta, {}⟩, ⟨delta, { next := true }⟩, ⟨delta, {}⟩, ⟨delta, { submit := true }⟩,
    ⟨delta, {}⟩]

/-- Ann is asked and nods, alone and beside another run of the same script, although the times of
any two frames are too much together. -/
theorem askScript_does_not_overflow :
    let host := puppets.withTranscript ⟨.ofMillis 2000, .ofMillis 30⟩
    let action := Action.ofScript host .standard askScript
    let w : World Cast Transcript := ⟨annPatient, .empty, .empty, .empty, #[]⟩
    (∀ frame ∈ endlessFrames, frame.Fits (.ofMillis 3600000) ∧
      ∀ other ∈ endlessFrames, frame.delta.add? other.delta = none) ∧
      (∀ s ∈ action.advances host endlessFrames w, s.outcome ≠ .error .overflow) ∧
      Scheduler.empty.Undisturbed host
        (.spawn action :: .spawn action :: endlessFrames.map .tick) w := by
  intro host action w
  have hfits : ∀ frame ∈ endlessFrames, frame.Fits (.ofMillis 3600000) := by decide
  let script : AcceptedScript := ⟨annPatient.stage ⟨[]⟩, .standard, Script.written askScript,
    askScript, readScript_askScript_of_standsOn (by decide +kernel)⟩
  obtain ⟨halone, htogether, -⟩ := accepted_scripts_do_not_overflow puppets
    ⟨.ofMillis 2000, .ofMillis 30⟩ (Cast.Patient (.ofMillis 3600000))
    (fun work time => work.timer? = time) (.ofMillis 3600000) (by decide) (by decide) w
    patient_annPatient
  refine ⟨fun frame hframe => ⟨hfits frame hframe, ?_⟩,
    halone script endlessFrames (waitsWithin_puppets _ _) hfits, htogether _ ?_ ?_⟩
  · revert frame
    decide
  · intro a ha
    have heq : a = action := by simpa [endlessFrames] using ha
    exact ⟨script, waitsWithin_puppets _ _, heq⟩
  · intro frame hframe
    exact hfits frame (by simpa using hframe)

end Rehearsal

end Promptbook
