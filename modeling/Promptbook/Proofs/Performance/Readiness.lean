import Promptbook.Proofs.Bubble.Showing
import Promptbook.Proofs.Performance.Performable
import Promptbook.Proofs.Performance.Rundown

set_option autoImplicit false

/-!
# Performances with a transcript

Where a performance with the bubbles of a transcript can stand is narrower than what a `Spot` allows:
an open bubble is that of its statement, an open choice has a branch for each of its labels, and what
actors do leaves the transcript alone.  `Spot.Ready` says so, and every move and every halt of an
accepted script keeps it.
-/

namespace Promptbook

open Bubble (Delays Transcript OpenBubble LineBubble ChoiceBubble)
open Script (Statement Cue Assignment)

variable {A α : Type} {company : Company A α} {delays : Delays}

/-! ## What leaves the transcript alone -/

/-- The transcript and what was selected are the same. -/
structure World.SameBubbles (w after : World A Transcript) : Prop where
  bubbles : after.bubbles = w.bubbles
  selections : after.selections = w.selections

namespace World.SameBubbles

variable {w v u : World A Transcript}

theorem refl (w : World A Transcript) : w.SameBubbles w := ⟨rfl, rfl⟩

theorem trans (h : w.SameBubbles v) (h' : v.SameBubbles u) : w.SameBubbles u :=
  ⟨h'.bubbles.trans h.bubbles, h'.selections.trans h.selections⟩

theorem slots_eq (h : w.SameBubbles v) : v.slots = w.slots := by
  rw [slots, slots, h.selections]

theorem recordAll (w : World A Transcript) (ns : List Note) : w.SameBubbles (w.recordAll ns) := by
  induction ns generalizing w with
  | nil => exact refl w
  | cons n ns ih => exact trans (v := w.record n) ⟨rfl, rfl⟩ (ih _)

theorem recast (w : World A Transcript) (actors : A) (texts : List String) :
    w.SameBubbles ({ w with actors := actors }.remark texts) :=
  trans (v := { w with actors := actors }) ⟨rfl, rfl⟩ (recordAll _ _)

variable (company delays) in
theorem setParameter (actor : ActorId) (name : String) (value : Bool) (w : World A Transcript) :
    w.SameBubbles ((company.withTranscript delays).setParameter actor name value w) :=
  recast w _ _

variable (company delays) in
theorem play (actor : ActorId) (animation : String) (w : World A Transcript) :
    w.SameBubbles ((company.withTranscript delays).play actor animation w).2 :=
  recast w _ _

variable (company delays) in
theorem stepAnimation (work : α) (frame : Frame) (w : World A Transcript) :
    w.SameBubbles ((company.withTranscript delays).step (.inl work) frame w).world :=
  recast w _ _

variable (company delays) in
theorem storing (assignment : Assignment) (w : World A Transcript) :
    w.SameBubbles ((company.withTranscript delays).storing assignment w) := by
  unfold Host.storing
  dsimp only
  split
  · exact ⟨rfl, rfl⟩
  · exact trans (v := w.record (.storing assignment)) ⟨rfl, rfl⟩
      (setParameter company delays _ _ _ _)

variable (company delays) in
theorem hushing (d : Delivery) (talking : Bool) (w : World A Transcript) :
    w.SameBubbles ((company.withTranscript delays).hushing d talking w) := by
  unfold Host.hushing
  split
  · exact trans (v := w.record (.talking d.speaker d.talkingParameter false)) ⟨rfl, rfl⟩
      (setParameter company delays _ _ _ _)
  · exact refl w

end World.SameBubbles

/-- Parallel work of which none is a bubble. -/
def OnlyActors {β : Type} (parts : List ((α ⊕ β) ⊕ Cue)) : Prop :=
  ∀ work, .inl work ∈ parts → work.isLeft = true

/-- Animations stay animations, and leave the transcript alone. -/
theorem OnlyActors.stepParts {parts : List ((α ⊕ OpenBubble) ⊕ Cue)} (h : OnlyActors parts)
    (frame : Frame) (w : World A Transcript) :
    OnlyActors ((company.withTranscript delays).stepParts frame parts w).next ∧
      w.SameBubbles ((company.withTranscript delays).stepParts frame parts w).world := by
  refine Host.stepParts_keeps (I := w.SameBubbles)
    (P := fun work : α ⊕ OpenBubble => work.isLeft = true) ?_ ?_ h (.refl w)
  · intro cue _ v hv
    have hnoted : w.SameBubbles (v.record (.playing cue)) := hv.trans ⟨rfl, rfl⟩
    exact ⟨_, _, rfl, rfl, hnoted.trans (.play company delays _ _ _)⟩
  · intro work v hwork hv
    cases work with
    | inl animation => exact ⟨rfl, hv.trans (.stepAnimation company delays animation frame v)⟩
    | inr bubble => simp at hwork

/-! ## Bubbles -/

/-- A line is opened with a bubble of its own, to which nothing has happened. -/
theorem Action.openLine_withTranscript {d : Delivery} {w after : World A Transcript}
    {talking : Bool} {bubble : α ⊕ OpenBubble}
    (h : openLine (company.withTranscript delays) d w = (talking, bubble, after)) :
    ∃ position, bubble = .inr (.ofLine delays d.text position) ∧ w.SameBubbles after := by
  unfold openLine at h
  dsimp only at h
  split at h
  · simp only [Prod.mk.injEq] at h
    obtain ⟨-, rfl, rfl⟩ := h
    let noted := w.record (.talking d.speaker d.talkingParameter true)
    have hset : w.SameBubbles ((company.withTranscript delays).setParameter d.speaker.actor
        d.talkingParameter true noted) :=
      .trans (v := noted) ⟨rfl, rfl⟩ (.setParameter company delays _ _ _ _)
    exact ⟨_, rfl, hset.trans ⟨rfl, rfl⟩⟩
  · simp only [Prod.mk.injEq] at h
    obtain ⟨-, rfl, rfl⟩ := h
    exact ⟨_, rfl, rfl, rfl⟩

/-- A choice is put with a bubble of its own, to which nothing has happened, for a new slot. -/
theorem Action.openChoices_withTranscript {q : Question} {w after : World A Transcript}
    {slot : Slot} {bubble : α ⊕ OpenBubble}
    (h : openChoices (company.withTranscript delays) q w = (slot, bubble, after)) :
    (∃ position, bubble = .inr (.ofChoices delays q.labels position slot)) ∧
      after.bubbles = w.bubbles ∧ slot.index = w.slots ∧ after.slots = w.slots + 1 := by
  simp only [openChoices, Prod.mk.injEq] at h
  obtain ⟨rfl, rfl, rfl⟩ := h
  refine ⟨⟨_, rfl⟩, rfl, rfl, ?_⟩
  change (w.selections.values ++ [none]).length = w.selections.values.length + 1
  simp

/-- A step of a line is a turn of its bubble. -/
theorem exists_turn_of_line {frame : Frame} {b : LineBubble} {next : α ⊕ OpenBubble}
    {outcome : Outcome} {w after : World A Transcript}
    (h : (company.withTranscript delays).step (.inr (.line b)) frame w = ⟨outcome, next, after⟩) :
    ∃ b' t, next = .inr (.line b') ∧ after = { w with bubbles := t } ∧
      b.Turn frame w.bubbles ⟨outcome, b', t⟩ := by
  obtain ⟨rfl, rfl, rfl⟩ := Step.mk.inj h
  exact ⟨_, _, rfl, rfl, b.turn_advance frame w.bubbles⟩

/-- A step of a choice is a turn of its bubble. -/
theorem exists_turn_of_choice {frame : Frame} {b : ChoiceBubble} (hb : b.InRange)
    {next : α ⊕ OpenBubble} {outcome : Outcome} {w after : World A Transcript}
    (h : (company.withTranscript delays).step (.inr (.choice b)) frame w = ⟨outcome, next, after⟩) :
    ∃ b' t selections, next = .inr (.choice b') ∧
      after = { w with bubbles := t, selections := selections } ∧
      b.Turn frame (w.bubbles, w.selections) ⟨outcome, b', t, selections⟩ := by
  obtain ⟨rfl, rfl, rfl⟩ := Step.mk.inj h
  exact ⟨_, _, _, rfl, rfl, ChoiceBubble.turn_advance hb frame (w.bubbles, w.selections)⟩

/-! ## Readiness -/

/-- Everything in a script can be played on a stage. -/
def PlayableOn (stage : Stage) (script : List Statement) : Prop :=
  ∀ t ∈ Script.partsOf script, t.Playable stage

theorem playableOn_append {stage : Stage} {first second : List Statement} :
    PlayableOn stage (first ++ second) ↔ PlayableOn stage first ∧ PlayableOn stage second := by
  simp only [PlayableOn, Script.partsOf_append, List.forall_mem_append]

theorem PlayableOn.tail {stage : Stage} {s : Statement} {rest : List Statement}
    (h : PlayableOn stage (s :: rest)) : PlayableOn stage rest :=
  (playableOn_append.mp (by exact h : PlayableOn stage ([s] ++ rest))).2

/-- A choice that can be played has branches, and all of these can be played. -/
theorem PlayableOn.choice {stage : Stage} {asker : ActorRef}
    {branches : List (String × List Statement)} {origin : Script.Origin} {rest : List Statement}
    (h : PlayableOn stage (.choice asker branches origin :: rest)) :
    branches ≠ [] ∧ ∀ b ∈ branches, PlayableOn stage b.2 := by
  have hparts : ∀ t ∈ (Statement.choice asker branches origin).parts, t.Playable stage :=
    fun t ht => h t (Script.mem_partsOf.mpr ⟨_, List.mem_cons_self, ht⟩)
  exact ⟨hparts _ (Statement.self_mem_parts _), Statement.forall_partsOf_branch hparts⟩

/-- An open bubble is that of its statement; a choice has branches for its labels, highlights one of
these and writes into a slot that exists. -/
inductive Business.Ready (stage : Stage) (slots : Nat) : Business (α ⊕ OpenBubble) → Prop where
  | speaking {d : Delivery} {talking : Bool} {b : LineBubble} (htext : b.text = d.text) :
      Ready stage slots (.speaking d talking (.inr (.line b)))
  | playing {parts : List ((α ⊕ OpenBubble) ⊕ Cue)} (h : OnlyActors parts) :
      Ready stage slots (.playing parts)
  | stored : Ready stage slots .stored
  | choosing {q : Question} {slot : Slot} {b : ChoiceBubble}
      {branches : List (String × List Statement)} (hlabels : b.labels = q.labels)
      (hbranches : q.labels = Script.labelsOf branches) (hrange : b.InRange) (hslot : b.slot = slot)
      (hlt : slot.index < slots) (hplayable : ∀ c ∈ branches, PlayableOn stage c.2) :
      Ready stage slots (.choosing q slot (.inr (.choice b)) branches)

/-- What is in progress is ready, and everything later can be played. -/
structure Spot.Ready (stage : Stage) (slots : Nat) (spot : Spot (α ⊕ OpenBubble)) : Prop where
  now : ∀ business ∈ spot.now, business.Ready stage slots
  later : PlayableOn stage spot.later

section Readiness

variable {stage : Stage} {slots more : Nat} {settings : Settings} {frame : Frame}
  {spot spot' : Spot (α ⊕ OpenBubble)} {w after : World A Transcript}

/-- A script that can be played is ready. -/
theorem Spot.Ready.script {script : List Statement} (h : PlayableOn stage script) :
    (⟨none, script⟩ : Spot (α ⊕ OpenBubble)).Ready stage slots := ⟨by simp, h⟩

theorem Spot.Ready.busy {business : Business (α ⊕ OpenBubble)} {later : List Statement}
    (hnow : business.Ready stage slots) (hlater : PlayableOn stage later) :
    Spot.Ready stage slots ⟨some business, later⟩ := by
  refine ⟨fun other hother => ?_, hlater⟩
  obtain rfl := Option.some.inj hother
  exact hnow

/-- More slots do no harm. -/
theorem Spot.Ready.mono (h : spot.Ready stage slots) (hle : slots ≤ more) :
    spot.Ready stage more := by
  refine ⟨fun business hb => ?_, h.later⟩
  cases h.now business hb with
  | speaking htext => exact .speaking htext
  | playing hparts => exact .playing hparts
  | stored => exact .stored
  | choosing hlabels hbranches hrange hslot hlt hplayable =>
    exact .choosing hlabels hbranches hrange hslot (Nat.lt_of_lt_of_le hlt hle) hplayable

/-- A step of the line that is being spoken is a turn of its bubble. -/
theorem Business.Ready.line {d : Delivery} {talking : Bool} {bubble next : α ⊕ OpenBubble}
    {outcome : Outcome} (h : (Business.speaking d talking bubble).Ready stage slots)
    (hstep : (company.withTranscript delays).step bubble frame w = ⟨outcome, next, after⟩) :
    ∃ b b' t, bubble = .inr (.line b) ∧ b.text = d.text ∧ next = .inr (.line b') ∧
      after = { w with bubbles := t } ∧ b.Turn frame w.bubbles ⟨outcome, b', t⟩ := by
  cases h with
  | speaking htext =>
    obtain ⟨b', t, rfl, rfl, hturn⟩ := exists_turn_of_line hstep
    exact ⟨_, b', t, rfl, htext, rfl, rfl, hturn⟩

/-- A frame of a choice that does not end it selects nothing, and leaves it ready. -/
theorem Business.Ready.choice {q : Question} {slot : Slot} {bubble next : α ⊕ OpenBubble}
    {branches : List (String × List Statement)} {outcome : Outcome}
    (h : (Business.choosing q slot bubble branches).Ready stage slots)
    (hstep : (company.withTranscript delays).step bubble frame w = ⟨outcome, next, after⟩)
    (hne : outcome ≠ .ok .done) :
    ∃ b b' t, bubble = .inr (.choice b) ∧ b.labels = q.labels ∧ b.InRange ∧
      next = .inr (.choice b') ∧ after = { w with bubbles := t } ∧
      b.Turn frame (w.bubbles, w.selections) ⟨outcome, b', t, w.selections⟩ ∧
      (Business.choosing q slot next branches).Ready stage slots := by
  cases h with
  | @choosing _ _ b _ hlabels hbranches hrange hslot hlt hplayable =>
    obtain ⟨b', t, selections, rfl, rfl, hturn⟩ := exists_turn_of_choice hrange hstep
    obtain ⟨-, rfl⟩ := hturn.of_ne hne
    have hnext := hturn.continues hrange
    exact ⟨b, b', t, rfl, hlabels, hrange, rfl, rfl, hturn, .choosing (hnext.labels.trans hlabels)
      hbranches hnext.inRange (hnext.slot.trans hslot) hlt hplayable⟩

/-- The label that is highlighted has a branch. -/
theorem highlighted_lt {q : Question} {b : ChoiceBubble} {branches : List (String × List Statement)}
    (hlabels : b.labels = q.labels) (hbranches : q.labels = Script.labelsOf branches)
    (hrange : b.InRange) : b.highlighted < branches.length := by
  have hlength := congrArg List.length (hlabels.trans hbranches)
  rw [Script.labelsOf, List.length_map] at hlength
  rw [← hlength]
  exact hrange

/-- The label that was submitted is selected, and it has a branch. -/
theorem Business.Ready.chosen {q : Question} {slot : Slot} {bubble next : α ⊕ OpenBubble}
    {branches : List (String × List Statement)}
    (h : (Business.choosing q slot bubble branches).Ready stage w.slots)
    (hstep : (company.withTranscript delays).step bubble frame w = ⟨.ok .done, next, after⟩) :
    ∃ b branch, bubble = .inr (.choice b) ∧ b.labels = q.labels ∧ b.stage = .idle ∧
      after.bubbles = w.bubbles.append (.choice q.labels b.highlighted b.position) ∧
      after.slots = w.slots ∧ after.selections.selected slot = some b.highlighted ∧
      branches[b.highlighted]? = some branch := by
  cases h with
  | @choosing _ _ b _ hlabels hbranches hrange hslot hlt hplayable =>
    obtain ⟨b', t, selections, rfl, rfl, hturn⟩ := exists_turn_of_choice hrange hstep
    obtain ⟨hstage, hworld⟩ := hturn.of_done rfl
    obtain ⟨rfl, rfl⟩ := Prod.mk.inj hworld
    have hbranch := highlighted_lt hlabels hbranches hrange
    refine ⟨b, branches[b.highlighted], rfl, hlabels, hstage, by rw [hlabels], ?_, ?_, ?_⟩
    · simp [World.slots, Selections.select]
    · rw [hslot]
      exact Selections.selected_select_self hlt b.highlighted
    · exact List.getElem?_eq_getElem hbranch

theorem Business.Ready.selected_ne_none {q : Question} {slot : Slot} {bubble next : α ⊕ OpenBubble}
    {branches : List (String × List Statement)}
    (h : (Business.choosing q slot bubble branches).Ready stage w.slots)
    (hstep : (company.withTranscript delays).step bubble frame w = ⟨.ok .done, next, after⟩) :
    (company.withTranscript delays).selected after slot ≠ none := by
  obtain ⟨b, branch, -, -, -, -, -, hsome, -⟩ := h.chosen hstep
  exact fun hnone => absurd (hnone.symm.trans hsome) (by simp)

theorem Business.Ready.branch_ne_none {q : Question} {slot : Slot} {bubble next : α ⊕ OpenBubble}
    {branches : List (String × List Statement)} {index : Nat}
    (h : (Business.choosing q slot bubble branches).Ready stage w.slots)
    (hstep : (company.withTranscript delays).step bubble frame w = ⟨.ok .done, next, after⟩)
    (hselected : (company.withTranscript delays).selected after slot = some index) :
    branches[index]? ≠ none := by
  obtain ⟨b, branch, -, -, -, -, -, hsome, hbranch⟩ := h.chosen hstep
  obtain rfl := Option.some.inj (hselected.symm.trans hsome)
  exact fun hnone => absurd (hnone.symm.trans hbranch) (by simp)

/-- A move keeps readiness, and takes no slot away. -/
theorem Spot.Ready.move
    (hmove : Move (company.withTranscript delays) settings frame spot w spot' after)
    (h : spot.Ready stage w.slots) : w.slots ≤ after.slots ∧ spot'.Ready stage after.slots := by
  cases hmove with
  | speak hopen =>
    obtain ⟨position, rfl, hsame⟩ := Action.openLine_withTranscript hopen
    exact ⟨hsame.slots_eq.ge, .busy (.speaking rfl) h.later.tail⟩
  | @said d talking bubble next later w after hstep =>
    obtain ⟨b, b', t, -, -, -, rfl, -⟩ := (h.now _ rfl).line hstep
    have hsame := World.SameBubbles.hushing company delays d talking { w with bubbles := t }
    exact ⟨hsame.slots_eq.ge, .script h.later⟩
  | play => exact ⟨Nat.le_refl _, .busy (.playing (by simp [OnlyActors])) h.later.tail⟩
  | played _ =>
    cases h.now _ rfl with
    | playing hparts =>
      exact ⟨(hparts.stepParts frame w).2.slots_eq.ge, .script h.later⟩
  | stored => exact ⟨Nat.le_refl _, .script h.later⟩
  | ask hopen =>
    obtain ⟨⟨position, rfl⟩, -, hslot, hslots⟩ := Action.openChoices_withTranscript hopen
    obtain ⟨hbranches, hplayable⟩ := h.later.choice
    refine ⟨by omega, .busy (.choosing rfl rfl ?_ rfl (by omega) hplayable) h.later.tail⟩
    exact List.length_pos_iff.mpr (by simpa [questionOf, Script.labelsOf] using hbranches)
  | chose hstep hselected hbranch =>
    obtain ⟨-, -, -, -, -, -, hslots, -, -⟩ := (h.now _ rfl).chosen hstep
    cases h.now _ rfl with
    | choosing _ _ _ _ _ hplayable =>
      refine ⟨hslots.ge, .script (playableOn_append.mpr ⟨?_, h.later⟩)⟩
      exact hplayable _ (List.mem_of_getElem? hbranch)

/-- A halt keeps readiness, and takes no slot away. -/
theorem Spot.Ready.halt {outcome : Outcome}
    (hhalt : Halt (company.withTranscript delays) frame spot w outcome spot' after)
    (h : spot.Ready stage w.slots) : w.slots ≤ after.slots ∧ spot'.Ready stage after.slots := by
  cases hhalt with
  | finished => exact ⟨Nat.le_refl _, h⟩
  | @store assignment later _ =>
    exact ⟨(World.SameBubbles.storing company delays assignment w).slots_eq.ge,
      .busy .stored h.later.tail⟩
  | speaking hstep _ =>
    obtain ⟨b, b', t, -, htext, rfl, rfl, hturn⟩ := (h.now _ rfl).line hstep
    exact ⟨Nat.le_refl _, .busy (.speaking (hturn.text_eq.trans htext)) h.later⟩
  | playing _ =>
    cases h.now _ rfl with
    | playing hparts =>
      obtain ⟨hnext, hsame⟩ := hparts.stepParts frame w
      exact ⟨hsame.slots_eq.ge, .busy (.playing hnext) h.later⟩
  | choosing hstep hne =>
    obtain ⟨b, b', t, -, -, -, -, rfl, -, hready⟩ := (h.now _ rfl).choice hstep hne
    exact ⟨Nat.le_refl _, .busy hready h.later⟩
  | unselected hstep hselected =>
    exact absurd hselected ((h.now _ rfl).selected_ne_none hstep)
  | invalid hstep hselected hbranch =>
    exact absurd hbranch ((h.now _ rfl).branch_ne_none hstep hselected)

end Readiness

/-! ## Actors stay fit -/

theorem actors_openChoices {w after : World A Transcript} {q : Question}
    {slot : Slot} {bubble : α ⊕ OpenBubble}
    (h : Action.openChoices (company.withTranscript delays) q w = (slot, bubble, after)) :
    after.actors = w.actors := by
  simp only [Action.openChoices, Prod.mk.injEq] at h
  obtain ⟨-, -, rfl⟩ := h
  rfl

theorem actors_of_step_bubble {frame : Frame} {w after : World A Transcript}
    {b : OpenBubble} {next : α ⊕ OpenBubble} {outcome : Outcome}
    (h : (company.withTranscript delays).step (.inr b) frame w = ⟨outcome, next, after⟩) :
    after.actors = w.actors := by
  obtain ⟨-, -, rfl⟩ := Step.mk.inj h
  rfl

section Fitness

variable {fit : A → Prop} {w after : World A Transcript}
  (hset : ∀ actor name value a, fit a → fit (company.setParameter actor name value a).1)

include hset

theorem fit_setParameter (actor : ActorId) (name : String) (value : Bool) (hfit : fit w.actors) :
    fit ((company.withTranscript delays).setParameter actor name value w).actors := by
  simp only [Company.withTranscript, Host.ofParts, World.remark, World.actors_recordAll]
  exact hset actor name value _ hfit

theorem fit_storing (assignment : Assignment) (hfit : fit w.actors) :
    fit ((company.withTranscript delays).storing assignment w).actors := by
  unfold Host.storing
  dsimp only
  split
  · exact hfit
  · exact fit_setParameter hset _ _ _ hfit

theorem fit_hushing (d : Delivery) (talking : Bool) (hfit : fit w.actors) :
    fit ((company.withTranscript delays).hushing d talking w).actors := by
  unfold Host.hushing
  split
  · exact fit_setParameter hset _ _ _ hfit
  · exact hfit

theorem fit_openLine {d : Delivery} {talking : Bool} {bubble : α ⊕ OpenBubble}
    (h : Action.openLine (company.withTranscript delays) d w = (talking, bubble, after))
    (hfit : fit w.actors) : fit after.actors := by
  unfold Action.openLine at h
  dsimp only at h
  obtain ⟨-, -, rfl⟩ := h
  split
  · exact fit_setParameter hset _ _ _ hfit
  · exact hfit

end Fitness

end Promptbook
