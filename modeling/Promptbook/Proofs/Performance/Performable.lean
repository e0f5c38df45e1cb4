import Promptbook.Performance
import Promptbook.Proofs.Action.Stepping
import Promptbook.Proofs.Bubble.Conduct
import Promptbook.Proofs.Performance.Passage
import Promptbook.Proofs.Script.Playable

set_option autoImplicit false

/-!
# Performances that cannot fail

Performed with the bubbles of a transcript, by actors whose animations do not fail, a script that
was accepted never fails.  `Action.Performable` says what holds of its action in every stage of its
work: a choice has as many branches as labels, and its open bubble highlights one of them and writes
into a slot that exists.  A step of a performable action does not fail and leaves one behind
(`Action.Performable.advance`).
-/

namespace Promptbook

open Bubble (Delays Transcript OpenBubble ChoiceBubble)
open Script (Statement Cue Assignment)

variable {A α : Type}

/-! ## Actors -/

/-- The actors can play an animation: the work it gives is sound, and they stay fit. -/
def Company.Plays (company : Company A α) (fit : A → Prop) (sound : α → Prop) (actor : ActorId)
    (animation : String) : Prop :=
  ∀ a, fit a →
    sound (company.play actor animation a).1.1 ∧ fit (company.play actor animation a).1.2

/-- The animations that a stage has never fail: fit actors can play each of them, sound work does
not fail as long as the actors are fit, and nothing that is asked of the actors makes them unfit. -/
structure Company.Reliable (company : Company A α) (stage : Stage) (fit : A → Prop)
    (sound : α → Prop) : Prop where
  plays : ∀ actor animation, stage.hasAnimation actor animation = true →
    company.Plays fit sound actor animation
  setParameter : ∀ actor name value a, fit a → fit (company.setParameter actor name value a).1
  step_fit : ∀ work frame a, fit a → sound work → fit (company.step work frame a).1.world
  step_sound : ∀ work frame a, fit a → sound work →
    (company.step work frame a).1.outcome = .ok .running → sound (company.step work frame a).1.next
  step_ne_failed : ∀ work frame a, fit a → sound work →
    ∀ error, (company.step work frame a).1.outcome ≠ .error (.failed error)

/-- The host of a company and a transcript. -/
abbrev Company.withTranscript (company : Company A α) (delays : Delays) :
    Host (World A Transcript) (α ⊕ OpenBubble) :=
  .ofParts company (.transcript delays)

/-! ## Worlds -/

/-- How many slots there are. -/
def World.slots {B : Type} (w : World A B) : Nat := w.selections.values.length

/-- What is kept from one world to the next: the actors are fit, and no slot was taken away. -/
structure Kept {B : Type} (fit : A → Prop) (w after : World A B) : Prop where
  fit : fit after.actors
  slots_le : w.slots ≤ after.slots

namespace Kept

variable {B : Type} {fit : A → Prop} {w v u : World A B}

theorem refl (h : fit w.actors) : Kept fit w w := ⟨h, Nat.le_refl _⟩

theorem trans (h : Kept fit w v) (h' : Kept fit v u) : Kept fit w u :=
  ⟨h'.fit, Nat.le_trans h.slots_le h'.slots_le⟩

theorem recordAll (h : Kept fit w v) (ns : List Note) : Kept fit w (v.recordAll ns) := by
  induction ns generalizing v with
  | nil => exact h
  | cons n ns ih => exact ih (v := v.record n) ⟨h.fit, h.slots_le⟩

theorem remark (h : Kept fit w v) (texts : List String) : Kept fit w (v.remark texts) :=
  h.recordAll _

theorem record (h : Kept fit w v) (n : Note) : Kept fit w (v.record n) := ⟨h.fit, h.slots_le⟩

theorem recast (h : Kept fit w v) {actors : A} (hfit : fit actors) :
    Kept fit w { v with actors := actors } := ⟨hfit, h.slots_le⟩

theorem setParameter {company : Company A α} {stage : Stage} {sound : α → Prop}
    {w v : World A Transcript} (hr : company.Reliable stage fit sound) (h : Kept fit w v)
    (delays : Delays) (actor : ActorId) (name : String) (value : Bool) :
    Kept fit w ((company.withTranscript delays).setParameter actor name value v) :=
  (h.recast (hr.setParameter actor name value _ h.fit)).remark _

end Kept

/-! ## Steps -/

/-- A step that does not fail; `ready` is what it leaves, with the number of slots at that time. -/
inductive Carried {B σ : Type} (fit : A → Prop) (ready : Nat → σ → Prop) (w : World A B)
    (s : Step σ (World A B)) : Prop where
  | overflow (h : s.outcome = .error .overflow)
  | done (h : s.outcome = .ok .done) (hkept : Kept fit w s.world)
  | running (h : s.outcome = .ok .running) (hkept : Kept fit w s.world)
      (hnext : ready s.world.slots s.next)

namespace Action

section

variable (company : Company A α) (delays : Delays) (fit : A → Prop) (sound : α → Prop)
  (slots : Nat)

/-- The bubble of a choice puts its labels, highlights one of them and writes into its slot, which
exists; every label has a branch. -/
structure Put (q : Question) (slot : Slot) (b : ChoiceBubble)
    (branches : List (Action (World A Transcript) (α ⊕ OpenBubble))) : Prop where
  slot_lt : slot.index < slots
  slot : b.slot = slot
  labels : b.labels = q.labels
  inRange : b.InRange
  length : q.labels.length = branches.length

/-- What holds of the action of an accepted script in every stage of its work. -/
inductive Performable : Action (World A Transcript) (α ⊕ OpenBubble) → Prop where
  | animation {work : α} (h : sound work) : Performable (.machine (.inl work))
  | cue {cue : Cue} (h : company.Plays fit sound cue.performer.actor cue.animation) :
      Performable (.ofCue (company.withTranscript delays) cue)
  | assignment (assignment : Assignment) :
      Performable (.ofAssignment (company.withTranscript delays) assignment)
  | finished : Performable .finished
  | sequence {children : List (Action (World A Transcript) (α ⊕ OpenBubble))}
      (h : ∀ c ∈ children, Performable c) : Performable (.sequence children)
  | parallel {children : List (Action (World A Transcript) (α ⊕ OpenBubble))}
      (h : ∀ c ∈ children, Performable c) : Performable (.parallel children)
  | speak (d : Delivery) : Performable (.speak d)
  | speaking (d : Delivery) (talking : Bool) (b : Bubble.LineBubble) :
      Performable (.speaking d talking (.inr (.line b)))
  | prompt {q : Question} {branches : List (Action (World A Transcript) (α ⊕ OpenBubble))}
      (hbranches : branches ≠ []) (hlength : q.labels.length = branches.length)
      (h : ∀ b ∈ branches, Performable b) : Performable (.prompt q branches)
  | choosing {q : Question} {slot : Slot} {b : ChoiceBubble}
      {branches : List (Action (World A Transcript) (α ⊕ OpenBubble))}
      (hput : Put slots q slot b branches) (h : ∀ b ∈ branches, Performable b) :
      Performable (.choosing q slot (.inr (.choice b)) branches)
  | following {branch : Action (World A Transcript) (α ⊕ OpenBubble)} (h : Performable branch) :
      Performable (.following branch)

end

namespace Performable

variable {company : Company A α} {delays : Delays} {fit : A → Prop} {sound : α → Prop}
  {slots : Nat}

/-- More slots do no harm. -/
theorem mono {more : Nat} (hle : slots ≤ more)
    {a : Action (World A Transcript) (α ⊕ OpenBubble)}
    (h : Performable company delays fit sound slots a) :
    Performable company delays fit sound more a := by
  induction h with
  | animation h => exact .animation h
  | cue h => exact .cue h
  | assignment assignment => exact .assignment assignment
  | finished => exact .finished
  | sequence _ ih => exact .sequence ih
  | parallel _ ih => exact .parallel ih
  | speak d => exact .speak d
  | speaking d talking b => exact .speaking d talking b
  | prompt hbranches hlength _ ih => exact .prompt hbranches hlength ih
  | choosing hput _ ih =>
    exact .choosing { hput with slot_lt := Nat.lt_of_lt_of_le hput.slot_lt hle } ih
  | following _ ih => exact .following ih

/-! ## Accepted scripts -/

/-- The action of a statement is performable if everything in it can be played. -/
theorem ofStatement {stage : Stage} (hr : company.Reliable stage fit sound) (settings : Settings)
    {s : Statement} (h : ∀ t ∈ s.parts, t.Playable stage) :
    Performable company delays fit sound slots
      (.ofStatement (company.withTranscript delays) settings s) := by
  induction s using Statement.induction with
  | dialogue speech => exact .speak _
  | animation cues =>
    refine .parallel ?_
    rw [List.forall_mem_map]
    intro cue hcue
    exact .cue (hr.plays _ _ (h _ (Statement.self_mem_parts _) cue hcue))
  | store assignment => exact .assignment assignment
  | choice asker branches origin ih =>
    have hne : branches ≠ [] := h _ (Statement.self_mem_parts _)
    refine .prompt ?_ (length_ofBranches _ _ _).symm ?_
    · rw [ofBranches_eq_map]
      exact fun hnil => hne (List.map_eq_nil_iff.mp hnil)
    · rw [ofBranches_eq_map, List.forall_mem_map]
      intro b hb
      rw [ofScript, ofStatements_eq_map]
      refine .sequence ?_
      rw [List.forall_mem_map]
      exact fun s hs => ih b hb s hs (Statement.forall_parts_branch h hb hs)

/-- The actions of an accepted script are performable. -/
theorem ofStatements {stage : Stage} (hr : company.Reliable stage fit sound) (settings : Settings)
    {script : List Statement} (h : ∀ t ∈ Script.partsOf script, t.Playable stage) :
    ∀ a ∈ Action.ofStatements (company.withTranscript delays) settings script,
      Performable company delays fit sound slots a := by
  rw [ofStatements_eq_map, List.forall_mem_map]
  exact fun s hs => ofStatement hr settings fun t ht => h t (Script.mem_partsOf.mpr ⟨s, hs, ht⟩)

end Performable

end Action

/-! ## Steps of single nodes -/

section Steps

variable {company : Company A α} {delays : Delays} {stage : Stage} {fit : A → Prop}
  {sound : α → Prop} {frame : Frame} {w v : World A Transcript}

/-- What is kept before a step is kept by it. -/
theorem Carried.after {σ : Type} {ready : Nat → σ → Prop} {s : Step σ (World A Transcript)}
    (h : Kept fit w v) (hs : Carried fit ready v s) : Carried fit ready w s := by
  cases hs with
  | overflow ho => exact .overflow ho
  | done ho hkept => exact .done ho (h.trans hkept)
  | running ho hkept hnext => exact .running ho (h.trans hkept) hnext

theorem Carried.mapNext {σ τ : Type} {ready : Nat → σ → Prop} {ready' : Nat → τ → Prop}
    {s : Step σ (World A Transcript)} {f : σ → τ} (hs : Carried fit ready w s)
    (h : ∀ n a, ready n a → ready' n (f a)) : Carried fit ready' w (s.mapNext f) := by
  cases hs with
  | overflow ho => exact .overflow ho
  | done ho hkept => exact .done ho hkept
  | running ho hkept hnext => exact .running ho hkept (h _ _ hnext)

/-- A chosen branch does not fail if its action does not. -/
theorem Carried.settle
    {s : Step (Action (World A Transcript) (α ⊕ OpenBubble)) (World A Transcript)}
    (hs : Carried fit (Action.Performable company delays fit sound) w s) :
    Carried fit (Action.Performable company delays fit sound) w (Action.settle s) := by
  cases hs with
  | overflow ho =>
    rw [Action.settle_of_ne (by simp [ho])]
    exact .overflow ho
  | done ho hkept =>
    rw [Action.settle_of_done ho]
    exact .done rfl hkept
  | running ho hkept hnext =>
    rw [Action.settle_of_ne (by simp [ho])]
    exact .running ho hkept (.following hnext)

/-- Sound work does not fail. -/
theorem carried_animation (hr : company.Reliable stage fit sound) (hfit : fit w.actors) {work : α}
    (hsound : sound work) :
    Carried fit (Action.Performable company delays fit sound) w
      (((company.withTranscript delays).step (.inl work) frame w).mapNext .machine) := by
  have hkept : Kept fit w ((company.withTranscript delays).step (.inl work) frame w).world :=
    ((Kept.refl hfit).recast (hr.step_fit work frame _ hfit hsound)).remark _
  have houtcome : ((company.withTranscript delays).step (.inl work) frame w).outcome =
      (company.step work frame w.actors).1.outcome := rfl
  cases h : (company.step work frame w.actors).1.outcome with
  | error fault =>
    cases fault with
    | overflow => exact .overflow (houtcome.trans h)
    | failed error => exact absurd h (hr.step_ne_failed work frame _ hfit hsound error)
  | ok p =>
    cases p with
    | done => exact .done (houtcome.trans h) hkept
    | running =>
      have hnext := hr.step_sound work frame _ hfit hsound h
      exact .running (houtcome.trans h) hkept (.animation hnext)

/-- A cue that can be played does not fail in the frame in which it is reached. -/
theorem carried_cue (hr : company.Reliable stage fit sound) (hfit : fit w.actors) {cue : Cue}
    (h : company.Plays fit sound cue.performer.actor cue.animation) :
    Carried fit (Action.Performable company delays fit sound) w
      (Action.advance (company.withTranscript delays) frame
        (.ofCue (company.withTranscript delays) cue) w) := by
  obtain ⟨hsound, hplayed⟩ := h w.actors hfit
  have hkept : Kept fit w ((company.withTranscript delays).play cue.performer.actor cue.animation
      ((company.withTranscript delays).record (.playing cue) w)).2 :=
    (((Kept.refl hfit).record (.playing cue)).recast hplayed).remark _
  rw [advance_ofCue rfl]
  exact .after hkept (carried_animation hr hkept.fit hsound)

/-- Storing a value takes a frame and does not fail. -/
theorem carried_assignment (hr : company.Reliable stage fit sound) (hfit : fit w.actors)
    (assignment : Assignment) :
    Carried fit (Action.Performable company delays fit sound) w
      (Action.advance (company.withTranscript delays) frame
        (.ofAssignment (company.withTranscript delays) assignment) w) := by
  rw [Action.ofAssignment, Action.advance]
  refine .running rfl ?_ .finished
  have hkept := (Kept.refl hfit).record (.storing assignment)
  obtain ⟨target, value⟩ := assignment
  cases target with
  | contextVariable name id => exact ⟨hkept.fit, hkept.slots_le⟩
  | parameter owner name => exact hkept.setParameter hr delays owner.actor name value

/-- The open bubble of a line does not fail. -/
theorem carried_stepLine (hr : company.Reliable stage fit sound) (hfit : fit w.actors)
    (d : Delivery) (talking : Bool) (b : Bubble.LineBubble) :
    Carried fit (Action.Performable company delays fit sound) w
      (Action.stepLine (company.withTranscript delays) frame d talking (.inr (.line b)) w) := by
  have hstep : (company.withTranscript delays).step (.inr (.line b)) frame w =
      ⟨(b.advance frame w.bubbles).outcome, .inr (.line (b.advance frame w.bubbles).next),
        { w with bubbles := (b.advance frame w.bubbles).world }⟩ := rfl
  have hkept : Kept fit w { w with bubbles := (b.advance frame w.bubbles).world } :=
    ⟨hfit, Nat.le_refl _⟩
  rcases b.advance_cases frame w.bubbles with ho | ⟨_ | _, ho⟩
  · rw [Action.stepLine_of_ne hstep (by simp [ho])]
    exact .overflow ho
  · rw [Action.stepLine_of_ne hstep (by simp [ho])]
    exact .running ho hkept (.speaking _ _ _)
  · rw [ho] at hstep
    rw [Action.stepLine_of_done hstep]
    refine .done rfl ?_
    dsimp only
    split
    · exact (hkept.record _).setParameter hr delays _ _ _
    · exact hkept

/-- A line is opened with a bubble of its own. -/
theorem exists_lineBubble (hr : company.Reliable stage fit sound) (hfit : fit w.actors)
    (d : Delivery) :
    ∃ talking b after, Action.openLine (company.withTranscript delays) d w =
      (talking, .inr (.line b), after) ∧ Kept fit w after := by
  cases htalking : company.hasParameter w.actors d.speaker.actor d.talkingParameter with
  | false =>
    exact ⟨_, _, _, Action.openLine_of_silent htalking rfl rfl, (Kept.refl hfit).record _⟩
  | true =>
    exact ⟨_, _, _, Action.openLine_of_talking htalking rfl rfl rfl,
      (((Kept.refl hfit).record _).setParameter hr delays _ _ _).record _⟩

/-- A choice is put with a bubble of its own, for a slot that is new. -/
theorem exists_choiceBubble (hfit : fit w.actors) {q : Question}
    {branches : List (Action (World A Transcript) (α ⊕ OpenBubble))} (hbranches : branches ≠ [])
    (hlength : q.labels.length = branches.length) :
    ∃ slot b after, Action.openChoices (company.withTranscript delays) q w =
      (slot, .inr (.choice b), after) ∧ Kept fit w after ∧
      Action.Put after.slots q slot b branches := by
  have hslots : w.slots < { w with selections := w.selections.create.2 }.slots := by
    simp [World.slots, Selections.create]
  refine ⟨_, _, _, Action.openChoices_eq rfl rfl rfl, ⟨hfit, Nat.le_of_lt hslots⟩,
    ⟨hslots, rfl, rfl, ?_, hlength⟩⟩
  change 0 < q.labels.length
  rw [hlength]
  exact List.length_pos_iff.mpr hbranches

/-- The open bubble of a choice changes the transcript and the selections. -/
theorem step_choiceBubble {b next : ChoiceBubble} {outcome : Outcome} {transcript : Transcript}
    {selections : Selections}
    (h : b.advance frame (w.bubbles, w.selections) = ⟨outcome, next, transcript, selections⟩) :
    (company.withTranscript delays).step (.inr (.choice b)) frame w =
      ⟨outcome, .inr (.choice next),
        { w with bubbles := transcript, selections := selections }⟩ := by
  have hopen : OpenBubble.advance (.choice b) frame (w.bubbles, w.selections) =
      ⟨outcome, .choice next, transcript, selections⟩ := by
    rw [OpenBubble.advance, h]
    rfl
  simp [Host.ofParts, Host.stepBubble, Presenter.transcript, hopen, World.remark, World.recordAll]

/-- The open bubble of a choice does not fail, and neither does the branch that is chosen. -/
theorem carried_stepChoice (hfit : fit w.actors) {q : Question} {slot : Slot} {b : ChoiceBubble}
    {branches : List (Action (World A Transcript) (α ⊕ OpenBubble))}
    (hput : Action.Put w.slots q slot b branches)
    (hready : ∀ c ∈ branches, Action.Performable company delays fit sound w.slots c)
    (hfollow : ∀ c ∈ branches, ∀ v : World A Transcript, fit v.actors → w.slots ≤ v.slots →
      Carried fit (Action.Performable company delays fit sound) v
        (Action.advance (company.withTranscript delays) frame c v)) :
    Carried fit (Action.Performable company delays fit sound) w
      (Action.stepChoice (company.withTranscript delays) frame q slot (.inr (.choice b)) branches
        (Action.advanceNth (company.withTranscript delays) frame branches) w) := by
  have hconduct :=
    Bubble.ChoiceBubble.conduct_advance hput.inRange frame (w.bubbles, w.selections)
  generalize hs : b.advance frame (w.bubbles, w.selections) = s at hconduct
  obtain ⟨outcome, next, transcript, selections⟩ := s
  have hstep : (company.withTranscript delays).step (.inr (.choice b)) frame w =
      ⟨outcome, .inr (.choice next), { w with bubbles := transcript, selections := selections }⟩ :=
    step_choiceBubble hs
  cases hconduct with
  | overflow ho =>
    obtain rfl : outcome = .error .overflow := ho
    rw [Action.stepChoice_of_ne hstep (by simp)]
    exact .overflow rfl
  | running ho hnext hselections =>
    obtain rfl : selections = w.selections := hselections
    obtain rfl : outcome = .ok .running := ho
    rw [Action.stepChoice_of_ne hstep (by simp)]
    refine .running rfl ⟨hfit, Nat.le_refl _⟩ (.choosing ?_ hready)
    exact ⟨hput.slot_lt, hnext.slot.trans hput.slot, hnext.labels.trans hput.labels, hnext.inRange,
      hput.length⟩
  | done ho hselections =>
    obtain rfl : selections = w.selections.select b.slot b.highlighted := hselections
    obtain rfl : outcome = .ok .done := ho
    obtain rfl := hput.slot
    have hlt : b.highlighted < branches.length := by
      rw [← hput.length, ← hput.labels]
      exact hput.inRange
    let submitted : World A Transcript :=
      { w with bubbles := transcript, selections := w.selections.select b.slot b.highlighted }
    have hkept : Kept fit w
        (submitted.record (.chose q.asker (q.labels.getD b.highlighted ""))) := by
      refine ⟨hfit, ?_⟩
      simp [submitted, World.slots, World.record, Selections.select]
    rw [Action.stepChoice_of_branch hstep
      (Selections.selected_select_self hput.slot_lt b.highlighted)
      (by rw [Action.advanceNth_eq, List.getElem?_eq_getElem hlt]; rfl)]
    have hbranch := hfollow _ (List.getElem_mem hlt) _ hkept.fit hkept.slots_le
    exact .after hkept hbranch.settle

end Steps

/-! ## Steps of combinators -/

section Combinators

variable {company : Company A α} {delays : Delays} {fit : A → Prop} {sound : α → Prop}
  {frame : Frame} {w : World A Transcript}
  {children : List (Action (World A Transcript) (α ⊕ OpenBubble))}

/-- Actions each of which is performable. -/
def Action.AllPerformable (company : Company A α) (delays : Delays) (fit : A → Prop)
    (sound : α → Prop) (slots : Nat)
    (children : List (Action (World A Transcript) (α ⊕ OpenBubble))) : Prop :=
  ∀ c ∈ children, c.Performable company delays fit sound slots

/-- A sequence does not fail if its children do not. -/
theorem carried_advanceSequence (hfit : fit w.actors)
    (hready : Action.AllPerformable company delays fit sound w.slots children)
    (hstep : ∀ c ∈ children, ∀ v : World A Transcript, fit v.actors → w.slots ≤ v.slots →
      Carried fit (Action.Performable company delays fit sound) v
        (Action.advance (company.withTranscript delays) frame c v)) :
    Carried fit (Action.AllPerformable company delays fit sound) w
      (Action.advanceSequence (company.withTranscript delays) frame children w) := by
  induction children generalizing w with
  | nil =>
    rw [Action.advanceSequence]
    exact .done rfl (.refl hfit)
  | cons c rest ih =>
    obtain ⟨-, hrest⟩ := List.forall_mem_cons.mp hready
    cases hstep c (by simp) w hfit (Nat.le_refl _) with
    | overflow ho =>
      rw [Action.advanceSequence_of_ne (by simp [ho])]
      exact .overflow ho
    | done ho hkept =>
      rw [Action.advanceSequence_of_done ho]
      refine .after hkept (ih hkept.fit (fun d hd => (hrest d hd).mono hkept.slots_le) ?_)
      exact fun d hd v hv hle =>
        hstep d (List.mem_cons_of_mem _ hd) v hv (Nat.le_trans hkept.slots_le hle)
    | running ho hkept hnext =>
      rw [Action.advanceSequence_of_ne (by simp [ho])]
      refine .running ho hkept (List.forall_mem_cons.mpr ⟨hnext, ?_⟩)
      exact fun d hd => (hrest d hd).mono hkept.slots_le

/-- Parallel actions do not fail if none of them does. -/
theorem carried_advanceParallel (hfit : fit w.actors)
    (hready : Action.AllPerformable company delays fit sound w.slots children)
    (hstep : ∀ c ∈ children, ∀ v : World A Transcript, fit v.actors → w.slots ≤ v.slots →
      Carried fit (Action.Performable company delays fit sound) v
        (Action.advance (company.withTranscript delays) frame c v)) :
    Carried fit (Action.AllPerformable company delays fit sound) w
      (Action.advanceParallel (company.withTranscript delays) frame children w) := by
  induction children generalizing w with
  | nil =>
    rw [Action.advanceParallel]
    exact .done rfl (.refl hfit)
  | cons c rest ih =>
    obtain ⟨-, hrest⟩ := List.forall_mem_cons.mp hready
    have hothers {v : World A Transcript} (hkept : Kept fit w v) :
        Carried fit (Action.AllPerformable company delays fit sound) v
          (Action.advanceParallel (company.withTranscript delays) frame rest v) := by
      refine ih hkept.fit (fun d hd => (hrest d hd).mono hkept.slots_le) ?_
      exact fun d hd v hv hle =>
        hstep d (List.mem_cons_of_mem _ hd) v hv (Nat.le_trans hkept.slots_le hle)
    cases hstep c (by simp) w hfit (Nat.le_refl _) with
    | overflow ho =>
      rw [Action.advanceParallel_of_error ho]
      exact .overflow rfl
    | done ho hkept =>
      rw [Action.advanceParallel_of_done ho]
      exact .after hkept (hothers hkept)
    | running ho hkept hnext =>
      rw [Action.advanceParallel_of_running ho]
      cases hothers hkept with
      | overflow ht => exact .overflow (by simp [ht, Except.map])
      | done ht hkept' =>
        refine .running (by simp [ht, Except.map]) (hkept.trans hkept')
          (List.forall_mem_cons.mpr ⟨hnext.mono hkept'.slots_le, ?_⟩)
        rw [Action.next_advanceParallel ht]
        simp
      | running ht hkept' hnext' =>
        refine .running (by simp [ht, Except.map]) (hkept.trans hkept') ?_
        exact List.forall_mem_cons.mpr ⟨hnext.mono hkept'.slots_le, hnext'⟩

end Combinators

/-! ## Trees -/

/-- A performable action does not fail, and what it leaves is performable again. -/
theorem Action.Performable.advance {company : Company A α} {delays : Delays} {stage : Stage}
    {fit : A → Prop} {sound : α → Prop} (hr : company.Reliable stage fit sound) (frame : Frame)
    {slots : Nat} {a : Action (World A Transcript) (α ⊕ OpenBubble)}
    (h : a.Performable company delays fit sound slots) {w : World A Transcript}
    (hfit : fit w.actors) (hle : slots ≤ w.slots) :
    Carried fit (Action.Performable company delays fit sound) w
      (a.advance (company.withTranscript delays) frame w) := by
  induction h generalizing w with
  | animation h =>
    rw [Action.advance]
    exact carried_animation hr hfit h
  | cue h => exact carried_cue hr hfit h
  | assignment assignment => exact carried_assignment hr hfit assignment
  | finished =>
    rw [Action.advance]
    exact .done rfl (.refl hfit)
  | sequence h ih =>
    rw [Action.advance]
    refine (carried_advanceSequence hfit (fun c hc => (h c hc).mono hle) ?_).mapNext
      fun n a ha => .sequence ha
    exact fun c hc v hv hslots => ih c hc hv (Nat.le_trans hle hslots)
  | parallel h ih =>
    rw [Action.advance]
    refine (carried_advanceParallel hfit (fun c hc => (h c hc).mono hle) ?_).mapNext
      fun n a ha => .parallel ha
    exact fun c hc v hv hslots => ih c hc hv (Nat.le_trans hle hslots)
  | speak d =>
    obtain ⟨talking, b, after, hopen, hkept⟩ := exists_lineBubble hr hfit d
    rw [Action.advance_speak hopen]
    exact .after hkept (carried_stepLine hr hkept.fit d talking b)
  | speaking d talking b =>
    rw [Action.advance]
    exact carried_stepLine hr hfit d talking b
  | prompt hbranches hlength h ih =>
    obtain ⟨slot, b, after, hopen, hkept, hput⟩ := exists_choiceBubble hfit hbranches hlength
    have hmore := Nat.le_trans hle hkept.slots_le
    rw [Action.advance_prompt hopen]
    refine .after hkept (carried_stepChoice hkept.fit hput (fun c hc => (h c hc).mono hmore) ?_)
    exact fun c hc v hv hslots => ih c hc hv (Nat.le_trans hmore hslots)
  | choosing hput h ih =>
    rw [Action.advance]
    refine carried_stepChoice hfit
      { hput with slot_lt := Nat.lt_of_lt_of_le hput.slot_lt hle }
      (fun c hc => (h c hc).mono hle) ?_
    exact fun c hc v hv hslots => ih c hc hv (Nat.le_trans hle hslots)
  | following h ih =>
    rw [Action.advance]
    exact (ih hfit hle).settle

end Promptbook
