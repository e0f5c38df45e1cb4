import Promptbook.Dialogue
import Promptbook.Proofs.Performance.Shadow
import Promptbook.Proofs.Performance.Soundness
import Promptbook.Proofs.Script.Citation

set_option autoImplicit false

/-!
# Every call has its warrant

While a script is played, actors are asked for animations and variables are written long after the
text was read: by work that is only made when it is reached, inside of branches that are only chosen
then, while others change what the names in the text stand for.  All the same each of these calls is
one that a line of the text asks for, with the handle that was found for it when it was read.

The calls are read off the ledger of a watched host.  `Watched.Warranted` is what one piece of work
may add to it; each move and each halt keeps to that, and so does every frame of a run in which
others change the world between the frames.
-/

namespace Promptbook

open Script (Statement Cue Assignment)

/-! ## Warranted calls -/

section Warrants

variable (plays : ActorId → String → Prop) (stores : VariableId → Bool → Prop)

/-- The call is allowed: of animations only those, and only those values for variables. -/
def Call.Warranted : Call → Prop
  | play actor animation => plays actor animation
  | setVariable id value => stores id value
  | setParameter _ _ _ | showLine _ | showChoices _ _ => True

/-- No variable was added, and only those were written. -/
structure Cells.Warranted (before after : Cells) : Prop where
  length : after.values.length = before.values.length
  get : ∀ id, (∀ value, ¬ stores id value) → after.get id = before.get id

/-- From the one to the other only such calls were made, and only such variables were written. -/
structure Watched.Warranted {A B : Type} (m m' : Watched (World A B)) : Prop where
  calls : ∃ added, m'.ledger.calls = m.ledger.calls ++ added ∧
    ∀ call ∈ added, call.Warranted plays stores
  cells : m.world.cells.Warranted stores m'.world.cells

end Warrants

namespace Cells.Warranted

variable {stores : VariableId → Bool → Prop} {c c' c'' : Cells}

theorem of_eq (h : c' = c) : c.Warranted stores c' := h ▸ ⟨rfl, fun _ _ => rfl⟩

theorem trans (h : c.Warranted stores c') (h' : c'.Warranted stores c'') :
    c.Warranted stores c'' :=
  ⟨h'.length.trans h.length, fun id hid => (h'.get id hid).trans (h.get id hid)⟩

theorem set (c : Cells) {id : VariableId} {value : Bool} (h : stores id value) :
    c.Warranted stores (c.set id value) := by
  refine ⟨by simp [Cells.set], fun other hother => Cells.get_set_of_ne c (fun heq => ?_) value⟩
  exact hother value (heq ▸ h)

end Cells.Warranted

section Performing

variable {A α B β : Type} {company : Company A α} {presenter : Presenter B β}
  {plays : ActorId → String → Prop} {stores : VariableId → Bool → Prop}

namespace Watched.Warranted

variable {m m' m'' : Watched (World A B)}

theorem refl (m : Watched (World A B)) : m.Warranted plays stores m := ⟨⟨[], by simp⟩, .of_eq rfl⟩

theorem trans (h : m.Warranted plays stores m') (h' : m'.Warranted plays stores m'') :
    m.Warranted plays stores m'' := by
  obtain ⟨first, hfirst, hcalls⟩ := h.calls
  obtain ⟨more, hmore, hcalls'⟩ := h'.calls
  refine ⟨⟨first ++ more, ?_, List.forall_mem_append.mpr ⟨hcalls, hcalls'⟩⟩,
    h.cells.trans h'.cells⟩
  rw [hmore, hfirst, List.append_assoc]

theorem called (m : Watched (World A B)) (call : Call) (hcall : call.Warranted plays stores)
    {after : World A B} (hcells : m.world.cells.Warranted stores after.cells) :
    m.Warranted plays stores (m.called call after) := by
  refine ⟨⟨[call], ?_, List.forall_mem_singleton.mpr hcall⟩, hcells⟩
  rw [Watched.called, Ledger.calls_append]
  rfl

theorem moved (m : Watched (World A B)) {after : World A B}
    (hcells : after.cells = m.world.cells) : m.Warranted plays stores (m.moved after) :=
  ⟨⟨[], by simp [Watched.moved]⟩, .of_eq hcells⟩

variable (company presenter)

theorem setParameter (m : Watched (World A B)) (actor : ActorId) (name : String) (value : Bool) :
    m.Warranted plays stores
      ((Host.ofParts company presenter).watched.setParameter actor name value m) :=
  called m (.setParameter actor name value) trivial (.of_eq (by simp [Host.ofParts, World.remark]))

theorem record (m : Watched (World A B)) (n : Note) :
    m.Warranted plays stores ((Host.ofParts company presenter).watched.record n m) :=
  moved m rfl

theorem play (m : Watched (World A B)) {actor : ActorId} {animation : String}
    (h : plays actor animation) :
    m.Warranted plays stores
      ((Host.ofParts company presenter).watched.play actor animation m).2 :=
  called m (.play actor animation) h (.of_eq (by simp [World.remark]))

theorem step (m : Watched (World A B)) (work : α ⊕ β) (frame : Frame) :
    m.Warranted plays stores ((Host.ofParts company presenter).watched.step work frame m).world := by
  refine ⟨⟨[], ?_, by simp⟩, ?_⟩
  · rw [List.append_nil, Host.watched, Ledger.calls_append]
    unfold Ledger.ofStep
    split <;> simp [Ledger.calls]
  · refine .of_eq ?_
    cases work <;> simp [Host.watched, Host.ofParts, Host.stepActor, Host.stepBubble, World.remark]

theorem storing (m : Watched (World A B)) {assignment : Assignment}
    (h : (Statement.store assignment).AsksFor plays stores) :
    m.Warranted plays stores ((Host.ofParts company presenter).watched.storing assignment m) := by
  obtain ⟨target, value⟩ := assignment
  cases target with
  | contextVariable name id =>
    exact (record company presenter m _).trans
      (called _ (.setVariable id value) h (.set _ h))
  | parameter owner name =>
    exact (record company presenter m _).trans (setParameter company presenter _ _ _ _)

theorem hushing (m : Watched (World A B)) (d : Delivery) (talking : Bool) :
    m.Warranted plays stores
      ((Host.ofParts company presenter).watched.hushing d talking m) := by
  unfold Host.hushing
  split
  · exact (record company presenter m _).trans (setParameter company presenter _ _ _ _)
  · exact refl m

theorem stepParts (m : Watched (World A B)) {parts : List ((α ⊕ β) ⊕ Cue)}
    (h : ∀ cue, .inr cue ∈ parts → plays cue.performer.actor cue.animation) (frame : Frame) :
    m.Warranted plays stores
      ((Host.ofParts company presenter).watched.stepParts frame parts m).world := by
  refine (Host.stepParts_keeps (I := m.Warranted plays stores) (P := fun _ => True) ?_ ?_
    (fun _ _ => trivial) (refl m)).2
  · intro cue hcue v hv
    exact ⟨_, _, rfl, trivial, (hv.trans (record company presenter v _)).trans
      (play company presenter _ (h cue hcue))⟩
  · exact fun work v _ hv => ⟨trivial, hv.trans (step company presenter v work frame)⟩

variable {company presenter}

theorem openLine {d : Delivery} {talking : Bool} {bubble : α ⊕ β}
    (h : Action.openLine (Host.ofParts company presenter).watched d m = (talking, bubble, m')) :
    m.Warranted plays stores m' := by
  have hshow (v : Watched (World A B)) (position : Position) : v.Warranted plays stores
      ((Host.ofParts company presenter).watched.showLine d.text position v).2 :=
    called v (.showLine d.text) trivial (.of_eq (by simp [World.remark]))
  unfold Action.openLine at h
  dsimp only at h
  split at h
  · simp only [Prod.mk.injEq] at h
    obtain ⟨-, -, rfl⟩ := h
    exact (((record company presenter m _).trans (setParameter company presenter _ _ _ _)).trans
      (record company presenter _ _)).trans (hshow _ _)
  · simp only [Prod.mk.injEq] at h
    obtain ⟨-, -, rfl⟩ := h
    exact (record company presenter m _).trans (hshow _ _)

theorem openChoices {q : Question} {slot : Slot} {bubble : α ⊕ β}
    (h : Action.openChoices (Host.ofParts company presenter).watched q m = (slot, bubble, m')) :
    m.Warranted plays stores m' := by
  simp only [Action.openChoices, Prod.mk.injEq] at h
  obtain ⟨rfl, rfl, rfl⟩ := h
  have hslot : m.Warranted plays stores
      ((Host.ofParts company presenter).watched.openSlot m).2 := moved m rfl
  exact (hslot.trans (record company presenter _ _)).trans
    (called _ (.showChoices q.labels _) trivial
      (.of_eq (by simp [Host.ofParts, Host.opened, World.remark])))

theorem of_step {work next : α ⊕ β} {frame : Frame} {outcome : Outcome}
    (h : (Host.ofParts company presenter).watched.step work frame m = ⟨outcome, next, m'⟩) :
    m.Warranted plays stores m' := by
  have hstep : m.Warranted plays stores _ := step company presenter m work frame
  rwa [h] at hstep

end Watched.Warranted

/-! ## Spots -/

variable (plays stores) in
/-- What is still to come of business in progress asks for nothing else. -/
inductive Business.AsksFor : Business (α ⊕ β) → Prop where
  | speaking (d : Delivery) (talking : Bool) (bubble : α ⊕ β) :
      AsksFor (.speaking d talking bubble)
  | playing {parts : List ((α ⊕ β) ⊕ Cue)}
      (h : ∀ cue, .inr cue ∈ parts → plays cue.performer.actor cue.animation) :
      AsksFor (.playing parts)
  | stored : AsksFor .stored
  | choosing (q : Question) (slot : Slot) (bubble : α ⊕ β)
      {branches : List (String × List Statement)}
      (h : ∀ b ∈ branches, ∀ t ∈ Script.partsOf b.2, t.AsksFor plays stores) :
      AsksFor (.choosing q slot bubble branches)

variable (plays stores) in
/-- What is still to come at a spot asks for nothing else. -/
structure Spot.AsksFor (spot : Spot (α ⊕ β)) : Prop where
  now : ∀ business ∈ spot.now, business.AsksFor plays stores
  later : ∀ t ∈ Script.partsOf spot.later, t.AsksFor plays stores

section Spots

variable {settings : Settings} {frame : Frame} {spot spot' : Spot (α ⊕ β)}
  {m m' : Watched (World A B)} {outcome : Outcome}

theorem Spot.AsksFor.script {script : List Statement}
    (h : ∀ t ∈ Script.partsOf script, t.AsksFor plays stores) :
    (⟨none, script⟩ : Spot (α ⊕ β)).AsksFor plays stores := ⟨by simp, h⟩

theorem Spot.AsksFor.busy {business : Business (α ⊕ β)} {later : List Statement}
    (hnow : business.AsksFor plays stores)
    (hlater : ∀ t ∈ Script.partsOf later, t.AsksFor plays stores) :
    Spot.AsksFor plays stores ⟨some business, later⟩ :=
  ⟨fun _ hother => Option.some.inj hother ▸ hnow, hlater⟩

/-- The statement that comes next and those after it. -/
theorem Spot.AsksFor.next {s : Statement} {later : List Statement}
    (h : (⟨none, s :: later⟩ : Spot (α ⊕ β)).AsksFor plays stores) :
    (∀ t ∈ s.parts, t.AsksFor plays stores) ∧
      ∀ t ∈ Script.partsOf later, t.AsksFor plays stores :=
  List.forall_mem_append.mp h.later

/-- A move asks for nothing else, and neither does what is left after it. -/
theorem Spot.AsksFor.move (h : spot.AsksFor plays stores)
    (hmove : Move (Host.ofParts company presenter).watched settings frame spot m spot' m') :
    spot'.AsksFor plays stores ∧ m.Warranted plays stores m' := by
  cases hmove with
  | speak hopen => exact ⟨.busy (.speaking _ _ _) h.next.2, .openLine hopen⟩
  | said hstep =>
    exact ⟨.script h.later,
      (Watched.Warranted.of_step hstep).trans (.hushing company presenter _ _ _)⟩
  | @play cues later =>
    have hcues := h.next.1 _ (Statement.self_mem_parts _)
    refine ⟨.busy (.playing fun cue hcue => ?_) h.next.2, .refl m⟩
    simp only [List.mem_map, Sum.inr.injEq, exists_eq_right] at hcue
    exact hcues cue hcue
  | played hdone =>
    cases h.now _ rfl with
    | playing hcues => exact ⟨.script h.later, .stepParts company presenter m hcues frame⟩
  | stored => exact ⟨.script h.later, .refl m⟩
  | ask hopen =>
    exact ⟨.busy (.choosing _ _ _ (Statement.forall_partsOf_branch h.next.1)) h.next.2,
      .openChoices hopen⟩
  | chose hstep hselected hbranch =>
    cases h.now _ rfl with
    | choosing _ _ _ hbranches =>
      refine ⟨.script ?_, (Watched.Warranted.of_step hstep).trans (.record company presenter _ _)⟩
      rw [Script.partsOf_append, List.forall_mem_append]
      exact ⟨hbranches _ (List.mem_of_getElem? hbranch), h.later⟩

theorem Spot.AsksFor.halt (h : spot.AsksFor plays stores)
    (hhalt : Halt (Host.ofParts company presenter).watched frame spot m outcome spot' m') :
    spot'.AsksFor plays stores ∧ m.Warranted plays stores m' := by
  cases hhalt with
  | finished => exact ⟨h, .refl m⟩
  | store =>
    exact ⟨.busy .stored h.next.2,
      .storing company presenter m (h.next.1 _ (Statement.self_mem_parts _))⟩
  | speaking hstep _ => exact ⟨.busy (.speaking _ _ _) h.later, .of_step hstep⟩
  | playing _ =>
    cases h.now _ rfl with
    | playing hcues =>
      exact ⟨.busy (.playing fun cue hcue => hcues cue (Host.mem_next_stepParts hcue)) h.later,
        .stepParts company presenter m hcues frame⟩
  | choosing hstep _ =>
    cases h.now _ rfl with
    | choosing _ _ _ hbranches =>
      exact ⟨.busy (.choosing _ _ _ hbranches) h.later, .of_step hstep⟩
  | unselected hstep _ =>
    cases h.now _ rfl with
    | choosing _ _ _ hbranches =>
      exact ⟨.busy (.choosing _ _ _ hbranches) h.later, .of_step hstep⟩
  | invalid hstep _ _ =>
    exact ⟨.busy (.choosing _ _ _ (by simp)) h.later,
      (Watched.Warranted.of_step hstep).trans (.record company presenter _ _)⟩

/-- So a frame asks for nothing else. -/
theorem Spot.AsksFor.passes (h : spot.AsksFor plays stores)
    (hpasses : Passes (Host.ofParts company presenter).watched settings frame spot m outcome spot'
      m') :
    spot'.AsksFor plays stores ∧ m.Warranted plays stores m' := by
  induction hpasses with
  | halt hhalt => exact h.halt hhalt
  | move hmove _ ih =>
    obtain ⟨hmid, hfirst⟩ := h.move hmove
    obtain ⟨hlast, hmore⟩ := ih hmid
    exact ⟨hlast, hfirst.trans hmore⟩

/-- And so does every frame of a run, whatever others do between the frames. -/
theorem Stands.warranted_amid
    {children : List (Action (Watched (World A B)) (α ⊕ β))}
    (h : Stands (Host.ofParts company presenter).watched settings children spot)
    (hspot : spot.AsksFor plays stores) (run : List ((World A B → World A B) × Frame))
    (hm : ∀ call ∈ m.ledger.calls, call.Warranted plays stores) :
    ∀ s ∈ Action.amid (Host.ofParts company presenter).watched (unheeded run)
        (.sequence children) m,
      (∀ call ∈ s.2.world.ledger.calls, call.Warranted plays stores) ∧
        s.1.world.cells.Warranted stores s.2.world.world.cells := by
  induction run generalizing spot children m with
  | nil => simp [unheeded, Action.amid]
  | cons r run ih =>
    obtain ⟨change, frame⟩ := r
    obtain ⟨last, hpasses, hstands⟩ := h.passes frame (m.aside change)
    obtain ⟨hlast, hwarranted⟩ := hspot.passes hpasses
    obtain ⟨added, hadded, hcalls⟩ := hwarranted.calls
    have hafter : ∀ call ∈ (Action.advanceSequence (Host.ofParts company presenter).watched frame
        children (m.aside change)).world.ledger.calls, call.Warranted plays stores := by
      rw [hadded, List.forall_mem_append]
      exact ⟨hm, hcalls⟩
    rw [unheeded, List.map_cons, Action.amid, Action.advance]
    exact List.forall_mem_cons.mpr ⟨⟨hafter, hwarranted.cells⟩, ih hstands hlast hafter⟩

end Spots

/-! ## Reading and running -/

/-- Watching changes nothing, whatever others do. -/
theorem Host.Shadows.amid {V W κ : Type} {ghost : Host V κ} {host : Host W κ} {seen : V → W}
    {settings : Settings} {spot : Spot κ} (hs : ghost.Shadows host seen)
    {lift : (W → W) → V → V} (hlift : ∀ change v, seen (lift change v) = change (seen v))
    {watching : List (Action V κ)} {watched : List (Action W κ)}
    (h : Stands ghost settings watching spot) (h' : Stands host settings watched spot)
    (run : List ((W → W) × Frame)) (v : V) :
    List.Forall₂
      (fun s t => seen s.1 = t.1 ∧ s.2.outcome = t.2.outcome ∧ seen s.2.world = t.2.world)
      (Action.amid ghost (run.map fun r => (lift r.1, r.2)) (.sequence watching) v)
      (Action.amid host run (.sequence watched) (seen v)) := by
  induction run generalizing spot watching watched v with
  | nil => exact .nil
  | cons r run ih =>
    obtain ⟨change, frame⟩ := r
    obtain ⟨houtcome, hworld, spot', hstands, hstands'⟩ :=
      hs.advance h h' frame (lift change v)
    have hrest := ih hstands hstands'
      (Action.advanceSequence ghost frame watching (lift change v)).world
    rw [hworld, hlift] at hrest
    rw [hlift] at houtcome hworld
    rw [List.map_cons, Action.amid, Action.amid, Action.advance, Action.advance]
    exact .cons ⟨hlift change v, houtcome, hworld⟩ hrest

theorem recordReading_ofParts {γ : Type} (r : Script.Reading γ) (w : World A B) :
    Dialogue.recordReading (Host.ofParts company presenter) r w = w.recordAll r.notes := rfl

/-- Reading is written into the journal and not into the ledger. -/
theorem recordReading_watched {γ : Type} (r : Script.Reading γ) (m : Watched (World A B)) :
    Dialogue.recordReading (Host.ofParts company presenter).watched r m =
      m.moved (m.world.recordAll r.notes) := by
  unfold Dialogue.recordReading World.recordAll
  induction r.notes generalizing m with
  | nil => rfl
  | cons n ns ih => exact ih (m.moved (m.world.record n))

section Actions

variable {W κ : Type} (host : Host W κ) (d : Dialogue) {stage : Stage} (w : W)

theorem Dialogue.world_action : (d.action host stage w).2 =
    recordReading host (Script.readScript stage d.script) w := by
  simp only [action]

theorem Dialogue.action_of_ok {script : List Statement}
    (h : (Script.readScript stage d.script).result = .ok script) :
    d.action host stage w =
      (.ok (.ofScript host d.settings script),
        recordReading host (Script.readScript stage d.script) w) := by
  simp only [action, h]

theorem Dialogue.exists_of_action {action : Action W κ} (h : (d.action host stage w).1 = .ok action) :
    ∃ script, (Script.readScript stage d.script).result = .ok script ∧
      action = .ofScript host d.settings script := by
  cases hread : (Script.readScript stage d.script).result with
  | ok script =>
    rw [d.action_of_ok host w hread] at h
    exact ⟨script, rfl, (Except.ok.inj h).symm⟩
  | error es => simp [Dialogue.action, hread] at h

end Actions

/-- A script that asks for nothing else calls for nothing else while it is played, and it is played
in the same way without a ledger. -/
theorem ofScript_warranted_amid (company : Company A α) (presenter : Presenter B β)
    (settings : Settings) {script : List Statement}
    (h : ∀ t ∈ Script.partsOf script, t.AsksFor plays stores)
    (run : List ((World A B → World A B) × Frame)) {m : Watched (World A B)} (hm : m.ledger = []) :
    let host := Host.ofParts company presenter
    List.Forall₂
        (fun s t => s.1.world = t.1 ∧ s.2.outcome = t.2.outcome ∧ s.2.world.world = t.2.world)
        (Action.amid host.watched (unheeded run) (.ofScript host.watched settings script) m)
        (Action.amid host run (.ofScript host settings script) m.world) ∧
      ∀ s ∈ Action.amid host.watched (unheeded run) (.ofScript host.watched settings script) m,
        (∀ call ∈ s.2.world.ledger.calls, call.Warranted plays stores) ∧
          s.1.world.cells.Warranted stores s.2.world.world.cells := by
  intro host
  have hwatched : Stands host.watched settings
      (Action.ofStatements host.watched settings script) ⟨none, script⟩ := .script script
  exact ⟨host.watched_shadows.amid (fun _ _ => rfl) hwatched (.script script) run m,
    hwatched.warranted_amid (.script h) run (by simp [hm, Ledger.calls])⟩

/-- Whatever a text is read as on a stage, and whatever others do between the frames in which it is
played: every call for an animation is one that a line of the text asks for, with the actor that was
found by its name when the text was read and an animation that this actor had then; every variable
that is written, and every one that changes within a frame, is one that was found by the name of a
target; and neither reading nor any frame adds a variable.  The ledger by which this is said changes
nothing in what is played. -/
theorem Dialogue.action_calls_warranted (company : Company A α) (presenter : Presenter B β)
    (d : Dialogue) (stage : Stage) (w : World A B) :
    let host := Host.ofParts company presenter
    let reading := d.action host.watched stage ⟨w, []⟩
    reading.2.ledger = [] ∧ reading.2.world.cells = w.cells ∧
      ∀ action, reading.1 = .ok action → ∀ run : List ((World A B → World A B) × Frame),
        (∃ plain, d.action host stage w = (.ok plain, reading.2.world) ∧
          List.Forall₂
            (fun s t => s.1.world = t.1 ∧ s.2.outcome = t.2.outcome ∧ s.2.world.world = t.2.world)
            (Action.amid host.watched (unheeded run) action reading.2)
            (Action.amid host run plain reading.2.world)) ∧
        ∀ s ∈ Action.amid host.watched (unheeded run) action reading.2,
          (∀ actor animation, .play actor animation ∈ s.2.world.ledger.calls →
            ∃ l, Script.HasLine d.script l ∧ l.Cues stage actor animation) ∧
          (∀ id value, .setVariable id value ∈ s.2.world.ledger.calls →
            ∃ l, Script.HasLine d.script l ∧ l.Stores stage id value) ∧
          (∀ id, s.2.world.world.cells.get id ≠ s.1.world.cells.get id →
            ∃ value l, Script.HasLine d.script l ∧ l.Stores stage id value) ∧
          s.2.world.world.cells.values.length = s.1.world.cells.values.length := by
  intro host reading
  have hreading : reading.2 = ⟨w.recordAll (Script.readScript stage d.script).notes, []⟩ := by
    simp only [reading, Dialogue.world_action, host, recordReading_watched, Watched.moved]
  refine ⟨by rw [hreading], by rw [hreading, World.cells_recordAll], fun action haction run => ?_⟩
  obtain ⟨script, hread, rfl⟩ := d.exists_of_action host.watched ⟨w, []⟩ haction
  rw [hreading]
  generalize hnotes : (Script.readScript stage d.script).notes = notes
  have hplain : d.action host stage w =
      (.ok (.ofScript host d.settings script), w.recordAll notes) := by
    rw [d.action_of_ok host w hread, recordReading_ofParts, hnotes]
  obtain ⟨hsame, hwarranted⟩ := ofScript_warranted_amid company presenter d.settings
    (Script.asksFor_of_readScript hread) run (m := ⟨w.recordAll notes, []⟩) rfl
  refine ⟨⟨_, hplain, hsame⟩, fun s hs => ?_⟩
  obtain ⟨hcalls, hcells⟩ := hwarranted s hs
  refine ⟨fun actor animation hplay => hcalls _ hplay, fun id value hset => hcalls _ hset,
    fun id hchanged => ?_, hcells.length⟩
  by_contra hnone
  exact hchanged (hcells.get id (not_exists.mp hnone))

end Performing

namespace Rehearsal

open Bubble (Transcript)

/-- The actor is not found any more once the choice was put, and is asked to nod all the same. -/
theorem askScript_calls_warranted :
    let host := puppets.withTranscript ⟨.zero, .zero⟩
    let d : Dialogue := ⟨Script.written askScript, .standard⟩
    let w : World Cast Transcript := ⟨annAlone, .empty, .empty, .empty, #[]⟩
    let leave : World Cast Transcript → World Cast Transcript :=
      fun w => { w with actors := w.actors.leave "Ann" }
    let reading := d.action host.watched (annAlone.stage ⟨[]⟩) ⟨w, []⟩
    let action := Action.ofScript host.watched .standard askScript
    let played := Action.amid host.watched (unheeded (askFrames.map fun frame => (leave, frame)))
      action reading.2
    reading.1 = .ok action ∧
      (∀ s ∈ played, ∀ actor animation, .play actor animation ∈ s.2.world.ledger.calls →
        ∃ l, Script.HasLine d.script l ∧ l.Cues (annAlone.stage ⟨[]⟩) actor animation) ∧
      played.getLast?.map (fun s => s.2.world.ledger.calls) =
        some [.showChoices ["No", "Yes"] ⟨0⟩, .play ⟨0⟩ "nod"] := by
  intro host d w leave reading action played
  have haction : reading.1 = .ok action :=
    congrArg Prod.fst (d.action_of_ok host.watched ⟨w, []⟩ readScript_askScript)
  obtain ⟨-, -, hplayed⟩ := Dialogue.action_calls_warranted puppets (.transcript ⟨.zero, .zero⟩) d
    (annAlone.stage ⟨[]⟩) w
  obtain ⟨-, hcalls⟩ := hplayed action haction (askFrames.map fun frame => (leave, frame))
  exact ⟨haction, fun s hs => (hcalls s hs).1, by decide +kernel⟩

end Rehearsal

end Promptbook
