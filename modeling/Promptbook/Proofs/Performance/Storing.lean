import Promptbook.Proofs.Performance.Recording
import Promptbook.Proofs.Performance.Remainder
import Promptbook.Proofs.Performance.Soundness
import Promptbook.Proofs.Script.Citation
import Promptbook.Proofs.Stage.History

set_option autoImplicit false

/-!
# What scripts do to variables

A script holds the handles that were found when it was read, and writes through them whenever it
comes to that, which may be long after names were added and snapshots restored.  No move touches a
cell, and a halt writes one at most, so a frame is nothing that an inventory does not know: either
nothing is done to the variables, or a handle that was given out for a name is written through
(`AcceptedScript.amid_performs`).  What holds of variables under all operations
(`variables_keep_their_cells`) is therefore true while scripts are played, too.
-/

namespace Promptbook

open Script (Statement Cue Assignment)

/-! ## Single calls -/

section Calls

variable {A α B β : Type} (company : Company A α) (presenter : Presenter B β)

namespace World

theorem cells_remark (texts : List String) (w : World A B) : (w.remark texts).cells = w.cells :=
  cells_recordAll _ w

theorem cells_setParameter (actor : ActorId) (name : String) (value : Bool) (w : World A B) :
    ((Host.ofParts company presenter).setParameter actor name value w).cells = w.cells :=
  cells_remark _ _

theorem cells_play (actor : ActorId) (animation : String) (w : World A B) :
    ((Host.ofParts company presenter).play actor animation w).2.cells = w.cells :=
  cells_remark _ _

theorem cells_showLine (text : String) (position : Position) (w : World A B) :
    ((Host.ofParts company presenter).showLine text position w).2.cells = w.cells :=
  cells_remark _ _

theorem cells_showChoices (labels : List String) (position : Position) (slot : Slot)
    (w : World A B) :
    ((Host.ofParts company presenter).showChoices labels position slot w).2.cells = w.cells :=
  cells_remark _ _

theorem cells_step (work : α ⊕ β) (frame : Frame) (w : World A B) :
    ((Host.ofParts company presenter).step work frame w).world.cells = w.cells := by
  cases work with
  | inl animation => exact cells_remark _ _
  | inr bubble => exact cells_remark _ _

theorem cells_stepParts (parts : List ((α ⊕ β) ⊕ Cue)) (frame : Frame) (w : World A B) :
    ((Host.ofParts company presenter).stepParts frame parts w).world.cells = w.cells := by
  refine (Host.stepParts_keeps (I := fun v : World A B => v.cells = w.cells) (P := fun _ => True)
    ?_ ?_ (fun _ _ => trivial) rfl).2
  · exact fun cue _ v hv => ⟨_, _, rfl, trivial, (cells_play company presenter _ _ _).trans hv⟩
  · exact fun work v _ hv => ⟨trivial, (cells_step company presenter work frame v).trans hv⟩

theorem cells_hushing (d : Delivery) (talking : Bool) (w : World A B) :
    ((Host.ofParts company presenter).hushing d talking w).cells = w.cells := by
  unfold Host.hushing
  split
  · exact cells_setParameter company presenter _ _ _ _
  · rfl

variable {company presenter} {w after : World A B}

theorem cells_of_step {work next : α ⊕ β} {frame : Frame} {outcome : Outcome}
    (h : (Host.ofParts company presenter).step work frame w = ⟨outcome, next, after⟩) :
    after.cells = w.cells := by
  have hstep := cells_step company presenter work frame w
  rwa [h] at hstep

theorem cells_of_openLine {d : Delivery} {talking : Bool} {bubble : α ⊕ β}
    (h : Action.openLine (Host.ofParts company presenter) d w = (talking, bubble, after)) :
    after.cells = w.cells := by
  simp only [Action.openLine, Prod.mk.injEq] at h
  obtain ⟨-, -, rfl⟩ := h
  refine (cells_showLine company presenter _ _ _).trans ?_
  split
  · exact cells_setParameter company presenter _ _ _ _
  · rfl

theorem cells_of_openChoices {q : Question} {slot : Slot} {bubble : α ⊕ β}
    (h : Action.openChoices (Host.ofParts company presenter) q w = (slot, bubble, after)) :
    after.cells = w.cells := by
  simp only [Action.openChoices, Prod.mk.injEq] at h
  obtain ⟨-, -, rfl⟩ := h
  exact cells_showChoices company presenter _ _ _ _

end World

end Calls

/-! ## Frames -/

/-- At most one variable was written, with a value that may be stored there. -/
inductive Cells.Stored (stores : VariableId → Bool → Prop) (before : Cells) : Cells → Prop where
  | nothing : Stored stores before before
  | value {id : VariableId} {value : Bool} (h : stores id value) :
      Stored stores before (before.set id value)

section Frames

variable {A α B β : Type} {company : Company A α} {presenter : Presenter B β}
  {settings : Settings} {frame : Frame} {spot spot' : Spot (α ⊕ β)} {w w' : World A B}
  {plays : ActorId → String → Prop} {stores : VariableId → Bool → Prop}

/-- A move stores nothing. -/
theorem Move.cells_eq
    (h : Move (Host.ofParts company presenter) settings frame spot w spot' w') :
    w'.cells = w.cells := by
  cases h with
  | speak hopen => exact World.cells_of_openLine hopen
  | said hstep =>
    exact (World.cells_hushing company presenter _ _ _).trans (World.cells_of_step hstep)
  | play => rfl
  | played _ => exact World.cells_stepParts company presenter _ _ _
  | stored => rfl
  | ask hopen => exact World.cells_of_openChoices hopen
  | chose hstep _ _ =>
    -- after the bubble only a note is recorded
    have hcells := World.cells_of_step hstep
    exact hcells

/-- The end of a frame stores what the next statement says, if it is one that stores. -/
theorem Halt.stored {outcome : Outcome}
    (h : Halt (Host.ofParts company presenter) frame spot w outcome spot' w')
    (hspot : spot.All (Statement.AsksFor plays stores)) : w.cells.Stored stores w'.cells := by
  have hnothing (heq : w'.cells = w.cells) : w.cells.Stored stores w'.cells := heq ▸ .nothing
  cases h with
  | finished => exact .nothing
  | @store assignment later =>
    have hasks := hspot.next.1 _ (Statement.self_mem_parts _)
    obtain ⟨target, value⟩ := assignment
    cases target with
    | contextVariable name id => exact .value hasks
    | parameter owner name => exact hnothing (World.cells_setParameter company presenter _ _ _ _)
  | speaking hstep _ => exact hnothing (World.cells_of_step hstep)
  | playing _ => exact hnothing (World.cells_stepParts company presenter _ _ _)
  | choosing hstep _ => exact hnothing (World.cells_of_step hstep)
  | unselected hstep _ => exact hnothing (World.cells_of_step hstep)
  | invalid hstep _ _ =>
    have hcells := World.cells_of_step hstep
    exact hnothing hcells

/-- So does a frame, as no move before its end stores anything. -/
theorem Passes.stored {outcome : Outcome}
    (h : Passes (Host.ofParts company presenter) settings frame spot w outcome spot' w')
    (hspot : spot.All (Statement.AsksFor plays stores)) : w.cells.Stored stores w'.cells := by
  obtain ⟨mid, v, ⟨hmid, hcells⟩, hhalt⟩ := h.exists_halt
    (J := fun mid v => mid.All (Statement.AsksFor plays stores) ∧ v.cells = w.cells)
    (fun hmove hJ => ⟨hJ.1.move hmove, hmove.cells_eq.trans hJ.2⟩) ⟨hspot, rfl⟩
  exact hcells ▸ hhalt.stored hmid

/-- So does every frame of a run, whatever others do between the frames. -/
theorem Stands.stored_amid {children : List (Action (World A B) (α ⊕ β))}
    (h : Stands (Host.ofParts company presenter) settings children spot)
    (hspot : spot.All (Statement.AsksFor plays stores))
    (run : List ((World A B → World A B) × Frame)) (w : World A B) :
    ∀ t ∈ Action.amid (Host.ofParts company presenter) run (.sequence children) w,
      t.1.cells.Stored stores t.2.world.cells := by
  induction run generalizing spot children w with
  | nil => simp [Action.amid]
  | cons r run ih =>
    obtain ⟨change, frame⟩ := r
    obtain ⟨last, hpasses, hstands⟩ := h.passes frame (change w)
    rw [Action.amid, Action.advance]
    exact List.forall_mem_cons.mpr ⟨hpasses.stored hspot, ih hstands (hspot.passes hpasses) _⟩

/-- A script that was read when a context found these names does nothing else to its variables than
to write through handles of them, however much was done to the context in the meantime. -/
theorem AcceptedScript.amid_performs (script : AcceptedScript) (company : Company A α)
    (presenter : Presenter B β) {v u : Inventory}
    (hstage : ∀ name, script.stage.findVariable name = v.context.find? name)
    (hkept : ∀ name id, v.context.find? name = some id → u.context.find? name = some id)
    (run : List ((World A B → World A B) × Frame)) (w : World A B) :
    let host := Host.ofParts company presenter
    ∀ t ∈ Action.amid host run (script.action host) w, t.1.cells = u.cells →
      ∃ more, (u.performAll more).cells = t.2.world.cells ∧
        (u.performAll more).context = u.context ∧
        (more = [] ∨ ∃ name ∈ v.context.names, ∃ value,
          more = [.find name, .write u.handles.length value]) := by
  intro host t ht hbefore
  have hstands : Stands host script.settings
      (Action.ofStatements host script.settings script.statements) ⟨none, script.statements⟩ :=
    .script script.statements
  have hasks := Script.asksFor_of_readScript script.accepted
  have hstored := hstands.stored_amid (.script hasks) run w t ht
  rw [hbefore] at hstored
  generalize hafter : t.2.world.cells = after at hstored
  cases hstored with
  | nothing => exact ⟨[], rfl, rfl, .inl rfl⟩
  | @value id value hstores =>
    obtain ⟨l, -, -, -, written, -, -, -, hfound⟩ := hstores
    rw [hstage] at hfound
    have hfind := hkept _ id hfound
    refine ⟨[.find (String.ofList written), .write u.handles.length value], ?_, ?_, .inr
      ⟨_, Context.mem_names_of_find? hfound, value, rfl⟩⟩
    all_goals simp [Inventory.performAll, Inventory.perform, hfind]

end Frames

/-! ## Variables -/

open Context (Operation)

/-- Whatever is done to the variables of a context, the names are those that were added, each where
it was added first; all others are not found, and a name shows what was written to it last.  The
handle that was found for a name stays that of the name, and so does every handle that was given
out.  When a snapshot is restored later, its names show again what they showed, those that were
added since keep what they show, and names that are unknown do not matter.  Every frame of a script
that was read meanwhile is some of these operations: it leaves the variables alone, or writes
through a handle of a name that was found when the script was read. -/
theorem variables_keep_their_cells (cells : Cells) (past later : List Operation) :
    let v := (Inventory.new cells).performAll past
    let u := v.performAll later
    let told := History.of (past ++ later)
    let added := (past ++ later).filterMap Operation.added?
    (u.context.names = added.eraseDups ∧ u.context.names.Nodup ∧
      v.context.names <+: u.context.names) ∧
    (∀ name, u.context.find? name = none ↔ name ∉ added) ∧
    (∀ name, u.get? name = told.last? name) ∧
    (∀ name id, v.context.find? name = some id →
      u.context.find? name = some id ∧ told.last? name = some (u.cells.get id)) ∧
    (∀ (handle : Nat) (id : VariableId), v.handles[handle]? = some id →
      u.handles[handle]? = some id ∧ ∃ name,
        (History.of past).held[handle]? = some name ∧ v.context.find? name = some id) ∧
    (∀ saved : List (String × Bool),
      (∀ name ∈ u.context.names, saved.lookup name = v.snapshot.lookup name) →
      ∀ name, (u.perform (.restore saved)).get? name =
        if name ∈ v.context.names then v.get? name else u.get? name) ∧
    ∀ {A α B β : Type} (company : Company A α) (presenter : Presenter B β)
      (script : AcceptedScript),
      (∀ name, script.stage.findVariable name = v.context.find? name) →
      let host := Host.ofParts company presenter
      ∀ run w, ∀ t ∈ Action.amid host run (script.action host) w, t.1.cells = u.cells →
        ∃ more, (u.performAll more).cells = t.2.world.cells ∧
          (u.performAll more).context = u.context ∧
          (more = [] ∨ ∃ name ∈ v.context.names, ∃ value,
            more = [.find name, .write u.handles.length value]) := by
  intro v u told added
  have hv : v.Agrees (.of past) := .of_performAll_new cells past
  have hu : u.Agrees told := by
    have hall := Inventory.Agrees.of_performAll_new cells (past ++ later)
    rwa [Inventory.performAll_append] at hall
  have hnames : u.context.names = added.eraseDups := hu.names.trans (History.names_of _)
  have hprefix : v.context.names <+: u.context.names := v.names_performAll later
  have hkept (name : String) (id : VariableId) (hfind : v.context.find? name = some id) :
      u.context.find? name = some id := Inventory.find?_performAll hfind later
  refine ⟨⟨hnames, hu.separate.names, hprefix⟩, fun name => ?_, hu.last, fun name id hfind => ?_,
    fun handle id hid => ?_, fun saved hsaved => ?_, fun company presenter script hstage => ?_⟩
  · rw [Context.find?_eq_none_iff, hnames, List.mem_eraseDups]
  · exact ⟨hkept name id hfind, hu.last_of_find? (hkept name id hfind)⟩
  · exact ⟨Inventory.getElem?_handles_performAll hid later, hv.exists_held hid⟩
  · exact Inventory.get?_restored hu.separate hprefix hsaved
  · exact script.amid_performs company presenter hstage hkept

namespace Rehearsal

open Bubble (Transcript)

/-- The actors have met. -/
def meetScript : List Statement := [.store ⟨.contextVariable "Met" ⟨0⟩, true⟩]

/-- What is done after the script was read: its variable is added again, written through the handle
of the first time and found, and a snapshot is restored that has a name which was never added. -/
def afterMeeting : List Operation :=
  [.add "Left" true, .add "Met" true, .write 0 false, .find "Met",
    .restore [("Lost", true), ("Left", false)]]

/-- When the script is played it writes the variable that it found, which is still that of its
name. -/
theorem meetScript_keeps_its_cell :
    let host := puppets.withTranscript ⟨.zero, .zero⟩
    let v := (Inventory.new .empty).performAll [.add "Met" false]
    let u := v.performAll afterMeeting
    let restored := u.perform (.restore (("Lost", true) :: v.snapshot))
    let w : World Cast Transcript := ⟨annAlone, .empty, u.cells, .empty, #[]⟩
    u.context.names = ["Met", "Left"] ∧ u.context.find? "Lost" = none ∧
      u.context.find? "Met" = some ⟨0⟩ ∧ u.handles[0]? = some ⟨0⟩ ∧
      restored.get? "Met" = some false ∧ restored.get? "Left" = some false ∧
      ∀ t ∈ Action.amid host [(id, {})] (.ofScript host .standard meetScript) w,
        t.2.world.cells = ⟨[true, false]⟩ ∧
          ∃ more, (u.performAll more).cells = t.2.world.cells ∧
            (u.performAll more).context = u.context := by
  intro host v u restored w
  let script : AcceptedScript := ⟨annAlone.stage v.context, .standard, Script.written meetScript,
    meetScript, readScript_of_placed rfl (by decide +kernel) (by decide +kernel)⟩
  obtain ⟨⟨hnames, -, -⟩, hunknown, -, hfound, hheld, hrestored, hplayed⟩ :=
    variables_keep_their_cells .empty [.add "Met" false] afterMeeting
  have hsaved : ∀ name ∈ u.context.names,
      (("Lost", true) :: v.snapshot).lookup name = v.snapshot.lookup name := by decide +kernel
  refine ⟨hnames.trans (by decide +kernel), (hunknown "Lost").mpr (by decide +kernel),
    (hfound "Met" ⟨0⟩ rfl).1, (hheld 0 ⟨0⟩ rfl).1, (hrestored _ hsaved "Met").trans rfl,
    (hrestored _ hsaved "Left").trans (by decide +kernel), fun t ht => ?_⟩
  have heq : t = (w, Action.advance host {} (.ofScript host .standard meetScript) w) :=
    List.mem_singleton.mp ht
  subst heq
  obtain ⟨more, hcells, hcontext, -⟩ := hplayed puppets (.transcript ⟨.zero, .zero⟩) script
    (fun _ => rfl) [(id, {})] w _ ht rfl
  exact ⟨by decide +kernel, more, hcells, hcontext⟩

end Rehearsal

end Promptbook
