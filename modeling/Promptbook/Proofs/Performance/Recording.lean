import Promptbook.Proofs.Performance.Readiness
import Promptbook.Proofs.Script.Tree

set_option autoImplicit false

/-!
# What a transcript records

A path through a script is what can be recorded of it: every line, and every choice with one of its
branches.  Whatever the frames, the entries of a performance are those of a path, as far as it came.

A line is entered when its text begins to appear and a choice when it is submitted, so at every spot
some records are due: `Spot.Due` says which, and by `Records` a move enters just what is not due any
more.
-/

namespace Promptbook

open Bubble (Delays Transcript OpenBubble LineBubble ChoiceBubble)
open Script (Statement Cue Assignment)

/-! ## Paths -/

/-- What is recorded of a bubble, apart from where it was shown. -/
inductive Record where
  | line (text : String)
  | choice (labels : List String) (selected : Nat)
  deriving DecidableEq

/-- The record that an entry holds. -/
def Bubble.Entry.record : Bubble.Entry → Record
  | .line text _ => .line text
  | .choice labels selected _ => .choice labels selected

/-- The paths through a script. -/
inductive IsPath : List Statement → List Record → Prop where
  | nil : IsPath [] []
  | dialogue {speech : Script.Speech} {rest : List Statement} {path : List Record}
      (h : IsPath rest path) : IsPath (.dialogue speech :: rest) (.line speech.text :: path)
  | animation {cues : List Cue} {rest : List Statement} {path : List Record}
      (h : IsPath rest path) : IsPath (.animation cues :: rest) path
  | store {assignment : Assignment} {rest : List Statement} {path : List Record}
      (h : IsPath rest path) : IsPath (.store assignment :: rest) path
  | choice {asker : ActorRef} {branches : List (String × List Statement)} {origin : Script.Origin}
      {index : Nat} {branch : String × List Statement} {rest : List Statement}
      {inside path : List Record} (hbranch : branches[index]? = some branch)
      (hinside : IsPath branch.2 inside) (h : IsPath rest path) :
      IsPath (.choice asker branches origin :: rest)
        (.choice (Script.labelsOf branches) index :: (inside ++ path))

namespace IsPath

variable {first second : List Statement} {p q : List Record}

theorem append (h : IsPath first p) (h' : IsPath second q) : IsPath (first ++ second) (p ++ q) := by
  induction h with
  | nil => exact h'
  | dialogue _ ih => exact .dialogue ih
  | animation _ ih => exact .animation ih
  | store _ ih => exact .store ih
  | choice hbranch hinside _ _ ih =>
    rw [List.cons_append, List.cons_append, List.append_assoc]
    exact .choice hbranch hinside ih

/-- A path through two scripts is one through the first and then one through the second. -/
theorem exists_append (h : IsPath (first ++ second) p) :
    ∃ before after, IsPath first before ∧ IsPath second after ∧ p = before ++ after := by
  induction first generalizing p with
  | nil => exact ⟨[], p, .nil, h, rfl⟩
  | cons s rest ih =>
    rw [List.cons_append] at h
    cases h with
    | dialogue h =>
      obtain ⟨before, after, hbefore, hafter, rfl⟩ := ih h
      exact ⟨_, after, .dialogue hbefore, hafter, rfl⟩
    | animation h =>
      obtain ⟨before, after, hbefore, hafter, rfl⟩ := ih h
      exact ⟨before, after, .animation hbefore, hafter, rfl⟩
    | store h =>
      obtain ⟨before, after, hbefore, hafter, rfl⟩ := ih h
      exact ⟨before, after, .store hbefore, hafter, rfl⟩
    | choice hbranch hinside h =>
      obtain ⟨before, after, hbefore, hafter, rfl⟩ := ih h
      exact ⟨_, after, .choice hbranch hinside hbefore, hafter, by simp⟩

/-- There is a path through a script if there is one through each of its statements. -/
theorem exists_of_forall {script : List Statement} (h : ∀ s ∈ script, ∃ p, IsPath [s] p) :
    ∃ p, IsPath script p := by
  induction script with
  | nil => exact ⟨[], .nil⟩
  | cons s rest ih =>
    obtain ⟨⟨p, hp⟩, hrest⟩ := List.forall_mem_cons.mp h
    obtain ⟨q, hq⟩ := ih hrest
    exact ⟨p ++ q, hp.append hq⟩

end IsPath

/-- A statement that can be played has a path, through the first branch of every choice. -/
theorem Script.Statement.exists_isPath {stage : Stage} {s : Statement}
    (h : ∀ t ∈ s.parts, t.Playable stage) : ∃ p, IsPath [s] p := by
  induction s using Statement.induction with
  | dialogue speech => exact ⟨_, .dialogue .nil⟩
  | animation cues => exact ⟨_, .animation .nil⟩
  | store assignment => exact ⟨_, .store .nil⟩
  | choice asker branches origin ih =>
    have hne : branches ≠ [] := h _ (Statement.self_mem_parts _)
    obtain ⟨b, rest, rfl⟩ := List.exists_cons_of_ne_nil hne
    obtain ⟨p, hp⟩ := IsPath.exists_of_forall fun s hs =>
      ih b List.mem_cons_self s hs (Statement.forall_parts_branch h List.mem_cons_self hs)
    have hfirst : (b :: rest)[0]? = some b := rfl
    exact ⟨_, .choice hfirst hp .nil⟩

theorem PlayableOn.exists_isPath {stage : Stage} {script : List Statement}
    (h : PlayableOn stage script) : ∃ p, IsPath script p :=
  IsPath.exists_of_forall fun s hs =>
    Statement.exists_isPath fun t ht => h t (Script.mem_partsOf.mpr ⟨s, hs, ht⟩)

/-! ## What is due -/

variable {A α : Type} {company : Company A α} {delays : Delays}

/-- The records that are due at a spot, along any path. -/
def Spot.Due (spot : Spot (α ⊕ OpenBubble)) (p : List Record) : Prop :=
  match spot.now with
  | some (.speaking _ _ (.inr (.line b))) =>
    ∃ rest, IsPath spot.later rest ∧ p = b.due.map (·.record) ++ rest
  | some (.choosing q _ _ branches) =>
    ∃ index branch rest, branches[index]? = some branch ∧ IsPath (branch.2 ++ spot.later) rest ∧
      p = .choice q.labels index :: rest
  | _ => IsPath spot.later p

/-- From one moment to a later one entries are added, which are due at the first moment before what
is due at the second. -/
def Records (spot : Spot (α ⊕ OpenBubble)) (w : World A Transcript)
    (spot' : Spot (α ⊕ OpenBubble)) (w' : World A Transcript) : Prop :=
  ∃ added, w'.bubbles.entries = w.bubbles.entries ++ added ∧
    ∀ p, spot'.Due p → spot.Due (added.map (·.record) ++ p)

section Recording

variable {stage : Stage} {settings : Settings} {frame : Frame}
  {spot spot' last : Spot (α ⊕ OpenBubble)} {w w' v : World A Transcript}

theorem Records.refl (spot : Spot (α ⊕ OpenBubble)) (w : World A Transcript) :
    Records spot w spot w := ⟨[], by simp, by simp⟩

theorem Records.trans (h : Records spot w spot' w') (h' : Records spot' w' last v) :
    Records spot w last v := by
  obtain ⟨first, hw', hfirst⟩ := h
  obtain ⟨second, hv, hsecond⟩ := h'
  refine ⟨first ++ second, by rw [hv, hw', List.append_assoc], fun p hp => ?_⟩
  rw [List.map_append, List.append_assoc]
  exact hfirst _ (hsecond p hp)

/-- Nothing is added where nothing happens to bubbles. -/
theorem Records.ofSame (hsame : w.SameBubbles w') (h : ∀ p, spot'.Due p → spot.Due p) :
    Records spot w spot' w' := ⟨[], by rw [hsame.bubbles, List.append_nil], h⟩

/-- A move enters what is due at the first spot before what is due at the second. -/
theorem Spot.Ready.records_move
    (hmove : Move (company.withTranscript delays) settings frame spot w spot' w')
    (h : spot.Ready stage w.slots) : Records spot w spot' w' := by
  cases hmove with
  | speak hopen =>
    obtain ⟨position, rfl, hsame⟩ := Action.openLine_withTranscript hopen
    refine .ofSame hsame ?_
    rintro _ ⟨rest, hrest, rfl⟩
    exact .dialogue hrest
  | @said d talking bubble next later w after hstep =>
    obtain ⟨b, b', t, rfl, -, -, rfl, hturn⟩ := (h.now _ rfl).line hstep
    obtain ⟨added, hentries, hdue⟩ := hturn.exists_entered
    have hsame := World.SameBubbles.hushing company delays d talking { w with bubbles := t }
    refine ⟨added, (congrArg Transcript.entries hsame.bubbles).trans hentries, fun p hp => ?_⟩
    refine ⟨p, hp, ?_⟩
    rw [hdue, hturn.due_eq_nil rfl, List.append_nil]
  | play => exact .ofSame (.refl w) fun p hp => .animation hp
  | played _ =>
    cases h.now _ rfl with
    | playing hparts => exact .ofSame (hparts.stepParts frame w).2 fun p hp => hp
  | stored => exact .ofSame (.refl w) fun p hp => hp
  | ask hopen =>
    obtain ⟨⟨position, rfl⟩, hsame, -⟩ := Action.openChoices_withTranscript hopen
    refine ⟨[], by rw [hsame, List.append_nil], ?_⟩
    rintro _ ⟨index, branch, rest, hbranch, hrest, rfl⟩
    obtain ⟨inside, path, hinside, hpath, rfl⟩ := hrest.exists_append
    exact .choice hbranch hinside hpath
  | @chose q slot bubble next branches branch later index w after hstep hselected hbranch =>
    obtain ⟨b, -, -, -, -, hafter, -, hsome, -⟩ := (h.now _ rfl).chosen hstep
    obtain rfl := Option.some.inj (hselected.symm.trans hsome)
    refine ⟨[.choice q.labels b.highlighted b.position], ?_, fun p hp => ?_⟩
    · exact congrArg Transcript.entries hafter
    · exact ⟨b.highlighted, branch, p, hbranch, hp, rfl⟩

/-- So does the end of a frame. -/
theorem Spot.Ready.records_halt {outcome : Outcome}
    (hhalt : Halt (company.withTranscript delays) frame spot w outcome spot' w')
    (h : spot.Ready stage w.slots) : Records spot w spot' w' := by
  cases hhalt with
  | finished => exact .refl _ _
  | store => exact .ofSame (.storing company delays _ w) fun p hp => .store hp
  | speaking hstep _ =>
    obtain ⟨b, b', t, rfl, -, rfl, rfl, hturn⟩ := (h.now _ rfl).line hstep
    obtain ⟨added, hentries, hdue⟩ := hturn.exists_entered
    refine ⟨added, hentries, ?_⟩
    rintro _ ⟨rest, hrest, rfl⟩
    refine ⟨rest, hrest, ?_⟩
    rw [hdue, List.map_append, List.append_assoc]
  | playing _ =>
    cases h.now _ rfl with
    | playing hparts => exact .ofSame (hparts.stepParts frame w).2 fun p hp => hp
  | choosing hstep hne =>
    obtain ⟨b, b', t, rfl, -, -, rfl, rfl, hturn, -⟩ := (h.now _ rfl).choice hstep hne
    refine ⟨[], ?_, fun p hp => hp⟩
    rw [List.append_nil]
    exact (hturn.of_ne hne).1
  | unselected hstep hselected =>
    exact absurd hselected ((h.now _ rfl).selected_ne_none hstep)
  | invalid hstep hselected hbranch =>
    exact absurd hbranch ((h.now _ rfl).branch_ne_none hstep hselected)

/-- Where a performance stands, something is due. -/
theorem Spot.Ready.exists_due {slots : Nat} (h : spot.Ready stage slots) : ∃ p, spot.Due p := by
  obtain ⟨now, later⟩ := spot
  obtain ⟨p, hp⟩ := h.later.exists_isPath
  cases now with
  | none => exact ⟨p, hp⟩
  | some business =>
    cases h.now _ rfl with
    | speaking htext => exact ⟨_, p, hp, rfl⟩
    | playing hparts => exact ⟨p, hp⟩
    | stored => exact ⟨p, hp⟩
    | @choosing q slot b branches hlabels hbranches hrange _ _ hplayable =>
      have hlt := highlighted_lt hlabels hbranches hrange
      obtain ⟨inside, hinside⟩ := (hplayable _ (List.getElem_mem hlt)).exists_isPath
      exact ⟨_, b.highlighted, _, _, List.getElem?_eq_getElem hlt, hinside.append hp, rfl⟩

end Recording

/-! ## Performances -/

/-- A text that was accepted on a stage, with the settings that it is played with. -/
structure AcceptedScript where
  stage : Stage
  settings : Settings
  content : String
  statements : List Statement
  accepted : (Script.readScript stage content).result = .ok statements

namespace AcceptedScript

/-- The action of the script. -/
def action {W κ : Type} (host : Host W κ) (script : AcceptedScript) : Action W κ :=
  .ofScript host script.settings script.statements

variable (company delays) in
/-- An action is what is left of the performance of a script of which so much was recorded. -/
def Performing (script : AcceptedScript) (slots : Nat) (recorded : List Record)
    (action : Action (World A Transcript) (α ⊕ OpenBubble)) : Prop :=
  ∃ children spot, action = .sequence children ∧
    Stands (company.withTranscript delays) script.settings children spot ∧
    spot.Ready script.stage slots ∧
    ∀ p, spot.Due p → IsPath script.statements (recorded ++ p)

variable {script : AcceptedScript} {slots more : Nat} {recorded : List Record}
  {action : Action (World A Transcript) (α ⊕ OpenBubble)}

theorem performing_action (script : AcceptedScript) (slots : Nat) :
    script.Performing company delays slots [] (script.action (company.withTranscript delays)) :=
  ⟨_, ⟨none, script.statements⟩, rfl, .script _,
    .script (Script.playable_of_readLines script.accepted), fun _ hp => hp⟩

theorem Performing.mono (h : script.Performing company delays slots recorded action)
    (hle : slots ≤ more) : script.Performing company delays more recorded action := by
  obtain ⟨children, spot, haction, hstands, hready, hpath⟩ := h
  exact ⟨children, spot, haction, hstands, hready.mono hle, hpath⟩

/-- What was recorded is the beginning of a path. -/
theorem Performing.exists_path (h : script.Performing company delays slots recorded action) :
    ∃ p, IsPath script.statements (recorded ++ p) := by
  obtain ⟨children, spot, -, -, hready, hpath⟩ := h
  obtain ⟨p, hp⟩ := hready.exists_due
  exact ⟨p, hpath p hp⟩

/-- What a frame adds to the transcript is recorded in addition, and completes a path if the action
is done. -/
theorem Performing.advance {w : World A Transcript}
    (h : script.Performing company delays w.slots recorded action) (frame : Frame) :
    let s := action.advance (company.withTranscript delays) frame w
    ∃ added, s.world.bubbles.entries = w.bubbles.entries ++ added ∧ w.slots ≤ s.world.slots ∧
      script.Performing company delays s.world.slots (recorded ++ added.map (·.record)) s.next ∧
      (s.outcome = .ok .done → IsPath script.statements (recorded ++ added.map (·.record))) := by
  obtain ⟨children, spot, rfl, hstands, hready, hpath⟩ := h
  obtain ⟨last, hpasses, hlast⟩ := hstands.passes frame w
  obtain ⟨mid, v, ⟨hmid, hslots, hrecords⟩, hhalt⟩ := hpasses.exists_halt
    (J := fun mid v => mid.Ready script.stage v.slots ∧ w.slots ≤ v.slots ∧ Records spot w mid v)
    (fun hmove hJ =>
      have hnext := hJ.1.move hmove
      ⟨hnext.2, Nat.le_trans hJ.2.1 hnext.1, hJ.2.2.trans (hJ.1.records_move hmove)⟩)
    ⟨hready, Nat.le_refl _, .refl spot w⟩
  obtain ⟨hmore, hleft⟩ := hmid.halt hhalt
  obtain ⟨added, hentries, hdue⟩ := hrecords.trans (hmid.records_halt hhalt)
  have hlater (p : List Record) (hp : last.Due p) :
      IsPath script.statements (recorded ++ added.map (·.record) ++ p) := by
    rw [List.append_assoc]
    exact hpath _ (hdue p hp)
  rw [Action.advance]
  refine ⟨added, hentries, Nat.le_trans hslots hmore, ⟨_, last, rfl, hlast, hleft, hlater⟩, ?_⟩
  intro hdone
  obtain ⟨-, rfl, -⟩ := hhalt.of_done hdone
  simpa using hlater [] .nil

/-- Whatever the frames, what was added to the transcript is the beginning of a path, and a path if
the performance is done. -/
theorem Performing.advances {w : World A Transcript}
    (h : script.Performing company delays w.slots recorded action) (frames : List Frame) :
    ∀ s ∈ Action.advances (company.withTranscript delays) frames action w,
      ∃ added, s.world.bubbles.entries = w.bubbles.entries ++ added ∧
        (∃ p, IsPath script.statements (recorded ++ added.map (·.record) ++ p)) ∧
        (s.outcome = .ok .done → IsPath script.statements (recorded ++ added.map (·.record))) := by
  induction frames generalizing w recorded action with
  | nil => simp [Action.advances]
  | cons frame frames ih =>
    obtain ⟨added, hentries, -, hnext, hdone⟩ := h.advance frame
    rw [Action.advances]
    refine List.forall_mem_cons.mpr ⟨⟨added, hentries, hnext.exists_path, hdone⟩, fun s hs => ?_⟩
    obtain ⟨more, hmore, hpath, hend⟩ := ih hnext s hs
    refine ⟨added ++ more, by rw [hmore, hentries, List.append_assoc], ?_⟩
    rw [List.map_append, ← List.append_assoc]
    exact ⟨hpath, hend⟩

end AcceptedScript

end Promptbook
