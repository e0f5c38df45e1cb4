import Mathlib.Data.List.Flatten
import Promptbook.Proofs.Script.Provenance

set_option autoImplicit false

/-!
# Growing stages

A stage may gain actors, animations, parameters and variables after a script was written for it.
The script still reads then, and as the same tree: only the handles in it are those that the new
stage gives out.  A broken script does not gain errors either, although the errors that it keeps may
say something else, as an actor that is found now may lack an animation.

What is wrong with the shape of a script is the same on every stage.
-/

namespace Promptbook

/-- One stage has everything that another one has.  It may give out other handles. -/
structure Stage.Extends (wide narrow : Stage) : Prop where
  finds_actor : ∀ name actor, narrow.findActor name = some actor →
    ∃ actor', wide.findActor name = some actor' ∧
      (∀ animation, narrow.hasAnimation actor animation = true →
        wide.hasAnimation actor' animation = true) ∧
      ∀ parameter, narrow.hasParameter actor parameter = true →
        wide.hasParameter actor' parameter = true
  finds_variable : ∀ name id, narrow.findVariable name = some id →
    ∃ id', wide.findVariable name = some id'

/-- The actor that the stage finds by the same name. -/
def ActorRef.rebind (stage : Stage) (r : ActorRef) : ActorRef :=
  { r with actor := (stage.findActor r.name).getD r.actor }

namespace Script

/-! ## Handles looked up again -/

/-- The cue with its actor looked up again. -/
def Cue.rebind (stage : Stage) (cue : Cue) : Cue :=
  { cue with performer := cue.performer.rebind stage }

/-- The target with its variable or its actor looked up again. -/
def StoreTarget.rebind (stage : Stage) : StoreTarget → StoreTarget
  | contextVariable name id => contextVariable name ((stage.findVariable name).getD id)
  | parameter owner name => parameter (owner.rebind stage) name

/-- The speech with its speaker looked up again. -/
def Speech.rebind (stage : Stage) (speech : Speech) : Speech :=
  { speech with speaker := speech.speaker.rebind stage }

/-- The assignment with its target looked up again. -/
def Assignment.rebind (stage : Stage) (assignment : Assignment) : Assignment :=
  { assignment with target := assignment.target.rebind stage }

mutual

/-- The same statement, with every handle in it looked up again on the stage. -/
def Statement.rebind (stage : Stage) : Statement → Statement
  | .dialogue speech => .dialogue (speech.rebind stage)
  | .animation cues => .animation (cues.map (Cue.rebind stage))
  | .store assignment => .store (assignment.rebind stage)
  | .choice asker branches origin =>
      .choice (asker.rebind stage) (rebindBranches stage branches) origin

/-- The same statements, with every handle in them looked up again on the stage. -/
def rebindAll (stage : Stage) : List Statement → List Statement
  | [] => []
  | s :: rest => s.rebind stage :: rebindAll stage rest

/-- The same branches, with every handle in them looked up again on the stage. -/
def rebindBranches (stage : Stage) :
    List (String × List Statement) → List (String × List Statement)
  | [] => []
  | (label, script) :: rest => (label, rebindAll stage script) :: rebindBranches stage rest

end

theorem rebindAll_eq_map (stage : Stage) (script : List Statement) :
    rebindAll stage script = script.map (Statement.rebind stage) := by
  induction script with
  | nil => rfl
  | cons s rest ih => rw [rebindAll, ih, List.map_cons]

theorem rebindBranches_eq_map (stage : Stage) (branches : List (String × List Statement)) :
    rebindBranches stage branches = branches.map fun b => (b.1, rebindAll stage b.2) := by
  induction branches with
  | nil => rfl
  | cons b rest ih => rw [rebindBranches, ih, List.map_cons]

/-! ## Readings with less to say -/

/-- Where an error stands, whatever it says. -/
def LineError.place (e : LineError) : String × Origin := (e.line, e.origin)

@[simp] theorem ScriptLine.place_error (l : ScriptLine) (fault : LineFault) :
    (l.error fault).place = (l.text, l.origin) := rfl

namespace Reading

variable {α β : Type} {g : α → α} {k : β → β}

theorem value?_eq_some {r : Reading α} {a : α} : r.value? = some a ↔ r.result = .ok a := by
  obtain ⟨ns, result⟩ := r
  cases result <;> simp [value?]

theorem errors_of_ok {r : Reading α} {a : α} (h : r.result = .ok a) : r.errors = [] := by
  rw [errors, h]

theorem value?_map (f : α → β) (r : Reading α) : (r.map f).value? = r.value?.map f := by
  obtain ⟨ns, result⟩ := r
  cases result <;> rfl

theorem ofExcept_map (f : α → β) (r : Except LineError α) :
    ofExcept (r.map f) = (ofExcept r).map f := by
  cases r <;> rfl

/-- The first reading has errors only where the second one has them.  If that one has none, then the
first gives the same up to `g`, and no other warnings. -/
structure Eases (g : α → α) (r' r : Reading α) : Prop where
  places : (r'.errors.map LineError.place).Sublist (r.errors.map LineError.place)
  notices : r.errors = [] → r'.notices.Sublist r.notices
  value : r.errors = [] → r'.value? = r.value?.map g

theorem Eases.errors_eq_nil {r' r : Reading α} (h : Eases g r' r) (hr : r.errors = []) :
    r'.errors = [] := by
  have hplaces := h.places
  rw [hr] at hplaces
  simpa using hplaces

/-- What was read without errors is read again. -/
theorem Eases.result {r' r : Reading α} {a : α} (h : Eases g r' r) (hr : r.result = .ok a) :
    r'.result = .ok (g a) := by
  have hvalue := h.value (errors_of_ok hr)
  rw [value?_eq_some.mpr hr] at hvalue
  exact value?_eq_some.mp hvalue

/-- Whatever is read now, it was broken before; it may not be more broken than that. -/
theorem Eases.of_error {r' : Reading α} {ns : List Notice} {es : List LineError} (hes : es ≠ [])
    (h : (r'.errors.map LineError.place).Sublist (es.map LineError.place)) :
    Eases g r' ⟨ns, .error es⟩ :=
  ⟨h, fun hnone => absurd hnone hes, fun hnone => absurd hnone hes⟩

theorem Eases.map {r' r : Reading α} (h : Eases g r' r) {f' f : α → β}
    (hf : ∀ a, f' (g a) = k (f a)) : Eases k (r'.map f') (r.map f) := by
  refine ⟨?_, fun hr => ?_, fun hr => ?_⟩
  · simpa only [errors_map] using h.places
  · exact h.notices (by rwa [errors_map] at hr)
  · rw [value?_map, value?_map, h.value (by rwa [errors_map] at hr), Option.map_map, Option.map_map]
    exact congrArg (r.value?.map ·) (funext hf)

theorem value?_collect {rs : List (Reading α)} (h : ∀ r ∈ rs, r.errors = []) :
    (collect rs).value? = some (rs.filterMap value?) := by
  have hnone : rs.flatMap errors = [] := List.flatMap_eq_nil_iff.mpr h
  simp [collect, value?, hnone]

/-- Parts that are eased one by one are eased together. -/
theorem Eases.collect {ι : Type} {f' f : ι → Reading α} {is : List ι}
    (h : ∀ i ∈ is, Eases g (f' i) (f i)) :
    Eases (List.map g) (collect (is.map f')) (collect (is.map f)) := by
  have hnone (hall : (Reading.collect (is.map f)).errors = []) : ∀ i ∈ is, (f i).errors = [] := by
    simpa [errors_collect] using hall
  refine ⟨?_, fun hall => ?_, fun hall => ?_⟩
  · simp only [errors_collect, List.flatMap_map, List.map_flatMap]
    exact List.Sublist.flatMap_right _ fun i hi => (h i hi).places
  · simp only [Reading.collect, List.flatMap_map]
    exact List.Sublist.flatMap_right _ fun i hi => (h i hi).notices (hnone hall i hi)
  · have hold : ∀ r ∈ is.map f, r.errors = [] := List.forall_mem_map.mpr (hnone hall)
    have hnew : ∀ r ∈ is.map f', r.errors = [] :=
      List.forall_mem_map.mpr fun i hi => (h i hi).errors_eq_nil (hnone hall i hi)
    rw [value?_collect hold, value?_collect hnew, Option.map_some, List.map_filterMap,
      List.filterMap_map, List.filterMap_map]
    congr 1
    exact List.filterMap_congr fun i hi => (h i hi).value (hnone hall i hi)

end Reading

/-! ## Single lines -/

section Lines

variable {stage' stage : Stage}

/-- A value is read again, and whatever is wrong with a line is wrong with that line. -/
theorem ease_ofExcept {α : Type} {g : α → α} {l : ScriptLine} {x' x : Except LineError α}
    (hok : ∀ a, x = .ok a → x' = .ok (g a)) (hx' : ∀ e, x' = .error e → l.Has e)
    (hx : ∀ e, x = .error e → l.Has e) :
    Reading.Eases g (.ofExcept x') (.ofExcept x) := by
  cases x with
  | ok a =>
    rw [hok a rfl]
    exact ⟨.refl _, fun _ => .refl _, fun _ => rfl⟩
  | error e =>
    refine .of_error (by simp) ?_
    cases x' with
    | ok a => exact List.nil_sublist _
    | error e' =>
      obtain ⟨fault, -, rfl⟩ := hx e rfl
      obtain ⟨fault', -, rfl⟩ := hx' e' rfl
      exact .refl _

/-- An actor that was found is found again and can do what it could. -/
theorem findActor_of_extends (h : stage'.Extends stage) {l : ScriptLine} {name : List Char}
    {r : ActorRef} (hr : findActor stage l name = .ok r) :
    findActor stage' l name = .ok (r.rebind stage') ∧
      (∀ animation, stage.hasAnimation r.actor animation = true →
        stage'.hasAnimation (r.rebind stage').actor animation = true) ∧
      ∀ parameter, stage.hasParameter r.actor parameter = true →
        stage'.hasParameter (r.rebind stage').actor parameter = true := by
  unfold findActor at hr ⊢
  dsimp only at hr ⊢
  split at hr
  · next actor hactor =>
    obtain ⟨actor', hactor', hanimation, hparameter⟩ := h.finds_actor _ _ hactor
    obtain rfl := Except.ok.inj hr
    simp only [ActorRef.rebind, hactor', Option.getD_some]
    exact ⟨trivial, hanimation, hparameter⟩
  · exact absurd hr (by simp)

theorem ease_findActor (h : stage'.Extends stage) (l : ScriptLine) (name : List Char) :
    Reading.Eases (ActorRef.rebind stage') (.ofExcept (findActor stage' l name))
      (.ofExcept (findActor stage l name)) :=
  ease_ofExcept (fun _ hr => (findActor_of_extends h hr).1) (fun _ => has_of_findActor)
    fun _ => has_of_findActor

theorem ease_readSpeech (h : stage'.Extends stage) (l : ScriptLine) :
    Reading.Eases (Speech.rebind stage') (.ofExcept (readSpeech stage' l))
      (.ofExcept (readSpeech stage l)) := by
  refine ease_ofExcept (fun speech hspeech => ?_) (fun _ => has_of_readSpeech)
    fun _ => has_of_readSpeech
  unfold readSpeech at hspeech ⊢
  split at hspeech
  · exact absurd hspeech (by simp)
  · next name text _ =>
    cases hactor : findActor stage l name with
    | error e => simp [hactor, Except.map] at hspeech
    | ok speaker =>
      rw [hactor] at hspeech
      obtain rfl := Except.ok.inj hspeech
      rw [(findActor_of_extends h hactor).1]
      rfl

theorem ease_readCue (h : stage'.Extends stage) (l : ScriptLine) (piece : List Char) :
    Reading.Eases (Cue.rebind stage') (.ofExcept (readCue stage' l piece))
      (.ofExcept (readCue stage l piece)) := by
  refine ease_ofExcept (fun cue hcue => ?_) (fun _ => has_of_readCue) fun _ => has_of_readCue
  unfold readCue at hcue ⊢
  split at hcue
  · exact absurd hcue (by simp)
  · split at hcue
    · exact absurd hcue (by simp)
    · next performer hactor =>
      obtain ⟨hactor', hanimation, -⟩ := findActor_of_extends h hactor
      dsimp only at hcue
      split at hcue
      · next hfound =>
        obtain rfl := Except.ok.inj hcue
        simp only [hactor', hanimation _ hfound, if_true]
        rfl
      · exact absurd hcue (by simp)

theorem ease_readCues (h : stage'.Extends stage) (l : ScriptLine) :
    Reading.Eases (List.map (Cue.rebind stage')) (readCues stage' l) (readCues stage l) :=
  .collect fun piece _ => ease_readCue h l piece

theorem ease_readTarget (h : stage'.Extends stage) (l : ScriptLine) (written : List Char) :
    Reading.Eases (StoreTarget.rebind stage') (readTarget stage' l written)
      (readTarget stage l written) := by
  unfold readTarget
  split
  · next name _ =>
    dsimp only
    cases hfound : stage.findVariable (String.ofList name) with
    | none =>
      refine .of_error (by simp) ?_
      cases stage'.findVariable (String.ofList name) <;> simp [Reading.errors]
    | some id =>
      obtain ⟨id', hid'⟩ := h.finds_variable _ _ hfound
      rw [hid']
      exact ⟨.refl _, fun _ => .refl _,
        fun _ => by simp [Reading.value?, StoreTarget.rebind, hid']⟩
  · next owner parameter _ =>
    cases hactor : findActor stage l owner with
    | error e =>
      obtain ⟨fault, -, rfl⟩ := has_of_findActor hactor
      refine .of_error (by simp) ?_
      cases hactor' : findActor stage' l owner with
      | ok r => exact List.nil_sublist _
      | error e' =>
        obtain ⟨fault', -, rfl⟩ := has_of_findActor hactor'
        exact .refl _
    | ok r =>
      obtain ⟨hactor', -, hparameter⟩ := findActor_of_extends h hactor
      rw [hactor']
      refine ⟨.refl _, fun _ => ?_, fun _ => rfl⟩
      dsimp only
      split
      · exact List.nil_sublist _
      · next habsent =>
        rw [if_neg fun hdeclared => habsent (hparameter _ hdeclared)]
        exact .refl _
  · exact .of_error (by simp) (.refl _)

theorem ease_readAssignment (h : stage'.Extends stage) (l : ScriptLine) :
    Reading.Eases (Assignment.rebind stage') (readAssignment stage' l)
      (readAssignment stage l) := by
  unfold readAssignment
  split
  · exact .of_error (by simp) (.refl _)
  · split
    · exact .of_error (by simp) (.refl _)
    · exact (ease_readTarget h l _).map fun _ => rfl

theorem ease_readLine (h : stage'.Extends stage) (l : ScriptLine) :
    Reading.Eases (Statement.rebind stage') (readLine stage' l) (readLine stage l) := by
  unfold readLine
  split
  · exact (ease_readCues h l).map fun _ => by simp [Statement.rebind]
  · exact (ease_readAssignment h l).map fun _ => by simp [Statement.rebind]
  · exact (ease_readSpeech h l).map fun _ => by simp [Statement.rebind]

end Lines

/-! ## Blocks -/

section Blocks

variable {stage' stage : Stage}

theorem ease_readFlawed (h : stage'.Extends stage) (header : ScriptLine) (flaw : BlockFlaw) :
    Reading.Eases (Statement.rebind stage') (readFlawed stage' header flaw)
      (readFlawed stage header flaw) := by
  have hsome : (readFlawed stage header flaw).errors ≠ [] := by simp [errors_readFlawed]
  refine ⟨?_, fun hnone => absurd hnone hsome, fun hnone => absurd hnone hsome⟩
  simp only [errors_readFlawed, List.map_append]
  exact (ease_findActor h header _).places.append (.refl _)

/-- A branch with the handles in its content looked up again. -/
def rebindBranch (stage : Stage) (b : String × List Statement) : String × List Statement :=
  (b.1, rebindAll stage b.2)

theorem ease_readBranch (label : ScriptLine) {content : List Section}
    (ih : ∀ s ∈ content, Reading.Eases (Statement.rebind stage') (readSection stage' s)
      (readSection stage s)) :
    Reading.Eases (rebindBranch stage') (readBranch label (readSections stage' content))
      (readBranch label (readSections stage content)) := by
  simp only [readBranch, readSections_eq_map, List.isEmpty_map]
  split
  · exact .of_error (by simp) (.refl _)
  · exact (Reading.Eases.collect ih).map fun script => by
      rw [rebindBranch, rebindAll_eq_map]

theorem ease_readChoice (h : stage'.Extends stage) (header : ScriptLine)
    (repeats : List ScriptLine) {branches : List (ScriptLine × List Section)}
    (ih : ∀ b ∈ branches, ∀ s ∈ b.2, Reading.Eases (Statement.rebind stage')
      (readSection stage' s) (readSection stage s)) :
    Reading.Eases (Statement.rebind stage')
      (readChoice stage' header repeats (readBranches stage' branches))
      (readChoice stage header repeats (readBranches stage branches)) := by
  have hasker := ease_findActor h header (withoutMarker '?' header.text.toList)
  have hcontent : Reading.Eases (List.map (rebindBranch stage'))
      (Reading.collect (readBranches stage' branches))
      (Reading.collect (readBranches stage branches)) := by
    rw [readBranches_eq_map, readBranches_eq_map]
    exact .collect fun b hb => ease_readBranch b.1 (ih b hb)
  have hpoint (asker : ActorRef) (bs : List (String × List Statement)) :
      Statement.choice (asker.rebind stage') (bs.map (rebindBranch stage')) header.origin =
        (Statement.choice asker bs header.origin).rebind stage' := by
    rw [Statement.rebind, rebindBranches_eq_map]
    rfl
  refine ⟨?_, fun hnone => ?_, fun hnone => ?_⟩
  · simp only [errors_readChoice, List.map_append]
    exact hasker.places.append hcontent.places
  · rw [errors_readChoice, List.append_eq_nil_iff] at hnone
    exact (List.Sublist.refl _).append (hcontent.notices hnone.2)
  · rw [errors_readChoice, List.append_eq_nil_iff] at hnone
    cases hfound : readAsker stage header with
    | error e => simp [hfound, Reading.ofExcept, Reading.errors] at hnone
    | ok asker =>
      rw [readChoice_of_asker hfound, readChoice_of_asker (findActor_of_extends h hfound).1]
      exact (hcontent.map (hpoint asker)).value (by rw [Reading.errors_map, hnone.2])

theorem ease_readSection (h : stage'.Extends stage) (s : Section) :
    Reading.Eases (Statement.rebind stage') (readSection stage' s) (readSection stage s) := by
  induction s using Section.induction with
  | line l => exact ease_readLine h l
  | flawed header flaw => exact ease_readFlawed h header flaw
  | choice header repeats branches ih => exact ease_readChoice h header repeats ih

/-- A text has less to complain of on a stage that has more. -/
theorem ease_readScript (h : stage'.Extends stage) (content : String) :
    Reading.Eases (rebindAll stage') (readScript stage' content) (readScript stage content) := by
  have hmap : rebindAll stage' = List.map (Statement.rebind stage') :=
    funext (rebindAll_eq_map stage')
  simp only [readScript, readLines, readSections_eq_map, hmap]
  exact .collect fun s _ => ease_readSection h s

end Blocks

/-! ## Faults of shape -/

/-- The errors of a reading that show in the shape of the script alone. -/
def Reading.shapeErrors {α : Type} (r : Reading α) : List LineError :=
  r.errors.filter fun e => e.fault.isStructural

section Shape

open Reading (ofExcept collect shapeErrors)

variable {α β : Type} (stage' stage : Stage)

theorem shapeErrors_map (f : α → β) (r : Reading α) : (r.map f).shapeErrors = r.shapeErrors := by
  rw [shapeErrors, Reading.errors_map, shapeErrors]

/-- Parts that have the same faults of shape one by one have them together. -/
theorem shapeErrors_collect {ι : Type} {f' f : ι → Reading α} {is : List ι}
    (h : ∀ i ∈ is, (f' i).shapeErrors = (f i).shapeErrors) :
    (collect (is.map f')).shapeErrors = (collect (is.map f)).shapeErrors := by
  simp only [shapeErrors, Reading.errors_collect, List.flatMap_map, List.filter_flatMap]
  exact List.flatMap_congr h

/-- That an actor is missing is no fault of shape. -/
theorem shapeErrors_findActor (l : ScriptLine) (name : List Char) :
    (ofExcept (findActor stage l name)).shapeErrors = [] := by
  unfold findActor
  dsimp only
  cases stage.findActor (String.ofList name) <;> rfl

theorem shapeErrors_readSpeech (l : ScriptLine) :
    (ofExcept (readSpeech stage' l)).shapeErrors = (ofExcept (readSpeech stage l)).shapeErrors := by
  unfold readSpeech
  split
  · rfl
  · simp only [Reading.ofExcept_map, shapeErrors_map, shapeErrors_findActor]

/-- Of the errors of a cue only one shows in its shape: that it has no colon. -/
theorem shapeErrors_readCue_of_cutAt {l : ScriptLine} {piece : List Char}
    {cut : List Char × List Char} (h : Text.cutAt [':', ' '] piece = some cut) :
    (ofExcept (readCue stage l piece)).shapeErrors = [] := by
  have hactor := shapeErrors_findActor stage l cut.1
  simp only [readCue, h]
  cases hfound : findActor stage l cut.1 with
  | error e => rwa [hfound] at hactor
  | ok performer =>
    dsimp only
    split <;> rfl

theorem shapeErrors_readCue (l : ScriptLine) (piece : List Char) :
    (ofExcept (readCue stage' l piece)).shapeErrors =
      (ofExcept (readCue stage l piece)).shapeErrors := by
  cases h : Text.cutAt [':', ' '] piece with
  | none => simp only [readCue, h]
  | some cut => rw [shapeErrors_readCue_of_cutAt stage' h, shapeErrors_readCue_of_cutAt stage h]

theorem shapeErrors_readTarget (l : ScriptLine) (written : List Char) :
    (readTarget stage' l written).shapeErrors = (readTarget stage l written).shapeErrors := by
  unfold readTarget
  split
  · next name _ =>
    dsimp only
    cases stage'.findVariable (String.ofList name) <;>
      cases stage.findVariable (String.ofList name) <;> rfl
  · next owner parameter _ =>
    have howner' := shapeErrors_findActor stage' l owner
    have howner := shapeErrors_findActor stage l owner
    simp only [shapeErrors, Reading.errors] at howner' howner ⊢
    cases hfound' : findActor stage' l owner <;> cases hfound : findActor stage l owner <;>
      simp_all [Reading.ofExcept]
  · rfl

theorem shapeErrors_readAssignment (l : ScriptLine) :
    (readAssignment stage' l).shapeErrors = (readAssignment stage l).shapeErrors := by
  unfold readAssignment
  split
  · rfl
  · split
    · rfl
    · rw [shapeErrors_map, shapeErrors_map, shapeErrors_readTarget stage' stage]

theorem shapeErrors_readLine (l : ScriptLine) :
    (readLine stage' l).shapeErrors = (readLine stage l).shapeErrors := by
  unfold readLine
  split <;> rw [shapeErrors_map, shapeErrors_map]
  · exact shapeErrors_collect fun piece _ => shapeErrors_readCue stage' stage l piece
  · exact shapeErrors_readAssignment stage' stage l
  · exact shapeErrors_readSpeech stage' stage l

/-- The shape of a section decides what is wrong with its shape. -/
theorem shapeErrors_readSection (s : Section) :
    (readSection stage' s).shapeErrors = (readSection stage s).shapeErrors := by
  have hasker (stage : Stage) (header : ScriptLine) :
      (ofExcept (readAsker stage header)).errors.filter (fun e => e.fault.isStructural) = [] :=
    shapeErrors_findActor stage header _
  induction s using Section.induction with
  | line l => exact shapeErrors_readLine stage' stage l
  | flawed header flaw =>
    simp only [readSection, shapeErrors, errors_readFlawed, List.filter_append, hasker]
  | choice header repeats branches ih =>
    have hbranch : ∀ b ∈ branches, (readBranch b.1 (readSections stage' b.2)).shapeErrors =
        (readBranch b.1 (readSections stage b.2)).shapeErrors := by
      intro b hb
      simp only [readBranch, readSections_eq_map, List.isEmpty_map]
      split
      · rfl
      · rw [shapeErrors_map, shapeErrors_map]
        exact shapeErrors_collect (ih b hb)
    have hcontent := shapeErrors_collect hbranch
    simp only [shapeErrors] at hcontent
    simp only [readSection, shapeErrors, errors_readChoice, List.filter_append, hasker,
      readBranches_eq_map, hcontent]

theorem shapeErrors_readScript (content : String) :
    (readScript stage' content).shapeErrors = (readScript stage content).shapeErrors := by
  simp only [readScript, readLines, readSections_eq_map]
  exact shapeErrors_collect fun s _ => shapeErrors_readSection stage' stage s

end Shape

/-! ## The same text on two stages -/

/-- What is wrong with the shape of a text is the same on any two stages.  On a stage that has more,
a text that could be read is read as the same tree, with the handles of that stage and with no other
warnings; a broken text has no errors on other lines, and no more of them. -/
theorem readScript_of_extends (stage' stage : Stage) (content : String) :
    (readScript stage' content).errors.filter (fun e => e.fault.isStructural) =
        (readScript stage content).errors.filter (fun e => e.fault.isStructural) ∧
      (stage'.Extends stage →
        (∀ script, (readScript stage content).result = .ok script →
          (readScript stage' content).result = .ok (rebindAll stage' script) ∧
            (readScript stage' content).notices.Sublist (readScript stage content).notices) ∧
        (∀ e' ∈ (readScript stage' content).errors, ∃ e ∈ (readScript stage content).errors,
          e.origin.lineIndex = e'.origin.lineIndex) ∧
        (readScript stage' content).errors.length ≤ (readScript stage content).errors.length) := by
  constructor
  · have hshape := shapeErrors_readScript stage' stage content
    rwa [Reading.shapeErrors, Reading.shapeErrors] at hshape
  · intro h
    have hease := ease_readScript h content
    refine ⟨fun script hscript => ?_, fun e' he' => ?_, ?_⟩
    · exact ⟨hease.result hscript, hease.notices (Reading.errors_of_ok hscript)⟩
    · have hplace := hease.places.subset (List.mem_map_of_mem he')
      obtain ⟨e, he, hsame⟩ := List.mem_map.mp hplace
      exact ⟨e, he, congrArg (fun p => p.2.lineIndex) hsame⟩
    · simpa using hease.places.length_le

/-- A stage with one actor, who can howl. -/
def denStage : Stage :=
  ⟨fun name => if name = "Wolf" then some ⟨0⟩ else none, fun _ animation => animation = "Howl",
    fun _ _ => false, fun _ => none⟩

/-- A stage on which that actor has another handle and a parameter, and another actor has come. -/
def packStage : Stage :=
  ⟨fun name => if name = "Fox" then some ⟨0⟩ else if name = "Wolf" then some ⟨1⟩ else none,
    fun actor animation => actor.index = 1 ∧ animation = "Howl",
    fun actor parameter => actor.index = 1 ∧ parameter = "fed", fun _ => none⟩

theorem packStage_extends_denStage : packStage.Extends denStage := by
  refine ⟨fun name actor h => ?_, fun name id h => absurd h (by simp [denStage])⟩
  obtain ⟨rfl, rfl⟩ : name = "Wolf" ∧ ⟨0⟩ = actor := by simpa [denStage] using h
  exact ⟨⟨1⟩, by decide, fun animation hanimation => by simpa [packStage, denStage] using hanimation,
    fun parameter hparameter => absurd hparameter (by simp [denStage])⟩

/-- The parameter is only missing where the actor is alone. -/
theorem readScript_of_extends_packStage :
    let content := "!Wolf: Howl\n[True] -> Wolf.fed"
    packStage.Extends denStage ∧
      ∃ script, (readScript denStage content).result = .ok script ∧
        (readScript packStage content).result = .ok (rebindAll packStage script) ∧
        (readScript packStage content).notices.Sublist (readScript denStage content).notices ∧
        (readScript packStage content).errors.length ≤
          (readScript denStage content).errors.length := by
  intro content
  have hexplained : (readScript denStage content).Explained := Reading.explained_collect _
  obtain ⟨script, hscript⟩ := hexplained.result_eq_ok (by decide +kernel)
  obtain ⟨-, hgrown⟩ := readScript_of_extends packStage denStage content
  obtain ⟨hread, -, hlength⟩ := hgrown packStage_extends_denStage
  exact ⟨packStage_extends_denStage, script, hscript, (hread script hscript).1,
    (hread script hscript).2, hlength⟩

/-- An error may change while the stage grows: now the actor is there, but cannot run. -/
example :
    (readScript denStage "!Fox: Run").errors =
        [⟨"!Fox: Run", .unknownActor "Fox", .ofIndex 0⟩] ∧
      (readScript packStage "!Fox: Run").errors =
        [⟨"!Fox: Run", .unknownAnimation "Fox" "Run", .ofIndex 0⟩] := by decide +kernel

end Script

end Promptbook
