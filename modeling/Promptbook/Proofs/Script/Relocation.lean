import Mathlib.Data.List.Basic
import Promptbook.Proofs.Script.Tree

set_option autoImplicit false

/-!
# Reading does not look at origins

Where a line stands is carried along by the reader and never looked at.  `relocate f` moves lines,
sections, notices and errors by a function on origins; reading relocated lines gives the relocated
reading.  So what is read of a text depends on where the text stands only through the origins in it.
-/

namespace Promptbook.Script

variable (f : Origin → Origin)

/-- The line at another place. -/
def ScriptLine.relocate (l : ScriptLine) : ScriptLine := ⟨l.text, f l.origin⟩

/-- The error at another place. -/
def LineError.relocate (e : LineError) : LineError := ⟨e.line, e.fault, f e.origin⟩

/-- The notice at another place. -/
def Notice.relocate (n : Notice) : Notice := ⟨n.warning, f n.origin⟩

/-- The reading with its notices and errors at other places and its value changed. -/
def Reading.relocate {α β : Type} (g : α → β) (r : Reading α) : Reading β :=
  ⟨r.notices.map (Notice.relocate f), match r.result with
    | .ok a => .ok (g a)
    | .error es => .error (es.map (LineError.relocate f))⟩

/-- The statement at other places. -/
abbrev Statement.relocate : Statement → Statement := Statement.revise f id

/-- The statements at other places. -/
abbrev relocateAll : List Statement → List Statement := reviseAll f id

@[simp] theorem ScriptLine.text_relocate (l : ScriptLine) : (l.relocate f).text = l.text := rfl

@[simp] theorem ScriptLine.origin_relocate (l : ScriptLine) :
    (l.relocate f).origin = f l.origin := rfl

@[simp] theorem ScriptLine.kind_relocate (l : ScriptLine) : (l.relocate f).kind = l.kind := rfl

@[simp] theorem ScriptLine.isIndented_relocate (l : ScriptLine) :
    (l.relocate f).isIndented = l.isIndented := rfl

@[simp] theorem ScriptLine.isEmpty_relocate (l : ScriptLine) :
    (l.relocate f).isEmpty = l.isEmpty := rfl

@[simp] theorem ScriptLine.outdented_relocate (l : ScriptLine) :
    (l.relocate f).outdented = l.outdented.relocate f := rfl

@[simp] theorem ScriptLine.error_relocate (l : ScriptLine) (fault : LineFault) :
    (l.relocate f).error fault = (l.error fault).relocate f := rfl

/-! ## Readings -/

section Readings

variable {α β γ : Type}

theorem Reading.relocate_map (g : β → γ) (g' : α → γ) (h : α → β) (r : Reading α)
    (hg : ∀ a, g (h a) = g' a) : (r.map h).relocate f g = r.relocate f g' := by
  cases hr : r.result <;> simp [Reading.relocate, Reading.map, hr, hg]

theorem Reading.map_relocate (g : β → γ) (h : α → β) (r : Reading α) :
    (r.relocate f h).map g = r.relocate f fun a => g (h a) := by
  cases hr : r.result <;> simp [Reading.relocate, Reading.map, hr]

@[simp] theorem Reading.notices_relocate (g : α → β) (r : Reading α) :
    (r.relocate f g).notices = r.notices.map (Notice.relocate f) := rfl

@[simp] theorem Reading.errors_relocate (g : α → β) (r : Reading α) :
    (r.relocate f g).errors = r.errors.map (LineError.relocate f) := by
  cases hr : r.result <;> simp [Reading.relocate, Reading.errors, hr]

@[simp] theorem Reading.value?_relocate (g : α → β) (r : Reading α) :
    (r.relocate f g).value? = r.value?.map g := by
  cases hr : r.result <;> simp [Reading.relocate, Reading.value?, hr]

/-- Parts that were read at other places are collected at other places. -/
theorem Reading.collect_relocate (g : α → β) (rs : List (Reading α)) :
    collect (rs.map (Reading.relocate f g)) = (collect rs).relocate f (List.map g) := by
  have hnotices : (rs.map (Reading.relocate f g)).flatMap notices =
      (rs.flatMap notices).map (Notice.relocate f) := by
    simp [List.flatMap_map, List.map_flatMap]
  have herrors : (rs.map (Reading.relocate f g)).flatMap errors =
      (rs.flatMap errors).map (LineError.relocate f) := by
    simp [List.flatMap_map, List.map_flatMap]
  have hvalues : (rs.map (Reading.relocate f g)).filterMap value? =
      (rs.filterMap value?).map g := by
    simp [List.filterMap_map, List.map_filterMap]
  simp only [collect, hnotices, herrors, hvalues, List.isEmpty_map]
  unfold Reading.relocate
  by_cases h : (rs.flatMap errors).isEmpty <;> simp [h]

end Readings

/-! ## Single lines -/

variable (stage : Stage)

theorem findActor_relocate (l : ScriptLine) (name : List Char) :
    findActor stage (l.relocate f) name =
      (findActor stage l name).mapError (LineError.relocate f) := by
  unfold findActor
  dsimp only
  cases stage.findActor (String.ofList name) <;> rfl

theorem readSpeech_relocate (l : ScriptLine) :
    Reading.ofExcept (readSpeech stage (l.relocate f)) =
      (Reading.ofExcept (readSpeech stage l)).relocate f
        fun speech => { speech with origin := f speech.origin } := by
  unfold readSpeech
  rw [ScriptLine.text_relocate]
  cases Text.cutAt [':', ' '] l.text.toList with
  | none => rfl
  | some p =>
    simp only [findActor_relocate]
    cases findActor stage l p.1 <;> rfl

theorem readCue_relocate (l : ScriptLine) (piece : List Char) :
    readCue stage (l.relocate f) piece =
      (readCue stage l piece).mapError (LineError.relocate f) := by
  unfold readCue
  cases Text.cutAt [':', ' '] piece with
  | none => rfl
  | some p =>
    simp only [findActor_relocate]
    cases findActor stage l p.1 with
    | error e => rfl
    | ok performer =>
      simp only [Except.mapError]
      split <;> rfl

theorem readCues_relocate (l : ScriptLine) :
    readCues stage (l.relocate f) = (readCues stage l).relocate f id := by
  have hpieces : (cuePieces l).map (fun piece =>
      Reading.ofExcept (readCue stage (l.relocate f) piece)) =
        ((cuePieces l).map fun piece => Reading.ofExcept (readCue stage l piece)).map
          (Reading.relocate f id) := by
    rw [List.map_map]
    apply List.map_congr_left
    intro piece _
    simp only [Function.comp_apply, readCue_relocate]
    cases readCue stage l piece <;> rfl
  have hcues : cuePieces (l.relocate f) = cuePieces l := rfl
  rw [readCues, hcues, hpieces, Reading.collect_relocate, List.map_id_fun]
  rfl

theorem readValue_relocate (l : ScriptLine) (written : List Char) :
    readValue (l.relocate f) written = (readValue l written).mapError (LineError.relocate f) := by
  unfold readValue
  cases bracketed? written with
  | none => rfl
  | some literal =>
    simp only
    split
    · rfl
    · split <;> rfl

theorem readTarget_relocate (l : ScriptLine) (written : List Char) :
    readTarget stage (l.relocate f) written = (readTarget stage l written).relocate f id := by
  unfold readTarget
  split
  · next name _ =>
    dsimp only
    cases stage.findVariable (String.ofList name) <;> rfl
  · next owner parameter _ =>
    simp only [findActor_relocate]
    cases findActor stage l owner with
    | error e => rfl
    | ok owner =>
      simp only [Except.mapError, Reading.relocate]
      split <;> rfl
  · rfl

theorem readAssignment_relocate (l : ScriptLine) :
    readAssignment stage (l.relocate f) = (readAssignment stage l).relocate f id := by
  unfold readAssignment
  rw [ScriptLine.text_relocate]
  cases Text.cutAt [' ', '-', '>', ' '] l.text.toList with
  | none => rfl
  | some p =>
    simp only [readValue_relocate]
    cases readValue l p.1 with
    | error e => rfl
    | ok value =>
      simp only [Except.mapError, readTarget_relocate, Reading.map_relocate]
      exact (Reading.relocate_map f id _ _ _ fun _ => rfl).symm

theorem readLine_relocate (l : ScriptLine) :
    readLine stage (l.relocate f) = (readLine stage l).relocate f (Statement.relocate f) := by
  unfold readLine
  rw [ScriptLine.kind_relocate]
  cases l.kind with
  | animation =>
    simp only [readCues_relocate, Reading.map_relocate]
    exact (Reading.relocate_map f _ _ _ _ fun cues => by simp [Statement.revise]).symm
  | store =>
    simp only [readAssignment_relocate, Reading.map_relocate]
    exact (Reading.relocate_map f (Statement.relocate f) _ .store _ fun _ => rfl).symm
  | dialogue | choice =>
    simp only [readSpeech_relocate, Reading.map_relocate]
    exact (Reading.relocate_map f (Statement.relocate f) _ .dialogue _ fun _ => rfl).symm

/-! ## Blocks -/

theorem readAsker_relocate (header : ScriptLine) :
    readAsker stage (header.relocate f) =
      (readAsker stage header).mapError (LineError.relocate f) :=
  findActor_relocate f stage header _

/-- A branch at other places. -/
def relocateBranch (b : String × List Statement) : String × List Statement :=
  (b.1, relocateAll f b.2)

theorem readBranch_relocate (label : ScriptLine) (content : List (Reading Statement)) :
    readBranch (label.relocate f) (content.map (Reading.relocate f (Statement.relocate f))) =
      (readBranch label content).relocate f (relocateBranch f) := by
  unfold readBranch
  rw [List.isEmpty_map]
  split
  · rfl
  · rw [Reading.collect_relocate, Reading.map_relocate]
    refine (Reading.relocate_map f _ _ _ _ fun script => ?_).symm
    simp [relocateBranch, relocateAll, reviseAll_eq_map]

theorem readChoice_relocate (header : ScriptLine) (repeats : List ScriptLine)
    (branches : List (Reading (String × List Statement))) :
    readChoice stage (header.relocate f) (repeats.map (ScriptLine.relocate f))
        (branches.map (Reading.relocate f (relocateBranch f))) =
      (readChoice stage header repeats branches).relocate f (Statement.relocate f) := by
  have hbranches (bs : List (String × List Statement)) :
      bs.map (relocateBranch f) = reviseBranches f id bs := by
    rw [reviseBranches_eq_map]
    rfl
  have hnotices : (repeats.map (ScriptLine.relocate f)).map
      (fun l => (⟨.duplicateBranch l.text, l.origin⟩ : Notice)) =
        (repeats.map fun l => (⟨.duplicateBranch l.text, l.origin⟩ : Notice)).map
          (Notice.relocate f) := by
    simp [Notice.relocate]
  unfold readChoice
  simp only [Reading.collect_relocate, hnotices, readAsker_relocate, Reading.errors_relocate,
    Reading.notices_relocate, ← List.map_append]
  unfold Reading.relocate
  cases readAsker stage header <;> cases (Reading.collect branches).result <;>
    simp [Except.mapError, Statement.revise, hbranches, Reading.errors, LineError.relocate]

/-- The flaw at another place. -/
def BlockFlaw.relocate : BlockFlaw → BlockFlaw
  | .unclosed => .unclosed
  | .empty => .empty
  | .misplaced l => .misplaced (l.relocate f)

theorem flawError_relocate (header : ScriptLine) (flaw : BlockFlaw) :
    flawError (header.relocate f) (flaw.relocate f) = (flawError header flaw).relocate f := by
  cases flaw <;> rfl

theorem readFlawed_relocate (header : ScriptLine) (flaw : BlockFlaw) :
    readFlawed stage (header.relocate f) (flaw.relocate f) =
      (readFlawed stage header flaw).relocate f (Statement.relocate f) := by
  unfold readFlawed
  rw [readAsker_relocate, flawError_relocate]
  cases readAsker stage header <;> rfl

/-! ## Sections -/

mutual

/-- The section at other places. -/
def Section.relocate : Section → Section
  | .line l => .line (l.relocate f)
  | .flawed header flaw => .flawed (header.relocate f) (flaw.relocate f)
  | .choice header repeats branches =>
      .choice (header.relocate f) (repeats.map (ScriptLine.relocate f)) (relocateContents branches)

/-- The sections at other places. -/
def relocateSections : List Section → List Section
  | [] => []
  | s :: rest => s.relocate :: relocateSections rest

/-- The labels and what stands below them at other places. -/
def relocateContents : List (ScriptLine × List Section) → List (ScriptLine × List Section)
  | [] => []
  | (label, content) :: rest =>
      (label.relocate f, relocateSections content) :: relocateContents rest

end

theorem relocateSections_eq_map (sections : List Section) :
    relocateSections f sections = sections.map (Section.relocate f) := by
  induction sections with
  | nil => rfl
  | cons s rest ih => rw [relocateSections, ih, List.map_cons]

theorem relocateContents_eq_map (branches : List (ScriptLine × List Section)) :
    relocateContents f branches =
      branches.map fun b => (b.1.relocate f, b.2.map (Section.relocate f)) := by
  induction branches with
  | nil => rfl
  | cons b rest ih =>
    rw [relocateContents, ih, List.map_cons, relocateSections_eq_map]

theorem readSection_relocate (s : Section) :
    readSection stage (s.relocate f) =
      (readSection stage s).relocate f (Statement.relocate f) := by
  induction s using Section.induction with
  | line l => exact readLine_relocate f stage l
  | flawed header flaw => exact readFlawed_relocate f stage header flaw
  | choice header repeats branches ih =>
    rw [Section.relocate, readSection, readSection, ← readChoice_relocate]
    congr 1
    rw [relocateContents_eq_map, readBranches_eq_map, readBranches_eq_map, List.map_map,
      List.map_map]
    apply List.map_congr_left
    intro b hb
    simp only [Function.comp_apply, ← readBranch_relocate, readSections_eq_map, List.map_map]
    congr 1
    exact List.map_congr_left fun s hs => ih b hb s hs

/-! ## Outlines -/

theorem takeBlock_map (lines : List ScriptLine) :
    takeBlock (lines.map (ScriptLine.relocate f)) =
      (takeBlock lines).map fun p =>
        (p.1.map (ScriptLine.relocate f), p.2.map (ScriptLine.relocate f)) := by
  induction lines with
  | nil => rfl
  | cons l rest ih =>
    simp only [List.map_cons, takeBlock, ScriptLine.text_relocate, ih]
    split
    · rfl
    · cases takeBlock rest <;> rfl

/-- The label and the content below it at other places. -/
def relocateRun (r : Run) : Run := (r.1.relocate f, r.2.map (ScriptLine.relocate f))

theorem runsOf_map (lines : List ScriptLine) :
    runsOf (lines.map (ScriptLine.relocate f)) =
      ((runsOf lines).1.map (ScriptLine.relocate f), (runsOf lines).2.map (relocateRun f)) := by
  induction lines with
  | nil => rfl
  | cons l rest ih =>
    simp only [List.map_cons, runsOf, ih, ScriptLine.isIndented_relocate,
      ScriptLine.outdented_relocate, ScriptLine.isEmpty_relocate]
    split
    · split <;> rfl
    · rfl

theorem freshLabels_map (seen : List String) (runs : List Run) :
    freshLabels seen (runs.map (relocateRun f)) =
      (freshLabels seen runs).map (ScriptLine.relocate f) := by
  induction runs generalizing seen with
  | nil => rfl
  | cons r runs ih =>
    by_cases h : r.1.text ∈ seen
    · simp [relocateRun, freshLabels, h, ih]
    · simp [relocateRun, freshLabels, h, ih]

theorem repeatedLabels_map (seen : List String) (runs : List Run) :
    repeatedLabels seen (runs.map (relocateRun f)) =
      (repeatedLabels seen runs).map (ScriptLine.relocate f) := by
  induction runs generalizing seen with
  | nil => rfl
  | cons r runs ih =>
    by_cases h : r.1.text ∈ seen
    · simp [relocateRun, repeatedLabels, h, ih]
    · simp [relocateRun, repeatedLabels, h, ih]

theorem lastContent_map (label : String) (runs : List Run) :
    lastContent label (runs.map (relocateRun f)) =
      (lastContent label runs).map (ScriptLine.relocate f) := by
  induction runs with
  | nil => rfl
  | cons r runs ih =>
    have hall : ((runs.map (relocateRun f)).all fun r => r.1.text ≠ label) =
        runs.all fun r => r.1.text ≠ label := by
      rw [List.all_map]
      rfl
    by_cases h : (r.1.text = label && runs.all fun r => r.1.text ≠ label) = true
    · rw [lastContent, if_pos h, List.map_cons, relocateRun, lastContent, hall]
      exact if_pos h
    · rw [lastContent, if_neg h, List.map_cons, relocateRun, lastContent, hall]
      exact (if_neg h).trans ih

theorem branchesOf_map (runs : List Run) :
    branchesOf (runs.map (relocateRun f)) = (branchesOf runs).map (relocateRun f) := by
  simp only [branchesOf, freshLabels_map, List.map_map]
  apply List.map_congr_left
  intro l _
  simp [relocateRun, lastContent_map]

theorem blockSection_relocate {inner : List ScriptLine → List Section} (header : ScriptLine)
    (body : List ScriptLine)
    (h : ∀ ls, inner (ls.map (ScriptLine.relocate f)) = (inner ls).map (Section.relocate f)) :
    blockSection inner (header.relocate f) (body.map (ScriptLine.relocate f)) =
      (blockSection inner header body).relocate f := by
  cases body with
  | nil => rfl
  | cons l body =>
    have hruns := congrArg Prod.snd (runsOf_map f (l :: body))
    rw [List.map_cons] at hruns ⊢
    rw [blockSection, blockSection, ScriptLine.isIndented_relocate]
    split
    · rfl
    · simp only [hruns, Section.relocate, repeatedLabels_map, branchesOf_map,
        relocateContents_eq_map, List.map_map]
      congr 1
      apply List.map_congr_left
      intro r _
      simp [relocateRun, h]

theorem outlineWithin_map (bound : Nat) (lines : List ScriptLine) :
    outlineWithin bound (lines.map (ScriptLine.relocate f)) =
      (outlineWithin bound lines).map (Section.relocate f) := by
  induction bound generalizing lines with
  | zero => rfl
  | succ bound ih =>
    cases lines with
    | nil => rfl
    | cons l rest =>
      rw [List.map_cons, outlineWithin, outlineWithin, ScriptLine.kind_relocate, takeBlock_map]
      split
      · cases takeBlock rest with
        | none => rfl
        | some p =>
          obtain ⟨body, after⟩ := p
          simp only [Option.map_some, List.map_cons]
          rw [blockSection_relocate f l body ih, ih]
      · rw [List.map_cons, ih]
        rfl

/-- Relocated lines have the relocated outline. -/
theorem outline_map (lines : List ScriptLine) :
    outline (lines.map (ScriptLine.relocate f)) =
      (outline lines).map (Section.relocate f) := by
  rw [outline, outline, List.length_map, outlineWithin_map]

/-! ## Scripts -/

/-- Relocated lines read as the relocated script, with the relocated errors and notices. -/
theorem readLines_map (lines : List ScriptLine) :
    readLines stage (lines.map (ScriptLine.relocate f)) =
      (readLines stage lines).relocate f (relocateAll f) := by
  have hmap : (relocateAll f : List Statement → List Statement) =
      List.map (Statement.relocate f) := by
    funext script
    exact reviseAll_eq_map f id script
  rw [readLines, readLines, outline_map, readSections_eq_map, readSections_eq_map, hmap,
    ← Reading.collect_relocate, List.map_map, List.map_map]
  congr 1
  exact List.map_congr_left fun s _ => readSection_relocate f stage s

/-! ## The origins in a reading -/

mutual

/-- Every origin in a statement, from its beginning to its end. -/
def Statement.origins : Statement → List Origin
  | .dialogue speech => [speech.origin]
  | .animation _ => []
  | .store _ => []
  | .choice _ branches origin => origin :: originsOfBranches branches

/-- Every origin in a script. -/
def originsOf : List Statement → List Origin
  | [] => []
  | s :: rest => s.origins ++ originsOf rest

/-- Every origin in the branches of a choice. -/
def originsOfBranches : List (String × List Statement) → List Origin
  | [] => []
  | (_, script) :: rest => originsOf script ++ originsOfBranches rest

end

theorem originsOf_eq_flatMap (script : List Statement) :
    originsOf script = script.flatMap Statement.origins := by
  induction script with
  | nil => rfl
  | cons s rest ih => rw [originsOf, ih, List.flatMap_cons]

theorem originsOfBranches_eq_flatMap (branches : List (String × List Statement)) :
    originsOfBranches branches = branches.flatMap fun b => originsOf b.2 := by
  induction branches with
  | nil => rfl
  | cons b rest ih => rw [originsOfBranches, ih, List.flatMap_cons]

/-- Every origin in the notices, the errors and the statements of a reading. -/
def Reading.origins (r : Reading (List Statement)) : List Origin :=
  r.notices.map (·.origin) ++ r.errors.map (·.origin) ++ originsOf (r.value?.getD [])

theorem Statement.origins_relocate (s : Statement) :
    (s.relocate f).origins = s.origins.map f := by
  induction s using Statement.induction with
  | dialogue speech => rfl
  | animation cues => rfl
  | store assignment => rfl
  | choice asker branches origin ih =>
    simp only [Statement.revise, Statement.origins, List.map_cons, reviseBranches_eq_map,
      originsOfBranches_eq_flatMap, List.flatMap_map, List.map_flatMap]
    congr 1
    apply List.flatMap_congr
    intro b hb
    simp only [reviseAll_eq_map, originsOf_eq_flatMap, List.flatMap_map, List.map_flatMap]
    exact List.flatMap_congr fun s hs => ih b hb s hs

theorem originsOf_relocateAll (script : List Statement) :
    originsOf (relocateAll f script) = (originsOf script).map f := by
  simp only [relocateAll, reviseAll_eq_map, originsOf_eq_flatMap, List.flatMap_map,
    List.map_flatMap]
  exact List.flatMap_congr fun s _ => s.origins_relocate f

theorem Reading.origins_relocate (r : Reading (List Statement)) :
    (r.relocate f (relocateAll f)).origins = r.origins.map f := by
  have hvalue : originsOf (((r.value?).map (relocateAll f)).getD []) =
      (originsOf (r.value?.getD [])).map f := by
    cases r.value? with
    | none => rfl
    | some script => exact originsOf_relocateAll f script
  simp only [origins, notices_relocate, errors_relocate, value?_relocate, hvalue, List.map_append,
    List.map_map]
  rfl

/-- What holds of the origins of all lines holds of all origins in what is read of them. -/
theorem origins_readLines {lines : List ScriptLine} {p : Origin → Prop} {o : Origin} (ho : p o)
    (h : ∀ l ∈ lines, p l.origin) : ∀ o ∈ (readLines stage lines).origins, p o := by
  classical
  -- moving what does not have the property to a place that has it changes no line
  let g : Origin → Origin := fun x => if p x then x else o
  have hg (x : Origin) : p (g x) := by
    by_cases hx : p x
    · simpa only [g, if_pos hx] using hx
    · simpa only [g, if_neg hx] using ho
  have hlines : lines.map (ScriptLine.relocate g) = lines := by
    conv_rhs => rw [← List.map_id lines]
    apply List.map_congr_left
    intro l hl
    simp only [ScriptLine.relocate, g, if_pos (h l hl), id_eq]
  intro x hx
  rw [← hlines, readLines_map, Reading.origins_relocate] at hx
  obtain ⟨y, -, rfl⟩ := List.mem_map.mp hx
  exact hg y

end Promptbook.Script
