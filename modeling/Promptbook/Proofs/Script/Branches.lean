import Mathlib.Data.List.DropRight
import Mathlib.Data.List.Forall2
import Promptbook.Proofs.Script.Provenance

set_option autoImplicit false

/-!
# The branches of a choice

What a choice block is read as, said of its lines.  The labels of a block are its unindented lines,
each text where it first stands; the content of a label is what is indented below the place where
the label stands last.  `labelsIn` and `contentBelow` say this of the body as a whole, while a body
is cut from its end, line by line: `freshLabels_runsOf` and `lastContent_runsOf` compare the two.

`readBlock` is the step from a header and the lines below it to a statement and the lines that are
left; every block of a script is read by it.
-/

namespace Promptbook.Script

variable {stage : Stage}

/-! ## Labels and contents, by their places -/

/-- Whether the line is a label with that text. -/
def ScriptLine.isLabel (text : String) (l : ScriptLine) : Bool := !l.isIndented && l.text = text

/-- The labels of a body that repeat the text of a label before them, or those that do not. -/
def labelsIn (again : Bool) (body : List ScriptLine) : List ScriptLine :=
  (body.zipIdx.filter fun x => !x.1.isIndented &&
    (body.take x.2).any (ScriptLine.isLabel x.1.text) == again).map (·.1)

/-- The content that is given last to a label: the indented lines directly below the last place of
the label, each without its first space, as far as anything is left of them. -/
def contentBelow (label : String) (body : List ScriptLine) : List ScriptLine :=
  (((body.rtakeWhile fun l => !l.isLabel label).takeWhile ScriptLine.isIndented).map
    ScriptLine.outdented).filter fun l => !l.isEmpty

theorem ScriptLine.isLabel_eq_false {text : String} {l : ScriptLine} (h : l.isIndented = true) :
    l.isLabel text = false := by
  simp [isLabel, h]

theorem ScriptLine.isLabel_iff {text : String} {l : ScriptLine} (h : l.isIndented = false) :
    l.isLabel text = true ↔ l.text = text := by
  simp [isLabel, h]

/-! ## Labels -/

/-- The labels of `rest` that repeat one before them, in `before` or in `rest`, or those that do
not. -/
def labelsAfter (again : Bool) (before rest : List ScriptLine) : List ScriptLine :=
  ((rest.zipIdx before.length).filter fun x => !x.1.isIndented &&
    ((before ++ rest).take x.2).any (ScriptLine.isLabel x.1.text) == again).map (·.1)

theorem labelsAfter_nil (again : Bool) (body : List ScriptLine) :
    labelsAfter again [] body = labelsIn again body := rfl

theorem labelsAfter_cons_indented {again : Bool} {l : ScriptLine} (h : l.isIndented = true)
    (before rest : List ScriptLine) :
    labelsAfter again before (l :: rest) = labelsAfter again (before ++ [l]) rest := by
  simp [labelsAfter, List.zipIdx_cons, h]

theorem labelsAfter_cons_label {again : Bool} {l : ScriptLine} (h : l.isIndented = false)
    (before rest : List ScriptLine) :
    labelsAfter again before (l :: rest) =
      if before.any (ScriptLine.isLabel l.text) = again then
        l :: labelsAfter again (before ++ [l]) rest
      else labelsAfter again (before ++ [l]) rest := by
  by_cases hbefore : before.any (ScriptLine.isLabel l.text) = again
  · simp [labelsAfter, List.zipIdx_cons, h, hbefore]
  · simp [labelsAfter, List.zipIdx_cons, h, hbefore]

/-- The labels that were seen are those that stand before. -/
def SeenIn (seen : List String) (before : List ScriptLine) : Prop :=
  ∀ text, text ∈ seen ↔ before.any (ScriptLine.isLabel text) = true

theorem seenIn_nil : SeenIn [] [] := by
  simp [SeenIn]

theorem SeenIn.indented {seen : List String} {before : List ScriptLine} {l : ScriptLine}
    (hseen : SeenIn seen before) (h : l.isIndented = true) : SeenIn seen (before ++ [l]) := by
  intro text
  simp [hseen text, ScriptLine.isLabel_eq_false h]

theorem SeenIn.label {seen : List String} {before : List ScriptLine} {l : ScriptLine}
    (hseen : SeenIn seen before) (h : l.isIndented = false) :
    SeenIn (l.text :: seen) (before ++ [l]) := by
  intro text
  rw [List.mem_cons, hseen text, List.any_append, Bool.or_eq_true, List.any_cons, List.any_nil,
    Bool.or_false, ScriptLine.isLabel_iff h, or_comm, eq_comm (a := text)]

theorem SeenIn.again {seen : List String} {before : List ScriptLine} {l : ScriptLine}
    (hseen : SeenIn seen before) (h : l.isIndented = false) (hl : l.text ∈ seen) :
    SeenIn seen (before ++ [l]) := by
  intro text
  rw [← hseen.label h text, List.mem_cons]
  constructor
  · exact .inr
  · rintro (rfl | hmem)
    · exact hl
    · exact hmem

/-- The labels of the runs of a body, as they are told apart by what was seen before. -/
theorem freshLabels_runsOf {seen : List String} {before rest : List ScriptLine}
    (hseen : SeenIn seen before) :
    freshLabels seen (runsOf rest).2 = labelsAfter false before rest ∧
      repeatedLabels seen (runsOf rest).2 = labelsAfter true before rest := by
  induction rest generalizing seen before with
  | nil => exact ⟨rfl, rfl⟩
  | cons l rest ih =>
    by_cases hi : l.isIndented = true
    · have hruns : (runsOf (l :: rest)).2 = (runsOf rest).2 := by simp [runsOf, hi]
      rw [hruns, labelsAfter_cons_indented hi, labelsAfter_cons_indented hi]
      exact ih (hseen.indented hi)
    · have hlabel : l.isIndented = false := by simpa using hi
      rw [runsOf_cons_label hlabel, labelsAfter_cons_label hlabel, labelsAfter_cons_label hlabel,
        freshLabels, repeatedLabels]
      by_cases hl : l.text ∈ seen
      · obtain ⟨hfresh, hrepeated⟩ := ih (hseen.again hlabel hl)
        simp [hl, (hseen l.text).mp hl, hfresh, hrepeated]
      · obtain ⟨hfresh, hrepeated⟩ := ih (hseen.label hlabel)
        have hnone : before.any (ScriptLine.isLabel l.text) = false := by
          simpa using fun hany => hl ((hseen l.text).mpr hany)
        simp [hl, hnone, hfresh, hrepeated]

/-! ## Contents -/

/-- What stands above the first label is what is indented at the top. -/
theorem fst_runsOf (lines : List ScriptLine) :
    (runsOf lines).1 =
      ((lines.takeWhile ScriptLine.isIndented).map ScriptLine.outdented).filter
        fun l => !l.isEmpty := by
  induction lines with
  | nil => rfl
  | cons l rest ih =>
    by_cases hi : l.isIndented = true
    · rw [runsOf, List.takeWhile_cons_of_pos hi, List.map_cons]
      by_cases he : l.outdented.isEmpty = true
      · simp [hi, he, ih]
      · simp [hi, he, ih]
    · rw [runsOf_cons_label (by simpa using hi), List.takeWhile_cons_of_neg hi]
      rfl

/-- The runs of a body begin at its labels. -/
theorem all_ne_runsOf (text : String) (lines : List ScriptLine) :
    ((runsOf lines).2.all fun r => r.1.text ≠ text) = lines.all fun l => !l.isLabel text := by
  induction lines with
  | nil => rfl
  | cons l rest ih =>
    by_cases hi : l.isIndented = true
    · have hruns : (runsOf (l :: rest)).2 = (runsOf rest).2 := by simp [runsOf, hi]
      rw [hruns, ih, List.all_cons, ScriptLine.isLabel_eq_false hi]
      rfl
    · have hlabel : l.isIndented = false := by simpa using hi
      rw [runsOf_cons_label hlabel, List.all_cons, ih, List.all_cons]
      simp [ScriptLine.isLabel, hlabel]

/-- What stands at the end of a list does not depend on its first entry, unless it is all there is. -/
theorem rtakeWhile_cons {α : Type} (p : α → Bool) (a : α) (l : List α) :
    (a :: l).rtakeWhile p = if l.all p then (if p a then a :: l else l) else l.rtakeWhile p := by
  by_cases hl : ∀ x ∈ l, p x = true
  · have hall : ∀ x ∈ l.reverse, p x = true := fun x hx => hl x (List.mem_reverse.mp hx)
    rw [if_pos (List.all_eq_true.mpr hl), List.rtakeWhile, List.reverse_cons,
      List.takeWhile_append_of_pos hall]
    by_cases ha : p a = true
    · simp [ha]
    · simp [ha]
  · have hshort : (l.reverse.takeWhile p).length ≠ l.reverse.length := by
      intro hlen
      have hself := (List.takeWhile_prefix p).eq_of_length hlen
      rw [List.takeWhile_eq_self_iff] at hself
      exact hl fun x hx => hself x (List.mem_reverse.mpr hx)
    rw [if_neg (by rwa [List.all_eq_true]), List.rtakeWhile, List.reverse_cons,
      List.takeWhile_append, if_neg hshort, List.rtakeWhile]

/-- The content that the runs keep for a label is what stands below its last place. -/
theorem lastContent_runsOf {label : String} {lines : List ScriptLine}
    (h : lines.any (ScriptLine.isLabel label) = true) :
    lastContent label (runsOf lines).2 = contentBelow label lines := by
  induction lines with
  | nil => simp at h
  | cons l rest ih =>
    by_cases hrest : rest.any (ScriptLine.isLabel label) = true
    · have hlater : (rest.all fun m => !m.isLabel label) = false := by simpa using hrest
      rw [contentBelow, rtakeWhile_cons, if_neg (by simp [hlater]), ← contentBelow, ← ih hrest]
      by_cases hi : l.isIndented = true
      · simp [runsOf, hi]
      · rw [runsOf_cons_label (by simpa using hi), lastContent, all_ne_runsOf, hlater]
        simp
    · have hl : l.isLabel label = true := by simpa [hrest] using h
      have hlabel : l.isIndented = false := by
        cases hi : l.isIndented with
        | false => rfl
        | true => simp [ScriptLine.isLabel_eq_false hi] at hl
      have hlast : (rest.all fun m => !m.isLabel label) = true := by simpa using hrest
      rw [contentBelow, rtakeWhile_cons, if_pos hlast, if_neg (by simp [hl]), ← fst_runsOf,
        runsOf_cons_label hlabel, lastContent, all_ne_runsOf, hlast,
        (ScriptLine.isLabel_iff hlabel).mp hl]
      simp

/-- The labels of a body are lines of it. -/
theorem isLabel_of_mem_labelsIn {again : Bool} {body : List ScriptLine} {l : ScriptLine}
    (h : l ∈ labelsIn again body) : body.any (ScriptLine.isLabel l.text) = true := by
  obtain ⟨x, hx, rfl⟩ := List.mem_map.mp h
  obtain ⟨hmem, hkept⟩ := List.mem_filter.mp hx
  have hlabel : x.1.isIndented = false := by
    simpa using (Bool.and_eq_true_iff.mp hkept).1
  rw [List.any_eq_true]
  exact ⟨x.1, List.fst_mem_of_mem_zipIdx hmem, (ScriptLine.isLabel_iff hlabel).mpr rfl⟩

/-- The branches of a body are its labels, each with the content below its last place. -/
theorem branchesOf_runsOf (body : List ScriptLine) :
    branchesOf (runsOf body).2 =
      (labelsIn false body).map fun l => (l, contentBelow l.text body) := by
  rw [branchesOf, (freshLabels_runsOf seenIn_nil).1, labelsAfter_nil]
  apply List.map_congr_left
  intro l hl
  rw [lastContent_runsOf (isLabel_of_mem_labelsIn hl)]

theorem repeatedLabels_runsOf (body : List ScriptLine) :
    repeatedLabels [] (runsOf body).2 = labelsIn true body := by
  rw [(freshLabels_runsOf seenIn_nil).2, labelsAfter_nil]

/-! ## Reading a branch -/

/-- There is nothing to read only where there are no lines. -/
theorem isEmpty_readSections_outline (lines : List ScriptLine) :
    (readSections stage (outline lines)).isEmpty = lines.isEmpty := by
  cases lines with
  | nil => rfl
  | cons l rest =>
    rw [outline_cons]
    split
    · split <;> rfl
    · rfl

/-- A branch without content is an error of its label; any other has the errors of its content. -/
theorem errors_readBranch (label : ScriptLine) (content : List ScriptLine) :
    (readBranch label (readSections stage (outline content))).errors =
      if content = [] then [label.error (.emptyBranch label.text)]
      else (readLines stage content).errors := by
  rw [readBranch, isEmpty_readSections_outline]
  by_cases h : content = []
  · simp [h, Reading.errors]
  · simp [h, Reading.errors_map, readLines]

theorem notices_readBranch (label : ScriptLine) (content : List ScriptLine) :
    (readBranch label (readSections stage (outline content))).notices =
      (readLines stage content).notices := by
  rw [readBranch, isEmpty_readSections_outline]
  by_cases h : content = []
  · subst h
    rfl
  · simp [h, readLines]

/-- Readings that were collected gave one value each, in their order. -/
theorem Reading.forall₂_of_collect {α β : Type} {f : α → Reading β} {as : List α} {bs : List β}
    (hf : ∀ a, (f a).Explained) (h : (collect (as.map f)).result = .ok bs) :
    List.Forall₂ (fun a b => (f a).result = .ok b) as bs := by
  induction as generalizing bs with
  | nil =>
    obtain rfl : [] = bs := by simpa [collect] using h
    exact .nil
  | cons a as ih =>
    obtain ⟨b, rest, hb, hcollected, rfl⟩ := result_collect_cons (hf a) h
    exact .cons hb (ih hcollected)

/-! ## Reading a block -/

/-- The name that a header calls its actor. -/
def askerName (header : ScriptLine) : String :=
  String.ofList (withoutMarker '?' header.text.toList)

/-- The error of a header whose actor is not on the stage; none if it is. -/
def askerErrors (stage : Stage) (header : ScriptLine) : List LineError :=
  match stage.findActor (askerName header) with
  | some _ => []
  | none => [header.error (.unknownActor (askerName header))]

/-- The statement that begins at a header, from the lines below it, and the lines that are left. -/
def readBlock (stage : Stage) (header : ScriptLine) (lines : List ScriptLine) :
    Reading Statement × List ScriptLine :=
  match takeBlock lines with
  | none => (readSection stage (.flawed header .unclosed), [])
  | some (body, after) => (readSection stage (blockSection outline header body), after)

/-- The errors of the branches of a body, in the order of their labels. -/
def branchErrors (stage : Stage) (body : List ScriptLine) : List LineError :=
  (labelsIn false body).flatMap fun l =>
    if contentBelow l.text body = [] then [l.error (.emptyBranch l.text)]
    else (readLines stage (contentBelow l.text body)).errors

/-- What a body that begins with a label is read as: the repeated labels are warned of before
anything in a branch is, all errors are told, and without errors there is a branch for each label,
with the script of its content. -/
structure ReadsBranches (stage : Stage) (header : ScriptLine) (body : List ScriptLine)
    (r : Reading Statement) : Prop where
  notices : r.notices =
    ((labelsIn true body).map fun l => ⟨.duplicateBranch l.text, l.origin⟩) ++
      (labelsIn false body).flatMap fun l =>
        (readLines stage (contentBelow l.text body)).notices
  rejected : askerErrors stage header ++ branchErrors stage body ≠ [] →
    r.result = .error (askerErrors stage header ++ branchErrors stage body)
  accepted : askerErrors stage header ++ branchErrors stage body = [] →
    ∃ actor branches, stage.findActor (askerName header) = some actor ∧
      r.result = .ok (.choice ⟨askerName header, actor⟩ branches header.origin) ∧
      List.Forall₂ (fun l branch => branch.1 = l.text ∧
        (readLines stage (contentBelow l.text body)).result = .ok branch.2)
        (labelsIn false body) branches

/-- A block without a terminator does not end. -/
theorem takeBlock_eq_none {lines : List ScriptLine} (h : ∀ l ∈ lines, l.text ≠ terminator) :
    takeBlock lines = none := by
  cases hb : takeBlock lines with
  | none => rfl
  | some parts =>
    obtain ⟨body, after⟩ := parts
    obtain ⟨last, hlast, rfl, -⟩ := eq_append_of_takeBlock hb
    exact absurd hlast (h last (by simp))

theorem readAsker_eq (stage : Stage) (header : ScriptLine) :
    readAsker stage header =
      match stage.findActor (askerName header) with
      | some actor => .ok ⟨askerName header, actor⟩
      | none => .error (header.error (.unknownActor (askerName header))) := rfl

theorem exists_actor_of_readAsker {header : ScriptLine} {asker : ActorRef}
    (h : readAsker stage header = .ok asker) :
    ∃ actor, stage.findActor (askerName header) = some actor ∧
      ⟨askerName header, actor⟩ = asker := by
  rw [readAsker_eq] at h
  cases hfound : stage.findActor (askerName header) with
  | none => simp [hfound] at h
  | some actor => exact ⟨actor, rfl, by simpa [hfound] using h⟩

theorem errors_readAsker (header : ScriptLine) :
    (Reading.ofExcept (readAsker stage header)).errors = askerErrors stage header := by
  rw [readAsker_eq, askerErrors]
  cases stage.findActor (askerName header) <;> rfl

/-- A block that cannot be cut has that flaw, besides what is wrong with its header. -/
theorem readSection_flawed (header : ScriptLine) (flaw : BlockFlaw) :
    readSection stage (.flawed header flaw) =
      ⟨[], .error (askerErrors stage header ++ [flawError header flaw])⟩ := by
  rw [readSection, readFlawed, readAsker_eq, askerErrors]
  cases stage.findActor (askerName header) <;> rfl

/-- A reading that failed, failed with its errors. -/
theorem Reading.result_of_errors_ne_nil {α : Type} {r : Reading α} (h : r.errors ≠ []) :
    r.result = .error r.errors := by
  obtain ⟨notices, result⟩ := r
  cases result with
  | ok a => exact absurd rfl h
  | error es => rfl

/-- A body that begins with a label is a choice between its labels. -/
theorem readSection_blockSection (header : ScriptLine) {first : ScriptLine}
    (hfirst : first.isIndented = false) (rest : List ScriptLine) :
    readSection stage (blockSection outline header (first :: rest)) =
      readChoice stage header (labelsIn true (first :: rest))
        ((labelsIn false (first :: rest)).map fun l =>
          readBranch l (readSections stage (outline (contentBelow l.text (first :: rest))))) := by
  rw [blockSection, if_neg (by simp [hfirst]), readSection, repeatedLabels_runsOf,
    branchesOf_runsOf, readBranches_eq_map, List.map_map, List.map_map]
  rfl

/-- A choice between the labels of a body is read branch by branch. -/
theorem readsBranches_readChoice (stage : Stage) (header : ScriptLine) (body : List ScriptLine) :
    ReadsBranches stage header body (readChoice stage header (labelsIn true body)
      ((labelsIn false body).map fun l =>
        readBranch l (readSections stage (outline (contentBelow l.text body))))) := by
  have herrors : (readChoice stage header (labelsIn true body)
      ((labelsIn false body).map fun l =>
        readBranch l (readSections stage (outline (contentBelow l.text body))))).errors =
      askerErrors stage header ++ branchErrors stage body := by
    rw [errors_readChoice, errors_readAsker, Reading.errors_collect, List.flatMap_map, branchErrors]
    simp only [errors_readBranch]
  refine ⟨?_, fun hwrong => ?_, fun hfine => ?_⟩
  · rw [readChoice, Reading.notices_collect, List.flatMap_map]
    simp only [notices_readBranch]
  · rw [← herrors] at hwrong ⊢
    exact Reading.result_of_errors_ne_nil hwrong
  · obtain ⟨s, hs⟩ := (explained_readChoice _ _ _).result_eq_ok (herrors.trans hfine)
    obtain ⟨asker, scripts, hasker, hscripts, rfl⟩ := result_readChoice hs
    obtain ⟨actor, hfound, rfl⟩ := exists_actor_of_readAsker hasker
    refine ⟨actor, scripts, hfound, hs, ?_⟩
    have hbranches := Reading.forall₂_of_collect (fun _ => explained_readBranch _ _) hscripts
    refine hbranches.imp fun l branch hbranch => ?_
    obtain ⟨hlabel, hscript, -⟩ := result_readBranch hbranch
    exact ⟨hlabel, hscript⟩

/-- How a choice block is read, whatever its header and the lines below it are.  It takes all lines up
to its terminator along.  A block that is not closed, has no lines or does not begin with a label is
rejected for that; any other is read label by label. -/
theorem readBlock_spec (stage : Stage) (header : ScriptLine) (lines : List ScriptLine) :
    (header.kind = .choice →
      readSections stage (outline (header :: lines)) =
        (readBlock stage header lines).1 ::
          readSections stage (outline (readBlock stage header lines).2)) ∧
    ((∀ l ∈ lines, l.text ≠ terminator) →
      readBlock stage header lines =
        (⟨[], .error (askerErrors stage header ++ [header.error .missingTerminator])⟩, [])) ∧
    ∀ body last after, lines = body ++ last :: after → last.text = terminator →
      (∀ l ∈ body, l.text ≠ terminator) →
        (readBlock stage header lines).2 = after ∧
        (body = [] → (readBlock stage header lines).1 =
          ⟨[], .error (askerErrors stage header ++ [header.error .noBranches])⟩) ∧
        ∀ first rest, body = first :: rest →
          (first.isIndented = true → (readBlock stage header lines).1 =
            ⟨[], .error (askerErrors stage header ++ [first.error .misplacedContent])⟩) ∧
          (first.isIndented = false →
            ReadsBranches stage header body (readBlock stage header lines).1) := by
  refine ⟨fun hkind => ?_, fun hopen => ?_, ?_⟩
  · rw [outline_cons, if_pos hkind, readBlock]
    cases takeBlock lines with
    | none => rfl
    | some parts => rfl
  · rw [readBlock, takeBlock_eq_none hopen]
    exact congrArg (·, []) (readSection_flawed header .unclosed)
  · rintro body last after rfl hlast hbody
    rw [readBlock, takeBlock_append_cons hbody hlast]
    refine ⟨rfl, ?_, ?_⟩
    · rintro rfl
      exact readSection_flawed header .empty
    · rintro first rest rfl
      refine ⟨fun hindented => ?_, fun hlabel => ?_⟩
      · have hcut : blockSection outline header (first :: rest) =
            .flawed header (.misplaced first) := if_pos hindented
        exact (congrArg (readSection stage) hcut).trans (readSection_flawed header _)
      · dsimp only
        rw [readSection_blockSection header hlabel rest]
        exact readsBranches_readChoice stage header (first :: rest)

/-- A block in which the first of two labels is started over, and a line below the block. -/
def restartedText : String :=
  "?Bo\nYes\n Bo: hello\nNo\n Bo: no\nYes\n  \n \n Bo: yes\nEND\nBo: bye"

theorem readBlock_spec_restartedText :
    ∃ header body last after,
      scriptLines restartedText = header :: (body ++ last :: after) ∧
        (header.kind = .choice ∧ last.text = terminator ∧ ∀ l ∈ body, l.text ≠ terminator) ∧
        readSections .bare (outline (scriptLines restartedText)) =
          (readBlock .bare header (body ++ last :: after)).1 ::
            readSections .bare (outline after) ∧
        ReadsBranches .bare header body (readBlock .bare header (body ++ last :: after)).1 := by
  let lines := numbered 1 ["Yes", " Bo: hello", "No", " Bo: no", "Yes", "  ", " ", " Bo: yes"]
  have hbody : ∀ l ∈ lines, l.text ≠ terminator := by decide +kernel
  obtain ⟨hread, -, hclosed⟩ := readBlock_spec .bare ⟨"?Bo", .ofIndex 0⟩
    (lines ++ ⟨"END", .ofIndex 9⟩ :: [⟨"Bo: bye", .ofIndex 10⟩])
  obtain ⟨hafter, -, hlabels⟩ := hclosed lines _ _ rfl rfl hbody
  have hlines : scriptLines restartedText =
      ⟨"?Bo", .ofIndex 0⟩ :: (lines ++ ⟨"END", .ofIndex 9⟩ :: [⟨"Bo: bye", .ofIndex 10⟩]) := by
    decide +kernel
  refine ⟨_, lines, _, _, hlines, ⟨by decide, rfl, hbody⟩, ?_, (hlabels _ _ rfl).2 (by decide)⟩
  rw [hlines, hread (by decide), hafter]

/-- The label that was started over stays first and is warned of, with the content below its second
place; of the lines that are blank there, the one that has a space left is kept. -/
example :
    let body := numbered 1 ["Yes", " Bo: hello", "No", " Bo: no", "Yes", "  ", " ", " Bo: yes"]
    (labelsIn false body).map (·.text) = ["Yes", "No"] ∧
      labelsIn true body = [⟨"Yes", .ofIndex 5⟩] ∧
      contentBelow "Yes" body = [⟨" ", .ofIndex 6⟩, ⟨"Bo: yes", .ofIndex 8⟩] := by decide +kernel

end Promptbook.Script
