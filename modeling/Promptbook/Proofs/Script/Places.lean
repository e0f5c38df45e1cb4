import Mathlib.Data.List.Flatten
import Mathlib.Data.List.Perm.Subperm
import Promptbook.Proofs.Script.LineOrder

set_option autoImplicit false

/-!
# Every line is read once

The sections of an outline share no line: counted with repetitions, the places of their lines are
among those of the lines that were outlined (`subperm_outline`).  A label is one of the repeated or
one of the fresh labels of its block, and of the contents of a label only the last goes to a branch.

What is read of a section stands at different lines of it (`notices_sublist`, `origins_sublist`), so
in a text no two warnings have the same line, nor have two statements that know where they stand.
-/

namespace Promptbook.Script

variable {stage : Stage}

/-! ## All lines of a section -/

mutual

/-- The lines of a section, with those of its branches after its own. -/
def Section.allLines : Section → List ScriptLine
  | .line l => [l]
  | .flawed header flaw => (Section.flawed header flaw).ownLines.map (·.2)
  | .choice header repeats branches =>
    (Section.choice header repeats branches).ownLines.map (·.2) ++ linesBelow branches

/-- All lines of all the sections. -/
def linesWithin : List Section → List ScriptLine
  | [] => []
  | s :: rest => s.allLines ++ linesWithin rest

/-- All lines below the labels of a choice. -/
def linesBelow : List (ScriptLine × List Section) → List ScriptLine
  | [] => []
  | (_, content) :: rest => linesWithin content ++ linesBelow rest

end

theorem linesWithin_eq_flatMap (sections : List Section) :
    linesWithin sections = sections.flatMap Section.allLines := by
  induction sections with
  | nil => rfl
  | cons s rest ih => rw [linesWithin, ih, List.flatMap_cons]

theorem linesBelow_eq_flatMap (branches : List (ScriptLine × List Section)) :
    linesBelow branches = branches.flatMap fun b => linesWithin b.2 := by
  induction branches with
  | nil => rfl
  | cons b rest ih => rw [linesBelow, ih, List.flatMap_cons]

theorem Section.allLines_choice (header : ScriptLine) (repeats : List ScriptLine)
    (branches : List (ScriptLine × List Section)) :
    (Section.choice header repeats branches).allLines =
      header :: (repeats ++ branches.map (·.1)) ++ branches.flatMap fun b => linesWithin b.2 := by
  rw [allLines, linesBelow_eq_flatMap]
  simp [ownLines, Function.comp_def]

@[simp] theorem indices_cons (l : ScriptLine) (lines : List ScriptLine) :
    indices (l :: lines) = l.origin.lineIndex :: indices lines := rfl

@[simp] theorem indices_append (lines more : List ScriptLine) :
    indices (lines ++ more) = indices lines ++ indices more := List.map_append

theorem subperm_indices {lines more : List ScriptLine} (h : lines.Subperm more) :
    (indices lines).Subperm (indices more) := by
  obtain ⟨kept, hperm, hsub⟩ := h
  exact ⟨indices kept, hperm.map _, hsub.map _⟩

/-! ## Labels and contents -/

/-- Every label is either repeated or fresh. -/
theorem perm_labels (seen : List String) (runs : List Run) :
    (repeatedLabels seen runs ++ freshLabels seen runs).Perm (runs.map (·.1)) := by
  induction runs generalizing seen with
  | nil => exact .nil
  | cons r runs ih =>
    rw [repeatedLabels, freshLabels]
    split
    · exact (ih seen).cons _
    · exact List.perm_middle.trans ((ih _).cons _)

/-- Different labels have their last contents from different runs. -/
theorem subperm_lastContent {labels : List String} (h : labels.Nodup) (runs : List Run) :
    (labels.flatMap fun label => lastContent label runs).Subperm (runs.flatMap (·.2)) := by
  induction runs generalizing labels with
  | nil => simp [lastContent]
  | cons r runs ih =>
    have hskip : ∀ label, label ≠ r.1.text →
        lastContent label (r :: runs) = lastContent label runs := by
      intro label hne
      rw [lastContent, if_neg (by simp [hne.symm])]
    rw [List.flatMap_cons]
    by_cases hlast : r.1.text ∈ labels ∧ (runs.all fun r' => r'.1.text ≠ r.1.text) = true
    · obtain ⟨hmem, hlater⟩ := hlast
      have hperm := List.perm_cons_erase hmem
      have hne : ∀ label ∈ labels.erase r.1.text, label ≠ r.1.text :=
        fun label hl => ((h.mem_erase_iff).mp hl).1
      have hrest : ((labels.erase r.1.text).flatMap fun label => lastContent label (r :: runs)) =
          (labels.erase r.1.text).flatMap fun label => lastContent label runs :=
        List.flatMap_congr fun label hl => hskip label (hne label hl)
      have hfirst : lastContent r.1.text (r :: runs) = r.2 := by
        rw [lastContent, hlater]
        simp
      refine (hperm.flatMap_right _).subperm.trans ?_
      rw [List.flatMap_cons, hfirst, hrest]
      exact (List.subperm_append_left _).mpr (ih (h.erase _))
    · have hsame : (labels.flatMap fun label => lastContent label (r :: runs)) =
          labels.flatMap fun label => lastContent label runs := by
        refine List.flatMap_congr fun label hl => ?_
        by_cases hlabel : label = r.1.text
        · subst hlabel
          rw [lastContent, if_neg fun hcond => hlast ⟨hl, (Bool.and_eq_true_iff.mp hcond).2⟩]
        · exact hskip label hlabel
      rw [hsame]
      exact (ih h).trans (List.sublist_append_right _ _).subperm

/-- The labels of a block and the contents of its branches are lines of its body, each once. -/
theorem subperm_branchesOf (body : List ScriptLine) :
    (indices (repeatedLabels [] (runsOf body).2 ++ (branchesOf (runsOf body).2).map (·.1)) ++
      (branchesOf (runsOf body).2).flatMap fun b => indices b.2).Subperm (indices body) := by
  have hlabels : (branchesOf (runsOf body).2).map (·.1) = freshLabels [] (runsOf body).2 := by
    rw [branchesOf, List.map_map]
    exact List.map_id _
  have hcontents : ((branchesOf (runsOf body).2).flatMap (·.2)).Subperm
      ((runsOf body).2.flatMap (·.2)) := by
    have hdistinct : ((freshLabels [] (runsOf body).2).map (·.text)).Nodup :=
      List.pairwise_map.mpr (pairwise_freshLabels [] _).2
    simpa only [branchesOf, List.flatMap_map] using
      subperm_lastContent hdistinct (runsOf body).2
  have hruns : (repeatedLabels [] (runsOf body).2 ++ (branchesOf (runsOf body).2).map (·.1) ++
      (branchesOf (runsOf body).2).flatMap (·.2)).Subperm
        ((runsOf body).2.flatMap fun r => r.1 :: r.2) := by
    rw [hlabels]
    exact ((perm_labels [] _).subperm.append hcontents).trans
      (List.map_append_flatMap_perm _ _ _).subperm
  have hcut : (indices ((runsOf body).2.flatMap fun r => r.1 :: r.2)).Sublist (indices body) :=
    ((List.sublist_append_right _ _).map _).trans (indices_runsOf_sublist body)
  have hcontent : indices ((branchesOf (runsOf body).2).flatMap (·.2)) =
      (branchesOf (runsOf body).2).flatMap fun b => indices b.2 := List.map_flatMap
  rw [← hcontent, ← indices_append]
  exact (subperm_indices hruns).trans hcut.subperm

/-! ## The outline has every line once -/

theorem subperm_flatMap {α β : Type} {f g : α → List β} {as : List α}
    (h : ∀ a ∈ as, (f a).Subperm (g a)) : (as.flatMap f).Subperm (as.flatMap g) := by
  induction as with
  | nil => exact .refl _
  | cons a as ih =>
    obtain ⟨ha, has⟩ := List.forall_mem_cons.mp h
    exact ha.append (ih has)

/-- A block has its header and every line of its body at most once, if contents have theirs. -/
theorem subperm_blockSection (header : ScriptLine) {body : List ScriptLine}
    (ih : ∀ lines, lines.length ≤ body.length →
      (indices (linesWithin (outline lines))).Subperm (indices lines)) :
    (indices (blockSection outline header body).allLines).Subperm (indices (header :: body)) := by
  cases body with
  | nil => exact .refl _
  | cons l rest =>
    rw [blockSection]
    split
    · exact subperm_indices (((List.nil_sublist rest).cons_cons l).cons_cons header).subperm
    · dsimp only
      have hcontents : ((branchesOf (runsOf (l :: rest)).2).flatMap fun b =>
          indices (linesWithin (outline b.2))).Subperm
            ((branchesOf (runsOf (l :: rest)).2).flatMap fun b => indices b.2) :=
        subperm_flatMap fun b hb => ih b.2 (length_of_mem_branchesOf hb)
      rw [Section.allLines_choice, List.map_map, List.flatMap_map, List.cons_append, indices_cons,
        indices_cons header, List.subperm_cons, indices_append]
      refine List.Subperm.trans ?_ (subperm_branchesOf (l :: rest))
      rw [indices, indices, List.map_flatMap]
      exact (List.Subperm.refl _).append hcontents

/-- Counted with repetitions, the places in an outline are among those of the lines outlined. -/
theorem subperm_outline (lines : List ScriptLine) :
    (indices (linesWithin (outline lines))).Subperm (indices lines) := by
  -- contents of branches and what comes after a block are both shorter
  induction hn : lines.length using Nat.strongRecOn generalizing lines with
  | _ n ih =>
    cases lines with
    | nil => exact .refl _
    | cons l rest =>
      rw [List.length_cons] at hn
      rw [outline_cons]
      split
      · cases hb : takeBlock rest with
        | none => exact subperm_indices ((List.nil_sublist rest).cons_cons l).subperm
        | some parts =>
          obtain ⟨body, after⟩ := parts
          have hlen := length_of_takeBlock hb
          have hbody : ∀ ls, ls.length ≤ body.length →
              (indices (linesWithin (outline ls))).Subperm (indices ls) :=
            fun ls hls => ih ls.length (by omega) ls rfl
          have hblock := subperm_blockSection l hbody
          have hafter := ih after.length (by omega) after rfl
          obtain ⟨last, -, rfl, -⟩ := eq_append_of_takeBlock hb
          rw [linesWithin, indices_append, ← List.cons_append, indices_append (l :: body)]
          exact hblock.append (hafter.trans .cons_self)
      · exact (List.subperm_cons _).mpr (ih rest.length (by omega) rest rfl)

/-- Lines at different places are outlined at different places. -/
theorem nodup_outline {lines : List ScriptLine} (h : (indices lines).Nodup) :
    (indices (linesWithin (outline lines))).Nodup := by
  obtain ⟨places, hperm, hsub⟩ := subperm_outline lines
  exact hperm.nodup_iff.mp (h.sublist hsub)

/-! ## What is read stands at different lines -/

/-- Where the warnings stand. -/
def warnedAt (notices : List Notice) : List UInt32 := notices.map (·.origin.lineIndex)

theorem notices_readTarget_sublist (l : ScriptLine) (written : List Char) :
    (warnedAt (readTarget stage l written).notices).Sublist [l.origin.lineIndex] := by
  unfold readTarget
  split
  · dsimp only
    split <;> exact List.nil_sublist _
  · split
    · exact List.nil_sublist _
    · dsimp only
      split
      · exact List.nil_sublist _
      · exact .refl _
  · exact List.nil_sublist _

/-- A single line is warned of at most once. -/
theorem notices_readLine_sublist (l : ScriptLine) :
    (warnedAt (readLine stage l).notices).Sublist [l.origin.lineIndex] := by
  unfold readLine
  split <;> rw [Reading.notices_map]
  · rw [notices_readCues]
    exact List.nil_sublist _
  · unfold readAssignment
    split
    · exact List.nil_sublist _
    · split
      · exact List.nil_sublist _
      · exact notices_readTarget_sublist l _
  · exact List.nil_sublist _

/-- A branch has the warnings of its content, whether there is any or not. -/
theorem notices_readBranch_eq_flatMap (label : ScriptLine) (content : List (Reading Statement)) :
    (readBranch label content).notices = content.flatMap Reading.notices := by
  unfold readBranch
  split
  · next hempty =>
    rw [List.isEmpty_iff.mp hempty]
    rfl
  · rfl

/-- If the warnings of each section stand at different lines of it, so do those of them all. -/
theorem notices_readSections_sublist {sections : List Section}
    (hs : ∀ s ∈ sections, (warnedAt (readSection stage s).notices).Sublist (indices s.allLines)) :
    (warnedAt ((readSections stage sections).flatMap Reading.notices)).Sublist
      (indices (linesWithin sections)) := by
  rw [readSections_eq_map, List.flatMap_map, linesWithin_eq_flatMap, warnedAt, indices,
    List.map_flatMap, List.map_flatMap]
  exact List.Sublist.flatMap_right _ hs

/-- The warnings of a section stand at different lines of it. -/
theorem notices_sublist (s : Section) :
    (warnedAt (readSection stage s).notices).Sublist (indices s.allLines) := by
  induction s using Section.induction with
  | line l => exact notices_readLine_sublist l
  | flawed header flaw =>
    rw [readSection_flawed]
    exact List.nil_sublist _
  | choice header repeats branches ih =>
    have hbelow : (warnedAt (Reading.collect (readBranches stage branches)).notices).Sublist
        (indices (branches.flatMap fun b => linesWithin b.2)) := by
      rw [Reading.notices_collect, readBranches_eq_map, List.flatMap_map, warnedAt, indices,
        List.map_flatMap, List.map_flatMap]
      refine List.Sublist.flatMap_right _ fun b hb => ?_
      rw [notices_readBranch_eq_flatMap]
      exact notices_readSections_sublist (ih b hb)
    rw [readSection, readChoice, Section.allLines_choice, indices_append]
    refine List.Sublist.trans ?_ (hbelow.append_left _)
    have hlabels : warnedAt (repeats.map fun l => ⟨.duplicateBranch l.text, l.origin⟩) =
        indices repeats := List.map_map
    rw [warnedAt, List.map_append, ← warnedAt, ← warnedAt, hlabels, indices_cons, indices_append]
    exact ((List.sublist_append_left _ _).cons _).append (.refl _)

theorem sublist_flatMap_of_forall₂ {α β γ : Type} {r : α → β → Prop} {f : α → List γ}
    {g : β → List γ} {as : List α} {bs : List β} (h : List.Forall₂ r as bs)
    (hr : ∀ a ∈ as, ∀ b, r a b → (g b).Sublist (f a)) :
    (bs.flatMap g).Sublist (as.flatMap f) := by
  induction h with
  | nil => exact .slnil
  | cons hab _ ih =>
    obtain ⟨ha, has⟩ := List.forall_mem_cons.mp hr
    exact (ha _ hab).append (ih has)

/-- A dialogue stands where its line does. -/
theorem origins_readLine_sublist {l : ScriptLine} {s : Statement}
    (h : (readLine stage l).result = .ok s) : s.origins.Sublist [l.origin] := by
  have hopening : ∀ m, s.opening = some m → m = l := by
    intro m hm
    obtain ⟨t, ht, hmem⟩ := opening_of_readLine h (.self s) hm
    cases ht
    simpa [Section.ownLines] using hmem
  unfold readLine at h
  split at h <;> obtain ⟨read, -, rfl⟩ := Reading.result_map h
  · exact List.nil_sublist _
  · exact List.nil_sublist _
  · have horigin := congrArg ScriptLine.origin (hopening _ rfl)
    rw [Statement.origins, ← horigin]

/-- If the statements of each section stand at different lines of it, so do those of them all. -/
theorem originsOf_sublist {sections : List Section} {script : List Statement}
    (hs : ∀ s ∈ sections, ∀ t, (readSection stage s).result = .ok t →
      t.origins.Sublist (s.allLines.map (·.origin)))
    (h : (Reading.collect (readSections stage sections)).result = .ok script) :
    (originsOf script).Sublist ((linesWithin sections).map (·.origin)) := by
  rw [readSections_eq_map] at h
  rw [originsOf_eq_flatMap, linesWithin_eq_flatMap, List.map_flatMap]
  exact sublist_flatMap_of_forall₂ (Reading.forall₂_of_collect explained_readSection h) hs

/-- The statements that are read of a section stand at different lines of it. -/
theorem origins_sublist {s : Section} {read : Statement}
    (h : (readSection stage s).result = .ok read) :
    read.origins.Sublist (s.allLines.map (·.origin)) := by
  induction s using Section.induction generalizing read with
  | line l => exact origins_readLine_sublist h
  | flawed header flaw => exact absurd h result_readFlawed
  | choice header repeats branches ih =>
    rw [readSection] at h
    obtain ⟨asker, scripts, -, hscripts, rfl⟩ := result_readChoice h
    rw [readBranches_eq_map] at hscripts
    have hbranches := Reading.forall₂_of_collect (fun _ => explained_readBranch _ _) hscripts
    have hbelow : (scripts.flatMap fun b => originsOf b.2).Sublist
        (branches.flatMap fun b => (linesWithin b.2).map (·.origin)) := by
      refine sublist_flatMap_of_forall₂ hbranches fun b hb branch hbranch => ?_
      obtain ⟨-, hscript, -⟩ := result_readBranch hbranch
      exact originsOf_sublist (fun s hs _ => ih b hb s hs) hscript
    rw [Statement.origins, originsOfBranches_eq_flatMap, Section.allLines_choice, List.map_append,
      List.map_flatMap, List.map_cons, List.cons_append]
    exact (hbelow.trans (List.sublist_append_right _ _)).cons_cons _

/-! ## Scripts -/

/-- The warnings about lines at different places stand at different places. -/
theorem nodup_notices {lines : List ScriptLine} (h : (indices lines).Nodup) :
    (warnedAt (readLines stage lines).notices).Nodup := by
  refine (nodup_outline h).sublist ?_
  rw [readLines, Reading.notices_collect]
  exact notices_readSections_sublist fun s _ => notices_sublist s

/-- So do the statements that are read of them. -/
theorem nodup_originsOf {lines : List ScriptLine} (h : (indices lines).Nodup)
    {script : List Statement} (hread : (readLines stage lines).result = .ok script) :
    ((originsOf script).map (·.lineIndex)).Nodup := by
  have hsub : (originsOf script).Sublist ((linesWithin (outline lines)).map (·.origin)) :=
    originsOf_sublist (fun _ _ _ => origins_sublist) hread
  refine (nodup_outline h).sublist ?_
  have hindices := hsub.map (·.lineIndex)
  rwa [List.map_map] at hindices

/-- A log without two warnings of one line is sorted strictly. -/
theorem WarningLog.pairwise_lt_inLineOrder {log : WarningLog} (h : (warnedAt log).Nodup) :
    (WarningLog.inLineOrder log).Pairwise fun a b => a.origin.lineIndex < b.origin.lineIndex := by
  have hnodup : (warnedAt (WarningLog.inLineOrder log)).Nodup :=
    ((WarningLog.perm_inLineOrder log).map _).nodup_iff.mpr h
  exact ((WarningLog.pairwise_inLineOrder log).and (List.pairwise_map.mp hnodup)).imp
    fun ⟨hle, hne⟩ => UInt32.lt_of_le_of_ne hle hne

/-- Below 2³² lines no two warnings about a text are of the same line, whether it is accepted or
not: sorted by their lines they are all there, once each, one strictly below the other.  In an
accepted script all dialogues and choices, at all depths, stand at different lines. -/
theorem readScript_reads_once (stage : Stage) {content : String}
    (hlen : lineCount content < UInt32.size) :
    (warnedAt (readScript stage content).notices).Nodup ∧
      (WarningLog.inLineOrder (readScript stage content).notices).Perm
        (readScript stage content).notices ∧
      (WarningLog.inLineOrder (readScript stage content).notices).Pairwise
        (fun a b => a.origin.lineIndex < b.origin.lineIndex) ∧
      ∀ script, (readScript stage content).result = .ok script →
        ((originsOf script).map (·.lineIndex)).Nodup := by
  have hplaces := nodup_scriptLines hlen
  have hwarned : (warnedAt (readScript stage content).notices).Nodup := nodup_notices hplaces
  exact ⟨hwarned, WarningLog.perm_inLineOrder _, WarningLog.pairwise_lt_inLineOrder hwarned,
    fun script hread => nodup_originsOf hplaces hread⟩

/-- A text with warnings at two depths, of which the first one that is found is not the first one in
the text. -/
def warnedText : String :=
  "?Bo\nA\n [True] -> Bo.shy\nB\n Bo: hi\nB\n ?Bo\n C\n  Bo: bye\n C\n  Bo: hello\n END\nEND"

theorem readScript_reads_once_warnedText :
    lineCount warnedText < UInt32.size ∧
      warnedAt (readScript .bare warnedText).notices = [5, 2, 9] ∧
      (warnedAt (readScript .bare warnedText).notices).Nodup ∧
      (WarningLog.inLineOrder (readScript .bare warnedText).notices).Perm
        (readScript .bare warnedText).notices ∧
      (WarningLog.inLineOrder (readScript .bare warnedText).notices).Pairwise
        (fun a b => a.origin.lineIndex < b.origin.lineIndex) ∧
      ∃ script, (readScript .bare warnedText).result = .ok script ∧
        ((originsOf script).map (·.lineIndex)).Nodup := by
  have hlen : lineCount warnedText < UInt32.size := by decide +kernel
  have hwarned : warnedAt (readScript .bare warnedText).notices = [5, 2, 9] := by decide +kernel
  have hfine : (readScript .bare warnedText).errors = [] := by decide +kernel
  obtain ⟨script, hread⟩ := (Reading.explained_collect _).result_eq_ok hfine
  obtain ⟨hnodup, hperm, hsorted, horigins⟩ := readScript_reads_once .bare hlen
  exact ⟨hlen, hwarned, hnodup, hperm, hsorted, script, hread, horigins script hread⟩

end Promptbook.Script
