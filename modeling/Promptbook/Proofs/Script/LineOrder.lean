import Mathlib.Data.List.Pairwise
import Promptbook.Proofs.Script.Branches

set_option autoImplicit false

/-!
# Errors in the order of their lines

The errors of a text are collected statement by statement, and those of a choice branch by branch.
Statements follow each other in the text.  So do branches, as long as every label is written once:
a label that is started over keeps its first place among the branches, but its content comes from
its last.  `inLineOrder_readScript_iff` says exactly when errors are in the order of their lines,
and `restartedErrorsText` is a text whose errors are not.

A body is cut into runs that lie one below the other (`ordered_runsOf`).  Whatever a branch is made
of is taken from one run, so two branches lie apart, one of them above the other (`faults_apart`),
and it only matters which.
-/

namespace Promptbook.Script

variable {stage : Stage}

/-! ## Lines below each other -/

/-- Every line stands below those before it. -/
def Ordered (lines : List ScriptLine) : Prop :=
  lines.Pairwise fun l m => l.origin.lineIndex < m.origin.lineIndex

/-- No error points above one before it. -/
def InLineOrder (errors : List LineError) : Prop :=
  errors.Pairwise fun e e' => e.origin.lineIndex ≤ e'.origin.lineIndex

instance (errors : List LineError) : Decidable (InLineOrder errors) :=
  inferInstanceAs (Decidable (errors.Pairwise _))

/-- Where the lines stand. -/
def indices (lines : List ScriptLine) : List UInt32 := lines.map fun l => l.origin.lineIndex

theorem ordered_iff {lines : List ScriptLine} : Ordered lines ↔ (indices lines).Pairwise (· < ·) :=
  List.pairwise_map.symm

/-- Numbered lines stand below each other, as long as 32 bits hold their numbers. -/
theorem ordered_numbered {start : Nat} {ts : List String} (h : start + ts.length ≤ UInt32.size) :
    Ordered (numbered start ts) := by
  induction ts generalizing start with
  | nil => exact .nil
  | cons t ts ih =>
    rw [List.length_cons] at h
    have hrest : Ordered (numbered (start + 1) ts) := ih (by omega)
    rw [numbered]
    split
    · exact hrest
    · refine List.pairwise_cons.mpr ⟨fun l hl => ?_, hrest⟩
      obtain ⟨i, hindex, -⟩ := getElem?_of_mem_numbered hl (by omega)
      rw [UInt32.lt_iff_toNat_lt, hindex, Origin.ofIndex, UInt32.toNat_ofNat',
        Nat.mod_eq_of_lt (show start < UInt32.size by omega)]
      omega

/-- Below 2³² lines the lines of a text stand below each other. -/
theorem ordered_scriptLines {content : String} (hlen : lineCount content < UInt32.size) :
    Ordered (scriptLines (withoutReturns content)) := by
  refine ordered_numbered ?_
  rw [Nat.zero_add]
  exact hlen.le

/-- So no two of them stand at the same place. -/
theorem nodup_scriptLines {content : String} (hlen : lineCount content < UInt32.size) :
    (indices (scriptLines (withoutReturns content))).Nodup :=
  (ordered_iff.mp (ordered_scriptLines hlen)).imp UInt32.ne_of_lt

/-! ## Runs and branches -/

/-- All lines of a run stand above all lines of the other. -/
def Run.Above (r r' : Run) : Prop :=
  ∀ l ∈ r.1 :: r.2, ∀ m ∈ r'.1 :: r'.2, l.origin.lineIndex < m.origin.lineIndex

/-- Runs, one after the other, are the lines that were cut, apart from blank ones. -/
theorem indices_runsOf_sublist (lines : List ScriptLine) :
    (indices ((runsOf lines).1 ++ (runsOf lines).2.flatMap fun r => r.1 :: r.2)).Sublist
      (indices lines) := by
  induction lines with
  | nil => exact .slnil
  | cons l rest ih =>
    by_cases hi : l.isIndented = true
    · rw [runsOf]
      simp only [hi, if_true]
      split
      · exact ih.trans (List.sublist_cons_self _ _)
      · exact ih.cons_cons _
    · rw [runsOf_cons_label (by simpa using hi)]
      exact ih.cons_cons _

/-- Each run of ordered lines is ordered, and lies above those after it. -/
theorem ordered_runsOf {lines : List ScriptLine} (h : Ordered lines) :
    (∀ r ∈ (runsOf lines).2, Ordered (r.1 :: r.2)) ∧ (runsOf lines).2.Pairwise Run.Above := by
  have hall : Ordered ((runsOf lines).1 ++ (runsOf lines).2.flatMap fun r => r.1 :: r.2) :=
    ordered_iff.mpr ((ordered_iff.mp h).sublist (indices_runsOf_sublist lines))
  exact List.pairwise_flatMap.mp (List.pairwise_append.mp hall).2.1

theorem exists_run_of_lastContent {label : String} {runs : List Run}
    (h : lastContent label runs ≠ []) :
    ∃ r ∈ runs, r.1.text = label ∧ lastContent label runs = r.2 := by
  induction runs with
  | nil => exact absurd rfl h
  | cons r runs ih =>
    rw [lastContent] at h ⊢
    split at h
    · next hlast =>
      rw [if_pos hlast]
      exact ⟨r, by simp, of_decide_eq_true (Bool.and_eq_true_iff.mp hlast).1, rfl⟩
    · next hlast =>
      rw [if_neg hlast]
      obtain ⟨x, hx, hlabel, hcontent⟩ := ih h
      exact ⟨x, List.mem_cons_of_mem _ hx, hlabel, hcontent⟩

/-- The lines that a branch is read from: its content, or its label if it has none. -/
def Run.kept (b : Run) : List ScriptLine := if b.2 = [] then [b.1] else b.2

theorem Run.kept_subset (r : Run) : r.kept ⊆ r.1 :: r.2 := by
  rw [kept]
  split
  · simp
  · exact List.subset_cons_self _ _

/-- What a branch is read from is in one run of its label. -/
theorem exists_run_of_mem_branchesOf {runs : List Run} {b : Run} (h : b ∈ branchesOf runs) :
    ∃ r ∈ runs, r.1.text = b.1.text ∧ b.kept ⊆ r.1 :: r.2 := by
  obtain ⟨l, hl, rfl⟩ := List.mem_map.mp h
  by_cases hempty : lastContent l.text runs = []
  · obtain ⟨r, hr, rfl⟩ := mem_of_mem_freshLabels hl
    exact ⟨r, hr, rfl, by simp [Run.kept, hempty]⟩
  · obtain ⟨r, hr, hlabel, hcontent⟩ := exists_run_of_lastContent hempty
    refine ⟨r, hr, hlabel, ?_⟩
    rw [Run.kept, if_neg hempty, hcontent]
    exact List.subset_cons_self _ _

theorem pairwise_freshLabels (seen : List String) (runs : List Run) :
    (∀ l ∈ freshLabels seen runs, l.text ∉ seen) ∧
      (freshLabels seen runs).Pairwise fun l m => l.text ≠ m.text := by
  induction runs generalizing seen with
  | nil => simp [freshLabels]
  | cons r runs ih =>
    rw [freshLabels]
    split
    · exact ih seen
    · next hr =>
      obtain ⟨hnew, hdistinct⟩ := ih (r.1.text :: seen)
      simp only [List.mem_cons, not_or] at hnew
      refine ⟨List.forall_mem_cons.mpr ⟨by simpa using hr, fun l hl => (hnew l hl).2⟩, ?_⟩
      exact List.pairwise_cons.mpr ⟨fun l hl heq => (hnew l hl).1 heq.symm, hdistinct⟩

/-- No two branches have the same label. -/
theorem pairwise_branchesOf (runs : List Run) :
    (branchesOf runs).Pairwise fun b b' => b.1.text ≠ b'.1.text :=
  List.pairwise_map.mpr (pairwise_freshLabels [] runs).2

/-! ## Where errors are -/

/-- What holds of the places of lines holds of those of the errors in them. -/
theorem mem_indices_of_readLines {lines : List ScriptLine} {e : LineError}
    (h : e ∈ (readLines stage lines).errors) : e.origin.lineIndex ∈ indices lines := by
  rw [readLines, Reading.errors_collect, readSections_eq_map, List.flatMap_map] at h
  obtain ⟨s, hs, he⟩ := List.mem_flatMap.mp h
  obtain ⟨k, t, ht, hmem⟩ := errors_readSection s e he
  exact (standing_of_outline (p := fun _ l => l.origin.lineIndex ∈ indices lines)
    (fun _ _ _ hl => hl) (k := 0) (fun l hl => List.mem_map_of_mem hl) s hs k t ht).2 _ hmem

theorem mem_indices_of_blockSection {header : ScriptLine} {body : List ScriptLine}
    (hkind : header.kind = .choice) {e : LineError}
    (h : e ∈ (readSection stage (blockSection outline header body)).errors) :
    e.origin.lineIndex ∈ indices (header :: body) := by
  have hlines : ∀ l ∈ header :: body, l.origin.lineIndex ∈ indices (header :: body) :=
    fun l hl => List.mem_map_of_mem hl
  obtain ⟨hheader, hbody⟩ := List.forall_mem_cons.mp hlines
  obtain ⟨k, t, ht, hmem⟩ := errors_readSection _ e h
  exact (standing_of_blockSection (p := fun _ l => l.origin.lineIndex ∈ indices (header :: body))
    (k := 0) (fun _ _ _ hl => hl) hheader hkind hbody
    (fun _ _ hl => standing_of_outline (k := 1)
      (p := fun _ l => l.origin.lineIndex ∈ indices (header :: body)) (fun _ _ _ hl => hl) hl)
    ht).2 _ hmem

theorem mem_askerErrors {header : ScriptLine} {e : LineError} (h : e ∈ askerErrors stage header) :
    e.origin = header.origin := by
  unfold askerErrors at h
  split at h
  · simp at h
  · rw [List.mem_singleton.mp h]
    rfl

theorem inLineOrder_of_same {errors : List LineError} {o : Origin}
    (h : ∀ e ∈ errors, e.origin = o) : InLineOrder errors := by
  refine List.pairwise_of_forall_mem_list fun e he e' he' => ?_
  rw [h e he, h e' he']
  exact UInt32.le_refl _

/-! ## Faults of branches -/

/-- What is wrong with a branch. -/
def branchFaults (stage : Stage) (b : ScriptLine × List Section) : List LineError :=
  (readBranch b.1 (readSections stage b.2)).errors

/-- The line at which a branch begins: the first of its content, or its label without content. -/
def branchHead (b : ScriptLine × List Section) : ScriptLine :=
  (b.2.head?.map Section.head).getD b.1

/-- The branch that a run is outlined as. -/
def Run.outlined (b : Run) : ScriptLine × List Section := (b.1, outline b.2)

/-- If labels of a choice are repeated, its broken branches still come in the order in which they
begin. -/
def Section.InTurn (stage : Stage) : Section → Prop
  | choice _ repeats branches => repeats ≠ [] → branches.Pairwise fun b b' =>
      branchFaults stage b ≠ [] → branchFaults stage b' ≠ [] →
        (branchHead b).origin.lineIndex ≤ (branchHead b').origin.lineIndex
  | _ => True

theorem head_blockSection (inner : List ScriptLine → List Section) (header : ScriptLine)
    (body : List ScriptLine) : (blockSection inner header body).head = header := by
  cases body with
  | nil => rfl
  | cons l body =>
    rw [blockSection]
    split <;> rfl

theorem head_outline_cons (l : ScriptLine) (rest : List ScriptLine) :
    (outline (l :: rest)).head?.map Section.head = some l := by
  rw [outline_cons]
  split
  · cases takeBlock rest with
    | none => rfl
    | some parts => exact congrArg some (head_blockSection outline l parts.1)
  · rfl

/-- A branch begins at a line that it is read from. -/
theorem branchHead_mem_kept (b : Run) : branchHead b.outlined ∈ b.kept := by
  obtain ⟨label, content⟩ := b
  cases content with
  | nil => simp [branchHead, Run.outlined, Run.kept]
  | cons l rest => simp [branchHead, Run.outlined, Run.kept, head_outline_cons]

/-- All that is wrong with a branch is where it is read from. -/
theorem mem_kept_of_branchFaults {b : Run} {e : LineError}
    (h : e ∈ branchFaults stage b.outlined) : e.origin.lineIndex ∈ indices b.kept := by
  rw [branchFaults, Run.outlined, errors_readBranch] at h
  rw [Run.kept]
  split at h
  · next hempty =>
    rw [if_pos hempty, List.mem_singleton.mp h]
    exact List.mem_cons_self
  · next hsome =>
    rw [if_neg hsome]
    exact mem_indices_of_readLines h

/-- A branch and all that is wrong with it lie in one run of its label. -/
theorem exists_run_of_branch (stage : Stage) {runs : List Run} {b : Run}
    (h : b ∈ branchesOf runs) :
    ∃ r ∈ runs, r.1.text = b.1.text ∧ branchHead b.outlined ∈ r.1 :: r.2 ∧
      ∀ e ∈ branchFaults stage b.outlined, e.origin.lineIndex ∈ indices (r.1 :: r.2) := by
  obtain ⟨r, hr, hlabel, hkept⟩ := exists_run_of_mem_branchesOf h
  exact ⟨r, hr, hlabel, hkept (branchHead_mem_kept b),
    fun e he => List.map_subset _ hkept (mem_kept_of_branchFaults he)⟩

theorem Run.Above.lt {r r' : Run} (h : r.Above r') {i j : UInt32} (hi : i ∈ indices (r.1 :: r.2))
    (hj : j ∈ indices (r'.1 :: r'.2)) : i < j := by
  obtain ⟨l, hl, rfl⟩ := List.mem_map.mp hi
  obtain ⟨m, hm, rfl⟩ := List.mem_map.mp hj
  exact h l hl m hm

/-- Of two runs one lies above the other. -/
theorem above_or_above {runs : List Run} (h : runs.Pairwise Run.Above) {r r' : Run} (hr : r ∈ runs)
    (hr' : r' ∈ runs) (hne : r ≠ r') : r.Above r' ∨ r'.Above r := by
  have hsymm : Std.Symm fun r r' : Run => r.Above r' ∨ r'.Above r := ⟨fun _ _ => Or.symm⟩
  have heither : runs.Pairwise fun r r' => r.Above r' ∨ r'.Above r := h.imp Or.inl
  exact heither.forall hr hr' hne

/-- Two branches lie apart: the faults of one come before those of the other if and only if, both
being broken, it begins before the other. -/
theorem faults_apart {runs : List Run} (hruns : runs.Pairwise Run.Above) {b b' : Run}
    (hb : b ∈ branchesOf runs) (hb' : b' ∈ branchesOf runs) (hne : b.1.text ≠ b'.1.text) :
    (∀ e ∈ branchFaults stage b.outlined, ∀ e' ∈ branchFaults stage b'.outlined,
      e.origin.lineIndex ≤ e'.origin.lineIndex) ↔
    (branchFaults stage b.outlined ≠ [] → branchFaults stage b'.outlined ≠ [] →
      (branchHead b.outlined).origin.lineIndex ≤ (branchHead b'.outlined).origin.lineIndex) := by
  obtain ⟨r, hr, hlabel, hhead, hfaults⟩ := exists_run_of_branch stage hb
  obtain ⟨r', hr', hlabel', hhead', hfaults'⟩ := exists_run_of_branch stage hb'
  have hdistinct : r ≠ r' := by
    rintro rfl
    exact hne (hlabel.symm.trans hlabel')
  rcases above_or_above hruns hr hr' hdistinct with habove | hbelow
  · constructor
    · exact fun _ _ _ => UInt32.le_of_lt (habove _ hhead _ hhead')
    · exact fun _ e he e' he' => UInt32.le_of_lt (habove.lt (hfaults e he) (hfaults' e' he'))
  · constructor
    · intro horder hsome hsome'
      obtain ⟨e, he⟩ := List.exists_mem_of_ne_nil _ hsome
      obtain ⟨e', he'⟩ := List.exists_mem_of_ne_nil _ hsome'
      exact absurd (hbelow.lt (hfaults' e' he') (hfaults e he))
        (UInt32.not_lt.mpr (horder e he e' he'))
    · intro horder e he e' he'
      exact absurd (hbelow _ hhead' _ hhead)
        (UInt32.not_lt.mpr (horder (List.ne_nil_of_mem he) (List.ne_nil_of_mem he')))

/-! ## Sections -/

/-- Every choice of the section, however deep, has its broken branches in turn. -/
def Section.InTurnWithin (stage : Stage) (s : Section) : Prop :=
  ∀ k t, s.Within k t → t.InTurn stage

theorem Section.inTurnWithin_line (l : ScriptLine) : (Section.line l).InTurnWithin stage := by
  intro k t ht
  cases ht
  trivial

theorem Section.inTurnWithin_flawed (header : ScriptLine) (flaw : BlockFlaw) :
    (Section.flawed header flaw).InTurnWithin stage := by
  intro k t ht
  cases ht
  trivial

theorem Section.inTurnWithin_choice {header : ScriptLine} {repeats : List ScriptLine}
    {branches : List (ScriptLine × List Section)} :
    (Section.choice header repeats branches).InTurnWithin stage ↔
      (Section.choice header repeats branches).InTurn stage ∧
        ∀ b ∈ branches, ∀ s ∈ b.2, s.InTurnWithin stage := by
  constructor
  · exact fun h => ⟨h 0 _ (.self _), fun b hb s hs k t ht => h (k + 1) t (.branch hb hs ht)⟩
  · rintro ⟨hself, hbranches⟩ k t ht
    cases ht with
    | self => exact hself
    | branch hb hs ht => exact hbranches _ hb _ hs _ t ht

theorem errors_choice (header : ScriptLine) (repeats : List ScriptLine)
    (branches : List (ScriptLine × List Section)) :
    (readSection stage (.choice header repeats branches)).errors =
      askerErrors stage header ++ branches.flatMap (branchFaults stage) := by
  rw [readSection, errors_readChoice, errors_readAsker, Reading.errors_collect,
    readBranches_eq_map, List.flatMap_map]
  rfl

/-- The errors of a block that cannot be cut are at its header, but for the misplaced line. -/
theorem inLineOrder_flawed {header : ScriptLine} {flaw : BlockFlaw}
    (h : header.origin.lineIndex ≤ (flawError header flaw).origin.lineIndex) :
    InLineOrder (readSection stage (.flawed header flaw)).errors := by
  rw [readSection_flawed]
  refine List.pairwise_append.mpr
    ⟨inLineOrder_of_same fun e he => mem_askerErrors he, List.pairwise_singleton _ _, ?_⟩
  intro e he e' he'
  rw [mem_askerErrors he, List.mem_singleton.mp he']
  exact h

theorem mem_indices_of_run {lines : List ScriptLine} {r : Run} (hr : r ∈ (runsOf lines).2)
    {i : UInt32} (hi : i ∈ indices (r.1 :: r.2)) : i ∈ indices lines := by
  obtain ⟨l, hl, rfl⟩ := List.mem_map.mp hi
  refine (indices_runsOf_sublist lines).subset (List.mem_map_of_mem ?_)
  exact List.mem_append_right _ (List.mem_flatMap.mpr ⟨r, hr, hl⟩)

/-- The content of a branch is ordered if the lines of its block are. -/
theorem ordered_of_mem_branchesOf {lines : List ScriptLine} (h : Ordered lines) {b : Run}
    (hb : b ∈ branchesOf (runsOf lines).2) : Ordered b.2 := by
  obtain ⟨l, -, rfl⟩ := List.mem_map.mp hb
  by_cases hempty : lastContent l.text (runsOf lines).2 = []
  · rw [hempty]
    exact .nil
  · obtain ⟨r, hr, -, hcontent⟩ := exists_run_of_lastContent hempty
    rw [hcontent]
    exact (List.pairwise_cons.mp ((ordered_runsOf h).1 r hr)).2

/-- The faults of a branch are in order if its content is read in order. -/
theorem inLineOrder_branchFaults {b : Run}
    (h : InLineOrder (readLines stage b.2).errors ↔ ∀ s ∈ outline b.2, s.InTurnWithin stage) :
    InLineOrder (branchFaults stage b.outlined) ↔ ∀ s ∈ b.outlined.2, s.InTurnWithin stage := by
  rw [branchFaults, Run.outlined, errors_readBranch]
  split
  · next hempty =>
    rw [hempty]
    exact iff_of_true (List.pairwise_singleton _ _) (by simp)
  · exact h

/-- Branches whose labels are all different begin one below the other. -/
theorem inTurn_of_unrepeated {runs : List Run} (hruns : runs.Pairwise Run.Above)
    (h : repeatedLabels [] runs = []) :
    ((branchesOf runs).map Run.outlined).Pairwise fun b b' =>
      (branchHead b).origin.lineIndex ≤ (branchHead b').origin.lineIndex := by
  rw [branchesOf_of_nodup (repeatedLabels_eq_nil_iff.mp h).1, List.pairwise_map]
  exact hruns.imp fun {r r'} habove => UInt32.le_of_lt
    (habove _ (r.kept_subset (branchHead_mem_kept r)) _ (r'.kept_subset (branchHead_mem_kept r')))

/-- The faults of all branches are in order if those of each are, and the broken ones begin one below
the other. -/
theorem inLineOrder_branches {runs : List Run} (hruns : runs.Pairwise Run.Above)
    (header : ScriptLine) :
    InLineOrder (((branchesOf runs).map Run.outlined).flatMap (branchFaults stage)) ↔
      (Section.choice header (repeatedLabels [] runs)
        ((branchesOf runs).map Run.outlined)).InTurn stage ∧
        ∀ b ∈ branchesOf runs, InLineOrder (branchFaults stage b.outlined) := by
  have hdistinct := pairwise_branchesOf runs
  rw [InLineOrder, List.flatMap_map, List.pairwise_flatMap, and_comm]
  refine and_congr ⟨fun h _ => ?_, fun h => ?_⟩ Iff.rfl
  · exact List.pairwise_map.mpr <| (hdistinct.and h).imp_of_mem fun hb hb' hpair =>
      (faults_apart hruns hb hb' hpair.1).mp hpair.2
  · have hturn : (branchesOf runs).Pairwise fun b b' =>
        branchFaults stage b.outlined ≠ [] → branchFaults stage b'.outlined ≠ [] →
          (branchHead b.outlined).origin.lineIndex ≤
            (branchHead b'.outlined).origin.lineIndex := by
      by_cases hrepeats : repeatedLabels [] runs = []
      · exact (List.pairwise_map.mp (inTurn_of_unrepeated hruns hrepeats)).imp
          fun hle _ _ => hle
      · exact List.pairwise_map.mp (h hrepeats)
    exact (hdistinct.and hturn).imp_of_mem fun hb hb' hpair =>
      (faults_apart hruns hb hb' hpair.1).mpr hpair.2

/-- A choice is read in order if and only if all choices in it have their branches in turn, given the
same for its branches. -/
theorem inLineOrder_choice {header : ScriptLine} {body : List ScriptLine}
    (h : Ordered (header :: body))
    (ih : ∀ b ∈ branchesOf (runsOf body).2, (InLineOrder (readLines stage b.2).errors ↔
      ∀ s ∈ outline b.2, s.InTurnWithin stage)) :
    InLineOrder (readSection stage
        (.choice header (repeatedLabels [] (runsOf body).2)
          ((branchesOf (runsOf body).2).map Run.outlined))).errors ↔
      (Section.choice header (repeatedLabels [] (runsOf body).2)
        ((branchesOf (runsOf body).2).map Run.outlined)).InTurnWithin stage := by
  obtain ⟨hheader, hbody⟩ := List.pairwise_cons.mp h
  have hasker : InLineOrder (askerErrors stage header) :=
    inLineOrder_of_same fun e he => mem_askerErrors he
  have hbelow : ∀ e ∈ askerErrors stage header,
      ∀ e' ∈ ((branchesOf (runsOf body).2).map Run.outlined).flatMap (branchFaults stage),
        e.origin.lineIndex ≤ e'.origin.lineIndex := by
    intro e he e' he'
    rw [List.flatMap_map] at he'
    obtain ⟨b, hb, he'⟩ := List.mem_flatMap.mp he'
    obtain ⟨r, hr, -, -, hfaults⟩ := exists_run_of_branch stage hb
    obtain ⟨m, hm, hindex⟩ := List.mem_map.mp (mem_indices_of_run hr (hfaults e' he'))
    rw [mem_askerErrors he, ← hindex]
    exact UInt32.le_of_lt (hheader m hm)
  rw [Section.inTurnWithin_choice, errors_choice, InLineOrder, List.pairwise_append,
    ← InLineOrder, ← InLineOrder, inLineOrder_branches (ordered_runsOf hbody).2 header,
    List.forall_mem_map]
  constructor
  · rintro ⟨-, ⟨hturn, hfaults⟩, -⟩
    exact ⟨hturn, fun b hb => (inLineOrder_branchFaults (ih b hb)).mp (hfaults b hb)⟩
  · rintro ⟨hturn, hwithin⟩
    exact ⟨hasker,
      ⟨hturn, fun b hb => (inLineOrder_branchFaults (ih b hb)).mpr (hwithin b hb)⟩, hbelow⟩

theorem inLineOrder_blockSection {header : ScriptLine} {body : List ScriptLine}
    (h : Ordered (header :: body))
    (ih : ∀ lines, lines.length ≤ body.length → Ordered lines →
      (InLineOrder (readLines stage lines).errors ↔ ∀ s ∈ outline lines, s.InTurnWithin stage)) :
    InLineOrder (readSection stage (blockSection outline header body)).errors ↔
      (blockSection outline header body).InTurnWithin stage := by
  obtain ⟨hheader, hbody⟩ := List.pairwise_cons.mp h
  cases body with
  | nil =>
    exact iff_of_true (inLineOrder_flawed (UInt32.le_refl _)) (Section.inTurnWithin_flawed _ _)
  | cons l rest =>
    rw [blockSection]
    split
    · exact iff_of_true (inLineOrder_flawed (UInt32.le_of_lt (hheader l (by simp))))
        (Section.inTurnWithin_flawed _ _)
    · exact inLineOrder_choice h fun b hb =>
        ih b.2 (length_of_mem_branchesOf hb) (ordered_of_mem_branchesOf hbody hb)

/-- The errors of a section and of the lines below it are in order if those of each are. -/
theorem inLineOrder_readLines_of_outline {lines after : List ScriptLine} {s : Section}
    (houtline : outline lines = s :: outline after)
    (hbelow : ∀ e ∈ (readSection stage s).errors, ∀ i ∈ indices after, e.origin.lineIndex < i)
    (hs : InLineOrder (readSection stage s).errors ↔ s.InTurnWithin stage)
    (hafter : InLineOrder (readLines stage after).errors ↔
      ∀ s ∈ outline after, s.InTurnWithin stage) :
    InLineOrder (readLines stage lines).errors ↔ ∀ s ∈ outline lines, s.InTurnWithin stage := by
  have herrors : (readLines stage lines).errors =
      (readSection stage s).errors ++ (readLines stage after).errors := by
    rw [readLines, readLines, houtline, readSections, Reading.errors_collect,
      Reading.errors_collect, List.flatMap_cons]
  rw [herrors, houtline, List.forall_mem_cons, ← hs, ← hafter, InLineOrder, List.pairwise_append]
  constructor
  · rintro ⟨hfirst, hrest, -⟩
    exact ⟨hfirst, hrest⟩
  · rintro ⟨hfirst, hrest⟩
    exact ⟨hfirst, hrest, fun e he e' he' =>
      UInt32.le_of_lt (hbelow e he _ (mem_indices_of_readLines he'))⟩

/-- Ordered lines are read in order if and only if all their choices have their branches in turn. -/
theorem inLineOrder_readLines {lines : List ScriptLine} (h : Ordered lines) :
    InLineOrder (readLines stage lines).errors ↔ ∀ s ∈ outline lines, s.InTurnWithin stage := by
  -- contents of branches and what comes after a block are both shorter
  induction hn : lines.length using Nat.strongRecOn generalizing lines with
  | _ n ih =>
    cases lines with
    | nil => exact iff_of_true .nil (by simp)
    | cons l rest =>
      rw [List.length_cons] at hn
      obtain ⟨hl, hrest⟩ := List.pairwise_cons.mp h
      by_cases hkind : l.kind = .choice
      · cases hb : takeBlock rest with
        | none =>
          have houtline : outline (l :: rest) = .flawed l .unclosed :: outline [] := by
            rw [outline_cons, if_pos hkind, hb, outline_nil]
          refine inLineOrder_readLines_of_outline houtline (by simp [indices]) ?_ ?_
          · exact iff_of_true (inLineOrder_flawed (UInt32.le_refl _))
              (Section.inTurnWithin_flawed _ _)
          · exact iff_of_true .nil (by simp)
        | some parts =>
          obtain ⟨body, after⟩ := parts
          have hlen := length_of_takeBlock hb
          have houtline : outline (l :: rest) = blockSection outline l body :: outline after := by
            rw [outline_cons, if_pos hkind, hb]
          obtain ⟨last, -, rfl, -⟩ := eq_append_of_takeBlock hb
          rw [← List.cons_append] at h
          obtain ⟨hblock, hlastAfter, hapart⟩ := List.pairwise_append.mp h
          refine inLineOrder_readLines_of_outline houtline (fun e he i hi => ?_)
            (inLineOrder_blockSection hblock fun ls hle hls => ih ls.length (by omega) hls rfl)
            (ih after.length (by omega) (List.pairwise_cons.mp hlastAfter).2 rfl)
          obtain ⟨x, hx, hindex⟩ := List.mem_map.mp (mem_indices_of_blockSection hkind he)
          obtain ⟨m, hm, rfl⟩ := List.mem_map.mp hi
          rw [← hindex]
          exact hapart x hx m (List.mem_cons_of_mem _ hm)
      · have houtline : outline (l :: rest) = .line l :: outline rest := by
          rw [outline_cons, if_neg hkind]
        have hsame : ∀ e ∈ (readLine stage l).errors, e.origin = l.origin := by
          intro e he
          obtain ⟨fault, -, rfl⟩ := has_of_readLine he
          rfl
        refine inLineOrder_readLines_of_outline houtline (fun e he i hi => ?_)
          (iff_of_true (inLineOrder_of_same hsame) (Section.inTurnWithin_line l))
          (ih rest.length (by omega) hrest rfl)
        obtain ⟨m, hm, rfl⟩ := List.mem_map.mp hi
        rw [hsame e he]
        exact hl m hm

/-! ## Texts -/

/-- Below 2³² lines the errors of a rejected text are in the order of their lines if and only if, in
every choice that repeats a label, the broken branches come in the order in which they begin. -/
theorem inLineOrder_readScript_iff (stage : Stage) {content : String}
    (hlen : lineCount content < UInt32.size) {es : List LineError}
    (hread : (readScript stage content).result = .error es) :
    InLineOrder es ↔
      ∀ s ∈ outline (scriptLines (withoutReturns content)), ∀ k t, s.Within k t →
        t.InTurn stage := by
  have hordered : Ordered (scriptLines (withoutReturns content)) := by
    refine ordered_numbered ?_
    rw [Nat.zero_add]
    exact hlen.le
  have herrors : (readLines stage (scriptLines (withoutReturns content))).errors = es := by
    rw [← readScript, Reading.errors, hread]
  rw [← herrors]
  exact inLineOrder_readLines hordered

/-- A text that repeats a label at once: both its branches are broken, and the one that is started over
still begins first. -/
def brokenInTurnText : String := "?Fox\nA\n Fox: hi\nA\n Fox\nB\nEND"

theorem inLineOrder_brokenInTurnText :
    lineCount brokenInTurnText < UInt32.size ∧
      ∃ es, (readScript .bare brokenInTurnText).result = .error es ∧
        (InLineOrder es ↔
          ∀ s ∈ outline (scriptLines (withoutReturns brokenInTurnText)), ∀ k t, s.Within k t →
            t.InTurn .bare) := by
  have hlen : lineCount brokenInTurnText < UInt32.size := by decide +kernel
  have hsome : (readScript .bare brokenInTurnText).errors ≠ [] := by decide +kernel
  have hread := Reading.result_of_errors_ne_nil hsome
  exact ⟨hlen, _, hread, inLineOrder_readScript_iff .bare hlen hread⟩

/-- A text in which a label is started over below a branch that is broken too. -/
def restartedErrorsText : String :=
  "?Fox\nA\n Fox: hi\nB\n broken\nA\n broken too\nEND"

/-- Its errors are not in the order of their lines: the last line comes first. -/
theorem not_inLineOrder_restartedErrorsText :
    lineCount restartedErrorsText < UInt32.size ∧
      ∃ es, (readScript .bare restartedErrorsText).result = .error es ∧
        es.map (·.origin) = [.ofIndex 6, .ofIndex 4] ∧ ¬ InLineOrder es := by
  have horigins : (readScript .bare restartedErrorsText).errors.map (·.origin) =
      [.ofIndex 6, .ofIndex 4] := by decide +kernel
  have hsome : (readScript .bare restartedErrorsText).errors ≠ [] := by decide +kernel
  have hread := Reading.result_of_errors_ne_nil hsome
  exact ⟨by decide +kernel, _, hread, horigins, by decide +kernel⟩

end Promptbook.Script
