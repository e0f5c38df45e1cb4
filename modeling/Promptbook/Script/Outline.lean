import Promptbook.Script.Fault
import Promptbook.Script.Kind

set_option autoImplicit false

/-!
# The outline of a script

The block structure of a script can be seen without knowing what its names stand for.  A line that
begins a choice opens a block, which takes every line up to and including the next line that reads
exactly `END`.  In a block, unindented lines are labels and the indented lines below a label, with
one space removed, are a script of their own.

`runsOf` cuts the body of a block at its labels.  A label that appears again starts its branch over,
in the place where it first stood: the branches are the first runs, each with the content of the
last run of the same label, and the other runs are repeats.

`outline` reads the whole structure.  Its recursion is bounded by the number of lines; `outline_cons`
is the equation that it satisfies, in which no bound shows.
-/

namespace Promptbook.Script

/-! ## Blocks -/

/-- The lines before the first terminator and those after it, if there is one. -/
def takeBlock : List ScriptLine → Option (List ScriptLine × List ScriptLine)
  | [] => none
  | l :: rest =>
    if l.text = terminator then some ([], rest)
    else (takeBlock rest).map fun (body, after) => (l :: body, after)

/-- A label and the content below it. -/
abbrev Run := ScriptLine × List ScriptLine

/-- The content above the first label, and the runs from each label to the next. -/
def runsOf : List ScriptLine → List ScriptLine × List Run
  | [] => ([], [])
  | l :: rest =>
    let (content, runs) := runsOf rest
    if l.isIndented then
      (if l.outdented.isEmpty then content else l.outdented :: content, runs)
    else ([], (l, content) :: runs)

/-- The content of the last run with that label. -/
def lastContent (label : String) : List Run → List ScriptLine
  | [] => []
  | (l, content) :: runs =>
    if l.text = label && runs.all fun r => r.1.text ≠ label then content
    else lastContent label runs

/-- The labels that were not seen before. -/
def freshLabels (seen : List String) : List Run → List ScriptLine
  | [] => []
  | (l, _) :: runs =>
    if seen.contains l.text then freshLabels seen runs
    else l :: freshLabels (l.text :: seen) runs

/-- The labels that were seen before. -/
def repeatedLabels (seen : List String) : List Run → List ScriptLine
  | [] => []
  | (l, _) :: runs =>
    if seen.contains l.text then l :: repeatedLabels seen runs
    else repeatedLabels (l.text :: seen) runs

/-- The branches of a block: each label where it first stood, with its last content. -/
def branchesOf (runs : List Run) : List Run :=
  (freshLabels [] runs).map fun l => (l, lastContent l.text runs)

/-! ## Sections -/

/-- Why a block cannot be cut into branches. -/
inductive BlockFlaw where
  | unclosed
  | empty
  /-- Indented content comes before the first label. -/
  | misplaced (line : ScriptLine)
  deriving DecidableEq, Inhabited

/-- A part of a script that is one statement, if its names can be found. -/
inductive Section where
  | line (line : ScriptLine)
  | flawed (header : ScriptLine) (flaw : BlockFlaw)
  | choice (header : ScriptLine) (repeats : List ScriptLine)
      (branches : List (ScriptLine × List Section))
  deriving Inhabited

/-- The line at which a section begins. -/
def Section.head : Section → ScriptLine
  | line l => l
  | flawed h _ => h
  | choice h _ _ => h

/-- The section of a closed block, with `inner` for the content of its branches. -/
def blockSection (inner : List ScriptLine → List Section) (header : ScriptLine) :
    List ScriptLine → Section
  | [] => .flawed header .empty
  | l :: body =>
    if l.isIndented then .flawed header (.misplaced l)
    else
      let runs := (runsOf (l :: body)).2
      .choice header (repeatedLabels [] runs)
        ((branchesOf runs).map fun (label, content) => (label, inner content))

/-- The sections of at most `bound` lines. -/
def outlineWithin : Nat → List ScriptLine → List Section
  | 0, _ => []
  | _ + 1, [] => []
  | bound + 1, l :: rest =>
    if l.kind = .choice then
      match takeBlock rest with
      | none => [.flawed l .unclosed]
      | some (body, after) =>
        blockSection (outlineWithin bound) l body :: outlineWithin bound after
    else .line l :: outlineWithin bound rest

/-- The sections of a script, in order. -/
def outline (lines : List ScriptLine) : List Section := outlineWithin lines.length lines

/-! ## The bound does not show -/

theorem length_of_takeBlock {lines body after : List ScriptLine}
    (h : takeBlock lines = some (body, after)) :
    body.length + after.length + 1 = lines.length := by
  induction lines generalizing body with
  | nil => simp [takeBlock] at h
  | cons l rest ih =>
    rw [takeBlock] at h
    split at h
    · simp only [Option.some.injEq, Prod.mk.injEq] at h
      obtain ⟨rfl, rfl⟩ := h
      simp
    · obtain ⟨⟨b, a⟩, hb, he⟩ := Option.map_eq_some_iff.1 h
      simp only [Prod.mk.injEq] at he
      obtain ⟨rfl, rfl⟩ := he
      have := ih hb
      simp only [List.length_cons]
      omega

theorem length_runsOf (lines : List ScriptLine) :
    (runsOf lines).1.length ≤ lines.length ∧
      ∀ r ∈ (runsOf lines).2, r.2.length ≤ lines.length := by
  induction lines with
  | nil => simp [runsOf]
  | cons l rest ih =>
    obtain ⟨h1, h2⟩ := ih
    simp only [runsOf, List.length_cons]
    split
    · refine ⟨?_, fun r hr => Nat.le_succ_of_le (h2 r hr)⟩
      split
      · exact Nat.le_succ_of_le h1
      · simpa using h1
    · refine ⟨Nat.zero_le _, fun r hr => ?_⟩
      rcases List.mem_cons.1 hr with rfl | hr
      · exact Nat.le_succ_of_le h1
      · exact Nat.le_succ_of_le (h2 r hr)

theorem length_lastContent {runs : List Run} {n : Nat} (h : ∀ r ∈ runs, r.2.length ≤ n)
    (label : String) : (lastContent label runs).length ≤ n := by
  induction runs with
  | nil => simp [lastContent]
  | cons r runs ih =>
    rw [lastContent]
    split
    · exact h r (by simp)
    · exact ih fun r hr => h r (by simp [hr])

/-- The content of a branch has no more lines than the body of its block. -/
theorem length_of_mem_branchesOf {body : List ScriptLine} {r : Run}
    (h : r ∈ branchesOf (runsOf body).2) : r.2.length ≤ body.length := by
  obtain ⟨l, _, rfl⟩ := List.mem_map.1 h
  exact length_lastContent (length_runsOf body).2 l.text

theorem blockSection_congr {inner inner' : List ScriptLine → List Section} (header : ScriptLine)
    {body : List ScriptLine} (h : ∀ ls, ls.length ≤ body.length → inner ls = inner' ls) :
    blockSection inner header body = blockSection inner' header body := by
  cases body with
  | nil => rfl
  | cons l body =>
    rw [blockSection, blockSection]
    split
    · rfl
    · simp only [Section.choice.injEq, true_and]
      apply List.map_congr_left
      intro r hr
      rw [h r.2 (length_of_mem_branchesOf hr)]

theorem outlineWithin_eq {n m : Nat} {lines : List ScriptLine} (hn : lines.length ≤ n)
    (hm : lines.length ≤ m) : outlineWithin n lines = outlineWithin m lines := by
  induction n generalizing m lines with
  | zero =>
    have hnil : lines = [] := List.length_eq_zero_iff.1 (Nat.le_zero.1 hn)
    subst hnil
    cases m <;> rfl
  | succ n ih =>
    cases lines with
    | nil => cases m <;> rfl
    | cons l rest =>
      cases m with
      | zero => simp at hm
      | succ m =>
        simp only [List.length_cons, Nat.add_le_add_iff_right] at hn hm
        rw [outlineWithin, outlineWithin]
        split
        · cases hb : takeBlock rest with
          | none => rfl
          | some p =>
            obtain ⟨body, after⟩ := p
            have hlen := length_of_takeBlock hb
            have hafter : outlineWithin n after = outlineWithin m after :=
              ih (by omega) (by omega)
            have hblock : blockSection (outlineWithin n) l body =
                blockSection (outlineWithin m) l body :=
              blockSection_congr l fun ls hls => ih (by omega) (by omega)
            simp only [hafter, hblock]
        · rw [ih hn hm]

@[simp]
theorem outline_nil : outline [] = [] := rfl

/-- The outline begins with the section of its first line; a block takes its lines along. -/
theorem outline_cons (l : ScriptLine) (rest : List ScriptLine) :
    outline (l :: rest) =
      if l.kind = .choice then
        match takeBlock rest with
        | none => [.flawed l .unclosed]
        | some (body, after) => blockSection outline l body :: outline after
      else .line l :: outline rest := by
  rw [outline, List.length_cons, outlineWithin]
  split
  · cases hb : takeBlock rest with
    | none => rfl
    | some p =>
      obtain ⟨body, after⟩ := p
      have hlen := length_of_takeBlock hb
      have hafter : outlineWithin rest.length after = outline after :=
        outlineWithin_eq (by omega) (Nat.le_refl _)
      have hblock : blockSection (outlineWithin rest.length) l body =
          blockSection outline l body :=
        blockSection_congr l fun ls hls => outlineWithin_eq (by omega) (Nat.le_refl _)
      simp only [hafter, hblock]
  · rfl

end Promptbook.Script
