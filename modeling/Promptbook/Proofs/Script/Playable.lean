import Promptbook.Proofs.Script.Lossless

set_option autoImplicit false

/-!
# What an accepted script can be played with

A script that was accepted asks for nothing that the stage does not have: every choice in it has
branches, however deep it is nested, and every cue names an animation of its actor.

`playable_of_readLines` is by the length of the script, since the content of a branch is shorter
than its block.
-/

namespace Promptbook.Script

variable {stage : Stage}

/-- What has to hold of a statement, apart from those in its branches, so that nothing is missing
when it is played. -/
def Statement.Playable (stage : Stage) : Statement → Prop
  | dialogue _ => True
  | animation cues =>
      ∀ cue ∈ cues, stage.hasAnimation cue.performer.actor cue.animation = true
  | store _ => True
  | choice _ branches _ => branches ≠ []

/-- Collected values are as many as the readings, and each was read by one of these. -/
theorem Reading.mem_of_collect {α : Type} {rs : List (Reading α)} {as : List α}
    (hrs : ∀ r ∈ rs, r.Explained) (h : (collect rs).result = .ok as) :
    as.length = rs.length ∧ ∀ a ∈ as, ∃ r ∈ rs, r.result = .ok a := by
  induction rs generalizing as with
  | nil =>
    obtain rfl : [] = as := by simpa [collect] using h
    simp
  | cons r rs ih =>
    obtain ⟨hr, hrest⟩ := List.forall_mem_cons.mp hrs
    obtain ⟨a, rest, ha, hcollected, rfl⟩ := result_collect_cons hr h
    obtain ⟨hlen, hmem⟩ := ih hrest hcollected
    refine ⟨by simp [hlen], List.forall_mem_cons.mpr ⟨⟨r, by simp, ha⟩, fun b hb => ?_⟩⟩
    obtain ⟨r', hr', hb'⟩ := hmem b hb
    exact ⟨r', List.mem_cons_of_mem _ hr', hb'⟩

/-! ## Single lines -/

theorem hasAnimation_of_readCue {l : ScriptLine} {piece : List Char} {cue : Cue}
    (h : readCue stage l piece = .ok cue) :
    stage.hasAnimation cue.performer.actor cue.animation = true := by
  unfold readCue at h
  split at h
  · exact absurd h (by simp)
  · split at h
    · exact absurd h (by simp)
    · dsimp only at h
      split at h
      · next hfound =>
        obtain rfl := Except.ok.inj h
        exact hfound
      · exact absurd h (by simp)

theorem playable_of_readLine {l : ScriptLine} {s : Statement}
    (h : (readLine stage l).result = .ok s) : ∀ t ∈ s.parts, t.Playable stage := by
  unfold readLine at h
  split at h
  · obtain ⟨cues, hcues, rfl⟩ := Reading.result_map h
    have hplayable : (Statement.animation cues).Playable stage := by
      intro cue hcue
      obtain ⟨-, hmem⟩ := Reading.mem_of_collect (by simp [Reading.explained_ofExcept]) hcues
      obtain ⟨r, hr, hread⟩ := hmem cue hcue
      obtain ⟨piece, -, rfl⟩ := List.mem_map.mp hr
      exact hasAnimation_of_readCue (Reading.result_ofExcept hread)
    simpa [Statement.parts] using hplayable
  · obtain ⟨assignment, -, rfl⟩ := Reading.result_map h
    simp [Statement.parts, Statement.Playable]
  · obtain ⟨speech, -, rfl⟩ := Reading.result_map h
    simp [Statement.parts, Statement.Playable]

/-! ## Blocks -/

/-- A block that begins with a label has branches. -/
theorem branchesOf_ne_nil {l : ScriptLine} (hl : l.isIndented = false) (body : List ScriptLine) :
    branchesOf (runsOf (l :: body)).2 ≠ [] := by
  rw [runsOf_cons_label hl]
  simp [branchesOf, freshLabels]

/-- A block that was read as a choice has branches, and if the contents of all branches are playable
then so is everything in it. -/
theorem playable_of_blockSection {header : ScriptLine} {body : List ScriptLine} {s : Statement}
    (h : (readSection stage (blockSection outline header body)).result = .ok s)
    (ih : ∀ lines script, lines.length ≤ body.length → (readLines stage lines).result = .ok script →
      ∀ t ∈ partsOf script, t.Playable stage) :
    ∀ t ∈ s.parts, t.Playable stage := by
  cases body with
  | nil => exact absurd h result_readFlawed
  | cons l body =>
    rw [blockSection] at h
    split at h
    · exact absurd h result_readFlawed
    · next hl =>
      rw [readSection, readBranches_eq_map, List.map_map] at h
      obtain ⟨asker, branches, -, hcollected, rfl⟩ := result_readChoice h
      have hexplained : ∀ r ∈ (branchesOf (runsOf (l :: body)).2).map
          ((fun b => readBranch b.1 (readSections stage b.2)) ∘ fun r => (r.1, outline r.2)),
          r.Explained := by
        rw [List.forall_mem_map]
        exact fun run _ => explained_readBranch _ _
      obtain ⟨hlen, hmem⟩ := Reading.mem_of_collect hexplained hcollected
      rw [Statement.parts, List.forall_mem_cons]
      constructor
      · intro hnil
        rw [hnil, List.length_map] at hlen
        exact branchesOf_ne_nil (by simpa using hl) body (List.length_eq_zero_iff.mp hlen.symm)
      · intro t ht
        obtain ⟨b, hb, ht⟩ := mem_partsOfBranches.mp ht
        obtain ⟨r, hr, hread⟩ := hmem b hb
        obtain ⟨run, hrun, rfl⟩ := List.mem_map.mp hr
        obtain ⟨-, hscript, -⟩ := result_readBranch hread
        exact ih run.2 b.2 (length_of_mem_branchesOf hrun) hscript t ht

/-! ## Scripts -/

/-- Everything in a script that was read is playable. -/
theorem playable_of_readLines {lines : List ScriptLine} {script : List Statement}
    (h : (readLines stage lines).result = .ok script) : ∀ t ∈ partsOf script, t.Playable stage := by
  induction hn : lines.length using Nat.strongRecOn generalizing lines script with
  | _ n ih =>
    cases lines with
    | nil =>
      obtain rfl : [] = script := by simpa [readLines, readSections, Reading.collect] using h
      simp [partsOf]
    | cons l rest =>
      rw [List.length_cons] at hn
      rw [readLines, outline_cons] at h
      split at h
      · cases hb : takeBlock rest with
        | none =>
          rw [hb] at h
          obtain ⟨s, -, hs, -, -⟩ := Reading.result_collect_cons (explained_readSection _) h
          exact absurd hs result_readFlawed
        | some p =>
          obtain ⟨body, after⟩ := p
          rw [hb] at h
          have hlen := length_of_takeBlock hb
          obtain ⟨s, script, hs, hscript, rfl⟩ :=
            Reading.result_collect_cons (explained_readSection _) h
          rw [partsOf, List.forall_mem_append]
          exact ⟨playable_of_blockSection hs fun lines script hle hread =>
              ih lines.length (by omega) hread rfl,
            ih after.length (by omega) hscript rfl⟩
      · obtain ⟨s, script, hs, hscript, rfl⟩ :=
          Reading.result_collect_cons (explained_readSection _) h
        rw [partsOf, List.forall_mem_append]
        exact ⟨playable_of_readLine hs, ih rest.length (by omega) hscript rfl⟩

end Promptbook.Script
