import Promptbook.Script.Reader

set_option autoImplicit false

/-!
# Scripts as trees

Statements and sections hold lists of themselves in the branches of a choice.  `Statement.induction`
and `Section.induction` are the two inductions over these trees, with a hypothesis for every member
of every branch.  `Statement.revise` changes origins and cues everywhere in a tree and nothing else.
-/

namespace Promptbook.Script

/-! ## Induction -/

/-- Induction over statements; a choice comes with the property of all that is in its branches. -/
@[elab_as_elim]
theorem Statement.induction {motive : Statement → Prop}
    (dialogue : ∀ speech, motive (.dialogue speech))
    (animation : ∀ cues, motive (.animation cues))
    (store : ∀ assignment, motive (.store assignment))
    (choice : ∀ asker branches origin,
      (∀ b ∈ branches, ∀ s ∈ b.2, motive s) → motive (.choice asker branches origin))
    (s : Statement) : motive s := by
  refine @Statement.rec motive (fun branches => ∀ b ∈ branches, ∀ s ∈ b.2, motive s)
    (fun b => ∀ s ∈ b.2, motive s) (fun script => ∀ s ∈ script, motive s) dialogue animation store
    ?_ ?_ ?_ ?_ ?_ ?_ s
  · exact fun asker branches origin ih => choice asker branches origin ih
  · simp
  · intro b rest hb hrest
    simpa using ⟨hb, by simpa using hrest⟩
  · exact fun label script ih => ih
  · simp
  · intro s rest hs hrest
    simpa using ⟨hs, hrest⟩

/-- Induction over sections; a choice comes with the property of all sections in its branches. -/
@[elab_as_elim]
theorem Section.induction {motive : Section → Prop}
    (line : ∀ l, motive (.line l))
    (flawed : ∀ header flaw, motive (.flawed header flaw))
    (choice : ∀ header repeats branches,
      (∀ b ∈ branches, ∀ s ∈ b.2, motive s) → motive (.choice header repeats branches))
    (s : Section) : motive s := by
  refine @Section.rec motive (fun branches => ∀ b ∈ branches, ∀ s ∈ b.2, motive s)
    (fun b => ∀ s ∈ b.2, motive s) (fun sections => ∀ s ∈ sections, motive s) line flawed
    ?_ ?_ ?_ ?_ ?_ ?_ s
  · exact fun header repeats branches ih => choice header repeats branches ih
  · simp
  · intro b rest hb hrest
    simpa using ⟨hb, by simpa using hrest⟩
  · exact fun label content ih => ih
  · simp
  · intro s rest hs hrest
    simpa using ⟨hs, hrest⟩

/-! ## Revision -/

mutual

/-- The statement with all its origins and cues changed. -/
def Statement.revise (place : Origin → Origin) (recast : Cue → Cue) : Statement → Statement
  | .dialogue speech => .dialogue { speech with origin := place speech.origin }
  | .animation cues => .animation (cues.map recast)
  | .store assignment => .store assignment
  | .choice asker branches origin =>
      .choice asker (reviseBranches place recast branches) (place origin)

/-- The statements with all their origins and cues changed. -/
def reviseAll (place : Origin → Origin) (recast : Cue → Cue) : List Statement → List Statement
  | [] => []
  | s :: rest => s.revise place recast :: reviseAll place recast rest

/-- The branches with all their origins and cues changed. -/
def reviseBranches (place : Origin → Origin) (recast : Cue → Cue) :
    List (String × List Statement) → List (String × List Statement)
  | [] => []
  | (label, script) :: rest =>
      (label, reviseAll place recast script) :: reviseBranches place recast rest

end

theorem reviseAll_eq_map (place : Origin → Origin) (recast : Cue → Cue)
    (script : List Statement) :
    reviseAll place recast script = script.map (Statement.revise place recast) := by
  induction script with
  | nil => rfl
  | cons s rest ih => rw [reviseAll, ih, List.map_cons]

theorem reviseBranches_eq_map (place : Origin → Origin) (recast : Cue → Cue)
    (branches : List (String × List Statement)) :
    reviseBranches place recast branches =
      branches.map fun b => (b.1, reviseAll place recast b.2) := by
  induction branches with
  | nil => rfl
  | cons b rest ih => rw [reviseBranches, ih, List.map_cons]

end Promptbook.Script
