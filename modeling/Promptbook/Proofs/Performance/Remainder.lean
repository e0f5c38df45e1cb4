import Promptbook.Proofs.Performance.Rundown
import Promptbook.Proofs.Script.Printing

set_option autoImplicit false

/-!
# What is still to come

Wherever a performance stands, what is left of it was in the script: the statements that come later,
the branches of a choice that is open and the cues that were not reached.  So what holds of every
statement of a script, however deep it is nested, holds of all that is still to come, whatever the
host does (`Spot.All.passes`).
-/

namespace Promptbook

open Script (Statement Cue)

variable {W κ : Type} {p : Statement → Prop}

/-- What is still to come of something in progress has a property; a cue has that of the statement
that it belongs to. -/
def Business.All (p : Statement → Prop) : Business κ → Prop
  | speaking _ _ _ | stored => True
  | playing parts => ∀ cue, .inr cue ∈ parts → ∃ cues, cue ∈ cues ∧ p (.animation cues)
  | choosing _ _ _ branches => ∀ b ∈ branches, ∀ t ∈ Script.partsOf b.2, p t

/-- Everything that is still to come has a property. -/
structure Spot.All (p : Statement → Prop) (spot : Spot κ) : Prop where
  now : ∀ business ∈ spot.now, business.All p
  later : ∀ t ∈ Script.partsOf spot.later, p t

namespace Spot.All

variable {host : Host W κ} {settings : Settings} {frame : Frame} {spot spot' : Spot κ} {w w' : W}
  {outcome : Outcome}

theorem script {later : List Statement} (h : ∀ t ∈ Script.partsOf later, p t) :
    (⟨none, later⟩ : Spot κ).All p := ⟨by simp, h⟩

theorem busy {business : Business κ} {later : List Statement} (hnow : business.All p)
    (hlater : ∀ t ∈ Script.partsOf later, p t) : Spot.All p ⟨some business, later⟩ :=
  ⟨fun _ hother => Option.some.inj hother ▸ hnow, hlater⟩

/-- The statement that comes next and those after it. -/
theorem next {s : Statement} {later : List Statement}
    (h : (⟨none, s :: later⟩ : Spot κ).All p) :
    (∀ t ∈ s.parts, p t) ∧ ∀ t ∈ Script.partsOf later, p t :=
  List.forall_mem_append.mp h.later

theorem move (h : spot.All p) (hmove : Move host settings frame spot w spot' w') :
    spot'.All p := by
  cases hmove with
  | speak _ => exact .busy trivial h.next.2
  | said _ => exact .script h.later
  | @play cues =>
    refine .busy (fun cue hcue => ⟨cues, ?_, h.next.1 _ (Statement.self_mem_parts _)⟩) h.next.2
    simpa using hcue
  | played _ => exact .script h.later
  | stored => exact .script h.later
  | ask _ => exact .busy (Statement.forall_partsOf_branch h.next.1) h.next.2
  | chose _ _ hbranch =>
    refine .script ?_
    rw [Script.partsOf_append, List.forall_mem_append]
    exact ⟨h.now _ rfl _ (List.mem_of_getElem? hbranch), h.later⟩

theorem halt (h : spot.All p) (hhalt : Halt host frame spot w outcome spot' w') : spot'.All p := by
  cases hhalt with
  | finished => exact h
  | store => exact .busy trivial h.next.2
  | speaking _ _ => exact .busy trivial h.later
  | playing _ =>
    exact .busy (fun cue hcue => h.now _ rfl cue (Host.mem_next_stepParts hcue)) h.later
  | choosing _ _ =>
    have hbranches := h.now _ rfl
    exact .busy hbranches h.later
  | unselected _ _ =>
    have hbranches := h.now _ rfl
    exact .busy hbranches h.later
  | invalid _ _ _ => exact .busy (by simp [Business.All]) h.later

/-- A frame takes nothing in that was not there before. -/
theorem passes (h : spot.All p) (hpasses : Passes host settings frame spot w outcome spot' w') :
    spot'.All p := by
  induction hpasses with
  | halt hhalt => exact h.halt hhalt
  | move hmove _ ih => exact ih (h.move hmove)

end Spot.All

end Promptbook
