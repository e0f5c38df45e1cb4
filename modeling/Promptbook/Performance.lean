import Promptbook.Action.Basic
import Promptbook.Settings

set_option autoImplicit false

/-!
# Performing statements

What a script does when it is played: every statement becomes an action, and the script is their
sequence.  Nothing is done, and no actor or bubble is asked for anything, before the action of the
statement is first advanced.
-/

namespace Promptbook

open Script (Statement Cue Assignment Speech)

variable {W κ : Type}

namespace Action

/-- Ask the actor of a cue to play its animation when the cue is reached. -/
def ofCue (host : Host W κ) (cue : Cue) : Action W κ :=
  let play (w : W) : κ × W :=
    host.play cue.performer.actor cue.animation (host.record (.playing cue) w)
  .deferred (fun w => (play w).2) (fun w => .machine (play w).1)

/-- Store a value. -/
def ofAssignment (host : Host W κ) (assignment : Assignment) : Action W κ :=
  .effect fun w =>
    let w := host.record (.storing assignment) w
    match assignment.target with
    | .contextVariable _ id => host.setVariable id assignment.value w
    | .parameter owner name => host.setParameter owner.actor name assignment.value w

/-- Speak a line. -/
def ofSpeech (settings : Settings) (speech : Speech) : Action W κ :=
  .speak ⟨speech.speaker, speech.text, settings.talkingParameter, settings.bubbleHeight⟩

mutual

/-- The action of a statement. -/
def ofStatement (host : Host W κ) (settings : Settings) : Statement → Action W κ
  | .dialogue speech => ofSpeech settings speech
  | .animation cues => .parallel (cues.map (ofCue host))
  | .store assignment => ofAssignment host assignment
  | .choice asker branches _ =>
    .prompt ⟨asker, Script.labelsOf branches, settings.bubbleHeight⟩
      (ofBranches host settings branches)

/-- The actions of statements. -/
def ofStatements (host : Host W κ) (settings : Settings) : List Statement → List (Action W κ)
  | [] => []
  | s :: rest => ofStatement host settings s :: ofStatements host settings rest

/-- The actions of branches, each the sequence of its statements. -/
def ofBranches (host : Host W κ) (settings : Settings) :
    List (String × List Statement) → List (Action W κ)
  | [] => []
  | (_, script) :: rest =>
    .sequence (ofStatements host settings script) :: ofBranches host settings rest

end

/-- The action of a script. -/
def ofScript (host : Host W κ) (settings : Settings) (script : List Statement) : Action W κ :=
  .sequence (ofStatements host settings script)

theorem ofStatements_eq_map (host : Host W κ) (settings : Settings) (script : List Statement) :
    ofStatements host settings script = script.map (ofStatement host settings) := by
  induction script with
  | nil => rfl
  | cons s rest ih => rw [ofStatements, ih, List.map_cons]

theorem ofBranches_eq_map (host : Host W κ) (settings : Settings)
    (branches : List (String × List Statement)) :
    ofBranches host settings branches = branches.map fun b => ofScript host settings b.2 := by
  induction branches with
  | nil => rfl
  | cons b rest ih => rw [ofBranches, ih, List.map_cons, ofScript]

/-- A choice has as many branches as it has labels. -/
theorem length_ofBranches (host : Host W κ) (settings : Settings)
    (branches : List (String × List Statement)) :
    (ofBranches host settings branches).length = (Script.labelsOf branches).length := by
  simp [ofBranches_eq_map, Script.labelsOf]

end Action

end Promptbook
