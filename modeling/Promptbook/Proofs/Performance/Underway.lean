import Promptbook.Proofs.Performance.Trace

set_option autoImplicit false

/-!
# Statements underway

A performance can be suspended after any frame.  `Underway` lists the states in which a statement
can then be: not begun, in the middle of a line or of some animations, behind a stored value, in front
of a choice or somewhere in the branch that was chosen.  Each state is an action, and each has calls
that are still due.
-/

namespace Promptbook

open Script (Statement Cue Assignment Speech)

variable {α β : Type}

/-- How far a statement has come; `α` are animations in progress and `β` open bubbles. -/
inductive Underway (α β : Type) where
  | unbegun (s : Statement)
  | speaking (speech : Speech) (talking : Bool) (bubble : β)
  /-- Animations in progress and cues that were not reached. -/
  | playing (parts : List (α ⊕ Cue))
  | stored
  /-- A choice, and whether an index without a branch was selected, which takes the branches away. -/
  | choosing (asker : ActorRef) (branches : List (String × List Statement)) (slot : Slot)
      (bubble : β) (spent : Bool)
  /-- A statement of the chosen branch, and what comes after it there. -/
  | following (now : Underway α β) (later : List Statement)

/-- A statement of a script, and what comes after it there. -/
abbrev Place (α β : Type) := Underway α β × List Statement

section Actions

variable {W : Type} (host : Host W (α ⊕ β)) (settings : Settings)

/-- The action of an animation in progress or a cue that was not reached. -/
def actionOfPart : α ⊕ Cue → Action W (α ⊕ β)
  | .inl animation => .machine (.inl animation)
  | .inr cue => .ofCue host cue

/-- How a line is delivered. -/
def Script.Speech.delivery (speech : Speech) : Delivery :=
  ⟨speech.speaker, speech.text, settings.talkingParameter, settings.bubbleHeight⟩

/-- What is asked by a choice. -/
def questionOf (asker : ActorRef) (branches : List (String × List Statement)) : Question :=
  ⟨asker, Script.labelsOf branches, settings.bubbleHeight⟩

/-- The actions of branches, if these were not taken away. -/
def branchActions (branches : List (String × List Statement)) (spent : Bool) :
    List (Action W (α ⊕ β)) :=
  if spent then [] else Action.ofBranches host settings branches

theorem branchActions_getElem? (branches : List (String × List Statement)) (spent : Bool)
    (index : Nat) :
    (branchActions host settings branches spent)[index]? =
      (if spent then none else branches[index]?).map fun b => .ofScript host settings b.2 := by
  cases spent with
  | true => rfl
  | false => simp [branchActions, Action.ofBranches_eq_map]

theorem length_branchActions (branches : List (String × List Statement)) (spent : Bool) :
    (branchActions host settings branches spent).length = if spent then 0 else branches.length := by
  cases spent with
  | true => rfl
  | false => simp [branchActions, Action.ofBranches_eq_map]

/-- The action of a statement that is underway. -/
def Underway.action : Underway α β → Action W (α ⊕ β)
  | .unbegun s => .ofStatement host settings s
  | .speaking speech talking bubble => .speaking (speech.delivery settings) talking (.inr bubble)
  | .playing parts => .parallel (parts.map (actionOfPart host))
  | .stored => .finished
  | .choosing asker branches slot bubble spent =>
    .choosing (questionOf settings asker branches) slot (.inr bubble)
      (branchActions host settings branches spent)
  | .following now later =>
    .following (.sequence (action now :: Action.ofStatements host settings later))

/-- The actions of a statement that is underway and of all after it. -/
def Place.actions (place : Place α β) : List (Action W (α ⊕ β)) :=
  place.1.action host settings :: Action.ofStatements host settings place.2

end Actions

section Due

variable {A B : Type} (company : Company A α) (settings : Settings)

/-- The calls of the cues that were not reached. -/
def duePlays (parts : List (α ⊕ Cue)) : List Call :=
  parts.filterMap fun
    | .inl _ => none
    | .inr cue => some cue.call

/-- Of cues that were not reached all calls are due. -/
theorem duePlays_map_inr (cues : List Cue) :
    duePlays (cues.map (Sum.inr : Cue → α ⊕ Cue)) = cues.map Cue.call := by
  induction cues with
  | nil => rfl
  | cons cue rest ih => exact congrArg (List.cons cue.call) ih

/-- The calls of the branch that will be found in a slot. -/
def dueChosen (branches : List (String × List Statement)) (slot : Slot)
    (ledger : Ledger (World A B)) (k : Nat) : List Call :=
  match pickedAt ledger k slot with
  | none => []
  | some index => traceNth company settings ledger k branches index

/-- The calls that are still due, when so many calls were made. -/
def Underway.due (ledger : Ledger (World A B)) (k : Nat) : Underway α β → List Call
  | .unbegun s => s.trace company settings ledger k
  | .speaking speech talking _ => speech.closing settings talking
  | .playing parts => duePlays parts
  | .stored => []
  | .choosing _ branches slot _ _ => dueChosen company settings branches slot ledger k
  | .following now later =>
    due ledger k now ++ traceAll company settings ledger (k + (due ledger k now).length) later

/-- The calls that are still due of a statement that is underway and of all after it. -/
def Place.due (place : Place α β) (ledger : Ledger (World A B)) (k : Nat) : List Call :=
  place.1.due company settings ledger k ++
    traceAll company settings ledger (k + (place.1.due company settings ledger k).length) place.2

end Due

end Promptbook
