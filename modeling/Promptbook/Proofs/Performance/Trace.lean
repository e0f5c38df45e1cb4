import Promptbook.Performance
import Promptbook.Proofs.Performance.Ledger

set_option autoImplicit false

/-!
# The calls of a script

What a script comes to when it is performed from beginning to end, by recursion over its statements
and without any of the machinery that performs it.  Two things are only known once they happen, and
these are read from the ledger of the performance: whether the actor of a line has the talking
parameter in the moment in which the line starts, and what is selected in the slot of a choice in
the moment in which its bubble is done.
-/

namespace Promptbook

open Script (Statement Cue Assignment Speech)

/-! ## Calls of single statements -/

/-- The call that plays an animation. -/
def Script.Cue.call (cue : Cue) : Call := .play cue.performer.actor cue.animation

/-- The call that stores a value. -/
def Script.Assignment.call (assignment : Assignment) : Call :=
  match assignment.target with
  | .contextVariable _ id => .setVariable id assignment.value
  | .parameter owner name => .setParameter owner.actor name assignment.value

/-- The call that sets the talking parameter of the actor of a line. -/
def Script.Speech.talkingCall (settings : Settings) (speech : Speech) (value : Bool) : Call :=
  .setParameter speech.speaker.actor settings.talkingParameter value

/-- The calls before the bubble of a line is open. -/
def Script.Speech.opening (settings : Settings) (speech : Speech) (talking : Bool) : List Call :=
  (if talking then [speech.talkingCall settings true] else []) ++ [.showLine speech.text]

/-- The calls after the bubble of a line is done. -/
def Script.Speech.closing (settings : Settings) (speech : Speech) (talking : Bool) : List Call :=
  if talking then [speech.talkingCall settings false] else []

/-! ## Moments -/

section Moments

variable {A α B : Type} (company : Company A α) (settings : Settings)
  (ledger : Ledger (World A B)) (k : Nat)

/-- Whether the actor of a line has the talking parameter in the moment of that call. -/
def talksAt (speech : Speech) : Bool :=
  (ledger.calledIn k).any fun w =>
    company.hasParameter w.actors speech.speaker.actor settings.talkingParameter

/-- The slot that was made for the choices shown by that call: the newest one there is. -/
def slotAt : Slot := ⟨((ledger.calledIn k).elim 0 fun w => w.selections.values.length) - 1⟩

/-- What is selected in a slot in the moment in which the bubble opened by the last of so many calls
is done. -/
def pickedAt (slot : Slot) : Option Nat :=
  (ledger.doneIn k).bind fun w => w.selections.selected slot

end Moments

/-! ## Calls of scripts -/

section Traces

variable {A α B : Type} (company : Company A α) (settings : Settings)
  (ledger : Ledger (World A B))

mutual

/-- The calls of a statement, when so many calls were made before it. -/
def Script.Statement.trace (k : Nat) : Statement → List Call
  | .dialogue speech =>
    let talking := talksAt company settings ledger k speech
    speech.opening settings talking ++ speech.closing settings talking
  | .animation cues => cues.map Cue.call
  | .store assignment => [assignment.call]
  | .choice _ branches _ =>
    let slot := slotAt ledger k
    .showChoices (Script.labelsOf branches) slot ::
      match pickedAt ledger (k + 1) slot with
      | none => []
      | some index => traceNth (k + 1) branches index

/-- The calls of a script: those of its statements in their order. -/
def traceAll (k : Nat) : List Statement → List Call
  | [] => []
  | s :: rest => s.trace k ++ traceAll (k + (s.trace k).length) rest

/-- The calls of the branch of an index. -/
def traceNth (k : Nat) : List (String × List Statement) → Nat → List Call
  | [], _ => []
  | (_, script) :: _, 0 => traceAll k script
  | _ :: rest, n + 1 => traceNth k rest n

end

theorem traceNth_eq (k : Nat) (branches : List (String × List Statement)) (n : Nat) :
    traceNth company settings ledger k branches n =
      (branches[n]?).elim [] fun b => traceAll company settings ledger k b.2 := by
  induction branches generalizing n with
  | nil => rfl
  | cons b rest ih =>
    cases n with
    | zero => rfl
    | succ n => exact ih n

end Traces

end Promptbook
