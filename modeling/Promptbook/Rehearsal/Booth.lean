import Promptbook.Bubble.Transcript

set_option autoImplicit false

/-!
# Bubbles by themselves

Any number of bubbles that are opened at the same time and share a transcript and a slot.
-/

namespace Promptbook.Rehearsal

open Bubble (OpenBubble Transcript)

/-- Advance every bubble that is not closed.  A bubble that is done or fails is closed, unless
`pastEnd` keeps it open.  The outcome of a closed bubble is none. -/
def advanceBubbles (pastEnd : Bool) (frame : Frame) :
    List (Option OpenBubble) → Transcript × Selections →
      List (Option Outcome × Option OpenBubble) × (Transcript × Selections)
  | [], w => ([], w)
  | none :: rest, w =>
    let (later, w) := advanceBubbles pastEnd frame rest w
    ((none, none) :: later, w)
  | some b :: rest, w =>
    let s := b.advance frame w
    let (later, w) := advanceBubbles pastEnd frame rest s.world
    ((some s.outcome, if s.outcome.isRunning || pastEnd then some s.next else none) :: later, w)

/-- What the bubbles show after a frame. -/
structure BoothView where
  outcomes : List (Option Outcome)
  display : String
  entries : List Bubble.Entry
  selected : Option Nat

/-- Advance the bubbles once per frame. -/
def playBubbles (pastEnd : Bool) (slot : Slot) :
    List Frame → List (Option OpenBubble) → Transcript × Selections →
      List BoothView × Transcript
  | [], _, w => ([], w.1)
  | frame :: frames, bubbles, w =>
    let (steps, after) := advanceBubbles pastEnd frame bubbles w
    let (later, final) := playBubbles pastEnd slot frames (steps.map (·.2)) after
    (⟨steps.map (·.1), after.1.display, after.1.entries.drop w.1.entries.length,
        after.2.selected slot⟩ :: later, final)

end Promptbook.Rehearsal
