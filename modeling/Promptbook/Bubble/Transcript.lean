import Promptbook.Bubble.Reveal
import Promptbook.Stage.Position
import Promptbook.Stage.Selection

set_option autoImplicit false

/-!
# Bubbles without a screen

A transcript takes the place of a screen: it keeps a record of every line that was opened and every
choice that was made, and the text that could be seen now.  Its bubbles behave like those on a screen.
They open after a delay and reveal their text character by character; a line then waits for the
player to submit, and a choice lets the player move between its labels before submitting one.
-/

namespace Promptbook.Bubble

/-! ## The transcript -/

/-- The record of one bubble. -/
inductive Entry where
  | line (text : String) (position : Position)
  | choice (labels : List String) (selected : Nat) (position : Position)
  deriving DecidableEq, Inhabited

/-- What was shown so far, and what is displayed now. -/
structure Transcript where
  entries : List Entry
  display : String
  deriving DecidableEq, Inhabited

namespace Transcript

/-- Nothing was shown. -/
def empty : Transcript := ⟨[], ""⟩

/-- Add an entry and clear the display. -/
def append (e : Entry) (t : Transcript) : Transcript := ⟨t.entries ++ [e], ""⟩

/-- The transcript with nothing displayed. -/
def cleared (t : Transcript) : Transcript := { t with display := "" }

/-- The text of every line shown so far. -/
def lines (t : Transcript) : List String :=
  t.entries.filterMap fun
    | .line text _ => some text
    | .choice _ _ _ => none

end Transcript

/-! ## Lines -/

/-- What the bubble of a line is doing. -/
inductive LineStage where
  | opening (timer : Timer)
  | revealing (reveal : Reveal)
  | waiting
  deriving DecidableEq, Inhabited

/-- The bubble of a line. -/
structure LineBubble where
  text : String
  position : Position
  revealDelay : Duration
  stage : LineStage
  deriving DecidableEq, Inhabited

namespace LineBubble

/-- A frame of a line.  Opening, revealing and waiting each take a frame of their own at least, so
what the player pressed before the text was complete does not dismiss it. -/
def advance (b : LineBubble) (frame : Frame) (t : Transcript) : Step LineBubble Transcript :=
  match b.stage with
  | .opening timer =>
    match timer.advance frame.delta with
    | (.ok .done, _) =>
      ⟨.ok .running, { b with stage := .revealing (.start b.text b.revealDelay) },
        t.append (.line b.text b.position)⟩
    | (outcome, timer) => ⟨outcome, { b with stage := .opening timer }, t⟩
  | .revealing reveal =>
    let s := reveal.advance frame.delta t.display
    match s.outcome with
    | .ok .done => ⟨.ok .running, { b with stage := .waiting }, { t with display := s.world }⟩
    | outcome =>
      ⟨outcome, { b with stage := .revealing s.next }, { t with display := s.world }⟩
  | .waiting => if frame.input.submit then ⟨.ok .done, b, t.cleared⟩ else ⟨.ok .running, b, t⟩

end LineBubble

/-! ## Choices -/

/-- What the bubble of a choice is doing. -/
inductive ChoiceStage where
  | opening (timer : Timer)
  | revealing (reveal : Reveal)
  | idle
  deriving DecidableEq, Inhabited

/-- The bubble of a choice, with the index of the label that is highlighted. -/
structure ChoiceBubble where
  labels : List String
  position : Position
  slot : Slot
  revealDelay : Duration
  highlighted : Nat
  stage : ChoiceStage
  deriving DecidableEq, Inhabited

namespace ChoiceBubble

/-- Highlight a label and reveal it from its beginning. -/
def highlight (b : ChoiceBubble) (index : Nat) : ChoiceBubble :=
  { b with
    highlighted := index
    stage := .revealing (.start (b.labels.getD index "") b.revealDelay) }

/-- The label after the highlighted one, the first after the last. -/
def following (b : ChoiceBubble) : Nat := (b.highlighted + 1) % b.labels.length

/-- The label before the highlighted one, the last before the first. -/
def preceding (b : ChoiceBubble) : Nat := (b.highlighted + b.labels.length - 1) % b.labels.length

/-- A frame of a choice.  What the player presses counts only once the highlighted label was complete
in an earlier frame; submitting comes before moving on, and moving on before moving back. -/
def advance (b : ChoiceBubble) (frame : Frame) (w : Transcript × Selections) :
    Step ChoiceBubble (Transcript × Selections) :=
  let (t, selections) := w
  if b.labels.isEmpty then ⟨.ok .done, b, w⟩
  else
    match b.stage with
    | .opening timer =>
      match timer.advance frame.delta with
      | (.ok .done, _) => ⟨.ok .running, b.highlight 0, w⟩
      | (outcome, timer) => ⟨outcome, { b with stage := .opening timer }, w⟩
    | .revealing reveal =>
      let s := reveal.advance frame.delta t.display
      match s.outcome with
      | .ok .done =>
        ⟨.ok .running, { b with stage := .idle }, ({ t with display := s.world }, selections)⟩
      | outcome =>
        ⟨outcome, { b with stage := .revealing s.next }, ({ t with display := s.world }, selections)⟩
    | .idle =>
      if frame.input.submit then
        ⟨.ok .done, b,
          (t.append (.choice b.labels b.highlighted b.position),
            selections.select b.slot b.highlighted)⟩
      else if frame.input.next then ⟨.ok .running, b.highlight b.following, w⟩
      else if frame.input.previous then ⟨.ok .running, b.highlight b.preceding, w⟩
      else ⟨.ok .running, b, w⟩

end ChoiceBubble

/-! ## Either -/

/-- The delays of bubbles: until a text starts to be revealed, and between its characters. -/
structure Delays where
  opening : Duration
  reveal : Duration
  deriving DecidableEq, Inhabited

/-- An open bubble. -/
inductive OpenBubble where
  | line (bubble : LineBubble)
  | choice (bubble : ChoiceBubble)
  deriving DecidableEq, Inhabited

namespace OpenBubble

/-- The bubble of a line that was just opened. -/
def ofLine (delays : Delays) (text : String) (position : Position) : OpenBubble :=
  .line ⟨text, position, delays.reveal, .opening (.start delays.opening)⟩

/-- The bubble of a choice that was just opened. -/
def ofChoices (delays : Delays) (labels : List String) (position : Position) (slot : Slot) :
    OpenBubble :=
  .choice ⟨labels, position, slot, delays.reveal, 0, .opening (.start delays.opening)⟩

/-- A frame of a bubble. -/
def advance (b : OpenBubble) (frame : Frame) (w : Transcript × Selections) :
    Step OpenBubble (Transcript × Selections) :=
  match b with
  | .line b =>
    let s := b.advance frame w.1
    ⟨s.outcome, .line s.next, (s.world, w.2)⟩
  | .choice b => (b.advance frame w).mapNext .choice

end OpenBubble

end Promptbook.Bubble
