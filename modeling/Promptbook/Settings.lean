import Promptbook.Duration

set_option autoImplicit false

/-!
# Settings

What can be adjusted about how a script is played.
-/

namespace Promptbook

/-- How a script is played. -/
structure Settings where
  /-- The parameter that is set while an actor speaks, if the actor declares it. -/
  talkingParameter : String
  /-- How far above its actor a bubble is shown. -/
  bubbleHeight : Float32
  /-- The time from a bubble appearing until its text starts to be revealed. -/
  openDelay : Duration
  /-- The time between two characters of a text. -/
  revealDelay : Duration
  deriving DecidableEq

namespace Settings

/-- The usual settings. -/
def standard : Settings := ⟨"Talking", 2, .ofMillis 100, .ofMillis 20⟩

/-- The usual settings without any delay. -/
def instant : Settings := { standard with openDelay := .zero, revealDelay := .zero }

instance : Inhabited Settings := ⟨standard⟩

end Settings

end Promptbook
