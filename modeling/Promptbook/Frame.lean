import Promptbook.Duration

set_option autoImplicit false

/-!
# Frames

A frame is everything that an action can observe about the current tick: how much time passed since
the previous one and which buttons the player pressed.
-/

namespace Promptbook

/-- The buttons pressed during one tick. -/
structure Input where
  submit : Bool := false
  next : Bool := false
  previous : Bool := false
  deriving DecidableEq, Inhabited

/-- One tick as an action sees it. -/
structure Frame where
  delta : Duration := Duration.zero
  input : Input := {}
  deriving DecidableEq, Inhabited

/-- Whether an action has more to do after a tick. -/
inductive Progress where
  | running
  | done
  deriving DecidableEq, Inhabited

end Promptbook
