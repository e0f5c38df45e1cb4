set_option autoImplicit false

/-!
# Positions

Where an actor or a bubble is, in single precision.
-/

namespace Promptbook

/-- A place in the world. -/
structure Position where
  x : Float32
  y : Float32
  deriving DecidableEq, Inhabited

/-- The place that far above another. -/
def Position.raised (p : Position) (height : Float32) : Position := { p with y := p.y + height }

/-- Raising keeps the horizontal place. -/
@[simp]
theorem Position.raised_x (p : Position) (height : Float32) : (p.raised height).x = p.x := rfl

end Promptbook
