import Promptbook.Script.Line

set_option autoImplicit false

/-!
# Moving over script lines

A cursor moves forward over the lines of a script and never back.  It knows how many lines it has
passed and which are left; passing a line at the end leaves it where it is.
-/

namespace Promptbook.Script

/-- A place between the lines of a script. -/
structure Cursor where
  position : Nat
  remaining : List ScriptLine
  deriving DecidableEq, Inhabited

namespace Cursor

/-- The cursor before the first line. -/
def ofLines (lines : List ScriptLine) : Cursor := ⟨0, lines⟩

/-- The line after the cursor. -/
def peek? (c : Cursor) : Option ScriptLine := c.remaining.head?

/-- The cursor after one more line. -/
def advance (c : Cursor) : Cursor :=
  match c.remaining with
  | [] => c
  | _ :: rest => ⟨c.position + 1, rest⟩

/-- The cursor after all lines. -/
def drained (c : Cursor) : Cursor := ⟨c.position + c.remaining.length, []⟩

/-- Whether no line is left. -/
def isExhausted (c : Cursor) : Bool := c.remaining.isEmpty

/-- Moving on passes exactly the line that was ahead. -/
theorem peek?_toList_append_advance (c : Cursor) :
    c.peek?.toList ++ c.advance.remaining = c.remaining := by
  cases h : c.remaining <;> simp [peek?, advance, h]

/-- The lines passed and the lines left are always all lines. -/
theorem position_add_length_advance (c : Cursor) :
    c.advance.position + c.advance.remaining.length = c.position + c.remaining.length := by
  cases h : c.remaining with
  | nil => simp [advance, h]
  | cons l rest =>
    simp only [advance, h, List.length_cons]
    omega

end Cursor

end Promptbook.Script
