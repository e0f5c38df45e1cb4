import Promptbook.Script.Line

set_option autoImplicit false

/-!
# Kinds of statements

The first character of a line decides what kind of statement begins there.
-/

namespace Promptbook.Script

/-- What kind of statement a line begins. -/
inductive StatementKind where
  | dialogue
  | animation
  | choice
  | store
  deriving DecidableEq, Inhabited

namespace StatementKind

/-- The character that marks a kind; dialogue has none. -/
def marker : StatementKind → Option Char
  | dialogue => none
  | animation => some '!'
  | choice => some '?'
  | store => some '['

/-- The kind marked by the first character of a line; a line without a marker is dialogue. -/
def ofFirst : Option Char → StatementKind
  | some '!' => animation
  | some '?' => choice
  | some '[' => store
  | _ => dialogue

/-- A marker marks its kind. -/
theorem ofFirst_marker (k : StatementKind) : ofFirst k.marker = k := by
  cases k <;> rfl

/-- Only its own marker gives a kind that has one. -/
theorem ofFirst_eq_iff {c : Option Char} {k : StatementKind} (h : k.marker ≠ none) :
    ofFirst c = k ↔ c = k.marker := by
  refine ⟨fun e => ?_, fun e => e ▸ ofFirst_marker k⟩
  subst e
  unfold ofFirst at h ⊢
  split <;> simp_all [marker]

end StatementKind

/-- The kind of statement that a line of text begins. -/
def kindOf (text : String) : StatementKind := StatementKind.ofFirst text.toList.head?

/-- The kind of statement that a script line begins. -/
def ScriptLine.kind (l : ScriptLine) : StatementKind := kindOf l.text

end Promptbook.Script
