import Promptbook.Script.Line

set_option autoImplicit false

/-!
# Warnings

What looks like a mistake in a script but does not stop it.  Warnings are kept in the order they
were found, which need not be the order of their lines: `WarningLog.inLineOrder` sorts them by line
and keeps the order of those on the same line.
-/

namespace Promptbook.Script

/-- What looks like a mistake. -/
inductive Warning where
  /-- A value is stored into a parameter that the actor does not declare. -/
  | unknownParameter (actor parameter : String)
  /-- A label appears again in its choice block; the later content replaces the earlier. -/
  | duplicateBranch (label : String)
  deriving DecidableEq, Inhabited

/-- The text of a warning. -/
def Warning.message : Warning → String
  | unknownParameter actor parameter =>
    "actor '" ++ actor ++ "' has no parameter '" ++ parameter ++ "': the value is stored anyway"
  | duplicateBranch label =>
    "choice branch '" ++ label ++ "' appears more than once: only the last content is kept"

/-- A warning together with where it was found. -/
structure Notice where
  warning : Warning
  origin : Origin
  deriving DecidableEq, Inhabited

/-- The text of a notice. -/
def Notice.message (n : Notice) : String :=
  "[" ++ n.origin.describe ++ "] WARNING: " ++ n.warning.message

/-- Notices in the order they were found. -/
abbrev WarningLog := List Notice

/-- The notices by line; those on one line stay in the order they were found. -/
def WarningLog.inLineOrder (log : WarningLog) : List Notice :=
  List.mergeSort log fun a b => decide (a.origin.lineIndex ≤ b.origin.lineIndex)

/-- Sorting neither loses nor adds a notice. -/
theorem WarningLog.perm_inLineOrder (log : WarningLog) : (inLineOrder log).Perm log :=
  List.mergeSort_perm _ _

/-- Sorted notices are in the order of their lines. -/
theorem WarningLog.pairwise_inLineOrder (log : WarningLog) :
    (inLineOrder log).Pairwise fun a b => a.origin.lineIndex ≤ b.origin.lineIndex := by
  refine (List.pairwise_mergeSort ?_ ?_ log).imp fun h => by simpa using h
  · intro a b c hab hbc
    simp only [decide_eq_true_eq] at hab hbc ⊢
    exact UInt32.le_trans hab hbc
  · intro a b
    simpa using UInt32.le_total a.origin.lineIndex b.origin.lineIndex

end Promptbook.Script
