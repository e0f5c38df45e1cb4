import Promptbook.Script.Line

set_option autoImplicit false

/-!
# What is wrong with a script

A line error names a fault, quotes the line and tells where it stands.  A script is rejected with
the list of all its line errors, which is printed with one line of text for each.
-/

namespace Promptbook.Script

/-- What is wrong with a line. -/
inductive LineFault where
  /-- The line could not be cut into its fields; `expected` is the form it should have. -/
  | malformedLine (expected : String)
  | unknownActor (name : String)
  | unknownAnimation (actor animation : String)
  | unknownVariable (name : String)
  | invalidLiteral (value : String)
  | invalidTarget (target : String)
  /-- A choice block is not closed before its script ends. -/
  | missingTerminator
  /-- A choice block has indented lines before its first label. -/
  | misplacedContent
  | emptyBranch (label : String)
  | noBranches
  deriving DecidableEq, Inhabited

/-- The form of a line of dialogue. -/
def dialogueForm : String := "Actor: text"

/-- The form of one animation cue. -/
def cueForm : String := "Actor: Animation"

/-- The form of a line that stores a value. -/
def storeForm : String := "[True] -> Target"

/-- The line that closes a choice block. -/
def terminator : String := "END"

namespace LineFault

/-- The text of a fault. -/
def message : LineFault → String
  | malformedLine expected => "malformed line, expected `" ++ expected ++ "`"
  | unknownActor name => "could not find actor '" ++ name ++ "'"
  | unknownAnimation actor animation =>
    "actor '" ++ actor ++ "' has no animation '" ++ animation ++ "'"
  | unknownVariable name => "could not find variable '" ++ name ++ "'"
  | invalidLiteral value => "only 'True' or 'False' can be stored, found '" ++ value ++ "'"
  | invalidTarget target => "could not read store target '" ++ target ++ "'"
  | missingTerminator => "choice block is missing its closing '" ++ terminator ++ "' line"
  | misplacedContent => "choice block has content before its first branch"
  | emptyBranch label => "choice branch '" ++ label ++ "' has no content"
  | noBranches => "choice block has no branches"

/-- Whether a fault shows in the shape of the script alone, whatever the stage holds. -/
def isStructural : LineFault → Bool
  | unknownActor _ | unknownAnimation _ _ | unknownVariable _ => false
  | _ => true

end LineFault

/-- A fault together with the line that has it. -/
structure LineError where
  line : String
  fault : LineFault
  origin : Origin
  deriving DecidableEq, Inhabited

/-- The error of a line with that fault. -/
def ScriptLine.error (l : ScriptLine) (fault : LineFault) : LineError := ⟨l.text, fault, l.origin⟩

/-- The text of a line error. -/
def LineError.message (e : LineError) : String :=
  "(" ++ e.origin.describe ++ ") " ++ e.fault.message ++ ": '" ++ e.line ++ "'"

/-- Everything that is wrong with a rejected script. -/
structure ParseError where
  errors : List LineError
  deriving DecidableEq, Inhabited

namespace ParseError

/-- The text of a rejection, which only counts the errors. -/
def message (e : ParseError) : String :=
  "could not parse script: found " ++ Nat.repr e.errors.length ++ " invalid line(s)"

/-- The full report, one line of text for each error. -/
def report (e : ParseError) : String := String.join (e.errors.map fun x => x.message ++ "\n")

end ParseError

end Promptbook.Script
