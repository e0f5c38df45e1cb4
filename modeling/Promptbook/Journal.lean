import Promptbook.Action.Outcome
import Promptbook.Script.Statement
import Promptbook.Script.Warning
import Promptbook.Stage.Position

set_option autoImplicit false

/-!
# The journal

Everything that happens is written into one journal, in order: what the library reports to its
log, what scripts ask of actors and bubbles, and what those remark themselves.  `Note.logged?` is the
log message of a note, for the notes that are logged.
-/

namespace Promptbook

/-- Number of a task. -/
structure TaskId where
  number : Nat
  deriving DecidableEq, Inhabited

/-- The text of a task's number. -/
def TaskId.describe (id : TaskId) : String := "TaskId(" ++ Nat.repr id.number ++ ")"

/-- One entry of the journal. -/
inductive Note where
  /-- A warning was found while reading. -/
  | warned (notice : Script.Notice)
  /-- A script was rejected for this error, among others. -/
  | rejected (error : Script.LineError)
  /-- A script was found to be valid. -/
  | validated (warnings : Nat)
  | spawned (task : TaskId)
  | finished (task : TaskId)
  | failed (task : TaskId) (error : RuntimeError)
  /-- An actor is asked to play an animation. -/
  | playing (cue : Script.Cue)
  /-- A value is stored. -/
  | storing (assignment : Script.Assignment)
  /-- A label was chosen. -/
  | chose (asker : ActorRef) (label : String)
  /-- The talking parameter of an actor is set around a line. -/
  | talking (speaker : ActorRef) (parameter : String) (value : Bool)
  /-- Bubbles are asked to show a line. -/
  | showingLine (text : String) (position : Position)
  /-- Bubbles are asked to show a choice. -/
  | showingChoices (labels : List String) (position : Position)
  /-- Something that an actor or a bubble has to say. -/
  | remark (text : String)
  deriving DecidableEq, Inhabited

/-- How serious a log message is. -/
inductive Level where
  | error
  | warn
  | info
  | debug
  deriving DecidableEq, Inhabited

/-- A truth value as it is logged. -/
def describeBool : Bool → String
  | true => "true"
  | false => "false"

namespace Note

/-- The target of a stored value as it is logged. -/
def describeTarget : Script.StoreTarget → String
  | .contextVariable name _ => "variable '" ++ name ++ "'"
  | .parameter owner name => "'" ++ owner.name ++ "." ++ name ++ "'"

/-- The log message of a note, if it is logged. -/
def logged? : Note → Option (Level × String)
  | warned notice => some (.warn, notice.message)
  | rejected error => some (.warn, error.message)
  | validated warnings => some (.info, "script is valid (" ++ Nat.repr warnings ++ " warning(s))")
  | spawned task => some (.debug, "spawning task " ++ task.describe)
  | finished task => some (.debug, "task " ++ task.describe ++ " finished")
  | failed task error =>
    some (.error, "task " ++ task.describe ++ " failed: " ++ error.message)
  | playing cue =>
    some (.debug, "'" ++ cue.performer.name ++ "' plays animation '" ++ cue.animation ++ "'")
  | storing assignment =>
    some (.debug, "storing " ++ describeBool assignment.value ++ " into " ++
      describeTarget assignment.target)
  | chose asker label => some (.debug, "'" ++ asker.name ++ "' chose '" ++ label ++ "'")
  | talking _ _ _ | showingLine _ _ | showingChoices _ _ | remark _ => none

/-- What an actor or a bubble has to say, if the note is that. -/
def remark? : Note → Option String
  | remark text => some text
  | _ => none

end Note

/-- Notes in the order in which they were made. -/
abbrev Journal := Array Note

end Promptbook
