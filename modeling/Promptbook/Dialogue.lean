import Promptbook.Performance
import Promptbook.Scheduler
import Promptbook.Script.Reader

set_option autoImplicit false

/-!
# Dialogues

A dialogue holds a script and starts it on demand.  The script is read again every time, so a name
means what it means on the stage at that moment, and nothing of an earlier run is kept.
-/

namespace Promptbook

/-- The notes of a reading: its warnings, then its errors. -/
def Script.Reading.notes {α : Type} (r : Script.Reading α) : List Note :=
  r.notices.map .warned ++ r.errors.map .rejected

/-- A script and the settings it is played with. -/
structure Dialogue where
  script : String
  settings : Settings := Settings.standard
  deriving DecidableEq, Inhabited

namespace Dialogue

variable {W κ : Type}

/-- The world with the notes of a reading. -/
def recordReading {α : Type} (host : Host W κ) (r : Script.Reading α) (w : W) : W :=
  r.notes.foldl (fun w n => host.record n w) w

/-- Check that a script can be played: its warnings, or everything that is wrong with it. -/
def validate (d : Dialogue) (host : Host W κ) (stage : Stage) (w : W) :
    Except Script.ParseError Script.WarningLog × W :=
  let reading := Script.readScript stage d.script
  let w := recordReading host reading w
  match reading.result with
  | .ok _ => (.ok reading.notices, host.record (.validated reading.notices.length) w)
  | .error es => (.error ⟨es⟩, w)

/-- The action of a script as it reads now. -/
def action (d : Dialogue) (host : Host W κ) (stage : Stage) (w : W) :
    Except Script.ParseError (Action W κ) × W :=
  let reading := Script.readScript stage d.script
  (match reading.result with
    | .ok script => .ok (.ofScript host d.settings script)
    | .error es => .error ⟨es⟩,
    recordReading host reading w)

/-- Play a script as a new task.  A script that is not valid is not started. -/
def trigger (d : Dialogue) (host : Host W κ) (stage : Stage) (s : Scheduler W κ) (w : W) :
    Except RuntimeError TaskId × Scheduler W κ × W :=
  match d.action host stage w with
  | (.error cause, w) => (.error (.invalidScript cause), s, w)
  | (.ok action, w) =>
    let (id, s, w) := s.spawn host action w
    (.ok id, s, w)

end Dialogue

end Promptbook
