import Promptbook.Dialogue
import Promptbook.Rehearsal.Exercise
import Promptbook.Rehearsal.Observation

set_option autoImplicit false

/-!
# Sessions

A session is a rehearsal with one scheduler and any number of dialogues, which share the actors, the
variables and the bubbles.  It is led by commands, one after the other.
-/

namespace Promptbook.Rehearsal

/-- What can be asked for in a session. -/
inductive Command where
  | tick (frame : Frame) (times : Nat)
  | trigger (dialogue : Nat)
  | validate (dialogue : Nat)
  | create (dialogue : Nat)
  /-- Play an action that was created before. -/
  | spawnCreated (index : Nat)
  | spawn (exercise : Exercise)
  | setScript (dialogue : Nat) (script : String)
  | script (dialogue : Nat)
  | settings (dialogue : Nat)
  | addVariable (name : String) (value : Bool)
  | get (name : String)
  | snapshot
  | restore (values : List (String × Bool))
  | setActor (puppet : Puppet)
  | removeActor (name : String)
  | moveActor (name : String) (position : Position)
  | addParameter (name parameter : String) (value : Bool)
  | removeParameter (name parameter : String)
  deriving Inhabited

/-- What a command answers. -/
inductive Reply where
  | nothing
  | ticked (result : Except Fault Unit)
  | task (id : TaskId)
  | failed (error : RuntimeError)
  | valid (log : Script.WarningLog)
  | rejected (error : Script.ParseError)
  | created (index : Nat)
  | script (text : String)
  | settings (settings : Settings)
  | value (value : Option Bool)
  | values (values : List (String × Bool))
  deriving Inhabited

/-- A rehearsal with its dialogues and tasks, and the actions that were created and not played. -/
structure Session (B β : Type) where
  current : Show B
  scheduler : Scheduler (World Cast B) (Part ⊕ β)
  dialogues : List Dialogue
  created : List (Action (World Cast B) (Part ⊕ β))

namespace Session

variable {B β : Type}

/-- Change the world. -/
def withWorld (s : Session B β) (w : World Cast B) : Session B β :=
  { s with current := { s.current with world := w } }

/-- Change the actors. -/
def withCast (s : Session B β) (f : Cast → Cast) : Session B β :=
  s.withWorld { s.current.world with actors := f s.current.world.actors }

/-- Change the values of the variables. -/
def withCells (s : Session B β) (cells : Cells) : Session B β :=
  s.withWorld { s.current.world with cells := cells }

/-- The dialogue of an index. -/
def dialogue (s : Session B β) (index : Nat) : Dialogue := s.dialogues.getD index default

/-- Tick a number of times; the last error counts, and an overflow ends it. -/
def tickTimes (m : Medium B β) (frame : Frame) :
    Nat → Except Fault Unit → Session B β → Except Fault Unit × Session B β
  | 0, last, s => (last, s)
  | n + 1, last, s =>
    let t := s.scheduler.tick m.host frame s.current.world
    let s := { s.withWorld t.world with scheduler := t.scheduler }
    match t.result with
    | .ok () => tickTimes m frame n last s
    | .error .overflow => (.error .overflow, s)
    | .error fault => tickTimes m frame n (.error fault) s

/-- Carry out a command. -/
def perform (m : Medium B β) (command : Command) (s : Session B β) : Reply × Session B β :=
  let w := s.current.world
  let context := s.current.context
  match command with
  | .tick frame times =>
    let (result, s) := s.tickTimes m frame times (.ok ())
    (.ticked result, s)
  | .trigger index =>
    let (result, scheduler, w) :=
      (s.dialogue index).trigger m.host s.current.stage s.scheduler w
    (match result with
      | .ok id => .task id
      | .error e => .failed e,
      { s.withWorld w with scheduler := scheduler })
  | .validate index =>
    let (result, w) := (s.dialogue index).validate m.host s.current.stage w
    (match result with
      | .ok log => .valid log
      | .error e => .rejected e,
      s.withWorld w)
  | .create index =>
    let (result, w) := (s.dialogue index).action m.host s.current.stage w
    match result with
    | .ok action =>
      (.created s.created.length, { s.withWorld w with created := s.created ++ [action] })
    | .error e => (.rejected e, s.withWorld w)
  | .spawnCreated index =>
    let (id, scheduler, w) := s.scheduler.spawn m.host (s.created.getD index default) w
    (.task id, { s.withWorld w with scheduler := scheduler })
  | .spawn exercise =>
    let (id, scheduler, w) := s.scheduler.spawn m.host (exercise.action .inl) w
    (.task id, { s.withWorld w with scheduler := scheduler })
  | .setScript index script =>
    (.nothing, { s with dialogues := s.dialogues.modify index fun d => { d with script } })
  | .script index => (.script (s.dialogue index).script, s)
  | .settings index => (.settings (s.dialogue index).settings, s)
  | .addVariable name value =>
    let added := context.add name value w.cells
    (.value (some (added.cells.get added.id)),
      { s.withCells added.cells with
        current := { (s.withCells added.cells).current with context := added.context } })
  | .get name => (.value (context.get? name w.cells), s)
  | .snapshot => (.values (context.values w.cells), s)
  | .restore values => (.nothing, s.withCells (context.restore values w.cells))
  | .setActor puppet => (.nothing, s.withCast (·.enter puppet))
  | .removeActor name => (.nothing, s.withCast (·.leave name))
  | .moveActor name position =>
    (.nothing, s.withCast (·.updateLatest name fun p => { p with position }))
  | .addParameter name parameter value =>
    (.nothing, s.withCast (·.updateLatest name fun p =>
      { p with parameters := setEntry parameter value p.parameters }))
  | .removeParameter name parameter =>
    (.nothing, s.withCast (·.updateLatest name fun p =>
      { p with parameters := p.parameters.filter fun e => e.1 ≠ parameter }))

/-- Which of the tasks spawned so far are running, in the order they were spawned. -/
def running (s : Session B β) : List Bool :=
  (List.range s.scheduler.nextNumber).map fun n => s.scheduler.isRunning ⟨n⟩

end Session

end Promptbook.Rehearsal
