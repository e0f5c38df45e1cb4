import Promptbook.Script.Warning
import Promptbook.World

set_option autoImplicit false

/-!
# Puppets

Actors for rehearsing a script: they only remark on what they are told to do and count how often
their animations are advanced.  A puppet that replaces another of the same name gets a handle of its
own, so a script that is running keeps the puppet it was read with.
-/

namespace Promptbook.Rehearsal

/-- How an animation of a puppet goes. -/
structure Routine where
  name : String
  /-- The advance with which the animation ends. -/
  ticks : Nat := 1
  /-- How long to wait instead of counting, if that is given. -/
  wait : Option Duration := none
  /-- The advance that fails; zero is never reached. -/
  failAt : Nat := 0
  deriving DecidableEq, Inhabited

/-- An actor that does nothing but remark on what it is told. -/
structure Puppet where
  name : String
  position : Position
  parameters : List (String × Bool)
  routines : List Routine
  deriving DecidableEq, Inhabited

/-- Set the value of a name, which is added at the end if it is missing. -/
def setEntry {α : Type} (name : String) (value : α) : List (String × α) → List (String × α)
  | [] => [(name, value)]
  | e :: rest => if e.1 = name then (name, value) :: rest else e :: setEntry name value rest

/-- All puppets by handle, the names under which they can be found, and who was last given each
name. -/
structure Cast where
  puppets : List Puppet
  roster : List (String × ActorId)
  latest : List (String × ActorId)
  deriving DecidableEq, Inhabited

namespace Cast

/-- No puppets. -/
def empty : Cast := ⟨[], [], []⟩

/-- The puppet of a handle. -/
def puppet (c : Cast) (id : ActorId) : Puppet := c.puppets.getD id.index default

/-- Change the puppet of a handle. -/
def update (id : ActorId) (f : Puppet → Puppet) (c : Cast) : Cast :=
  { c with puppets := c.puppets.modify id.index f }

/-- Give a name to a new puppet. -/
def enter (p : Puppet) (c : Cast) : Cast :=
  let id : ActorId := ⟨c.puppets.length⟩
  ⟨c.puppets ++ [p], setEntry p.name id c.roster, setEntry p.name id c.latest⟩

/-- Take a name away, so that it is not found any more. -/
def leave (name : String) (c : Cast) : Cast :=
  { c with roster := c.roster.filter fun e => e.1 ≠ name }

/-- Change the puppet that was last given a name. -/
def updateLatest (name : String) (f : Puppet → Puppet) (c : Cast) : Cast :=
  match c.latest.lookup name with
  | some id => c.update id f
  | none => c

/-- The parameters of everyone who was last given a name, by name of actor and parameter. -/
def parameters (c : Cast) : List (String × List (String × Bool)) :=
  let sorted {α : Type} (entries : List (String × α)) : List (String × α) :=
    List.mergeSort entries fun a b => !(decide (b.1 < a.1))
  sorted (c.latest.map fun e => (e.1, sorted (c.puppet e.2).parameters))

/-- What the names in a script stand for. -/
def stage (c : Cast) (context : Context) : Stage where
  findActor name := c.roster.lookup name
  hasAnimation id animation := (c.puppet id).routines.any fun r => r.name == animation
  hasParameter id parameter := (c.puppet id).parameters.any fun p => p.1 == parameter
  findVariable name := context.find? name

end Cast

/-- Work in progress: an animation of a puppet, or a part of an exercise. -/
inductive Part where
  | waiting (timer : Timer)
  | counting (actor : String) (routine : Routine) (advances : Nat)
  /-- An exercise that starts, runs for a number of advances and ends. -/
  | drill (name : String) (ticks advances : Nat)
  /-- An exercise that runs for a number of advances and then fails. -/
  | mishap (name : String) (ticks advances : Nat) (error : RuntimeError)
  deriving DecidableEq, Inhabited

namespace Part

/-- The animation of a puppet. -/
def ofRoutine (actor : String) (r : Routine) : Part :=
  match r.wait with
  | some d => .waiting (.start d)
  | none => .counting actor r 0

/-- A frame of work in progress, with the remarks on it. -/
def advance (p : Part) (frame : Frame) : Outcome × Part × List String :=
  match p with
  | waiting timer =>
    let (outcome, timer) := timer.advance frame.delta
    (outcome, waiting timer, [])
  | counting actor r n =>
    let next := counting actor r (n + 1)
    let who := actor ++ " " ++ r.name
    if n + 1 = r.failAt then (.error (.failed .noSelection), next, ["fail " ++ who])
    else if r.ticks ≤ n + 1 then (.ok .done, next, ["end " ++ who])
    else (.ok .running, next, [])
  | drill name ticks n =>
    let next := drill name ticks (n + 1)
    let begins := if n = 0 then ["start " ++ name] else []
    if ticks ≤ n + 1 then (.ok .done, next, begins ++ ["end " ++ name])
    else (.ok .running, next, begins)
  | mishap name ticks n error =>
    let next := mishap name ticks (n + 1) error
    if ticks ≤ n + 1 then (.error (.failed error), next, ["fail " ++ name])
    else (.ok .running, next, [])

end Part

/-- Puppets as actors. -/
def puppets : Company Cast Part where
  hasParameter c id parameter := (c.puppet id).parameters.any fun p => p.1 == parameter
  position c id := (c.puppet id).position
  setParameter id parameter value c :=
    (c.update id fun p => { p with parameters := setEntry parameter value p.parameters },
      ["set " ++ (c.puppet id).name ++ "." ++ parameter ++ " " ++ describeBool value])
  play id animation c :=
    let p := c.puppet id
    let routine := (p.routines.find? fun r => r.name == animation).getD { name := animation }
    ((.ofRoutine p.name routine, c), ["start " ++ p.name ++ " " ++ animation])
  step part frame c :=
    let (outcome, part, remarks) := part.advance frame
    (⟨outcome, part, c⟩, remarks)

end Promptbook.Rehearsal
