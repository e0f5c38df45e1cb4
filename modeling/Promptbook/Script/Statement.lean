import Promptbook.Script.Kind
import Promptbook.Stage.Lookup

set_option autoImplicit false

/-!
# Statements

What a script says once it has been read: a list of statements in which every name has been looked
up.  A choice holds a script of its own for each of its labels, so scripts are trees.
-/

namespace Promptbook.Script

/-- A line of text spoken by an actor. -/
structure Speech where
  speaker : ActorRef
  text : String
  origin : Origin
  deriving DecidableEq, Inhabited

/-- One animation to be played by an actor. -/
structure Cue where
  performer : ActorRef
  animation : String
  deriving DecidableEq, Inhabited

/-- Where a value is stored. -/
inductive StoreTarget where
  | contextVariable (name : String) (id : VariableId)
  | parameter (owner : ActorRef) (name : String)
  deriving DecidableEq, Inhabited

/-- A value and where it is stored. -/
structure Assignment where
  target : StoreTarget
  value : Bool
  deriving DecidableEq, Inhabited

/-- A statement of a script. -/
inductive Statement where
  | dialogue (speech : Speech)
  /-- Animations that are played at the same time. -/
  | animation (cues : List Cue)
  | store (assignment : Assignment)
  /-- A choice put to the player above an actor: a script for each label. -/
  | choice (asker : ActorRef) (branches : List (String × List Statement)) (origin : Origin)
  deriving Inhabited

/-- The kind of a statement. -/
def Statement.kind : Statement → StatementKind
  | dialogue _ => .dialogue
  | animation _ => .animation
  | store _ => .store
  | choice _ _ _ => .choice

/-- The labels of the branches of a choice, as they are offered to the player. -/
def labelsOf (branches : List (String × List Statement)) : List String := branches.map (·.1)

end Promptbook.Script
