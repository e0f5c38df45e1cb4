set_option autoImplicit false

/-!
# Looking up names

A script names actors, their animations and parameters, and variables.  A stage answers what a name
stands for at the moment it is asked; what it answers with is a handle, which keeps standing for the
same actor or variable even if the name is later given to another.
-/

namespace Promptbook

/-- Handle of an actor. -/
structure ActorId where
  index : Nat
  deriving DecidableEq, Inhabited

/-- Handle of a boolean variable. -/
structure VariableId where
  index : Nat
  deriving DecidableEq, Inhabited

/-- An actor along with the name that it was found by. -/
structure ActorRef where
  name : String
  actor : ActorId
  deriving DecidableEq, Inhabited

/-- What the names in a script stand for. -/
structure Stage where
  findActor : String → Option ActorId
  hasAnimation : ActorId → String → Bool
  hasParameter : ActorId → String → Bool
  findVariable : String → Option VariableId

instance : Inhabited Stage :=
  ⟨⟨fun _ => none, fun _ _ => false, fun _ _ => false, fun _ => none⟩⟩

end Promptbook
