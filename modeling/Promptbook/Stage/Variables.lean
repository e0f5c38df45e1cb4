import Promptbook.Stage.Lookup

set_option autoImplicit false

/-!
# Boolean variables

A variable is a cell that can be written; a context gives names to cells.  A name keeps its cell
forever, so whoever holds a handle sees every later value of the name.  Names stay in the order in
which they were added.
-/

namespace Promptbook

/-! ## Cells -/

/-- The values of all variables, by handle. -/
structure Cells where
  values : List Bool
  deriving DecidableEq, Inhabited

namespace Cells

/-- No variables. -/
def empty : Cells := ⟨[]⟩

/-- The value of a variable. -/
def get (c : Cells) (id : VariableId) : Bool := c.values.getD id.index false

/-- Write a variable. -/
def set (id : VariableId) (value : Bool) (c : Cells) : Cells := ⟨c.values.set id.index value⟩

/-- A variable that no other handle stands for. -/
def create (value : Bool) (c : Cells) : VariableId × Cells :=
  (⟨c.values.length⟩, ⟨c.values ++ [value]⟩)

/-- A written variable has the value that was written. -/
theorem get_set_self {c : Cells} {id : VariableId} (h : id.index < c.values.length)
    (value : Bool) : (c.set id value).get id = value := by
  simp [get, set, List.getD_eq_getElem?_getD, h]

/-- Writing a variable leaves the others alone. -/
theorem get_set_of_ne (c : Cells) {id other : VariableId} (h : other ≠ id) (value : Bool) :
    (c.set id value).get other = c.get other := by
  have hne : id.index ≠ other.index := fun e => h (by cases id; cases other; simp_all)
  simp [get, set, List.getD_eq_getElem?_getD, hne]

end Cells

/-! ## Contexts -/

/-- Named variables, in the order in which they were added. -/
structure Context where
  entries : List (String × VariableId)
  deriving DecidableEq, Inhabited

/-- A context together with the cells that its names stand for, and a variable in it. -/
structure Added where
  id : VariableId
  context : Context
  cells : Cells

namespace Context

/-- No names. -/
def empty : Context := ⟨[]⟩

/-- The names, in the order in which they were added. -/
def names (c : Context) : List String := c.entries.map (·.1)

/-- The variable of that name. -/
def find? (c : Context) (name : String) : Option VariableId :=
  (c.entries.find? fun e => e.1 == name).map (·.2)

/-- Add a variable with a value.  A name that is already there keeps its variable, which is
written. -/
def add (c : Context) (name : String) (value : Bool) (cells : Cells) : Added :=
  match c.find? name with
  | some id => ⟨id, c, cells.set id value⟩
  | none =>
    let (id, cells) := cells.create value
    ⟨id, ⟨c.entries ++ [(name, id)]⟩, cells⟩

/-- The value of the variable of that name. -/
def get? (c : Context) (name : String) (cells : Cells) : Option Bool :=
  (c.find? name).map cells.get

/-- All names with their values. -/
def values (c : Context) (cells : Cells) : List (String × Bool) :=
  c.entries.map fun e => (e.1, cells.get e.2)

/-- Write the variables that a snapshot names; what it names besides is ignored. -/
def restore (c : Context) (snapshot : List (String × Bool)) (cells : Cells) : Cells :=
  c.entries.foldl (fun cells e =>
    match snapshot.lookup e.1 with
    | some value => cells.set e.2 value
    | none => cells) cells

/-- Adding a name that is already there keeps the names. -/
theorem names_add (c : Context) (name : String) (value : Bool) (cells : Cells) :
    (c.add name value cells).context.names =
      if name ∈ c.names then c.names else c.names ++ [name] := by
  have hmem : name ∈ c.names ↔ (c.find? name).isSome = true := by
    simp [names, find?, Option.isSome_map, List.find?_isSome]
  simp only [hmem, add]
  cases h : c.find? name with
  | some id => simp
  | none => simp [names]

end Context

end Promptbook
