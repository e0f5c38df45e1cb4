set_option autoImplicit false

/-!
# Selections

A choice bubble tells the script which label was selected through a slot: the bubble writes an index
into it, the script reads it once the bubble is finished.  A second selection replaces the first.
-/

namespace Promptbook

/-- Handle of a slot. -/
structure Slot where
  index : Nat
  deriving DecidableEq, Inhabited

/-- What has been selected, by slot. -/
structure Selections where
  values : List (Option Nat)
  deriving DecidableEq, Inhabited

namespace Selections

/-- No slots. -/
def empty : Selections := ⟨[]⟩

/-- A slot that no other handle stands for, with nothing selected. -/
def create (s : Selections) : Slot × Selections := (⟨s.values.length⟩, ⟨s.values ++ [none]⟩)

/-- Select an index. -/
def select (slot : Slot) (index : Nat) (s : Selections) : Selections :=
  ⟨s.values.set slot.index (some index)⟩

/-- What was selected last, if anything. -/
def selected (s : Selections) (slot : Slot) : Option Nat := s.values.getD slot.index none

/-- Nothing is selected in a new slot. -/
theorem selected_create (s : Selections) : s.create.2.selected s.create.1 = none := by
  simp [create, selected]

/-- The last selection counts. -/
theorem selected_select_self {s : Selections} {slot : Slot} (h : slot.index < s.values.length)
    (index : Nat) : (s.select slot index).selected slot = some index := by
  simp [select, selected, List.getD_eq_getElem?_getD, h]

/-- Selecting leaves other slots alone. -/
theorem selected_select_of_ne (s : Selections) {slot other : Slot} (h : other ≠ slot)
    (index : Nat) : (s.select slot index).selected other = s.selected other := by
  have hne : slot.index ≠ other.index := fun e => h (by cases slot; cases other; simp_all)
  simp [select, selected, List.getD_eq_getElem?_getD, hne]

end Selections

end Promptbook
