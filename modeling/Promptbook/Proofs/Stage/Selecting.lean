import Promptbook.Stage.Selection

set_option autoImplicit false

/-!
# Selecting again and again

Nothing can be done to slots but to create one and to select an index in one.  After any such
changes, made by whomever, what is selected in a slot is the index that was written into it last
(`Selections.selected_changed`).
-/

namespace Promptbook.Selections

/-- What can be done to slots. -/
inductive Change where
  | created
  | selected (slot : Slot) (index : Nat)
  deriving DecidableEq

/-- The slots after a change. -/
def changedBy (s : Selections) : Change → Selections
  | .created => s.create.2
  | .selected slot index => s.select slot index

/-- The slots after some changes. -/
def changed (s : Selections) (changes : List Change) : Selections := changes.foldl changedBy s

/-- The index that a change writes into a slot. -/
def Change.index? (slot : Slot) : Change → Option Nat
  | .created => none
  | .selected other index => if other = slot then some index else none

/-- The last index that some changes write into a slot. -/
def lastIndex? (slot : Slot) (changes : List Change) : Option Nat :=
  (changes.filterMap (Change.index? slot)).getLast?

theorem changed_append (s : Selections) (changes more : List Change) :
    s.changed (changes ++ more) = (s.changed changes).changed more :=
  List.foldl_append

/-- No slot is taken away. -/
theorem length_le_changedBy (s : Selections) (change : Change) :
    s.values.length ≤ (s.changedBy change).values.length := by
  cases change <;> simp [changedBy, create, select]

theorem selected_changedBy {s : Selections} {slot : Slot} (h : slot.index < s.values.length)
    (change : Change) :
    (s.changedBy change).selected slot = (change.index? slot).or (s.selected slot) := by
  cases change with
  | created => simp [changedBy, create, Selections.selected, Change.index?, List.getD_eq_getElem?_getD,
      List.getElem?_append_left h]
  | selected other index =>
    by_cases hother : other = slot
    · subst hother
      simp [changedBy, Change.index?, selected_select_self h]
    · simp [changedBy, Change.index?, hother, selected_select_of_ne s (Ne.symm hother)]

/-- What is selected in a slot after some changes is what was written into it last, or else what was
selected before. -/
theorem selected_changed {s : Selections} {slot : Slot} (h : slot.index < s.values.length)
    (changes : List Change) :
    (s.changed changes).selected slot = (lastIndex? slot changes).or (s.selected slot) := by
  induction changes generalizing s with
  | nil => rfl
  | cons change changes ih =>
    have hlater := ih (Nat.lt_of_lt_of_le h (s.length_le_changedBy change))
    have hlast : lastIndex? slot (change :: changes) =
        (lastIndex? slot changes).or (change.index? slot) := by
      unfold lastIndex?
      cases hindex : change.index? slot with
      | none => simp [hindex]
      | some index => simp [hindex, List.getLast?_cons]
    rw [changed, List.foldl_cons, ← changed, hlater, selected_changedBy h, hlast, Option.or_assoc]

/-- In a slot that was just created the last index that is written counts, and before there is one
nothing is selected. -/
theorem selected_changed_create (s : Selections) (changes : List Change) :
    (s.create.2.changed changes).selected s.create.1 = lastIndex? s.create.1 changes := by
  rw [selected_changed (by simp [create]), selected_create, Option.or_none]

end Promptbook.Selections
