import Promptbook.Text.Hex
import Promptbook.World

set_option autoImplicit false

/-!
# Bubbles that answer by themselves

Bubbles for rehearsing a script without a player: a line closes after a number of frames, and a choice
submits the answers that were prepared for it and closes at once.
-/

namespace Promptbook.Rehearsal

/-- The answers prepared for the choices to come, and how long a line stays open. -/
structure Answers where
  prepared : List (List Nat)
  lineTicks : Nat
  deriving DecidableEq, Inhabited

/-- An open bubble. -/
inductive Answering where
  | line (ticks advances : Nat)
  | choice (slot : Slot) (answers : List Nat)
  deriving DecidableEq, Inhabited

/-- A position as it is remarked. -/
def describePosition (p : Position) : String :=
  " @ " ++ Text.singleBits p.x ++ " " ++ Text.singleBits p.y

/-- Submit one answer after the other. -/
def selectAll (slot : Slot) (answers : List Nat) (s : Selections) : Selections :=
  answers.foldl (fun s index => s.select slot index) s

/-- The presenter whose bubbles answer by themselves. -/
def answering : Presenter Answers Answering where
  showLine text position w :=
    ((.line w.1.lineTicks 0, w), ["line " ++ text ++ describePosition position])
  showChoices labels position slot w :=
    let remark := "choices " ++ "|".intercalate labels ++ describePosition position
    match w.1.prepared with
    | [] => ((.choice slot [], w), [remark])
    | answers :: rest => ((.choice slot answers, { w.1 with prepared := rest }, w.2), [remark])
  step bubble _ w :=
    match bubble with
    | .line ticks n =>
      (⟨.ok (if ticks ≤ n + 1 then .done else .running), .line ticks (n + 1), w⟩, [])
    | .choice slot answers =>
      (⟨.ok .done, .choice slot answers, (w.1, selectAll slot answers w.2)⟩, [])

end Promptbook.Rehearsal
