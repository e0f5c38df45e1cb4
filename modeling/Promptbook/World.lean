import Promptbook.Action.Basic
import Promptbook.Bubble.Transcript
import Promptbook.Stage.Variables

set_option autoImplicit false

/-!
# The world of a performance

Scripts act upon actors, bubbles and variables.  Actors are whatever a `Company` says they are, and
bubbles whatever a `Presenter` says; each keeps its own state, may remark on what it does, and cannot
reach the state of the other.  `Host.ofParts` puts both together with the variables, the slots and the
journal.
-/

namespace Promptbook

/-- A result and the remarks that were made on the way. -/
abbrev Remarked (α : Type) := α × List String

/-- How actors work: `A` is the state of all of them and `α` an animation in progress. -/
structure Company (A α : Type) where
  hasParameter : A → ActorId → String → Bool
  position : A → ActorId → Position
  setParameter : ActorId → String → Bool → A → Remarked A
  play : ActorId → String → A → Remarked (α × A)
  step : α → Frame → A → Remarked (Step α A)

/-- How bubbles work: `B` is the state of all of them and `β` a bubble that is open. -/
structure Presenter (B β : Type) where
  showLine : String → Position → B × Selections → Remarked (β × B × Selections)
  showChoices : List String → Position → Slot → B × Selections → Remarked (β × B × Selections)
  step : β → Frame → B × Selections → Remarked (Step β (B × Selections))

/-- Everything that a script can act upon, and the journal of what happened. -/
structure World (A B : Type) where
  actors : A
  bubbles : B
  cells : Cells
  selections : Selections
  journal : Journal

namespace World

variable {A B : Type}

/-- Write a note into the journal. -/
def record (n : Note) (w : World A B) : World A B := { w with journal := w.journal.push n }

/-- Write notes into the journal. -/
def recordAll (ns : List Note) (w : World A B) : World A B := ns.foldl (fun w n => w.record n) w

/-- Write remarks into the journal. -/
def remark (texts : List String) (w : World A B) : World A B := w.recordAll (texts.map .remark)

@[simp]
theorem journal_record (n : Note) (w : World A B) :
    (w.record n).journal.toList = w.journal.toList ++ [n] := by
  simp [record]

@[simp]
theorem journal_recordAll (ns : List Note) (w : World A B) :
    (w.recordAll ns).journal.toList = w.journal.toList ++ ns := by
  induction ns generalizing w with
  | nil => simp [recordAll]
  | cons n ns ih =>
    have h := ih (w.record n)
    rw [journal_record] at h
    simpa [recordAll] using h

@[simp]
theorem actors_recordAll (ns : List Note) (w : World A B) : (w.recordAll ns).actors = w.actors := by
  induction ns generalizing w with
  | nil => rfl
  | cons n ns ih => exact ih (w.record n)

@[simp]
theorem cells_recordAll (ns : List Note) (w : World A B) : (w.recordAll ns).cells = w.cells := by
  induction ns generalizing w with
  | nil => rfl
  | cons n ns ih => exact ih (w.record n)

@[simp]
theorem selections_recordAll (ns : List Note) (w : World A B) :
    (w.recordAll ns).selections = w.selections := by
  induction ns generalizing w with
  | nil => rfl
  | cons n ns ih => exact ih (w.record n)

end World

namespace Host

variable {A α B β : Type}

/-- A frame of an animation. -/
def stepActor (company : Company A α) (work : α) (frame : Frame) (w : World A B) :
    Step (α ⊕ β) (World A B) :=
  let (s, remarks) := company.step work frame w.actors
  ⟨s.outcome, .inl s.next, { w with actors := s.world }.remark remarks⟩

/-- A frame of a bubble. -/
def stepBubble (presenter : Presenter B β) (work : β) (frame : Frame) (w : World A B) :
    Step (α ⊕ β) (World A B) :=
  let (s, remarks) := presenter.step work frame (w.bubbles, w.selections)
  ⟨s.outcome, .inr s.next,
    { w with bubbles := s.world.1, selections := s.world.2 }.remark remarks⟩

/-- Take over a bubble that was just opened. -/
def opened (r : Remarked (β × B × Selections)) (w : World A B) : (α ⊕ β) × World A B :=
  (.inr r.1.1, { w with bubbles := r.1.2.1, selections := r.1.2.2 }.remark r.2)

/-- The host of a company and a presenter. -/
def ofParts (company : Company A α) (presenter : Presenter B β) : Host (World A B) (α ⊕ β) where
  step work frame w :=
    match work with
    | .inl animation => stepActor company animation frame w
    | .inr bubble => stepBubble presenter bubble frame w
  hasParameter w actor parameter := company.hasParameter w.actors actor parameter
  position w actor := company.position w.actors actor
  setParameter actor parameter value w :=
    let (actors, remarks) := company.setParameter actor parameter value w.actors
    { w with actors := actors }.remark remarks
  play actor animation w :=
    let ((work, actors), remarks) := company.play actor animation w.actors
    (.inl work, { w with actors := actors }.remark remarks)
  showLine text position w :=
    opened (presenter.showLine text position (w.bubbles, w.selections)) w
  showChoices labels position slot w :=
    opened (presenter.showChoices labels position slot (w.bubbles, w.selections)) w
  openSlot w :=
    let (slot, selections) := w.selections.create
    (slot, { w with selections := selections })
  selected w slot := w.selections.selected slot
  setVariable id value w := { w with cells := w.cells.set id value }
  record n w := w.record n

end Host

/-- The presenter that keeps a transcript. -/
def Presenter.transcript (delays : Bubble.Delays) :
    Presenter Bubble.Transcript Bubble.OpenBubble where
  showLine text position w := ((.ofLine delays text position, w), [])
  showChoices labels position slot w := ((.ofChoices delays labels position slot, w), [])
  step b frame w := (b.advance frame w, [])

end Promptbook
