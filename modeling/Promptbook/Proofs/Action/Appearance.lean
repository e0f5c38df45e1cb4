import Promptbook.Proofs.Action.Stepping

set_option autoImplicit false

/-!
# Appearances

Who is advanced when can be watched from outside.  `Host.attended` is the host on which actions can
be played under a name; it does what another host does, and whenever a named action is advanced the
appearance is written down, with the worlds before and after it.

`Action.advance_named` says what an appearance is.
-/

namespace Promptbook

/-- One advance of a named action. -/
structure Appearance (ι W : Type) where
  name : ι
  frame : Frame
  before : W
  outcome : Outcome
  after : W

/-- A world and the appearances that were made in it, in their order. -/
structure Attended (ι W : Type) where
  world : W
  appearances : List (Appearance ι W)

namespace Attended

variable {ι W : Type}

/-- The same appearances in another world. -/
def moved (w : Attended ι W) (world : W) : Attended ι W := ⟨world, w.appearances⟩

/-- The world after an appearance, which is written down. -/
def entered (w : Attended ι W) (a : Appearance ι W) : Attended ι W :=
  ⟨a.after, w.appearances ++ [a]⟩

end Attended

/-- The host that does the same, on which actions can be played under a name. -/
def Host.attended {ι W κ : Type} (host : Host W κ) :
    Host (Attended ι W) (κ ⊕ (ι × Action W κ)) where
  step work frame w :=
    match work with
    | .inl work =>
      let s := host.step work frame w.world
      ⟨s.outcome, .inl s.next, w.moved s.world⟩
    | .inr (name, action) =>
      let s := action.advance host frame w.world
      ⟨s.outcome, .inr (name, s.next), w.entered ⟨name, frame, w.world, s.outcome, s.world⟩⟩
  hasParameter w := host.hasParameter w.world
  position w := host.position w.world
  setParameter actor name value w := w.moved (host.setParameter actor name value w.world)
  play actor animation w :=
    let (work, world) := host.play actor animation w.world
    (.inl work, w.moved world)
  showLine text position w :=
    let (bubble, world) := host.showLine text position w.world
    (.inl bubble, w.moved world)
  showChoices labels position slot w :=
    let (bubble, world) := host.showChoices labels position slot w.world
    (.inl bubble, w.moved world)
  openSlot w :=
    let (slot, world) := host.openSlot w.world
    (slot, w.moved world)
  selected w := host.selected w.world
  setVariable id value w := w.moved (host.setVariable id value w.world)
  record note w := w.moved (host.record note w.world)

namespace Action

variable {ι W κ : Type}

/-- An action that is played under a name. -/
def named (name : ι) (action : Action W κ) : Action (Attended ι W) (κ ⊕ (ι × Action W κ)) :=
  .machine (.inr (name, action))

/-- A named action is advanced as it is, and its appearance is written down. -/
theorem advance_named (host : Host W κ) (frame : Frame) (name : ι) (action : Action W κ)
    (w : Attended ι W) :
    advance host.attended frame (.named name action) w =
      let s := advance host frame action w.world
      ⟨s.outcome, .named name s.next, w.entered ⟨name, frame, w.world, s.outcome, s.world⟩⟩ := by
  rw [named, advance]
  rfl

end Action

end Promptbook
