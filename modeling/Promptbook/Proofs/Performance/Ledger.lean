import Promptbook.World

set_option autoImplicit false

/-!
# Keeping a ledger

What a performance asks of actors, bubbles and variables can be watched from outside.
`Host.watched` does what another host does and keeps a ledger of it: every call together with the
world in which it was made, and every bubble that was done together with the world in which it was.

A ledger only grows.  `calledIn` and `doneIn` find the worlds of its moments by the number of calls
before them, and these stay the same however the ledger goes on.
-/

namespace Promptbook

/-- What is asked of an actor, a bubble or a variable. -/
inductive Call where
  | setParameter (actor : ActorId) (name : String) (value : Bool)
  | play (actor : ActorId) (animation : String)
  | setVariable (id : VariableId) (value : Bool)
  | showLine (text : String)
  | showChoices (labels : List String) (slot : Slot)
  deriving DecidableEq

/-- One moment of a performance. -/
inductive Moment (W : Type) where
  | called (call : Call) (world : W)
  /-- A bubble reported that it is done. -/
  | bubbleDone (world : W)

/-- The moments of a performance, in their order. -/
abbrev Ledger (W : Type) := List (Moment W)

namespace Ledger

variable {W : Type}

/-! ## Reading a ledger -/

/-- The calls that were made. -/
def calls : Ledger W → List Call
  | [] => []
  | .called call _ :: rest => call :: calls rest
  | .bubbleDone _ :: rest => calls rest

/-- The world in which the call of that number was made. -/
def calledIn : Ledger W → Nat → Option W
  | [], _ => none
  | .called _ w :: _, 0 => some w
  | .called _ _ :: rest, k + 1 => calledIn rest k
  | .bubbleDone _ :: rest, k => calledIn rest k

/-- The world in which a bubble was last done while so many calls had been made. -/
def doneIn : Ledger W → Nat → Option W
  | [], _ => none
  | .called _ _ :: _, 0 => none
  | .called _ _ :: rest, k + 1 => doneIn rest k
  | .bubbleDone w :: rest, 0 => (doneIn rest 0).or (some w)
  | .bubbleDone _ :: rest, k + 1 => doneIn rest (k + 1)

/-- How many calls were made. -/
def count (ledger : Ledger W) : Nat := ledger.calls.length

@[simp] theorem calls_append (ledger more : Ledger W) :
    Ledger.calls (ledger ++ more) = ledger.calls ++ more.calls := by
  induction ledger with
  | nil => rfl
  | cons moment rest ih => cases moment <;> simp [calls, ih]

theorem count_append (ledger more : Ledger W) :
    Ledger.count (ledger ++ more) = ledger.count + more.calls.length := by
  simp [count]

/-- The next call is found in the world that it was made in. -/
theorem calledIn_append (ledger : Ledger W) (call : Call) (w : W) (more : Ledger W) :
    Ledger.calledIn (ledger ++ .called call w :: more) ledger.count = some w := by
  induction ledger with
  | nil => rfl
  | cons moment rest ih =>
    cases moment with
    | called c v => exact ih
    | bubbleDone v => exact ih

theorem doneIn_append (ledger more : Ledger W) :
    Ledger.doneIn (ledger ++ more) ledger.count =
      (more.doneIn 0).or (ledger.doneIn ledger.count) := by
  induction ledger with
  | nil => simp [doneIn, count, calls]
  | cons moment rest ih =>
    cases moment with
    | called c v => exact ih
    | bubbleDone v =>
      have hcount : count (.bubbleDone v :: rest) = count rest := rfl
      rw [hcount, List.cons_append]
      cases hk : count rest with
      | zero =>
        rw [hk] at ih
        rw [doneIn, doneIn, ih, Option.or_assoc]
      | succ k =>
        rw [hk] at ih
        exact ih

/-! ## How a ledger goes on -/

/-- The full ledger begins with what was written so far; and when the performance is done, no bubble
is done any more before the next call. -/
def Continues (full ledger : Ledger W) (outcome : Outcome) : Prop :=
  ledger <+: full ∧ (outcome = .ok .done → full.doneIn ledger.count = ledger.doneIn ledger.count)

theorem Continues.refl (ledger : Ledger W) (outcome : Outcome) :
    Continues ledger ledger outcome :=
  ⟨List.prefix_refl ledger, fun _ => rfl⟩

/-- What was written while something new began: first a call, or nothing if it was done at once. -/
def Opens (added : Ledger W) (outcome : Outcome) : Prop :=
  (∃ call w more, added = .called call w :: more) ∨ (added = [] ∧ outcome = .ok .done)

theorem Opens.append {first more : Ledger W} {outcome : Outcome} (h : Opens first (.ok .done))
    (hmore : Opens more outcome) : Opens (first ++ more) outcome := by
  rcases h with ⟨call, w, rest, rfl⟩ | ⟨rfl, -⟩
  · exact .inl ⟨call, w, rest ++ more, rfl⟩
  · exact hmore

/-- What was done before something new began stays as it was. -/
theorem Continues.before_opening {full ledger added : Ledger W} {outcome : Outcome}
    (h : Continues full (ledger ++ added) outcome) (hopens : Opens added outcome) :
    Continues full ledger (.ok .done) := by
  obtain ⟨⟨future, rfl⟩, hdone⟩ := h
  refine ⟨⟨added ++ future, by rw [List.append_assoc]⟩, fun _ => ?_⟩
  rcases hopens with ⟨call, w, more, rfl⟩ | ⟨rfl, houtcome⟩
  · rw [List.append_assoc, doneIn_append]
    rfl
  · simpa using hdone houtcome

theorem Continues.calledIn_eq {full ledger more : Ledger W} {call : Call} {w : W}
    {outcome : Outcome} (h : Continues full (ledger ++ .called call w :: more) outcome) :
    full.calledIn ledger.count = some w := by
  obtain ⟨⟨future, rfl⟩, -⟩ := h
  rw [List.append_assoc, List.cons_append]
  exact calledIn_append ledger call w _

/-- A bubble that was done last is found in the world that it was done in. -/
theorem Continues.doneIn_eq {full ledger : Ledger W} {w : W}
    (h : Continues full (ledger ++ [.bubbleDone w]) (.ok .done)) :
    full.doneIn ledger.count = some w := by
  obtain ⟨-, hdone⟩ := h
  have hcount : count (ledger ++ [.bubbleDone w]) = ledger.count := count_append ledger _
  rw [← hcount, hdone rfl, hcount, doneIn_append]
  rfl

end Ledger

/-! ## Watching a host -/

/-- A world and the ledger of what was asked of it. -/
structure Watched (W : Type) where
  world : W
  ledger : Ledger W

namespace Watched

variable {W : Type}

/-- The same ledger with another world. -/
def moved (w : Watched W) (world : W) : Watched W := ⟨world, w.ledger⟩

/-- A call is made and leaves another world. -/
def called (call : Call) (w : Watched W) (after : W) : Watched W :=
  ⟨after, w.ledger ++ [.called call w.world]⟩

end Watched

/-- What is written down of a step: that a bubble is done. -/
def Ledger.ofStep {W α β : Type} (work : α ⊕ β) (s : Step (α ⊕ β) W) : Ledger W :=
  match work, s.outcome with
  | .inr _, .ok .done => [.bubbleDone s.world]
  | _, _ => []

/-- The host that does the same and keeps a ledger. -/
def Host.watched {W α β : Type} (host : Host W (α ⊕ β)) : Host (Watched W) (α ⊕ β) where
  step work frame w :=
    let s := host.step work frame w.world
    ⟨s.outcome, s.next, ⟨s.world, w.ledger ++ .ofStep work s⟩⟩
  hasParameter w := host.hasParameter w.world
  position w := host.position w.world
  setParameter actor name value w :=
    w.called (.setParameter actor name value) (host.setParameter actor name value w.world)
  play actor animation w :=
    let (work, world) := host.play actor animation w.world
    (work, w.called (.play actor animation) world)
  showLine text position w :=
    let (bubble, world) := host.showLine text position w.world
    (bubble, w.called (.showLine text) world)
  showChoices labels position slot w :=
    let (bubble, world) := host.showChoices labels position slot w.world
    (bubble, w.called (.showChoices labels slot) world)
  openSlot w :=
    let (slot, world) := host.openSlot w.world
    (slot, w.moved world)
  selected w := host.selected w.world
  setVariable id value w := w.called (.setVariable id value) (host.setVariable id value w.world)
  record note w := w.moved (host.record note w.world)

section Watching

variable {W α β : Type} {host : Host W (α ⊕ β)} {frame : Frame} {w : Watched W}
  {next : α ⊕ β} {after : W}

theorem watched_step_of_done {bubble : β}
    (h : host.step (.inr bubble) frame w.world = ⟨.ok .done, next, after⟩) :
    host.watched.step (.inr bubble) frame w =
      ⟨.ok .done, next, ⟨after, w.ledger ++ [.bubbleDone after]⟩⟩ := by
  simp only [Host.watched, h]
  rfl

theorem watched_step_of_ne {work : α ⊕ β} {outcome : Outcome}
    (h : host.step work frame w.world = ⟨outcome, next, after⟩) (hne : outcome ≠ .ok .done) :
    host.watched.step work frame w = ⟨outcome, next, w.moved after⟩ := by
  have hnothing : Ledger.ofStep work ⟨outcome, next, after⟩ = [] := by
    unfold Ledger.ofStep
    split
    · exact absurd ‹_› hne
    · rfl
  simp only [Host.watched, h, hnothing, List.append_nil]
  rfl

/-- The work of actors is no moment of its own. -/
theorem watched_step_animation {animation : α} {outcome : Outcome}
    (h : host.step (.inl animation) frame w.world = ⟨outcome, next, after⟩) :
    host.watched.step (.inl animation) frame w = ⟨outcome, next, w.moved after⟩ := by
  simp only [Host.watched, h, Ledger.ofStep, List.append_nil]
  rfl

theorem watched_play {actor : ActorId} {animation : String} {work : α ⊕ β}
    (h : host.play actor animation w.world = (work, after)) :
    host.watched.play actor animation w = (work, w.called (.play actor animation) after) := by
  simp only [Host.watched, h]

theorem watched_showLine {text : String} {position : Position} {bubble : α ⊕ β}
    (h : host.showLine text position w.world = (bubble, after)) :
    host.watched.showLine text position w = (bubble, w.called (.showLine text) after) := by
  simp only [Host.watched, h]

theorem watched_showChoices {labels : List String} {position : Position} {slot : Slot}
    {bubble : α ⊕ β} (h : host.showChoices labels position slot w.world = (bubble, after)) :
    host.watched.showChoices labels position slot w =
      (bubble, w.called (.showChoices labels slot) after) := by
  simp only [Host.watched, h]

end Watching

end Promptbook
