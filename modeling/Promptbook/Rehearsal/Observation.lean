import Promptbook.Rehearsal.Answering
import Promptbook.Rehearsal.Puppet

set_option autoImplicit false

/-!
# Watching a rehearsal

A rehearsal is a world of puppets that is observed from time to time.  An observation tells what has
happened since the one before it, and what can be seen now.
-/

namespace Promptbook.Rehearsal

/-- What happened since the last observation, and what can be seen now. -/
structure Observation where
  remarks : List String
  entries : List Bubble.Entry
  display : String
  «variables» : List (String × Bool)
  logs : List (Level × String)
  deriving DecidableEq, Inhabited

/-- A world of puppets with the names of its variables, and how many entries of the transcript were
observed. -/
structure Show (B : Type) where
  world : World Cast B
  context : Context
  observed : Nat

/-- Bubbles to rehearse with, and the transcript that they keep. -/
structure Medium (B β : Type) where
  presenter : Presenter B β
  transcript : B → Bubble.Transcript

namespace Medium

variable {B β : Type}

/-- Bubbles that keep a transcript. -/
def ofDelays (delays : Bubble.Delays) : Medium Bubble.Transcript Bubble.OpenBubble :=
  ⟨.transcript delays, id⟩

/-- Bubbles that answer by themselves, beside a transcript that stays empty. -/
def answering : Medium Answers Answering := ⟨Rehearsal.answering, fun _ => .empty⟩

/-- What actions can ask of a world of puppets. -/
def host (m : Medium B β) : Host (World Cast B) (Part ⊕ β) := .ofParts puppets m.presenter

end Medium

namespace Show

variable {B β : Type}

/-- A rehearsal of which nothing has been observed. -/
def start (cast : Cast) (bubbles : B) (context : Context) (cells : Cells) : Show B :=
  ⟨⟨cast, bubbles, cells, .empty, #[]⟩, context, 0⟩

/-- What the names in a script stand for now. -/
def stage (r : Show B) : Stage := r.world.actors.stage r.context

/-- Observe a rehearsal. -/
def observe (m : Medium B β) (r : Show B) : Observation × Show B :=
  let notes := r.world.journal.toList
  let transcript := m.transcript r.world.bubbles
  (⟨notes.filterMap Note.remark?, transcript.entries.drop r.observed, transcript.display,
      r.context.values r.world.cells, notes.filterMap Note.logged?⟩,
    { r with world := { r.world with journal := #[] }, observed := transcript.entries.length })

/-- Advance an action once per frame and observe what happens.  When the action is done or fails, no
further frame is used, unless `pastEnd` asks for it. -/
def play (m : Medium B β) (pastEnd : Bool) :
    List Frame → Action (World Cast B) (Part ⊕ β) → Show B →
      List (Outcome × Action (World Cast B) (Part ⊕ β) × Observation) × Show B
  | [], _, r => ([], r)
  | frame :: frames, action, r =>
    let s := action.advance m.host frame r.world
    let (seen, r) := { r with world := s.world }.observe m
    match s.outcome, pastEnd with
    | .ok .running, _ | .ok .done, true | .error (.failed _), true =>
      let (later, r) := play m pastEnd frames s.next r
      ((s.outcome, s.next, seen) :: later, r)
    | _, _ => ([(s.outcome, s.next, seen)], r)

end Show

end Promptbook.Rehearsal
