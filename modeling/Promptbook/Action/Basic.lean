import Promptbook.Journal
import Promptbook.Stage.Selection
import Promptbook.Timer

set_option autoImplicit false

/-!
# Actions

An action is work that takes any number of frames.  It does not run by itself: whoever owns it
advances it once per frame, and it reports whether it has more to do.

What an action does to the world it does through a `Host`, which knows the actors, the bubbles and
the variables.  The work that these take over, playing an animation or showing a bubble, is a machine
that the host can step.
-/

namespace Promptbook

/-- What actions can ask of a world `W`; `κ` is the work that actors and bubbles take over. -/
structure Host (W κ : Type) where
  step : κ → Frame → W → Step κ W
  hasParameter : W → ActorId → String → Bool
  position : W → ActorId → Position
  setParameter : ActorId → String → Bool → W → W
  play : ActorId → String → W → κ × W
  showLine : String → Position → W → κ × W
  showChoices : List String → Position → Slot → W → κ × W
  openSlot : W → Slot × W
  selected : W → Slot → Option Nat
  setVariable : VariableId → Bool → W → W
  record : Note → W → W

/-- A line to be spoken: what is said by whom, the parameter that is set meanwhile and how far above
the actor the bubble is shown. -/
structure Delivery where
  speaker : ActorRef
  text : String
  talkingParameter : String
  bubbleHeight : Float32
  deriving DecidableEq, Inhabited

/-- A choice to be put: its labels, the actor above which it is shown and how far above. -/
structure Question where
  asker : ActorRef
  labels : List String
  bubbleHeight : Float32
  deriving DecidableEq, Inhabited

/-- An action in some stage of its work. -/
inductive Action (W κ : Type) where
  /-- The work of an actor or a bubble. -/
  | machine (work : κ)
  | wait (timer : Timer)
  /-- Wait until a condition holds, which is tried in every frame. -/
  | waitUntil (condition : Frame → W → Bool × W)
  /-- Change the world in the first frame; done in the next. -/
  | effect (perform : W → W)
  | finished
  /-- An action that is only made when it is reached. -/
  | deferred (prepare : W → W) (create : W → Action W κ)
  /-- One child after the other, those that are not finished. -/
  | sequence (children : List (Action W κ))
  /-- All children at the same time, those that are not finished. -/
  | parallel (children : List (Action W κ))
  /-- A line that has not been started. -/
  | speak (delivery : Delivery)
  /-- A line whose bubble is open, and whether the talking parameter was set. -/
  | speaking (delivery : Delivery) (talking : Bool) (bubble : κ)
  /-- A choice that has not been put. -/
  | prompt (question : Question) (branches : List (Action W κ))
  /-- A choice whose bubble is open. -/
  | choosing (question : Question) (slot : Slot) (bubble : κ) (branches : List (Action W κ))
  /-- The branch that was chosen. -/
  | following (branch : Action W κ)

namespace Action

variable {W κ : Type}

instance : Inhabited (Action W κ) := ⟨finished⟩

/-! ## Making actions -/

/-- Wait for a duration. -/
def pause (duration : Duration) : Action W κ := .wait (.start duration)

/-- One action, then another. -/
def andThen (first second : Action W κ) : Action W κ := .sequence [first, second]

/-- Two actions at the same time. -/
def alongside (first second : Action W κ) : Action W κ := .parallel [first, second]

/-- How many children of a sequence or of parallel actions are not finished. -/
def unfinished? : Action W κ → Option Nat
  | sequence children => some children.length
  | parallel children => some children.length
  | _ => none

/-! ## Opening bubbles -/

/-- Start a line: set the talking parameter if the actor has it, then show the bubble. -/
def openLine (host : Host W κ) (d : Delivery) (w : W) : Bool × κ × W :=
  let actor := d.speaker.actor
  let talking := host.hasParameter w actor d.talkingParameter
  let w :=
    if talking then
      host.setParameter actor d.talkingParameter true
        (host.record (.talking d.speaker d.talkingParameter true) w)
    else w
  let position := (host.position w actor).raised d.bubbleHeight
  let (bubble, w) := host.showLine d.text position (host.record (.showingLine d.text position) w)
  (talking, bubble, w)

/-- Put a choice: show its labels, with a new slot for the selection. -/
def openChoices (host : Host W κ) (q : Question) (w : W) : Slot × κ × W :=
  let position := (host.position w q.asker.actor).raised q.bubbleHeight
  let (slot, w) := host.openSlot w
  let (bubble, w) :=
    host.showChoices q.labels position slot (host.record (.showingChoices q.labels position) w)
  (slot, bubble, w)

/-! ## Steps of single nodes -/

/-- A frame of an open line.  When the bubble is finished the talking parameter is taken back. -/
def stepLine (host : Host W κ) (frame : Frame) (d : Delivery) (talking : Bool) (bubble : κ) (w : W) :
    Step (Action W κ) W :=
  let s := host.step bubble frame w
  match s.outcome with
  | .ok .done =>
    ⟨.ok .done, .finished,
      if talking then
        host.setParameter d.speaker.actor d.talkingParameter false
          (host.record (.talking d.speaker d.talkingParameter false) s.world)
      else s.world⟩
  | outcome => ⟨outcome, .speaking d talking s.next, s.world⟩

/-- What a chosen branch comes to in a frame. -/
def settle (s : Step (Action W κ) W) : Step (Action W κ) W :=
  match s.outcome with
  | .ok .done => ⟨.ok .done, .finished, s.world⟩
  | outcome => ⟨outcome, .following s.next, s.world⟩

/-- A frame of an open choice.  When the bubble is finished the selected branch starts in the same
frame; `follow` advances the branch of an index. -/
def stepChoice (host : Host W κ) (frame : Frame) (q : Question) (slot : Slot) (bubble : κ)
    (branches : List (Action W κ)) (follow : Nat → W → Option (Step (Action W κ) W)) (w : W) :
    Step (Action W κ) W :=
  let s := host.step bubble frame w
  match s.outcome with
  | .ok .done =>
    match host.selected s.world slot with
    | none => ⟨.error (.failed .noSelection), .choosing q slot s.next branches, s.world⟩
    | some index =>
      let w := host.record (.chose q.asker (q.labels.getD index "")) s.world
      match follow index w with
      | none =>
        ⟨.error (.failed (.invalidSelection index branches.length)),
          .choosing q slot s.next [], w⟩
      | some branch => settle branch
  | outcome => ⟨outcome, .choosing q slot s.next branches, s.world⟩

/-! ## Advancing -/

mutual

/-- Advance an action by one frame. -/
def advance (host : Host W κ) (frame : Frame) : Action W κ → W → Step (Action W κ) W
  | .machine work, w => (host.step work frame w).mapNext .machine
  | .wait timer, w =>
    let (outcome, timer) := timer.advance frame.delta
    ⟨outcome, .wait timer, w⟩
  | .waitUntil condition, w =>
    let (holds, w) := condition frame w
    ⟨.ok (if holds then .done else .running), .waitUntil condition, w⟩
  | .effect perform, w => ⟨.ok .running, .finished, perform w⟩
  | .finished, w => ⟨.ok .done, .finished, w⟩
  | .deferred prepare create, w => advance host frame (create w) (prepare w)
  | .sequence children, w => (advanceSequence host frame children w).mapNext .sequence
  | .parallel children, w => (advanceParallel host frame children w).mapNext .parallel
  | .speak d, w =>
    let (talking, bubble, w) := openLine host d w
    stepLine host frame d talking bubble w
  | .speaking d talking bubble, w => stepLine host frame d talking bubble w
  | .prompt q branches, w =>
    let (slot, bubble, w) := openChoices host q w
    stepChoice host frame q slot bubble branches (advanceNth host frame branches) w
  | .choosing q slot bubble branches, w =>
    stepChoice host frame q slot bubble branches (advanceNth host frame branches) w
  | .following branch, w => settle (advance host frame branch w)

/-- Advance the first child; when it is done, the next one in the same frame. -/
def advanceSequence (host : Host W κ) (frame : Frame) :
    List (Action W κ) → W → Step (List (Action W κ)) W
  | [], w => ⟨.ok .done, [], w⟩
  | child :: rest, w =>
    let s := advance host frame child w
    match s.outcome with
    | .ok .done => advanceSequence host frame rest s.world
    | outcome => ⟨outcome, s.next :: rest, s.world⟩

/-- Advance every child from left to right; an error leaves those to its right for the next time. -/
def advanceParallel (host : Host W κ) (frame : Frame) :
    List (Action W κ) → W → Step (List (Action W κ)) W
  | [], w => ⟨.ok .done, [], w⟩
  | child :: rest, w =>
    let s := advance host frame child w
    match s.outcome with
    | .ok .done => advanceParallel host frame rest s.world
    | .ok .running =>
      let t := advanceParallel host frame rest s.world
      ⟨t.outcome.map fun _ => .running, s.next :: t.next, t.world⟩
    | .error fault => ⟨.error fault, s.next :: rest, s.world⟩

/-- Advance the child of an index, if there is one. -/
def advanceNth (host : Host W κ) (frame : Frame) :
    List (Action W κ) → Nat → W → Option (Step (Action W κ) W)
  | [], _, _ => none
  | child :: _, 0, w => some (advance host frame child w)
  | _ :: rest, n + 1, w => advanceNth host frame rest n w

end

/-- The child of an index is advanced like any action. -/
theorem advanceNth_eq (host : Host W κ) (frame : Frame) (children : List (Action W κ)) (n : Nat)
    (w : W) : advanceNth host frame children n w =
      children[n]?.map fun child => advance host frame child w := by
  induction children generalizing n with
  | nil => simp [advanceNth]
  | cons child rest ih => cases n <;> simp [advanceNth, ih]

end Action

end Promptbook
