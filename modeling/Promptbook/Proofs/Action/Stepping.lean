import Promptbook.Action.Basic

set_option autoImplicit false

/-!
# What a frame comes to

The equations of single nodes, told apart by whether the work inside them is done: what is done is
left behind in the same frame, and what is not is kept in the state in which it was suspended.
-/

namespace Promptbook.Action

variable {W κ : Type} {host : Host W κ} {frame : Frame}

/-! ## Lines -/

/-- A line whose actor does not have the talking parameter only opens its bubble. -/
theorem openLine_of_silent {d : Delivery} {w after : W} {position : Position} {bubble : κ}
    (h : host.hasParameter w d.speaker.actor d.talkingParameter = false)
    (hposition : (host.position w d.speaker.actor).raised d.bubbleHeight = position)
    (hshow : host.showLine d.text position (host.record (.showingLine d.text position) w) =
      (bubble, after)) :
    openLine host d w = (false, bubble, after) := by
  unfold openLine
  simp only [h, hposition, hshow, Bool.false_eq_true, if_false]

/-- A line whose actor has the talking parameter sets it before its bubble opens. -/
theorem openLine_of_talking {d : Delivery} {w set after : W} {position : Position} {bubble : κ}
    (h : host.hasParameter w d.speaker.actor d.talkingParameter = true)
    (hset : host.setParameter d.speaker.actor d.talkingParameter true
      (host.record (.talking d.speaker d.talkingParameter true) w) = set)
    (hposition : (host.position set d.speaker.actor).raised d.bubbleHeight = position)
    (hshow : host.showLine d.text position (host.record (.showingLine d.text position) set) =
      (bubble, after)) :
    openLine host d w = (true, bubble, after) := by
  unfold openLine
  simp only [h, hset, hposition, hshow, if_true]

theorem advance_speak {d : Delivery} {talking : Bool} {bubble : κ} {w after : W}
    (h : openLine host d w = (talking, bubble, after)) :
    advance host frame (.speak d) w = stepLine host frame d talking bubble after := by
  rw [advance, h]

theorem stepLine_of_done {d : Delivery} {talking : Bool} {bubble next : κ} {w after : W}
    (h : host.step bubble frame w = ⟨.ok .done, next, after⟩) :
    stepLine host frame d talking bubble w =
      ⟨.ok .done, .finished,
        if talking then
          host.setParameter d.speaker.actor d.talkingParameter false
            (host.record (.talking d.speaker d.talkingParameter false) after)
        else after⟩ := by
  unfold stepLine
  rw [h]

theorem stepLine_of_ne {d : Delivery} {talking : Bool} {bubble next : κ} {w after : W}
    {outcome : Outcome} (h : host.step bubble frame w = ⟨outcome, next, after⟩)
    (hne : outcome ≠ .ok .done) :
    stepLine host frame d talking bubble w = ⟨outcome, .speaking d talking next, after⟩ := by
  unfold stepLine
  rw [h]
  dsimp only
  split
  · exact absurd rfl hne
  · rfl

/-! ## Chosen branches -/

theorem settle_of_done {s : Step (Action W κ) W} (h : s.outcome = .ok .done) :
    settle s = ⟨.ok .done, .finished, s.world⟩ := by
  unfold settle
  rw [h]

theorem settle_of_ne {s : Step (Action W κ) W} (h : s.outcome ≠ .ok .done) :
    settle s = ⟨s.outcome, .following s.next, s.world⟩ := by
  unfold settle
  split
  · exact absurd ‹_› h
  · rfl

theorem outcome_settle (s : Step (Action W κ) W) : (settle s).outcome = s.outcome := by
  by_cases h : s.outcome = .ok .done
  · rw [settle_of_done h, h]
  · rw [settle_of_ne h]

/-! ## Choices -/

section Choices

variable {q : Question} {slot : Slot} {bubble next : κ} {branches : List (Action W κ)}
  {follow : Nat → W → Option (Step (Action W κ) W)} {w after : W}

theorem openChoices_eq {opened : W} {position : Position}
    (hposition : (host.position w q.asker.actor).raised q.bubbleHeight = position)
    (hslot : host.openSlot w = (slot, opened))
    (hshow : host.showChoices q.labels position slot
      (host.record (.showingChoices q.labels position) opened) = (bubble, after)) :
    openChoices host q w = (slot, bubble, after) := by
  unfold openChoices
  simp only [hposition, hslot, hshow]

theorem advance_prompt (h : openChoices host q w = (slot, bubble, after)) :
    advance host frame (.prompt q branches) w =
      stepChoice host frame q slot bubble branches (advanceNth host frame branches) after := by
  rw [advance, h]

theorem stepChoice_of_ne {outcome : Outcome}
    (h : host.step bubble frame w = ⟨outcome, next, after⟩) (hne : outcome ≠ .ok .done) :
    stepChoice host frame q slot bubble branches follow w =
      ⟨outcome, .choosing q slot next branches, after⟩ := by
  unfold stepChoice
  rw [h]
  dsimp only
  split
  · exact absurd rfl hne
  · rfl

theorem stepChoice_of_none (h : host.step bubble frame w = ⟨.ok .done, next, after⟩)
    (hselected : host.selected after slot = none) :
    stepChoice host frame q slot bubble branches follow w =
      ⟨.error (.failed .noSelection), .choosing q slot next branches, after⟩ := by
  unfold stepChoice
  rw [h]
  dsimp only
  rw [hselected]

theorem stepChoice_of_invalid {index : Nat}
    (h : host.step bubble frame w = ⟨.ok .done, next, after⟩)
    (hselected : host.selected after slot = some index)
    (hfollow : follow index (host.record (.chose q.asker (q.labels.getD index "")) after) = none) :
    stepChoice host frame q slot bubble branches follow w =
      ⟨.error (.failed (.invalidSelection index branches.length)), .choosing q slot next [],
        host.record (.chose q.asker (q.labels.getD index "")) after⟩ := by
  unfold stepChoice
  rw [h]
  dsimp only
  rw [hselected]
  dsimp only
  rw [hfollow]

theorem stepChoice_of_branch {index : Nat} {s : Step (Action W κ) W}
    (h : host.step bubble frame w = ⟨.ok .done, next, after⟩)
    (hselected : host.selected after slot = some index)
    (hfollow : follow index (host.record (.chose q.asker (q.labels.getD index "")) after) =
      some s) :
    stepChoice host frame q slot bubble branches follow w = settle s := by
  unfold stepChoice
  rw [h]
  dsimp only
  rw [hselected]
  dsimp only
  rw [hfollow]

end Choices

/-! ## Sequences -/

theorem advanceSequence_of_done {child : Action W κ} {rest : List (Action W κ)} {w : W}
    (h : (advance host frame child w).outcome = .ok .done) :
    advanceSequence host frame (child :: rest) w =
      advanceSequence host frame rest (advance host frame child w).world := by
  rw [advanceSequence, h]

theorem advanceSequence_of_ne {child : Action W κ} {rest : List (Action W κ)} {w : W}
    (h : (advance host frame child w).outcome ≠ .ok .done) :
    advanceSequence host frame (child :: rest) w =
      ⟨(advance host frame child w).outcome, (advance host frame child w).next :: rest,
        (advance host frame child w).world⟩ := by
  rw [advanceSequence]
  split
  · exact absurd ‹_› h
  · rfl

/-- A sequence that is done has no children left. -/
theorem next_advanceSequence {children : List (Action W κ)} {w : W}
    (h : (advanceSequence host frame children w).outcome = .ok .done) :
    (advanceSequence host frame children w).next = [] := by
  induction children generalizing w with
  | nil => rfl
  | cons child rest ih =>
    by_cases hdone : (advance host frame child w).outcome = .ok .done
    · rw [advanceSequence_of_done hdone] at h ⊢
      exact ih h
    · rw [advanceSequence_of_ne hdone] at h
      exact absurd h hdone

/-! ## Parallel actions -/

theorem advanceParallel_of_done {child : Action W κ} {rest : List (Action W κ)} {w : W}
    (h : (advance host frame child w).outcome = .ok .done) :
    advanceParallel host frame (child :: rest) w =
      advanceParallel host frame rest (advance host frame child w).world := by
  rw [advanceParallel]
  dsimp only
  rw [h]

theorem advanceParallel_of_running {child : Action W κ} {rest : List (Action W κ)} {w : W}
    (h : (advance host frame child w).outcome = .ok .running) :
    advanceParallel host frame (child :: rest) w =
      let t := advanceParallel host frame rest (advance host frame child w).world
      ⟨t.outcome.map fun _ => .running, (advance host frame child w).next :: t.next, t.world⟩ := by
  rw [advanceParallel]
  dsimp only
  rw [h]

theorem advanceParallel_of_error {child : Action W κ} {rest : List (Action W κ)} {w : W}
    {fault : Fault} (h : (advance host frame child w).outcome = .error fault) :
    advanceParallel host frame (child :: rest) w =
      ⟨.error fault, (advance host frame child w).next :: rest,
        (advance host frame child w).world⟩ := by
  rw [advanceParallel]
  dsimp only
  rw [h]

/-- While one child is running, parallel actions are not done. -/
theorem map_running_ne_done (outcome : Outcome) :
    (outcome.map fun _ => Progress.running) ≠ .ok .done := by
  cases outcome <;> simp [Except.map]

/-- Parallel actions that are done have no children left. -/
theorem next_advanceParallel {children : List (Action W κ)} {w : W}
    (h : (advanceParallel host frame children w).outcome = .ok .done) :
    (advanceParallel host frame children w).next = [] := by
  induction children generalizing w with
  | nil => rfl
  | cons child rest ih =>
    cases hchild : (advance host frame child w).outcome with
    | error fault =>
      rw [advanceParallel_of_error hchild] at h
      exact absurd h (by simp)
    | ok progress =>
      cases progress with
      | done =>
        rw [advanceParallel_of_done hchild] at h ⊢
        exact ih h
      | running =>
        rw [advanceParallel_of_running hchild] at h
        exact absurd h (map_running_ne_done _)

/-! ## Frame after frame -/

/-- The steps of an action that is advanced by one frame after the other. -/
def advances (host : Host W κ) : List Frame → Action W κ → W → List (Step (Action W κ) W)
  | [], _, _ => []
  | frame :: frames, action, w =>
    let s := advance host frame action w
    s :: advances host frames s.next s.world

theorem length_advances (host : Host W κ) (frames : List Frame) (action : Action W κ) (w : W) :
    (advances host frames action w).length = frames.length := by
  induction frames generalizing action w with
  | nil => rfl
  | cons frame frames ih => rw [advances, List.length_cons, List.length_cons, ih]

/-- The frames of an action, each with the world in which it began.  Before each of them others
change the world in some way. -/
def amid (host : Host W κ) :
    List ((W → W) × Frame) → Action W κ → W → List (W × Step (Action W κ) W)
  | [], _, _ => []
  | (change, frame) :: run, a, w =>
    let s := advance host frame a (change w)
    (change w, s) :: amid host run s.next s.world

/-- What can be seen of an action after every frame: the outcome and the world. -/
def observations (host : Host W κ) (frames : List Frame) (action : Action W κ) (w : W) :
    List (Outcome × W) :=
  (advances host frames action w).map fun s => (s.outcome, s.world)

theorem observations_cons (host : Host W κ) (frame : Frame) (frames : List Frame)
    (action : Action W κ) (w : W) :
    observations host (frame :: frames) action w =
      let s := advance host frame action w
      (s.outcome, s.world) :: observations host frames s.next s.world := rfl

end Promptbook.Action
