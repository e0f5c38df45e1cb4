import Promptbook.Proofs.Action.Appearance

set_option autoImplicit false

/-!
# Joined actions

Sequences and parallel actions both advance a list of children by advancing its first part and then,
depending on what came of that, the rest of it.  `Joint.after` is this rule, for either of them, and
`Joint.step_append` says that it may be applied wherever a list is cut.

A `Likeness` plays the same things in two ways.  If single things are played alike, so are lists of
them, in one frame (`Likeness.alike_step`) and in all (`Likeness.observations_alike`).
-/

namespace Promptbook

/-! ## Joining actions -/

/-- The step of a list of one, which is empty once its only member is done. -/
def Step.solo {σ W : Type} (s : Step σ W) : Step (List σ) W :=
  match s.outcome with
  | .ok .done => ⟨.ok .done, [], s.world⟩
  | outcome => ⟨outcome, [s.next], s.world⟩

theorem Step.solo_of_done {σ W : Type} {s : Step σ W} (h : s.outcome = .ok .done) :
    s.solo = ⟨.ok .done, [], s.world⟩ := by
  unfold solo
  rw [h]

theorem Step.solo_of_ne {σ W : Type} {s : Step σ W} (h : s.outcome ≠ .ok .done) :
    s.solo = ⟨s.outcome, [s.next], s.world⟩ := by
  unfold solo
  split
  · exact absurd ‹_› h
  · rfl

/-- How actions are joined. -/
inductive Joint where
  | sequence
  | parallel
  deriving DecidableEq

namespace Joint

variable {W κ : Type}

/-- Actions that are joined. -/
def join : Joint → List (Action W κ) → Action W κ
  | sequence => .sequence
  | parallel => .parallel

/-- Two actions that are joined. -/
def pair : Joint → Action W κ → Action W κ → Action W κ
  | sequence => .andThen
  | parallel => .alongside

/-- A frame of joined actions. -/
def step (host : Host W κ) (frame : Frame) : Joint → List (Action W κ) → W →
    Step (List (Action W κ)) W
  | sequence => Action.advanceSequence host frame
  | parallel => Action.advanceParallel host frame

/-- What a frame comes to if the first children came to `s` and `rest` are the others. -/
def after (host : Host W κ) (frame : Frame) (joint : Joint) (s : Step (List (Action W κ)) W)
    (rest : List (Action W κ)) : Step (List (Action W κ)) W :=
  match joint, s.outcome with
  | joint, .ok .done => joint.step host frame rest s.world
  | .parallel, .ok .running =>
    let t := step host frame .parallel rest s.world
    ⟨t.outcome.map fun _ => .running, s.next ++ t.next, t.world⟩
  | _, outcome => ⟨outcome, s.next ++ rest, s.world⟩

variable {host : Host W κ} {frame : Frame} {joint : Joint}

theorem advance_join (children : List (Action W κ)) (w : W) :
    Action.advance host frame (joint.join children) w =
      (joint.step host frame children w).mapNext joint.join := by
  cases joint <;> rw [join, Action.advance] <;> rfl

theorem pair_eq_join (first second : Action W κ) :
    joint.pair first second = joint.join [first, second] := by
  cases joint <;> rfl

theorem step_nil (w : W) : joint.step host frame [] w = ⟨.ok .done, [], w⟩ := by
  cases joint <;> rfl

/-- Joined actions that are done have no children left. -/
theorem next_step {children : List (Action W κ)} {w : W}
    (h : (joint.step host frame children w).outcome = .ok .done) :
    (joint.step host frame children w).next = [] := by
  cases joint with
  | sequence => exact Action.next_advanceSequence h
  | parallel => exact Action.next_advanceParallel h

section After

variable {s : Step (List (Action W κ)) W} {rest : List (Action W κ)}

theorem after_of_done (h : s.outcome = .ok .done) :
    joint.after host frame s rest = joint.step host frame rest s.world := by
  unfold after
  rw [h]

theorem after_of_error {fault : Fault} (h : s.outcome = .error fault) :
    joint.after host frame s rest = ⟨.error fault, s.next ++ rest, s.world⟩ := by
  unfold after
  rw [h]

theorem after_sequence_of_running (h : s.outcome = .ok .running) :
    sequence.after host frame s rest = ⟨.ok .running, s.next ++ rest, s.world⟩ := by
  unfold after
  rw [h]

theorem after_parallel_of_running (h : s.outcome = .ok .running) :
    parallel.after host frame s rest =
      let t := parallel.step host frame rest s.world
      ⟨t.outcome.map fun _ => .running, s.next ++ t.next, t.world⟩ := by
  unfold after
  rw [h]

end After

/-- What a frame comes to begins with what it comes to for the first child. -/
theorem step_cons (child : Action W κ) (rest : List (Action W κ)) (w : W) :
    joint.step host frame (child :: rest) w =
      joint.after host frame (Action.advance host frame child w).solo rest := by
  cases h : (Action.advance host frame child w).outcome with
  | error fault =>
    rw [Step.solo_of_ne (by simp [h]), after_of_error (by exact h)]
    cases joint with
    | sequence => rw [step, Action.advanceSequence_of_ne (by simp [h]), h]; rfl
    | parallel => rw [step, Action.advanceParallel_of_error h]; rfl
  | ok progress =>
    cases progress with
    | done =>
      rw [Step.solo_of_done h, after_of_done rfl]
      cases joint with
      | sequence => rw [step, Action.advanceSequence_of_done h]
      | parallel => rw [step, Action.advanceParallel_of_done h]
    | running =>
      rw [Step.solo_of_ne (by simp [h])]
      cases joint with
      | sequence =>
        rw [step, Action.advanceSequence_of_ne (by simp [h]),
          after_sequence_of_running (by exact h), h]
        rfl
      | parallel =>
        rw [step, Action.advanceParallel_of_running h, after_parallel_of_running (by exact h)]
        rfl

/-- What comes after two parts of a list comes after the second of what comes after the first. -/
theorem after_append {children rest : List (Action W κ)}
    (h : ∀ w, joint.step host frame (children ++ rest) w =
      joint.after host frame (joint.step host frame children w) rest)
    (s : Step (List (Action W κ)) W) :
    joint.after host frame s (children ++ rest) =
      joint.after host frame (joint.after host frame s children) rest := by
  cases hs : s.outcome with
  | error fault =>
    rw [after_of_error hs, after_of_error hs, after_of_error rfl, List.append_assoc]
  | ok progress =>
    cases progress with
    | done => rw [after_of_done hs, after_of_done hs, h]
    | running =>
      cases joint with
      | sequence =>
        rw [after_sequence_of_running hs, after_sequence_of_running hs,
          after_sequence_of_running rfl, List.append_assoc]
      | parallel =>
        rw [after_parallel_of_running hs, after_parallel_of_running hs, h]
        dsimp only
        cases ht : (parallel.step host frame children s.world).outcome with
        | error fault =>
          rw [after_of_error ht, after_of_error rfl, List.append_assoc]
          rfl
        | ok progress =>
          have hmap : ((.ok progress : Outcome).map fun _ => Progress.running) = .ok .running := rfl
          rw [hmap, after_parallel_of_running (s := ⟨.ok .running, _, _⟩) rfl]
          cases progress with
          | done => rw [after_of_done ht, next_step ht, List.append_nil]
          | running =>
            rw [after_parallel_of_running ht]
            dsimp only
            rw [List.append_assoc]
            cases (parallel.step host frame rest
              (parallel.step host frame children s.world).world).outcome <;> rfl

/-- What a frame comes to begins with what it comes to for the first children. -/
theorem step_append (children rest : List (Action W κ)) (w : W) :
    joint.step host frame (children ++ rest) w =
      joint.after host frame (joint.step host frame children w) rest := by
  induction children generalizing w with
  | nil => rw [List.nil_append, step_nil, after_of_done rfl]
  | cons child children ih => rw [List.cons_append, step_cons, step_cons, after_append ih]

/-- A frame of a single child. -/
theorem step_singleton (child : Action W κ) (w : W) :
    joint.step host frame [child] w = (Action.advance host frame child w).solo := by
  rw [step_cons]
  cases h : (Action.advance host frame child w).outcome with
  | error fault =>
    rw [Step.solo_of_ne (by simp [h]), after_of_error (by exact h), List.append_nil, h]
  | ok progress =>
    cases progress with
    | done => rw [Step.solo_of_done h, after_of_done rfl, step_nil]
    | running =>
      rw [Step.solo_of_ne (by simp [h])]
      cases joint with
      | sequence => rw [after_sequence_of_running (by exact h), List.append_nil, h]
      | parallel =>
        rw [after_parallel_of_running (by exact h), step_nil, h]
        rfl

end Joint

/-! ## Likeness -/

/-- Two ways to play things: as lists of actions in two worlds, one of which shows in the other. -/
structure Likeness (σ W V κ ν : Type) where
  left : σ → List (Action W κ)
  right : σ → List (Action V ν)
  view : W → V

namespace Likeness

variable {σ W V κ ν : Type} (l : Likeness σ W V κ ν) {host : Host W κ} {twin : Host V ν}
  {frame : Frame} {joint : Joint}

/-- Two steps come to the same and leave the same things. -/
def Alike (s : Step (List (Action W κ)) W) (t : Step (List (Action V ν)) V) : Prop :=
  ∃ things : List σ,
    s.next = things.flatMap l.left ∧ t = ⟨s.outcome, things.flatMap l.right, l.view s.world⟩

variable {l}

theorem Alike.after {s : Step (List (Action W κ)) W} {t : Step (List (Action V ν)) V}
    (h : l.Alike s t) {rest : List σ}
    (hrest : ∀ w, l.Alike (joint.step host frame (rest.flatMap l.left) w)
      (joint.step twin frame (rest.flatMap l.right) (l.view w))) :
    l.Alike (joint.after host frame s (rest.flatMap l.left))
      (joint.after twin frame t (rest.flatMap l.right)) := by
  obtain ⟨things, hs, rfl⟩ := h
  have hmore : ∀ more : List σ,
      s.next ++ more.flatMap l.left = (things ++ more).flatMap l.left ∧
        things.flatMap l.right ++ more.flatMap l.right = (things ++ more).flatMap l.right := by
    intro more
    rw [hs, List.flatMap_append, List.flatMap_append]
    exact ⟨rfl, rfl⟩
  cases ho : s.outcome with
  | error fault =>
    rw [Joint.after_of_error ho, Joint.after_of_error rfl]
    exact ⟨things ++ rest, (hmore rest).1, by rw [(hmore rest).2]⟩
  | ok progress =>
    cases progress with
    | done =>
      rw [Joint.after_of_done ho, Joint.after_of_done rfl]
      exact hrest s.world
    | running =>
      cases joint with
      | sequence =>
        rw [Joint.after_sequence_of_running ho, Joint.after_sequence_of_running rfl]
        exact ⟨things ++ rest, (hmore rest).1, by rw [(hmore rest).2]⟩
      | parallel =>
        rw [Joint.after_parallel_of_running ho, Joint.after_parallel_of_running rfl]
        obtain ⟨more, hs', ht⟩ := hrest s.world
        refine ⟨things ++ more, ?_, ?_⟩
        · dsimp only
          rw [hs', (hmore more).1]
        · dsimp only
          rw [ht, (hmore more).2]

/-- If each thing is played alike by itself, all are played alike. -/
theorem alike_step {things : List σ}
    (h : ∀ x ∈ things, ∀ w, l.Alike (joint.step host frame (l.left x) w)
      (joint.step twin frame (l.right x) (l.view w))) (w : W) :
    l.Alike (joint.step host frame (things.flatMap l.left) w)
      (joint.step twin frame (things.flatMap l.right) (l.view w)) := by
  induction things generalizing w with
  | nil =>
    rw [List.flatMap_nil, List.flatMap_nil, Joint.step_nil, Joint.step_nil]
    exact ⟨[], rfl, rfl⟩
  | cons x rest ih =>
    rw [List.flatMap_cons, List.flatMap_cons, Joint.step_append, Joint.step_append]
    exact (h x (by simp) w).after (ih fun y hy => h y (List.mem_cons_of_mem _ hy))

/-- Things that are played alike in every frame look the same from outside. -/
theorem observations_alike
    (h : ∀ frame x w, l.Alike (joint.step host frame (l.left x) w)
      (joint.step twin frame (l.right x) (l.view w))) (frames : List Frame) (things : List σ)
    (w : W) :
    (Action.observations host frames (joint.join (things.flatMap l.left)) w).map
        (fun o => (o.1, l.view o.2)) =
      Action.observations twin frames (joint.join (things.flatMap l.right)) (l.view w) := by
  induction frames generalizing things w with
  | nil => rfl
  | cons frame frames ih =>
    obtain ⟨left, hnext, hright⟩ := alike_step (fun x (_ : x ∈ things) => h frame x) w
    rw [Action.observations_cons, Action.observations_cons, Joint.advance_join, Joint.advance_join,
      hright]
    dsimp only [Step.outcome_mapNext, Step.next_mapNext, Step.world_mapNext]
    rw [hnext, List.map_cons, ih]

end Likeness

/-! ## Watching the children -/

/-- A child that is played under its name and as it is. -/
def namedLikeness (ι W κ : Type) :
    Likeness (ι × Action W κ) (Attended ι W) W (κ ⊕ (ι × Action W κ)) κ :=
  ⟨fun c => [.named c.1 c.2], fun c => [c.2], Attended.world⟩

theorem alike_named {ι W κ : Type} {host : Host W κ} {joint : Joint} (frame : Frame)
    (c : ι × Action W κ) (w : Attended ι W) :
    (namedLikeness ι W κ).Alike (joint.step host.attended frame ((namedLikeness ι W κ).left c) w)
      (joint.step host frame ((namedLikeness ι W κ).right c) w.world) := by
  rw [namedLikeness, Joint.step_singleton, Joint.step_singleton, Action.advance_named]
  by_cases h : (Action.advance host frame c.2 w.world).outcome = .ok .done
  · rw [Step.solo_of_done h, Step.solo_of_done (by exact h)]
    exact ⟨[], rfl, rfl⟩
  · rw [Step.solo_of_ne h, Step.solo_of_ne (by exact h)]
    exact ⟨[(c.1, (Action.advance host frame c.2 w.world).next)], rfl, rfl⟩

/-- Joined actions are advanced under their names as they are without. -/
theorem observations_named {ι W κ : Type} (host : Host W κ) (joint : Joint) (frames : List Frame)
    (children : List (ι × Action W κ)) (w : Attended ι W) :
    (Action.observations host.attended frames
        (joint.join (children.map fun c => .named c.1 c.2)) w).map (fun o => (o.1, o.2.world)) =
      Action.observations host frames (joint.join (children.map (·.2))) w.world := by
  simpa [namedLikeness, ← List.map_eq_flatMap] using
    Likeness.observations_alike alike_named frames children w

end Promptbook
