import Promptbook.Proofs.Action.Stepping
import Promptbook.Proofs.Performance.Underway

set_option autoImplicit false

/-!
# One frame of a performance

A frame is followed twice, with a ledger and without one.  `Passage` says that both come to the
same, and that the calls that were written down are the first of those that were due: all of them if
the performance is done, and otherwise up to the ones that are due in the state it was suspended in.
-/

namespace Promptbook

open Script (Statement Cue Assignment Speech)

/-! ## Passages -/

/-- States of something that is performed, with the two things that each stands for and the calls
that are due in it. -/
structure Form (W σ τ τ' : Type) where
  plain : σ → τ
  watched : σ → τ'
  due : σ → Ledger W → Nat → List Call

/-- A frame without a ledger and the same frame with one, which writes `added` into it. -/
inductive Passage {W σ τ τ' : Type} (form : Form W σ τ τ') (due : Ledger W → Nat → List Call)
    (w : Watched W) (added : Ledger W) (t : Step τ W) (s : Step τ' (Watched W)) : Prop where
  | done (ht : t.outcome = .ok .done) (hs : s.outcome = .ok .done)
      (hworld : s.world = ⟨t.world, w.ledger ++ added⟩)
      (hdue : ∀ full : Ledger W, full.Continues (w.ledger ++ added) t.outcome →
        due full w.ledger.count = added.calls)
  | suspended (x : σ) (hne : t.outcome ≠ .ok .done) (ht : t.next = form.plain x)
      (hs : s = ⟨t.outcome, form.watched x, ⟨t.world, w.ledger ++ added⟩⟩)
      (hdue : ∀ full : Ledger W, full.Continues (w.ledger ++ added) t.outcome →
        due full w.ledger.count =
          added.calls ++ form.due x full (Ledger.count (w.ledger ++ added)))

section Passages

variable {W σ τ τ' : Type} {form : Form W σ τ τ'} {due due' : Ledger W → Nat → List Call}
  {w w' : Watched W} {added first : Ledger W} {t : Step τ W} {s : Step τ' (Watched W)}

/-- A passage of what is left after something else was written down. -/
theorem Passage.after (h : Passage form due' w' added t s) (hw : w'.ledger = w.ledger ++ first)
    (hdue : ∀ full : Ledger W, full.Continues (w.ledger ++ (first ++ added)) t.outcome →
      due full w.ledger.count = first.calls ++ due' full (Ledger.count (w.ledger ++ first))) :
    Passage form due w (first ++ added) t s := by
  cases h with
  | done ht hs hworld hrest =>
    rw [hw, List.append_assoc] at hworld hrest
    refine .done ht hs hworld ?_
    intro full hfull
    rw [hdue full hfull, hrest full hfull, Ledger.calls_append]
  | suspended x hne ht hs hrest =>
    rw [hw, List.append_assoc] at hs hrest
    refine .suspended x hne ht hs ?_
    intro full hfull
    rw [hdue full hfull, hrest full hfull, Ledger.calls_append, List.append_assoc]

end Passages

/-! ## Hosts -/

/-- A cue is played in the frame in which it is reached, and its animation is stepped at once. -/
theorem advance_ofCue {W κ : Type} {host : Host W κ} {frame : Frame} {cue : Cue} {w after : W}
    {work : κ}
    (h : host.play cue.performer.actor cue.animation (host.record (.playing cue) w) =
      (work, after)) :
    Action.advance host frame (.ofCue host cue) w =
      (host.step work frame after).mapNext .machine := by
  rw [Action.ofCue, Action.advance]
  dsimp only
  rw [h, Action.advance]

section Hosts

variable {A α B β : Type} (company : Company A α) (presenter : Presenter B β)

theorem exists_step_bubble (bubble : β) (frame : Frame) (w : World A B) :
    ∃ outcome next after, (Host.ofParts company presenter).step (.inr bubble) frame w =
      ⟨outcome, .inr next, after⟩ := ⟨_, _, _, rfl⟩

theorem exists_step_animation (animation : α) (frame : Frame) (w : World A B) :
    ∃ outcome next after, (Host.ofParts company presenter).step (.inl animation) frame w =
      ⟨outcome, .inl next, after⟩ := ⟨_, _, _, rfl⟩

theorem exists_play (actor : ActorId) (animation : String) (w : World A B) :
    ∃ work after, (Host.ofParts company presenter).play actor animation w = (.inl work, after) :=
  ⟨_, _, rfl⟩

theorem exists_showLine (text : String) (position : Position) (w : World A B) :
    ∃ bubble after, (Host.ofParts company presenter).showLine text position w =
      (.inr bubble, after) := ⟨_, _, rfl⟩

theorem exists_showChoices (labels : List String) (position : Position) (slot : Slot)
    (w : World A B) :
    ∃ bubble after, (Host.ofParts company presenter).showChoices labels position slot w =
      (.inr bubble, after) := ⟨_, _, rfl⟩

end Hosts

/-! ## Forms -/

section Forms

variable {A α B β : Type} (company : Company A α) (presenter : Presenter B β) (settings : Settings)

/-- Statements that are underway as actions. -/
def Underway.form : Form (World A B) (Underway α β) (Action (World A B) (α ⊕ β))
    (Action (Watched (World A B)) (α ⊕ β)) where
  plain := Underway.action (Host.ofParts company presenter) settings
  watched := Underway.action (Host.ofParts company presenter).watched settings
  due u ledger k := u.due company settings ledger k

/-- Places in a script as the actions of a sequence. -/
def Place.form : Form (World A B) (Place α β) (List (Action (World A B) (α ⊕ β)))
    (List (Action (Watched (World A B)) (α ⊕ β))) where
  plain := Place.actions (Host.ofParts company presenter) settings
  watched := Place.actions (Host.ofParts company presenter).watched settings
  due place ledger k := place.due company settings ledger k

/-- Animations and cues as parallel actions. -/
def partsForm : Form (World A B) (List (α ⊕ Cue)) (List (Action (World A B) (α ⊕ β)))
    (List (Action (Watched (World A B)) (α ⊕ β))) where
  plain := List.map (actionOfPart (Host.ofParts company presenter))
  watched := List.map (actionOfPart (Host.ofParts company presenter).watched)
  due parts _ _ := duePlays parts

end Forms

section Frames

variable {A α B β : Type} (company : Company A α) (presenter : Presenter B β) (settings : Settings)

/-! ## Lines -/

theorem passage_stepLine (frame : Frame) (speech : Speech) (talking : Bool) (bubble : β)
    (w : Watched (World A B)) :
    ∃ added, Passage (Underway.form company presenter settings)
      (fun _ _ => speech.closing settings talking) w added
      (Action.stepLine (Host.ofParts company presenter) frame (speech.delivery settings) talking
        (.inr bubble) w.world)
      (Action.stepLine (Host.ofParts company presenter).watched frame (speech.delivery settings)
        talking (.inr bubble) w) := by
  obtain ⟨outcome, next, after, hstep⟩ := exists_step_bubble company presenter bubble frame w.world
  by_cases hne : outcome = .ok .done
  · subst hne
    rw [Action.stepLine_of_done hstep, Action.stepLine_of_done (watched_step_of_done hstep)]
    cases talking with
    | false => exact ⟨[.bubbleDone after], .done rfl rfl rfl fun _ _ => rfl⟩
    | true =>
      let closed := after.record (.talking speech.speaker settings.talkingParameter false)
      refine ⟨[.bubbleDone after] ++ [.called (speech.talkingCall settings false) closed],
        .done rfl rfl ?_ fun _ _ => rfl⟩
      rw [← List.append_assoc]
      rfl
  · rw [Action.stepLine_of_ne hstep hne, Action.stepLine_of_ne (watched_step_of_ne hstep hne) hne]
    refine ⟨[], .suspended (.speaking speech talking next) hne rfl ?_ fun _ _ => rfl⟩
    rw [List.append_nil]
    rfl

/-! ## Parallel animations -/

/-- What is written down of a part of parallel animations: a cue is played in some world. -/
def Ledger.ofPart (asked : World A B) : α ⊕ Cue → Ledger (World A B)
  | .inl _ => []
  | .inr cue => [.called cue.call asked]

/-- An animation in progress is stepped; a cue is played first. -/
theorem exists_advance_part (frame : Frame) (part : α ⊕ Cue) (w : Watched (World A B)) :
    ∃ (asked : World A B) (outcome : Outcome) (next : α) (after : World A B),
      Action.advance (Host.ofParts company presenter) frame
          (actionOfPart (Host.ofParts company presenter) part) w.world =
        ⟨outcome, .machine (.inl next), after⟩ ∧
      Action.advance (Host.ofParts company presenter).watched frame
          (actionOfPart (Host.ofParts company presenter).watched part) w =
        ⟨outcome, .machine (.inl next), ⟨after, w.ledger ++ .ofPart asked part⟩⟩ := by
  cases part with
  | inl animation =>
    obtain ⟨outcome, next, after, hstep⟩ :=
      exists_step_animation company presenter animation frame w.world
    refine ⟨w.world, outcome, next, after, ?_, ?_⟩
    · rw [actionOfPart, Action.advance, hstep]
      rfl
    · rw [actionOfPart, Action.advance, watched_step_animation hstep, Ledger.ofPart,
        List.append_nil]
      rfl
  | inr cue =>
    let asked := w.world.record (.playing cue)
    obtain ⟨work, begun, hplay⟩ :=
      exists_play company presenter cue.performer.actor cue.animation asked
    obtain ⟨outcome, next, after, hstep⟩ :=
      exists_step_animation company presenter work frame begun
    have hwatched : (Host.ofParts company presenter).watched.play cue.performer.actor cue.animation
        ⟨asked, w.ledger⟩ = (.inl work, ⟨begun, w.ledger ++ .ofPart asked (.inr cue : α ⊕ Cue)⟩) :=
      watched_play hplay
    refine ⟨asked, outcome, next, after, ?_, ?_⟩
    · rw [actionOfPart, advance_ofCue hplay, hstep]
      rfl
    · rw [actionOfPart, advance_ofCue hwatched, watched_step_animation hstep]
      rfl

theorem passage_advanceParallel (frame : Frame) (parts : List (α ⊕ Cue))
    (w : Watched (World A B)) :
    ∃ added, Passage (partsForm company presenter) (fun _ _ => duePlays parts) w added
        (Action.advanceParallel (Host.ofParts company presenter) frame
          (parts.map (actionOfPart (Host.ofParts company presenter))) w.world)
        (Action.advanceParallel (Host.ofParts company presenter).watched frame
          (parts.map (actionOfPart (Host.ofParts company presenter).watched)) w) ∧
      (parts.head?.all Sum.isRight = true → added.Opens
        (Action.advanceParallel (Host.ofParts company presenter) frame
          (parts.map (actionOfPart (Host.ofParts company presenter))) w.world).outcome) := by
  induction parts generalizing w with
  | nil =>
    refine ⟨[], .done rfl rfl ?_ fun _ _ => rfl, fun _ => .inr ⟨rfl, rfl⟩⟩
    rw [List.append_nil]
    rfl
  | cons part rest ih =>
    obtain ⟨asked, outcome, next, after, ht, hs⟩ :=
      exists_advance_part company presenter frame part w
    have hdue : duePlays (part :: rest) =
        Ledger.calls (.ofPart asked part) ++ duePlays rest := by
      cases part <;> rfl
    have hopens (more : Ledger (World A B)) (o : Outcome)
        (h : (part :: rest).head?.all Sum.isRight = true) :
        Ledger.Opens (.ofPart asked part ++ more) o := by
      cases part with
      | inl animation => simp at h
      | inr cue => exact .inl ⟨cue.call, asked, more, rfl⟩
    rw [List.map_cons, List.map_cons]
    cases outcome with
    | error fault =>
      rw [Action.advanceParallel_of_error (congrArg Step.outcome ht),
        Action.advanceParallel_of_error (congrArg Step.outcome hs), ht, hs]
      refine ⟨.ofPart asked part,
        .suspended (.inl next :: rest) (by simp) rfl rfl fun _ _ => hdue, ?_⟩
      simpa using hopens [] (.error fault)
    | ok progress =>
      obtain ⟨added, hrest, -⟩ := ih ⟨after, w.ledger ++ .ofPart asked part⟩
      cases progress with
      | done =>
        rw [Action.advanceParallel_of_done (congrArg Step.outcome ht),
          Action.advanceParallel_of_done (congrArg Step.outcome hs), ht, hs]
        exact ⟨_, hrest.after rfl fun _ _ => hdue, hopens added _⟩
      | running =>
        rw [Action.advanceParallel_of_running (congrArg Step.outcome ht),
          Action.advanceParallel_of_running (congrArg Step.outcome hs), ht, hs]
        refine ⟨.ofPart asked part ++ added, ?_, hopens added _⟩
        cases hrest with
        | done hto hso hworld hcalls =>
          have hnone : duePlays rest = added.calls := hcalls _ (.refl _ _)
          refine .suspended [.inl next] (Action.map_running_ne_done _) ?_ ?_ ?_
          · dsimp only
            rw [Action.next_advanceParallel hto]
            rfl
          · dsimp only
            rw [hso, Action.next_advanceParallel hso, hworld, hto, List.append_assoc]
            rfl
          · intro full _
            rw [hdue, hnone, Ledger.calls_append]
            exact (List.append_nil _).symm
        | suspended x hne hto hso hcalls =>
          have hsome : duePlays rest = added.calls ++ duePlays x := hcalls _ (.refl _ _)
          refine .suspended (.inl next :: x) (Action.map_running_ne_done _) ?_ ?_ ?_
          · dsimp only
            rw [hto]
            rfl
          · dsimp only
            rw [hso, List.append_assoc]
            rfl
          · intro full _
            rw [hdue, hsome, Ledger.calls_append, List.append_assoc]
            rfl

end Frames

end Promptbook
