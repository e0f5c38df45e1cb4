import Mathlib.Data.List.Forall2
import Promptbook.Proofs.Performance.Ledger
import Promptbook.Proofs.Performance.Rundown

set_option autoImplicit false

/-!
# Watching changes nothing

A host can be watched by one that does the same and writes down what it is asked.  If everything that
the watching host does is, seen without what it writes, what the other one does, then so is everything
that is performed: `Host.Shadows.advances` compares two performances of one script frame by frame.

Each move of the one is a move of the other, and `Passes.unique` says that a frame can only pass in
one way.
-/

namespace Promptbook

open Script (Statement Cue Assignment)

/-! ## A frame passes in one way -/

section Uniqueness

variable {W κ : Type} {host : Host W κ} {settings : Settings} {frame : Frame}
  {spot spot₁ spot₂ : Spot κ} {w w₁ w₂ : W} {o₁ o₂ : Outcome}

theorem Move.unique (h₁ : Move host settings frame spot w spot₁ w₁)
    (h₂ : Move host settings frame spot w spot₂ w₂) : spot₁ = spot₂ ∧ w₁ = w₂ := by
  cases h₁ with
  | speak h =>
    cases h₂ with
    | speak h' =>
      have heq := h.symm.trans h'
      simp only [Prod.mk.injEq] at heq
      obtain ⟨rfl, rfl, rfl⟩ := heq
      exact ⟨rfl, rfl⟩
  | said h =>
    cases h₂ with
    | said h' =>
      obtain ⟨-, -, rfl⟩ := Step.mk.inj (h.symm.trans h')
      exact ⟨rfl, rfl⟩
  | play => cases h₂ with | play => exact ⟨rfl, rfl⟩
  | played h => cases h₂ with | played h' => exact ⟨rfl, rfl⟩
  | stored => cases h₂ with | stored => exact ⟨rfl, rfl⟩
  | ask h =>
    cases h₂ with
    | ask h' =>
      have heq := h.symm.trans h'
      simp only [Prod.mk.injEq] at heq
      obtain ⟨rfl, rfl, rfl⟩ := heq
      exact ⟨rfl, rfl⟩
  | chose h hselected hbranch =>
    cases h₂ with
    | chose h' hselected' hbranch' =>
      obtain ⟨-, -, rfl⟩ := Step.mk.inj (h.symm.trans h')
      obtain rfl := Option.some.inj (hselected.symm.trans hselected')
      obtain rfl := Option.some.inj (hbranch.symm.trans hbranch')
      exact ⟨rfl, rfl⟩

/-- Where there is a move, a frame does not halt. -/
theorem Move.not_halt (h : Move host settings frame spot w spot₁ w₁) :
    ¬ Halt host frame spot w o₂ spot₂ w₂ := by
  intro hhalt
  cases h with
  | said h =>
    cases hhalt with
    | speaking h' hne => exact hne (congrArg Step.outcome (h'.symm.trans h))
  | played h => cases hhalt with | playing hne => exact hne h
  | chose h hselected hbranch =>
    cases hhalt with
    | choosing h' hne => exact hne (congrArg Step.outcome (h'.symm.trans h))
    | unselected h' hselected' =>
      obtain ⟨-, -, rfl⟩ := Step.mk.inj (h.symm.trans h')
      exact absurd (hselected.symm.trans hselected') (by simp)
    | invalid h' hselected' hbranch' =>
      obtain ⟨-, -, rfl⟩ := Step.mk.inj (h.symm.trans h')
      obtain rfl := Option.some.inj (hselected.symm.trans hselected')
      exact absurd (hbranch.symm.trans hbranch') (by simp)
  | _ => cases hhalt

theorem Halt.unique (h₁ : Halt host frame spot w o₁ spot₁ w₁)
    (h₂ : Halt host frame spot w o₂ spot₂ w₂) : o₁ = o₂ ∧ spot₁ = spot₂ ∧ w₁ = w₂ := by
  cases h₁ with
  | finished => cases h₂ with | finished => exact ⟨rfl, rfl, rfl⟩
  | store => cases h₂ with | store => exact ⟨rfl, rfl, rfl⟩
  | speaking h _ =>
    cases h₂ with
    | speaking h' _ =>
      obtain ⟨rfl, rfl, rfl⟩ := Step.mk.inj (h.symm.trans h')
      exact ⟨rfl, rfl, rfl⟩
  | playing _ => cases h₂ with | playing _ => exact ⟨rfl, rfl, rfl⟩
  | choosing h hne =>
    cases h₂ with
    | choosing h' _ =>
      obtain ⟨rfl, rfl, rfl⟩ := Step.mk.inj (h.symm.trans h')
      exact ⟨rfl, rfl, rfl⟩
    | unselected h' _ => exact absurd (congrArg Step.outcome (h.symm.trans h')) hne
    | invalid h' _ _ => exact absurd (congrArg Step.outcome (h.symm.trans h')) hne
  | unselected h hselected =>
    cases h₂ with
    | choosing h' hne => exact absurd (congrArg Step.outcome (h'.symm.trans h)) hne
    | unselected h' _ =>
      obtain ⟨-, rfl, rfl⟩ := Step.mk.inj (h.symm.trans h')
      exact ⟨rfl, rfl, rfl⟩
    | invalid h' hselected' _ =>
      obtain ⟨-, -, rfl⟩ := Step.mk.inj (h.symm.trans h')
      exact absurd (hselected.symm.trans hselected') (by simp)
  | invalid h hselected hbranch =>
    cases h₂ with
    | choosing h' hne => exact absurd (congrArg Step.outcome (h'.symm.trans h)) hne
    | unselected h' hselected' =>
      obtain ⟨-, -, rfl⟩ := Step.mk.inj (h.symm.trans h')
      exact absurd (hselected'.symm.trans hselected) (by simp)
    | invalid h' hselected' _ =>
      obtain ⟨-, rfl, rfl⟩ := Step.mk.inj (h.symm.trans h')
      obtain rfl := Option.some.inj (hselected.symm.trans hselected')
      exact ⟨rfl, rfl, rfl⟩

theorem Passes.unique (h₁ : Passes host settings frame spot w o₁ spot₁ w₁)
    (h₂ : Passes host settings frame spot w o₂ spot₂ w₂) : o₁ = o₂ ∧ spot₁ = spot₂ ∧ w₁ = w₂ := by
  induction h₁ with
  | halt h =>
    cases h₂ with
    | halt h' => exact h.unique h'
    | move h' _ => exact absurd h h'.not_halt
  | move h _ ih =>
    cases h₂ with
    | halt h' => exact absurd h' h.not_halt
    | move h' hrest =>
      obtain ⟨rfl, rfl⟩ := h.unique h'
      exact ih hrest

end Uniqueness

/-! ## Shadows -/

section Shadows

variable {V W κ : Type}

/-- The first host does what the second one does, in worlds of which less is seen. -/
structure Host.Shadows (ghost : Host V κ) (host : Host W κ) (seen : V → W) : Prop where
  step : ∀ work frame v, host.step work frame (seen v) =
    ⟨(ghost.step work frame v).outcome, (ghost.step work frame v).next,
      seen (ghost.step work frame v).world⟩
  hasParameter : ∀ v actor name,
    host.hasParameter (seen v) actor name = ghost.hasParameter v actor name
  position : ∀ v actor, host.position (seen v) actor = ghost.position v actor
  setParameter : ∀ actor name value v,
    host.setParameter actor name value (seen v) = seen (ghost.setParameter actor name value v)
  play : ∀ actor animation v, host.play actor animation (seen v) =
    ((ghost.play actor animation v).1, seen (ghost.play actor animation v).2)
  showLine : ∀ text position v, host.showLine text position (seen v) =
    ((ghost.showLine text position v).1, seen (ghost.showLine text position v).2)
  showChoices : ∀ labels position slot v, host.showChoices labels position slot (seen v) =
    ((ghost.showChoices labels position slot v).1,
      seen (ghost.showChoices labels position slot v).2)
  openSlot : ∀ v, host.openSlot (seen v) = ((ghost.openSlot v).1, seen (ghost.openSlot v).2)
  selected : ∀ v slot, host.selected (seen v) slot = ghost.selected v slot
  setVariable : ∀ id value v,
    host.setVariable id value (seen v) = seen (ghost.setVariable id value v)
  record : ∀ n v, host.record n (seen v) = seen (ghost.record n v)

namespace Host.Shadows

variable {ghost : Host V κ} {host : Host W κ} {seen : V → W} {settings : Settings} {frame : Frame}
  {spot spot' : Spot κ} {v v' : V} {outcome : Outcome}

theorem step_eq (hs : ghost.Shadows host seen) {work next : κ}
    (h : ghost.step work frame v = ⟨outcome, next, v'⟩) :
    host.step work frame (seen v) = ⟨outcome, next, seen v'⟩ := by
  rw [hs.step, h]

theorem openLine_eq (hs : ghost.Shadows host seen) {d : Delivery} {talking : Bool} {bubble : κ}
    (h : Action.openLine ghost d v = (talking, bubble, v')) :
    Action.openLine host d (seen v) = (talking, bubble, seen v') := by
  unfold Action.openLine at h ⊢
  dsimp only at h ⊢
  rw [hs.hasParameter]
  cases htalking : ghost.hasParameter v d.speaker.actor d.talkingParameter with
  | false =>
    simp only [htalking, Bool.false_eq_true, if_false, Prod.mk.injEq] at h ⊢
    obtain ⟨rfl, rfl, rfl⟩ := h
    simp only [hs.position, hs.record, hs.showLine, and_self]
  | true =>
    simp only [htalking, if_true, Prod.mk.injEq] at h ⊢
    obtain ⟨rfl, rfl, rfl⟩ := h
    simp only [hs.position, hs.record, hs.setParameter, hs.showLine, and_self]

theorem openChoices_eq (hs : ghost.Shadows host seen) {q : Question} {slot : Slot} {bubble : κ}
    (h : Action.openChoices ghost q v = (slot, bubble, v')) :
    Action.openChoices host q (seen v) = (slot, bubble, seen v') := by
  unfold Action.openChoices at h ⊢
  simp only [Prod.mk.injEq] at h ⊢
  obtain ⟨rfl, rfl, rfl⟩ := h
  simp only [hs.position, hs.record, hs.openSlot, hs.showChoices, and_self]

theorem storing_eq (hs : ghost.Shadows host seen) (assignment : Assignment) (v : V) :
    host.storing assignment (seen v) = seen (ghost.storing assignment v) := by
  unfold Host.storing
  dsimp only
  split <;> simp only [hs.record, hs.setVariable, hs.setParameter]

theorem hushing_eq (hs : ghost.Shadows host seen) (d : Delivery) (talking : Bool) (v : V) :
    host.hushing d talking (seen v) = seen (ghost.hushing d talking v) := by
  unfold Host.hushing
  split
  · simp only [hs.record, hs.setParameter]
  · rfl

theorem stepParts_eq (hs : ghost.Shadows host seen) (frame : Frame) (parts : List (κ ⊕ Cue))
    (v : V) :
    host.stepParts frame parts (seen v) =
      ⟨(ghost.stepParts frame parts v).outcome, (ghost.stepParts frame parts v).next,
        seen (ghost.stepParts frame parts v).world⟩ := by
  have hpart (part : κ ⊕ Cue) (v : V) : host.stepPart frame part (seen v) =
      ⟨(ghost.stepPart frame part v).outcome, (ghost.stepPart frame part v).next,
        seen (ghost.stepPart frame part v).world⟩ := by
    cases part with
    | inl work => exact hs.step work frame v
    | inr cue =>
      simp only [Host.stepPart, hs.record, hs.play]
      exact hs.step _ frame _
  induction parts generalizing v with
  | nil => rfl
  | cons part rest ih =>
    rw [Host.stepParts, Host.stepParts, hpart]
    dsimp only
    rw [ih]
    split <;> rfl

/-- Every move is a move of the host that is watched. -/
theorem move (hs : ghost.Shadows host seen)
    (h : Move ghost settings frame spot v spot' v') :
    Move host settings frame spot (seen v) spot' (seen v') := by
  cases h with
  | speak h => exact .speak (hs.openLine_eq h)
  | said h =>
    rw [← hs.hushing_eq]
    exact .said (hs.step_eq h)
  | play => exact .play
  | @played parts later _ h =>
    have hparts := hs.stepParts_eq frame parts v
    have hdone : (host.stepParts frame parts (seen v)).outcome = .ok .done := by rw [hparts, h]
    have hmove : Move host settings frame ⟨some (.playing parts), later⟩ (seen v) ⟨none, later⟩
        (host.stepParts frame parts (seen v)).world := .played hdone
    rwa [hparts] at hmove
  | stored => exact .stored
  | ask h => exact .ask (hs.openChoices_eq h)
  | chose h hselected hbranch =>
    rw [← hs.record]
    exact .chose (hs.step_eq h) ((hs.selected _ _).trans hselected) hbranch

theorem halt (hs : ghost.Shadows host seen) (h : Halt ghost frame spot v outcome spot' v') :
    Halt host frame spot (seen v) outcome spot' (seen v') := by
  cases h with
  | finished => exact .finished
  | store =>
    rw [← hs.storing_eq]
    exact .store
  | speaking h hne => exact .speaking (hs.step_eq h) hne
  | @playing parts later _ hne =>
    have hparts := hs.stepParts_eq frame parts v
    have hne' : (host.stepParts frame parts (seen v)).outcome ≠ .ok .done := by rwa [hparts]
    have hhalt : Halt host frame ⟨some (.playing parts), later⟩ (seen v) _ _ _ := .playing hne'
    rwa [hparts] at hhalt
  | choosing h hne => exact .choosing (hs.step_eq h) hne
  | unselected h hselected => exact .unselected (hs.step_eq h) ((hs.selected _ _).trans hselected)
  | invalid h hselected hbranch =>
    rw [← hs.record]
    exact .invalid (hs.step_eq h) ((hs.selected _ _).trans hselected) hbranch

theorem passes (hs : ghost.Shadows host seen)
    (h : Passes ghost settings frame spot v outcome spot' v') :
    Passes host settings frame spot (seen v) outcome spot' (seen v') := by
  induction h with
  | halt h => exact .halt (hs.halt h)
  | move h _ ih => exact .move (hs.move h) ih

/-- A frame of two performances that stand at the same spot comes to the same for both hosts, and
they stand at the same spot again. -/
theorem advance (hs : ghost.Shadows host seen) {watching : List (Action V κ)}
    {watched : List (Action W κ)} (h : Stands ghost settings watching spot)
    (h' : Stands host settings watched spot) (frame : Frame) (v : V) :
    (Action.advanceSequence ghost frame watching v).outcome =
        (Action.advanceSequence host frame watched (seen v)).outcome ∧
      seen (Action.advanceSequence ghost frame watching v).world =
        (Action.advanceSequence host frame watched (seen v)).world ∧
      ∃ spot, Stands ghost settings (Action.advanceSequence ghost frame watching v).next spot ∧
        Stands host settings (Action.advanceSequence host frame watched (seen v)).next spot := by
  obtain ⟨spot₁, hpasses, hstands⟩ := h.passes frame v
  obtain ⟨spot₂, hpasses', hstands'⟩ := h'.passes frame (seen v)
  obtain ⟨houtcome, rfl, hworld⟩ := (hs.passes hpasses).unique hpasses'
  exact ⟨houtcome, hworld, spot₁, hstands, hstands'⟩

/-- Performances of both hosts that stand at the same spot come to the same, frame by frame, and stand
at the same spot again. -/
theorem advances (hs : ghost.Shadows host seen) {watching : List (Action V κ)}
    {watched : List (Action W κ)} (h : Stands ghost settings watching spot)
    (h' : Stands host settings watched spot) (frames : List Frame) (v : V) :
    List.Forall₂
      (fun s t => s.outcome = t.outcome ∧ seen s.world = t.world ∧ ∃ watching watched spot,
        s.next = .sequence watching ∧ t.next = .sequence watched ∧
        Stands ghost settings watching spot ∧ Stands host settings watched spot)
      (Action.advances ghost frames (.sequence watching) v)
      (Action.advances host frames (.sequence watched) (seen v)) := by
  induction frames generalizing spot watching watched v with
  | nil => exact .nil
  | cons frame frames ih =>
    obtain ⟨houtcome, hworld, spot', hstands, hstands'⟩ := hs.advance h h' frame v
    have hrest := ih hstands hstands' (Action.advanceSequence ghost frame watching v).world
    rw [Action.advances, Action.advances, Action.advance, Action.advance]
    refine .cons ⟨houtcome, hworld, _, _, _, rfl, rfl, hstands, hstands'⟩ ?_
    rw [hworld] at hrest
    exact hrest

end Host.Shadows

end Shadows

/-- A host that keeps a ledger is one of these. -/
theorem Host.watched_shadows {W α β : Type} (host : Host W (α ⊕ β)) :
    host.watched.Shadows host Watched.world where
  step _ _ _ := rfl
  hasParameter _ _ _ := rfl
  position _ _ := rfl
  setParameter _ _ _ _ := rfl
  play _ _ _ := rfl
  showLine _ _ _ := rfl
  showChoices _ _ _ _ := rfl
  openSlot _ := rfl
  selected _ _ := rfl
  setVariable _ _ _ := rfl
  record _ _ := rfl

/-! ## Runs in which others take part -/

/-- What others do is not written into the ledger. -/
def Watched.aside {W : Type} (change : W → W) (m : Watched W) : Watched W :=
  m.moved (change m.world)

/-- The same run for a host that is watched. -/
def unheeded {W : Type} (run : List ((W → W) × Frame)) :
    List ((Watched W → Watched W) × Frame) :=
  run.map fun r => (Watched.aside r.1, r.2)

end Promptbook
