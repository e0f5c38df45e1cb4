import Promptbook.Proofs.Performance.Passage

set_option autoImplicit false

/-!
# Frames of sequences and choices

What is done hands over to what comes next in the same frame: a statement to the one behind it, and
a choice to the branch that was selected.  Both follow from the frames of the statements that are
begun in this way.
-/

namespace Promptbook

open Script (Statement Cue Assignment Speech)

section Frames

variable {A α B β : Type} (company : Company A α) (presenter : Presenter B β) (settings : Settings)

/-! ## Sequences -/

/-- In every frame in which it is begun, a statement makes the first of its calls. -/
def Begins (s : Statement) : Prop :=
  ∀ (frame : Frame) (w : Watched (World A B)), ∃ added,
    Passage (Underway.form company presenter settings)
      (fun ledger k => s.trace company settings ledger k) w added
      (Action.advance (Host.ofParts company presenter) frame
        (.ofStatement (Host.ofParts company presenter) settings s) w.world)
      (Action.advance (Host.ofParts company presenter).watched frame
        (.ofStatement (Host.ofParts company presenter).watched settings s) w) ∧
    added.Opens (Action.advance (Host.ofParts company presenter) frame
      (.ofStatement (Host.ofParts company presenter) settings s) w.world).outcome

/-- In every frame in which it is begun, a script makes the first of its calls. -/
def BeginsAll (script : List Statement) : Prop :=
  ∀ (frame : Frame) (w : Watched (World A B)), ∃ added,
    Passage (Place.form company presenter settings)
      (fun ledger k => traceAll company settings ledger k script) w added
      (Action.advanceSequence (Host.ofParts company presenter) frame
        (Action.ofStatements (Host.ofParts company presenter) settings script) w.world)
      (Action.advanceSequence (Host.ofParts company presenter).watched frame
        (Action.ofStatements (Host.ofParts company presenter).watched settings script) w) ∧
    added.Opens (Action.advanceSequence (Host.ofParts company presenter) frame
      (Action.ofStatements (Host.ofParts company presenter) settings script) w.world).outcome

variable {company presenter settings}

/-- A statement that is done is followed by those behind it in the same frame. -/
theorem passage_advanceSequence {frame : Frame} {w : Watched (World A B)}
    {added : Ledger (World A B)} {due : Ledger (World A B) → Nat → List Call}
    {child : Action (World A B) (α ⊕ β)} {watched : Action (Watched (World A B)) (α ⊕ β)}
    {later : List Statement}
    (hchild : Passage (Underway.form company presenter settings) due w added
      (Action.advance (Host.ofParts company presenter) frame child w.world)
      (Action.advance (Host.ofParts company presenter).watched frame watched w))
    (hlater : BeginsAll company presenter settings later) :
    ∃ more, Passage (Place.form company presenter settings)
        (fun ledger k => due ledger k ++
          traceAll company settings ledger (k + (due ledger k).length) later) w more
        (Action.advanceSequence (Host.ofParts company presenter) frame
          (child :: Action.ofStatements (Host.ofParts company presenter) settings later) w.world)
        (Action.advanceSequence (Host.ofParts company presenter).watched frame
          (watched :: Action.ofStatements (Host.ofParts company presenter).watched settings later)
          w) ∧
      (added.Opens (Action.advance (Host.ofParts company presenter) frame child w.world).outcome →
        more.Opens (Action.advanceSequence (Host.ofParts company presenter) frame
          (child :: Action.ofStatements (Host.ofParts company presenter) settings later)
          w.world).outcome) := by
  cases hchild with
  | done ht hs hworld hdue =>
    rw [Action.advanceSequence_of_done ht, Action.advanceSequence_of_done hs, hworld]
    obtain ⟨more, hrest, hopens⟩ := hlater frame
      ⟨(Action.advance (Host.ofParts company presenter) frame child w.world).world,
        w.ledger ++ added⟩
    refine ⟨added ++ more, hrest.after rfl ?_, ?_⟩
    · intro full hfull
      rw [← List.append_assoc] at hfull
      rw [hdue full (ht ▸ hfull.before_opening hopens), Ledger.count_append]
    · intro hfirst
      exact Ledger.Opens.append (ht ▸ hfirst) hopens
  | suspended x hne ht hs hdue =>
    have hsne : (Action.advance (Host.ofParts company presenter).watched frame watched w).outcome ≠
        .ok .done := by
      rw [hs]
      exact hne
    rw [Action.advanceSequence_of_ne hne, Action.advanceSequence_of_ne hsne]
    refine ⟨added, .suspended (x, later) hne ?_ ?_ ?_, id⟩
    · dsimp only
      rw [ht]
      rfl
    · rw [hs]
      rfl
    · intro full hfull
      rw [hdue full hfull, Ledger.count_append, List.length_append, List.append_assoc,
        ← Nat.add_assoc]
      rfl

/-- A script begins if its statements do. -/
theorem beginsAll_of_begins {script : List Statement}
    (h : ∀ s ∈ script, Begins company presenter settings s) :
    BeginsAll company presenter settings script := by
  induction script with
  | nil =>
    intro frame w
    refine ⟨[], .done rfl rfl ?_ fun _ _ => rfl, .inr ⟨rfl, rfl⟩⟩
    rw [List.append_nil]
    rfl
  | cons s rest ih =>
    intro frame w
    obtain ⟨added, hs, hopens⟩ := h s (by simp) frame w
    obtain ⟨more, hsequence, hmore⟩ :=
      passage_advanceSequence hs (ih fun t ht => h t (List.mem_cons_of_mem _ ht))
    exact ⟨more, hsequence, hmore hopens⟩

/-! ## Choices -/

/-- A branch is followed as the sequence of its statements. -/
theorem Passage.settle {due : Ledger (World A B) → Nat → List Call} {w : Watched (World A B)}
    {added : Ledger (World A B)} {t : Step (List (Action (World A B) (α ⊕ β))) (World A B)}
    {s : Step (List (Action (Watched (World A B)) (α ⊕ β))) (Watched (World A B))}
    (h : Passage (Place.form company presenter settings) due w added t s) :
    Passage (Underway.form company presenter settings) due w added
      (Action.settle (t.mapNext .sequence)) (Action.settle (s.mapNext .sequence)) := by
  cases h with
  | done ht hs hworld hdue =>
    rw [Action.settle_of_done (s := t.mapNext .sequence) ht,
      Action.settle_of_done (s := s.mapNext .sequence) hs]
    exact .done rfl rfl hworld (by rwa [ht] at hdue)
  | suspended x hne ht hs hdue =>
    have hsne : (s.mapNext Action.sequence).outcome ≠ .ok .done := by
      rw [hs]
      exact hne
    rw [Action.settle_of_ne (s := t.mapNext .sequence) hne, Action.settle_of_ne hsne]
    refine .suspended (.following x.1 x.2) hne ?_ ?_ hdue
    · dsimp only [Step.next_mapNext]
      rw [ht]
      rfl
    · rw [hs]
      rfl

theorem passage_stepChoice {branches : List (String × List Statement)}
    (hbranches : ∀ b ∈ branches, BeginsAll company presenter settings b.2) (frame : Frame)
    (asker : ActorRef) (slot : Slot) (bubble : β) (spent : Bool) (w : Watched (World A B)) :
    ∃ added, Passage (Underway.form company presenter settings)
      (fun ledger k => dueChosen company settings branches slot ledger k) w added
      (Action.stepChoice (Host.ofParts company presenter) frame (questionOf settings asker branches)
        slot (.inr bubble) (branchActions (Host.ofParts company presenter) settings branches spent)
        (Action.advanceNth (Host.ofParts company presenter) frame
          (branchActions (Host.ofParts company presenter) settings branches spent)) w.world)
      (Action.stepChoice (Host.ofParts company presenter).watched frame
        (questionOf settings asker branches) slot (.inr bubble)
        (branchActions (Host.ofParts company presenter).watched settings branches spent)
        (Action.advanceNth (Host.ofParts company presenter).watched frame
          (branchActions (Host.ofParts company presenter).watched settings branches spent)) w) := by
  obtain ⟨outcome, next, after, hstep⟩ := exists_step_bubble company presenter bubble frame w.world
  by_cases hne : outcome = .ok .done
  · subst hne
    have hwatched := watched_step_of_done hstep
    cases hselected : (Host.ofParts company presenter).selected after slot with
    | none =>
      rw [Action.stepChoice_of_none hstep hselected, Action.stepChoice_of_none hwatched hselected]
      exact ⟨[.bubbleDone after],
        .suspended (.choosing asker branches slot next spent) (by simp) rfl rfl fun _ _ => by
          rw [Ledger.count_append]
          rfl⟩
    | some index =>
      let chosen := after.record (.chose asker ((Script.labelsOf branches).getD index ""))
      have hfollow {W : Type} (host : Host W (α ⊕ β)) (v : W) :
          Action.advanceNth host frame (branchActions host settings branches spent) index v =
            (if spent then none else branches[index]?).map fun b =>
              Action.advance host frame (.ofScript host settings b.2) v := by
        rw [Action.advanceNth_eq, branchActions_getElem?, Option.map_map]
        rfl
      cases hbranch : (if spent then none else branches[index]?) with
      | none =>
        rw [Action.stepChoice_of_invalid hstep hselected (by rw [hfollow, hbranch]; rfl),
          Action.stepChoice_of_invalid hwatched hselected (by rw [hfollow, hbranch]; rfl),
          length_branchActions, length_branchActions]
        exact ⟨[.bubbleDone after],
          .suspended (.choosing asker branches slot next true) (by simp) rfl rfl fun _ _ => by
            rw [Ledger.count_append]
            rfl⟩
      | some b =>
        have hb : branches[index]? = some b := by
          cases spent with
          | true => simp at hbranch
          | false => simpa using hbranch
        rw [Action.stepChoice_of_branch hstep hselected (by rw [hfollow, hbranch]; rfl),
          Action.stepChoice_of_branch hwatched hselected (by rw [hfollow, hbranch]; rfl)]
        obtain ⟨added, hbegins, hopens⟩ := hbranches b (List.mem_of_getElem? hb) frame
          ⟨chosen, w.ledger ++ [.bubbleDone after]⟩
        refine ⟨[.bubbleDone after] ++ added, hbegins.settle.after rfl ?_⟩
        intro full hfull
        rw [Action.outcome_settle, ← List.append_assoc] at hfull
        have hdone := (hfull.before_opening hopens).doneIn_eq
        have hpicked : pickedAt full (Ledger.count w.ledger) slot = some index := by
          rw [pickedAt, hdone]
          exact hselected
        rw [dueChosen, hpicked, Ledger.count_append]
        dsimp only
        rw [traceNth_eq, hb]
        rfl
  · rw [Action.stepChoice_of_ne hstep hne,
      Action.stepChoice_of_ne (watched_step_of_ne hstep hne) hne]
    refine ⟨[], .suspended (.choosing asker branches slot next spent) hne rfl ?_ fun _ _ => ?_⟩
    · rw [List.append_nil]
      rfl
    · rw [List.append_nil]
      rfl

end Frames

end Promptbook
