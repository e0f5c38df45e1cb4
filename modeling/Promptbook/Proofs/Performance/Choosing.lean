import Promptbook.Proofs.Action.Choosing
import Promptbook.Proofs.Performance.Shadow
import Promptbook.Proofs.Performance.Soundness
import Promptbook.Proofs.Stage.Selecting

set_option autoImplicit false

/-!
# The branch that was selected

What a choice of a script comes to is decided by a slot that is created when the choice is put, and
into which its bubble, or anyone else who holds it, may write at any time.  A presenter comes with a
`Scribe`, who records everything that its bubbles create and select; `Meanwhile` is what others do
before a frame, with the same record.  So the index that was written last is known without looking
into the slot (`Presenter.Scribe.selected_written`).

A choice is watched in two ways at once: a ledger holds the calls, and each branch is played under
its index, so that every advance of it appears.  `Likened.amid` says that this changes nothing, and
`choice_plays_selected_branch` what can be read off.
-/

namespace Promptbook

open Script (Statement)

/-! ## What is written into slots -/

/-- What others do to the world before a frame, and what they create and select. -/
structure Meanwhile (A B : Type) where
  change : World A B → World A B
  changes : World A B → List Selections.Change
  selections_change : ∀ w, (change w).selections = w.selections.changed (changes w)

/-- Others do nothing. -/
def Meanwhile.nothing {A B : Type} : Meanwhile A B := ⟨id, fun _ => [], fun _ => rfl⟩

/-- The frames of a run, each with what others do to the world before it. -/
def eventful {A B : Type} (run : List (Meanwhile A B × Frame)) :
    List ((World A B → World A B) × Frame) :=
  run.map fun r => (r.1.change, r.2)

/-- A record of everything that the bubbles of a presenter create and select. -/
structure Presenter.Scribe {B β : Type} (presenter : Presenter B β) where
  shown : List String → Position → Slot → B × Selections → List Selections.Change
  stepped : β → Frame → B × Selections → List Selections.Change
  selections_showChoices : ∀ labels position slot w,
    (presenter.showChoices labels position slot w).1.2.2 =
      w.2.changed (shown labels position slot w)
  selections_step : ∀ bubble frame w,
    (presenter.step bubble frame w).1.world.2 = w.2.changed (stepped bubble frame w)

namespace Presenter.Scribe

variable {A α B β : Type} {presenter : Presenter B β} (scribe : presenter.Scribe)
  (company : Company A α)

/-- What is created and selected when a choice is put. -/
def opening (q : Question) (w : World A B) : List Selections.Change :=
  scribe.shown q.labels ((company.position w.actors q.asker.actor).raised q.bubbleHeight)
    w.selections.create.1 (w.bubbles, w.selections.create.2)

/-- What is created and selected in a frame of some work. -/
def stepping (work : α ⊕ β) (frame : Frame) (w : World A B) : List Selections.Change :=
  match work with
  | .inl _ => []
  | .inr bubble => scribe.stepped bubble frame (w.bubbles, w.selections)

/-- What is created and selected, by others and by some work, while this work is stepped. -/
def during : List (Meanwhile A B × Frame) → α ⊕ β → World A B → List Selections.Change
  | [], _, _ => []
  | (meanwhile, frame) :: run, work, w =>
    let v := meanwhile.change w
    let s := (Host.ofParts company presenter).step work frame v
    meanwhile.changes w ++ scribe.stepping work frame v ++ during run s.next s.world

/-- Everything that is created and selected from the opening of the slot of a choice to the end of
the last frame. -/
def written (q : Question) (run : List (Meanwhile A B × Frame)) (w : World A B) :
    List Selections.Change :=
  match run with
  | [] => []
  | (meanwhile, frame) :: run =>
    let (_, bubble, opened) := Action.openChoices (Host.ofParts company presenter) q
      (meanwhile.change w)
    scribe.opening company q (meanwhile.change w) ++
      scribe.during company ((.nothing, frame) :: run) bubble opened

/-- Every step of some work creates and selects what is recorded of it. -/
theorem selections_stepping (work : α ⊕ β) (frame : Frame) (w : World A B) :
    ((Host.ofParts company presenter).step work frame w).world.selections =
      w.selections.changed (scribe.stepping work frame w) := by
  cases work with
  | inl animation => simp [Host.ofParts, Host.stepActor, World.remark, stepping, Selections.changed]
  | inr bubble =>
    simp only [Host.ofParts, Host.stepBubble, World.remark, World.selections_recordAll, stepping]
    exact scribe.selections_step bubble frame _

/-- And so does the opening of a choice, in a slot that was created for it. -/
theorem selections_opening {q : Question} {w opened : World A B} {slot : Slot} {bubble : α ⊕ β}
    (hopen : Action.openChoices (Host.ofParts company presenter) q w = (slot, bubble, opened)) :
    slot = w.selections.create.1 ∧
      opened.selections = w.selections.create.2.changed (scribe.opening company q w) := by
  simp only [Action.openChoices, Host.ofParts, Host.opened, World.record, Prod.mk.injEq] at hopen
  obtain ⟨rfl, -, rfl⟩ := hopen
  refine ⟨rfl, ?_⟩
  simp only [World.remark, World.selections_recordAll]
  exact scribe.selections_showChoices _ _ _ _

/-- What is created and selected up to a frame leads to the slots that this frame leaves. -/
theorem selections_during {run : List (Meanwhile A B × Frame)} {work : α ⊕ β} {w : World A B}
    {k : Nat} {t : World A B × Step (Action (World A B) (α ⊕ β)) (World A B)}
    (ht : (Action.amid (Host.ofParts company presenter) (eventful run) (.machine work) w)[k]? =
      some t) :
    t.2.world.selections =
      w.selections.changed (scribe.during company (run.take (k + 1)) work w) := by
  induction run generalizing work w k with
  | nil => simp [eventful, Action.amid] at ht
  | cons r run ih =>
    obtain ⟨meanwhile, frame⟩ := r
    rw [eventful, List.map_cons, Action.amid, Action.advance] at ht
    have hfirst := scribe.selections_stepping company work frame (meanwhile.change w)
    rw [meanwhile.selections_change, ← Selections.changed_append] at hfirst
    rw [List.take_succ_cons, during, Selections.changed_append, ← hfirst]
    cases k with
    | zero =>
      obtain rfl := Option.some.inj ht
      simp [during, Selections.changed]
    | succ k => exact ih ht

/-- When a bubble that was opened for a choice comes to `t`, what is selected is what was written
last into the slot of the choice. -/
theorem selected_written {q : Question} {meanwhile : Meanwhile A B} {frame : Frame}
    {run : List (Meanwhile A B × Frame)} {w opened : World A B} {slot : Slot} {bubble : α ⊕ β}
    {k : Nat} {t : World A B × Step (Action (World A B) (α ⊕ β)) (World A B)}
    (hopen : Action.openChoices (Host.ofParts company presenter) q (meanwhile.change w) =
      (slot, bubble, opened))
    (ht : (Action.amid (Host.ofParts company presenter)
      (Action.resumed (eventful ((meanwhile, frame) :: run))) (.machine bubble) opened)[k]? =
        some t) :
    t.2.world.selections.selected slot = Selections.lastIndex? slot
      (scribe.written company q (((meanwhile, frame) :: run).take (k + 1)) w) := by
  obtain ⟨rfl, hopened⟩ := scribe.selections_opening company hopen
  have hresumed : Action.resumed (eventful ((meanwhile, frame) :: run)) =
      eventful ((.nothing, frame) :: run) := rfl
  rw [hresumed] at ht
  rw [List.take_succ_cons, written, hopen]
  dsimp only
  rw [scribe.selections_during company ht, hopened, ← Selections.changed_append,
    Selections.selected_changed_create, List.take_succ_cons]

end Presenter.Scribe

/-! ## Watching a choice -/

section Watching

variable {W α β : Type} {host : Host W (α ⊕ β)} {settings : Settings}

/-- Branches that are played under their indices. -/
def namedBranches (branches : List (Action W (α ⊕ β))) :
    List (Action (Attended Nat W) ((α ⊕ β) ⊕ (Nat × Action W (α ⊕ β)))) :=
  branches.mapIdx Action.named

theorem getElem?_namedBranches (branches : List (Action W (α ⊕ β))) (index : Nat) :
    (namedBranches branches)[index]? = branches[index]?.map (Action.named index) :=
  List.getElem?_mapIdx

variable (host settings) in
/-- The choice of a statement, watched: the calls are written down, and the branches are played
under their indices. -/
def watchedChoice (asker : ActorRef) (branches : List (String × List Statement)) :
    Action (Attended Nat (Watched W)) ((α ⊕ β) ⊕ (Nat × Action (Watched W) (α ⊕ β))) :=
  .prompt ⟨asker, Script.labelsOf branches, settings.bubbleHeight⟩
    (namedBranches (Action.ofBranches host.watched settings branches))

variable (host settings) in
/-- A watched choice and the same choice that is not watched, at the same place. -/
inductive Likened : Action (Attended Nat (Watched W))
    ((α ⊕ β) ⊕ (Nat × Action (Watched W) (α ⊕ β))) → Action W (α ⊕ β) → Prop where
  | prompt (q : Question) (branches : List (String × List Statement)) :
      Likened (.prompt q (namedBranches (Action.ofBranches host.watched settings branches)))
        (.prompt q (Action.ofBranches host settings branches))
  | choosing (q : Question) (slot : Slot) (bubble : α ⊕ β)
      (branches : List (String × List Statement)) :
      Likened
        (.choosing q slot (.inl bubble)
          (namedBranches (Action.ofBranches host.watched settings branches)))
        (.choosing q slot bubble (Action.ofBranches host settings branches))
  | following (index : Nat) {watching : List (Action (Watched W) (α ⊕ β))}
      {watched : List (Action W (α ⊕ β))} {spot : Spot (α ⊕ β)}
      (h : Stands host.watched settings watching spot) (h' : Stands host settings watched spot) :
      Likened (.following (.named index (.sequence watching))) (.following (.sequence watched))
  | finished : Likened .finished .finished

/-- The opening of a choice is watched as one call. -/
theorem exists_openChoices_watched {q : Question} {w opened : W} {slot : Slot} {bubble : α ⊕ β}
    (hopen : Action.openChoices host q w = (slot, bubble, opened))
    (m : Attended Nat (Watched W)) (hm : m.world.world = w) :
    ∃ ledger, Action.openChoices host.watched.attended q m =
        (slot, .inl bubble, ⟨⟨opened, ledger⟩, m.appearances⟩) ∧
      ledger.calls = m.world.ledger.calls ++ [.showChoices q.labels slot] := by
  subst hm
  simp only [Action.openChoices, Prod.mk.injEq] at hopen
  obtain ⟨rfl, rfl, rfl⟩ := hopen
  exact ⟨_, rfl, Ledger.calls_append _ _⟩

/-- A bubble makes no call and does not appear. -/
theorem exists_step_watched (bubble : α ⊕ β) (frame : Frame) (m : Attended Nat (Watched W)) :
    let s := host.step bubble frame m.world.world
    ∃ ledger, host.watched.attended.step (.inl bubble) frame m =
        ⟨s.outcome, .inl s.next, ⟨s.world, ledger⟩, m.appearances⟩ ∧
      ledger.calls = m.world.ledger.calls := by
  intro s
  refine ⟨m.world.ledger ++ .ofStep bubble s, rfl, ?_⟩
  rw [Ledger.calls_append]
  unfold Ledger.ofStep
  split <;> simp [Ledger.calls]

/-- A branch that is watched and followed goes as it does when it is not watched. -/
theorem likened_settle (index : Nat) {watching : List (Action (Watched W) (α ⊕ β))}
    {watched : List (Action W (α ⊕ β))} {spot : Spot (α ⊕ β)}
    (h : Stands host.watched settings watching spot) (h' : Stands host settings watched spot)
    (frame : Frame) (m : Attended Nat (Watched W)) :
    let s := Action.settle (Action.advance host.watched.attended frame
      (.named index (.sequence watching)) m)
    let t := Action.settle (Action.advance host frame (.sequence watched) m.world.world)
    s.outcome = t.outcome ∧ s.world.world.world = t.world ∧
      Likened host settings s.next t.next := by
  intro s t
  obtain ⟨houtcome, hworld, spot', hstands, hstands'⟩ :=
    host.watched_shadows.advance h h' frame m.world
  simp only [s, t, Action.advance_named, Action.advance]
  by_cases hdone : (Action.advanceSequence host frame watched m.world.world).outcome = .ok .done
  · rw [Action.settle_of_done (houtcome.trans hdone), Action.settle_of_done hdone]
    exact ⟨rfl, hworld, .finished⟩
  · rw [Action.settle_of_ne (by simpa [houtcome] using hdone),
      Action.settle_of_ne (by simpa using hdone)]
    exact ⟨houtcome, hworld, .following index hstands hstands'⟩

section Branches

variable (host : Host W (α ⊕ β)) (settings : Settings) (branches : List (String × List Statement))

theorem advanceNth_ofBranches (frame : Frame) (index : Nat) (w : W) :
    Action.advanceNth host frame (Action.ofBranches host settings branches) index w =
      branches[index]?.map fun b =>
        Action.advance host frame (.sequence (Action.ofStatements host settings b.2)) w := by
  rw [Action.advanceNth_eq, Action.ofBranches_eq_map, List.getElem?_map, Option.map_map]
  rfl

theorem length_watchedBranches :
    (namedBranches (Action.ofBranches host.watched settings branches)).length =
      branches.length := by
  simp [namedBranches, Action.ofBranches_eq_map]

theorem getElem?_watchedBranches (index : Nat) :
    (namedBranches (Action.ofBranches host.watched settings branches))[index]? =
      branches[index]?.map fun b => .named index (.ofScript host.watched settings b.2) := by
  rw [getElem?_namedBranches, Action.ofBranches_eq_map, List.getElem?_map, Option.map_map]
  rfl

theorem advanceNth_watchedBranches (frame : Frame) (index : Nat) (m : Attended Nat (Watched W)) :
    Action.advanceNth host.watched.attended frame
        (namedBranches (Action.ofBranches host.watched settings branches)) index m =
      branches[index]?.map fun b => Action.advance host.watched.attended frame
        (.named index (.ofScript host.watched settings b.2)) m := by
  rw [Action.advanceNth_eq, getElem?_watchedBranches, Option.map_map]
  rfl

end Branches

/-- A frame of an open choice that is watched is one of the choice that is not. -/
theorem likened_stepChoice (q : Question) (slot : Slot) (bubble : α ⊕ β)
    (branches : List (String × List Statement)) (frame : Frame) (m : Attended Nat (Watched W)) :
    let watching := namedBranches (Action.ofBranches host.watched settings branches)
    let plain := Action.ofBranches host settings branches
    let s := Action.stepChoice host.watched.attended frame q slot (.inl bubble) watching
      (Action.advanceNth host.watched.attended frame watching) m
    let t := Action.stepChoice host frame q slot bubble plain
      (Action.advanceNth host frame plain) m.world.world
    s.outcome = t.outcome ∧ s.world.world.world = t.world ∧
      Likened host settings s.next t.next := by
  intro watching plain s t
  obtain ⟨ledger, hwatched, -⟩ := exists_step_watched bubble frame m
  generalize hstep : host.step bubble frame m.world.world = step at hwatched
  obtain ⟨outcome, next, after⟩ := step
  by_cases hdone : outcome = .ok .done
  · subst hdone
    cases hselected : host.selected after slot with
    | none =>
      simp only [s, t, Action.stepChoice_of_none hstep hselected,
        Action.stepChoice_of_none hwatched hselected]
      exact ⟨trivial, trivial, .choosing q slot next branches⟩
    | some index =>
      have hwatching (v : Attended Nat (Watched W)) :
          Action.advanceNth host.watched.attended frame watching index v = _ :=
        advanceNth_watchedBranches host settings branches frame index v
      have hplain (v : W) : Action.advanceNth host frame plain index v = _ :=
        advanceNth_ofBranches host settings branches frame index v
      cases hbranch : branches[index]? with
      | none =>
        have hlength : watching.length = plain.length :=
          (length_watchedBranches host settings branches).trans
            (by simp [plain, Action.ofBranches_eq_map])
        simp only [hbranch, Option.map_none] at hwatching hplain
        simp only [s, t, Action.stepChoice_of_invalid hstep hselected (hplain _),
          Action.stepChoice_of_invalid hwatched hselected (hwatching _), hlength]
        exact ⟨trivial, rfl, .choosing q slot next []⟩
      | some branch =>
        simp only [hbranch, Option.map_some] at hwatching hplain
        simp only [s, t, Action.stepChoice_of_branch hstep hselected (hplain _),
          Action.stepChoice_of_branch hwatched hselected (hwatching _)]
        exact likened_settle index (.script branch.2) (.script branch.2) frame _
  · simp only [s, t, Action.stepChoice_of_ne hstep hdone, Action.stepChoice_of_ne hwatched hdone]
    exact ⟨trivial, trivial, .choosing q slot next branches⟩

/-- A frame of a choice that is watched is one of the choice that is not. -/
theorem Likened.advance {watching : Action (Attended Nat (Watched W))
    ((α ⊕ β) ⊕ (Nat × Action (Watched W) (α ⊕ β)))} {watched : Action W (α ⊕ β)}
    (h : Likened host settings watching watched) (frame : Frame) (m : Attended Nat (Watched W)) :
    let s := Action.advance host.watched.attended frame watching m
    let t := Action.advance host frame watched m.world.world
    s.outcome = t.outcome ∧ s.world.world.world = t.world ∧
      Likened host settings s.next t.next := by
  intro s t
  cases h with
  | prompt q branches =>
    generalize hopen : Action.openChoices host q m.world.world = opening
    obtain ⟨slot, bubble, opened⟩ := opening
    obtain ⟨ledger, hwatched, -⟩ := exists_openChoices_watched hopen m rfl
    simp only [s, t, Action.advance_prompt hopen, Action.advance_prompt hwatched]
    exact likened_stepChoice q slot bubble branches frame ⟨⟨opened, ledger⟩, m.appearances⟩
  | choosing q slot bubble branches =>
    simp only [s, t, Action.advance]
    exact likened_stepChoice q slot bubble branches frame m
  | following index hstands hstands' =>
    simp only [s, t, Action.advance]
    exact likened_settle index hstands hstands' frame m
  | finished => exact ⟨rfl, rfl, .finished⟩

/-- Watching a choice changes nothing, whatever others do. -/
theorem Likened.amid {watching : Action (Attended Nat (Watched W))
    ((α ⊕ β) ⊕ (Nat × Action (Watched W) (α ⊕ β)))} {watched : Action W (α ⊕ β)}
    (h : Likened host settings watching watched) (run : List ((W → W) × Frame))
    (m : Attended Nat (Watched W)) :
    List.Forall₂ (fun s t => s.2.outcome = t.2.outcome ∧ s.2.world.world.world = t.2.world)
      (Action.amid host.watched.attended (Action.unattended (unheeded run)) watching m)
      (Action.amid host run watched m.world.world) := by
  induction run generalizing watching watched m with
  | nil => exact .nil
  | cons r run ih =>
    obtain ⟨change, frame⟩ := r
    obtain ⟨houtcome, hworld, hnext⟩ := h.advance frame (m.aside (Watched.aside change))
    have hrest := ih hnext (Action.advance host.watched.attended frame watching
      (m.aside (Watched.aside change))).world
    rw [hworld] at hrest
    exact .cons ⟨houtcome, hworld⟩ hrest

/-- A bubble that is stepped by itself does the same when it is watched; it makes no call and does
not appear. -/
theorem exists_amid_bubble {run : List ((W → W) × Frame)} {bubble : α ⊕ β} {w : W} {k : Nat}
    {t : W × Step (Action W (α ⊕ β)) W}
    (ht : (Action.amid host run (.machine bubble) w)[k]? = some t) (ledger : Ledger W) :
    ∃ before ledger' next,
      (Action.amid host.watched.attended (Action.unattended (unheeded run))
          (.machine (.inl bubble)) (⟨⟨w, ledger⟩, []⟩ : Attended Nat (Watched W)))[k]? =
        some (before, ⟨t.2.outcome, next, ⟨⟨t.2.world, ledger'⟩, []⟩⟩) ∧
      ledger'.calls = ledger.calls := by
  induction run generalizing bubble w k ledger with
  | nil => simp [Action.amid] at ht
  | cons r run ih =>
    obtain ⟨change, frame⟩ := r
    rw [Action.amid, Action.advance] at ht
    obtain ⟨ledger', hstep, hcalls⟩ := exists_step_watched bubble frame
      (⟨⟨change w, ledger⟩, []⟩ : Attended Nat (Watched W))
    have hadvance : Action.advance host.watched.attended frame (.machine (.inl bubble))
        (⟨⟨change w, ledger⟩, []⟩ : Attended Nat (Watched W)) =
          ⟨(host.step bubble frame (change w)).outcome,
            .machine (.inl (host.step bubble frame (change w)).next),
            ⟨(host.step bubble frame (change w)).world, ledger'⟩, []⟩ := by
      rw [Action.advance, hstep]
      rfl
    have hlater : Action.amid host.watched.attended
        (Action.unattended (unheeded ((change, frame) :: run))) (.machine (.inl bubble))
        (⟨⟨w, ledger⟩, []⟩ : Attended Nat (Watched W)) =
          let m : Attended Nat (Watched W) := ⟨⟨change w, ledger⟩, []⟩
          let s := Action.advance host.watched.attended frame (.machine (.inl bubble)) m
          (m, s) :: Action.amid host.watched.attended (Action.unattended (unheeded run)) s.next
            s.world := rfl
    rw [hlater]
    dsimp only
    rw [hadvance]
    cases k with
    | zero =>
      obtain rfl := Option.some.inj ht
      exact ⟨_, ledger', _, rfl, hcalls⟩
    | succ k =>
      obtain ⟨before', ledger'', next, hlast, hcalls'⟩ := ih ht ledger'
      exact ⟨before', ledger'', next, hlast, hcalls'.trans hcalls⟩

theorem undone_amid_bubble {run : List ((W → W) × Frame)} {bubble : α ⊕ β} {w : W} {k : Nat}
    (h : Action.Undone (Action.amid host run (.machine bubble) w) k) (ledger : Ledger W) :
    Action.Undone (Action.amid host.watched.attended (Action.unattended (unheeded run))
      (.machine (.inl bubble)) (⟨⟨w, ledger⟩, []⟩ : Attended Nat (Watched W))) k := by
  refine h.congr (by simp [Action.length_amid, Action.unattended, unheeded]) fun j t ht => ?_
  obtain ⟨before, ledger', next, hstep, -⟩ := exists_amid_bubble ht ledger
  exact ⟨_, hstep, rfl⟩

/-- A choice of which only the bubble was at work: it was put once, with these labels and that slot,
and no branch has appeared. -/
structure OnlyPut (labels : List String) (slot : Slot) (w : W) (m : Attended Nat (Watched W)) :
    Prop where
  world : m.world.world = w
  calls : m.world.ledger.calls = [.showChoices labels slot]
  appearances : m.appearances = []

end Watching

/-! ## The choices of scripts -/

theorem resumed_watched {W : Type} (run : List ((W → W) × Frame)) :
    Action.resumed (Action.unattended (ι := Nat) (unheeded run)) =
      Action.unattended (unheeded (Action.resumed run)) := by
  cases run <;> rfl

/-- The choice of a script, for bubbles of any kind and whatever others do between the frames.  It
is put once, on the first tick, with all labels in their order.  As long as its bubble, stepped by
itself, is not done, it does what the bubble does, and no branch is advanced.  When the bubble is
done the index that was written last into the slot decides, in the same tick: without one, or with
one that has no branch, the choice fails, and no branch was advanced up to then; otherwise the
branch of that index begins with the frame of that tick, and the choice goes as the branch would by
itself until it is done, with no other branch advanced and no matter what is written into the
slot. -/
theorem choice_plays_selected_branch {A α B β : Type} (company : Company A α)
    {presenter : Presenter B β} (scribe : presenter.Scribe) (settings : Settings) (asker : ActorRef)
    (branches : List (String × List Statement)) (origin : Script.Origin) (meanwhile : Meanwhile A B)
    (frame : Frame) (run : List (Meanwhile A B × Frame)) (w : World A B) :
    let host := Host.ofParts company presenter
    let q : Question := ⟨asker, Script.labelsOf branches, settings.bubbleHeight⟩
    let frames := (meanwhile, frame) :: run
    let watched := Action.amid host.watched.attended
      (Action.unattended (unheeded (eventful frames))) (watchedChoice host settings asker branches)
      ⟨⟨w, []⟩, []⟩
    let opening := Action.openChoices host q (meanwhile.change w)
    let bubble := Action.amid host (Action.resumed (eventful frames)) (.machine opening.2.1)
      opening.2.2
    List.Forall₂ (fun s t => s.2.outcome = t.2.outcome ∧ s.2.world.world.world = t.2.world) watched
        (Action.amid host (eventful frames)
          (Action.ofStatement host settings (.choice asker branches origin)) w) ∧
      ∀ k t, Action.Undone bubble k → bubble[k]? = some t →
        (t.2.outcome ≠ .ok .done → ∃ s, watched[k]? = some s ∧ s.2.outcome = t.2.outcome ∧
          OnlyPut q.labels opening.1 t.2.world s.2.world) ∧
        (t.2.outcome = .ok .done →
          match Selections.lastIndex? opening.1
              (scribe.written company q (frames.take (k + 1)) w) with
          | none => ∃ s, watched[k]? = some s ∧ s.2.outcome = .error (.failed .noSelection) ∧
              OnlyPut q.labels opening.1 t.2.world s.2.world
          | some index =>
            let chosen := host.record (.chose asker (q.labels.getD index "")) t.2.world
            match branches[index]? with
            | none => ∃ s, watched[k]? = some s ∧
                s.2.outcome = .error (.failed (.invalidSelection index branches.length)) ∧
                OnlyPut q.labels opening.1 chosen s.2.world
            | some branch => ∃ ledger, ledger.calls = [.showChoices q.labels opening.1] ∧
                let played := Action.amid host.watched
                  (Action.resumed ((unheeded (eventful frames)).drop k))
                  (Action.ofScript host.watched settings branch.2) ⟨chosen, ledger⟩
                ∀ j u, Action.Undone played j → played[j]? = some u →
                  ∃ s, watched[k + j]? = some s ∧ s.2.outcome = u.2.outcome ∧
                    s.2.world = ⟨u.2.world, Action.appearancesOf index
                      ((frames.drop k).map Prod.snd) (played.take (j + 1))⟩) := by
  intro host q frames watched opening bubble
  refine ⟨(Likened.prompt q branches).amid (eventful frames) ⟨⟨w, []⟩, []⟩,
    fun k t hundone ht => ?_⟩
  have hopen : Action.openChoices host q (meanwhile.change w) =
      (opening.1, opening.2.1, opening.2.2) := rfl
  have hselected := scribe.selected_written company hopen ht
  -- the bubble by itself, watched
  obtain ⟨ledger, hopened, hput⟩ : ∃ ledger,
      Action.openChoices host.watched.attended q
          (Attended.aside (Watched.aside meanwhile.change) (⟨⟨w, []⟩, []⟩ : Attended Nat _)) =
        (opening.1, .inl opening.2.1, ⟨⟨opening.2.2, ledger⟩, []⟩) ∧
      ledger.calls = [.showChoices q.labels opening.1] := exists_openChoices_watched hopen _ rfl
  obtain ⟨before, ledger', next, hwatched, hcalls⟩ := exists_amid_bubble ht ledger
  have hcounts := undone_amid_bubble hundone ledger
  rw [← resumed_watched] at hwatched hcounts
  replace hcalls := hcalls.trans hput
  refine ⟨fun hne => ?_, fun hdone => ?_⟩
  · obtain ⟨v, waiting, hstep⟩ := Action.exists_prompt_waiting _ hopened hcounts hwatched hne
    exact ⟨_, hstep, rfl, rfl, hcalls, rfl⟩
  split
  · next hlast =>
    obtain ⟨v, failed, hstep⟩ := Action.exists_prompt_unselected _ hopened hcounts hwatched hdone
      (hselected.trans hlast)
    exact ⟨_, hstep, rfl, rfl, hcalls, rfl⟩
  · next index hlast =>
    dsimp only
    have hlength := length_watchedBranches host settings branches
    split
    · next hnone =>
      have hindex : branches.length ≤ index := List.getElem?_eq_none_iff.mp hnone
      obtain ⟨v, failed, hstep⟩ := Action.exists_prompt_invalid _ hopened hcounts hwatched hdone
        (hselected.trans hlast) (hlength ▸ hindex)
      rw [hlength] at hstep
      exact ⟨_, hstep, rfl, rfl, hcalls, rfl⟩
    · next branch hbranch =>
      refine ⟨ledger', hcalls, fun j u hundone' hu => ?_⟩
      have hnamed : (namedBranches (Action.ofBranches host.watched settings branches))[index]? =
          some (.named index (.ofScript host.watched settings branch.2)) := by
        rw [getElem?_watchedBranches, hbranch, Option.map_some]
      have hrun : Action.resumed ((Action.unattended (ι := Nat) (unheeded (eventful frames))).drop k) =
          Action.unattended (Action.resumed ((unheeded (eventful frames)).drop k)) := by
        rw [Action.unattended, ← List.map_drop]
        exact Action.resumed_unattended _
      have hbranches := Action.exists_prompt_branch _ hopened hcounts hwatched hdone
        (hselected.trans hlast) hnamed
      have hframes : (Action.resumed ((unheeded (eventful frames)).drop k)).map Prod.snd =
          (frames.drop k).map Prod.snd := by
        rw [Action.map_snd_resumed, List.map_drop, List.map_drop]
        simp [unheeded, eventful, Function.comp_def]
      obtain ⟨v, hplayed⟩ := Action.exists_amid_named index
        (m := (⟨⟨_, ledger'⟩, []⟩ : Attended Nat (Watched (World A B)))) hu
      have hcounts' := hundone'.named index
        (m := (⟨⟨_, ledger'⟩, []⟩ : Attended Nat (Watched (World A B))))
      rw [← hrun] at hplayed hcounts'
      obtain ⟨before', hstep⟩ := hbranches j _ hcounts' hplayed
      refine ⟨_, hstep, Action.outcome_settle _, ?_⟩
      rw [Action.world_settle, hframes]
      rfl

/-! ## The slots of a transcript -/

namespace Bubble.ChoiceBubble

/-- What the bubble of a choice selects in a frame. -/
def selecting (b : ChoiceBubble) (frame : Frame) : List Selections.Change :=
  match b.stage with
  | .idle =>
    if !b.labels.isEmpty && frame.input.submit then [.selected b.slot b.highlighted] else []
  | _ => []

theorem selections_advance (b : ChoiceBubble) (frame : Frame) (w : Transcript × Selections) :
    (b.advance frame w).world.2 = w.2.changed (b.selecting frame) := by
  unfold advance selecting
  by_cases hlabels : b.labels.isEmpty = true
  · cases b.stage <;> simp [hlabels, Selections.changed]
  · simp only [hlabels, Bool.false_eq_true, if_false, Bool.not_false, Bool.true_and]
    cases b.stage with
    | opening timer =>
      dsimp only
      split <;> rfl
    | revealing r =>
      dsimp only
      split <;> rfl
    | idle =>
      dsimp only
      cases frame.input.submit
      · cases frame.input.next
        · cases frame.input.previous <;> rfl
        · rfl
      · rfl

end Bubble.ChoiceBubble

/-- The bubbles of a transcript select what the player submits, and nothing else. -/
def Presenter.transcriptScribe (delays : Bubble.Delays) :
    (Presenter.transcript delays).Scribe where
  shown _ _ _ _ := []
  stepped bubble frame _ :=
    match bubble with
    | .line _ => []
    | .choice b => b.selecting frame
  selections_showChoices _ _ _ _ := rfl
  selections_step bubble frame w := by
    cases bubble with
    | line b => rfl
    | choice b => exact b.selections_advance frame w

namespace Rehearsal

open Bubble (Transcript)

/-- Someone selects an index that has no branch. -/
def meddling {A B : Type} : Meanwhile A B where
  change w := { w with selections := w.selections.select ⟨0⟩ 7 }
  changes _ := [.selected ⟨0⟩ 7]
  selections_change _ := rfl

/-- The second label is submitted, although someone selects an index that has no branch all the
time: the second branch begins with that frame. -/
theorem askScript_plays_selected_branch :
    let host := puppets.withTranscript ⟨.zero, .zero⟩
    let branches := [("No", [Statement.dialogue ⟨⟨"Ann", ⟨0⟩⟩, "Oh", .ofIndex 2⟩]),
      ("Yes", [.animation [⟨⟨"Ann", ⟨0⟩⟩, "nod"⟩]])]
    let w : World Cast Transcript := ⟨annAlone, .empty, .empty, .empty, #[]⟩
    let frames : List (Meanwhile Cast Transcript × Frame) :=
      (meddling, {}) :: askFrames.tail.map fun frame => (meddling, frame)
    let watched := Action.amid host.watched.attended
      (Action.unattended (unheeded (eventful frames)))
      (watchedChoice host .standard ⟨"Ann", ⟨0⟩⟩ branches) ⟨⟨w, []⟩, []⟩
    askScript = [.choice ⟨"Ann", ⟨0⟩⟩ branches (.ofIndex 0)] ∧
    ∃ s, watched[4]? = some s ∧
      s.2.world.appearances.map (fun a => (a.name, a.frame)) =
        [(1, ⟨.zero, { submit := true }⟩)] := by
  intro host branches w frames watched
  obtain ⟨-, hticks⟩ := choice_plays_selected_branch puppets
    (Presenter.transcriptScribe ⟨.zero, .zero⟩) .standard ⟨"Ann", ⟨0⟩⟩ branches (.ofIndex 0) meddling {}
    (askFrames.tail.map fun frame => (meddling, frame)) w
  let q : Question := ⟨⟨"Ann", ⟨0⟩⟩, ["No", "Yes"], Settings.standard.bubbleHeight⟩
  let bubble := Action.amid host (Action.resumed (eventful frames))
    (.machine (Action.openChoices host q (meddling.change w)).2.1)
    (Action.openChoices host q (meddling.change w)).2.2
  have hoptions : bubble.map (fun t => t.2.outcome.toOption) =
      List.replicate 4 (some .running) ++ [some .done, some .running] := by decide +kernel
  have houtcome (j : Nat) {t} (ht : bubble[j]? = some t) : some t.2.outcome.toOption =
      (List.replicate 4 (some .running) ++ [some .done, some .running])[j]? := by
    rw [← hoptions, List.getElem?_map, ht, Option.map_some]
  obtain ⟨t, ht⟩ : ∃ t, bubble[4]? = some t :=
    ⟨_, List.getElem?_eq_getElem (by rw [Action.length_amid]; decide)⟩
  have hdone : t.2.outcome = .ok .done := by
    have hoption : some t.2.outcome.toOption = some (some .done) := houtcome 4 ht
    generalize t.2.outcome = outcome at hoption ⊢
    cases outcome with
    | error fault => simp [Except.toOption] at hoption
    | ok progress => simpa [Except.toOption] using hoption
  have hundone : Action.Undone bubble 4 := by
    intro j hj s hs h
    have hoption := houtcome j hs
    rw [h, List.getElem?_append_left (by simpa using hj), List.getElem?_replicate,
      if_pos hj] at hoption
    simp [Except.toOption] at hoption
  have hlast : Selections.lastIndex? (Action.openChoices host q (meddling.change w)).1
      ((Presenter.transcriptScribe ⟨.zero, .zero⟩).written puppets q (frames.take 5) w) = some 1 := by
    decide +kernel
  have hplayed := (hticks 4 t hundone ht).2 hdone
  split at hplayed
  · next hnone => exact absurd (hnone.symm.trans hlast) (by simp)
  · next index hindex =>
    obtain rfl : index = 1 := Option.some.inj (hindex.symm.trans hlast)
    obtain ⟨ledger, -, hplayed⟩ := hplayed
    obtain ⟨s, hs, -, hworld⟩ := hplayed 0 _ (fun j hj => absurd hj (Nat.not_lt_zero j))
      (List.getElem?_eq_getElem (by rw [Action.length_amid]; decide))
    refine ⟨rfl, s, hs, ?_⟩
    rw [hworld]
    rfl

end Rehearsal

end Promptbook
