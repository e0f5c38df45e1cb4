import Promptbook.Proofs.Performance.Passage
import Promptbook.Proofs.Script.Tree

set_option autoImplicit false

/-!
# Where a performance stands

The action of a script is a tree of sequences and chosen branches, but what is left of it is always
one piece of business in progress and the statements that come later, those after the branch
included.  Such a `Spot` changes by moves: a line is opened or is over, animations begin or end, a
choice is put or leads into its branch.  A frame makes some moves and then halts, and `Passes` says
which moves these are.  `Stands.passes` is the result: whatever the host, the frames of a sequence are
those of the spot at which it stands.

A move asks the host for one thing at most, so what holds throughout a performance need only be
checked move by move.
-/

namespace Promptbook

open Script (Statement Cue Assignment)

variable {W κ : Type}

/-! ## Parallel animations -/

namespace Action

/-- The action of work in progress or of a cue that was not reached. -/
def ofPart (host : Host W κ) : κ ⊕ Cue → Action W κ
  | .inl work => .machine work
  | .inr cue => .ofCue host cue

end Action

/-- A frame of work in progress, or the first frame of a cue. -/
def Host.stepPart (host : Host W κ) (frame : Frame) : κ ⊕ Cue → W → Step κ W
  | .inl work, w => host.step work frame w
  | .inr cue, w =>
    let (work, w) := host.play cue.performer.actor cue.animation (host.record (.playing cue) w)
    host.step work frame w

/-- A frame of everything that is played at the same time, until something fails. -/
def Host.stepParts (host : Host W κ) (frame : Frame) :
    List (κ ⊕ Cue) → W → Step (List (κ ⊕ Cue)) W
  | [], w => ⟨.ok .done, [], w⟩
  | part :: rest, w =>
    let s := host.stepPart frame part w
    match s.outcome with
    | .ok .done => host.stepParts frame rest s.world
    | .ok .running =>
      let t := host.stepParts frame rest s.world
      ⟨t.outcome.map fun _ => .running, .inl s.next :: t.next, t.world⟩
    | .error fault => ⟨.error fault, .inl s.next :: rest, s.world⟩

theorem Action.advance_ofPart (host : Host W κ) (frame : Frame) (part : κ ⊕ Cue) (w : W) :
    advance host frame (.ofPart host part) w = (host.stepPart frame part w).mapNext .machine := by
  cases part with
  | inl work => rw [ofPart, advance, Host.stepPart]
  | inr cue => rw [ofPart, advance_ofCue rfl, Host.stepPart]

theorem Action.advanceParallel_ofPart (host : Host W κ) (frame : Frame) (parts : List (κ ⊕ Cue))
    (w : W) :
    advanceParallel host frame (parts.map (ofPart host)) w =
      (host.stepParts frame parts w).mapNext (List.map (ofPart host)) := by
  induction parts generalizing w with
  | nil => rfl
  | cons part rest ih =>
    have hpart := advance_ofPart host frame part w
    have houtcome := congrArg Step.outcome hpart
    rw [Step.outcome_mapNext] at houtcome
    rw [List.map_cons, Host.stepParts]
    dsimp only
    split
    · next ho => rw [advanceParallel_of_done (houtcome.trans ho), hpart, Step.world_mapNext, ih]
    · next ho =>
      rw [advanceParallel_of_running (houtcome.trans ho), hpart, Step.world_mapNext, ih]
      rfl
    · next ho =>
      rw [advanceParallel_of_error (houtcome.trans ho), hpart]
      rfl

section Keeping

variable {host : Host W κ} {frame : Frame} {I : W → Prop} {P : κ → Prop}

/-- Cues that are still to come after a frame were to come before it. -/
theorem Host.mem_next_stepParts {parts : List (κ ⊕ Cue)} {w : W} {cue : Cue}
    (h : .inr cue ∈ (host.stepParts frame parts w).next) : .inr cue ∈ parts := by
  induction parts generalizing w with
  | nil => exact h
  | cons part rest ih =>
    rw [Host.stepParts] at h
    dsimp only at h
    split at h
    · exact List.mem_cons_of_mem _ (ih h)
    · exact List.mem_cons_of_mem _ (ih (by simpa using h))
    · exact List.mem_cons_of_mem _ (by simpa using h)

/-- What those cues and the steps of work that is not done keep is kept by a frame of all of them, and
when one of these fails it is with an error of a single step. -/
theorem Host.stepParts_carries {Q : Fault → Prop} {parts : List (κ ⊕ Cue)}
    (hplay : ∀ cue, .inr cue ∈ parts → ∀ w, I w → ∃ work after,
      host.play cue.performer.actor cue.animation (host.record (.playing cue) w) = (work, after) ∧
        P work ∧ I after)
    (hstep : ∀ work w, P work → I w →
      ((host.step work frame w).outcome ≠ .ok .done → P (host.step work frame w).next) ∧
        I (host.step work frame w).world ∧
        ∀ fault, (host.step work frame w).outcome = .error fault → Q fault)
    {w : W} (hparts : ∀ work, .inl work ∈ parts → P work) (hw : I w) :
    (∀ work, .inl work ∈ (host.stepParts frame parts w).next → P work) ∧
      I (host.stepParts frame parts w).world ∧
      ∀ fault, (host.stepParts frame parts w).outcome = .error fault → Q fault := by
  induction parts generalizing w with
  | nil => exact ⟨hparts, hw, fun fault hfault => by simp [stepParts] at hfault⟩
  | cons part rest ih =>
    have hrest : ∀ work, .inl work ∈ rest → P work :=
      fun work hwork => hparts work (List.mem_cons_of_mem _ hwork)
    have hothers (v : W) (hv : I v) := ih (fun cue hcue => hplay cue (List.mem_cons_of_mem _ hcue))
      hrest hv
    have hpart : ((host.stepPart frame part w).outcome ≠ .ok .done →
          P (host.stepPart frame part w).next) ∧
        I (host.stepPart frame part w).world ∧
        ∀ fault, (host.stepPart frame part w).outcome = .error fault → Q fault := by
      cases part with
      | inl work => exact hstep work w (hparts work (by simp)) hw
      | inr cue =>
        obtain ⟨work, after, hplayed, hwork, hafter⟩ := hplay cue (by simp) w hw
        rw [Host.stepPart, hplayed]
        exact hstep work after hwork hafter
    obtain ⟨hnext, hworld, herror⟩ := hpart
    have hcons (hne : (host.stepPart frame part w).outcome ≠ .ok .done) {more : List (κ ⊕ Cue)}
        (hmore : ∀ work, .inl work ∈ more → P work) :
        ∀ work, .inl work ∈ .inl (host.stepPart frame part w).next :: more → P work := by
      intro work hwork
      rcases List.mem_cons.mp hwork with heq | hwork
      · rw [Sum.inl.inj heq]
        exact hnext hne
      · exact hmore work hwork
    rw [Host.stepParts]
    dsimp only
    split
    · exact hothers _ hworld
    · next ho =>
      obtain ⟨hnexts, hlast, hfaults⟩ := hothers _ hworld
      refine ⟨hcons (by simp [ho]) hnexts, hlast, fun fault hfault => hfaults fault ?_⟩
      generalize (host.stepParts frame rest (host.stepPart frame part w).world).outcome = o at hfault ⊢
      cases o with
      | ok p => simp [Except.map] at hfault
      | error other => exact hfault
    · next fault ho =>
      exact ⟨hcons (by simp [ho]) hrest, hworld, fun other heq => Except.error.inj heq ▸ herror fault ho⟩

/-- What those cues and every step of their work keep is kept by a frame of all of them. -/
theorem Host.stepParts_keeps {parts : List (κ ⊕ Cue)}
    (hplay : ∀ cue, .inr cue ∈ parts → ∀ w, I w → ∃ work after,
      host.play cue.performer.actor cue.animation (host.record (.playing cue) w) = (work, after) ∧
        P work ∧ I after)
    (hstep : ∀ work w, P work → I w →
      P (host.step work frame w).next ∧ I (host.step work frame w).world)
    {w : W} (hparts : ∀ work, .inl work ∈ parts → P work) (hw : I w) :
    (∀ work, .inl work ∈ (host.stepParts frame parts w).next → P work) ∧
      I (host.stepParts frame parts w).world := by
  have hcarries := stepParts_carries (Q := fun _ => True) hplay
    (fun work w hwork hw => ⟨fun _ => (hstep work w hwork hw).1, (hstep work w hwork hw).2, by simp⟩)
    hparts hw
  exact ⟨hcarries.1, hcarries.2.1⟩

end Keeping

/-! ## Spots -/

/-- What is in progress at a spot. -/
inductive Business (κ : Type) where
  | speaking (d : Delivery) (talking : Bool) (bubble : κ)
  /-- Animations in progress and cues that were not reached. -/
  | playing (parts : List (κ ⊕ Cue))
  /-- A value was stored, which takes until the next frame. -/
  | stored
  /-- A choice with its branches, which are taken away when an index without a branch is selected. -/
  | choosing (q : Question) (slot : Slot) (bubble : κ) (branches : List (String × List Statement))

/-- What is in progress, if anything is, and the statements that come later. -/
structure Spot (κ : Type) where
  now : Option (Business κ)
  later : List Statement

/-- The spot with more statements after all others. -/
def Spot.append (spot : Spot κ) (more : List Statement) : Spot κ := ⟨spot.now, spot.later ++ more⟩

@[simp] theorem Spot.append_nil (spot : Spot κ) : spot.append [] = spot := by
  simp [append]

@[simp] theorem Spot.append_mk (now : Option (Business κ)) (later more : List Statement) :
    Spot.append ⟨now, later⟩ more = ⟨now, later ++ more⟩ := rfl

section Actions

variable (host : Host W κ) (settings : Settings)

/-- The world in which a value was stored. -/
def Host.storing (assignment : Assignment) (w : W) : W :=
  let w := host.record (.storing assignment) w
  match assignment.target with
  | .contextVariable _ id => host.setVariable id assignment.value w
  | .parameter owner name => host.setParameter owner.actor name assignment.value w

/-- The world in which the talking parameter was taken back, if it was set. -/
def Host.hushing (d : Delivery) (talking : Bool) (w : W) : W :=
  if talking then
    host.setParameter d.speaker.actor d.talkingParameter false
      (host.record (.talking d.speaker d.talkingParameter false) w)
  else w

/-- The action of what is in progress. -/
def Business.action : Business κ → Action W κ
  | speaking d talking bubble => .speaking d talking bubble
  | playing parts => .parallel (parts.map (.ofPart host))
  | stored => .finished
  | choosing q slot bubble branches =>
    .choosing q slot bubble (Action.ofBranches host settings branches)

/-- The children of a sequence stand for a spot: statements that were not reached, something in
progress before them, or a chosen branch before them that stands for a spot itself. -/
inductive Stands : List (Action W κ) → Spot κ → Prop where
  | script (later : List Statement) : Stands (Action.ofStatements host settings later) ⟨none, later⟩
  | busy (business : Business κ) (later : List Statement) :
      Stands (business.action host settings :: Action.ofStatements host settings later)
        ⟨some business, later⟩
  | inside {children : List (Action W κ)} {spot : Spot κ} (h : Stands children spot)
      (later : List Statement) :
      Stands (.following (.sequence children) :: Action.ofStatements host settings later)
        (spot.append later)

end Actions

/-! ## Moves -/

section Moves

variable (host : Host W κ) (settings : Settings) (frame : Frame)

/-- A spot gives way to the next one within the same frame. -/
inductive Move : Spot κ → W → Spot κ → W → Prop where
  | speak {speech : Script.Speech} {later : List Statement} {w after : W} {talking : Bool}
      {bubble : κ}
      (h : Action.openLine host (speech.delivery settings) w = (talking, bubble, after)) :
      Move ⟨none, .dialogue speech :: later⟩ w
        ⟨some (.speaking (speech.delivery settings) talking bubble), later⟩ after
  | said {d : Delivery} {talking : Bool} {bubble next : κ} {later : List Statement} {w after : W}
      (h : host.step bubble frame w = ⟨.ok .done, next, after⟩) :
      Move ⟨some (.speaking d talking bubble), later⟩ w ⟨none, later⟩
        (host.hushing d talking after)
  | play {cues : List Cue} {later : List Statement} {w : W} :
      Move ⟨none, .animation cues :: later⟩ w ⟨some (.playing (cues.map .inr)), later⟩ w
  | played {parts : List (κ ⊕ Cue)} {later : List Statement} {w : W}
      (h : (host.stepParts frame parts w).outcome = .ok .done) :
      Move ⟨some (.playing parts), later⟩ w ⟨none, later⟩ (host.stepParts frame parts w).world
  | stored {later : List Statement} {w : W} : Move ⟨some .stored, later⟩ w ⟨none, later⟩ w
  | ask {asker : ActorRef} {branches : List (String × List Statement)} {origin : Script.Origin}
      {later : List Statement} {slot : Slot} {bubble : κ} {w after : W}
      (h : Action.openChoices host (questionOf settings asker branches) w =
        (slot, bubble, after)) :
      Move ⟨none, .choice asker branches origin :: later⟩ w
        ⟨some (.choosing (questionOf settings asker branches) slot bubble branches), later⟩ after
  | chose {q : Question} {slot : Slot} {bubble next : κ}
      {branches : List (String × List Statement)} {branch : String × List Statement}
      {later : List Statement} {index : Nat} {w after : W}
      (h : host.step bubble frame w = ⟨.ok .done, next, after⟩)
      (hselected : host.selected after slot = some index)
      (hbranch : branches[index]? = some branch) :
      Move ⟨some (.choosing q slot bubble branches), later⟩ w ⟨none, branch.2 ++ later⟩
        (host.record (.chose q.asker (q.labels.getD index "")) after)

/-- A frame ends at a spot with that outcome and leaves what will be there in the next one. -/
inductive Halt : Spot κ → W → Outcome → Spot κ → W → Prop where
  | finished {w : W} : Halt ⟨none, []⟩ w (.ok .done) ⟨none, []⟩ w
  | store {assignment : Assignment} {later : List Statement} {w : W} :
      Halt ⟨none, .store assignment :: later⟩ w (.ok .running) ⟨some .stored, later⟩
        (host.storing assignment w)
  | speaking {d : Delivery} {talking : Bool} {bubble next : κ} {later : List Statement}
      {outcome : Outcome} {w after : W}
      (h : host.step bubble frame w = ⟨outcome, next, after⟩) (hne : outcome ≠ .ok .done) :
      Halt ⟨some (.speaking d talking bubble), later⟩ w outcome
        ⟨some (.speaking d talking next), later⟩ after
  | playing {parts : List (κ ⊕ Cue)} {later : List Statement} {w : W}
      (hne : (host.stepParts frame parts w).outcome ≠ .ok .done) :
      Halt ⟨some (.playing parts), later⟩ w (host.stepParts frame parts w).outcome
        ⟨some (.playing (host.stepParts frame parts w).next), later⟩
        (host.stepParts frame parts w).world
  | choosing {q : Question} {slot : Slot} {bubble next : κ}
      {branches : List (String × List Statement)} {later : List Statement} {outcome : Outcome}
      {w after : W} (h : host.step bubble frame w = ⟨outcome, next, after⟩)
      (hne : outcome ≠ .ok .done) :
      Halt ⟨some (.choosing q slot bubble branches), later⟩ w outcome
        ⟨some (.choosing q slot next branches), later⟩ after
  | unselected {q : Question} {slot : Slot} {bubble next : κ}
      {branches : List (String × List Statement)} {later : List Statement} {w after : W}
      (h : host.step bubble frame w = ⟨.ok .done, next, after⟩)
      (hselected : host.selected after slot = none) :
      Halt ⟨some (.choosing q slot bubble branches), later⟩ w (.error (.failed .noSelection))
        ⟨some (.choosing q slot next branches), later⟩ after
  | invalid {q : Question} {slot : Slot} {bubble next : κ}
      {branches : List (String × List Statement)} {later : List Statement} {index : Nat}
      {w after : W} (h : host.step bubble frame w = ⟨.ok .done, next, after⟩)
      (hselected : host.selected after slot = some index) (hbranch : branches[index]? = none) :
      Halt ⟨some (.choosing q slot bubble branches), later⟩ w
        (.error (.failed (.invalidSelection index branches.length)))
        ⟨some (.choosing q slot next []), later⟩
        (host.record (.chose q.asker (q.labels.getD index "")) after)

/-- A frame: some moves, then a halt. -/
inductive Passes : Spot κ → W → Outcome → Spot κ → W → Prop where
  | halt {spot spot' : Spot κ} {w w' : W} {outcome : Outcome}
      (h : Halt host frame spot w outcome spot' w') : Passes spot w outcome spot' w'
  | move {spot mid spot' : Spot κ} {w v w' : W} {outcome : Outcome}
      (h : Move host settings frame spot w mid v) (rest : Passes mid v outcome spot' w') :
      Passes spot w outcome spot' w'

end Moves

section Passing

variable {host : Host W κ} {settings : Settings} {frame : Frame} {spot spot' : Spot κ} {w w' : W}
  {outcome : Outcome}

/-! ## Statements that come later -/

theorem Move.append (h : Move host settings frame spot w spot' w') (more : List Statement) :
    Move host settings frame (spot.append more) w (spot'.append more) w' := by
  cases h with
  | speak h => exact .speak h
  | said h => exact .said h
  | play => exact .play
  | played h => exact .played h
  | stored => exact .stored
  | ask h => exact .ask h
  | chose h hselected hbranch =>
    rw [Spot.append_mk, Spot.append_mk, List.append_assoc]
    exact .chose h hselected hbranch

/-- Only a performance that is over halts as done. -/
theorem Halt.append (h : Halt host frame spot w outcome spot' w')
    (hne : outcome ≠ .ok .done) (more : List Statement) :
    Halt host frame (spot.append more) w outcome (spot'.append more) w' := by
  cases h with
  | finished => exact absurd rfl hne
  | store => exact .store
  | speaking h hne => exact .speaking h hne
  | playing hne => exact .playing hne
  | choosing h hne => exact .choosing h hne
  | unselected h hselected => exact .unselected h hselected
  | invalid h hselected hbranch => exact .invalid h hselected hbranch

/-- A frame is only done where nothing is left. -/
theorem Halt.of_done (h : Halt host frame spot w outcome spot' w') (hdone : outcome = .ok .done) :
    spot = ⟨none, []⟩ ∧ spot' = ⟨none, []⟩ ∧ w' = w := by
  cases h with
  | finished => exact ⟨rfl, rfl, rfl⟩
  | store => simp at hdone
  | speaking _ hne => exact absurd hdone hne
  | playing hne => exact absurd hdone hne
  | choosing _ hne => exact absurd hdone hne
  | unselected => simp at hdone
  | invalid => simp at hdone

theorem Passes.append (h : Passes host settings frame spot w outcome spot' w')
    (hne : outcome ≠ .ok .done) (more : List Statement) :
    Passes host settings frame (spot.append more) w outcome (spot'.append more) w' := by
  induction h with
  | halt h => exact .halt (h.append hne more)
  | move h _ ih => exact .move (h.append more) (ih hne)

/-- What is done gives way to what comes later, in the same frame. -/
theorem Passes.andThen {later : List Statement} {last : Spot κ} {v : W}
    (h : Passes host settings frame spot w (.ok .done) spot' v)
    (hlater : Passes host settings frame ⟨none, later⟩ v outcome last w') :
    Passes host settings frame (spot.append later) w outcome last w' := by
  generalize ho : (Except.ok Progress.done : Outcome) = o at h
  induction h with
  | halt h =>
    obtain ⟨rfl, -, rfl⟩ := h.of_done ho.symm
    exact hlater
  | move h _ ih => exact .move (h.append later) (ih hlater ho)

theorem Stands.append {children : List (Action W κ)} (h : Stands host settings children spot)
    (more : List Statement) :
    Stands host settings (children ++ Action.ofStatements host settings more)
      (spot.append more) := by
  have hstatements (later : List Statement) :
      Action.ofStatements host settings later ++ Action.ofStatements host settings more =
        Action.ofStatements host settings (later ++ more) := by
    simp only [Action.ofStatements_eq_map, List.map_append]
  cases h with
  | script later =>
    rw [hstatements]
    exact .script (later ++ more)
  | busy business later =>
    rw [List.cons_append, hstatements]
    exact .busy business (later ++ more)
  | @inside children spot h later =>
    rw [List.cons_append, hstatements]
    have hspot : (spot.append later).append more = spot.append (later ++ more) := by
      simp [Spot.append]
    rw [hspot]
    exact .inside h (later ++ more)

/-! ## Frames of actions -/

variable (host settings frame) in
/-- A frame of an action passes through that spot; `next` is where it stands if it is not done. -/
def Carries (a : Action W κ) (spot : Spot κ) : Prop :=
  ∀ w, ∃ spot', Passes host settings frame spot w (Action.advance host frame a w).outcome spot'
      (Action.advance host frame a w).world ∧
    ((Action.advance host frame a w).outcome ≠ .ok .done →
      Stands host settings [(Action.advance host frame a w).next] spot')

variable (host settings frame) in
/-- A frame of a sequence passes through that spot, to where it stands then. -/
def CarriesAll (children : List (Action W κ)) (spot : Spot κ) : Prop :=
  ∀ w, ∃ spot',
    Passes host settings frame spot w (Action.advanceSequence host frame children w).outcome spot'
      (Action.advanceSequence host frame children w).world ∧
    Stands host settings (Action.advanceSequence host frame children w).next spot'

theorem CarriesAll.nil : CarriesAll host settings frame [] ⟨none, []⟩ :=
  fun _ => ⟨⟨none, []⟩, .halt .finished, .script []⟩

/-- In a sequence the statements after an action are reached when it is done. -/
theorem Carries.cons {a : Action W κ} {later : List Statement}
    (h : Carries host settings frame a spot)
    (hlater : CarriesAll host settings frame (Action.ofStatements host settings later)
      ⟨none, later⟩) :
    CarriesAll host settings frame (a :: Action.ofStatements host settings later)
      (spot.append later) := by
  intro w
  obtain ⟨mid, hpasses, hstands⟩ := h w
  by_cases hdone : (Action.advance host frame a w).outcome = .ok .done
  · obtain ⟨last, hrest, hlast⟩ := hlater (Action.advance host frame a w).world
    rw [Action.advanceSequence_of_done hdone]
    rw [hdone] at hpasses
    exact ⟨last, hpasses.andThen hrest, hlast⟩
  · rw [Action.advanceSequence_of_ne hdone]
    exact ⟨mid.append later, hpasses.append hdone later, (hstands hdone).append later⟩

/-- A branch that was chosen is a sequence that is left when it is done. -/
theorem CarriesAll.settle {children : List (Action W κ)}
    (h : CarriesAll host settings frame children spot) (w : W) :
    ∃ spot', Passes host settings frame spot w
        (Action.settle (Action.advance host frame (.sequence children) w)).outcome spot'
        (Action.settle (Action.advance host frame (.sequence children) w)).world ∧
      ((Action.settle (Action.advance host frame (.sequence children) w)).outcome ≠ .ok .done →
        Stands host settings
          [(Action.settle (Action.advance host frame (.sequence children) w)).next] spot') := by
  obtain ⟨spot', hpasses, hstands⟩ := h w
  rw [Action.advance]
  by_cases hdone : (Action.advanceSequence host frame children w).outcome = .ok .done
  · rw [hdone] at hpasses
    rw [Action.settle_of_done (by exact hdone)]
    exact ⟨spot', hpasses, fun hne => absurd rfl hne⟩
  · rw [Action.settle_of_ne (by exact hdone)]
    have hinside := hstands.inside []
    rw [Spot.append_nil] at hinside
    exact ⟨spot', hpasses, fun _ => hinside⟩

theorem Carries.following {children : List (Action W κ)}
    (h : CarriesAll host settings frame children spot) :
    Carries host settings frame (.following (.sequence children)) spot := by
  intro w
  have hbranch := h.settle w
  rwa [Action.advance]

/-! ## What is in progress -/

variable (host settings frame) in
theorem carries_speaking (d : Delivery) (talking : Bool) (bubble : κ) :
    Carries host settings frame (.speaking d talking bubble)
      ⟨some (.speaking d talking bubble), []⟩ := by
  intro w
  rw [Action.advance]
  cases hstep : host.step bubble frame w with
  | mk outcome next after =>
    by_cases hdone : outcome = .ok .done
    · subst hdone
      rw [Action.stepLine_of_done hstep]
      exact ⟨⟨none, []⟩, .move (.said hstep) (.halt .finished), fun hne => absurd rfl hne⟩
    · rw [Action.stepLine_of_ne hstep hdone]
      exact ⟨_, .halt (.speaking hstep hdone), fun _ => .busy (.speaking d talking next) []⟩

variable (host settings frame) in
theorem carries_playing (parts : List (κ ⊕ Cue)) :
    Carries host settings frame (.parallel (parts.map (.ofPart host)))
      ⟨some (.playing parts), []⟩ := by
  intro w
  rw [Action.advance, Action.advanceParallel_ofPart]
  by_cases hdone : (host.stepParts frame parts w).outcome = .ok .done
  · refine ⟨⟨none, []⟩, ?_, fun hne => absurd hdone hne⟩
    rw [Step.outcome_mapNext, Step.outcome_mapNext, hdone]
    exact .move (.played hdone) (.halt .finished)
  · exact ⟨_, .halt (.playing hdone), fun _ => .busy (.playing _) []⟩

theorem carries_stored : Carries host settings frame .finished ⟨some .stored, []⟩ := by
  intro w
  rw [Action.advance]
  exact ⟨⟨none, []⟩, .move .stored (.halt .finished), fun hne => absurd rfl hne⟩

/-- An open choice passes into the branch that is selected. -/
theorem carries_choosing (q : Question) (slot : Slot) (bubble : κ)
    {branches : List (String × List Statement)}
    (hbranches : ∀ b ∈ branches,
      CarriesAll host settings frame (Action.ofStatements host settings b.2) ⟨none, b.2⟩) :
    Carries host settings frame
      (.choosing q slot bubble (Action.ofBranches host settings branches))
      ⟨some (.choosing q slot bubble branches), []⟩ := by
  intro w
  rw [Action.advance]
  cases hstep : host.step bubble frame w with
  | mk outcome next after =>
    by_cases hdone : outcome = .ok .done
    · subst hdone
      cases hselected : host.selected after slot with
      | none =>
        rw [Action.stepChoice_of_none hstep hselected]
        exact ⟨_, .halt (.unselected hstep hselected),
          fun _ => .busy (.choosing q slot next branches) []⟩
      | some index =>
        let chosen := host.record (.chose q.asker (q.labels.getD index "")) after
        cases hbranch : branches[index]? with
        | none =>
          have hfollow : Action.advanceNth host frame (Action.ofBranches host settings branches) index
              chosen = none := by
            simp [Action.advanceNth_eq, Action.ofBranches_eq_map, hbranch]
          have hlength : (Action.ofBranches host settings branches).length = branches.length := by
            simp [Action.ofBranches_eq_map]
          rw [Action.stepChoice_of_invalid hstep hselected hfollow, hlength]
          exact ⟨_, .halt (.invalid hstep hselected hbranch),
            fun _ => .busy (.choosing q slot next []) []⟩
        | some branch =>
          have hfollow : Action.advanceNth host frame (Action.ofBranches host settings branches) index
              chosen =
                some (Action.advance host frame (.ofScript host settings branch.2) chosen) := by
            simp [Action.advanceNth_eq, Action.ofBranches_eq_map, hbranch]
          rw [Action.stepChoice_of_branch hstep hselected hfollow]
          obtain ⟨spot', hpasses, hstands⟩ :=
            (hbranches branch (List.mem_of_getElem? hbranch)).settle chosen
          have hchose : Move host settings frame ⟨some (.choosing q slot bubble branches), []⟩ w
              ⟨none, branch.2 ++ []⟩ chosen := .chose hstep hselected hbranch
          rw [List.append_nil] at hchose
          exact ⟨spot', .move hchose hpasses, hstands⟩
    · rw [Action.stepChoice_of_ne hstep hdone]
      exact ⟨_, .halt (.choosing hstep hdone), fun _ => .busy (.choosing q slot next branches) []⟩

/-! ## Statements -/

theorem carries_dialogue (speech : Script.Speech) :
    Carries host settings frame (.ofStatement host settings (.dialogue speech))
      ⟨none, [.dialogue speech]⟩ := by
  intro w
  rcases hopen : Action.openLine host (speech.delivery settings) w with ⟨talking, bubble, after⟩
  obtain ⟨spot', hpasses, hstands⟩ :=
    carries_speaking host settings frame (speech.delivery settings) talking bubble after
  rw [Action.advance] at hpasses hstands
  have haction : Action.ofStatement host settings (.dialogue speech) =
      .speak (speech.delivery settings) := by
    rw [Action.ofStatement, Action.ofSpeech, Script.Speech.delivery]
  rw [haction, Action.advance_speak hopen]
  exact ⟨spot', .move (.speak hopen) hpasses, hstands⟩

theorem carries_animation (cues : List Cue) :
    Carries host settings frame (.ofStatement host settings (.animation cues))
      ⟨none, [.animation cues]⟩ := by
  intro w
  obtain ⟨spot', hpasses, hstands⟩ :=
    carries_playing host settings frame (cues.map .inr) w
  have hparts : (cues.map Sum.inr).map (Action.ofPart host) = cues.map (Action.ofCue host) := by
    rw [List.map_map]
    rfl
  rw [hparts] at hpasses hstands
  exact ⟨spot', .move .play hpasses, hstands⟩

theorem carries_store (assignment : Assignment) :
    Carries host settings frame (.ofStatement host settings (.store assignment))
      ⟨none, [.store assignment]⟩ := by
  intro w
  rw [Action.ofStatement, Action.ofAssignment, Action.advance]
  exact ⟨⟨some .stored, []⟩, .halt .store, fun _ => .busy .stored []⟩

theorem carries_choice {asker : ActorRef} {branches : List (String × List Statement)}
    {origin : Script.Origin}
    (hbranches : ∀ b ∈ branches,
      CarriesAll host settings frame (Action.ofStatements host settings b.2) ⟨none, b.2⟩) :
    Carries host settings frame (.ofStatement host settings (.choice asker branches origin))
      ⟨none, [.choice asker branches origin]⟩ := by
  intro w
  rcases hopen : Action.openChoices host (questionOf settings asker branches) w with
    ⟨slot, bubble, after⟩
  obtain ⟨spot', hpasses, hstands⟩ :=
    carries_choosing (questionOf settings asker branches) slot bubble hbranches after
  rw [Action.advance] at hpasses hstands
  have haction : Action.ofStatement host settings (.choice asker branches origin) =
      .prompt (questionOf settings asker branches) (Action.ofBranches host settings branches) := by
    rw [Action.ofStatement, questionOf]
  rw [haction, Action.advance_prompt hopen]
  exact ⟨spot', .move (.ask hopen) hpasses, hstands⟩

theorem carriesAll_of_carries {script : List Statement}
    (h : ∀ s ∈ script, Carries host settings frame (.ofStatement host settings s) ⟨none, [s]⟩) :
    CarriesAll host settings frame (Action.ofStatements host settings script)
      ⟨none, script⟩ := by
  induction script with
  | nil => exact .nil
  | cons s rest ih =>
    obtain ⟨hs, hrest⟩ := List.forall_mem_cons.mp h
    exact hs.cons (ih hrest)

theorem carries_ofStatement (s : Statement) :
    Carries host settings frame (.ofStatement host settings s) ⟨none, [s]⟩ := by
  induction s using Script.Statement.induction with
  | dialogue speech => exact carries_dialogue speech
  | animation cues => exact carries_animation cues
  | store assignment => exact carries_store assignment
  | choice asker branches origin ih =>
    exact carries_choice fun b hb => carriesAll_of_carries (ih b hb)

theorem carriesAll_ofStatements (script : List Statement) :
    CarriesAll host settings frame (Action.ofStatements host settings script) ⟨none, script⟩ :=
  carriesAll_of_carries fun s _ => carries_ofStatement s

theorem Business.carries (business : Business κ) :
    Carries host settings frame (business.action host settings) ⟨some business, []⟩ := by
  cases business with
  | speaking d talking bubble => exact carries_speaking host settings frame d talking bubble
  | playing parts => exact carries_playing host settings frame parts
  | stored => exact carries_stored
  | choosing q slot bubble branches =>
    exact carries_choosing q slot bubble fun b _ => carriesAll_ofStatements b.2

/-- A frame of a sequence passes from the spot at which it stands to the one at which it stands
then. -/
theorem Stands.passes {children : List (Action W κ)} (h : Stands host settings children spot)
    (frame : Frame) : CarriesAll host settings frame children spot := by
  induction h with
  | script later => exact carriesAll_ofStatements later
  | busy business later => exact business.carries.cons (carriesAll_ofStatements later)
  | inside _ later ih => exact (Carries.following ih).cons (carriesAll_ofStatements later)

/-! ## Frame after frame -/

/-- What every move keeps still holds where the frame halts. -/
theorem Passes.exists_halt {J : Spot κ → W → Prop}
    (hmove : ∀ {spot w spot' w'}, Move host settings frame spot w spot' w' → J spot w →
      J spot' w')
    (h : Passes host settings frame spot w outcome spot' w') (hJ : J spot w) :
    ∃ mid v, J mid v ∧ Halt host frame mid v outcome spot' w' := by
  induction h with
  | halt h => exact ⟨_, _, hJ, h⟩
  | move h _ ih => exact ih (hmove h hJ)

/-- What every move and every halt keep holds throughout a performance: every frame halts at a spot
at which it still held. -/
theorem Stands.forall_advances {J : Spot κ → W → Prop} {children : List (Action W κ)}
    (hmove : ∀ {frame spot w spot' w'}, Move host settings frame spot w spot' w' → J spot w →
      J spot' w')
    (hhalt : ∀ {frame spot w outcome spot' w'}, Halt host frame spot w outcome spot' w' →
      J spot w → J spot' w')
    (h : Stands host settings children spot) (hJ : J spot w) (frames : List Frame) :
    ∀ s ∈ Action.advances host frames (.sequence children) w,
      ∃ frame ∈ frames, ∃ mid v children' last,
        J mid v ∧ Halt host frame mid v s.outcome last s.world ∧
          s.next = .sequence children' ∧ Stands host settings children' last := by
  induction frames generalizing spot children w with
  | nil => simp [Action.advances]
  | cons frame frames ih =>
    obtain ⟨last, hpasses, hstands⟩ := h.passes frame w
    obtain ⟨mid, v, hmid, hhalts⟩ := hpasses.exists_halt hmove hJ
    rw [Action.advances, Action.advance]
    refine List.forall_mem_cons.mpr
      ⟨⟨frame, by simp, mid, v, _, last, hmid, hhalts, rfl, hstands⟩, fun s hs => ?_⟩
    obtain ⟨later, hlater, hrest⟩ := ih hstands (hhalt hhalts hmid) s hs
    exact ⟨later, List.mem_cons_of_mem _ hlater, hrest⟩

end Passing

end Promptbook
