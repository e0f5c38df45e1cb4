import Promptbook.Proofs.Performance.Readiness
import Promptbook.Proofs.Performance.Shadow
import Promptbook.Proofs.Performance.Soundness

set_option autoImplicit false

/-!
# Nothing is dismissed unseen

A script that is played with a transcript opens one bubble after the other, and the player can only
dismiss what could be read completely at the end of the frame before.

The ledger of a watched performance tells which bubbles are open and when one was dismissed.  Between
two frames the display belongs to the bubble that is open (`Shown`).  Within a frame a bubble can only
be dismissed before anything else happens, because every bubble that is opened later in the frame is
still opening (`Since`).
-/

namespace Promptbook

open Bubble (Delays Transcript OpenBubble LineBubble ChoiceBubble)
open Script (Statement Cue Assignment)

/-! ## Open bubbles -/

/-- The open bubbles after one more moment: a new one comes last, and the first one is done first. -/
def Moment.bubblesAfter {W : Type} (bubbles : List Call) : Moment W → List Call
  | .called (.showLine text) _ => bubbles ++ [.showLine text]
  | .called (.showChoices labels slot) _ => bubbles ++ [.showChoices labels slot]
  | .called _ _ => bubbles
  | .bubbleDone _ => bubbles.tail

/-- A moment in which a bubble is opened or done. -/
def Moment.OfBubble {W : Type} : Moment W → Prop
  | .called (.showLine _) _ | .called (.showChoices _ _) _ | .bubbleDone _ => True
  | .called _ _ => False

namespace Ledger

variable {W : Type}

/-- The bubbles that are open at the end of a ledger, by the calls that opened them. -/
def openBubbles (ledger : Ledger W) : List Call := ledger.foldl Moment.bubblesAfter []

/-- The worlds in which bubbles were done. -/
def dismissals (ledger : Ledger W) : List W :=
  ledger.filterMap fun
    | .bubbleDone w => some w
    | .called _ _ => none

/-- No two bubbles were ever open at the same time. -/
def OneAtATime (ledger : Ledger W) : Prop :=
  ∀ before : Ledger W, before <+: ledger → before.openBubbles.length ≤ 1

/-- Nothing happened to bubbles. -/
def Quiet (added : Ledger W) : Prop := ∀ moment ∈ added, ¬ moment.OfBubble

theorem openBubbles_concat (ledger : Ledger W) (moment : Moment W) :
    openBubbles (ledger ++ [moment]) = moment.bubblesAfter ledger.openBubbles := by
  simp [openBubbles]

theorem dismissals_append (ledger more : Ledger W) :
    dismissals (ledger ++ more) = ledger.dismissals ++ more.dismissals :=
  List.filterMap_append

theorem OneAtATime.concat {ledger : Ledger W} {moment : Moment W} (h : ledger.OneAtATime)
    (hone : (openBubbles (ledger ++ [moment])).length ≤ 1) :
    OneAtATime (ledger ++ [moment]) := by
  intro before hbefore
  rcases List.prefix_concat_iff.mp hbefore with rfl | hbefore
  · exact hone
  · exact h before hbefore

/-- Where no bubble is open, whatever happens to bubbles leaves at most one. -/
theorem OneAtATime.concat_of_none {ledger : Ledger W} (h : ledger.OneAtATime)
    (hnone : ledger.openBubbles = []) (moment : Moment W) : OneAtATime (ledger ++ [moment]) := by
  refine h.concat ?_
  rw [openBubbles_concat, hnone]
  cases moment with
  | called call w => cases call <;> simp [Moment.bubblesAfter]
  | bubbleDone w => simp [Moment.bubblesAfter]

theorem Quiet.openBubbles_eq {added : Ledger W} (h : added.Quiet) (ledger : Ledger W) :
    openBubbles (ledger ++ added) = ledger.openBubbles := by
  induction added generalizing ledger with
  | nil => rw [List.append_nil]
  | cons moment rest ih =>
    obtain ⟨hmoment, hrest⟩ := List.forall_mem_cons.mp h
    rw [List.append_cons, ih hrest, openBubbles_concat]
    cases moment with
    | called call w => cases call <;> first | rfl | exact absurd trivial hmoment
    | bubbleDone w => exact absurd trivial hmoment

theorem Quiet.dismissals_eq {added : Ledger W} (h : added.Quiet) : added.dismissals = [] := by
  refine List.filterMap_eq_nil_iff.mpr fun moment hmem => ?_
  cases moment with
  | called call w => rfl
  | bubbleDone w => exact absurd trivial (h _ hmem)

theorem OneAtATime.quiet {ledger added : Ledger W} (h : ledger.OneAtATime) (hq : added.Quiet) :
    OneAtATime (ledger ++ added) := by
  induction added generalizing ledger with
  | nil => rwa [List.append_nil]
  | cons moment rest ih =>
    obtain ⟨hmoment, hrest⟩ := List.forall_mem_cons.mp hq
    have hsame : Quiet [moment] := by simpa [Quiet] using hmoment
    rw [List.append_cons]
    refine ih (h.concat ?_) hrest
    rw [hsame.openBubbles_eq]
    exact h ledger (List.prefix_refl _)

end Ledger

/-! ## What is written into a ledger -/

/-- The ledger goes on without anything that happens to bubbles. -/
def Watched.Quietly {W : Type} (m m' : Watched W) : Prop :=
  ∃ added, m'.ledger = m.ledger ++ added ∧ added.Quiet

namespace Watched.Quietly

variable {W α β : Type} {host : Host W (α ⊕ β)} {m v u : Watched W}

theorem refl (m : Watched W) : m.Quietly m := ⟨[], by simp, by simp [Ledger.Quiet]⟩

theorem trans (h : m.Quietly v) (h' : v.Quietly u) : m.Quietly u := by
  obtain ⟨first, hv, hfirst⟩ := h
  obtain ⟨second, hu, hsecond⟩ := h'
  refine ⟨first ++ second, by rw [hu, hv, List.append_assoc], ?_⟩
  exact List.forall_mem_append.mpr ⟨hfirst, hsecond⟩

theorem called {call : Call} (h : ¬ (Moment.called call m.world).OfBubble) (w : W) :
    m.Quietly (m.called call w) :=
  ⟨[.called call m.world], rfl, by simpa [Ledger.Quiet] using h⟩

variable (host) in
theorem storing (assignment : Assignment) (m : Watched W) :
    m.Quietly (host.watched.storing assignment m) := by
  unfold Host.storing
  dsimp only
  split
  · exact called (m := host.watched.record (.storing assignment) m) id _
  · exact called (m := host.watched.record (.storing assignment) m) id _

variable (host) in
theorem hushing (d : Delivery) (talking : Bool) (m : Watched W) :
    m.Quietly (host.watched.hushing d talking m) := by
  unfold Host.hushing
  split
  · exact called (m := host.watched.record (.talking d.speaker d.talkingParameter false) m) id _
  · exact refl m

/-- Animations are not bubbles, and those of a company stay animations. -/
theorem stepParts {A : Type} (company : Company A α) (delays : Delays)
    {parts : List ((α ⊕ OpenBubble) ⊕ Cue)} (h : OnlyActors parts) (frame : Frame)
    (m : Watched (World A Transcript)) :
    m.Quietly ((company.withTranscript delays).watched.stepParts frame parts m).world := by
  refine (Host.stepParts_keeps (I := m.Quietly)
    (P := fun work : α ⊕ OpenBubble => work.isLeft = true) ?_ ?_ h (refl m)).2
  · intro cue _ v hv
    let noted := (company.withTranscript delays).watched.record (.playing cue) v
    have hplayed (after : World A Transcript) :
        noted.Quietly (noted.called (.play cue.performer.actor cue.animation) after) :=
      called id after
    exact ⟨_, _, rfl, rfl, hv.trans (hplayed _)⟩
  · intro work v hwork hv
    cases work with
    | inl animation => exact ⟨rfl, hv.trans ⟨[], rfl, by simp [Ledger.Quiet]⟩⟩
    | inr bubble => simp at hwork

end Watched.Quietly

section Opening

variable {W α β : Type} {host : Host W (α ⊕ β)} {m m' : Watched W}

/-- Opening a line ends with the call that shows it. -/
theorem exists_quietly_of_openLine {d : Delivery} {talking : Bool} {bubble : α ⊕ β}
    (h : Action.openLine host.watched d m = (talking, bubble, m')) :
    ∃ v w, m.Quietly v ∧ m'.ledger = v.ledger ++ [.called (.showLine d.text) w] := by
  unfold Action.openLine at h
  dsimp only at h
  split at h
  · simp only [Prod.mk.injEq] at h
    obtain ⟨-, -, rfl⟩ := h
    exact ⟨_, _, .called (m := host.watched.record (.talking d.speaker d.talkingParameter true) m)
      id _, rfl⟩
  · simp only [Prod.mk.injEq] at h
    obtain ⟨-, -, rfl⟩ := h
    exact ⟨m, _, .refl m, rfl⟩

/-- Putting a choice is the call that shows it. -/
theorem exists_ledger_of_openChoices {q : Question} {slot : Slot} {bubble : α ⊕ β}
    (h : Action.openChoices host.watched q m = (slot, bubble, m')) :
    ∃ w, m'.ledger = m.ledger ++ [.called (.showChoices q.labels slot) w] := by
  simp only [Action.openChoices, Prod.mk.injEq] at h
  obtain ⟨rfl, rfl, rfl⟩ := h
  exact ⟨_, rfl⟩

/-- A step writes down whether a bubble is done. -/
theorem ledger_of_step {work next : α ⊕ β} {frame : Frame} {outcome : Outcome}
    (h : host.watched.step work frame m = ⟨outcome, next, m'⟩) :
    m'.ledger = m.ledger ++ .ofStep work ⟨outcome, next, m'.world⟩ := by
  obtain ⟨rfl, rfl, rfl⟩ := Step.mk.inj h
  rfl

theorem Ledger.ofStep_of_ne {work next : α ⊕ β} {outcome : Outcome} {w : W}
    (hne : outcome ≠ .ok .done) : Ledger.ofStep work ⟨outcome, next, w⟩ = [] := by
  unfold Ledger.ofStep
  split
  · exact absurd ‹_› hne
  · rfl

end Opening

/-! ## What is shown -/

section Showing

variable {A α : Type} {company : Company A α} {delays : Delays} {stage : Stage}
  {settings : Settings} {frame : Frame} {spot spot' spot₀ : Spot (α ⊕ OpenBubble)}
  {m m' m₀ : Watched (World A Transcript)}

/-- Nothing happened to bubbles, neither by the ledger nor in the transcript. -/
structure Aside (m m' : Watched (World A Transcript)) : Prop where
  quietly : m.Quietly m'
  sameBubbles : m.world.SameBubbles m'.world

variable (company delays) in
theorem aside_storing (assignment : Assignment) (m : Watched (World A Transcript)) :
    Aside m ((company.withTranscript delays).watched.storing assignment m) := by
  refine ⟨.storing _ assignment m, ?_⟩
  rw [← (company.withTranscript delays).watched_shadows.storing_eq]
  exact .storing company delays assignment m.world

variable (company delays) in
theorem aside_hushing (d : Delivery) (talking : Bool) (m : Watched (World A Transcript)) :
    Aside m ((company.withTranscript delays).watched.hushing d talking m) := by
  refine ⟨.hushing _ d talking m, ?_⟩
  rw [← (company.withTranscript delays).watched_shadows.hushing_eq]
  exact .hushing company delays d talking m.world

variable (company delays) in
theorem aside_stepParts {parts : List ((α ⊕ OpenBubble) ⊕ Cue)} (h : OnlyActors parts)
    (frame : Frame) (m : Watched (World A Transcript)) :
    Aside m ((company.withTranscript delays).watched.stepParts frame parts m).world := by
  refine ⟨.stepParts company delays h frame m, ?_⟩
  have hworld := congrArg Step.world
    ((company.withTranscript delays).watched_shadows.stepParts_eq frame parts m)
  dsimp only at hworld
  rw [← hworld]
  exact (h.stepParts frame m.world).2

/-- The open bubbles and the display, by what is in progress: the display belongs to the one bubble
that is open, and is empty if there is none. -/
def Shown : Option (Business (α ⊕ OpenBubble)) → List Call → String → Prop
  | some (.speaking d _ (.inr (.line b))), bubbles, display =>
    bubbles = [.showLine d.text] ∧ b.Shows display
  | some (.choosing q slot (.inr (.choice b)) _), bubbles, display =>
    bubbles = [.showChoices q.labels slot] ∧ b.Shows display
  | _, bubbles, display => bubbles = [] ∧ display = ""

/-- What was displayed when the open bubble was dismissed: the text of the line, or the label that
was selected. -/
inductive Seen (before : Watched (World A Transcript)) (dismissed : World A Transcript) : Prop where
  | line {text : String} (hopen : before.ledger.openBubbles = [.showLine text])
      (hdisplay : before.world.bubbles.display = text)
  | choice {labels : List String} {slot : Slot} {index : Nat}
      (hopen : before.ledger.openBubbles = [.showChoices labels slot])
      (hselected : dismissed.selections.selected slot = some index)
      (hdisplay : labels[index]? = some before.world.bubbles.display)

/-- The one open bubble is dismissed, and its text or label had been displayed. -/
structure Dismisses (before after : Watched (World A Transcript)) : Prop where
  ledger : after.ledger = before.ledger ++ [.bubbleDone after.world]
  display : after.world.bubbles.display = ""
  seen : Seen before after.world

theorem Seen.exists_open {dismissed : World A Transcript} (h : Seen m dismissed) :
    ∃ call, m.ledger.openBubbles = [call] := by
  cases h with
  | line hopen _ => exact ⟨_, hopen⟩
  | choice hopen _ _ => exact ⟨_, hopen⟩

/-- After that no bubble is open. -/
theorem Dismisses.openBubbles_eq (h : Dismisses m m') : m'.ledger.openBubbles = [] := by
  obtain ⟨call, hcall⟩ := h.seen.exists_open
  rw [h.ledger, Ledger.openBubbles_concat, hcall]
  rfl

theorem Dismisses.oneAtATime (h : Dismisses m m') (hone : m.ledger.OneAtATime) :
    m'.ledger.OneAtATime := by
  have hnone := h.openBubbles_eq
  rw [h.ledger] at hnone ⊢
  exact hone.concat (by simp [hnone])

/-- The bubble has come to the point at which it can be dismissed. -/
def Business.Complete : Business (α ⊕ OpenBubble) → Prop
  | .speaking _ _ (.inr (.line b)) => b.stage = .waiting
  | .choosing _ _ (.inr (.choice b)) _ => b.stage = .idle
  | _ => False

variable (stage) in
/-- The display is in order at a spot, and bubbles were opened one at a time. -/
structure Spot.Orderly (spot : Spot (α ⊕ OpenBubble)) (m : Watched (World A Transcript)) : Prop where
  ready : spot.Ready stage m.world.slots
  shown : Shown spot.now m.ledger.openBubbles m.world.bubbles.display
  oneAtATime : m.ledger.OneAtATime

theorem Watched.Quietly.openBubbles_eq (h : m.Quietly m') :
    m'.ledger.openBubbles = m.ledger.openBubbles := by
  obtain ⟨added, hledger, hadded⟩ := h
  rw [hledger, hadded.openBubbles_eq]

theorem Watched.Quietly.oneAtATime (h : m.Quietly m') (hone : m.ledger.OneAtATime) :
    m'.ledger.OneAtATime := by
  obtain ⟨added, hledger, hadded⟩ := h
  rw [hledger]
  exact hone.quiet hadded

/-- What leaves bubbles alone leaves the display as it is. -/
theorem Aside.shown {now : Option (Business (α ⊕ OpenBubble))} (haside : Aside m m')
    (h : Shown now m.ledger.openBubbles m.world.bubbles.display) :
    Shown now m'.ledger.openBubbles m'.world.bubbles.display := by
  rwa [haside.quietly.openBubbles_eq, haside.sameBubbles.bubbles]

/-- A line that is done had been displayed completely. -/
theorem Spot.Orderly.dismisses_line {d : Delivery} {talking : Bool} {bubble next : α ⊕ OpenBubble}
    {later : List Statement} (h : Spot.Orderly stage ⟨some (.speaking d talking bubble), later⟩ m)
    (hstep : (company.withTranscript delays).watched.step bubble frame m = ⟨.ok .done, next, m'⟩) :
    (Business.speaking d talking bubble).Complete ∧ Dismisses m m' := by
  have hplain := (company.withTranscript delays).watched_shadows.step_eq hstep
  obtain ⟨b, b', t, rfl, htext, -, hafter, hturn⟩ := (h.ready.now _ rfl).line hplain
  obtain ⟨hopen, hshows⟩ := h.shown
  obtain ⟨hstage, hbefore, hempty⟩ := hturn.of_done rfl hshows
  refine ⟨hstage, ledger_of_step hstep, ?_, .line hopen (hbefore.trans htext)⟩
  rw [hafter]
  exact hempty

/-- A choice that is done had displayed the selected label completely. -/
theorem Spot.Orderly.dismisses_choice {q : Question} {slot : Slot} {bubble next : α ⊕ OpenBubble}
    {branches : List (String × List Statement)} {later : List Statement}
    (h : Spot.Orderly stage ⟨some (.choosing q slot bubble branches), later⟩ m)
    (hstep : (company.withTranscript delays).watched.step bubble frame m = ⟨.ok .done, next, m'⟩) :
    (Business.choosing q slot bubble branches).Complete ∧ Dismisses m m' := by
  have hplain := (company.withTranscript delays).watched_shadows.step_eq hstep
  obtain ⟨b, branch, rfl, hlabels, hstage, hafter, -, hselected, -⟩ :=
    (h.ready.now _ rfl).chosen hplain
  obtain ⟨hopen, hshows⟩ := h.shown
  simp only [ChoiceBubble.Shows, hstage] at hshows
  refine ⟨hstage, ledger_of_step hstep, ?_, .choice hopen hselected (hlabels ▸ hshows)⟩
  rw [hafter]
  rfl

/-- A move keeps the display in order. -/
theorem Spot.Orderly.move
    (hmove : Move (company.withTranscript delays).watched settings frame spot m spot' m')
    (h : spot.Orderly stage m) : spot'.Orderly stage m' := by
  have hshadows := (company.withTranscript delays).watched_shadows
  suffices horder : Shown spot'.now m'.ledger.openBubbles m'.world.bubbles.display ∧
      m'.ledger.OneAtATime from
    ⟨(h.ready.move (hshadows.move hmove)).2, horder.1, horder.2⟩
  cases hmove with
  | @speak speech later _ _ talking bubble hopen =>
    obtain ⟨v, w, hquiet, hledger⟩ := exists_quietly_of_openLine hopen
    obtain ⟨position, rfl, hsame⟩ := Action.openLine_withTranscript (hshadows.openLine_eq hopen)
    obtain ⟨hnone, hempty⟩ := h.shown
    have hnone' : v.ledger.openBubbles = [] := hquiet.openBubbles_eq.trans hnone
    refine ⟨⟨?_, (congrArg Transcript.display hsame.bubbles).trans hempty⟩, ?_⟩
    · rw [hledger, Ledger.openBubbles_concat, hnone']
      rfl
    · rw [hledger]
      exact (hquiet.oneAtATime h.oneAtATime).concat_of_none hnone' _
  | @said d talking bubble next later _ after hstep =>
    have hdone := (h.dismisses_line hstep).2
    have haside := aside_hushing company delays d talking after
    refine ⟨haside.shown ⟨hdone.openBubbles_eq, hdone.display⟩, ?_⟩
    exact haside.quietly.oneAtATime (hdone.oneAtATime h.oneAtATime)
  | play => exact ⟨h.shown, h.oneAtATime⟩
  | played _ =>
    cases h.ready.now _ rfl with
    | playing hparts =>
      have haside := aside_stepParts company delays hparts frame m
      refine ⟨haside.shown h.shown, ?_⟩
      exact haside.quietly.oneAtATime h.oneAtATime
  | stored => exact ⟨h.shown, h.oneAtATime⟩
  | @ask asker branches origin later slot bubble _ _ hopen =>
    obtain ⟨w, hledger⟩ := exists_ledger_of_openChoices hopen
    obtain ⟨⟨position, rfl⟩, hsame, -⟩ :=
      Action.openChoices_withTranscript (hshadows.openChoices_eq hopen)
    obtain ⟨hnone, hempty⟩ := h.shown
    refine ⟨⟨?_, (congrArg Transcript.display hsame).trans hempty⟩, ?_⟩
    · rw [hledger, Ledger.openBubbles_concat, hnone]
      rfl
    · rw [hledger]
      exact h.oneAtATime.concat_of_none hnone _
  | chose hstep _ _ =>
    have hdone := (h.dismisses_choice hstep).2
    exact ⟨⟨hdone.openBubbles_eq, hdone.display⟩, hdone.oneAtATime h.oneAtATime⟩

/-- Where a frame halts nothing happens to bubbles but what their own steps do. -/
theorem Spot.Ready.quietly_of_halt {outcome : Outcome}
    (hhalt : Halt (company.withTranscript delays).watched frame spot m outcome spot' m')
    (h : spot.Ready stage m.world.slots) : m.Quietly m' := by
  have hshadows := (company.withTranscript delays).watched_shadows
  have hunended {work next : α ⊕ OpenBubble} {v : Watched (World A Transcript)} {o : Outcome}
      (hstep : (company.withTranscript delays).watched.step work frame m = ⟨o, next, v⟩)
      (hne : o ≠ .ok .done) : m.Quietly v := by
    refine ⟨[], ?_, by simp [Ledger.Quiet]⟩
    rw [ledger_of_step hstep, Ledger.ofStep_of_ne hne]
  cases hhalt with
  | finished => exact .refl m
  | store => exact .storing _ _ m
  | speaking hstep hne => exact hunended hstep hne
  | playing _ =>
    cases h.now _ rfl with
    | playing hparts => exact .stepParts company delays hparts frame m
  | choosing hstep hne => exact hunended hstep hne
  | unselected hstep hselected =>
    exact absurd hselected ((h.now _ rfl).selected_ne_none (hshadows.step_eq hstep))
  | invalid hstep hselected hbranch =>
    exact absurd hbranch ((h.now _ rfl).branch_ne_none (hshadows.step_eq hstep) hselected)

/-- The end of a frame keeps the display in order. -/
theorem Spot.Orderly.halt {outcome : Outcome}
    (hhalt : Halt (company.withTranscript delays).watched frame spot m outcome spot' m')
    (h : spot.Orderly stage m) : spot'.Orderly stage m' := by
  have hshadows := (company.withTranscript delays).watched_shadows
  have hquiet := h.ready.quietly_of_halt hhalt
  refine ⟨(h.ready.halt (hshadows.halt hhalt)).2, ?_, hquiet.oneAtATime h.oneAtATime⟩
  cases hhalt with
  | finished => exact h.shown
  | store => exact (aside_storing company delays _ m).shown h.shown
  | speaking hstep hne =>
    obtain ⟨b, b', t, rfl, -, rfl, hafter, hturn⟩ :=
      (h.ready.now _ rfl).line (hshadows.step_eq hstep)
    obtain ⟨hopen, hshows⟩ := h.shown
    rw [hquiet.openBubbles_eq, hafter]
    exact ⟨hopen, hturn.shows hne hshows⟩
  | playing _ =>
    cases h.ready.now _ rfl with
    | playing hparts => exact (aside_stepParts company delays hparts frame m).shown h.shown
  | choosing hstep hne =>
    obtain ⟨b, b', t, rfl, -, hrange, rfl, hafter, hturn, -⟩ :=
      (h.ready.now _ rfl).choice (hshadows.step_eq hstep) hne
    obtain ⟨hopen, hshows⟩ := h.shown
    rw [hquiet.openBubbles_eq, hafter]
    exact ⟨hopen, hturn.shows hne hrange hshows⟩
  | unselected hstep hselected =>
    exact absurd hselected ((h.ready.now _ rfl).selected_ne_none (hshadows.step_eq hstep))
  | invalid hstep hselected hbranch =>
    exact absurd hbranch ((h.ready.now _ rfl).branch_ne_none (hshadows.step_eq hstep) hselected)

/-! ## Within a frame -/

/-- From one moment to a later one of the same frame at most one bubble was dismissed, and then one
that had been displayed completely at the first of them. -/
def Follows (m m' : Watched (World A Transcript)) : Prop :=
  ∃ added, m'.ledger = m.ledger ++ added ∧
    (added.dismissals = [] ∨ ∃ v, added.dismissals = [v] ∧ Seen m v)

theorem Follows.refl (m : Watched (World A Transcript)) : Follows m m :=
  ⟨[], by simp, .inl rfl⟩

theorem Follows.more {more : Ledger (World A Transcript)} (h : Follows m₀ m)
    (hledger : m'.ledger = m.ledger ++ more) (hmore : more.dismissals = []) : Follows m₀ m' := by
  obtain ⟨added, hm, hadded⟩ := h
  refine ⟨added ++ more, by rw [hledger, hm, List.append_assoc], ?_⟩
  rwa [Ledger.dismissals_append, hmore, List.append_nil]

theorem Follows.quietly (h : Follows m₀ m) (hquiet : m.Quietly m') : Follows m₀ m' := by
  obtain ⟨added, hledger, hadded⟩ := hquiet
  exact h.more hledger hadded.dismissals_eq

theorem Dismisses.follows (h : Dismisses m m') : Follows m m' :=
  ⟨_, h.ledger, .inr ⟨m'.world, rfl, h.seen⟩⟩

/-- Nothing has happened since the frame began, or what is in progress cannot be dismissed before the
next one. -/
def Since (spot₀ : Spot (α ⊕ OpenBubble)) (m₀ : Watched (World A Transcript))
    (spot : Spot (α ⊕ OpenBubble)) (m : Watched (World A Transcript)) : Prop :=
  (spot = spot₀ ∧ m = m₀) ∨ (Follows m₀ m ∧ ∀ business ∈ spot.now, ¬ business.Complete)

theorem Since.follows (h : Since spot₀ m₀ spot m) : Follows m₀ m := by
  rcases h with ⟨-, rfl⟩ | ⟨hfollows, -⟩
  · exact .refl _
  · exact hfollows

/-- What is complete was so when the frame began. -/
theorem Since.eq_of_complete {business : Business (α ⊕ OpenBubble)} {later : List Statement}
    (h : Since spot₀ m₀ ⟨some business, later⟩ m) (hcomplete : business.Complete) : m = m₀ := by
  rcases h with ⟨-, hm⟩ | ⟨-, hnot⟩
  · exact hm
  · exact absurd hcomplete (hnot _ rfl)

/-- After a move nothing can be dismissed before the next frame. -/
theorem Since.move
    (hmove : Move (company.withTranscript delays).watched settings frame spot m spot' m')
    (horder : spot.Orderly stage m) (h : Since spot₀ m₀ spot m) : Since spot₀ m₀ spot' m' := by
  have hshadows := (company.withTranscript delays).watched_shadows
  refine .inr ?_
  cases hmove with
  | speak hopen =>
    obtain ⟨v, w, hquiet, hledger⟩ := exists_quietly_of_openLine hopen
    obtain ⟨position, rfl, -⟩ := Action.openLine_withTranscript (hshadows.openLine_eq hopen)
    refine ⟨(h.follows.quietly hquiet).more hledger rfl, ?_⟩
    simp [Business.Complete, OpenBubble.ofLine]
  | @said d talking bubble next later _ after hstep =>
    obtain ⟨hcomplete, hdone⟩ := horder.dismisses_line hstep
    obtain rfl := h.eq_of_complete hcomplete
    exact ⟨hdone.follows.quietly (aside_hushing company delays d talking after).quietly, by simp⟩
  | play => exact ⟨h.follows, by simp [Business.Complete]⟩
  | played _ =>
    cases horder.ready.now _ rfl with
    | playing hparts =>
      exact ⟨h.follows.quietly (aside_stepParts company delays hparts frame m).quietly, by simp⟩
  | stored => exact ⟨h.follows, by simp⟩
  | ask hopen =>
    obtain ⟨w, hledger⟩ := exists_ledger_of_openChoices hopen
    obtain ⟨⟨position, rfl⟩, -, -⟩ :=
      Action.openChoices_withTranscript (hshadows.openChoices_eq hopen)
    refine ⟨h.follows.more hledger rfl, ?_⟩
    simp [Business.Complete, OpenBubble.ofChoices]
  | chose hstep _ _ =>
    obtain ⟨hcomplete, hdone⟩ := horder.dismisses_choice hstep
    obtain rfl := h.eq_of_complete hcomplete
    exact ⟨hdone.follows, by simp⟩

/-! ## Frame after frame -/

/-- What can be seen: nothing if no bubble is open, and otherwise a part of the text of the line or of
one of the labels. -/
inductive Visible : List Call → String → Prop where
  | nothing : Visible [] ""
  | line {text display : String} (h : display.toList <+: text.toList) :
      Visible [.showLine text] display
  | choice {labels : List String} {slot : Slot} {label display : String} (hlabel : label ∈ labels)
      (h : display.toList <+: label.toList) : Visible [.showChoices labels slot] display

theorem Spot.Orderly.visible (h : spot.Orderly stage m) :
    Visible m.ledger.openBubbles m.world.bubbles.display := by
  obtain ⟨⟨hnow, -⟩, hshown, -⟩ := h
  obtain ⟨now, later⟩ := spot
  have hnothing (hnone : m.ledger.openBubbles = [] ∧ m.world.bubbles.display = "") :
      Visible m.ledger.openBubbles m.world.bubbles.display := by
    rw [hnone.1, hnone.2]
    exact .nothing
  cases now with
  | none => exact hnothing hshown
  | some business =>
    cases hnow _ rfl with
    | speaking htext =>
      obtain ⟨hopen, hshows⟩ := hshown
      rw [hopen, ← htext]
      exact .line hshows.toList_prefix
    | playing _ => exact hnothing hshown
    | stored => exact hnothing hshown
    | choosing hlabels _ hrange _ _ _ =>
      obtain ⟨hopen, hshows⟩ := hshown
      obtain ⟨label, hlabel, hprefix⟩ := hshows.exists_prefix hrange
      rw [hopen, ← hlabels]
      exact .choice hlabel hprefix

/-- From the end of one frame to the end of the next one: bubbles are open one at a time, the display
shows a part of what is open, and at most one bubble was dismissed, which had been displayed
completely at the end of the first frame. -/
structure Attentive (before after : Watched (World A Transcript)) : Prop where
  oneAtATime : after.ledger.OneAtATime
  visible : Visible after.ledger.openBubbles after.world.bubbles.display
  follows : Follows before after

/-- Frames after a spot at which the display is in order. -/
theorem Stands.isChain_attentive
    {children : List (Action (Watched (World A Transcript)) (α ⊕ OpenBubble))}
    (h : Stands (company.withTranscript delays).watched settings children spot)
    (horder : spot.Orderly stage m) (frames : List Frame) :
    List.IsChain Attentive (m ::
      (Action.advances (company.withTranscript delays).watched frames (.sequence children) m).map
        (·.world)) := by
  induction frames generalizing spot children m with
  | nil => exact .singleton m
  | cons frame frames ih =>
    obtain ⟨last, hpasses, hstands⟩ := h.passes frame m
    obtain ⟨mid, v, ⟨hmid, hsince⟩, hhalt⟩ :=
      hpasses.exists_halt (J := fun mid v => mid.Orderly stage v ∧ Since spot m mid v)
        (fun hmove hJ => ⟨hJ.1.move hmove, hJ.2.move hmove hJ.1⟩) ⟨horder, .inl ⟨rfl, rfl⟩⟩
    have hlast := hmid.halt hhalt
    rw [Action.advances, Action.advance, List.map_cons]
    refine List.isChain_cons_cons.mpr ⟨⟨hlast.oneAtATime, hlast.visible, ?_⟩, ih hstands hlast⟩
    exact hsince.follows.quietly (hmid.ready.quietly_of_halt hhalt)

end Showing

/-- Nothing is dismissed unseen.  However an accepted script is played with a transcript on which
nothing is displayed: bubbles are open one at a time; after every frame the display is empty if no
bubble is open, and otherwise shows a part of the text of the open line or of a label of the open
choice; a frame dismisses one bubble at most, and only if the text of the line or the label that was
selected was displayed completely at the end of the frame before.  When the script is done, no bubble
is open and nothing is displayed.  Keeping a ledger changes nothing. -/
theorem accepted_scripts_dismiss_nothing_unseen {A α : Type} (company : Company A α)
    (delays : Delays) (settings : Settings) {stage : Stage} {content : String}
    {script : List Statement} (hread : (Script.readScript stage content).result = .ok script)
    {w : World A Transcript} (hempty : w.bubbles.display = "") (frames : List Frame) :
    let host := company.withTranscript delays
    let plain := Action.advances host frames (.ofScript host settings script) w
    let watched := Action.advances host.watched frames (.ofScript host.watched settings script)
      ⟨w, []⟩
    (watched.map fun s => (s.outcome, s.world.world)) = (plain.map fun t => (t.outcome, t.world)) ∧
      List.IsChain Attentive (⟨w, []⟩ :: watched.map (·.world)) ∧
      ∀ s ∈ watched, s.outcome = .ok .done →
        s.world.ledger.openBubbles = [] ∧ s.world.world.bubbles.display = "" := by
  have hstands : Stands (company.withTranscript delays).watched settings
      (Action.ofStatements (company.withTranscript delays).watched settings script)
      ⟨none, script⟩ := .script script
  have horder : (⟨none, script⟩ : Spot (α ⊕ OpenBubble)).Orderly stage ⟨w, []⟩ := by
    refine ⟨.script (Script.playable_of_readLines hread), ⟨rfl, hempty⟩, ?_⟩
    intro before hbefore
    rw [List.prefix_nil.mp hbefore]
    exact Nat.zero_le 1
  refine ⟨?_, hstands.isChain_attentive horder frames, ?_⟩
  · have hsame := (company.withTranscript delays).watched_shadows.advances hstands (.script script)
      frames ⟨w, []⟩
    rw [← List.forall₂_eq_eq_eq, List.forall₂_map_left_iff, List.forall₂_map_right_iff]
    refine hsame.imp fun s t hst => ?_
    obtain ⟨houtcome, hworld, -⟩ := hst
    rw [houtcome, hworld]
  · intro s hs hdone
    obtain ⟨frame, -, mid, v, children, last, hmid, hhalt, -, -⟩ :=
      hstands.forall_advances (fun hmove hm => hm.move hmove) (fun hhalt hm => hm.halt hhalt) horder
        frames s hs
    obtain ⟨-, rfl, -⟩ := hhalt.of_done hdone
    exact (hmid.halt hhalt).shown

namespace Rehearsal

/-- A choice that is opened, moved and submitted. -/
theorem askScript_dismisses_nothing_unseen :
    let host := puppets.withTranscript ⟨.zero, .zero⟩
    let w : World Cast Transcript := ⟨annAlone, .empty, .empty, .empty, #[]⟩
    let watched := Action.advances host.watched askFrames
      (.ofScript host.watched .standard askScript) ⟨w, []⟩
    (Script.readScript (annAlone.stage ⟨[]⟩) (Script.written askScript)).result = .ok askScript ∧
      w.bubbles.display = "" ∧ List.IsChain Attentive (⟨w, []⟩ :: watched.map (·.world)) ∧
      (watched.map fun s => s.world.ledger.dismissals.length) = [0, 0, 0, 0, 1, 1] := by
  intro host w watched
  have hempty : w.bubbles.display = "" := rfl
  obtain ⟨-, hchain, -⟩ := accepted_scripts_dismiss_nothing_unseen puppets ⟨.zero, .zero⟩ .standard
    readScript_askScript hempty askFrames
  exact ⟨readScript_askScript, hempty, hchain, by decide +kernel⟩

end Rehearsal

end Promptbook
