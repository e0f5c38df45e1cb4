import Promptbook.Proofs.Performance.Branching
import Promptbook.Proofs.Script.Tree

set_option autoImplicit false

/-!
# Performing a script makes its calls

Whatever the actors, the bubbles and the frames, the calls that the action of a script has made so
far are the first calls of its trace, and all of them once it is done.  `Underway.proceeds` says this
of one frame of a statement, wherever it was suspended, and `Standing.advances` of all frames of a
script.
-/

namespace Promptbook

open Script (Statement Cue Assignment Speech)

variable {A α B β : Type} {company : Company A α} {presenter : Presenter B β} {settings : Settings}

/-! ## Opening bubbles -/

section Opening

variable (company : Company A α) (presenter : Presenter B β) (settings : Settings)

/-- A line is opened with its first call in the moment that decides whether its actor talks. -/
theorem exists_openLine (speech : Speech) (w : Watched (World A B)) :
    ∃ (talking : Bool) (call : Call) (moment : World A B) (more : Ledger (World A B)) (bubble : β)
      (after : World A B),
      Action.openLine (Host.ofParts company presenter) (speech.delivery settings) w.world =
        (talking, .inr bubble, after) ∧
      Action.openLine (Host.ofParts company presenter).watched (speech.delivery settings) w =
        (talking, .inr bubble, ⟨after, w.ledger ++ .called call moment :: more⟩) ∧
      Ledger.calls (.called call moment :: more) = speech.opening settings talking ∧
      company.hasParameter moment.actors speech.speaker.actor settings.talkingParameter =
        talking := by
  let host : Host (World A B) (α ⊕ β) := Host.ofParts company presenter
  cases htalking : company.hasParameter w.world.actors speech.speaker.actor
      settings.talkingParameter with
  | false =>
    let position := (host.position w.world speech.speaker.actor).raised settings.bubbleHeight
    let shown := w.world.record (.showingLine speech.text position)
    obtain ⟨bubble, after, hshow⟩ :=
      exists_showLine company presenter speech.text position shown
    have hwatched : host.watched.showLine speech.text position (w.moved shown) =
        (.inr bubble, ⟨after, w.ledger ++ [.called (.showLine speech.text) shown]⟩) :=
      watched_showLine hshow
    exact ⟨false, .showLine speech.text, shown, [], bubble, after,
      Action.openLine_of_silent htalking rfl hshow,
      Action.openLine_of_silent htalking rfl hwatched, rfl, htalking⟩
  | true =>
    let asked := w.world.record (.talking speech.speaker settings.talkingParameter true)
    let set := host.setParameter speech.speaker.actor settings.talkingParameter true asked
    let position := (host.position set speech.speaker.actor).raised settings.bubbleHeight
    let shown := set.record (.showingLine speech.text position)
    obtain ⟨bubble, after, hshow⟩ :=
      exists_showLine company presenter speech.text position shown
    let setting := w.ledger ++ [.called (speech.talkingCall settings true) asked]
    have hwatched : host.watched.showLine speech.text position ⟨shown, setting⟩ =
        (.inr bubble, ⟨after, setting ++ [.called (.showLine speech.text) shown]⟩) :=
      watched_showLine hshow
    refine ⟨true, speech.talkingCall settings true, asked,
      [.called (.showLine speech.text) shown], bubble, after,
      Action.openLine_of_talking htalking rfl rfl hshow, ?_, rfl, htalking⟩
    rw [List.append_assoc] at hwatched
    exact Action.openLine_of_talking htalking rfl rfl hwatched

/-- A choice is put with one call, which hands over the newest slot. -/
theorem exists_openChoices (asker : ActorRef) (branches : List (String × List Statement))
    (w : Watched (World A B)) :
    ∃ (slot : Slot) (moment : World A B) (bubble : β) (after : World A B),
      Action.openChoices (Host.ofParts company presenter) (questionOf settings asker branches)
        w.world = (slot, .inr bubble, after) ∧
      Action.openChoices (Host.ofParts company presenter).watched
        (questionOf settings asker branches) w =
          (slot, .inr bubble,
            ⟨after, w.ledger ++ [.called (.showChoices (Script.labelsOf branches) slot) moment]⟩) ∧
      slot = ⟨moment.selections.values.length - 1⟩ := by
  let host : Host (World A B) (α ⊕ β) := Host.ofParts company presenter
  let labels := Script.labelsOf branches
  let position := (host.position w.world asker.actor).raised settings.bubbleHeight
  let slot := w.world.selections.create.1
  let opened : World A B := { w.world with selections := w.world.selections.create.2 }
  let asked := opened.record (.showingChoices labels position)
  obtain ⟨bubble, after, hshow⟩ :=
    exists_showChoices company presenter labels position slot asked
  have hwatched : host.watched.showChoices labels position slot (w.moved asked) =
      (.inr bubble, ⟨after, w.ledger ++ [.called (.showChoices labels slot) asked]⟩) :=
    watched_showChoices hshow
  refine ⟨slot, asked, bubble, after, Action.openChoices_eq rfl rfl hshow,
    Action.openChoices_eq rfl rfl hwatched, ?_⟩
  simp [slot, asked, opened, Selections.create, World.record]

end Opening

/-! ## Beginning a statement -/

theorem Passage.parallel {due : Ledger (World A B) → Nat → List Call} {w : Watched (World A B)}
    {added : Ledger (World A B)} {t : Step (List (Action (World A B) (α ⊕ β))) (World A B)}
    {s : Step (List (Action (Watched (World A B)) (α ⊕ β))) (Watched (World A B))}
    (h : Passage (partsForm company presenter) due w added t s) :
    Passage (Underway.form company presenter settings) due w added (t.mapNext .parallel)
      (s.mapNext .parallel) := by
  cases h with
  | done ht hs hworld hdue => exact .done ht hs hworld hdue
  | suspended x hne ht hs hdue =>
    refine .suspended (.playing x) hne ?_ ?_ hdue
    · rw [Step.next_mapNext, ht]
      rfl
    · rw [hs]
      rfl

theorem begins_dialogue (speech : Speech) :
    Begins company presenter settings (.dialogue speech) := by
  intro frame w
  obtain ⟨talking, call, moment, more, bubble, after, ht, hs, hcalls, htalking⟩ :=
    exists_openLine company presenter settings speech w
  obtain ⟨added, hline⟩ := passage_stepLine company presenter settings frame speech talking bubble
    ⟨after, w.ledger ++ .called call moment :: more⟩
  refine ⟨.called call moment :: more ++ added, ?_, .inl ⟨call, moment, more ++ added, rfl⟩⟩
  change Passage _ _ _ _ (Action.advance _ _ (.speak (speech.delivery settings)) _)
    (Action.advance _ _ (.speak (speech.delivery settings)) _)
  rw [Action.advance_speak ht, Action.advance_speak hs]
  apply hline.after rfl
  intro full hfull
  have htalks : talksAt company settings full (Ledger.count w.ledger) speech = talking := by
    rw [talksAt, hfull.calledIn_eq]
    exact htalking
  rw [Statement.trace, htalks, hcalls]

theorem begins_animation (cues : List Cue) :
    Begins company presenter settings (.animation cues) := by
  intro frame w
  have hactions {W : Type} (host : Host W (α ⊕ β)) :
      cues.map (Action.ofCue host) =
        (cues.map (Sum.inr : Cue → α ⊕ Cue)).map (actionOfPart host) := by
    rw [List.map_map]
    rfl
  obtain ⟨added, hplay, hopens⟩ :=
    passage_advanceParallel company presenter frame (cues.map Sum.inr) w
  have hunreached : (cues.map (Sum.inr : Cue → α ⊕ Cue)).head?.all Sum.isRight = true := by
    cases cues <;> rfl
  have hdue : (fun _ _ => duePlays (cues.map (Sum.inr : Cue → α ⊕ Cue))) =
      fun (ledger : Ledger (World A B)) k =>
        (Statement.animation cues).trace company settings ledger k := by
    funext ledger k
    rw [duePlays_map_inr, Statement.trace]
  rw [Action.ofStatement, Action.ofStatement, hactions, hactions, Action.advance, Action.advance,
    ← hdue]
  exact ⟨added, hplay.parallel, hopens hunreached⟩

theorem begins_store (assignment : Assignment) :
    Begins company presenter settings (.store assignment) := by
  intro frame w
  let asked := w.world.record (.storing assignment)
  refine ⟨[.called assignment.call asked], .suspended .stored ?_ ?_ ?_ ?_, ?_⟩
  · simp [Action.ofStatement, Action.ofAssignment, Action.advance]
  · rfl
  · obtain ⟨target, value⟩ := assignment
    cases target <;> rfl
  · intro full hfull
    rfl
  · exact .inl ⟨assignment.call, asked, [], rfl⟩

theorem begins_choice {asker : ActorRef} {branches : List (String × List Statement)}
    {origin : Script.Origin}
    (hbranches : ∀ b ∈ branches, BeginsAll company presenter settings b.2) :
    Begins company presenter settings (.choice asker branches origin) := by
  intro frame w
  obtain ⟨slot, moment, bubble, after, ht, hs, hslot⟩ :=
    exists_openChoices company presenter settings asker branches w
  let opening : Ledger (World A B) :=
    [.called (.showChoices (Script.labelsOf branches) slot) moment]
  obtain ⟨added, hchoice⟩ := passage_stepChoice hbranches frame asker slot bubble false
    ⟨after, w.ledger ++ opening⟩
  refine ⟨opening ++ added, ?_, .inl ⟨_, moment, added, rfl⟩⟩
  change Passage _ _ _ _
    (Action.advance _ _ (.prompt (questionOf settings asker branches) _) _)
    (Action.advance _ _ (.prompt (questionOf settings asker branches) _) _)
  rw [Action.advance_prompt ht, Action.advance_prompt hs]
  apply hchoice.after rfl
  intro full hfull
  have hnewest : slotAt full (Ledger.count w.ledger) = slot := by
    rw [slotAt, hfull.calledIn_eq]
    exact hslot.symm
  rw [Statement.trace, hnewest, Ledger.count_append]
  rfl

/-- Every statement begins with the first of its calls. -/
theorem begins (s : Statement) : Begins company presenter settings s := by
  induction s using Script.Statement.induction with
  | dialogue speech => exact begins_dialogue speech
  | animation cues => exact begins_animation cues
  | store assignment => exact begins_store assignment
  | choice asker branches origin ih =>
    exact begins_choice fun b hb => beginsAll_of_begins (ih b hb)

/-! ## Going on -/

/-- Wherever it was suspended, a statement goes on with the first of the calls that are due. -/
theorem Underway.proceeds (u : Underway α β) (frame : Frame) (w : Watched (World A B)) :
    ∃ added, Passage (Underway.form company presenter settings)
      (fun ledger k => u.due company settings ledger k) w added
      (Action.advance (Host.ofParts company presenter) frame
        (u.action (Host.ofParts company presenter) settings) w.world)
      (Action.advance (Host.ofParts company presenter).watched frame
        (u.action (Host.ofParts company presenter).watched settings) w) := by
  induction u with
  | unbegun s =>
    obtain ⟨added, hbegins, -⟩ := begins s frame w
    exact ⟨added, hbegins⟩
  | speaking speech talking bubble =>
    rw [action, action, Action.advance, Action.advance]
    exact passage_stepLine company presenter settings frame speech talking bubble w
  | playing parts =>
    obtain ⟨added, hplay, -⟩ := passage_advanceParallel company presenter frame parts w
    rw [action, action, Action.advance, Action.advance]
    exact ⟨added, hplay.parallel⟩
  | stored =>
    refine ⟨[], .done rfl rfl ?_ fun _ _ => rfl⟩
    rw [List.append_nil]
    rfl
  | choosing asker branches slot bubble spent =>
    rw [action, action, Action.advance, Action.advance]
    exact passage_stepChoice (fun b _ => beginsAll_of_begins fun s _ => begins s) frame asker slot
      bubble spent w
  | following now later ih =>
    obtain ⟨added, hnow⟩ := ih
    obtain ⟨more, hsequence, -⟩ :=
      passage_advanceSequence hnow (beginsAll_of_begins fun s (_ : s ∈ later) => begins s)
    rw [action, action, Action.advance, Action.advance, Action.advance, Action.advance]
    exact ⟨more, hsequence.settle⟩

/-- Wherever it was suspended, a script goes on with the first of the calls that are due. -/
theorem Place.proceeds (place : Place α β) (frame : Frame) (w : Watched (World A B)) :
    ∃ added, Passage (Place.form company presenter settings)
      (fun ledger k => place.due company settings ledger k) w added
      (Action.advanceSequence (Host.ofParts company presenter) frame
        (place.actions (Host.ofParts company presenter) settings) w.world)
      (Action.advanceSequence (Host.ofParts company presenter).watched frame
        (place.actions (Host.ofParts company presenter).watched settings) w) := by
  obtain ⟨u, later⟩ := place
  obtain ⟨added, hu⟩ := u.proceeds frame w
  obtain ⟨more, hsequence, -⟩ :=
    passage_advanceSequence hu (beginsAll_of_begins fun s (_ : s ∈ later) => begins s)
  exact ⟨more, hsequence⟩

/-! ## Frame after frame -/

/-- How a script can stand between two frames: all its calls were made and nothing is left of it, or
it is suspended at a place and the calls that were made are followed by those that are due there. -/
inductive Standing (company : Company A α) (presenter : Presenter B β) (settings : Settings)
    (script : List Statement) (w : Watched (World A B)) (plain : Action (World A B) (α ⊕ β))
    (watched : Action (Watched (World A B)) (α ⊕ β)) : Prop where
  | ended (hplain : plain = .sequence []) (hwatched : watched = .sequence [])
      (hcalls : ∀ full : Ledger (World A B), full.Continues w.ledger (.ok .done) →
        traceAll company settings full 0 script = w.ledger.calls)
  | amid (place : Place α β)
      (hplain : plain = .sequence (place.actions (Host.ofParts company presenter) settings))
      (hwatched : watched =
        .sequence (place.actions (Host.ofParts company presenter).watched settings))
      (hcalls : ∀ full : Ledger (World A B), w.ledger <+: full →
        traceAll company settings full 0 script =
          w.ledger.calls ++ place.due company settings full w.ledger.count)

/-- What has been written of a script after a frame: the first calls of its trace whatever happens
later, and all of them if the frame was the last. -/
def Accounted (company : Company A α) (settings : Settings) (script : List Statement)
    (s : Step (Action (Watched (World A B)) (α ⊕ β)) (Watched (World A B))) : Prop :=
  (s.outcome ≠ .ok .done → ∀ full : Ledger (World A B), s.world.ledger <+: full →
    s.world.ledger.calls <+: traceAll company settings full 0 script) ∧
  (s.outcome = .ok .done →
    s.world.ledger.calls = traceAll company settings s.world.ledger 0 script)

theorem standing_ofScript (company : Company A α) (presenter : Presenter B β)
    (settings : Settings) (script : List Statement) (w : World A B) :
    Standing company presenter settings script ⟨w, []⟩
      (.ofScript (Host.ofParts company presenter) settings script)
      (.ofScript (Host.ofParts company presenter).watched settings script) := by
  cases script with
  | nil => exact .ended rfl rfl fun _ _ => rfl
  | cons s later => exact .amid (.unbegun s, later) rfl rfl fun _ _ => rfl

/-- A frame leaves a script standing, and accounted for. -/
theorem Standing.advance {script : List Statement} {w : Watched (World A B)}
    {plain : Action (World A B) (α ⊕ β)} {watched : Action (Watched (World A B)) (α ⊕ β)}
    (h : Standing company presenter settings script w plain watched) (frame : Frame) :
    ∃ added,
      (Action.advance (Host.ofParts company presenter).watched frame watched w).outcome =
        (Action.advance (Host.ofParts company presenter) frame plain w.world).outcome ∧
      (Action.advance (Host.ofParts company presenter).watched frame watched w).world =
        ⟨(Action.advance (Host.ofParts company presenter) frame plain w.world).world,
          w.ledger ++ added⟩ ∧
      Standing company presenter settings script
        (Action.advance (Host.ofParts company presenter).watched frame watched w).world
        (Action.advance (Host.ofParts company presenter) frame plain w.world).next
        (Action.advance (Host.ofParts company presenter).watched frame watched w).next ∧
      Accounted company settings script
        (Action.advance (Host.ofParts company presenter).watched frame watched w) := by
  cases h with
  | ended hplain hwatched hcalls =>
    subst hplain hwatched
    rw [Action.advance, Action.advance]
    refine ⟨[], rfl, ?_, .ended rfl rfl hcalls, fun hne => absurd rfl hne, fun _ => ?_⟩
    · rw [List.append_nil]
      rfl
    · exact (hcalls _ (.refl _ _)).symm
  | amid place hplain hwatched hcalls =>
    subst hplain hwatched
    obtain ⟨added, hplace⟩ := place.proceeds frame w
    have hearlier {full : Ledger (World A B)} (hfull : w.ledger ++ added <+: full) :
        w.ledger <+: full := (List.prefix_append _ _).trans hfull
    rw [Action.advance, Action.advance]
    cases hplace with
    | done ht hs hworld hdue =>
      have hall : ∀ full : Ledger (World A B), full.Continues (w.ledger ++ added) (.ok .done) →
          traceAll company settings full 0 script = Ledger.calls (w.ledger ++ added) := by
        intro full hfull
        rw [hcalls full (hearlier hfull.1), hdue full (ht ▸ hfull), Ledger.calls_append]
      refine ⟨added, by simp [ht, hs], hworld, ?_, ?_, ?_⟩
      · refine .ended ?_ ?_ ?_
        · rw [Step.next_mapNext, Action.next_advanceSequence ht]
        · rw [Step.next_mapNext, Action.next_advanceSequence hs]
        · rw [Step.world_mapNext, hworld]
          exact hall
      · exact fun hne => absurd hs hne
      · intro _
        rw [Step.world_mapNext, hworld]
        exact (hall _ (.refl _ _)).symm
    | suspended x hne ht hs hdue =>
      have hmore : ∀ full : Ledger (World A B), w.ledger ++ added <+: full →
          traceAll company settings full 0 script = Ledger.calls (w.ledger ++ added) ++
            x.due company settings full (Ledger.count (w.ledger ++ added)) := by
        intro full hfull
        rw [hcalls full (hearlier hfull), hdue full ⟨hfull, fun hdone => absurd hdone hne⟩,
          Ledger.calls_append, List.append_assoc]
        rfl
      rw [hs]
      refine ⟨added, rfl, rfl, .amid x ?_ rfl hmore, ?_, fun hdone => absurd hdone hne⟩
      · rw [Step.next_mapNext, ht]
        rfl
      · intro _ full hfull
        rw [hmore full hfull]
        exact List.prefix_append _ _

/-- Frame after frame, a script that stands somewhere goes on with what is due there. -/
theorem Standing.advances {script : List Statement} {w : Watched (World A B)}
    {plain : Action (World A B) (α ⊕ β)} {watched : Action (Watched (World A B)) (α ⊕ β)}
    (h : Standing company presenter settings script w plain watched) (frames : List Frame) :
    ((Action.advances (Host.ofParts company presenter).watched frames watched w).map
        fun s => (s.outcome, s.world.world)) =
      ((Action.advances (Host.ofParts company presenter) frames plain w.world).map
        fun t => (t.outcome, t.world)) ∧
    ((w.ledger :: (Action.advances (Host.ofParts company presenter).watched frames watched w).map
      fun s => s.world.ledger).Pairwise fun ledger later => ledger <+: later) ∧
    ∀ s ∈ Action.advances (Host.ofParts company presenter).watched frames watched w,
      Accounted company settings script s := by
  induction frames generalizing w plain watched with
  | nil => exact ⟨rfl, List.pairwise_singleton _ _, by simp [Action.advances]⟩
  | cons frame frames ih =>
    obtain ⟨added, houtcome, hworld, hstanding, haccounted⟩ := h.advance frame
    obtain ⟨hsame, hgrows, hrest⟩ := ih hstanding
    have hplain :
        (Action.advance (Host.ofParts company presenter).watched frame watched w).world.world =
          (Action.advance (Host.ofParts company presenter) frame plain w.world).world := by
      rw [hworld]
    rw [hplain] at hsame
    refine ⟨?_, ?_, ?_⟩
    · rw [Action.advances, Action.advances, List.map_cons, List.map_cons, hsame, houtcome, hplain]
    · rw [Action.advances, List.map_cons]
      refine List.pairwise_cons.mpr ⟨?_, hgrows⟩
      intro ledger hledger
      have hfirst : w.ledger <+:
          (Action.advance (Host.ofParts company presenter).watched frame watched w).world.ledger := by
        rw [hworld]
        exact List.prefix_append _ _
      rcases List.mem_cons.mp hledger with rfl | hledger
      · exact hfirst
      · exact hfirst.trans ((List.pairwise_cons.mp hgrows).1 ledger hledger)
    · rw [Action.advances]
      exact List.forall_mem_cons.mpr ⟨haccounted, hrest⟩

/-- A script that is performed makes the calls of its trace.  Watching it changes neither the
outcome nor the world of any frame, and the ledger only grows.  After every frame the calls so far
are the first of the trace, whatever the ledger will come to be; once the script is done they are all
of it. -/
theorem advances_ofScript_refines_trace (company : Company A α) (presenter : Presenter B β)
    (settings : Settings) (script : List Statement) (w : World A B) (frames : List Frame) :
    let plain := Action.advances (Host.ofParts company presenter) frames
      (.ofScript (Host.ofParts company presenter) settings script) w
    let watched := Action.advances (Host.ofParts company presenter).watched frames
      (.ofScript (Host.ofParts company presenter).watched settings script) ⟨w, []⟩
    (watched.map fun s => (s.outcome, s.world.world)) = (plain.map fun t => (t.outcome, t.world)) ∧
    ((watched.map fun s => s.world.ledger).Pairwise fun ledger later => ledger <+: later) ∧
    ∀ s ∈ watched,
      (s.outcome ≠ .ok .done → ∀ full : Ledger (World A B), s.world.ledger <+: full →
        s.world.ledger.calls <+: traceAll company settings full 0 script) ∧
      (s.outcome = .ok .done →
        s.world.ledger.calls = traceAll company settings s.world.ledger 0 script) := by
  obtain ⟨hsame, hgrows, haccounted⟩ :=
    (standing_ofScript company presenter settings script w).advances frames
  exact ⟨hsame, (List.pairwise_cons.mp hgrows).2, haccounted⟩

/-- Actors that play every animation at once; only the first has parameters. -/
def Company.bare : Company Unit Unit where
  hasParameter _ actor _ := actor.index == 0
  position _ _ := default
  setParameter _ _ _ actors := (actors, [])
  play _ _ actors := (((), actors), [])
  step work _ actors := (⟨.ok .done, work, actors⟩, [])

/-- Bubbles that are done at once, with the second label selected. -/
def Presenter.bare : Presenter Unit (Option Slot) where
  showLine _ _ w := ((none, w), [])
  showChoices _ _ slot w := ((some slot, w), [])
  step bubble _ w := (⟨.ok .done, bubble, w.1, bubble.elim w.2 fun slot => w.2.select slot 1⟩, [])

/-- A line of an actor who talks, a choice and a line of one who does not. -/
def shortScene : List Statement :=
  [.dialogue ⟨⟨"Ann", ⟨0⟩⟩, "Hi", .ofIndex 0⟩,
    .choice ⟨"Ann", ⟨0⟩⟩
      [("No", [.dialogue ⟨⟨"Ann", ⟨0⟩⟩, "Oh", .ofIndex 3⟩]),
        ("Yes", [.store ⟨.contextVariable "met" ⟨0⟩, true⟩,
          .animation [⟨⟨"Bo", ⟨1⟩⟩, "nod"⟩]])]
      (.ofIndex 1),
    .dialogue ⟨⟨"Bo", ⟨1⟩⟩, "Bye", .ofIndex 8⟩]

/-- In two frames all calls of the scene are made, those of the second branch among them. -/
theorem advances_shortScene_refines_trace :
    let steps := Action.advances (Host.ofParts Company.bare Presenter.bare).watched
      [default, default]
      (.ofScript (Host.ofParts Company.bare Presenter.bare).watched .standard shortScene)
      ⟨⟨(), (), .empty, .empty, #[]⟩, []⟩
    (steps.map fun s => (s.outcome, s.world.ledger.calls)) =
      [(.ok .running,
          [.setParameter ⟨0⟩ "Talking" true, .showLine "Hi", .setParameter ⟨0⟩ "Talking" false,
            .showChoices ["No", "Yes"] ⟨0⟩, .setVariable ⟨0⟩ true]),
        (.ok .done,
          [.setParameter ⟨0⟩ "Talking" true, .showLine "Hi", .setParameter ⟨0⟩ "Talking" false,
            .showChoices ["No", "Yes"] ⟨0⟩, .setVariable ⟨0⟩ true, .play ⟨1⟩ "nod",
            .showLine "Bye"])] ∧
    ∀ s ∈ steps, s.outcome = .ok .done →
      s.world.ledger.calls = traceAll Company.bare .standard s.world.ledger 0 shortScene := by
  refine ⟨rfl, ?_⟩
  intro s hs hdone
  obtain ⟨-, -, haccounted⟩ := advances_ofScript_refines_trace Company.bare Presenter.bare
    .standard shortScene ⟨(), (), .empty, .empty, #[]⟩ [default, default]
  exact (haccounted s hs).2 hdone

end Promptbook
