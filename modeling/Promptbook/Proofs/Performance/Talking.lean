import Promptbook.Proofs.Performance.Remainder
import Promptbook.Proofs.Performance.Shadow

set_option autoImplicit false

/-!
# The talking parameter is balanced

While a line is open its actor has the talking parameter set, if it has that parameter at all.
Whatever the host and however a performance stops, the parameter is taken back as often as it was set,
except for a line that is still open.

`Host.minuted` keeps minutes of every note and of every parameter that is set.  Lines and stores are
all that sets parameters: a store notes what it stores right before, and every other call counts as
one of a line.  `Hushed` describes the minutes of a performance in which no line is open: lines of the
script from their opening to their closing, and between them stores of the script and notes.  Every
move keeps minutes of this form, or opens the one line after them.
-/

namespace Promptbook

open Script (Statement Cue Assignment)

variable {W κ : Type}

/-! ## Minutes -/

/-- One entry of the minutes of a performance. -/
inductive Minute (W : Type) where
  | noted (note : Note) (world : W)
  /-- A parameter is set; `cause` is the note right before, if there is one. -/
  | told (cause : Option Note) (actor : ActorId) (name : String) (value : Bool)

/-- A world and the minutes of how it came about. -/
structure Minuted (W : Type) where
  world : W
  minutes : List (Minute W)

/-- The note at the end of minutes. -/
def lastNote (minutes : List (Minute W)) : Option Note :=
  match minutes.getLast? with
  | some (.noted note _) => some note
  | _ => none

@[simp] theorem lastNote_append_noted (minutes : List (Minute W)) (note : Note) (w : W) :
    lastNote (minutes ++ [.noted note w]) = some note := by
  simp [lastNote]

/-- The host that does the same and keeps minutes of notes and parameters. -/
def Host.minuted (host : Host W κ) : Host (Minuted W) κ where
  step work frame m :=
    let s := host.step work frame m.world
    ⟨s.outcome, s.next, ⟨s.world, m.minutes⟩⟩
  hasParameter m := host.hasParameter m.world
  position m := host.position m.world
  setParameter actor name value m :=
    ⟨host.setParameter actor name value m.world,
      m.minutes ++ [.told (lastNote m.minutes) actor name value]⟩
  play actor animation m :=
    let (work, w) := host.play actor animation m.world
    (work, ⟨w, m.minutes⟩)
  showLine text position m :=
    let (bubble, w) := host.showLine text position m.world
    (bubble, ⟨w, m.minutes⟩)
  showChoices labels position slot m :=
    let (bubble, w) := host.showChoices labels position slot m.world
    (bubble, ⟨w, m.minutes⟩)
  openSlot m :=
    let (slot, w) := host.openSlot m.world
    (slot, ⟨w, m.minutes⟩)
  selected m := host.selected m.world
  setVariable id value m := ⟨host.setVariable id value m.world, m.minutes⟩
  record note m := ⟨host.record note m.world, m.minutes ++ [.noted note m.world]⟩

theorem Host.minuted_shadows (host : Host W κ) :
    host.minuted.Shadows host Minuted.world where
  step _ _ _ := rfl
  hasParameter _ _ _ := rfl
  position _ _ := rfl
  setParameter _ _ _ _ := rfl
  play _ _ _ := rfl
  showLine _ _ _ := rfl
  showChoices _ _ _ _ := rfl
  openSlot _ := rfl
  selected _ _ := rfl
  setVariable _ _ _ := rfl
  record _ _ := rfl

/-! ## Calls in minutes -/

/-- The call of a store, if the note is that of one that sets a parameter. -/
def Note.storeCall? : Note → Option (ActorId × String × Bool)
  | storing ⟨.parameter owner name, value⟩ => some (owner.actor, name, value)
  | _ => none

/-- The call that set a parameter, if it is not the one of the store that was noted right before. -/
def Minute.lineCall? : Minute W → Option (ActorId × String × Bool)
  | noted _ _ => none
  | told cause actor name value =>
    if cause.bind Note.storeCall? = some (actor, name, value) then none
    else some (actor, name, value)

/-- All calls that have set parameters but those of stores. -/
def lineCalls (minutes : List (Minute W)) : List (ActorId × String × Bool) :=
  minutes.filterMap Minute.lineCall?

/-! ## Stores and lines in minutes -/

/-- The entries of a store: when it sets a parameter, the call follows its note. -/
def Script.Assignment.minutes (assignment : Assignment) (w : W) : List (Minute W) :=
  match assignment.target with
  | .contextVariable _ _ => [.noted (.storing assignment) w]
  | .parameter owner name =>
    [.noted (.storing assignment) w,
      .told (some (.storing assignment)) owner.actor name assignment.value]

/-- The entry that the talking parameter is set, and the note before it. -/
def Delivery.talkingMinutes (d : Delivery) (value : Bool) (w : W) : List (Minute W) :=
  [.noted (.talking d.speaker d.talkingParameter value) w,
    .told (some (.talking d.speaker d.talkingParameter value)) d.speaker.actor d.talkingParameter
      value]

/-- The entries of a line that is opened: it starts in the world of the first. -/
inductive Delivery.Opens (host : Host W κ) (d : Delivery) : W → List (Minute W) → Prop where
  | silent {start : W} (position : Position)
      (h : host.hasParameter start d.speaker.actor d.talkingParameter = false) :
      Opens host d start [.noted (.showingLine d.text position) start]
  | talking {start : W} (position : Position) (set : W)
      (h : host.hasParameter start d.speaker.actor d.talkingParameter = true) :
      Opens host d start
        (d.talkingMinutes true start ++ [.noted (.showingLine d.text position) set])

/-- The entries of a line that is over, if it had started in that world. -/
def Delivery.closing (host : Host W κ) (d : Delivery) (start w : W) : List (Minute W) :=
  if host.hasParameter start d.speaker.actor d.talkingParameter then d.talkingMinutes false w
  else []

/-- Whether a line is one of a script. -/
def Delivery.OfScript (settings : Settings) (script : List Statement) (d : Delivery) : Prop :=
  ∃ speech, .dialogue speech ∈ Script.partsOf script ∧ speech.delivery settings = d

/-- Whether a note is neither about a line nor about a store. -/
def Note.Aside : Note → Prop
  | talking _ _ _ | showingLine _ _ | storing _ => False
  | _ => True

/-- Minutes in which every line is over.  Parameters are only set by lines and stores of the script. -/
inductive Hushed (host : Host W κ) (settings : Settings) (script : List Statement) :
    List (Minute W) → Prop where
  | nil : Hushed host settings script []
  | aside {minutes : List (Minute W)} {note : Note} {w : W} (h : Hushed host settings script minutes)
      (hnote : note.Aside) : Hushed host settings script (minutes ++ [.noted note w])
  | store {minutes : List (Minute W)} {assignment : Assignment} {w : W}
      (h : Hushed host settings script minutes)
      (hassignment : .store assignment ∈ Script.partsOf script) :
      Hushed host settings script (minutes ++ assignment.minutes w)
  | line {minutes opening : List (Minute W)} {d : Delivery} {start w : W}
      (h : Hushed host settings script minutes) (hd : d.OfScript settings script)
      (hopening : d.Opens host start opening) :
      Hushed host settings script (minutes ++ opening ++ d.closing host start w)

/-- Minutes in which every line is over but one, which started in that world. -/
def AmidLine (host : Host W κ) (settings : Settings) (script : List Statement) (d : Delivery)
    (start : W) (minutes : List (Minute W)) : Prop :=
  ∃ before opening, minutes = before ++ opening ∧ Hushed host settings script before ∧
    d.OfScript settings script ∧ d.Opens host start opening

/-- The calls of lines that are over: the parameter of each actor is set and taken back. -/
def pairedCalls (parameter : String) (actors : List ActorId) : List (ActorId × String × Bool) :=
  actors.flatMap fun actor => [(actor, parameter, true), (actor, parameter, false)]

/-- The call of a line that is open. -/
def unpairedCall (host : Host W κ) (d : Delivery) (start : W) : List (ActorId × String × Bool) :=
  if host.hasParameter start d.speaker.actor d.talkingParameter then
    [(d.speaker.actor, d.talkingParameter, true)]
  else []

section Calls

variable {host : Host W κ} {settings : Settings} {script : List Statement}
  {minutes opening : List (Minute W)} {d : Delivery} {start : W}

@[simp]
theorem lineCalls_append (minutes more : List (Minute W)) :
    lineCalls (minutes ++ more) = lineCalls minutes ++ lineCalls more :=
  List.filterMap_append

@[simp]
theorem lineCalls_noted (note : Note) (w : W) : lineCalls [.noted note w] = [] := rfl

@[simp]
theorem lineCalls_store (assignment : Assignment) (w : W) :
    lineCalls (assignment.minutes w) = [] := by
  obtain ⟨target, value⟩ := assignment
  cases target with
  | contextVariable name id => rfl
  | parameter owner name =>
    simp [Script.Assignment.minutes, lineCalls, Minute.lineCall?, Note.storeCall?]

@[simp]
theorem Delivery.lineCalls_talkingMinutes (d : Delivery) (value : Bool) (w : W) :
    lineCalls (d.talkingMinutes value w) = [(d.speaker.actor, d.talkingParameter, value)] := rfl

/-- Opening a line makes one call if its actor has the parameter at the start, and none otherwise. -/
theorem Delivery.Opens.lineCalls_eq (h : d.Opens host start opening) :
    lineCalls opening = unpairedCall host d start := by
  cases h with
  | silent position h => rw [unpairedCall, if_neg (by simp [h]), lineCalls_noted]
  | talking position set h =>
    rw [unpairedCall, if_pos h]
    simp

theorem Delivery.OfScript.talkingParameter_eq (h : d.OfScript settings script) :
    d.talkingParameter = settings.talkingParameter := by
  obtain ⟨speech, -, rfl⟩ := h
  rfl

theorem Hushed.exists_lineCalls_eq (h : Hushed host settings script minutes) :
    ∃ actors, lineCalls minutes = pairedCalls settings.talkingParameter actors := by
  induction h with
  | nil => exact ⟨[], rfl⟩
  | aside _ _ ih =>
    obtain ⟨actors, hactors⟩ := ih
    exact ⟨actors, by simp [hactors]⟩
  | store _ _ ih =>
    obtain ⟨actors, hactors⟩ := ih
    exact ⟨actors, by simp [hactors]⟩
  | @line minutes opening d start w _ hd hopening ih =>
    obtain ⟨actors, hactors⟩ := ih
    rw [lineCalls_append, lineCalls_append, hactors, hopening.lineCalls_eq, unpairedCall,
      Delivery.closing]
    split
    · refine ⟨actors ++ [d.speaker.actor], ?_⟩
      rw [d.lineCalls_talkingMinutes, hd.talkingParameter_eq, pairedCalls, pairedCalls,
        List.flatMap_append, List.append_assoc]
      rfl
    · exact ⟨actors, by simp [lineCalls]⟩

theorem AmidLine.exists_lineCalls_eq (h : AmidLine host settings script d start minutes) :
    ∃ actors, lineCalls minutes =
      pairedCalls settings.talkingParameter actors ++ unpairedCall host d start := by
  obtain ⟨before, opening, rfl, hbefore, -, hopening⟩ := h
  obtain ⟨actors, hactors⟩ := hbefore.exists_lineCalls_eq
  exact ⟨actors, by rw [lineCalls_append, hactors, hopening.lineCalls_eq]⟩

end Calls

/-! ## Open lines -/

namespace Action

mutual

/-- The lines that are open in an action, with their bubbles. -/
def openLines : Action W κ → List (Delivery × κ)
  | .sequence children => openLinesOf children
  | .parallel children => openLinesOf children
  | .speaking d _ bubble => [(d, bubble)]
  | .prompt _ branches => openLinesOf branches
  | .choosing _ _ _ branches => openLinesOf branches
  | .following branch => openLines branch
  | .machine _ | .wait _ | .waitUntil _ | .effect _ | .finished | .deferred _ _ | .speak _ => []

/-- The lines that are open in actions. -/
def openLinesOf : List (Action W κ) → List (Delivery × κ)
  | [] => []
  | a :: rest => openLines a ++ openLinesOf rest

end

theorem openLinesOf_eq_flatMap (actions : List (Action W κ)) :
    openLinesOf actions = actions.flatMap openLines := by
  induction actions with
  | nil => rfl
  | cons a rest ih => rw [openLinesOf, ih, List.flatMap_cons]

theorem openLines_ofStatement (host : Host W κ) (settings : Settings) (s : Statement) :
    (ofStatement host settings s).openLines = [] := by
  induction s using Script.Statement.induction with
  | dialogue speech => rfl
  | animation cues =>
    rw [ofStatement, openLines, openLinesOf_eq_flatMap, List.flatMap_map]
    exact List.flatMap_eq_nil_iff.mpr fun cue _ => rfl
  | store assignment => rfl
  | choice asker branches origin ih =>
    rw [ofStatement, openLines, openLinesOf_eq_flatMap, ofBranches_eq_map, List.flatMap_map]
    refine List.flatMap_eq_nil_iff.mpr fun b hb => ?_
    rw [ofScript, openLines, openLinesOf_eq_flatMap, ofStatements_eq_map, List.flatMap_map]
    exact List.flatMap_eq_nil_iff.mpr (ih b hb)

theorem openLinesOf_ofStatements (host : Host W κ) (settings : Settings)
    (script : List Statement) : openLinesOf (ofStatements host settings script) = [] := by
  rw [openLinesOf_eq_flatMap, ofStatements_eq_map, List.flatMap_map]
  exact List.flatMap_eq_nil_iff.mpr fun s _ => openLines_ofStatement host settings s

end Action

/-- The line that is open at a spot. -/
def Spot.openLines : Spot κ → List (Delivery × κ)
  | ⟨some (.speaking d _ bubble), _⟩ => [(d, bubble)]
  | _ => []

theorem Spot.openLines_append (spot : Spot κ) (more : List Statement) :
    (spot.append more).openLines = spot.openLines := by
  obtain ⟨now, later⟩ := spot
  cases now with
  | none => rfl
  | some business => cases business <;> rfl

theorem Stands.openLines_eq {host : Host W κ} {settings : Settings} {children : List (Action W κ)}
    {spot : Spot κ} (h : Stands host settings children spot) :
    Action.openLinesOf children = spot.openLines := by
  induction h with
  | script later => exact Action.openLinesOf_ofStatements host settings later
  | busy business later =>
    rw [Action.openLinesOf, Action.openLinesOf_ofStatements, List.append_nil]
    cases business with
    | speaking d talking bubble => rfl
    | playing parts =>
      rw [Business.action, Action.openLines, Action.openLinesOf_eq_flatMap, List.flatMap_map]
      exact List.flatMap_eq_nil_iff.mpr fun part _ => by cases part <;> rfl
    | stored => rfl
    | choosing q slot bubble branches =>
      rw [Business.action, Action.openLines, Action.openLinesOf_eq_flatMap,
        Action.ofBranches_eq_map, List.flatMap_map]
      refine List.flatMap_eq_nil_iff.mpr fun b _ => ?_
      rw [Action.ofScript, Action.openLines]
      exact Action.openLinesOf_ofStatements host settings b.2
  | inside _ later ih =>
    rw [Action.openLinesOf, Action.openLinesOf_ofStatements, List.append_nil, Action.openLines,
      Action.openLines, ih, Spot.openLines_append]

/-! ## Moves -/

/-- The minutes at a spot: every line is over, except for one that is open there. -/
def Spot.Balanced (host : Host W κ) (settings : Settings) (script : List Statement) (spot : Spot κ)
    (m : Minuted W) : Prop :=
  match spot.now with
  | some (.speaking d talking _) => ∃ start, AmidLine host settings script d start m.minutes ∧
      talking = host.hasParameter start d.speaker.actor d.talkingParameter
  | _ => Hushed host settings script m.minutes

section Moves

variable {host : Host W κ} {settings : Settings} {script : List Statement} {frame : Frame}
  {spot spot' : Spot κ} {m m' : Minuted W}

theorem Hushed.storing (h : Hushed host settings script m.minutes) {assignment : Assignment}
    (hassignment : .store assignment ∈ Script.partsOf script) :
    Hushed host settings script (host.minuted.storing assignment m).minutes := by
  have hminutes : (host.minuted.storing assignment m).minutes =
      m.minutes ++ assignment.minutes m.world := by
    rw [Host.storing, Script.Assignment.minutes]
    cases assignment.target <;> simp [Host.minuted]
  rw [hminutes]
  exact h.store hassignment

/-- A line sets the talking parameter right after it noted that it will. -/
theorem minutes_talking (d : Delivery) (value : Bool) (m : Minuted W) :
    (host.minuted.setParameter d.speaker.actor d.talkingParameter value
      (host.minuted.record (.talking d.speaker d.talkingParameter value) m)).minutes =
      m.minutes ++ d.talkingMinutes value m.world := by
  simp [Host.minuted, Delivery.talkingMinutes]

/-- A line that is opened sets the talking parameter exactly if its actor has it at the start. -/
theorem Hushed.openLine (h : Hushed host settings script m.minutes) {d : Delivery} {talking : Bool}
    {bubble : κ} (hd : d.OfScript settings script)
    (hopen : Action.openLine host.minuted d m = (talking, bubble, m')) :
    AmidLine host settings script d m.world m'.minutes ∧
      talking = host.hasParameter m.world d.speaker.actor d.talkingParameter := by
  unfold Action.openLine at hopen
  dsimp only at hopen
  cases htalking : host.hasParameter m.world d.speaker.actor d.talkingParameter with
  | false =>
    have hminuted : host.minuted.hasParameter m d.speaker.actor d.talkingParameter = false :=
      htalking
    simp only [hminuted, Bool.false_eq_true, if_false, Prod.mk.injEq] at hopen
    obtain ⟨rfl, -, rfl⟩ := hopen
    exact ⟨⟨m.minutes, _, rfl, h, hd, .silent _ htalking⟩, rfl⟩
  | true =>
    have hminuted : host.minuted.hasParameter m d.speaker.actor d.talkingParameter = true :=
      htalking
    simp only [hminuted, if_true, Prod.mk.injEq] at hopen
    obtain ⟨rfl, -, rfl⟩ := hopen
    let set := host.minuted.setParameter d.speaker.actor d.talkingParameter true
      (host.minuted.record (.talking d.speaker d.talkingParameter true) m)
    let position := (host.position set.world d.speaker.actor).raised d.bubbleHeight
    refine ⟨⟨m.minutes, _, ?_, h, hd, .talking position set.world htalking⟩, rfl⟩
    rw [← List.append_assoc, ← minutes_talking]
    rfl

/-- A line that is over takes the parameter back exactly if it had set it. -/
theorem AmidLine.hushing {d : Delivery} {start : W}
    (h : AmidLine host settings script d start m.minutes) :
    Hushed host settings script
      (host.minuted.hushing d (host.hasParameter start d.speaker.actor d.talkingParameter)
        m).minutes := by
  obtain ⟨before, opening, hminutes, hbefore, hd, hopening⟩ := h
  have hline := hbefore.line (w := m.world) hd hopening
  rw [← hminutes, Delivery.closing] at hline
  unfold Host.hushing
  split
  · next htalking =>
    rw [if_pos htalking] at hline
    rwa [minutes_talking]
  · next hsilent =>
    rwa [if_neg hsilent, List.append_nil] at hline

/-- Animations set no parameters. -/
theorem Hushed.stepParts (h : Hushed host settings script m.minutes) (frame : Frame)
    (parts : List (κ ⊕ Cue)) :
    Hushed host settings script (host.minuted.stepParts frame parts m).world.minutes := by
  refine (Host.stepParts_keeps (I := fun m : Minuted W => Hushed host settings script m.minutes)
    (P := fun _ => True) ?_ (fun _ _ _ hm => ⟨trivial, hm⟩) (fun _ _ => trivial) h).2
  intro cue _ m hm
  exact ⟨_, _, rfl, trivial, Hushed.aside hm trivial⟩

theorem Spot.Balanced.move (hall : spot.All (· ∈ Script.partsOf script))
    (h : Move host.minuted settings frame spot m spot' m')
    (hm : spot.Balanced host settings script m) : spot'.Balanced host settings script m' := by
  cases h with
  | @speak speech later _ _ _ _ h =>
    have hspeech := hall.next.1 _ (Statement.self_mem_parts (.dialogue speech))
    exact ⟨m.world, hm.openLine ⟨speech, hspeech, rfl⟩ h⟩
  | said h =>
    obtain ⟨start, hopen, rfl⟩ := hm
    obtain ⟨-, -, rfl⟩ := Step.mk.inj h
    exact AmidLine.hushing hopen
  | play => exact hm
  | played _ => exact hm.stepParts frame _
  | stored => exact hm
  | ask h =>
    simp only [Action.openChoices, Prod.mk.injEq] at h
    obtain ⟨-, -, rfl⟩ := h
    exact Hushed.aside hm trivial
  | chose h _ _ =>
    obtain ⟨-, -, rfl⟩ := Step.mk.inj h
    exact Hushed.aside hm trivial

theorem Spot.Balanced.halt {outcome : Outcome} (hall : spot.All (· ∈ Script.partsOf script))
    (h : Halt host.minuted frame spot m outcome spot' m')
    (hm : spot.Balanced host settings script m) : spot'.Balanced host settings script m' := by
  cases h with
  | finished => exact hm
  | store => exact hm.storing (hall.next.1 _ (Statement.self_mem_parts _))
  | speaking h _ =>
    obtain ⟨-, -, rfl⟩ := Step.mk.inj h
    exact hm
  | playing _ => exact hm.stepParts frame _
  | choosing h _ =>
    obtain ⟨-, -, rfl⟩ := Step.mk.inj h
    exact hm
  | unselected h _ =>
    obtain ⟨-, -, rfl⟩ := Step.mk.inj h
    exact hm
  | invalid h _ _ =>
    obtain ⟨-, -, rfl⟩ := Step.mk.inj h
    exact Hushed.aside hm trivial

/-! ## Frame after frame -/

/-- At a spot either no line is open and all lines are over, or one line is open and all others are
over. -/
theorem Spot.Balanced.cases (hm : spot.Balanced host settings script m) :
    (spot.openLines = [] ∧ Hushed host settings script m.minutes) ∨
      ∃ d bubble start, spot.openLines = [(d, bubble)] ∧
        AmidLine host settings script d start m.minutes := by
  obtain ⟨now, later⟩ := spot
  cases now with
  | none => exact .inl ⟨rfl, hm⟩
  | some business =>
    cases business with
    | speaking d talking bubble =>
      obtain ⟨start, hamid, -⟩ := hm
      exact .inr ⟨d, bubble, start, rfl, hamid⟩
    | playing parts => exact .inl ⟨rfl, hm⟩
    | stored => exact .inl ⟨rfl, hm⟩
    | choosing q slot bubble branches => exact .inl ⟨rfl, hm⟩

/-- A performance that stops at an open line stops there because the bubble of the line fails. -/
theorem Halt.of_speaking {last : Spot κ} {v : W} {w : W} {outcome : Outcome} {d : Delivery}
    {next : κ} (h : Halt host frame spot v outcome last w) (hopen : last.openLines = [(d, next)]) :
    outcome ≠ .ok .done ∧ ∃ bubble, host.step bubble frame v = ⟨outcome, next, w⟩ := by
  cases h with
  | speaking h hne =>
    obtain ⟨-, rfl⟩ := Prod.mk.inj (List.singleton_inj.mp hopen)
    exact ⟨hne, _, h⟩
  | _ => simp [Spot.openLines] at hopen

end Moves

/-- The talking parameter is balanced throughout a performance, whatever the host does and however the
performance stops.  Parameters are only set by stores and lines of the script.  After every frame
either no line is open and the calls that are not those of stores are pairs, or one line is open and
they are pairs followed by its own call, which is there exactly if its actor had the parameter when the
line started.  A line can only be open in the end if the performance is not done, and when it has failed
then because of the bubble of that line.  Keeping minutes changes nothing. -/
theorem advances_ofScript_talking_balanced (host : Host W κ) (settings : Settings)
    (script : List Statement) (w : W) (frames : List Frame) :
    let plain := Action.advances host frames (.ofScript host settings script) w
    let minuted := Action.advances host.minuted frames (.ofScript host.minuted settings script)
      ⟨w, []⟩
    (minuted.map fun s => (s.outcome, s.next.openLines, s.world.world)) =
      (plain.map fun t => (t.outcome, t.next.openLines, t.world)) ∧
    ∀ s ∈ minuted,
      (s.next.openLines = [] ∧ Hushed host settings script s.world.minutes ∧
        ∃ actors, lineCalls s.world.minutes = pairedCalls settings.talkingParameter actors) ∨
      ∃ d bubble start, s.next.openLines = [(d, bubble)] ∧
        AmidLine host settings script d start s.world.minutes ∧
        (∃ actors, lineCalls s.world.minutes =
          pairedCalls settings.talkingParameter actors ++ unpairedCall host d start) ∧
        s.outcome ≠ .ok .done ∧
        ∀ fault, s.outcome = .error fault → ∃ frame ∈ frames, ∃ before v,
          host.minuted.step before frame v = ⟨.error fault, bubble, s.world⟩ := by
  have hstands : Stands host.minuted settings (Action.ofStatements host.minuted settings script)
      ⟨none, script⟩ := .script script
  constructor
  · have hsame := host.minuted_shadows.advances hstands (.script script) frames ⟨w, []⟩
    rw [← List.forall₂_eq_eq_eq, List.forall₂_map_left_iff, List.forall₂_map_right_iff]
    refine hsame.imp fun s t hst => ?_
    obtain ⟨houtcome, hworld, watching, watched, spot, hs, ht, hwatching, hwatched⟩ := hst
    rw [houtcome, hworld, hs, ht, Action.openLines, Action.openLines, hwatching.openLines_eq,
      hwatched.openLines_eq]
  · intro s hs
    have hstart : (⟨none, script⟩ : Spot κ).Balanced host settings script ⟨w, []⟩ := Hushed.nil
    obtain ⟨frame, hframe, mid, v, children, last, hmid, hhalt, hnext, hlast⟩ :=
      hstands.forall_advances
        (J := fun spot m =>
          spot.All (· ∈ Script.partsOf script) ∧ spot.Balanced host settings script m)
        (fun hmove hm => ⟨hm.1.move hmove, hm.2.move hm.1 hmove⟩)
        (fun hhalt hm => ⟨hm.1.halt hhalt, hm.2.halt hm.1 hhalt⟩)
        ⟨.script fun _ ht => ht, hstart⟩ frames s hs
    rw [hnext, Action.openLines, hlast.openLines_eq]
    have hbalanced : last.Balanced host settings script s.world := hmid.2.halt hmid.1 hhalt
    rcases hbalanced.cases with ⟨hnone, hhushed⟩ | ⟨d, bubble, start, hopen, hamid⟩
    · exact .inl ⟨hnone, hhushed, hhushed.exists_lineCalls_eq⟩
    · obtain ⟨hne, before, hstep⟩ := hhalt.of_speaking hopen
      refine .inr ⟨d, bubble, start, hopen, hamid, hamid.exists_lineCalls_eq, hne, ?_⟩
      intro fault hfault
      exact ⟨frame, hframe, before, v, hfault ▸ hstep⟩

end Promptbook
