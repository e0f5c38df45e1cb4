import Mathlib.Data.List.MinMax
import Mathlib.Order.Nat
import Promptbook.Proofs.Performance.Pacing
import Promptbook.Proofs.Performance.Recording
import Promptbook.Proofs.Performance.Soundness
import Promptbook.Proofs.Script.Citation

set_option autoImplicit false

/-!
# When a performance is over

If the bubbles have no delays and the player submits in every frame, a performance follows the first
branch of every choice and is over with the frame that its script tells: `Spot.Ends` says in how many
frames that is from where it stands.  A move does not change the number, and a halt takes one frame
off, so no performance can get stuck.
-/

namespace Promptbook

open Bubble (Delays Transcript OpenBubble LineBubble ChoiceBubble)
open Script (Statement Cue Assignment)

/-! ## First branches -/

mutual

/-- What is recorded of a statement if the first branch of every choice is followed. -/
def Script.Statement.firstPath : Statement → List Record
  | .dialogue speech => [.line speech.text]
  | .animation _ => []
  | .store _ => []
  | .choice _ branches _ => .choice (Script.labelsOf branches) 0 :: firstPathOfFirst branches

/-- What is recorded of a script if the first branch of every choice is followed. -/
def firstPathOf : List Statement → List Record
  | [] => []
  | s :: rest => s.firstPath ++ firstPathOf rest

/-- What is recorded of the first branch. -/
def firstPathOfFirst : List (String × List Statement) → List Record
  | [] => []
  | (_, script) :: _ => firstPathOf script

end

/-- In all of these records the first label was submitted. -/
def FirstOnly (path : List Record) : Prop :=
  ∀ labels index, .choice labels index ∈ path → index = 0

theorem firstOnly_append {p q : List Record} : FirstOnly (p ++ q) ↔ FirstOnly p ∧ FirstOnly q := by
  constructor
  · exact fun h => ⟨fun labels index hp => h labels index (List.mem_append_left _ hp),
      fun labels index hq => h labels index (List.mem_append_right _ hq)⟩
  · rintro ⟨hp, hq⟩ labels index h
    exact (List.mem_append.mp h).elim (hp labels index) (hq labels index)

/-- Only one path follows the first branch of every choice. -/
theorem IsPath.eq_firstPath {script : List Statement} {path : List Record}
    (h : IsPath script path) (hfirst : FirstOnly path) : path = firstPathOf script := by
  induction h with
  | nil => rfl
  | dialogue _ ih =>
    exact congrArg (List.cons _) (ih fun labels index hin => hfirst labels index (.tail _ hin))
  | animation _ ih => exact ih hfirst
  | store _ ih => exact ih hfirst
  | @choice asker branches origin index branch rest inside path hbranch hinside h ihinside ih =>
    obtain rfl := hfirst _ _ List.mem_cons_self
    obtain ⟨hin, hpath⟩ :=
      firstOnly_append.mp fun labels index hin => hfirst labels index (.tail _ hin)
    cases branches with
    | nil => simp at hbranch
    | cons b others =>
      obtain rfl : b = branch := by simpa using hbranch
      rw [ihinside hin, ih hpath]
      rfl

/-- Actors stay fit, and of every choice that is recorded the first label was submitted. -/
structure Onward {A : Type} (fit : A → Prop) (w after : World A Transcript) : Prop where
  fit : fit after.actors
  entered : ∃ added, after.bubbles.entries = w.bubbles.entries ++ added ∧
    FirstOnly (added.map (·.record))

section Onwards

variable {A : Type} {fit : A → Prop} {w v u : World A Transcript}

theorem Onward.ofEntries (hfit : fit v.actors) (h : v.bubbles.entries = w.bubbles.entries) :
    Onward fit w v := ⟨hfit, [], by rw [h, List.append_nil], fun _ _ hin => by simp at hin⟩

theorem Onward.ofSame (hfit : fit v.actors) (h : w.SameBubbles v) : Onward fit w v :=
  .ofEntries hfit (congrArg Transcript.entries h.bubbles)

theorem Onward.trans (h : Onward fit w v) (h' : Onward fit v u) : Onward fit w u := by
  obtain ⟨-, first, hfirst, honly⟩ := h
  obtain ⟨hfit, second, hsecond, honly'⟩ := h'
  refine ⟨hfit, first ++ second, by rw [hsecond, hfirst, List.append_assoc], ?_⟩
  rw [List.map_append]
  exact firstOnly_append.mpr ⟨honly, honly'⟩

/-- What a line enters is no choice. -/
theorem Onward.ofTurn {frame : Frame} {b b' : LineBubble} {outcome : Outcome} {t : Transcript}
    (hturn : b.Turn frame w.bubbles ⟨outcome, b', t⟩) (hfit : fit w.actors) :
    Onward fit w { w with bubbles := t } := by
  obtain ⟨added, hentries, hdue⟩ := hturn.exists_entered
  refine ⟨hfit, added, hentries, fun labels index hin => ?_⟩
  have hline : ∀ e ∈ b.due, e.record = .line b.text := by
    unfold LineBubble.due
    split <;> simp [Bubble.Entry.record]
  obtain ⟨e, he, hrecord⟩ := List.mem_map.mp hin
  rw [hline e (hdue ▸ List.mem_append_left _ he)] at hrecord
  simp at hrecord

end Onwards

/-! ## Where a performance ends -/

/-- The delays of the bubbles of these settings. -/
def Settings.delays (settings : Settings) : Delays := ⟨settings.openDelay, settings.revealDelay⟩

/-- An animation statement has cues, and each of them takes as long as that. -/
def Script.Statement.Timed {A α : Type} (company : Company A α) (fit : A → Prop)
    (lasting : Cue → Nat) : Statement → Prop
  | .animation cues => cues ≠ [] ∧ ∀ cue ∈ cues, company.Takes fit (lasting cue) cue
  | .dialogue _ | .store _ | .choice _ _ _ => True

section Spots

variable {A α : Type} (company : Company A α) (fit : A → Prop) (lasting : Cue → Nat)

/-- All animation statements of a script are timed. -/
def AllTimed (script : List Statement) : Prop :=
  ∀ t ∈ Script.partsOf script, t.Timed company fit lasting

/-- A performance that stands here is over with exactly that frame. -/
inductive Spot.Ends : Nat → Spot (α ⊕ OpenBubble) → Prop where
  | script {later : List Statement} (hlater : AllTimed company fit lasting later) :
      Ends (ticksOf lasting later) ⟨none, later⟩
  | speaking {n : Nat} {d : Delivery} {talking : Bool} {b : LineBubble} {later : List Statement}
      (hb : b.Ahead (n + 1)) (hlater : AllTimed company fit lasting later) :
      Ends (n + ticksOf lasting later) ⟨some (.speaking d talking (.inr (.line b))), later⟩
  | playing {n : Nat} {parts : List ((α ⊕ OpenBubble) ⊕ Cue)} {later : List Statement}
      (hall : ∀ part ∈ parts, ∃ r ≤ n + 1,
        PartLasts (company.withTranscript Settings.instant.delays) (fun w => fit w.actors) r part)
      (hlast : ∃ part ∈ parts,
        PartLasts (company.withTranscript Settings.instant.delays) (fun w => fit w.actors) (n + 1)
          part)
      (hlater : AllTimed company fit lasting later) :
      Ends (n + ticksOf lasting later) ⟨some (.playing parts), later⟩
  | stored {later : List Statement} (hlater : AllTimed company fit lasting later) :
      Ends (ticksOf lasting later) ⟨some .stored, later⟩
  | choosing {n : Nat} {q : Question} {slot : Slot} {b : ChoiceBubble}
      {branch : String × List Statement} {others : List (String × List Statement)}
      {later : List Statement} (hb : b.Ahead (n + 1))
      (hlater : AllTimed company fit lasting (branch.2 ++ later)) :
      Ends (n + ticksOf lasting (branch.2 ++ later))
        ⟨some (.choosing q slot (.inr (.choice b)) (branch :: others)), later⟩

end Spots

section Ending

variable {A α : Type} {company : Company A α} {fit : A → Prop} {lasting : Cue → Nat}

theorem allTimed_append {first second : List Statement} :
    AllTimed company fit lasting (first ++ second) ↔
      AllTimed company fit lasting first ∧ AllTimed company fit lasting second := by
  simp only [AllTimed, Script.partsOf_append, List.forall_mem_append]

theorem AllTimed.head {s : Statement} {rest : List Statement}
    (h : AllTimed company fit lasting (s :: rest)) : ∀ t ∈ s.parts, t.Timed company fit lasting :=
  fun t ht => h t (Script.mem_partsOf.mpr ⟨s, List.mem_cons_self, ht⟩)

theorem AllTimed.tail {s : Statement} {rest : List Statement}
    (h : AllTimed company fit lasting (s :: rest)) : AllTimed company fit lasting rest :=
  (allTimed_append.mp (show AllTimed company fit lasting ([s] ++ rest) from h)).2

/-! ## Moves and halts -/

section Frames

variable {stage : Stage} {settings : Settings} {frame : Frame} {k : Nat}
  {spot spot' : Spot (α ⊕ OpenBubble)} {w w' : World A Transcript}

theorem holds_of_done {p : Prop} [Decidable p] {outcome : Outcome}
    (h : outcome = .ok (if p then .done else .running)) (hdone : outcome = .ok .done) : p := by
  by_contra hne
  rw [if_neg hne, hdone] at h
  simp at h

theorem exists_of_ne_done {n : Nat} {outcome : Outcome}
    (h : outcome = .ok (if n = 0 then .done else .running)) (hne : outcome ≠ .ok .done) :
    ∃ m, n = m + 1 ∧ outcome = .ok .running := by
  cases n with
  | zero => exact absurd h hne
  | succ m => exact ⟨m, rfl, h⟩

variable (lasting) in
/-- The longest cue of an animation statement tells with which frame this is done. -/
theorem exists_longest {cues : List Cue} (hne : cues ≠ []) :
    (∀ cue ∈ cues, lasting cue ≤ (Statement.animation cues).ticks lasting) ∧
      ∃ cue ∈ cues, lasting cue = (Statement.animation cues).ticks lasting := by
  rw [Statement.ticks]
  have hlongest := List.maximum_mem (List.foldr_max_of_ne_nil (l := cues.map lasting)
    (by simpa using hne)).symm
  refine ⟨fun cue hcue => ?_, List.mem_map.mp hlongest⟩
  exact List.le_max_of_le (List.mem_map_of_mem hcue) (Nat.le_refl _)

/-- Within a frame the end stays where it is. -/
theorem Spot.Ends.move
    (hset : ∀ actor name value a, fit a → fit (company.setParameter actor name value a).1)
    (hmove : Move (company.withTranscript Settings.instant.delays) settings frame spot w spot' w')
    (hsubmit : frame.input.submit = true) (hready : spot.Ready stage w.slots)
    (hfit : fit w.actors) (h : spot.Ends company fit lasting k) :
    spot'.Ends company fit lasting k ∧ Onward fit w w' := by
  cases hmove with
  | speak hopen =>
    obtain ⟨position, rfl, hsame⟩ := Action.openLine_withTranscript hopen
    cases h with
    | script hlater =>
      exact ⟨.speaking (.opening rfl rfl) hlater.tail, .ofSame (fit_openLine hset hopen hfit) hsame⟩
  | @said d talking bubble next later w after hstep =>
    obtain ⟨b, b', t, rfl, -, -, rfl, hturn⟩ := (hready.now _ rfl).line hstep
    cases h with
    | @speaking n _ _ _ _ hb hlater =>
      obtain ⟨houtcome, -⟩ := hb.advance hsubmit w.bubbles
      obtain rfl := holds_of_done houtcome (congrArg Step.outcome hstep)
      rw [Nat.zero_add]
      have hsame :=
        World.SameBubbles.hushing company Settings.instant.delays d talking { w with bubbles := t }
      exact ⟨.script hlater,
        (Onward.ofTurn hturn hfit).trans (.ofSame (fit_hushing hset d talking hfit) hsame)⟩
  | @play cues later w =>
    cases h with
    | script hlater =>
      obtain ⟨hne, htakes⟩ := hlater.head _ (Statement.self_mem_parts _)
      obtain ⟨hless, longest, hmem, hticks⟩ := exists_longest lasting hne
      have hparts (cue : Cue) (hcue : cue ∈ cues) :=
        partLasts_cue Settings.instant.delays (htakes cue hcue)
      have hlongest := hparts longest hmem
      rw [hticks] at hlongest
      have hticks := Nat.sub_add_cancel (hlongest.pos hfit)
      refine ⟨.playing ?_ ?_ hlater.tail, .ofEntries hfit rfl⟩
      · rw [List.forall_mem_map, hticks]
        exact fun cue hcue => ⟨_, hless cue hcue, hparts cue hcue⟩
      · rw [hticks]
        exact ⟨_, List.mem_map_of_mem hmem, hlongest⟩
  | @played parts later w hdone =>
    cases h with
    | @playing n _ _ hall hlast hlater =>
      obtain ⟨houtcome, hafter, -, hmost⟩ := lasts_stepParts hsubmit hall hfit
      have hnext := holds_of_done houtcome hdone
      cases hready.now _ rfl with
      | playing hparts =>
      obtain rfl : n = 0 := by
        cases n with
        | zero => rfl
        | succ m =>
          obtain ⟨part, hpart, -⟩ := hmost m hlast
          simp [hnext] at hpart
      rw [Nat.zero_add]
      exact ⟨.script hlater, .ofSame hafter (hparts.stepParts frame w).2⟩
  | stored =>
    cases h with
    | stored hlater => exact ⟨.script hlater, .ofEntries hfit rfl⟩
  | @ask asker branches origin later slot bubble w after hopen =>
    obtain ⟨⟨position, rfl⟩, hbubbles, -⟩ := Action.openChoices_withTranscript hopen
    obtain ⟨hne, -⟩ := hready.later.choice
    obtain ⟨branch, others, rfl⟩ := List.exists_cons_of_ne_nil hne
    cases h with
    | script hlater =>
      have hbranch := Statement.forall_partsOf_branch hlater.head branch List.mem_cons_self
      have hticks := ticksOf_append lasting branch.2 later
      have hk : ticksOf lasting (.choice asker (branch :: others) origin :: later) =
          2 + ticksOf lasting (branch.2 ++ later) := by
        rw [ticksOf, Statement.ticks, ticksOfFirst]
        omega
      rw [hk]
      exact ⟨.choosing (.opening rfl rfl rfl) (allTimed_append.mpr ⟨hbranch, hlater.tail⟩),
        .ofEntries (actors_openChoices hopen ▸ hfit) (congrArg Transcript.entries hbubbles)⟩
  | @chose q slot bubble next branches branch later index w after hstep hselected hbranch =>
    obtain ⟨b, -, rfl, -, -, hafter, -, hsome, -⟩ := (hready.now _ rfl).chosen hstep
    obtain rfl := Option.some.inj (hselected.symm.trans hsome)
    cases hready.now _ rfl with
    | choosing _ _ hrange _ _ _ =>
      cases h with
      | @choosing n _ _ _ first others _ hb hlater =>
        have hfirst := hb.highlighted_eq
        obtain rfl : branch = first := by simpa [hfirst] using hbranch.symm
        obtain ⟨houtcome, -⟩ := hb.advance hrange hsubmit (w.bubbles, w.selections)
        obtain rfl := holds_of_done houtcome (congrArg Step.outcome hstep)
        rw [Nat.zero_add]
        refine ⟨.script hlater, actors_of_step_bubble hstep ▸ hfit,
          [.choice q.labels b.highlighted b.position], congrArg Transcript.entries hafter, ?_⟩
        intro labels index hin
        simp [Bubble.Entry.record, hfirst] at hin
        exact hin.2

/-- A frame comes to that: it is the last one, or it takes one off. -/
def Spot.EndsNext (company : Company A α) (fit : A → Prop) (lasting : Cue → Nat) (k : Nat)
    (outcome : Outcome) (spot : Spot (α ⊕ OpenBubble)) : Prop :=
  ∃ n, k = n + 1 ∧ outcome = .ok (if n = 0 then .done else .running) ∧
    (n ≠ 0 → spot.Ends company fit lasting n)

/-- Something in progress has one frame less before it, and something comes later. -/
theorem Spot.EndsNext.running {n rest : Nat} {outcome : Outcome} (hrest : 0 < rest)
    (hrunning : outcome = .ok .running) (h : spot.Ends company fit lasting (n + rest)) :
    spot.EndsNext company fit lasting (n + 1 + rest) outcome :=
  ⟨n + rest, Nat.add_right_comm n 1 rest, by rw [hrunning, if_neg (by omega)], fun _ => h⟩

/-- The frame in which nothing is left is the last, and any other takes one off. -/
theorem Spot.Ends.halt {outcome : Outcome}
    (hset : ∀ actor name value a, fit a → fit (company.setParameter actor name value a).1)
    (hhalt : Halt (company.withTranscript Settings.instant.delays) frame spot w outcome spot' w')
    (hsubmit : frame.input.submit = true) (hready : spot.Ready stage w.slots)
    (hfit : fit w.actors) (h : spot.Ends company fit lasting k) :
    spot'.EndsNext company fit lasting k outcome ∧ Onward fit w w' := by
  cases hhalt with
  | finished =>
    cases h with
    | script => exact ⟨⟨0, rfl, rfl, fun hne => absurd rfl hne⟩, .ofEntries hfit rfl⟩
  | @store assignment later w =>
    cases h with
    | script hlater =>
      have hends : Spot.Ends company fit lasting (0 + ticksOf lasting later)
          ⟨some .stored, later⟩ := by
        rw [Nat.zero_add]
        exact .stored hlater.tail
      exact ⟨.running (ticksOf_pos lasting later) rfl hends,
        .ofSame (fit_storing hset assignment hfit) (.storing _ _ _ _)⟩
  | @speaking d talking bubble next later outcome w after hstep hne =>
    obtain ⟨b, b', t, rfl, -, rfl, rfl, hturn⟩ := (hready.now _ rfl).line hstep
    cases h with
    | speaking hb hlater =>
      obtain ⟨houtcome, hnext⟩ := hb.advance hsubmit w.bubbles
      obtain rfl : _ = outcome := congrArg Step.outcome hstep
      obtain ⟨n, rfl, hrunning⟩ := exists_of_ne_done houtcome hne
      obtain rfl : (b.advance frame w.bubbles).next = b' :=
        OpenBubble.line.inj (Sum.inr.inj (congrArg Step.next hstep))
      exact ⟨.running (ticksOf_pos lasting later) hrunning
        (.speaking (hnext (Nat.succ_ne_zero n)) hlater), .ofTurn hturn hfit⟩
  | @playing parts later w hne =>
    cases h with
    | playing hall hlast hlater =>
      obtain ⟨houtcome, hafter, hless, hmost⟩ := lasts_stepParts hsubmit hall hfit
      obtain ⟨part, hpart⟩ := List.exists_mem_of_ne_nil _ fun hnil => by
        rw [if_pos hnil] at houtcome
        exact hne houtcome
      rw [if_neg (List.ne_nil_of_mem hpart)] at houtcome
      obtain ⟨r, hr, hlasts⟩ := hless part hpart
      obtain ⟨n, rfl⟩ := Nat.exists_eq_succ_of_ne_zero
        (Nat.lt_of_lt_of_le (hlasts.pos hafter) hr).ne'
      cases hready.now _ rfl with
      | playing hparts =>
        exact ⟨.running (ticksOf_pos lasting later) houtcome (.playing hless (hmost n hlast) hlater),
          .ofSame hafter (hparts.stepParts frame w).2⟩
  | @choosing q slot bubble next branches later outcome w after hstep hne =>
    obtain ⟨b, b', t, rfl, -, hrange, rfl, rfl, hturn, -⟩ := (hready.now _ rfl).choice hstep hne
    cases h with
    | @choosing _ _ _ _ branch others _ hb hlater =>
      obtain ⟨houtcome, hnext⟩ := hb.advance hrange hsubmit (w.bubbles, w.selections)
      obtain rfl : _ = outcome := congrArg Step.outcome hstep
      obtain ⟨n, rfl, hrunning⟩ := exists_of_ne_done houtcome hne
      obtain rfl : (b.advance frame (w.bubbles, w.selections)).next = b' :=
        OpenBubble.choice.inj (Sum.inr.inj (congrArg Step.next hstep))
      exact ⟨.running (ticksOf_pos lasting _) hrunning
        (.choosing (hnext (Nat.succ_ne_zero n)) hlater), .ofEntries hfit (hturn.of_ne hne).1⟩
  | unselected hstep hselected =>
    exact absurd hselected ((hready.now _ rfl).selected_ne_none hstep)
  | invalid hstep hselected hbranch =>
    exact absurd hbranch ((hready.now _ rfl).branch_ne_none hstep hselected)

end Frames

/-! ## Frame after frame -/

/-- A performance of a script that can be played stands where it is over with exactly that frame. -/
def EndsIn (company : Company A α) (fit : A → Prop) (lasting : Cue → Nat) (stage : Stage)
    (settings : Settings) (k slots : Nat) (action : Action (World A Transcript) (α ⊕ OpenBubble)) :
    Prop :=
  ∃ children spot, action = .sequence children ∧
    Stands (company.withTranscript Settings.instant.delays) settings children spot ∧
    spot.Ready stage slots ∧ spot.Ends company fit lasting k

section Run

variable {stage : Stage} {settings : Settings} {k n : Nat} {w : World A Transcript}
  {action : Action (World A Transcript) (α ⊕ OpenBubble)}
  (hset : ∀ actor name value a, fit a → fit (company.setParameter actor name value a).1)

include hset

theorem EndsIn.advance (h : EndsIn company fit lasting stage settings k w.slots action)
    {frame : Frame} (hsubmit : frame.input.submit = true) (hfit : fit w.actors) :
    let s := action.advance (company.withTranscript Settings.instant.delays) frame w
    Onward fit w s.world ∧ ∃ n, k = n + 1 ∧ s.outcome = .ok (if n = 0 then .done else .running) ∧
      (n ≠ 0 → EndsIn company fit lasting stage settings n s.world.slots s.next) := by
  obtain ⟨children, spot, rfl, hstands, hready, hends⟩ := h
  obtain ⟨last, hpasses, hlast⟩ := hstands.passes frame w
  -- What holds where the frame halts: the end is as far as it was.
  obtain ⟨mid, v, ⟨hmid, honward, hstill⟩, hhalt⟩ := hpasses.exists_halt
    (J := fun mid v => mid.Ready stage v.slots ∧ Onward fit w v ∧ mid.Ends company fit lasting k)
    (fun hmove hJ =>
      have hnext := hJ.2.2.move hset hmove hsubmit hJ.1 hJ.2.1.fit
      ⟨(hJ.1.move hmove).2, hJ.2.1.trans hnext.2, hnext.1⟩)
    ⟨hready, .ofEntries hfit rfl, hends⟩
  obtain ⟨⟨n, hk, houtcome, hnext⟩, hleft⟩ := hstill.halt hset hhalt hsubmit hmid honward.fit
  rw [Action.advance]
  refine ⟨honward.trans hleft, n, hk, houtcome, fun hne => ?_⟩
  exact ⟨_, last, rfl, hlast, (hmid.halt hhalt).2, hnext hne⟩

theorem EndsIn.advances {frames : List Frame} (hsubmit : ∀ frame ∈ frames, frame.input.submit = true)
    (hfit : fit w.actors) (h : EndsIn company fit lasting stage settings (n + 1) w.slots action) :
    let steps := Action.advances (company.withTranscript Settings.instant.delays) frames action w
    (∀ t < frames.length, t < n → steps[t]?.map (·.outcome) = some (.ok .running)) ∧
      (n < frames.length →
        ∃ last, steps[n]? = some last ∧ last.outcome = .ok .done ∧ Onward fit w last.world) := by
  induction frames generalizing n w action with
  | nil => simp
  | cons frame frames ih =>
    obtain ⟨hframe, hframes⟩ := List.forall_mem_cons.mp hsubmit
    obtain ⟨honward, m, hm, houtcome, hnext⟩ := h.advance hset hframe hfit
    obtain rfl := Nat.succ.inj hm
    dsimp only
    rw [Action.advances]
    cases n with
    | zero => exact ⟨fun t _ ht => absurd ht (Nat.not_lt_zero t), fun _ => ⟨_, rfl, houtcome, honward⟩⟩
    | succ m =>
      obtain ⟨hrunning, hdone⟩ := ih hframes honward.fit (hnext (Nat.succ_ne_zero m))
      refine ⟨fun t hlt ht => ?_, fun hlt => ?_⟩
      · cases t with
        | zero => exact congrArg some houtcome
        | succ t => exact hrunning t (Nat.lt_of_succ_lt_succ hlt) (Nat.lt_of_succ_lt_succ ht)
      · obtain ⟨last, hlast, hover, hrest⟩ := hdone (Nat.lt_of_succ_lt_succ hlt)
        exact ⟨last, hlast, hover, honward.trans hrest⟩

end Run

end Ending

/-! ## Puppets -/

namespace Rehearsal

variable {fit : Cast → Prop}

/-- A routine that counts is done with the frame that it names. -/
theorem lasts_counting (actor : String) {r : Routine} (hfail : r.failAt = 0) {n k : Nat}
    (h : n + (k + 1) = r.ticks) :
    Lasts (fun work frame c => (puppets.step work frame c).1) fit (k + 1)
      (.counting actor r n) := by
  induction k generalizing n with
  | zero =>
    intro frame c _ hfit
    have hover : r.ticks ≤ n + 1 := h.ge
    simp [puppets, Part.advance, hfail, hover, hfit]
  | succ k ih =>
    intro frame c _ hfit
    have hleft : ¬r.ticks ≤ n + 1 := by omega
    refine ⟨by simp [puppets, Part.advance, hfail, hleft], hfit, fun _ => ?_⟩
    simpa [puppets, Part.advance, hfail, hleft] using ih (n := n + 1) (by omega)

/-- A cue takes as long as its routine, if this counts and does not fail. -/
theorem takes_routine {cue : Cue} {r : Routine}
    (hfound : ∀ c, fit c → (c.puppet cue.performer.actor).routines.find?
      (fun r => r.name == cue.animation) = some r)
    (hwait : r.wait = none) (hfail : r.failAt = 0) (hticks : 0 < r.ticks) :
    puppets.Takes fit r.ticks cue := by
  intro c hc
  obtain ⟨k, hk⟩ := Nat.exists_eq_succ_of_ne_zero hticks.ne'
  refine ⟨?_, hc⟩
  simp only [puppets, hfound c hc, Option.getD_some, Part.ofRoutine, hwait]
  rw [hk]
  exact lasts_counting _ hfail (by omega)

end Rehearsal

/-! ## Performances -/

/-- How long an accepted script takes if its animations do not fail, its bubbles have no delays and
every frame submits, whatever else is pressed and however long the frames are: it is running until it
is done, which it is with just the frame that is counted here, and it has followed the first branch of
every choice then. -/
theorem accepted_script_ends_on_time {A α : Type} (company : Company A α) (fit : A → Prop)
    (lasting : Cue → Nat) (script : AcceptedScript)
    (hset : ∀ actor name value a, fit a → fit (company.setParameter actor name value a).1)
    (htakes : ∀ cues, .animation cues ∈ Script.partsOf script.statements →
      ∀ cue ∈ cues, company.Takes fit (lasting cue) cue)
    (w : World A Transcript) (hfit : fit w.actors) (frames : List Frame)
    (hsubmit : ∀ frame ∈ frames, frame.input.submit = true) :
    let host := company.withTranscript Settings.instant.delays
    let steps := Action.advances host frames (script.action host) w
    let total := 1 + (script.statements.map fun s => s.ticks lasting - 1).sum
    (∀ t < frames.length, t + 1 < total → steps[t]?.map (·.outcome) = some (.ok .running)) ∧
      (total ≤ frames.length → ∃ last added, steps[total - 1]? = some last ∧
        last.outcome = .ok .done ∧ last.world.bubbles.entries = w.bubbles.entries ++ added ∧
        added.map (·.record) = firstPathOf script.statements) := by
  intro host steps total
  have htotal : total = ticksOf lasting script.statements :=
    (ticksOf_eq_sum lasting script.statements).symm
  obtain ⟨n, hn⟩ : ∃ n, ticksOf lasting script.statements = n + 1 :=
    Nat.exists_eq_succ_of_ne_zero (ticksOf_pos lasting script.statements).ne'
  have htimed : AllTimed company fit lasting script.statements := by
    intro t ht
    cases t with
    | animation cues =>
      exact ⟨Script.cues_ne_nil_of_readScript script.accepted cues ht, htakes cues ht⟩
    | dialogue _ | store _ | choice _ _ _ => trivial
  have hends : EndsIn company fit lasting script.stage script.settings (n + 1) w.slots
      (script.action host) :=
    ⟨_, ⟨none, script.statements⟩, rfl, .script _,
      .script (Script.playable_of_readLines script.accepted), hn ▸ .script htimed⟩
  obtain ⟨hrunning, hdone⟩ := hends.advances hset hsubmit hfit
  rw [htotal, hn]
  refine ⟨fun t hlt ht => hrunning t hlt (Nat.lt_of_succ_lt_succ ht), fun hle => ?_⟩
  obtain ⟨last, hlast, hover, -, added, hentries, hfirst⟩ := hdone hle
  obtain ⟨added', hentries', -, hpath⟩ :=
    (script.performing_action w.slots).advances frames last (List.mem_of_getElem? hlast)
  obtain rfl := List.append_cancel_left (hentries.symm.trans hentries')
  exact ⟨last, added, hlast, hover, hentries, (hpath hover).eq_firstPath hfirst⟩

namespace Rehearsal

/-- Ann is asked and answers with the first label, although the player tries to move on. -/
theorem askScript_ends_on_time :
    let host := puppets.withTranscript Settings.instant.delays
    let script : AcceptedScript :=
      ⟨annAlone.stage ⟨[]⟩, .standard, Script.written askScript, askScript, readScript_askScript⟩
    let w : World Cast Transcript := ⟨annAlone, .empty, .empty, .empty, #[]⟩
    let frames := List.replicate 5 ⟨.zero, { submit := true, next := true }⟩
    let steps := Action.advances host frames (script.action host) w
    (∀ t < 4, steps[t]?.map (·.outcome) = some (.ok .running)) ∧
      ∃ last added, steps[4]? = some last ∧ last.outcome = .ok .done ∧
        last.world.bubbles.entries = added ∧
        added.map (·.record) = [.choice ["No", "Yes"] 0, .line "Oh"] := by
  intro host script w frames steps
  let nods (c : Cast) : Prop := (c.puppet ⟨0⟩).routines = [{ name := "nod", ticks := 2 }]
  have hset (actor : ActorId) (name : String) (value : Bool) (c : Cast) (h : nods c) :
      nods (puppets.setParameter actor name value c).1 := by
    have hkept := c.routines_update actor
      (f := fun p => { p with parameters := setEntry name value p.parameters }) (fun _ => rfl) ⟨0⟩
    exact hkept.trans h
  have htakes : ∀ cues, .animation cues ∈ Script.partsOf askScript → ∀ cue ∈ cues,
      puppets.Takes nods 2 cue := by
    intro cues hcues cue hcue
    obtain rfl : cues = [⟨⟨"Ann", ⟨0⟩⟩, "nod"⟩] := by
      simpa [askScript, Script.partsOf, Statement.parts, Script.partsOfBranches] using hcues
    obtain rfl := List.mem_singleton.mp hcue
    refine takes_routine (r := { name := "nod", ticks := 2 }) (fun c hc => ?_) rfl rfl (by decide)
    exact (congrArg (List.find? _) hc).trans rfl
  obtain ⟨hrunning, hdone⟩ := accepted_script_ends_on_time puppets nods (fun _ => 2) script hset
    htakes w rfl frames (by decide)
  refine ⟨fun t ht => hrunning t ?_ ?_, ?_⟩
  · exact Nat.lt_trans ht (by decide)
  · exact Nat.succ_lt_succ ht
  · obtain ⟨last, added, hlast, hover, hentries, hfirst⟩ := hdone (by decide)
    exact ⟨last, added, hlast, hover, hentries, hfirst⟩

end Rehearsal

end Promptbook
