import Mathlib.Algebra.GroupWithZero.Nat
import Promptbook.Proofs.Performance.Readiness

set_option autoImplicit false

/-!
# How long a script takes

If the bubbles have no delays and the player submits in every frame, then a script takes as many
frames as can be told from its text: a line three, a value that is stored two, animations as many as
the longest of them, and a choice two before its first branch.  What comes next begins in the frame
in which a statement is done, so each statement but counts for one frame less.

`ticksOf` counts these frames.  `Lasts` says that work is done with exactly a certain frame, and the
lemmas about it are those of its parts: parallel work lasts as long as the longest of it, and a bubble
without delays as long as its stages.
-/

namespace Promptbook

open Bubble (Delays Transcript OpenBubble LineBubble ChoiceBubble)
open Script (Statement Cue Assignment)

/-! ## Counting frames -/

section Ticks

variable (lasting : Cue → Nat)

mutual

/-- With which frame a statement is done, if each of its cues takes as long as that. -/
def Script.Statement.ticks : Statement → Nat
  | .dialogue _ => 3
  | .animation cues => (cues.map lasting).foldr max 0
  | .store _ => 2
  | .choice _ branches _ => 2 + ticksOfFirst branches

/-- With which frame a script is done: a statement begins in the frame in which the one before it is
done. -/
def ticksOf : List Statement → Nat
  | [] => 1
  | s :: rest => s.ticks - 1 + ticksOf rest

/-- With which frame the first branch is done. -/
def ticksOfFirst : List (String × List Statement) → Nat
  | [] => 1
  | (_, script) :: _ => ticksOf script

end

theorem ticksOf_eq_sum (script : List Statement) :
    ticksOf lasting script = 1 + (script.map fun s => s.ticks lasting - 1).sum := by
  induction script with
  | nil => rfl
  | cons s rest ih =>
    rw [ticksOf, ih, List.map_cons, List.sum_cons]
    omega

/-- The second script begins in the last frame of the first. -/
theorem ticksOf_append (first second : List Statement) :
    ticksOf lasting (first ++ second) + 1 = ticksOf lasting first + ticksOf lasting second := by
  simp only [ticksOf_eq_sum, List.map_append, List.sum_append]
  omega

theorem ticksOf_pos (script : List Statement) : 0 < ticksOf lasting script := by
  rw [ticksOf_eq_sum]
  omega

end Ticks

/-! ## Work that takes a number of frames -/

/-- Work that is done with exactly that frame, if the player submits in every frame.  It is only
stepped in fit worlds and leaves them fit. -/
def Lasts {σ W : Type} (step : σ → Frame → W → Step σ W) (fit : W → Prop) : Nat → σ → Prop
  | 0, _ => False
  | n + 1, s => ∀ frame w, frame.input.submit = true → fit w →
      (step s frame w).outcome = .ok (if n = 0 then .done else .running) ∧
        fit (step s frame w).world ∧ (n ≠ 0 → Lasts step fit n (step s frame w).next)

section Parts

variable {W κ : Type} (host : Host W κ) (fit : W → Prop)

/-- Work in progress that is done with exactly that frame, or a cue whose work is. -/
def PartLasts (n : Nat) : κ ⊕ Cue → Prop
  | .inl work => Lasts host.step fit n work
  | .inr cue => ∀ w, fit w →
      let played := host.play cue.performer.actor cue.animation (host.record (.playing cue) w)
      Lasts host.step fit n played.1 ∧ fit played.2

variable {host fit} {n : Nat} {frame : Frame} {w : W}

theorem PartLasts.step {part : κ ⊕ Cue} (h : PartLasts host fit (n + 1) part)
    (hsubmit : frame.input.submit = true) (hw : fit w) :
    (host.stepPart frame part w).outcome = .ok (if n = 0 then .done else .running) ∧
      fit (host.stepPart frame part w).world ∧
      (n ≠ 0 → Lasts host.step fit n (host.stepPart frame part w).next) := by
  cases part with
  | inl work => exact h frame w hsubmit hw
  | inr cue =>
    obtain ⟨hlasts, hfit⟩ := h w hw
    exact hlasts frame _ hsubmit hfit

theorem PartLasts.pos {part : κ ⊕ Cue} (h : PartLasts host fit n part) (hw : fit w) : 0 < n := by
  refine Nat.pos_of_ne_zero fun hzero => ?_
  subst hzero
  cases part with
  | inl work => exact h
  | inr cue => exact (h w hw).1

/-- A frame of parallel work: what took one frame only is gone, and the rest takes one less. -/
theorem lasts_stepParts (hsubmit : frame.input.submit = true) {parts : List (κ ⊕ Cue)}
    (hall : ∀ part ∈ parts, ∃ r ≤ n + 1, PartLasts host fit r part) (hw : fit w) :
    (host.stepParts frame parts w).outcome =
        .ok (if (host.stepParts frame parts w).next = [] then .done else .running) ∧
      fit (host.stepParts frame parts w).world ∧
      (∀ part ∈ (host.stepParts frame parts w).next, ∃ r ≤ n, PartLasts host fit r part) ∧
      ∀ m, (∃ part ∈ parts, PartLasts host fit (m + 2) part) →
        ∃ part ∈ (host.stepParts frame parts w).next, PartLasts host fit (m + 1) part := by
  induction parts generalizing w with
  | nil => simp [Host.stepParts, hw]
  | cons part rest ih =>
    obtain ⟨⟨r, hr, hpart⟩, hrest⟩ := List.forall_mem_cons.mp hall
    obtain ⟨r, rfl⟩ := Nat.exists_eq_succ_of_ne_zero (hpart.pos hw).ne'
    obtain ⟨houtcome, hfit, hnext⟩ := hpart.step hsubmit hw
    obtain ⟨hothers, hlast, hless, hmost⟩ := ih hrest hfit
    have hfirst (m : Nat) (h : PartLasts host fit (m + 2) part) :
        (host.stepPart frame part w).outcome = .ok .running ∧
          Lasts host.step fit (m + 1) (host.stepPart frame part w).next := by
      obtain ⟨hrunning, -, hgoes⟩ := h.step hsubmit hw
      exact ⟨by simpa using hrunning, hgoes (Nat.succ_ne_zero m)⟩
    rw [Host.stepParts]
    dsimp only
    by_cases hzero : r = 0
    · rw [if_pos hzero] at houtcome
      rw [houtcome]
      refine ⟨hothers, hlast, hless, fun m => ?_⟩
      rintro ⟨other, hother, htakes⟩
      rcases List.mem_cons.mp hother with rfl | hother
      · exact absurd ((hfirst m htakes).1.symm.trans houtcome) (by simp)
      · exact hmost m ⟨other, hother, htakes⟩
    · rw [if_neg hzero] at houtcome
      rw [houtcome, hothers]
      refine ⟨by simp [Except.map], hlast, ?_, fun m => ?_⟩
      · exact List.forall_mem_cons.mpr ⟨⟨r, by omega, hnext hzero⟩, hless⟩
      · rintro ⟨other, hother, htakes⟩
        rcases List.mem_cons.mp hother with rfl | hother
        · exact ⟨_, List.mem_cons_self, (hfirst m htakes).2⟩
        · obtain ⟨later, hlater, hlasts⟩ := hmost m ⟨other, hother, htakes⟩
          exact ⟨later, List.mem_cons_of_mem _ hlater, hlasts⟩

end Parts

/-! ## Bubbles without delays -/

namespace Bubble

theorem exists_advance_start_zero (delta : Duration) :
    ∃ timer, (Timer.start .zero).advance delta = (.ok .done, timer) := by
  have hdone : ((Timer.start .zero).advance delta).1 = .ok .done := by
    rw [Timer.advance_eq_done_iff]
    exact ⟨by simpa [Timer.start] using delta.nanos_lt, by simp [Timer.start]⟩
  exact ⟨_, Prod.ext hdone rfl⟩

/-- Without a delay all characters are due at once. -/
theorem dueCharacters_zero (cs : List Char) (elapsed : Duration) :
    dueCharacters .zero cs elapsed = (cs, [], elapsed) := by
  induction cs generalizing elapsed with
  | nil => rfl
  | cons c cs ih =>
    have hsub : elapsed.sub .zero = elapsed := Duration.ext_nanos (by simp)
    simp [dueCharacters, Duration.le_iff, hsub, ih]

theorem Reveal.advance_start_zero (text : String) (delta : Duration) (display : String) :
    ((Reveal.start text .zero).advance delta display).outcome = .ok .done := by
  have hadd : Duration.zero.add? delta = some delta := by
    rw [Duration.add?_eq_some_iff]
    simp
  simp [Reveal.advance, Reveal.start, hadd, dueCharacters_zero]

variable {n : Nat} {frame : Frame}

/-- How many frames a line without delays takes from its stage on. -/
inductive LineBubble.Ahead : Nat → LineBubble → Prop where
  | opening {b : LineBubble} (h : b.stage = .opening (.start .zero))
      (hdelay : b.revealDelay = .zero) : Ahead 3 b
  | revealing {b : LineBubble} {text : String} (h : b.stage = .revealing (.start text .zero)) :
      Ahead 2 b
  | waiting {b : LineBubble} (h : b.stage = .waiting) : Ahead 1 b

theorem LineBubble.Ahead.advance {b : LineBubble} (h : b.Ahead (n + 1))
    (hsubmit : frame.input.submit = true) (t : Transcript) :
    (b.advance frame t).outcome = .ok (if n = 0 then .done else .running) ∧
      (n ≠ 0 → (b.advance frame t).next.Ahead n) := by
  cases h with
  | opening h hdelay =>
    obtain ⟨timer, htimer⟩ := exists_advance_start_zero frame.delta
    simp only [LineBubble.advance, h, htimer]
    exact ⟨rfl, fun _ => .revealing (congrArg LineStage.revealing (by rw [hdelay]))⟩
  | revealing h =>
    simp only [LineBubble.advance, h, Reveal.advance_start_zero]
    exact ⟨rfl, fun _ => .waiting rfl⟩
  | waiting h =>
    simp only [LineBubble.advance, h, hsubmit, if_true]
    exact ⟨trivial, fun hne => absurd rfl hne⟩

/-- How many frames a choice without delays takes from its stage on, while its first label is
highlighted. -/
inductive ChoiceBubble.Ahead : Nat → ChoiceBubble → Prop where
  | opening {b : ChoiceBubble} (h : b.stage = .opening (.start .zero))
      (hdelay : b.revealDelay = .zero) (hfirst : b.highlighted = 0) : Ahead 3 b
  | revealing {b : ChoiceBubble} {text : String} (h : b.stage = .revealing (.start text .zero))
      (hfirst : b.highlighted = 0) : Ahead 2 b
  | idle {b : ChoiceBubble} (h : b.stage = .idle) (hfirst : b.highlighted = 0) : Ahead 1 b

theorem ChoiceBubble.Ahead.highlighted_eq {b : ChoiceBubble} (h : b.Ahead n) :
    b.highlighted = 0 := by
  cases h <;> assumption

theorem ChoiceBubble.Ahead.advance {b : ChoiceBubble} (h : b.Ahead (n + 1)) (hb : b.InRange)
    (hsubmit : frame.input.submit = true) (w : Transcript × Selections) :
    (b.advance frame w).outcome = .ok (if n = 0 then .done else .running) ∧
      (n ≠ 0 → (b.advance frame w).next.Ahead n) := by
  have hlabels : b.labels.isEmpty = false := by
    simpa using List.ne_nil_of_length_pos (Nat.zero_lt_of_lt hb)
  cases h with
  | opening h hdelay hfirst =>
    obtain ⟨timer, htimer⟩ := exists_advance_start_zero frame.delta
    simp only [ChoiceBubble.advance, hlabels, h, htimer]
    exact ⟨rfl, fun _ => .revealing (congrArg ChoiceStage.revealing (by rw [hdelay])) rfl⟩
  | revealing h hfirst =>
    simp only [ChoiceBubble.advance, hlabels, h, Reveal.advance_start_zero]
    exact ⟨rfl, fun _ => .idle rfl hfirst⟩
  | idle h hfirst =>
    simp only [ChoiceBubble.advance, hlabels, h, hsubmit, if_true]
    exact ⟨rfl, fun hne => absurd rfl hne⟩

end Bubble

/-! ## Animations of a performance -/

section Works

variable {A α : Type} {company : Company A α} {delays : Delays} {fit : A → Prop} {n : Nat}

/-- The animation of a cue is done with exactly that frame. -/
def Company.Takes (company : Company A α) (fit : A → Prop) (n : Nat) (cue : Cue) : Prop :=
  ∀ a, fit a →
    Lasts (fun work frame a => (company.step work frame a).1) fit n
        (company.play cue.performer.actor cue.animation a).1.1 ∧
      fit (company.play cue.performer.actor cue.animation a).1.2

variable (delays) in
theorem lasts_animation {work : α}
    (h : Lasts (fun work frame a => (company.step work frame a).1) fit n work) :
    Lasts (company.withTranscript delays).step (fun w => fit w.actors) n (.inl work) := by
  induction n generalizing work with
  | zero => exact h
  | succ n ih =>
    intro frame w hsubmit hw
    obtain ⟨houtcome, hfit, hnext⟩ := h frame w.actors hsubmit hw
    refine ⟨houtcome, ?_, fun hne => ih (hnext hne)⟩
    simpa [Host.ofParts, Host.stepActor, World.remark] using hfit

variable (delays) in
theorem partLasts_cue {cue : Cue} (h : company.Takes fit n cue) :
    PartLasts (company.withTranscript delays) (fun w => fit w.actors) n (.inr cue) := by
  intro w hw
  obtain ⟨hlasts, hfit⟩ := h w.actors hw
  refine ⟨lasts_animation delays hlasts, ?_⟩
  simp only [Company.withTranscript, Host.ofParts, World.remark, World.actors_recordAll]
  exact hfit

end Works

end Promptbook
