import Promptbook.Proofs.Bubble.Life

set_option autoImplicit false

/-!
# Time that is carried over

Time adds up in timers and in texts that are being revealed.  As long as one of them has more to do,
what it carries into the next frame is not more than its own delay (`Within`), however many frames
have passed: a timer that has reached its duration is done, and a text only keeps what was not
enough for another character.  So a sum can only overflow if the time of that one frame and a single
delay are too much together, and the difference that is left after a character is always one.
-/

namespace Promptbook

/-- The longest delay can be added to the time of the frame. -/
def Frame.Fits (longest : Duration) (frame : Frame) : Prop :=
  frame.delta.nanos + longest.nanos < Duration.bound

instance (longest : Duration) (frame : Frame) : Decidable (frame.Fits longest) :=
  inferInstanceAs (Decidable (_ < _))

/-! ## Timers -/

namespace Timer

variable {longest : Duration} {t : Timer}

/-- What has passed is not more than the duration of the timer, and that not more than the
longest. -/
structure Within (longest : Duration) (t : Timer) : Prop where
  elapsed_le : t.elapsed ≤ t.duration
  duration_le : t.duration ≤ longest

theorem within_start {duration : Duration} (h : duration ≤ longest) :
    (start duration).Within longest := ⟨Nat.zero_le _, h⟩

/-- A timer that is not done is within its duration again. -/
theorem Within.advance (h : t.Within longest) (delta : Duration)
    (hne : (t.advance delta).1 ≠ .ok .done) : (t.advance delta).2.Within longest := by
  unfold Timer.advance at hne ⊢
  cases hsum : t.elapsed.add? delta with
  | none => exact h
  | some elapsed =>
    rw [hsum] at hne
    have hrunning : ¬t.duration ≤ elapsed := fun hle => hne (by simp [hle])
    exact ⟨Nat.le_of_not_le hrunning, h.duration_le⟩

theorem Within.ne_overflow (h : t.Within longest) {frame : Frame} (hfits : frame.Fits longest) :
    (t.advance frame.delta).1 ≠ .error .overflow := by
  rw [Ne, advance_eq_overflow_iff]
  have helapsed := Duration.le_iff.mp h.elapsed_le
  have hduration := Duration.le_iff.mp h.duration_le
  rw [Frame.Fits] at hfits
  omega

end Timer

/-! ## Differences -/

/-- The difference, if `b` is not longer. -/
def Duration.sub? (a b : Duration) : Option Duration := if b ≤ a then some (a.sub b) else none

namespace Bubble

/-- The characters that are due, those that are not, and the time that is left, if all differences
exist. -/
def dueCharacters? (delay : Duration) :
    List Char → Duration → Option (List Char × List Char × Duration)
  | [], elapsed => some ([], [], elapsed)
  | c :: cs, elapsed =>
    if delay ≤ elapsed then do
      let less ← elapsed.sub? delay
      let (due, rest, left) ← dueCharacters? delay cs less
      some (c :: due, rest, left)
    else some ([], c :: cs, elapsed)

/-- The delay is only taken away where there was time for it. -/
theorem dueCharacters?_eq_some (delay : Duration) (cs : List Char) (elapsed : Duration) :
    dueCharacters? delay cs elapsed = some (dueCharacters delay cs elapsed) := by
  induction cs generalizing elapsed with
  | nil => rfl
  | cons c cs ih =>
    rw [dueCharacters?]
    by_cases hdue : delay ≤ elapsed
    · simp only [hdue, if_true, Duration.sub?, Option.bind_eq_bind, Option.bind_some, ih,
        dueCharacters_cons hdue]
    · rw [if_neg hdue, dueCharacters_of_lt hdue]

/-! ## Texts that are revealed -/

namespace Reveal

variable {longest : Duration} {r : Reveal}

/-- Let the time of a frame pass; a difference that does not exist ends everything just like a sum
that does not. -/
def advanceChecked (r : Reveal) (delta : Duration) (display : String) : Step Reveal String :=
  let display := if r.revealed = 0 then "" else display
  match (r.elapsed.add? delta).bind (dueCharacters? r.delay r.pending) with
  | none => ⟨.error .overflow, r, display⟩
  | some (due, pending, left) =>
    ⟨.ok (if pending.isEmpty then .done else .running),
      { r with revealed := r.revealed + due.length, pending := pending, elapsed := left },
      display ++ String.ofList due⟩

/-- No difference ends anything. -/
theorem advanceChecked_eq (r : Reveal) (delta : Duration) (display : String) :
    r.advanceChecked delta display = r.advance delta display := by
  unfold advanceChecked Reveal.advance
  cases r.elapsed.add? delta with
  | none => rfl
  | some elapsed => rw [Option.bind_some, dueCharacters?_eq_some]

/-- What was not enough for a character is not more than the delay, and that not more than the
longest. -/
structure Within (longest : Duration) (r : Reveal) : Prop where
  elapsed_le : r.elapsed ≤ r.delay
  delay_le : r.delay ≤ longest

theorem within_start (text : String) {delay : Duration} (h : delay ≤ longest) :
    (start text delay).Within longest := ⟨Nat.zero_le _, h⟩

/-- A text that is not complete keeps less than its delay. -/
theorem Within.advance (h : r.Within longest) (delta : Duration) (display : String)
    (hne : (r.advance delta display).outcome ≠ .ok .done) :
    (r.advance delta display).next.Within longest := by
  unfold Reveal.advance at hne ⊢
  cases hsum : r.elapsed.add? delta with
  | none => exact h
  | some elapsed =>
    rw [hsum] at hne
    have hrest : (dueCharacters r.delay r.pending elapsed).2.1 ≠ [] := fun hnil =>
      hne (by simp [hnil])
    exact ⟨Nat.le_of_lt (nanos_lt_of_rest hrest), h.delay_le⟩

theorem Within.ne_overflow (h : r.Within longest) (display : String) {frame : Frame}
    (hfits : frame.Fits longest) : (r.advance frame.delta display).outcome ≠ .error .overflow := by
  have helapsed := Duration.le_iff.mp h.elapsed_le
  have hdelay := Duration.le_iff.mp h.delay_le
  unfold Reveal.advance
  cases hsum : r.elapsed.add? frame.delta with
  | none =>
    have hover := Duration.add?_eq_none_iff.mp hsum
    rw [Frame.Fits] at hfits
    omega
  | some elapsed => simp

end Reveal

/-! ## Bubbles -/

variable {longest : Duration}

/-- A line whose delays are not longer than the longest, and which carries over no more than
these. -/
structure LineBubble.Within (longest : Duration) (b : LineBubble) : Prop where
  revealDelay_le : b.revealDelay ≤ longest
  opening : ∀ {timer}, b.stage = .opening timer → timer.Within longest
  revealing : ∀ {reveal}, b.stage = .revealing reveal → reveal.Within longest

/-- A frame of a line carries over no more than a delay, and does not overflow if it fits. -/
theorem LineBubble.Within.advance {b : LineBubble} (h : b.Within longest) (frame : Frame)
    (t : Transcript) :
    (b.advance frame t).next.Within longest ∧
      (frame.Fits longest → (b.advance frame t).outcome ≠ .error .overflow) := by
  unfold LineBubble.advance
  split
  · next timer hstage =>
    have hnext := (h.opening hstage).advance frame.delta
    have hfits (hframe : frame.Fits longest) := (h.opening hstage).ne_overflow hframe
    generalize timer.advance frame.delta = r at hnext hfits ⊢
    split
    · refine ⟨⟨h.revealDelay_le, nofun, fun heq => ?_⟩, by simp⟩
      exact LineStage.revealing.inj heq ▸ Reveal.within_start _ h.revealDelay_le
    · next hne =>
      refine ⟨⟨h.revealDelay_le, fun heq => ?_, nofun⟩, hfits⟩
      exact LineStage.opening.inj heq ▸ hnext hne
  · next reveal hstage =>
    have hnext := (h.revealing hstage).advance frame.delta t.display
    have hfits (hframe : frame.Fits longest) := (h.revealing hstage).ne_overflow t.display hframe
    dsimp only
    split
    · exact ⟨⟨h.revealDelay_le, nofun, nofun⟩, by simp⟩
    · next hne =>
      refine ⟨⟨h.revealDelay_le, nofun, fun heq => ?_⟩, hfits⟩
      exact LineStage.revealing.inj heq ▸ hnext hne
  · split
    · exact ⟨h, by simp⟩
    · exact ⟨h, by simp⟩

/-- A choice whose delays are not longer than the longest, and which carries over no more than
these. -/
structure ChoiceBubble.Within (longest : Duration) (b : ChoiceBubble) : Prop where
  revealDelay_le : b.revealDelay ≤ longest
  opening : ∀ {timer}, b.stage = .opening timer → timer.Within longest
  revealing : ∀ {reveal}, b.stage = .revealing reveal → reveal.Within longest

/-- A label begins to be revealed with nothing to carry over. -/
theorem ChoiceBubble.Within.highlight {b : ChoiceBubble} (h : b.Within longest) (index : Nat) :
    (b.highlight index).Within longest := by
  refine ⟨h.revealDelay_le, nofun, fun heq => ?_⟩
  exact ChoiceStage.revealing.inj heq ▸ Reveal.within_start _ h.revealDelay_le

/-- A frame of a choice carries over no more than a delay, and does not overflow if it fits. -/
theorem ChoiceBubble.Within.advance {b : ChoiceBubble} (h : b.Within longest) (frame : Frame)
    (w : Transcript × Selections) :
    (b.advance frame w).next.Within longest ∧
      (frame.Fits longest → (b.advance frame w).outcome ≠ .error .overflow) := by
  unfold ChoiceBubble.advance
  dsimp only
  split
  · exact ⟨h, by simp⟩
  · split
    · next timer hstage =>
      have hnext := (h.opening hstage).advance frame.delta
      have hfits (hframe : frame.Fits longest) := (h.opening hstage).ne_overflow hframe
      generalize timer.advance frame.delta = r at hnext hfits ⊢
      split
      · exact ⟨h.highlight 0, by simp⟩
      · next hne =>
        refine ⟨⟨h.revealDelay_le, fun heq => ?_, nofun⟩, hfits⟩
        exact ChoiceStage.opening.inj heq ▸ hnext hne
    · next reveal hstage =>
      have hnext := (h.revealing hstage).advance frame.delta w.1.display
      have hfits (hframe : frame.Fits longest) := (h.revealing hstage).ne_overflow w.1.display hframe
      split
      · exact ⟨⟨h.revealDelay_le, nofun, nofun⟩, by simp⟩
      · next hne =>
        refine ⟨⟨h.revealDelay_le, nofun, fun heq => ?_⟩, hfits⟩
        exact ChoiceStage.revealing.inj heq ▸ hnext hne
    · split
      · exact ⟨h, by simp⟩
      · split
        · exact ⟨h.highlight b.following, by simp⟩
        · split
          · exact ⟨h.highlight b.preceding, by simp⟩
          · exact ⟨h, by simp⟩

namespace OpenBubble

/-- A bubble that carries over no more than its delays. -/
def Within (longest : Duration) : OpenBubble → Prop
  | line b => b.Within longest
  | choice b => b.Within longest

theorem within_ofLine {delays : Delays} (hopening : delays.opening ≤ longest)
    (hreveal : delays.reveal ≤ longest) (text : String) (position : Position) :
    (ofLine delays text position).Within longest := by
  refine ⟨hreveal, fun heq => ?_, nofun⟩
  exact LineStage.opening.inj heq ▸ Timer.within_start hopening

theorem within_ofChoices {delays : Delays} (hopening : delays.opening ≤ longest)
    (hreveal : delays.reveal ≤ longest) (labels : List String) (position : Position) (slot : Slot) :
    (ofChoices delays labels position slot).Within longest := by
  refine ⟨hreveal, fun heq => ?_, nofun⟩
  exact ChoiceStage.opening.inj heq ▸ Timer.within_start hopening

theorem Within.advance {b : OpenBubble} (h : b.Within longest) (frame : Frame)
    (w : Transcript × Selections) :
    (b.advance frame w).next.Within longest ∧
      (frame.Fits longest → (b.advance frame w).outcome ≠ .error .overflow) := by
  cases b with
  | line b => exact LineBubble.Within.advance h frame w.1
  | choice b => exact ChoiceBubble.Within.advance h frame w

end OpenBubble

end Bubble

end Promptbook
