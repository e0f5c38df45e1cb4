import Promptbook.Bubble.Transcript

set_option autoImplicit false

/-!
# How bubbles conduct themselves

A bubble of a transcript never fails; only a sum of durations can overflow.  A choice with labels
keeps them, and one of them is highlighted in every frame; it is done in the frame in which that one
is written into its slot (`ChoiceBubble.conduct_advance`).
-/

namespace Promptbook

/-- A timer makes progress unless a sum of durations overflows. -/
theorem Timer.advance_cases (t : Timer) (delta : Duration) :
    (t.advance delta).1 = .error .overflow ∨ ∃ p, (t.advance delta).1 = .ok p := by
  unfold advance
  cases t.elapsed.add? delta with
  | none => exact .inl rfl
  | some elapsed => exact .inr ⟨_, rfl⟩

namespace Bubble

/-- A text is revealed unless a sum of durations overflows. -/
theorem Reveal.advance_cases (r : Reveal) (delta : Duration) (display : String) :
    (r.advance delta display).outcome = .error .overflow ∨
      ∃ p, (r.advance delta display).outcome = .ok p := by
  unfold advance
  cases r.elapsed.add? delta with
  | none => exact .inl rfl
  | some elapsed => exact .inr ⟨_, rfl⟩

/-! ## Lines -/

/-- A line makes progress unless a sum of durations overflows. -/
theorem LineBubble.advance_cases (b : LineBubble) (frame : Frame) (t : Transcript) :
    (b.advance frame t).outcome = .error .overflow ∨ ∃ p, (b.advance frame t).outcome = .ok p := by
  unfold advance
  split
  · next timer hstage =>
    have hcases := timer.advance_cases frame.delta
    generalize timer.advance frame.delta = r at hcases ⊢
    obtain ⟨outcome, timer'⟩ := r
    rcases hcases with rfl | ⟨_ | _, rfl⟩
    · exact .inl rfl
    · exact .inr ⟨_, rfl⟩
    · exact .inr ⟨_, rfl⟩
  · next reveal hstage =>
    have hcases := reveal.advance_cases frame.delta t.display
    generalize reveal.advance frame.delta t.display = r at hcases ⊢
    obtain ⟨outcome, reveal', display⟩ := r
    rcases hcases with rfl | ⟨_ | _, rfl⟩
    · exact .inl rfl
    · exact .inr ⟨_, rfl⟩
    · exact .inr ⟨_, rfl⟩
  · split
    · exact .inr ⟨_, rfl⟩
    · exact .inr ⟨_, rfl⟩

/-! ## Choices -/

namespace ChoiceBubble

/-- One of the labels is highlighted. -/
def InRange (b : ChoiceBubble) : Prop := b.highlighted < b.labels.length

/-- The same choice in another stage or with another label highlighted, but with one. -/
structure Continues (b next : ChoiceBubble) : Prop where
  labels : next.labels = b.labels
  slot : next.slot = b.slot
  inRange : next.InRange

/-- What a frame of a choice comes to: it goes on and selects nothing, or it is done and the
highlighted label is selected. -/
inductive Conduct (b : ChoiceBubble) (w : Transcript × Selections)
    (s : Step ChoiceBubble (Transcript × Selections)) : Prop where
  | overflow (h : s.outcome = .error .overflow)
  | running (h : s.outcome = .ok .running) (hnext : b.Continues s.next)
      (hselections : s.world.2 = w.2)
  | done (h : s.outcome = .ok .done)
      (hselections : s.world.2 = w.2.select b.slot b.highlighted)

theorem following_lt {b : ChoiceBubble} (h : b.InRange) : b.following < b.labels.length :=
  Nat.mod_lt _ (Nat.zero_lt_of_lt h)

theorem preceding_lt {b : ChoiceBubble} (h : b.InRange) : b.preceding < b.labels.length :=
  Nat.mod_lt _ (Nat.zero_lt_of_lt h)

/-- Only labels that exist are highlighted, and only the highlighted one is selected. -/
theorem conduct_advance {b : ChoiceBubble} (h : b.InRange) (frame : Frame)
    (w : Transcript × Selections) : b.Conduct w (b.advance frame w) := by
  have hlabels : b.labels.isEmpty = false := by
    have hpos := Nat.zero_lt_of_lt h
    simpa [List.isEmpty_iff_length_eq_zero] using Nat.ne_of_gt hpos
  unfold advance
  simp only [hlabels, Bool.false_eq_true, if_false]
  split
  · next timer hstage =>
    have hcases := timer.advance_cases frame.delta
    generalize timer.advance frame.delta = r at hcases ⊢
    obtain ⟨outcome, timer'⟩ := r
    rcases hcases with rfl | ⟨_ | _, rfl⟩
    · exact .overflow rfl
    · exact .running rfl ⟨rfl, rfl, h⟩ rfl
    · exact .running rfl ⟨rfl, rfl, Nat.zero_lt_of_lt h⟩ rfl
  · next reveal hstage =>
    have hcases := reveal.advance_cases frame.delta w.1.display
    generalize reveal.advance frame.delta w.1.display = r at hcases ⊢
    obtain ⟨outcome, reveal', display⟩ := r
    rcases hcases with rfl | ⟨_ | _, rfl⟩
    · exact .overflow rfl
    · exact .running rfl ⟨rfl, rfl, h⟩ rfl
    · exact .running rfl ⟨rfl, rfl, h⟩ rfl
  · split
    · exact .done rfl rfl
    · split
      · exact .running rfl ⟨rfl, rfl, following_lt h⟩ rfl
      · split
        · exact .running rfl ⟨rfl, rfl, preceding_lt h⟩ rfl
        · exact .running rfl ⟨rfl, rfl, h⟩ rfl

end ChoiceBubble

end Bubble

end Promptbook
