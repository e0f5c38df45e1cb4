import Promptbook.Proofs.Bubble.Conduct

set_option autoImplicit false

/-!
# What bubbles show

All bubbles of a transcript write to one display, one after the other.  `LineBubble.Turn` and
`ChoiceBubble.Turn` say what a frame of a bubble can do: which stage comes next, what is written to
the display and what is entered.  From this follows what is displayed in each stage (`Shows`), that a
bubble can only be dismissed when its text is complete, and that a line is entered when its text
begins to appear but a choice when it is submitted.
-/

namespace Promptbook.Bubble

/-! ## Revealing -/

namespace Reveal

variable {r : Reveal} {text display : String}

/-- The characters that were revealed and those that were not make up a text; what was revealed is
displayed, except that nothing was written to the display before the first character. -/
def Covers (r : Reveal) (text display : String) : Prop :=
  ∃ shown, text.toList = shown ++ r.pending ∧ shown.length = r.revealed ∧
    (r.revealed ≠ 0 → display.toList = shown)

/-- Exactly what was revealed is displayed. -/
def Shows (r : Reveal) (text display : String) : Prop :=
  text.toList = display.toList ++ r.pending ∧ display.toList.length = r.revealed

theorem Shows.covers (h : r.Shows text display) : r.Covers text display :=
  ⟨display.toList, h.1, h.2, fun _ => rfl⟩

theorem Shows.toList_prefix (h : r.Shows text display) : display.toList <+: text.toList :=
  ⟨r.pending, h.1.symm⟩

theorem covers_start (text : String) (delay : Duration) (display : String) :
    (start text delay).Covers text display :=
  ⟨[], rfl, rfl, fun h => absurd rfl h⟩

theorem shows_start (text : String) (delay : Duration) : (start text delay).Shows text "" :=
  ⟨by simp [start], by simp [start]⟩

/-- Whatever was displayed before, after a frame it is what was revealed. -/
theorem Covers.advance (h : r.Covers text display) (delta : Duration) :
    (r.advance delta display).next.Shows text (r.advance delta display).world := by
  obtain ⟨shown, htext, hlength, hshown⟩ := h
  have hdisplay : (if r.revealed = 0 then "" else display).toList = shown := by
    split
    · next hzero =>
      rw [hzero] at hlength
      simp [List.length_eq_zero_iff.mp hlength]
    · next hpos => exact hshown hpos
  unfold Reveal.advance
  cases r.elapsed.add? delta with
  | none =>
    dsimp only
    exact ⟨by rw [hdisplay, htext], by rw [hdisplay, hlength]⟩
  | some elapsed =>
    have hdue := dueCharacters_append r.delay r.pending elapsed
    dsimp only
    refine ⟨?_, ?_⟩
    · rw [String.toList_append, hdisplay, String.toList_ofList, List.append_assoc, hdue, htext]
    · rw [String.toList_append, hdisplay, String.toList_ofList, List.length_append, hlength]

/-- A text that is done is displayed completely. -/
theorem Covers.eq_of_done (h : r.Covers text display) {delta : Duration}
    (hdone : (r.advance delta display).outcome = .ok .done) :
    (r.advance delta display).world = text := by
  have hpending : (r.advance delta display).next.pending = [] := by
    unfold Reveal.advance at hdone ⊢
    cases hadd : r.elapsed.add? delta with
    | none => simp [hadd] at hdone
    | some elapsed => simpa [hadd] using hdone
  have hshows := (h.advance delta).1
  rw [hpending, List.append_nil] at hshows
  exact String.toList_injective hshows.symm

end Reveal

/-! ## Lines -/

namespace LineBubble

variable {b : LineBubble} {frame : Frame} {t : Transcript} {s : Step LineBubble Transcript}

/-- A frame of a line. -/
inductive Turn (b : LineBubble) (frame : Frame) (t : Transcript) :
    Step LineBubble Transcript → Prop where
  | opening {timer timer' : Timer} {outcome : Outcome} (h : b.stage = .opening timer)
      (hne : outcome ≠ .ok .done) : Turn b frame t ⟨outcome, { b with stage := .opening timer' }, t⟩
  | opened {timer : Timer} (h : b.stage = .opening timer) :
      Turn b frame t ⟨.ok .running, { b with stage := .revealing (.start b.text b.revealDelay) },
        t.append (.line b.text b.position)⟩
  | revealing {r : Reveal} (h : b.stage = .revealing r)
      (hne : (r.advance frame.delta t.display).outcome ≠ .ok .done) :
      Turn b frame t ⟨(r.advance frame.delta t.display).outcome,
        { b with stage := .revealing (r.advance frame.delta t.display).next },
        { t with display := (r.advance frame.delta t.display).world }⟩
  | revealed {r : Reveal} (h : b.stage = .revealing r)
      (hdone : (r.advance frame.delta t.display).outcome = .ok .done) :
      Turn b frame t ⟨.ok .running, { b with stage := .waiting },
        { t with display := (r.advance frame.delta t.display).world }⟩
  | waiting (h : b.stage = .waiting) (hsubmit : frame.input.submit = false) :
      Turn b frame t ⟨.ok .running, b, t⟩
  | submitted (h : b.stage = .waiting) (hsubmit : frame.input.submit = true) :
      Turn b frame t ⟨.ok .done, b, t.cleared⟩

theorem turn_advance (b : LineBubble) (frame : Frame) (t : Transcript) :
    b.Turn frame t (b.advance frame t) := by
  unfold advance
  split
  · next timer hstage =>
    split
    · exact .opened hstage
    · next hne _ => exact .opening hstage hne
  · next reveal hstage =>
    dsimp only
    split
    · next hdone => exact .revealed hstage hdone
    · next hne => exact .revealing hstage hne
  · next hstage =>
    split
    · next hsubmit => exact .submitted hstage hsubmit
    · next hsubmit => exact .waiting hstage (by simpa using hsubmit)

/-- What is displayed while the line is open. -/
def Shows (b : LineBubble) (display : String) : Prop :=
  match b.stage with
  | .opening _ => display = ""
  | .revealing r => r.Shows b.text display
  | .waiting => display = b.text

/-- A part of the text is displayed. -/
theorem Shows.toList_prefix {display : String} (h : b.Shows display) :
    display.toList <+: b.text.toList := by
  unfold Shows at h
  split at h
  · simp [h]
  · exact Reveal.Shows.toList_prefix h
  · simp [h]

theorem Turn.text_eq (h : b.Turn frame t s) : s.next.text = b.text := by cases h <;> rfl

/-- A frame of a line keeps its display in order. -/
theorem Turn.shows (h : b.Turn frame t s) (hne : s.outcome ≠ .ok .done) (hb : b.Shows t.display) :
    s.next.Shows s.world.display := by
  cases h with
  | opening hstage _ => simpa [Shows, hstage] using hb
  | opened hstage => exact Reveal.shows_start b.text b.revealDelay
  | revealing hstage _ =>
    simp only [Shows, hstage] at hb
    exact hb.covers.advance frame.delta
  | revealed hstage hdone =>
    simp only [Shows, hstage] at hb
    exact hb.covers.eq_of_done hdone
  | waiting _ _ => exact hb
  | submitted _ _ => exact absurd rfl hne

/-- A line is dismissed when its text is displayed completely, and then nothing is displayed. -/
theorem Turn.of_done (h : b.Turn frame t s) (hdone : s.outcome = .ok .done)
    (hb : b.Shows t.display) : b.stage = .waiting ∧ t.display = b.text ∧ s.world.display = "" := by
  cases h with
  | opening _ hne => exact absurd hdone hne
  | revealing _ hne => exact absurd hdone hne
  | submitted hstage _ => exact ⟨hstage, by simpa [Shows, hstage] using hb, rfl⟩
  | _ => simp at hdone

/-- What the line will still enter. -/
def due (b : LineBubble) : List Entry :=
  match b.stage with
  | .opening _ => [.line b.text b.position]
  | _ => []

/-- A line is entered once: what a frame enters is not due any more. -/
theorem Turn.exists_entered (h : b.Turn frame t s) :
    ∃ added, s.world.entries = t.entries ++ added ∧ b.due = added ++ s.next.due := by
  cases h with
  | opened hstage => exact ⟨[.line b.text b.position], rfl, by simp [due, hstage]⟩
  | opening hstage _ => exact ⟨[], by simp, by simp [due, hstage]⟩
  | revealing hstage _ => exact ⟨[], by simp, by simp [due, hstage]⟩
  | revealed hstage _ => exact ⟨[], by simp, by simp [due, hstage]⟩
  | waiting hstage _ => exact ⟨[], by simp, by simp [due, hstage]⟩
  | submitted hstage _ => exact ⟨[], by simp [Transcript.cleared], by simp [due, hstage]⟩

/-- A line that is dismissed has been entered. -/
theorem Turn.due_eq_nil (h : b.Turn frame t s) (hdone : s.outcome = .ok .done) :
    s.next.due = [] := by
  cases h with
  | opening _ hne => exact absurd hdone hne
  | revealing _ hne => exact absurd hdone hne
  | submitted hstage _ => simp [due, hstage]
  | _ => simp at hdone

end LineBubble

/-! ## Choices -/

namespace ChoiceBubble

variable {b : ChoiceBubble} {frame : Frame} {w : Transcript × Selections}
  {s : Step ChoiceBubble (Transcript × Selections)}

/-- A frame of a choice that has labels. -/
inductive Turn (b : ChoiceBubble) (frame : Frame) (w : Transcript × Selections) :
    Step ChoiceBubble (Transcript × Selections) → Prop where
  | opening {timer timer' : Timer} {outcome : Outcome} (h : b.stage = .opening timer)
      (hne : outcome ≠ .ok .done) : Turn b frame w ⟨outcome, { b with stage := .opening timer' }, w⟩
  | opened {timer : Timer} (h : b.stage = .opening timer) :
      Turn b frame w ⟨.ok .running, b.highlight 0, w⟩
  | revealing {r : Reveal} (h : b.stage = .revealing r)
      (hne : (r.advance frame.delta w.1.display).outcome ≠ .ok .done) :
      Turn b frame w ⟨(r.advance frame.delta w.1.display).outcome,
        { b with stage := .revealing (r.advance frame.delta w.1.display).next },
        { w.1 with display := (r.advance frame.delta w.1.display).world }, w.2⟩
  | revealed {r : Reveal} (h : b.stage = .revealing r)
      (hdone : (r.advance frame.delta w.1.display).outcome = .ok .done) :
      Turn b frame w ⟨.ok .running, { b with stage := .idle },
        { w.1 with display := (r.advance frame.delta w.1.display).world }, w.2⟩
  | idle (h : b.stage = .idle) (hsubmit : frame.input.submit = false) :
      Turn b frame w ⟨.ok .running, b, w⟩
  | moved {index : Nat} (h : b.stage = .idle) (hsubmit : frame.input.submit = false)
      (hindex : index < b.labels.length) : Turn b frame w ⟨.ok .running, b.highlight index, w⟩
  | submitted (h : b.stage = .idle) (hsubmit : frame.input.submit = true) :
      Turn b frame w ⟨.ok .done, b, w.1.append (.choice b.labels b.highlighted b.position),
        w.2.select b.slot b.highlighted⟩

theorem turn_advance (h : b.InRange) (frame : Frame) (w : Transcript × Selections) :
    b.Turn frame w (b.advance frame w) := by
  have hlabels : b.labels.isEmpty = false := by
    simpa using List.ne_nil_of_length_pos (Nat.zero_lt_of_lt h)
  unfold advance
  simp only [hlabels, Bool.false_eq_true, if_false]
  split
  · next timer hstage =>
    split
    · exact .opened hstage
    · next hne _ => exact .opening hstage hne
  · next reveal hstage =>
    split
    · next hdone => exact .revealed hstage hdone
    · next hne => exact .revealing hstage hne
  · next hstage =>
    split
    · next hsubmit => exact .submitted hstage hsubmit
    · next hsubmit =>
      have hsubmit : frame.input.submit = false := by simpa using hsubmit
      split
      · exact .moved hstage hsubmit (following_lt h)
      · split
        · exact .moved hstage hsubmit (preceding_lt h)
        · exact .idle hstage hsubmit

/-- A frame of a choice keeps its labels, one of which is highlighted. -/
theorem Turn.continues (h : b.Turn frame w s) (hb : b.InRange) : b.Continues s.next := by
  cases h with
  | opened _ => exact ⟨rfl, rfl, Nat.zero_lt_of_lt hb⟩
  | moved _ _ hindex => exact ⟨rfl, rfl, hindex⟩
  | _ => exact ⟨rfl, rfl, hb⟩

/-- What is displayed while the choice is open.  Until the first character of another label is due,
it is still the label before. -/
def Shows (b : ChoiceBubble) (display : String) : Prop :=
  match b.stage with
  | .opening _ => display = ""
  | .revealing r => r.Covers (b.labels.getD b.highlighted "") display ∧
      ∃ label ∈ b.labels, display.toList <+: label.toList
  | .idle => b.labels[b.highlighted]? = some display

/-- The label that is highlighted. -/
theorem InRange.getElem? (h : b.InRange) :
    b.labels[b.highlighted]? = some (b.labels.getD b.highlighted "") := by
  rw [List.getD_eq_getElem?_getD, List.getElem?_eq_getElem h]
  rfl

/-- A part of one of the labels is displayed. -/
theorem Shows.exists_prefix {display : String} (h : b.Shows display) (hb : b.InRange) :
    ∃ label ∈ b.labels, display.toList <+: label.toList := by
  unfold Shows at h
  split at h
  · exact ⟨_, List.getElem_mem hb, by simp [h]⟩
  · exact h.2
  · exact ⟨display, List.mem_of_getElem? h, List.prefix_refl _⟩

/-- A frame of a choice keeps its display in order. -/
theorem Turn.shows (h : b.Turn frame w s) (hne : s.outcome ≠ .ok .done) (hb : b.InRange)
    (hshows : b.Shows w.1.display) : s.next.Shows s.world.1.display := by
  have hlabel := hshows.exists_prefix hb
  cases h with
  | opening hstage _ => simpa [Shows, hstage] using hshows
  | opened _ => exact ⟨Reveal.covers_start _ _ _, hlabel⟩
  | revealing hstage _ =>
    simp only [Shows, hstage] at hshows
    have hnext := hshows.1.advance frame.delta
    exact ⟨hnext.covers, _, List.mem_of_getElem? hb.getElem?, hnext.toList_prefix⟩
  | revealed hstage hdone =>
    simp only [Shows, hstage] at hshows
    exact hb.getElem?.trans (congrArg some (hshows.1.eq_of_done hdone).symm)
  | idle _ _ => exact hshows
  | moved _ _ _ => exact ⟨Reveal.covers_start _ _ _, hlabel⟩
  | submitted _ _ => exact absurd rfl hne

/-- A choice is made when the label that is selected is displayed completely; then it is entered, and
nothing is displayed. -/
theorem Turn.of_done (h : b.Turn frame w s) (hdone : s.outcome = .ok .done) :
    b.stage = .idle ∧ s.world = (w.1.append (.choice b.labels b.highlighted b.position),
      w.2.select b.slot b.highlighted) := by
  cases h with
  | opening _ hne => exact absurd hdone hne
  | revealing _ hne => exact absurd hdone hne
  | submitted hstage _ => exact ⟨hstage, rfl⟩
  | _ => simp at hdone

/-- Until then nothing is entered and nothing is selected. -/
theorem Turn.of_ne (h : b.Turn frame w s) (hne : s.outcome ≠ .ok .done) :
    s.world.1.entries = w.1.entries ∧ s.world.2 = w.2 := by
  cases h with
  | submitted _ _ => exact absurd rfl hne
  | _ => exact ⟨rfl, rfl⟩

end ChoiceBubble

end Promptbook.Bubble
