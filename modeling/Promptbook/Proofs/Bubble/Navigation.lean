import Promptbook.Proofs.Bubble.Life

set_option autoImplicit false

/-!
# Moving through a choice

While the label that is highlighted is still being revealed, a choice is deaf: what the player
presses counts only on the ticks after the label was complete.  Each press that counts and moves to
another label begins its reveal anew, so which of the later presses count depends on when the
earlier ones came.

All the same it can be told from the frames alone.  `pressesBy` are the presses that counted on the
first ticks; they say which label is highlighted (`highlightedAfter`), since when it is being
revealed (`shownSince`) and when it is complete (`settlesOn`), and so whether a press on the next
tick counts (`idleOn`).  `ChoiceBubble.Standing` relates a bubble to them and is kept by every
frame, whatever else is written to the transcript meanwhile.
-/

namespace Promptbook

/-! ## Presses -/

/-- What a player can ask of a choice. -/
inductive Press where
  | submit
  | next
  | previous
  deriving DecidableEq

/-- What the player asks for with the buttons of a tick: submitting comes before moving on, and
moving on before moving back. -/
def Input.press? (input : Input) : Option Press :=
  if input.submit then some .submit
  else if input.next then some .next
  else if input.previous then some .previous
  else none

theorem Input.press?_eq_submit_iff {input : Input} :
    input.press? = some .submit ↔ input.submit = true := by
  unfold press?
  split
  · simpa
  · next hsubmit => cases input.next <;> cases input.previous <;> simp [hsubmit]

/-- Time that is counted from a later tick on is not longer. -/
theorem timeFrom_le_of_le {frames : List Frame} {r s : Nat} (h : r ≤ s) (t : Nat) :
    timeFrom frames s t ≤ timeFrom frames r t := by
  have hempty {t : Nat} (hlt : t < s) : timeFrom frames s t = 0 := by
    have hnone : t + 1 - s = 0 := by omega
    simp [timeFrom, hnone]
  induction t with
  | zero =>
    rcases Nat.eq_zero_or_pos s with rfl | hpos
    · exact Nat.le_of_eq (by rw [Nat.le_zero.mp h])
    · rw [hempty hpos]
      exact Nat.zero_le _
  | succ t ih =>
    by_cases hs : s ≤ t + 1
    · rw [timeFrom_succ hs, timeFrom_succ (Nat.le_trans h hs)]
      exact Nat.add_le_add_right ih _
    · rw [hempty (Nat.lt_of_not_le hs)]
      exact Nat.zero_le _

namespace Bubble

/-- How far some presses move on, less how far they move back. -/
def movesOf (presses : List (Nat × Press)) : Int :=
  (presses.map Prod.snd).count .next - (presses.map Prod.snd).count .previous

/-- The label that is highlighted after some presses: the moves lead around the labels. -/
def highlightedAfter (labels : List String) (presses : List (Nat × Press)) : Nat :=
  (movesOf presses % labels.length).toNat

section Highlighted

variable {labels : List String} {presses : List (Nat × Press)}

theorem natCast_highlightedAfter (h : labels ≠ []) :
    (highlightedAfter labels presses : Int) = movesOf presses % labels.length :=
  Int.toNat_of_nonneg (Int.emod_nonneg _ (by simpa using h))

theorem highlightedAfter_lt (h : labels ≠ []) :
    highlightedAfter labels presses < labels.length := by
  have hpos : (0 : Int) < labels.length := by simpa using List.length_pos_iff.mpr h
  have hlt := Int.emod_lt_of_pos (movesOf presses) hpos
  rw [← natCast_highlightedAfter h] at hlt
  exact Int.ofNat_lt.mp hlt

theorem highlightedAfter_nil (labels : List String) : highlightedAfter labels [] = 0 := by
  simp [highlightedAfter, movesOf]

theorem movesOf_append (presses more : List (Nat × Press)) :
    movesOf (presses ++ more) = movesOf presses + movesOf more := by
  simp only [movesOf, List.map_append, List.count_append, Int.natCast_add]
  omega

theorem highlightedAfter_submit (labels : List String) (presses : List (Nat × Press)) (t : Nat) :
    highlightedAfter labels (presses ++ [(t, .submit)]) = highlightedAfter labels presses := by
  have hmoves : movesOf [(t, Press.submit)] = 0 := rfl
  rw [highlightedAfter, movesOf_append, hmoves, Int.add_zero, highlightedAfter]

theorem highlightedAfter_next (h : labels ≠ []) (t : Nat) :
    highlightedAfter labels (presses ++ [(t, .next)]) =
      (highlightedAfter labels presses + 1) % labels.length := by
  have hmoves : movesOf [(t, Press.next)] = 1 := rfl
  apply Int.ofNat.inj
  simp only [Int.ofNat_eq_natCast]
  rw [natCast_highlightedAfter h, movesOf_append, hmoves, Int.natCast_emod, Int.natCast_add,
    natCast_highlightedAfter h, Int.natCast_one, Int.emod_add_emod]

theorem highlightedAfter_previous (h : labels ≠ []) (t : Nat) :
    highlightedAfter labels (presses ++ [(t, .previous)]) =
      (highlightedAfter labels presses + labels.length - 1) % labels.length := by
  have hmoves : movesOf [(t, Press.previous)] = -1 := rfl
  have hpos := List.length_pos_iff.mpr h
  -- in whole numbers, the way round leads back to the same label
  have hround : ((highlightedAfter labels presses + labels.length - 1 : Nat) : Int) =
      movesOf presses % labels.length + -1 + labels.length := by
    rw [← natCast_highlightedAfter h]
    omega
  apply Int.ofNat.inj
  simp only [Int.ofNat_eq_natCast]
  rw [natCast_highlightedAfter h, movesOf_append, hmoves, Int.natCast_emod, hround,
    Int.add_emod_right, Int.emod_add_emod]

end Highlighted

/-! ## The ticks of a choice -/

section Ticks

variable (delays : Delays) (labels : List String) (frames : List Frame)

/-- The tick since which the highlighted label is being revealed: that of the last press that
counted, and that of the opening before there was any. -/
def shownSince (presses : List (Nat × Press)) : Option Nat :=
  (presses.getLast?.map Prod.fst).or (opensOn delays frames)

/-- The tick on which the highlighted label is complete: the first one up to which there was time
for all of its characters. -/
def settlesOn (presses : List (Nat × Press)) : Option Nat :=
  (shownSince delays frames presses).bind fun i => firstFrom frames (i + 1) fun t =>
    decide ((labels.getD (highlightedAfter labels presses) "").length * delays.reveal.nanos ≤
      timeFrom frames (i + 1) t)

/-- The presses that counted on the first ticks, each with its tick: those that came when the
highlighted label had been complete on an earlier tick. -/
def pressesBy : Nat → List (Nat × Press)
  | 0 => []
  | t + 1 =>
    if endedBy (settlesOn delays labels frames (pressesBy t)) t then
      pressesBy t ++ ((frameAt frames (t + 1)).input.press?.map fun press => (t + 1, press)).toList
    else pressesBy t

/-- Whether the highlighted label was complete on a tick before. -/
def idleOn (t : Nat) : Bool :=
  endedBy (settlesOn delays labels frames (pressesBy delays labels frames (t - 1))) (t - 1)

/-- Whether the player submits on a tick, and it counts. -/
def submittedOn (t : Nat) : Bool :=
  idleOn delays labels frames t && (frameAt frames t).input.submit

/-- The tick on which a label is submitted. -/
def submitsOn : Option Nat := firstFrom frames 1 (submittedOn delays labels frames)

end Ticks

section Ticks

variable {delays : Delays} {labels : List String} {frames : List Frame} {t : Nat}

theorem pressesBy_succ_of_idle (h : idleOn delays labels frames (t + 1) = true) :
    pressesBy delays labels frames (t + 1) = pressesBy delays labels frames t ++
      ((frameAt frames (t + 1)).input.press?.map fun press => (t + 1, press)).toList :=
  if_pos h

theorem pressesBy_succ_of_not_idle (h : idleOn delays labels frames (t + 1) = false) :
    pressesBy delays labels frames (t + 1) = pressesBy delays labels frames t :=
  if_neg (by rw [idleOn, Nat.add_sub_cancel] at h; simp [h])

theorem shownSince_append (presses : List (Nat × Press)) (press : Press) :
    shownSince delays frames (presses ++ [(t, press)]) = some t := by
  simp [shownSince]

/-- A choice that did not have the time to open up to a tick is not idle on the next one. -/
theorem idleOn_of_opening
    (hnot : ∀ i, 1 ≤ i → i ≤ t → timeFrom frames 1 i < delays.opening.nanos)
    (hnone : pressesBy delays labels frames t = []) :
    idleOn delays labels frames (t + 1) = false := by
  rw [← Bool.not_eq_true, idleOn, Nat.add_sub_cancel, hnone, endedBy_iff]
  rintro ⟨e, hsettles, hle⟩
  obtain ⟨i, hshown, hfirst⟩ := Option.bind_eq_some_iff.mp hsettles
  have hopens : t < i := LineBubble.lt_of_opensOn hnot (by simpa [shownSince] using hshown)
  have hlt := le_of_firstFrom hfirst
  omega

/-- A choice whose label did not have the time for all its characters is not idle on the next
tick. -/
theorem idleOn_of_revealing {i : Nat}
    (hshown : shownSince delays frames (pressesBy delays labels frames t) = some i)
    (hnot : ∀ j, i + 1 ≤ j → j ≤ t → timeFrom frames (i + 1) j <
      (labels.getD (highlightedAfter labels (pressesBy delays labels frames t)) "").length *
        delays.reveal.nanos) :
    idleOn delays labels frames (t + 1) = false := by
  rw [← Bool.not_eq_true, idleOn, Nat.add_sub_cancel, endedBy_iff, settlesOn, hshown]
  rintro ⟨e, hfirst, hle⟩
  have hlt := lt_of_firstFrom hfirst fun j hj hle => by simpa using hnot j hj hle
  omega

end Ticks

/-! ## Revealing, whatever is displayed -/

namespace Reveal

/-- The part of a text that is revealed after that much time, although others may have written to
the display. -/
def Passed (r : Reveal) (delay : Duration) (text : String) (passed : Nat) : Prop :=
  ∃ display, r.Reached delay text display passed

/-- What is displayed makes no difference to what is still to be revealed. -/
theorem advance_display (r : Reveal) (delta : Duration) (display other : String) :
    (r.advance delta display).outcome = (r.advance delta other).outcome ∧
      (r.advance delta display).next = (r.advance delta other).next := by
  unfold advance
  cases r.elapsed.add? delta <;> exact ⟨rfl, rfl⟩

variable {r : Reveal} {delay : Duration} {text : String} {passed : Nat}

theorem passed_start (delay : Duration) (text : String) : (start text delay).Passed delay text 0 :=
  ⟨"", reached_start delay text⟩

/-- A frame adds its time, and the text is complete as soon as there was time for all characters. -/
theorem Passed.advance (h : r.Passed delay text passed) (delta : Duration) (display : String) :
    (r.advance delta display).outcome = .error .overflow ∧
        Duration.bound ≤ passed + delta.nanos ∨
      (r.advance delta display).next.Passed delay text (passed + delta.nanos) ∧
        (r.advance delta display).outcome =
          .ok (if text.length * delay.nanos ≤ passed + delta.nanos then .done else .running) := by
  obtain ⟨shown, hreached⟩ := h
  obtain ⟨houtcome, hnext⟩ := r.advance_display delta display shown
  rw [houtcome, hnext]
  by_cases hoverflow : (r.advance delta shown).outcome = .error .overflow
  · refine .inl ⟨hoverflow, ?_⟩
    have hsum : r.elapsed.add? delta = none := by
      unfold Reveal.advance at hoverflow
      cases hsum : r.elapsed.add? delta with
      | none => rfl
      | some elapsed => simp [hsum] at hoverflow
    have hbound := Duration.add?_eq_none_iff.mp hsum
    have hnanos := hreached.nanos_eq
    omega
  · obtain ⟨hnext, houtcome, -⟩ := hreached.advance hoverflow
    exact .inr ⟨⟨_, hnext⟩, houtcome⟩

end Reveal

/-! ## Frames of a choice -/

namespace ChoiceBubble

section Frames

variable {b : ChoiceBubble} {frame : Frame} {w : Transcript × Selections}

theorem advance_opening (b : ChoiceBubble) (frame : Frame) (w : Transcript × Selections)
    {timer : Timer} (hlabels : b.labels ≠ []) (hstage : b.stage = .opening timer) :
    (b.advance frame w).outcome = .error .overflow ∧
        Duration.bound ≤ timer.elapsed.nanos + frame.delta.nanos ∨
      ∃ elapsed : Duration, elapsed.nanos = timer.elapsed.nanos + frame.delta.nanos ∧
        b.advance frame w =
          if timer.duration ≤ elapsed then ⟨.ok .running, b.highlight 0, w⟩
          else ⟨.ok .running, { b with stage := .opening { timer with elapsed := elapsed } }, w⟩ := by
  unfold advance Timer.advance
  simp only [hstage, List.isEmpty_iff, hlabels, if_false]
  cases hsum : timer.elapsed.add? frame.delta with
  | none => exact .inl ⟨rfl, Duration.add?_eq_none_iff.mp hsum⟩
  | some elapsed =>
    refine .inr ⟨elapsed, Duration.add?_eq_some_iff.mp hsum, ?_⟩
    by_cases hdone : timer.duration ≤ elapsed <;> simp [hdone]

theorem advance_revealed {r : Reveal} (hlabels : b.labels ≠ []) (hstage : b.stage = .revealing r)
    (hdone : (r.advance frame.delta w.1.display).outcome = .ok .done) :
    b.advance frame w = ⟨.ok .running, { b with stage := .idle },
      { w.1 with display := (r.advance frame.delta w.1.display).world }, w.2⟩ := by
  unfold advance
  simp only [hstage, List.isEmpty_iff, hlabels, if_false, hdone]

theorem advance_revealing {r : Reveal} (hlabels : b.labels ≠ []) (hstage : b.stage = .revealing r)
    (hne : (r.advance frame.delta w.1.display).outcome ≠ .ok .done) :
    b.advance frame w = ⟨(r.advance frame.delta w.1.display).outcome,
      { b with stage := .revealing (r.advance frame.delta w.1.display).next },
      { w.1 with display := (r.advance frame.delta w.1.display).world }, w.2⟩ := by
  unfold advance
  simp only [hstage, List.isEmpty_iff, hlabels, if_false]

/-- An idle choice does what the player asks for. -/
theorem advance_idle (hlabels : b.labels ≠ []) (hstage : b.stage = .idle) :
    b.advance frame w =
      match frame.input.press? with
      | some .submit =>
        ⟨.ok .done, b, w.1.append (.choice b.labels b.highlighted b.position),
          w.2.select b.slot b.highlighted⟩
      | some .next => ⟨.ok .running, b.highlight b.following, w⟩
      | some .previous => ⟨.ok .running, b.highlight b.preceding, w⟩
      | none => ⟨.ok .running, b, w⟩ := by
  unfold advance Input.press?
  simp only [hstage, List.isEmpty_iff, hlabels, if_false]
  cases frame.input.submit
  · cases frame.input.next
    · cases frame.input.previous <;> rfl
    · rfl
  · rfl

end Frames

/-! ## After a number of ticks -/

/-- The bubble of a choice after some presses, in a stage. -/
def ofPresses (delays : Delays) (labels : List String) (position : Position) (slot : Slot)
    (presses : List (Nat × Press)) (stage : ChoiceStage) : ChoiceBubble :=
  ⟨labels, position, slot, delays.reveal, highlightedAfter labels presses, stage⟩

/-- What the bubble of a choice is after `t` ticks on which no label was submitted. -/
inductive Standing (delays : Delays) (labels : List String) (position : Position) (slot : Slot)
    (frames : List Frame) (t : Nat) : ChoiceBubble → Prop where
  | opening {timer : Timer}
      (hnot : ∀ i, 1 ≤ i → i ≤ t → timeFrom frames 1 i < delays.opening.nanos)
      (hnone : pressesBy delays labels frames t = []) (hduration : timer.duration = delays.opening)
      (helapsed : timer.elapsed.nanos = timeFrom frames 1 t) :
      Standing delays labels position slot frames t
        (ofPresses delays labels position slot [] (.opening timer))
  | revealing {i : Nat} {r : Reveal}
      (hshown : shownSince delays frames (pressesBy delays labels frames t) = some i) (hi : i ≤ t)
      (hnot : ∀ j, i + 1 ≤ j → j ≤ t → timeFrom frames (i + 1) j <
        (labels.getD (highlightedAfter labels (pressesBy delays labels frames t)) "").length *
          delays.reveal.nanos)
      (hpassed : r.Passed delays.reveal
        (labels.getD (highlightedAfter labels (pressesBy delays labels frames t)) "")
        (timeFrom frames (i + 1) t)) :
      Standing delays labels position slot frames t
        (ofPresses delays labels position slot (pressesBy delays labels frames t) (.revealing r))
  | idle (hidle : idleOn delays labels frames (t + 1) = true) :
      Standing delays labels position slot frames t
        (ofPresses delays labels position slot (pressesBy delays labels frames t) .idle)

/-- What a frame of a choice comes to on the tick after `t`, from the transcript and the selections
before it. -/
inductive Onward (delays : Delays) (labels : List String) (position : Position) (slot : Slot)
    (frames : List Frame) (t : Nat) (before : Transcript × Selections)
    (s : Step ChoiceBubble (Transcript × Selections)) : Prop where
  | overflow (h : s.outcome = .error .overflow) (hlate : Duration.bound ≤ timeFrom frames 1 (t + 1))
  | running (h : s.outcome = .ok .running)
      (hsubmit : submittedOn delays labels frames (t + 1) = false)
      (hnext : Standing delays labels position slot frames (t + 1) s.next)
      (hmoved : ∀ press, idleOn delays labels frames (t + 1) = true →
        (frameAt frames (t + 1)).input.press? = some press →
        s.next.stage = .revealing (.start (labels.getD s.next.highlighted "") delays.reveal))
      (hentries : s.world.1.entries = before.1.entries) (hselections : s.world.2 = before.2)
  | done (h : s.outcome = .ok .done) (hsubmit : submittedOn delays labels frames (t + 1) = true)
      (hnext : s.next = ofPresses delays labels position slot
        (pressesBy delays labels frames (t + 1)) .idle)
      (hworld : s.world = (before.1.append (.choice labels s.next.highlighted position),
        before.2.select slot s.next.highlighted))

section Standing

variable {delays : Delays} {labels : List String} {position : Position} {slot : Slot}
  {frames : List Frame} {t : Nat} {b : ChoiceBubble} {w : Transcript × Selections}

/-- A bubble that was just opened. -/
theorem standing_zero (delays : Delays) (labels : List String) (position : Position) (slot : Slot)
    (frames : List Frame) :
    Standing delays labels position slot frames 0
      ⟨labels, position, slot, delays.reveal, 0, .opening (.start delays.opening)⟩ := by
  have hopening : Standing delays labels position slot frames 0
      (ofPresses delays labels position slot [] (.opening (.start delays.opening))) :=
    .opening (fun i hi hle => absurd hi (by omega)) rfl rfl (by simp [Timer.start, timeFrom])
  rwa [ofPresses, highlightedAfter_nil] at hopening

theorem highlight_ofPresses {presses more : List (Nat × Press)} {stage : ChoiceStage} {index : Nat}
    (h : highlightedAfter labels more = index) :
    (ofPresses delays labels position slot presses stage).highlight index =
      ofPresses delays labels position slot more
        (.revealing (.start (labels.getD (highlightedAfter labels more) "") delays.reveal)) := by
  subst h
  rfl

/-- A label that begins to be revealed. -/
theorem Standing.of_shown {presses : List (Nat × Press)}
    (hpresses : pressesBy delays labels frames (t + 1) = presses)
    (hshown : shownSince delays frames presses = some (t + 1)) :
    Standing delays labels position slot frames (t + 1) (ofPresses delays labels position slot presses
      (.revealing (.start (labels.getD (highlightedAfter labels presses) "") delays.reveal))) := by
  subst hpresses
  refine .revealing hshown (Nat.le_refl _) (fun j hj hle => absurd hj (by omega)) ?_
  simpa [timeFrom] using Reveal.passed_start delays.reveal _

/-- A bubble that is opening opens on the next tick if the time has come, or goes on opening. -/
theorem onward_opening {timer : Timer} (hlabels : labels ≠ []) (ht : t < frames.length)
    (hnot : ∀ i, 1 ≤ i → i ≤ t → timeFrom frames 1 i < delays.opening.nanos)
    (hnone : pressesBy delays labels frames t = []) (hduration : timer.duration = delays.opening)
    (helapsed : timer.elapsed.nanos = timeFrom frames 1 t) :
    Onward delays labels position slot frames t w
      ((ofPresses delays labels position slot [] (.opening timer)).advance
        (frameAt frames (t + 1)) w) := by
  have hdeaf := idleOn_of_opening hnot hnone
  have hpresses := (pressesBy_succ_of_not_idle hdeaf).trans hnone
  have hsubmit : submittedOn delays labels frames (t + 1) = false := by simp [submittedOn, hdeaf]
  have hsum : timeFrom frames 1 (t + 1) =
      timeFrom frames 1 t + (frameAt frames (t + 1)).delta.nanos := timeFrom_succ (by omega)
  rcases advance_opening (ofPresses delays labels position slot [] (.opening timer))
    (frameAt frames (t + 1)) w hlabels rfl with ⟨hoverflow, hlate⟩ | ⟨elapsed, hnanos, hstep⟩
  · exact .overflow hoverflow (by omega)
  · have henough : delays.opening ≤ elapsed ↔
        delays.opening.nanos ≤ timeFrom frames 1 (t + 1) := by
      rw [Duration.le_iff, hnanos, helapsed, hsum]
    rw [hstep, hduration]
    split
    · next hdone =>
      have hopens : opensOn delays frames = some (t + 1) :=
        firstFrom_eq_some (by omega) ht (decide_eq_true (henough.mp hdone)) fun i hi hlt => by
          simpa using hnot i hi (by omega)
      rw [highlight_ofPresses (highlightedAfter_nil labels)]
      exact .running rfl hsubmit (.of_shown hpresses (by simpa [shownSince] using hopens))
        (fun _ _ _ => rfl) rfl rfl
    · next hdone =>
      refine .running rfl hsubmit (.opening (fun i hi hle => ?_) hpresses rfl ?_)
        (fun _ hidle => absurd hidle (by simp [hdeaf])) rfl rfl
      · rcases Nat.lt_or_eq_of_le hle with hlt | rfl
        · exact hnot i hi (by omega)
        · exact Nat.lt_of_not_le fun h => hdone (henough.mpr h)
      · rw [hnanos, helapsed, hsum]

/-- A label that is being revealed is complete on the next tick if there was time for all of its
characters, or goes on being revealed. -/
theorem onward_revealing {i : Nat} {r : Reveal} (hlabels : labels ≠ []) (ht : t < frames.length)
    (hshown : shownSince delays frames (pressesBy delays labels frames t) = some i) (hi : i ≤ t)
    (hnot : ∀ j, i + 1 ≤ j → j ≤ t → timeFrom frames (i + 1) j <
      (labels.getD (highlightedAfter labels (pressesBy delays labels frames t)) "").length *
        delays.reveal.nanos)
    (hpassed : r.Passed delays.reveal
      (labels.getD (highlightedAfter labels (pressesBy delays labels frames t)) "")
      (timeFrom frames (i + 1) t)) :
    Onward delays labels position slot frames t w
      ((ofPresses delays labels position slot (pressesBy delays labels frames t)
        (.revealing r)).advance (frameAt frames (t + 1)) w) := by
  have hdeaf := idleOn_of_revealing hshown hnot
  have hpresses := pressesBy_succ_of_not_idle hdeaf
  have hsubmit : submittedOn delays labels frames (t + 1) = false := by simp [submittedOn, hdeaf]
  have hnext := hpassed.advance (frameAt frames (t + 1)).delta w.1.display
  rw [← timeFrom_succ (by omega)] at hnext
  rw [← hpresses] at hshown hnot hnext ⊢
  rcases hnext with ⟨hoverflow, hlate⟩ | ⟨hnext, houtcome⟩
  · rw [advance_revealing hlabels rfl (by rw [hoverflow]; simp)]
    exact .overflow hoverflow (Nat.le_trans hlate (timeFrom_le_of_le (by omega) _))
  · by_cases hdone : (labels.getD (highlightedAfter labels
        (pressesBy delays labels frames (t + 1))) "").length * delays.reveal.nanos ≤
          timeFrom frames (i + 1) (t + 1)
    · rw [if_pos hdone] at houtcome
      have hidle : idleOn delays labels frames (t + 1 + 1) = true := by
        rw [idleOn, Nat.add_sub_cancel, endedBy_iff, settlesOn, hshown]
        exact ⟨t + 1, firstFrom_eq_some (by omega) ht (by simpa using hdone) fun j hj hlt => by
          simpa using hnot j hj (by omega), Nat.le_refl _⟩
      rw [advance_revealed hlabels rfl houtcome]
      exact .running rfl hsubmit (.idle hidle) (fun _ hidle => absurd hidle (by simp [hdeaf])) rfl rfl
    · rw [if_neg hdone] at houtcome
      rw [advance_revealing hlabels rfl (by rw [houtcome]; simp)]
      refine .running houtcome hsubmit (.revealing hshown (by omega) (fun j hj hle => ?_) hnext)
        (fun _ hidle => absurd hidle (by simp [hdeaf])) rfl rfl
      rcases Nat.lt_or_eq_of_le hle with hlt | rfl
      · exact hnot j hj (by omega)
      · exact Nat.lt_of_not_le hdone

/-- On a tick that is idle, a label is submitted if that is what the player asks for. -/
theorem submittedOn_of_idle (hidle : idleOn delays labels frames (t + 1) = true) :
    submittedOn delays labels frames (t + 1) =
      decide ((frameAt frames (t + 1)).input.press? = some .submit) := by
  rw [submittedOn, hidle, Bool.true_and, Bool.eq_iff_iff, decide_eq_true_eq,
    Input.press?_eq_submit_iff]

/-- A press that moves to another label has it revealed from the beginning. -/
theorem onward_moved {press : Press} {index : Nat}
    (hidle : idleOn delays labels frames (t + 1) = true)
    (hpress : (frameAt frames (t + 1)).input.press? = some press) (hne : press ≠ .submit)
    (hmoved : highlightedAfter labels (pressesBy delays labels frames t ++ [(t + 1, press)]) =
      index) :
    Onward delays labels position slot frames t w
      ⟨.ok .running,
        (ofPresses delays labels position slot (pressesBy delays labels frames t) .idle).highlight
          index, w⟩ := by
  have hpresses := pressesBy_succ_of_idle hidle
  rw [hpress] at hpresses
  have hsubmit : submittedOn delays labels frames (t + 1) = false := by
    simpa [submittedOn_of_idle hidle, hpress] using hne
  rw [highlight_ofPresses hmoved]
  exact .running rfl hsubmit (.of_shown hpresses (shownSince_append _ press)) (fun _ _ _ => rfl)
    rfl rfl

/-- A choice that is idle does on the next tick what the player asks for. -/
theorem onward_idle (hlabels : labels ≠ []) (hidle : idleOn delays labels frames (t + 1) = true) :
    Onward delays labels position slot frames t w
      ((ofPresses delays labels position slot (pressesBy delays labels frames t) .idle).advance
        (frameAt frames (t + 1)) w) := by
  have hpresses := pressesBy_succ_of_idle hidle
  have hsubmitted := submittedOn_of_idle hidle
  rw [advance_idle hlabels rfl]
  cases hpress : (frameAt frames (t + 1)).input.press? with
  | none =>
    simp only [hpress, Option.map_none, Option.toList_none, List.append_nil] at hpresses
    have hstill : idleOn delays labels frames (t + 1 + 1) = true := by
      obtain ⟨e, hsettles, hle⟩ := endedBy_iff.mp hidle
      exact endedBy_iff.mpr ⟨e, by rw [Nat.add_sub_cancel, hpresses]; exact hsettles, by omega⟩
    dsimp only
    rw [← hpresses]
    exact .running rfl (by simp [hsubmitted, hpress]) (.idle hstill) (by simp [hpress]) rfl rfl
  | some press =>
    cases press with
    | submit =>
      refine .done rfl (by simp [hsubmitted, hpress]) ?_ rfl
      rw [hpresses, hpress]
      unfold ofPresses
      rw [Option.map_some, Option.toList_some, highlightedAfter_submit]
    | next => exact onward_moved hidle hpress (by simp) (highlightedAfter_next hlabels (t + 1))
    | previous =>
      exact onward_moved hidle hpress (by simp) (highlightedAfter_previous hlabels (t + 1))

/-- A frame takes a bubble to the next tick. -/
theorem Standing.advance (h : Standing delays labels position slot frames t b)
    (hlabels : labels ≠ [])
    (ht : t < frames.length) (w : Transcript × Selections) :
    Onward delays labels position slot frames t w (b.advance (frameAt frames (t + 1)) w) := by
  cases h with
  | opening hnot hnone hduration helapsed =>
    exact onward_opening hlabels ht hnot hnone hduration helapsed
  | revealing hshown hi hnot hpassed => exact onward_revealing hlabels ht hshown hi hnot hpassed
  | idle hidle => exact onward_idle hlabels hidle

/-- Presses for the same tick that count the same: what the player presses on ticks that are not
idle does not matter, and on those that are only what comes first matters. -/
def SamePresses (delays : Delays) (labels : List String) (frames : List Frame)
    (inputs : Nat → Input) : Prop :=
  ∀ t, idleOn delays labels frames t = true →
    (inputs t).press? = (frameAt frames t).input.press?

/-- A frame with such presses makes no difference to a bubble. -/
theorem Standing.advance_congr (h : Standing delays labels position slot frames t b)
    (hlabels : labels ≠ []) {inputs : Nat → Input}
    (hinputs : SamePresses delays labels frames inputs)
    (w : Transcript × Selections) :
    b.advance ⟨(frameAt frames (t + 1)).delta, inputs (t + 1)⟩ w =
      b.advance (frameAt frames (t + 1)) w := by
  cases h with
  | opening => rfl
  | revealing => rfl
  | idle hidle =>
    rw [advance_idle hlabels rfl, advance_idle hlabels rfl]
    dsimp only
    rw [hinputs (t + 1) hidle]

/-- What is true of a bubble after a tick `t` up to the one on which a label is submitted: the tick
is done if it is that one, and only then is anything entered or selected. -/
structure Navigated (delays : Delays) (labels : List String) (position : Position) (slot : Slot)
    (frames : List Frame) (t : Nat) (before : Transcript × Selections)
    (s : Step ChoiceBubble (Transcript × Selections)) : Prop where
  outcome : s.outcome = .ok (if submitsOn delays labels frames = some t then .done else .running)
  labels_eq : s.next.labels = labels
  highlighted : (s.next.highlighted : Int) =
    movesOf (pressesBy delays labels frames t) % labels.length
  inRange : s.next.InRange
  restarted : submitsOn delays labels frames ≠ some t → idleOn delays labels frames t = true →
    (frameAt frames t).input.press?.isSome = true →
    s.next.stage = .revealing (.start (labels.getD s.next.highlighted "") delays.reveal)
  kept : submitsOn delays labels frames ≠ some t →
    s.world.1.entries = before.1.entries ∧ s.world.2 = before.2
  made : submitsOn delays labels frames = some t →
    s.world.1 = ⟨before.1.entries ++ [.choice labels s.next.highlighted position], ""⟩ ∧
      s.world.2 = before.2.select slot s.next.highlighted

theorem Standing.highlighted_eq (h : Standing delays labels position slot frames t b) :
    b.highlighted = highlightedAfter labels (pressesBy delays labels frames t) := by
  cases h with
  | opening _ hnone => rw [hnone]; rfl
  | revealing => rfl
  | idle => rfl

theorem Standing.labels_eq (h : Standing delays labels position slot frames t b) :
    b.labels = labels := by
  cases h <;> rfl

/-- On the first tick on which a label is submitted it is. -/
theorem submitsOn_eq_iff (hpos : 1 ≤ t) (hlen : t ≤ frames.length)
    (hend : ∀ k, submitsOn delays labels frames = some k → t ≤ k) :
    submitsOn delays labels frames = some t ↔ submittedOn delays labels frames t = true := by
  refine ⟨fun h => holds_of_firstFrom h, fun h => ?_⟩
  obtain ⟨e, he, hle⟩ := endedBy_iff.mp ((endedBy_firstFrom hlen).mpr ⟨t, hpos, Nat.le_refl t, h⟩)
  have hge := hend e he
  obtain rfl : e = t := Nat.le_antisymm hle hge
  exact he

/-- What a frame that does not overflow comes to, on a tick up to the one on which a label is
submitted. -/
theorem Onward.navigated {s : Step ChoiceBubble (Transcript × Selections)}
    (h : Onward delays labels position slot frames t w s) (hlabels : labels ≠ [])
    (ht : t < frames.length)
    (hend : ∀ k, submitsOn delays labels frames = some k → t + 1 ≤ k)
    (hne : s.outcome ≠ .error .overflow) :
    Navigated delays labels position slot frames (t + 1) w s := by
  have hsubmits := submitsOn_eq_iff (by omega) ht hend
  cases h with
  | overflow h _ => exact absurd h hne
  | running h hsubmit hnext hmoved hentries hselections =>
    have hnot : submitsOn delays labels frames ≠ some (t + 1) := by simp [hsubmits, hsubmit]
    refine ⟨by rw [h, if_neg hnot], hnext.labels_eq, ?_, ?_, fun _ hidle hpress => ?_,
      fun _ => ⟨hentries, hselections⟩, fun hk => absurd hk hnot⟩
    · rw [hnext.highlighted_eq, natCast_highlightedAfter hlabels]
    · rw [InRange, hnext.labels_eq, hnext.highlighted_eq]
      exact highlightedAfter_lt hlabels
    · obtain ⟨press, hpress⟩ := Option.isSome_iff_exists.mp hpress
      exact hmoved press hidle hpress
  | done h hsubmit hnext hworld =>
    have hnow : submitsOn delays labels frames = some (t + 1) := hsubmits.mpr hsubmit
    refine ⟨by rw [h, if_pos hnow], by rw [hnext]; rfl, ?_, ?_, fun hk => absurd hnow hk,
      fun hk => absurd hnow hk, fun _ => by rw [hworld]; exact ⟨rfl, rfl⟩⟩
    · rw [hnext]
      exact natCast_highlightedAfter hlabels
    · rw [hnext]
      exact highlightedAfter_lt hlabels

end Standing

end ChoiceBubble

/-! ## Frame after frame -/

section Run

variable {A α : Type} {company : Company A α} {delays : Delays} {labels : List String}
  {position : Position} {slot : Slot}

/-- The same frames with other presses, by tick. -/
def repressed {W : Type} (inputs : Nat → Input) (run : List ((W → W) × Frame)) :
    List ((W → W) × Frame) :=
  run.mapIdx fun i r => (r.1, ⟨r.2.delta, inputs (i + 1)⟩)

theorem repressed_self {W : Type} (run : List ((W → W) × Frame)) :
    repressed (fun t => (frameAt (run.map Prod.snd) t).input) run = run := by
  refine List.ext_getElem (by simp [repressed]) fun i _ hi => ?_
  simp [repressed, frameAt, List.getD_eq_getElem?_getD, List.getElem?_eq_getElem hi]

theorem drop_repressed {W : Type} {run : List ((W → W) × Frame)} {t : Nat} (ht : t < run.length)
    (inputs : Nat → Input) :
    (repressed inputs run).drop t =
      (run[t].1, ⟨(frameAt (run.map Prod.snd) (t + 1)).delta, inputs (t + 1)⟩) ::
        (repressed inputs run).drop (t + 1) := by
  have hlen : t < (repressed inputs run).length := by simpa [repressed] using ht
  rw [List.drop_eq_getElem_cons hlen]
  simp [repressed, frameAt, List.getD_eq_getElem?_getD, ht]

/-- The world after a frame of a bubble that is stepped by itself. -/
def steppedChoice (s : Step ChoiceBubble (Transcript × Selections)) (w : World A Transcript) :
    Step (Action (World A Transcript) (α ⊕ OpenBubble)) (World A Transcript) :=
  ⟨s.outcome, .machine (.inr (.choice s.next)),
    { w with bubbles := s.world.1, selections := s.world.2 }⟩

variable {run : List ((World A Transcript → World A Transcript) × Frame)}

variable (company) in
/-- The action that steps a bubble goes on with the bubble that the frame leaves, also if what is
pressed is something else that counts the same. -/
theorem ChoiceBubble.Standing.amid_drop {t : Nat} {b : ChoiceBubble} {w : World A Transcript}
    (h : Standing delays labels position slot (run.map Prod.snd) t b) (hlabels : labels ≠ [])
    (ht : t < run.length) {inputs : Nat → Input}
    (hinputs : SamePresses delays labels (run.map Prod.snd) inputs) :
    Action.amid (Host.ofParts company (Presenter.transcript delays))
        ((repressed inputs run).drop t) (.machine (.inr (.choice b))) w =
      let before := run[t].1 w
      let s := steppedChoice (b.advance (frameAt (run.map Prod.snd) (t + 1))
        (before.bubbles, before.selections)) before
      (before, s) :: Action.amid (Host.ofParts company (Presenter.transcript delays))
        ((repressed inputs run).drop (t + 1)) s.next s.world := by
  have hstep : Action.advance (Host.ofParts company (Presenter.transcript delays))
      ⟨(frameAt (run.map Prod.snd) (t + 1)).delta, inputs (t + 1)⟩ (.machine (.inr (.choice b)))
      (run[t].1 w) = steppedChoice (b.advance (frameAt (run.map Prod.snd) (t + 1))
        ((run[t].1 w).bubbles, (run[t].1 w).selections)) (run[t].1 w) := by
    rw [← h.advance_congr hlabels hinputs]
    rfl
  rw [drop_repressed ht, Action.amid, hstep]

/-- What the action that steps a bubble comes to on a tick up to the one on which a label is
submitted. -/
theorem ChoiceBubble.Standing.amid {t i : Nat} {b : ChoiceBubble} {w : World A Transcript}
    (h : Standing delays labels position slot (run.map Prod.snd) t b) (hlabels : labels ≠ [])
    (hlen : t + i < run.length)
    (hend : ∀ k, submitsOn delays labels (run.map Prod.snd) = some k → t + i < k)
    (hoverflow : ∀ s ∈ (Action.amid (Host.ofParts company (Presenter.transcript delays))
      (run.drop t) (.machine (.inr (.choice b))) w).take i, s.2.outcome ≠ .error .overflow) :
    ∃ before s,
      Onward delays labels position slot (run.map Prod.snd) (t + i)
        (before.bubbles, before.selections) s ∧
      ∀ inputs, SamePresses delays labels (run.map Prod.snd) inputs →
        (Action.amid (Host.ofParts company (Presenter.transcript delays))
          ((repressed inputs run).drop t) (.machine (.inr (.choice b))) w)[i]? =
            some (before, steppedChoice s before) := by
  have hself : SamePresses delays labels (run.map Prod.snd)
      fun t => (frameAt (run.map Prod.snd) t).input := fun _ _ => rfl
  induction i generalizing t b w with
  | zero =>
    have htick : t < (run.map Prod.snd).length := by simpa using hlen
    exact ⟨_, _, h.advance hlabels htick _,
      fun inputs hinputs => by rw [h.amid_drop company hlabels hlen hinputs]; rfl⟩
  | succ i ih =>
    have ht : t < run.length := by omega
    have htick : t < (run.map Prod.snd).length := by simpa using ht
    have hplain := h.amid_drop company (w := w) hlabels ht hself
    rw [repressed_self] at hplain
    rw [hplain] at hoverflow
    cases h.advance hlabels htick
        ((run[t].1 w).bubbles, (run[t].1 w).selections) with
    | overflow hnow _ => exact absurd hnow (hoverflow _ List.mem_cons_self)
    | done _ hsubmit _ _ =>
      have hended : endedBy (submitsOn delays labels (run.map Prod.snd)) (t + 1) = true :=
        (endedBy_firstFrom htick).mpr ⟨t + 1, by omega, Nat.le_refl _, hsubmit⟩
      obtain ⟨k, hk, hle⟩ := endedBy_iff.mp hended
      have := hend k hk
      omega
    | running _ _ hnext _ _ _ =>
      obtain ⟨before, s, honward, hs⟩ := ih hnext (by omega)
        (fun k hk => by have := hend k hk; omega)
        fun s hs => hoverflow s (List.mem_cons_of_mem _ hs)
      rw [Nat.add_right_comm, Nat.add_assoc] at honward
      exact ⟨before, s, honward, fun inputs hinputs => by
        rw [h.amid_drop company hlabels ht hinputs]
        exact hs inputs hinputs⟩

end Run

/-- The bubble of a choice, stepped by one frame after the other while others do to the world what
they like.  On a tick up to the first submission that counts, either the time since the beginning is
beyond all durations, or the frames alone say what the bubble comes to (`ChoiceBubble.Navigated`):
the label that the moves that counted lead to is highlighted, each of them reveals its label from
the beginning, and the submission is the only tick on which anything is entered or selected.  What
is pressed on ticks that are not idle makes no difference. -/
theorem choice_navigated {A α : Type} (company : Company A α) (delays : Delays)
    (labels : List String) (hlabels : labels ≠ []) (position : Position) (slot : Slot)
    (run : List ((World A Transcript → World A Transcript) × Frame)) (w : World A Transcript)
    (t : Nat) (hpos : 1 ≤ t) (hlen : t ≤ run.length)
    (hend : ∀ k, submitsOn delays labels (run.map Prod.snd) = some k → t ≤ k) :
    let host := Host.ofParts company (Presenter.transcript delays)
    let frames := run.map Prod.snd
    let opened := host.showChoices labels position slot w
    (∀ s ∈ (Action.amid host run (.machine opened.1) opened.2).take (t - 1),
      s.2.outcome ≠ .error .overflow) →
    ∃ before s,
      (Action.amid host run (.machine opened.1) opened.2)[t - 1]? =
          some (before, steppedChoice s before) ∧
      (∀ inputs, ChoiceBubble.SamePresses delays labels frames inputs →
        (Action.amid host (repressed inputs run) (.machine opened.1) opened.2)[t - 1]? =
          some (before, steppedChoice s before)) ∧
      (s.outcome = .error .overflow ∧ Duration.bound ≤ timeFrom frames 1 t ∨
        ChoiceBubble.Navigated delays labels position slot frames t
          (before.bubbles, before.selections) s) := by
  intro host frames opened hoverflow
  obtain ⟨i, rfl⟩ : ∃ i, t = i + 1 := ⟨t - 1, by omega⟩
  have hstart := ChoiceBubble.standing_zero delays labels position slot frames
  obtain ⟨before, s, honward, hs⟩ := hstart.amid (i := i) (w := opened.2) hlabels (by omega)
    (fun k hk => by have := hend k hk; omega) hoverflow
  rw [Nat.zero_add] at honward
  have hself := hs _ fun _ _ => rfl
  rw [repressed_self] at hself
  refine ⟨before, s, hself, hs, ?_⟩
  by_cases hnow : s.outcome = .error .overflow
  · cases honward with
    | overflow _ hlate => exact .inl ⟨hnow, hlate⟩
    | running h => simp [h] at hnow
    | done h => simp [h] at hnow
  · exact .inr (honward.navigated hlabels (by rw [List.length_map]; omega) hend hnow)

/-- Frames in which the player presses too early, moves back, presses too early again and then
submits and moves on at once. -/
def waveringFrames : List Frame :=
  [⟨.zero, { next := true }⟩, ⟨.ofMillis 10, { submit := true }⟩,
    ⟨.zero, { previous := true }⟩, ⟨.ofMillis 10, { next := true }⟩,
    ⟨.zero, { submit := true, next := true }⟩]

/-- Moving back from the first label leads to the last one, which is submitted although others clear
the display all the time. -/
theorem lastLabel_navigated :
    let delays : Delays := ⟨.zero, .ofMillis 10⟩
    let labels := ["A", "B", "C"]
    let host := Host.ofParts Rehearsal.puppets (Presenter.transcript delays)
    let w : World Rehearsal.Cast Transcript := ⟨.empty, .empty, .empty, ⟨[none]⟩, #[]⟩
    let opened := host.showChoices labels ⟨0, 0⟩ ⟨0⟩ w
    let run := waveringFrames.map fun frame =>
      (fun w : World Rehearsal.Cast Transcript => { w with bubbles := w.bubbles.cleared }, frame)
    submitsOn delays labels waveringFrames = some 5 ∧
    ∃ before s, (Action.amid host run (.machine opened.1) opened.2)[4]? = some (before, s) ∧
      s.outcome = .ok .done ∧
      s.world.bubbles = ⟨before.bubbles.entries ++ [.choice labels 2 ⟨0, 0⟩], ""⟩ ∧
      s.world.selections = before.selections.select ⟨0⟩ 2 := by
  intro delays labels host w opened run
  have hframes : run.map Prod.snd = waveringFrames := rfl
  have hsubmits : submitsOn delays labels waveringFrames = some 5 := by decide
  have hmoves : movesOf (pressesBy delays labels waveringFrames 5) % labels.length = 2 := by decide
  have houtcomes : (Action.amid host run (.machine opened.1) opened.2).map
      (fun s => s.2.outcome.toOption) = List.replicate 4 (some .running) ++ [some .done] := by
    decide +kernel
  obtain ⟨before, s, hs, -, hnow⟩ := choice_navigated Rehearsal.puppets delays labels (by decide)
    ⟨0, 0⟩ ⟨0⟩ run w 5 (by decide) (by decide)
    (fun k hk => by rw [hframes, hsubmits] at hk; exact Nat.le_of_eq (Option.some.inj hk))
    fun s hs h => by
      have hmem :=
        List.mem_map_of_mem (f := fun s => s.2.outcome.toOption) (List.mem_of_mem_take hs)
      rw [houtcomes, h] at hmem
      simp [Except.toOption] at hmem
  rcases hnow with ⟨-, hlate⟩ | hnavigated
  · exact absurd hlate (by decide)
  · rw [hframes] at hnavigated
    have hindex : s.next.highlighted = 2 :=
      Int.ofNat.inj (hnavigated.highlighted.trans hmoves)
    obtain ⟨hbubbles, hselections⟩ := hnavigated.made hsubmits
    rw [hindex] at hbubbles hselections
    refine ⟨hsubmits, before, _, hs, ?_, hbubbles, hselections⟩
    exact hnavigated.outcome.trans (by rw [if_pos hsubmits])

end Bubble

end Promptbook
