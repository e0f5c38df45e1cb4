import Promptbook.Proofs.Action.Plan
import Promptbook.Proofs.Bubble.Showing
import Promptbook.Rehearsal.Puppet
import Promptbook.World

set_option autoImplicit false

/-!
# The life of a line

The bubble of a line opens when its first delay has passed, is complete when the time since then has
reached one delay for each character, and is closed by the first submission after that.  All three
ticks can be told from the frames alone (`opensOn`, `completesOn`, `closesOn`), and so can what is
displayed on the ticks between them: as many characters as the time since the opening has room for
delays, however that time was divided into frames.

`LineBubble.After` says what a bubble is after a number of ticks.  A frame takes it to the next tick
(`LineBubble.After.advance`), and so does the action that steps the bubble.
-/

namespace Promptbook

/-- The first tick from `s` on of which something holds. -/
theorem firstFrom_eq_some {frames : List Frame} {s e : Nat} {p : Nat → Bool} (hs : s ≤ e)
    (he : e ≤ frames.length) (hp : p e = true) (hmin : ∀ i, s ≤ i → i < e → p i = false) :
    firstFrom frames s p = some e :=
  List.find?_range'_eq_some.mpr
    ⟨hp, List.mem_range'_1.mpr (by omega), fun i hi hlt => by simp [hmin i hi hlt]⟩

theorem holds_of_firstFrom {frames : List Frame} {s e : Nat} {p : Nat → Bool}
    (h : firstFrom frames s p = some e) : p e = true :=
  List.find?_some h

/-- What has happened on no tick up to `t` happens later, if at all. -/
theorem lt_of_firstFrom {frames : List Frame} {s e t : Nat} {p : Nat → Bool}
    (h : firstFrom frames s p = some e) (hnot : ∀ i, s ≤ i → i ≤ t → p i = false) : t < e := by
  refine Nat.lt_of_not_le fun hle => ?_
  simpa [holds_of_firstFrom h] using hnot e (le_of_firstFrom h) hle

namespace Bubble

/-! ## Characters for time -/

/-- How many of `len` characters are due after that much time. -/
def dueAfter (delay : Duration) (len passed : Nat) : Nat :=
  if delay.nanos = 0 then len else min len (passed / delay.nanos)

/-- The characters of a text that are due after that much time. -/
def shownAfter (delay : Duration) (text : String) (passed : Nat) : String :=
  String.ofList (text.toList.take (dueAfter delay text.length passed))

/-- A text is complete when there was time for all characters. -/
theorem shownAfter_of_le {delay : Duration} {text : String} {passed : Nat}
    (h : text.length * delay.nanos ≤ passed) : shownAfter delay text passed = text := by
  have hdue : dueAfter delay text.length passed = text.toList.length := by
    rw [String.length_toList, dueAfter]
    split
    · rfl
    · next hpos =>
      exact Nat.min_eq_left ((Nat.le_div_iff_mul_le (Nat.pos_of_ne_zero hpos)).mpr h)
  rw [shownAfter, hdue, List.take_length, String.ofList_toList]

section Due

variable {delay : Duration} {c : Char} {cs : List Char} {elapsed : Duration}

theorem dueCharacters_cons (h : delay ≤ elapsed) :
    dueCharacters delay (c :: cs) elapsed =
      (c :: (dueCharacters delay cs (elapsed.sub delay)).1,
        (dueCharacters delay cs (elapsed.sub delay)).2) := by
  rw [dueCharacters, if_pos h]

theorem dueCharacters_of_lt (h : ¬delay ≤ elapsed) :
    dueCharacters delay (c :: cs) elapsed = ([], c :: cs, elapsed) := by
  rw [dueCharacters, if_neg h]

/-- The time for the characters that are due is taken from what has passed. -/
theorem nanos_dueCharacters (delay : Duration) (cs : List Char) (elapsed : Duration) :
    (dueCharacters delay cs elapsed).2.2.nanos +
      (dueCharacters delay cs elapsed).1.length * delay.nanos = elapsed.nanos := by
  induction cs generalizing elapsed with
  | nil => simp [dueCharacters]
  | cons c cs ih =>
    by_cases hdue : delay ≤ elapsed
    · have hrest := ih (elapsed.sub delay)
      rw [Duration.nanos_sub] at hrest
      rw [dueCharacters_cons hdue]
      rw [Duration.le_iff] at hdue
      simp only [List.length_cons, Nat.succ_mul]
      omega
    · simp [dueCharacters_of_lt hdue]

/-- All characters are due as soon as there was time for each of them. -/
theorem dueCharacters_rest_eq_nil_iff :
    (dueCharacters delay cs elapsed).2.1 = [] ↔ cs.length * delay.nanos ≤ elapsed.nanos := by
  induction cs generalizing elapsed with
  | nil => simp [dueCharacters]
  | cons c cs ih =>
    rw [List.length_cons, Nat.succ_mul]
    by_cases hdue : delay ≤ elapsed
    · rw [dueCharacters_cons hdue, ih, Duration.nanos_sub]
      rw [Duration.le_iff] at hdue
      omega
    · rw [dueCharacters_of_lt hdue]
      rw [Duration.le_iff] at hdue
      simp only [reduceCtorEq, false_iff]
      omega

/-- If a character is left, then the time that is left is not enough for it. -/
theorem nanos_lt_of_rest (h : (dueCharacters delay cs elapsed).2.1 ≠ []) :
    (dueCharacters delay cs elapsed).2.2.nanos < delay.nanos := by
  induction cs generalizing elapsed with
  | nil => simp [dueCharacters] at h
  | cons c cs ih =>
    by_cases hdue : delay ≤ elapsed
    · rw [dueCharacters_cons hdue] at h ⊢
      exact ih h
    · rw [dueCharacters_of_lt hdue]
      exact Nat.lt_of_not_le hdue

end Due

namespace Reveal

/-- The part of a text that is revealed after that much time: what is displayed, the characters left
and the time left for them. -/
structure Reached (r : Reveal) (delay : Duration) (text display : String) (passed : Nat) : Prop where
  delay_eq : r.delay = delay
  shows : r.Shows text display
  nanos_eq : r.elapsed.nanos + r.revealed * delay.nanos = passed

variable {r : Reveal} {delay delta : Duration} {text display : String} {passed : Nat}

theorem reached_start (delay : Duration) (text : String) :
    (start text delay).Reached delay text "" 0 :=
  ⟨rfl, shows_start text delay, by simp [start]⟩

theorem Reached.length_eq (h : r.Reached delay text display passed) :
    text.length = r.revealed + r.pending.length := by
  rw [← String.length_toList, h.shows.1, List.length_append, h.shows.2]

/-- While time is short for another character, what is displayed is what is due. -/
theorem Reached.display_eq (h : r.Reached delay text display passed)
    (hshort : r.elapsed.nanos < delay.nanos) : display = shownAfter delay text passed := by
  have hpos : 0 < delay.nanos := Nat.zero_lt_of_lt hshort
  have hdiv : passed / delay.nanos = r.revealed := by
    rw [← h.nanos_eq, Nat.add_mul_div_right _ _ hpos, Nat.div_eq_of_lt hshort, Nat.zero_add]
  have hlength := h.length_eq
  have hdue : dueAfter delay text.length passed = display.toList.length := by
    rw [dueAfter, if_neg (Nat.ne_of_gt hpos), hdiv, h.shows.2, Nat.min_eq_right (by omega)]
  rw [shownAfter, hdue, h.shows.1, List.take_left, String.ofList_toList]

/-- A frame adds its time, and the text is complete as soon as there was time for all characters. -/
theorem Reached.advance (h : r.Reached delay text display passed)
    (hne : (r.advance delta display).outcome ≠ .error .overflow) :
    (r.advance delta display).next.Reached delay text (r.advance delta display).world
        (passed + delta.nanos) ∧
      (r.advance delta display).outcome =
        .ok (if text.length * delay.nanos ≤ passed + delta.nanos then .done else .running) ∧
      (passed + delta.nanos < text.length * delay.nanos →
        (r.advance delta display).next.elapsed.nanos < delay.nanos) := by
  have hshows := h.shows.covers.advance delta
  have hlength := h.length_eq
  obtain ⟨rfl, -, hnanos⟩ := h
  unfold Reveal.advance at hne hshows ⊢
  cases hsum : r.elapsed.add? delta with
  | none => simp [hsum] at hne
  | some elapsed =>
    have hpassed := Duration.add?_eq_some_iff.mp hsum
    have htime := nanos_dueCharacters r.delay r.pending elapsed
    have hcomplete : (dueCharacters r.delay r.pending elapsed).2.1 = [] ↔
        text.length * r.delay.nanos ≤ passed + delta.nanos := by
      rw [dueCharacters_rest_eq_nil_iff, hlength, Nat.add_mul]
      omega
    have hshort : (dueCharacters r.delay r.pending elapsed).2.1 ≠ [] →
        (dueCharacters r.delay r.pending elapsed).2.2.nanos < r.delay.nanos := nanos_lt_of_rest
    simp only [hsum] at hshows ⊢
    generalize dueCharacters r.delay r.pending elapsed = parts at *
    obtain ⟨due, pending, left⟩ := parts
    refine ⟨⟨rfl, hshows, ?_⟩, ?_, fun hlt => ?_⟩
    · simp only [Nat.add_mul] at htime ⊢
      omega
    · simp only [List.isEmpty_iff, hcomplete]
    · exact hshort fun hnil => Nat.not_le_of_lt hlt (hcomplete.mp hnil)

end Reveal

/-! ## The ticks of a line -/

section Ticks

variable (delays : Delays) (text : String) (frames : List Frame)

/-- The tick on which a line opens: the first one up to which the opening delay has passed. -/
def opensOn : Option Nat :=
  firstFrom frames 1 fun t => decide (delays.opening.nanos ≤ timeFrom frames 1 t)

/-- The tick on which a line is complete: the first one after its opening up to which there was time
for all characters. -/
def completesOn : Option Nat :=
  (opensOn delays frames).bind fun i => firstFrom frames (i + 1) fun t =>
    decide (text.length * delays.reveal.nanos ≤ timeFrom frames (i + 1) t)

/-- The tick on which a line is closed: the first one after it was complete on which the player
submits. -/
def closesOn : Option Nat :=
  (completesOn delays text frames).bind fun j =>
    firstFrom frames (j + 1) fun t => (frameAt frames t).input.submit

end Ticks

namespace LineBubble

/-- What the bubble of a line and the transcript are after `t` ticks that did not close it; `before` is
the transcript before the first one. -/
inductive After (delays : Delays) (text : String) (position : Position) (frames : List Frame)
    (before : Transcript) (t : Nat) : LineBubble → Transcript → Prop where
  | opening {timer : Timer}
      (hnot : ∀ i, 1 ≤ i → i ≤ t → timeFrom frames 1 i < delays.opening.nanos)
      (hduration : timer.duration = delays.opening)
      (helapsed : timer.elapsed.nanos = timeFrom frames 1 t) :
      After delays text position frames before t
        ⟨text, position, delays.reveal, .opening timer⟩ before
  | revealing {i : Nat} {r : Reveal} {display : String} (hopen : opensOn delays frames = some i)
      (hi : i ≤ t) (hnot : ∀ j, i + 1 ≤ j → j ≤ t →
        timeFrom frames (i + 1) j < text.length * delays.reveal.nanos)
      (hreached : r.Reached delays.reveal text display (timeFrom frames (i + 1) t))
      (hshort : i < t → r.elapsed.nanos < delays.reveal.nanos)
      (hfirst : i = t → display = "") :
      After delays text position frames before t ⟨text, position, delays.reveal, .revealing r⟩
        ⟨before.entries ++ [.line text position], display⟩
  | waiting {j : Nat} (hcomplete : completesOn delays text frames = some j) (hj : j ≤ t)
      (hnot : ∀ k, j + 1 ≤ k → k ≤ t → (frameAt frames k).input.submit = false) :
      After delays text position frames before t ⟨text, position, delays.reveal, .waiting⟩
        ⟨before.entries ++ [.line text position], text⟩

section Frames

variable {b : LineBubble} {frame : Frame} {t : Transcript}

/-- A frame of a bubble that is opening: its time is added, and if that is enough the line is entered
and begins to be revealed. -/
theorem advance_opening {timer : Timer} (hstage : b.stage = .opening timer)
    (hne : (b.advance frame t).outcome ≠ .error .overflow) :
    ∃ elapsed : Duration, elapsed.nanos = timer.elapsed.nanos + frame.delta.nanos ∧
      b.advance frame t =
        if timer.duration ≤ elapsed then
          ⟨.ok .running, { b with stage := .revealing (.start b.text b.revealDelay) },
            t.append (.line b.text b.position)⟩
        else ⟨.ok .running, { b with stage := .opening { timer with elapsed := elapsed } }, t⟩ := by
  unfold advance Timer.advance at hne ⊢
  simp only [hstage] at hne ⊢
  cases hsum : timer.elapsed.add? frame.delta with
  | none => simp [hsum] at hne
  | some elapsed =>
    refine ⟨elapsed, Duration.add?_eq_some_iff.mp hsum, ?_⟩
    by_cases hdone : timer.duration ≤ elapsed <;> simp [hdone]

theorem advance_revealing {r : Reveal} (hstage : b.stage = .revealing r)
    (hne : (b.advance frame t).outcome ≠ .error .overflow) :
    (r.advance frame.delta t.display).outcome ≠ .error .overflow := by
  intro h
  unfold advance at hne
  simp [hstage, h] at hne

end Frames

section After

variable {delays : Delays} {text : String} {position : Position} {frames : List Frame}
  {before transcript : Transcript} {b : LineBubble} {t : Nat}

/-- A line that did not have the time to open up to a tick opens later, if at all. -/
theorem lt_of_opensOn (hnot : ∀ i, 1 ≤ i → i ≤ t → timeFrom frames 1 i < delays.opening.nanos)
    {i : Nat} (hopen : opensOn delays frames = some i) : t < i :=
  lt_of_firstFrom hopen fun i hi hle => by simpa using hnot i hi hle

/-- A line that did not have the time for all characters up to a tick is complete later, if at all. -/
theorem lt_of_completesOn {i j : Nat} (hopen : opensOn delays frames = some i)
    (hnot : ∀ j, i + 1 ≤ j → j ≤ t →
      timeFrom frames (i + 1) j < text.length * delays.reveal.nanos)
    (hcomplete : completesOn delays text frames = some j) : t < j := by
  rw [completesOn, hopen] at hcomplete
  exact lt_of_firstFrom hcomplete fun j hj hle => by simpa using hnot j hj hle

theorem opensOn_lt_completesOn {i j : Nat} (hopen : opensOn delays frames = some i)
    (hcomplete : completesOn delays text frames = some j) : i < j := by
  rw [completesOn, hopen] at hcomplete
  exact le_of_firstFrom hcomplete

theorem exists_opensOn {j : Nat} (h : completesOn delays text frames = some j) :
    ∃ i, opensOn delays frames = some i ∧ i < j := by
  obtain ⟨i, hopen, -⟩ := Option.bind_eq_some_iff.mp h
  exact ⟨i, hopen, opensOn_lt_completesOn hopen h⟩

theorem exists_completesOn {k : Nat} (h : closesOn delays text frames = some k) :
    ∃ j, completesOn delays text frames = some j ∧ j < k := by
  obtain ⟨j, hcomplete, hclose⟩ := Option.bind_eq_some_iff.mp h
  exact ⟨j, hcomplete, le_of_firstFrom hclose⟩

/-- Before the first tick a bubble is opening. -/
theorem after_zero (delays : Delays) (text : String) (position : Position) (frames : List Frame)
    (before : Transcript) : After delays text position frames before 0
      ⟨text, position, delays.reveal, .opening (.start delays.opening)⟩ before :=
  .opening (fun i hi hle => absurd hi (by omega)) rfl (by simp [Timer.start, timeFrom])

/-- A bubble that is still there is closed later, if at all. -/
theorem After.lt_of_closesOn (h : After delays text position frames before t b transcript) {k : Nat}
    (hk : closesOn delays text frames = some k) : t < k := by
  obtain ⟨j, hcomplete, hjk⟩ := exists_completesOn hk
  cases h with
  | opening hnot _ _ =>
    obtain ⟨i, hopen, hij⟩ := exists_opensOn hcomplete
    have hlt := lt_of_opensOn hnot hopen
    omega
  | revealing hopen _ hnot _ _ _ =>
    exact Nat.lt_trans (lt_of_completesOn hopen hnot hcomplete) hjk
  | waiting hcomplete _ hnot =>
    rw [closesOn, hcomplete] at hk
    exact lt_of_firstFrom hk hnot

/-- What a bubble shows on a tick up to the one on which it is closed. -/
structure Displays (delays : Delays) (text : String) (position : Position) (frames : List Frame)
    (before : Transcript) (t : Nat) (now : Transcript) : Prop where
  /-- The line is entered on the tick on which it opens, and nothing else is. -/
  entries : now.entries = before.entries ++
    if endedBy (opensOn delays frames) t then [.line text position] else []
  unopened : endedBy (opensOn delays frames) t = false → now.display = before.display
  opened : opensOn delays frames = some t → now.display = ""
  /-- From then on as much is displayed as is due. -/
  revealed : ∀ i, opensOn delays frames = some i → i < t → closesOn delays text frames ≠ some t →
    now.display = shownAfter delays.reveal text (timeFrom frames (i + 1) t)
  complete : ∀ j, completesOn delays text frames = some j → j ≤ t →
    closesOn delays text frames ≠ some t → now.display = text
  closed : closesOn delays text frames = some t → now.display = ""

theorem After.displays (h : After delays text position frames before t b transcript) :
    Displays delays text position frames before t transcript := by
  have hopen : closesOn delays text frames ≠ some t := fun hk =>
    Nat.lt_irrefl t (h.lt_of_closesOn hk)
  cases h with
  | opening hnot _ _ =>
    have hlater {i : Nat} (hi : opensOn delays frames = some i) : t < i := lt_of_opensOn hnot hi
    have hended : endedBy (opensOn delays frames) t = false := by
      refine Bool.eq_false_iff.mpr fun hended => ?_
      obtain ⟨i, hi, hle⟩ := endedBy_iff.mp hended
      exact Nat.not_le_of_lt (hlater hi) hle
    refine ⟨by simp [hended], fun _ => rfl, fun hi => absurd (hlater hi) (Nat.lt_irrefl t),
      fun i hi hlt => absurd (hlater hi) (Nat.not_lt_of_gt hlt), fun j hj hle => ?_,
      fun hk => absurd hk hopen⟩
    obtain ⟨i, hi, hlt⟩ := exists_opensOn hj
    have := hlater hi
    omega
  | @revealing i r display hi hle hnot hreached hshort hfirst =>
    have hended : endedBy (opensOn delays frames) t = true := endedBy_iff.mpr ⟨i, hi, hle⟩
    have hsame {i' : Nat} (hi' : opensOn delays frames = some i') : i = i' :=
      Option.some.inj (hi.symm.trans hi')
    refine ⟨by simp [hended], by simp [hended], fun ht => hfirst (hsame ht), ?_, fun j hj hle' => ?_,
      fun hk => absurd hk hopen⟩
    · intro i' hi' hlt _
      obtain rfl := hsame hi'
      exact hreached.display_eq (hshort hlt)
    · exact absurd (lt_of_completesOn hi hnot hj) (Nat.not_lt_of_le hle')
  | @waiting j hcomplete hj hnot =>
    obtain ⟨i, hi, hlt⟩ := exists_opensOn hcomplete
    have hended : endedBy (opensOn delays frames) t = true :=
      endedBy_iff.mpr ⟨i, hi, Nat.le_trans (Nat.le_of_lt hlt) hj⟩
    refine ⟨by simp [hended], by simp [hended], fun ht => ?_, ?_, fun _ _ _ _ => rfl,
      fun hk => absurd hk hopen⟩
    · have := Option.some.inj (hi.symm.trans ht)
      omega
    · intro i' hi' _ _
      obtain rfl := Option.some.inj (hi.symm.trans hi')
      rw [completesOn, hi] at hcomplete
      have hdue : text.length * delays.reveal.nanos ≤ timeFrom frames (i + 1) j := by
        simpa using holds_of_firstFrom hcomplete
      exact (shownAfter_of_le (Nat.le_trans hdue (timeFrom_mono hlt hj))).symm

/-- A frame of a bubble: it goes on to the next tick, or it is closed on that one. -/
inductive Onward (delays : Delays) (text : String) (position : Position) (frames : List Frame)
    (before : Transcript) (t : Nat) (s : Step LineBubble Transcript) : Prop where
  | running (h : s.outcome = .ok .running)
      (hafter : After delays text position frames before (t + 1) s.next s.world)
  | done (h : s.outcome = .ok .done) (hclose : closesOn delays text frames = some (t + 1))
      (hworld : s.world = ⟨before.entries ++ [.line text position], ""⟩)

/-- A bubble that is opening opens on the next tick if the time has come, or goes on opening. -/
theorem onward_opening {timer : Timer} (ht : t < frames.length)
    (hnot : ∀ i, 1 ≤ i → i ≤ t → timeFrom frames 1 i < delays.opening.nanos)
    (hduration : timer.duration = delays.opening)
    (helapsed : timer.elapsed.nanos = timeFrom frames 1 t)
    (hne : (advance ⟨text, position, delays.reveal, .opening timer⟩ (frameAt frames (t + 1))
      before).outcome ≠ .error .overflow) :
    Onward delays text position frames before t
      (advance ⟨text, position, delays.reveal, .opening timer⟩ (frameAt frames (t + 1)) before) := by
  obtain ⟨elapsed, hsum, hstep⟩ := advance_opening rfl hne
  have hpassed : elapsed.nanos = timeFrom frames 1 (t + 1) := by
    rw [hsum, helapsed, timeFrom_succ (by omega)]
  have henough : delays.opening ≤ elapsed ↔
      delays.opening.nanos ≤ timeFrom frames 1 (t + 1) := by
    rw [Duration.le_iff, hpassed]
  rw [hstep, hduration]
  split
  · next hdone =>
    have hopen : opensOn delays frames = some (t + 1) :=
      firstFrom_eq_some (by omega) ht (decide_eq_true (henough.mp hdone)) fun i hi hlt => by
        simpa using hnot i hi (by omega)
    refine .running rfl (.revealing hopen (Nat.le_refl _) (fun j hj hle => absurd hj (by omega))
      ?_ (fun hlt => absurd hlt (Nat.lt_irrefl _)) fun _ => rfl)
    simpa [timeFrom] using Reveal.reached_start delays.reveal text
  · next hdone =>
    refine .running rfl (.opening (fun i hi hle => ?_) rfl hpassed)
    rcases Nat.lt_or_eq_of_le hle with hlt | rfl
    · exact hnot i hi (by omega)
    · exact Nat.lt_of_not_le fun h => hdone (henough.mpr h)

/-- A bubble that is being revealed is complete on the next tick if there was time for all characters,
or goes on being revealed. -/
theorem onward_revealing {i : Nat} {r : Reveal} {display : String} (ht : t < frames.length)
    (hopen : opensOn delays frames = some i) (hi : i ≤ t)
    (hnot : ∀ j, i + 1 ≤ j → j ≤ t →
      timeFrom frames (i + 1) j < text.length * delays.reveal.nanos)
    (hreached : r.Reached delays.reveal text display (timeFrom frames (i + 1) t))
    (hne : (advance ⟨text, position, delays.reveal, .revealing r⟩ (frameAt frames (t + 1))
      ⟨before.entries ++ [.line text position], display⟩).outcome ≠ .error .overflow) :
    Onward delays text position frames before t
      (advance ⟨text, position, delays.reveal, .revealing r⟩ (frameAt frames (t + 1))
        ⟨before.entries ++ [.line text position], display⟩) := by
  have hnext := hreached.advance (advance_revealing rfl hne)
  rw [← timeFrom_succ (by omega)] at hnext
  obtain ⟨hnext, houtcome, hlast⟩ := hnext
  unfold LineBubble.advance
  dsimp only
  by_cases hdone : text.length * delays.reveal.nanos ≤ timeFrom frames (i + 1) (t + 1)
  · rw [if_pos hdone] at houtcome
    rw [houtcome, hreached.shows.covers.eq_of_done houtcome]
    refine .running rfl (.waiting ?_ (Nat.le_refl _) fun k hk hle => absurd hk (by omega))
    rw [completesOn, hopen]
    exact firstFrom_eq_some (by omega) ht (by simpa using hdone) fun j hj hlt => by
      simpa using hnot j hj (by omega)
  · rw [if_neg hdone] at houtcome
    rw [houtcome]
    refine .running rfl (.revealing hopen (by omega) (fun j hj hle => ?_) hnext
      (fun _ => hlast (Nat.lt_of_not_le hdone)) fun heq => absurd heq (by omega))
    rcases Nat.lt_or_eq_of_le hle with hlt | rfl
    · exact hnot j hj (by omega)
    · exact Nat.lt_of_not_le hdone

/-- A bubble that is complete is closed on the next tick if the player submits, or goes on waiting. -/
theorem onward_waiting {j : Nat} (ht : t < frames.length)
    (hcomplete : completesOn delays text frames = some j) (hj : j ≤ t)
    (hnot : ∀ k, j + 1 ≤ k → k ≤ t → (frameAt frames k).input.submit = false) :
    Onward delays text position frames before t
      (advance ⟨text, position, delays.reveal, .waiting⟩ (frameAt frames (t + 1))
        ⟨before.entries ++ [.line text position], text⟩) := by
  unfold LineBubble.advance
  dsimp only
  split
  · next hsubmit =>
    refine .done rfl ?_ rfl
    rw [closesOn, hcomplete]
    exact firstFrom_eq_some (by omega) ht hsubmit fun k hk hlt => hnot k hk (by omega)
  · next hsubmit =>
    refine .running rfl (.waiting hcomplete (by omega) fun k hk hle => ?_)
    rcases Nat.lt_or_eq_of_le hle with hlt | rfl
    · exact hnot k hk (by omega)
    · simpa using hsubmit

/-- A frame that does not overflow takes a bubble to the next tick. -/
theorem After.advance (h : After delays text position frames before t b transcript)
    (ht : t < frames.length)
    (hne : (b.advance (frameAt frames (t + 1)) transcript).outcome ≠ .error .overflow) :
    Onward delays text position frames before t
      (b.advance (frameAt frames (t + 1)) transcript) := by
  cases h with
  | opening hnot hduration helapsed => exact onward_opening ht hnot hduration helapsed hne
  | revealing hopen hi hnot hreached _ _ => exact onward_revealing ht hopen hi hnot hreached hne
  | waiting hcomplete hj hnot => exact onward_waiting ht hcomplete hj hnot

/-- What a frame that does not overflow comes to, on a tick up to the one on which the bubble is
closed. -/
theorem Onward.outcome_eq {s : Step LineBubble Transcript}
    (h : Onward delays text position frames before t s) :
    s.outcome = .ok (if closesOn delays text frames = some (t + 1) then .done else .running) := by
  cases h with
  | running h hafter =>
    rw [h, if_neg fun hk => Nat.lt_irrefl _ (hafter.lt_of_closesOn hk)]
  | done h hclose _ => rw [h, if_pos hclose]

theorem Onward.displays {s : Step LineBubble Transcript}
    (h : Onward delays text position frames before t s) :
    Displays delays text position frames before (t + 1) s.world := by
  cases h with
  | running _ hafter => exact hafter.displays
  | done _ hclose hworld =>
    obtain ⟨j, hj, hjk⟩ := exists_completesOn hclose
    obtain ⟨i, hi, hij⟩ := exists_opensOn hj
    have hended : endedBy (opensOn delays frames) (t + 1) = true :=
      endedBy_iff.mpr ⟨i, hi, by omega⟩
    rw [hworld]
    exact ⟨by simp [hended], by simp [hended], fun _ => rfl, fun _ _ _ hk => absurd hclose hk,
      fun _ _ _ hk => absurd hclose hk, fun _ => rfl⟩

/-- Frames that are the same for a line: they take the same times, and once the line is complete the
player submits on the same ticks. -/
structure SameFor (delays : Delays) (text : String) (frames others : List Frame) : Prop where
  deltas : others.map Frame.delta = frames.map Frame.delta
  submits : ∀ j t, completesOn delays text frames = some j → j < t →
    (frameAt others t).input.submit = (frameAt frames t).input.submit

theorem SameFor.length_eq {others : List Frame} (h : SameFor delays text frames others) :
    others.length = frames.length := by
  simpa using congrArg List.length h.deltas

theorem SameFor.delta_eq {others : List Frame} (h : SameFor delays text frames others) (t : Nat) :
    (frameAt others t).delta = (frameAt frames t).delta := by
  have hdelta := congrArg (fun deltas => (deltas[t - 1]?).getD (default : Frame).delta) h.deltas
  simp only [List.getElem?_map, Option.getD_map, ← List.getD_eq_getElem?_getD] at hdelta
  exact hdelta

theorem SameFor.refl (delays : Delays) (text : String) (frames : List Frame) :
    SameFor delays text frames frames :=
  ⟨rfl, fun _ _ _ _ => rfl⟩

/-- What the player pressed before the line was complete makes no difference to a bubble. -/
theorem After.advance_congr (h : After delays text position frames before t b transcript)
    {others : List Frame} (hothers : SameFor delays text frames others) :
    b.advance (frameAt others (t + 1)) transcript =
      b.advance (frameAt frames (t + 1)) transcript := by
  unfold LineBubble.advance
  rw [hothers.delta_eq]
  cases h with
  | opening => rfl
  | revealing => rfl
  | waiting hcomplete hj _ => rw [hothers.submits _ _ hcomplete (Nat.lt_succ_of_le hj)]

end After

end LineBubble

/-! ## Frame after frame -/

section Run

variable {A α : Type} {company : Company A α} {delays : Delays} {text : String}
  {position : Position} {frames others : List Frame} {before : Transcript}

/-- The world after a frame of a bubble that is stepped by itself. -/
def steppedLine (s : Step LineBubble Transcript) (w : World A Transcript) :
    Step (Action (World A Transcript) (α ⊕ OpenBubble)) (World A Transcript) :=
  ⟨s.outcome, .machine (.inr (.line s.next)), { w with bubbles := s.world }⟩

/-- The action that steps a bubble goes on with the bubble that the frame leaves, also if the frames are
others that are the same for the line. -/
theorem LineBubble.After.advances_drop {t : Nat} {b : LineBubble} {w : World A Transcript}
    (h : After delays text position frames before t b w.bubbles) (ht : t < frames.length)
    (hothers : SameFor delays text frames others) :
    Action.advances (Host.ofParts company (Presenter.transcript delays)) (others.drop t)
        (.machine (.inr (.line b))) w =
      let s := steppedLine (b.advance (frameAt frames (t + 1)) w.bubbles) w
      s :: Action.advances (Host.ofParts company (Presenter.transcript delays))
        (others.drop (t + 1)) s.next s.world := by
  rw [drop_eq_frameAt_cons (by rw [hothers.length_eq]; exact ht), Action.advances,
    ← h.advance_congr hothers]
  rfl

/-- What the action that steps a bubble comes to on a tick up to the one on which it is closed. -/
theorem LineBubble.After.advances {t i : Nat} {b : LineBubble} {w : World A Transcript}
    (h : After delays text position frames before t b w.bubbles) (hlen : t + i < frames.length)
    (hend : ∀ k, closesOn delays text frames = some k → t + i < k)
    (hoverflow : ∀ s ∈ (Action.advances (Host.ofParts company (Presenter.transcript delays))
      (frames.drop t) (.machine (.inr (.line b))) w).take (i + 1), s.outcome ≠ .error .overflow) :
    ∃ s next, Onward delays text position frames before (t + i) ⟨s.outcome, next, s.world.bubbles⟩ ∧
      ∀ others, SameFor delays text frames others →
        (Action.advances (Host.ofParts company (Presenter.transcript delays)) (others.drop t)
          (.machine (.inr (.line b))) w)[i]? = some s := by
  induction i generalizing t b w with
  | zero =>
    rw [h.advances_drop hlen (.refl delays text frames)] at hoverflow
    exact ⟨_, _, h.advance hlen (hoverflow _ List.mem_cons_self),
      fun others hothers => by rw [h.advances_drop hlen hothers]; rfl⟩
  | succ i ih =>
    have ht : t < frames.length := by omega
    rw [h.advances_drop ht (.refl delays text frames)] at hoverflow
    cases h.advance ht (hoverflow _ List.mem_cons_self) with
    | done _ hclose _ =>
      have := hend _ hclose
      omega
    | running _ hafter =>
      obtain ⟨s, next, honward, hs⟩ := ih (w := { w with bubbles := _ }) hafter (by omega)
        (fun k hk => by have := hend k hk; omega)
        fun s hs => hoverflow s (List.mem_cons_of_mem _ hs)
      rw [Nat.add_right_comm, Nat.add_assoc] at honward
      exact ⟨s, next, honward, fun others hothers => by
        rw [h.advances_drop ht hothers]
        exact hs others hothers⟩

end Run

/-- The bubble of a line, stepped by one frame after the other with nothing else at work: it is done
exactly on the tick on which it is closed, and until then it enters its line once, when it opens, and
displays as many characters as the time since then has room for delays.  Times alone decide when it
is complete: what the player pressed before makes no difference. -/
theorem line_lives_on_time {A α : Type} (company : Company A α) (delays : Delays) (text : String)
    (position : Position) (frames : List Frame) (w : World A Transcript) (t : Nat) (hpos : 1 ≤ t)
    (hlen : t ≤ frames.length) (hend : ∀ k, closesOn delays text frames = some k → t ≤ k) :
    let host := Host.ofParts company (Presenter.transcript delays)
    let opened := host.showLine text position w
    (∀ s ∈ (Action.advances host frames (.machine opened.1) opened.2).take t,
      s.outcome ≠ .error .overflow) →
    ∃ s,
      (∀ others, LineBubble.SameFor delays text frames others →
        (Action.advances host others (.machine opened.1) opened.2)[t - 1]? = some s) ∧
      s.outcome = .ok (if closesOn delays text frames = some t then .done else .running) ∧
      LineBubble.Displays delays text position frames w.bubbles t s.world.bubbles := by
  intro host opened hoverflow
  obtain ⟨i, rfl⟩ : ∃ i, t = i + 1 := ⟨t - 1, by omega⟩
  have hstart := LineBubble.after_zero delays text position frames w.bubbles
  obtain ⟨s, next, honward, hs⟩ := hstart.advances (i := i) (w := w) (by omega)
    (fun k hk => by have := hend k hk; omega) hoverflow
  rw [Nat.zero_add] at honward
  exact ⟨s, hs, honward.outcome_eq, honward.displays⟩

/-- Frames in which the player submits too early, twice, and then on the last one. -/
def hastyFrames : List Frame :=
  [⟨.ofMillis 1, { submit := true }⟩, ⟨.ofMillis 1, {}⟩, ⟨.ofMillis 4, {}⟩, ⟨.ofMillis 4, {}⟩,
    ⟨.ofMillis 4, { submit := true }⟩, ⟨.ofMillis 0, {}⟩, ⟨.ofMillis 0, { submit := true }⟩]

/-- Two frames of four milliseconds leave time for two characters that take three each. -/
theorem hey_lives_on_time :
    let delays : Delays := ⟨.ofMillis 2, .ofMillis 3⟩
    let host := Host.ofParts Rehearsal.puppets (Presenter.transcript delays)
    let w : World Rehearsal.Cast Transcript := ⟨.empty, .empty, .empty, .empty, #[]⟩
    let opened := host.showLine "Hey" ⟨0, 0⟩ w
    (opensOn delays hastyFrames = some 2 ∧ completesOn delays "Hey" hastyFrames = some 5 ∧
      closesOn delays "Hey" hastyFrames = some 7) ∧
    ∃ s, (Action.advances host hastyFrames (.machine opened.1) opened.2)[3]? = some s ∧
      s.outcome = .ok .running ∧ s.world.bubbles.entries = [.line "Hey" ⟨0, 0⟩] ∧
      s.world.bubbles.display = "He" := by
  intro delays host w opened
  have hopens : opensOn delays hastyFrames = some 2 := by decide
  have hcompletes : completesOn delays "Hey" hastyFrames = some 5 := by decide
  have hcloses : closesOn delays "Hey" hastyFrames = some 7 := by decide
  have houtcomes : (Action.advances host hastyFrames (.machine opened.1) opened.2).map
      (fun s => s.outcome.toOption) = List.replicate 6 (some .running) ++ [some .done] := by
    decide +kernel
  have hshown : shownAfter delays.reveal "Hey" (timeFrom hastyFrames 3 4) = "He" := by
    decide +kernel
  obtain ⟨s, hs, houtcome, hdisplays⟩ := line_lives_on_time Rehearsal.puppets delays "Hey" ⟨0, 0⟩
    hastyFrames w 4 (by decide) (by decide)
    (fun k hk => by rw [hcloses] at hk; obtain rfl := Option.some.inj hk; decide)
    fun s hs h => by
      have hmem := List.mem_map_of_mem (f := fun s => s.outcome.toOption) (List.mem_of_mem_take hs)
      rw [houtcomes, h] at hmem
      simp [Except.toOption] at hmem
  refine ⟨⟨hopens, hcompletes, hcloses⟩, s, hs _ (.refl delays "Hey" hastyFrames), ?_, ?_, ?_⟩
  · rw [houtcome, hcloses]
    rfl
  · rw [hdisplays.entries, hopens]
    rfl
  · rw [hdisplays.revealed 2 hopens (by decide) (by rw [hcloses]; decide), hshown]

end Bubble

end Promptbook
