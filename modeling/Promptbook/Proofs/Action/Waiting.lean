import Mathlib.Algebra.GroupWithZero.Nat
import Promptbook.Proofs.Action.Punctuality

set_option autoImplicit false

/-!
# Pauses one after the other

A pause counts the whole time of the tick with which it begins, and in a sequence it begins with the
tick that ends the pause before it.  The time of such a tick is counted by both, so pauses can be over
before the sum of their durations has passed.

What they do take is the sum less the time of the ticks in which one hands over to the next:
`advances_pauses_on_time`.  `pauseEnds` finds these ticks from the frames alone.
-/

namespace Promptbook

/-- One pause after the other. -/
def Action.pauses {W κ : Type} (durations : List Duration) : Action W κ :=
  .sequence (durations.map .pause)

/-- Nothing but waits, as the parts of a plan. -/
def Plan.waits {W κ E : Type} (host : Host W κ) (emit : E → W → W) (durations : List Duration) :
    List (Plan host emit) :=
  durations.map .wait

/-- The time that pauses ask for together, in nanoseconds. -/
def totalTime (durations : List Duration) : Nat := (durations.map Duration.nanos).sum

section Ends

variable (frames : List Frame)

/-- The tick with which a pause ends that begins with tick `s`: the first one up to which the time of
its ticks, that of tick `s` included, reaches the duration. -/
def pauseEnd (s : Nat) (d : Duration) : Option Nat :=
  firstFrom frames s fun t => decide (d.nanos ≤ timeFrom frames s t)

/-- The ticks with which pauses end of which the first begins with tick `s` and each other one with
the end of the one before, as far as the frames reach. -/
def pauseEnds : Nat → List Duration → List Nat
  | _, [] => []
  | s, d :: rest => (pauseEnd frames s d).elim [] fun e => e :: pauseEnds e rest

/-- The time of the ticks in which one pause hands over to the next, for each time that it happens. -/
def handOverTime (s : Nat) (durations : List Duration) : Nat :=
  ((pauseEnds frames s durations).dropLast.map fun e => (frameAt frames e).delta.nanos).sum

/-- All pauses end, the last one with that tick. -/
def PausesEnd (s : Nat) (durations : List Duration) (t : Nat) : Prop :=
  (pauseEnds frames s durations).length = durations.length ∧
    (pauseEnds frames s durations).getLastD s = t

instance (s : Nat) (durations : List Duration) (t : Nat) :
    Decidable (PausesEnd frames s durations t) :=
  inferInstanceAs (Decidable (_ ∧ _))

end Ends

section Laws

variable {frames : List Frame} {s m t : Nat} {d : Duration} {rest : List Duration}

/-! ## Time -/

/-- Two stretches of ticks that share a tick count its time twice. -/
theorem timeFrom_add_timeFrom (hs : s ≤ m) (hm : m ≤ t) :
    timeFrom frames s m + timeFrom frames m t =
      timeFrom frames s t + (frameAt frames m).delta.nanos := by
  induction hm with
  | refl => rw [timeFrom_self]
  | @step t hm ih =>
    rw [timeFrom_succ (Nat.le_succ_of_le hm),
      timeFrom_succ (Nat.le_succ_of_le (Nat.le_trans hs hm))]
    omega

theorem nanos_le_of_pauseEnd (h : pauseEnd frames s d = some m) :
    d.nanos ≤ timeFrom frames s m := by
  have hfound := List.find?_some h
  simpa using hfound

/-! ## Ends -/

theorem pauseEnds_cons (h : pauseEnd frames s d = some m) :
    pauseEnds frames s (d :: rest) = m :: pauseEnds frames m rest := by
  rw [pauseEnds, h]
  rfl

@[simp] theorem pausesEnd_nil : PausesEnd frames s [] t ↔ s = t := by
  simp [PausesEnd, pauseEnds]

/-- The pauses end if the first one does and the others do that begin with its end. -/
theorem pausesEnd_cons :
    PausesEnd frames s (d :: rest) t ↔
      ∃ m, pauseEnd frames s d = some m ∧ PausesEnd frames m rest t := by
  cases h : pauseEnd frames s d with
  | none => simp [PausesEnd, pauseEnds, h]
  | some m =>
    rw [PausesEnd, pauseEnds_cons h, List.getLastD_cons]
    simp [PausesEnd]

theorem PausesEnd.le {durations : List Duration} (h : PausesEnd frames s durations t) : s ≤ t := by
  induction durations generalizing s with
  | nil => exact Nat.le_of_eq (pausesEnd_nil.mp h)
  | cons d rest ih =>
    obtain ⟨m, hm, hrest⟩ := pausesEnd_cons.mp h
    exact Nat.le_trans (le_of_firstFrom hm) (ih hrest)

/-- The end of a plan that is nothing but waits. -/
theorem finishInTurn_waits {W κ E : Type} (host : Host W κ) (emit : E → W → W)
    (durations : List Duration) :
    Plan.finishInTurn frames (Plan.waits host emit durations) s = some t ↔
      PausesEnd frames s durations t := by
  induction durations generalizing s with
  | nil => simp [Plan.waits, Plan.finishInTurn]
  | cons d rest ih =>
    rw [Plan.waits, List.map_cons, ← Plan.waits, Plan.finishInTurn, Option.bind_eq_some_iff,
      pausesEnd_cons]
    exact exists_congr fun m => and_congr_right' ih

/-- Until pauses are over their durations have passed, if the time of a hand-over counts for both. -/
theorem PausesEnd.totalTime_le {durations : List Duration}
    (h : PausesEnd frames s durations t) :
    totalTime durations ≤ timeFrom frames s t + handOverTime frames s durations := by
  induction durations generalizing s with
  | nil => exact Nat.zero_le _
  | cons d rest ih =>
    obtain ⟨m, hm, hrest⟩ := pausesEnd_cons.mp h
    have hfirst := nanos_le_of_pauseEnd hm
    have hothers := ih hrest
    have htotal : totalTime (d :: rest) = d.nanos + totalTime rest := by simp [totalTime]
    cases rest with
    | nil =>
      obtain rfl := pausesEnd_nil.mp hrest
      simpa [totalTime] using Nat.le_add_right_of_le hfirst
    | cons d' rest =>
      obtain ⟨m', hm', -⟩ := pausesEnd_cons.mp hrest
      have hhand : handOverTime frames s (d :: d' :: rest) =
          (frameAt frames m).delta.nanos + handOverTime frames m (d' :: rest) := by
        simp [handOverTime, pauseEnds_cons hm, pauseEnds_cons hm']
      have hshared : timeFrom frames s m + timeFrom frames m t =
          timeFrom frames s t + (frameAt frames m).delta.nanos :=
        timeFrom_add_timeFrom (le_of_firstFrom hm) hrest.le
      omega

end Laws

/-! ## Frame after frame -/

theorem actions_waits {W κ E : Type} (host : Host W κ) (emit : E → W → W)
    (durations : List Duration) :
    Plan.actions (Plan.waits host emit durations) = durations.map .pause := by
  induction durations with
  | nil => rfl
  | cons d rest ih =>
    rw [Plan.waits, List.map_cons, ← Plan.waits, Plan.actions, ih, List.map_cons, Plan.action]

section Run

variable {W κ : Type} {host : Host W κ} {durations : List Duration} {frames : List Frame} {w : W}

/-- Up to the tick that ends them, pauses are done exactly on that tick. -/
theorem outcome_advances_pauses {i : Nat} (hlen : i < frames.length)
    (hend : ∀ e, PausesEnd frames 1 durations e → i < e)
    (hoverflow : ∀ s ∈ (Action.advances host frames (.pauses durations) w).take (i + 1),
      s.outcome ≠ .error .overflow) :
    ∃ s, (Action.advances host frames (.pauses durations) w)[i]? = some s ∧
      s.outcome = .ok (if PausesEnd frames 1 durations (i + 1) then .done else .running) := by
  let emit : Unit → W → W := fun _ w => w
  let plan : Plan host emit := .sequence (Plan.waits host emit durations)
  have haction : plan.action = .pauses durations := by
    rw [Plan.action, actions_waits]
    rfl
  have hfinish (e : Nat) : plan.finish frames 1 = some e ↔ PausesEnd frames 1 durations e :=
    finishInTurn_waits host emit durations
  have hbefore (j : Nat) (hj : j < i) : (plan.course frames 1).ended (0 + 1 + j) = false := by
    refine Bool.eq_false_iff.mpr fun hended => ?_
    obtain ⟨e, he, hle⟩ := endedBy_iff.mp hended
    have := hend e ((hfinish e).mp he)
    omega
  rw [← haction] at hoverflow ⊢
  obtain ⟨s, hs, houtcome, -⟩ :=
    (plan.onTime frames (Nat.add_comm frames.length 1 ▸ rfl)).advances rfl hlen w hbefore hoverflow
  refine ⟨s, hs, houtcome.trans ?_⟩
  have hended : (plan.course frames 1).ended (0 + 1 + i) = true ↔
      PausesEnd frames 1 durations (i + 1) := by
    rw [Nat.zero_add, Nat.add_comm 1 i, ← hfinish]
    constructor
    · intro h
      obtain ⟨e, he, hle⟩ := endedBy_iff.mp h
      rw [he, Nat.le_antisymm hle (hend e ((hfinish e).mp he))]
    · exact fun h => endedBy_iff.mpr ⟨_, h, Nat.le_refl _⟩
  simp only [hended]

/-- Pauses that were not done before a tick do not end before it. -/
theorem lt_of_pausesEnd {i e : Nat} (hlen : i < frames.length)
    (hbefore : ∀ s ∈ (Action.advances host frames (.pauses durations) w).take i,
      s.outcome ≠ .ok .done)
    (hoverflow : ∀ s ∈ (Action.advances host frames (.pauses durations) w).take (i + 1),
      s.outcome ≠ .error .overflow) (he : PausesEnd frames 1 durations e) : i < e := by
  refine Nat.lt_of_not_le fun hle => ?_
  have hpos := he.le
  obtain ⟨j, rfl⟩ : ∃ j, e = j + 1 := ⟨e - 1, by omega⟩
  obtain ⟨s, hs, houtcome⟩ :
      ∃ s, (Action.advances host frames (.pauses durations) w)[j]? = some s ∧
        s.outcome = .ok (if PausesEnd frames 1 durations (j + 1) then .done else .running) :=
    outcome_advances_pauses (by omega)
      (fun e' he' => by rw [← he'.2, he.2]; exact Nat.lt_succ_self j)
      fun s hs => hoverflow s (List.take_subset_take_left _ (by omega) hs)
  rw [if_pos he] at houtcome
  rw [← List.getElem?_take_of_lt (by omega : j < i)] at hs
  exact hbefore s (List.mem_of_getElem? hs) houtcome

end Run

/-- Pauses one after the other: as long as they were not done, they are done on a tick exactly if
it is the one that ends the last of them, each counting its ticks from the one that ended the pause
before.  Until then the time of all ticks so far, that of a tick in which one pause hands over to the
next being counted once more for each time that this happens, has reached the sum of the durations. -/
theorem advances_pauses_on_time {W κ : Type} (host : Host W κ) (durations : List Duration)
    (frames : List Frame) (w : W) (t : Nat) (hpos : 1 ≤ t) (hlen : t ≤ frames.length)
    (hbefore : ∀ s ∈ (Action.advances host frames (.pauses durations) w).take (t - 1),
      s.outcome ≠ .ok .done)
    (hoverflow : ∀ s ∈ (Action.advances host frames (.pauses durations) w).take t,
      s.outcome ≠ .error .overflow) :
    ∃ s, (Action.advances host frames (.pauses durations) w)[t - 1]? = some s ∧
      s.outcome = .ok (if PausesEnd frames 1 durations t then .done else .running) ∧
      (s.outcome = .ok .done →
        totalTime durations ≤ timeFrom frames 1 t + handOverTime frames 1 durations) := by
  obtain ⟨i, rfl⟩ : ∃ i, t = i + 1 := ⟨t - 1, by omega⟩
  obtain ⟨s, hs, houtcome⟩ := outcome_advances_pauses hlen
    (fun e he => lt_of_pausesEnd hlen hbefore hoverflow he) hoverflow
  refine ⟨s, hs, houtcome, fun hdone => ?_⟩
  by_cases hended : PausesEnd frames 1 durations (i + 1)
  · exact hended.totalTime_le
  · rw [if_neg hended, hdone] at houtcome
    simp at houtcome

namespace Rehearsal

/-- Nobody is on stage and nothing has happened. -/
def emptyHouse : World Cast Answers := ⟨.empty, ⟨[], 0⟩, .empty, .empty, #[]⟩

/-- Two pauses end on the first of two ticks, and the third one with the second. -/
theorem advances_threePauses_on_time :
    let frames : List Frame := List.replicate 2 ⟨.ofMillis 2, {}⟩
    let durations : List Duration := [.ofMillis 2, .ofMillis 1, .ofMillis 3]
    pauseEnds frames 1 durations = [1, 1, 2] ∧
      ∃ s, (Action.advances (Host.ofParts puppets answering) frames (.pauses durations)
          emptyHouse)[1]? = some s ∧ s.outcome = .ok .done ∧
        totalTime durations ≤ timeFrom frames 1 2 + handOverTime frames 1 durations := by
  intro frames durations
  have hends : pauseEnds frames 1 durations = [1, 1, 2] := by decide
  have hended : PausesEnd frames 1 durations 2 := by decide
  have houtcomes : (Action.advances (Host.ofParts puppets answering) frames (.pauses durations)
      emptyHouse).map Step.outcome = [.ok .running, .ok .done] := rfl
  have hmem {n : Nat} {s : Step _ _} (hs : s ∈ (Action.advances (Host.ofParts puppets answering)
      frames (.pauses durations) emptyHouse).take n) :
      s.outcome ∈ ([.ok .running, .ok .done] : List Outcome).take n := by
    rw [← houtcomes, ← List.map_take]
    exact List.mem_map_of_mem hs
  obtain ⟨s, hs, houtcome, htotal⟩ := advances_pauses_on_time (Host.ofParts puppets answering)
    durations frames emptyHouse 2 (by decide) (by decide)
    (fun s hs h => by simpa [h] using hmem hs) fun s hs h => by simpa [h] using hmem hs
  rw [if_pos hended] at houtcome
  exact ⟨hends, s, hs, houtcome, htotal houtcome⟩

/-- It is not so that pauses are only done when the time of the ticks so far has reached the sum of
their durations: two pauses of one millisecond are done on a first tick of one millisecond. -/
theorem pauses_done_before_totalTime :
    ¬ ∀ (durations : List Duration) (frames : List Frame) (t : Nat), 1 ≤ t → t ≤ frames.length →
      (∀ s ∈ (Action.advances (Host.ofParts puppets answering) frames (.pauses durations)
        emptyHouse).take (t - 1), s.outcome = .ok .running) →
      ((Action.advances (Host.ofParts puppets answering) frames (.pauses durations)
        emptyHouse)[t - 1]?).map Step.outcome = some (.ok .done) →
      totalTime durations ≤ timeFrom frames 1 t := by
  intro h
  have houtcomes : (Action.advances (Host.ofParts puppets answering) [⟨.ofMillis 1, {}⟩]
      (.pauses [.ofMillis 1, .ofMillis 1]) emptyHouse).map Step.outcome = [.ok .done] := rfl
  have hle := h [.ofMillis 1, .ofMillis 1] [⟨.ofMillis 1, {}⟩] 1 (by decide) (by decide)
    (by simp) (by rw [← List.getElem?_map, houtcomes]; rfl)
  exact absurd hle (by decide)

end Rehearsal

end Promptbook
