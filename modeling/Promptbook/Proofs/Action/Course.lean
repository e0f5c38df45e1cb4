import Promptbook.Proofs.Action.Plan

set_option autoImplicit false

/-!
# Courses

A course says by which tick something is over and what it emits on every tick.  An action is
`OnTime` if it keeps to a course from some tick on.  Leaves that are advanced a number of times,
wait for some time or for a condition are on time, and both combinators are if their children are:
`Course.OnTime.sequence` and `Course.OnTime.parallel`.
-/

namespace Promptbook

/-! ## Courses -/

/-- By which tick something is over and what it emits; nothing once it is over. -/
structure Course (E : Type) where
  ended : Nat → Bool
  emits : Nat → List E
  ended_mono : ∀ {s t : Nat}, s ≤ t → ended s = true → ended t = true
  silent : ∀ {s t : Nat}, s < t → ended s = true → emits t = []

namespace Course

variable {W κ E : Type} {host : Host W κ} {emit : E → W → W} {frames : List Frame}

/-- The course of what is never over and emits nothing. -/
def never : Course E := ⟨fun _ => false, fun _ => [], by simp, by simp⟩

/-- A step that keeps to a course on a tick; `later` is what is asked of what it leaves. -/
inductive Keeps (emit : E → W → W) (c : Course E) (later : Action W κ → Prop) (t : Nat) (w : W)
    (s : Step (Action W κ) W) : Prop where
  | overflow (h : s.outcome = .error .overflow)
  | done (hended : c.ended t = true) (h : s.outcome = .ok .done)
      (hworld : s.world = emitAll emit (c.emits t) w)
  | running (hended : c.ended t = false) (h : s.outcome = .ok .running)
      (hworld : s.world = emitAll emit (c.emits t) w) (hlater : later s.next)

/-- The action keeps to the course on `n` ticks from tick `t` on, in whatever worlds, unless a sum
of durations overflows. -/
def OnTime (host : Host W κ) (emit : E → W → W) (frames : List Frame) (c : Course E) :
    Nat → Nat → Action W κ → Prop
  | 0, _, _ => True
  | n + 1, t, a => ∀ w, c.Keeps emit (OnTime host emit frames c n (t + 1)) t w
    (a.advance host (frameAt frames t) w)

/-- Only what a course says of the ticks to come counts. -/
theorem OnTime.congr {c d : Course E} {n t : Nat} {a : Action W κ}
    (h : c.OnTime host emit frames n t a)
    (hsame : ∀ j, t ≤ j → c.ended j = d.ended j ∧ c.emits j = d.emits j) :
    d.OnTime host emit frames n t a := by
  induction n generalizing t a with
  | zero => trivial
  | succ n ih =>
    intro w
    obtain ⟨hended, hemits⟩ := hsame t (Nat.le_refl t)
    cases h w with
    | overflow h => exact .overflow h
    | done ho h hworld => exact .done (hended ▸ ho) h (hemits ▸ hworld)
    | running ho h hworld hlater =>
      exact .running (hended ▸ ho) h (hemits ▸ hworld)
        (ih hlater fun j hj => hsame j (Nat.le_of_succ_le hj))

/-! ## Combinators -/

/-- A sequence is on time if its first child is and the others are from the tick on with which that
one is over. -/
theorem OnTime.sequence {c d both : Course E} {n t : Nat} {first : Action W κ}
    {rest : List (Action W κ)} (hfirst : c.OnTime host emit frames n t first)
    (hrest : ∀ k m, t ≤ m → k + m = n + t → c.ended m = true →
      (∀ j, t ≤ j → j < m → c.ended j = false) → d.OnTime host emit frames k m (.sequence rest))
    (hbefore : ∀ j, c.ended j = false → d.ended j = false ∧ d.emits j = [])
    (hended : ∀ j, both.ended j = d.ended j) (hemits : ∀ j, both.emits j = c.emits j ++ d.emits j) :
    both.OnTime host emit frames n t (.sequence (first :: rest)) := by
  induction n generalizing t first with
  | zero => trivial
  | succ n ih =>
    intro w
    rw [Action.advance]
    cases hfirst w with
    | overflow h =>
      rw [Action.advanceSequence_of_ne (by simp [h])]
      exact .overflow h
    | done ho h hworld =>
      have hgoes := hrest (n + 1) t (Nat.le_refl t) rfl ho fun j hj hlt =>
        absurd hj (Nat.not_le_of_lt hlt)
      have hstep := hgoes (Action.advance host (frameAt frames t) first w).world
      rw [Action.advance] at hstep
      rw [Action.advanceSequence_of_done h]
      have hall : emitAll emit (d.emits t)
          (Action.advance host (frameAt frames t) first w).world =
            emitAll emit (both.emits t) w := by
        rw [hworld, hemits, emitAll_append]
      cases hstep with
      | overflow h => exact .overflow h
      | done hd h hw => exact .done (hended t ▸ hd) h (hw.trans hall)
      | running hd h hw hlater =>
        refine .running (hended t ▸ hd) h (hw.trans hall) (hlater.congr fun j hj => ?_)
        rw [hended, hemits, c.silent hj ho, List.nil_append]
        exact ⟨rfl, rfl⟩
    | running ho h hworld hlater =>
      obtain ⟨hdended, hdemits⟩ := hbefore t ho
      rw [Action.advanceSequence_of_ne (by simp [h])]
      refine .running (by rw [hended, hdended]) h ?_ (ih hlater ?_)
      · rw [hemits, hdemits, List.append_nil]
        exact hworld
      · intro k m hm hk hcm hmin
        refine hrest k m (by omega) (by omega) hcm fun j hj hlt => ?_
        rcases Nat.eq_or_lt_of_le hj with rfl | hj
        · exact ho
        · exact hmin j hj hlt

/-- Nothing in parallel stays on time once it is over. -/
theorem onTime_parallel_nil {c : Course E} {n t : Nat} (hended : c.ended t = true)
    (hemits : c.emits t = []) : c.OnTime host emit frames n t (.parallel []) := by
  cases n with
  | zero => trivial
  | succ n =>
    intro w
    rw [Action.advance]
    exact .done hended rfl (by rw [hemits]; rfl)

/-- Parallel actions are on time if the first child and the others are. -/
theorem OnTime.parallel {c d both : Course E} {n t : Nat} {first : Action W κ}
    {rest : List (Action W κ)} (hfirst : c.OnTime host emit frames n t first)
    (hrest : d.OnTime host emit frames n t (.parallel rest))
    (hended : ∀ j, both.ended j = (c.ended j && d.ended j))
    (hemits : ∀ j, both.emits j = c.emits j ++ d.emits j) :
    both.OnTime host emit frames n t (.parallel (first :: rest)) := by
  induction n generalizing t first rest with
  | zero => trivial
  | succ n ih =>
    intro w
    have hstep := hrest (Action.advance host (frameAt frames t) first w).world
    rw [Action.advance] at hstep ⊢
    have hall (hworld : (Action.advance host (frameAt frames t) first w).world =
        emitAll emit (c.emits t) w) : emitAll emit (d.emits t)
          (Action.advance host (frameAt frames t) first w).world =
            emitAll emit (both.emits t) w := by
      rw [hworld, hemits, emitAll_append]
    cases hfirst w with
    | overflow h =>
      rw [Action.advanceParallel_of_error h]
      exact .overflow rfl
    | done ho h hworld =>
      rw [Action.advanceParallel_of_done h]
      cases hstep with
      | overflow h => exact .overflow h
      | done hd h hw => exact .done (by rw [hended, ho, hd]; rfl) h (hw.trans (hall hworld))
      | running hd h hw hlater =>
        refine .running (by rw [hended, ho, hd]; rfl) h (hw.trans (hall hworld))
          (hlater.congr fun j hj => ?_)
        rw [hended, hemits, c.silent hj ho, c.ended_mono (Nat.le_of_succ_le hj) ho]
        exact ⟨(Bool.true_and _).symm, rfl⟩
    | running ho h hworld hlater =>
      rw [Action.advanceParallel_of_running h]
      have hboth : both.ended t = false := by rw [hended, ho, Bool.false_and]
      cases hstep with
      | overflow h =>
        refine .overflow ?_
        rw [Step.outcome_mapNext] at h ⊢
        dsimp only
        rw [h]
        rfl
      | done hd h hw =>
        rw [Step.outcome_mapNext] at h
        refine .running hboth ?_ (hw.trans (hall hworld)) ?_
        · rw [Step.outcome_mapNext]
          dsimp only
          rw [h]
          rfl
        · rw [Step.next_mapNext]
          dsimp only
          rw [Action.next_advanceParallel h]
          exact ih hlater (onTime_parallel_nil (d.ended_mono (Nat.le_succ t) hd)
            (d.silent (Nat.lt_succ_self t) hd))
      | running hd h hw hlater' =>
        rw [Step.outcome_mapNext] at h
        refine .running hboth ?_ (hw.trans (hall hworld)) (ih hlater hlater')
        rw [Step.outcome_mapNext]
        dsimp only
        rw [h]
        rfl

/-! ## Leaves -/

section Leaves

variable {c : Course E} {n t : Nat}

theorem onTime_stint {events : Nat → Frame → List E} {k advances : Nat} {work : κ}
    (hlasts : host.Lasts emit events k advances work) (hpos : 0 < advances)
    (hn : n + t = frames.length + 1)
    (hended : ∀ j, t ≤ j → j ≤ frames.length → c.ended j = decide (t + advances ≤ j + 1))
    (hemits : ∀ j, t ≤ j → j < t + advances →
      c.emits j = events (k + (j - t)) (frameAt frames j)) :
    c.OnTime host emit frames n t (.machine work) := by
  induction n generalizing k advances t work with
  | zero => trivial
  | succ n ih =>
    intro w
    obtain ⟨m, rfl⟩ : ∃ m, advances = m + 1 := ⟨advances - 1, by omega⟩
    obtain ⟨houtcome, hworld, hnext⟩ := hlasts (frameAt frames t) w
    have hnow := hended t (Nat.le_refl t) (by omega)
    have hemitted : c.emits t = events k (frameAt frames t) := by
      rw [hemits t (Nat.le_refl t) (by omega), Nat.sub_self, Nat.add_zero]
    rw [← hemitted] at hworld
    rw [Action.advance]
    cases m with
    | zero => exact .done (by simp [hnow]) houtcome hworld
    | succ m =>
      refine .running (by simp [hnow]) houtcome hworld
        (ih hnext (Nat.succ_pos m) (by omega) ?_ ?_)
      · intro j hj hlen
        rw [hended j (by omega) hlen, Nat.add_right_comm t 1, Nat.add_assoc t]
      · intro j hj hlt
        rw [hemits j (by omega) (by omega)]
        congr 1
        omega

theorem onTime_wait {s : Nat} {timer : Timer} (hn : n + t = frames.length + 1) (hs : s ≤ t)
    (helapsed : timer.elapsed.nanos + (frameAt frames t).delta.nanos = timeFrom frames s t)
    (hended : ∀ j, t ≤ j → j ≤ frames.length →
      c.ended j = decide (timer.duration.nanos ≤ timeFrom frames s j))
    (hemits : ∀ j, c.emits j = []) :
    c.OnTime host emit frames n t (.wait timer) := by
  induction n generalizing t timer with
  | zero => trivial
  | succ n ih =>
    intro w
    have hnow := hended t (Nat.le_refl t) (by omega)
    rw [Action.advance, Timer.advance]
    cases hsum : timer.elapsed.add? (frameAt frames t).delta with
    | none => exact .overflow rfl
    | some elapsed =>
      have hpassed : elapsed.nanos = timeFrom frames s t := by
        rw [Duration.add?_eq_some_iff.mp hsum, helapsed]
      have hworld : w = emitAll emit (c.emits t) w := by rw [hemits]; rfl
      by_cases hd : timer.duration ≤ elapsed
      · refine .done ?_ (by simp [hd]) hworld
        rw [hnow]
        exact decide_eq_true (hpassed ▸ hd)
      · refine .running ?_ (by simp [hd]) hworld
          (ih (by omega) (by omega) ?_ fun j hj => hended j (by omega))
        · rw [hnow]
          exact decide_eq_false (hpassed ▸ hd)
        · rw [timeFrom_succ (by omega), ← hpassed]

theorem onTime_waitUntil {condition : Frame → Bool} {tried : Frame → List E} {s : Nat}
    (hn : n + t = frames.length + 1) (hs : s ≤ t)
    (hbefore : ∀ i, s ≤ i → i < t → condition (frameAt frames i) = false)
    (hcourse : ∀ j, s ≤ j → j ≤ frames.length →
      (∀ i, s ≤ i → i < j → condition (frameAt frames i) = false) →
      c.ended j = condition (frameAt frames j) ∧ c.emits j = tried (frameAt frames j)) :
    c.OnTime host emit frames n t
      (.waitUntil fun frame w => (condition frame, emitAll emit (tried frame) w)) := by
  induction n generalizing t with
  | zero => trivial
  | succ n ih =>
    intro w
    obtain ⟨hended, hemits⟩ := hcourse t hs (by omega) hbefore
    rw [Action.advance, hemits.symm]
    cases hholds : condition (frameAt frames t) with
    | true => exact .done (hended.trans hholds) (by simp) rfl
    | false =>
      refine .running (hended.trans hholds) (by simp) rfl (ih (by omega) (by omega) ?_)
      intro i hi hlt
      rcases Nat.lt_succ_iff_lt_or_eq.mp hlt with hlt | rfl
      · exact hbefore i hi hlt
      · exact hholds

theorem onTime_effect {events : List E} (hn : n + t = frames.length + 1)
    (hended : t ≤ frames.length → c.ended t = false)
    (hnext : t + 1 ≤ frames.length → c.ended (t + 1) = true)
    (hemits : c.emits t = events) (hsilent : c.emits (t + 1) = []) :
    c.OnTime host emit frames n t (.effect (emitAll emit events)) := by
  cases n with
  | zero => trivial
  | succ n =>
    intro w
    rw [Action.advance]
    refine .running (hended (by omega)) rfl (by rw [hemits]) ?_
    cases n with
    | zero => trivial
    | succ n =>
      intro w
      rw [Action.advance]
      exact .done (hnext (by omega)) rfl (by rw [hsilent]; rfl)

theorem onTime_deferred {c child : Course E} {made : List E} {action : Action W κ} {n s : Nat}
    (h : child.OnTime host emit frames n s action) (hended : ∀ j, c.ended j = child.ended j)
    (hfirst : c.emits s = made ++ child.emits s)
    (hemits : ∀ j, s < j → c.emits j = child.emits j) :
    c.OnTime host emit frames n s (.deferred (emitAll emit made) fun _ => action) := by
  cases n with
  | zero => trivial
  | succ n =>
    intro w
    have hall : emitAll emit (child.emits s) (emitAll emit made w) =
        emitAll emit (c.emits s) w := by
      rw [hfirst, emitAll_append]
    rw [Action.advance]
    cases h (emitAll emit made w) with
    | overflow h => exact .overflow h
    | done ho h hworld => exact .done (hended s ▸ ho) h (hworld.trans hall)
    | running ho h hworld hlater =>
      refine .running (hended s ▸ ho) h (hworld.trans hall) (hlater.congr fun j hj => ?_)
      exact ⟨(hended j).symm, (hemits j hj).symm⟩

end Leaves

/-! ## Frame after frame -/

/-- What an action that is on time comes to on a tick before which it was not over. -/
theorem OnTime.advances {c : Course E} {n t i : Nat} {a : Action W κ}
    (h : c.OnTime host emit frames n (t + 1) a) (hn : n + t = frames.length) (hi : i < n) (w : W)
    (hbefore : ∀ j, j < i → c.ended (t + 1 + j) = false)
    (hoverflow : ∀ s ∈ (Action.advances host (frames.drop t) a w).take (i + 1),
      s.outcome ≠ .error .overflow) :
    ∃ s, (Action.advances host (frames.drop t) a w)[i]? = some s ∧
      s.outcome = .ok (if c.ended (t + 1 + i) then .done else .running) ∧
      s.world = emitAll emit ((List.range' (t + 1) (i + 1)).flatMap c.emits) w := by
  induction i generalizing n t a w with
  | zero =>
    obtain ⟨n, rfl⟩ : ∃ m, n = m + 1 := ⟨n - 1, by omega⟩
    rw [drop_eq_frameAt_cons (by omega)] at hoverflow ⊢
    have hnot := hoverflow _ List.mem_cons_self
    refine ⟨_, rfl, ?_⟩
    have hevents : (List.range' (t + 1) 1).flatMap c.emits = c.emits (t + 1) := by simp
    rw [hevents, Nat.add_zero]
    cases h w with
    | overflow h => exact absurd h hnot
    | done ho h hworld => exact ⟨by rw [h, if_pos ho], hworld⟩
    | running ho h hworld => exact ⟨by rw [h, if_neg (by simp [ho])], hworld⟩
  | succ i ih =>
    obtain ⟨n, rfl⟩ : ∃ m, n = m + 1 := ⟨n - 1, by omega⟩
    rw [drop_eq_frameAt_cons (by omega)] at hoverflow ⊢
    have hnot := hoverflow _ List.mem_cons_self
    have hfirst : c.ended (t + 1) = false := hbefore 0 (Nat.succ_pos i)
    cases h w with
    | overflow h => exact absurd h hnot
    | done ho => exact absurd ho (by simp [hfirst])
    | running ho h hworld hlater =>
      obtain ⟨s, hs, houtcome, hall⟩ := ih hlater (by omega) (by omega) _
        (fun j hj => by
          rw [Nat.add_assoc, Nat.add_comm 1 j]
          exact hbefore (j + 1) (Nat.succ_lt_succ hj))
        fun s hs => hoverflow s (List.mem_cons_of_mem _ hs)
      refine ⟨s, hs, ?_, ?_⟩
      · rw [houtcome, Nat.add_right_comm (t + 1) 1, Nat.add_assoc (t + 1)]
      · rw [hall, hworld, ← emitAll_append]
        rfl

end Course

end Promptbook
