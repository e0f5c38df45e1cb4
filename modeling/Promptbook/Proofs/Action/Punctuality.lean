import Promptbook.Proofs.Action.Course
import Promptbook.Rehearsal.Answering
import Promptbook.Rehearsal.Exercise

set_option autoImplicit false

/-!
# Plans are kept

Advanced frame by frame, the action of a plan is running on every tick before the one that the plan
ends with and done on that tick, and on every tick it emits what the engaged nodes emit, from left
to right: `advances_plan_on_time`.  The engagements of a plan make up its course, and by induction
over plans every action of a plan keeps to it (`Plan.onTime`).
-/

namespace Promptbook

namespace Plan

variable {W κ E : Type} {host : Host W κ} {emit : E → W → W} (frames : List Frame)

/-- The course of a plan that begins with tick `s`. -/
def course (p : Plan host emit) (s : Nat) : Course E where
  ended := endedBy (p.finish frames s)
  emits t := emittedOn t (p.engagements frames s)
  ended_mono := by
    intro a b hab ha
    obtain ⟨e, he, hle⟩ := endedBy_iff.mp ha
    exact endedBy_iff.mpr ⟨e, he, Nat.le_trans hle hab⟩
  silent := by
    intro a b hab ha
    obtain ⟨e, he, hle⟩ := endedBy_iff.mp ha
    apply emittedOn_eq_nil
    intro g hg
    obtain ⟨last, hlast, hl⟩ := last_le frames hg he
    have hlt : last < b := Nat.lt_of_le_of_lt (Nat.le_trans hl hle) hab
    simp [Engagement.isOn, hlast, hlt]

/-! ## Trees -/

/-- What is left of a sequence when its first child, if ever, is over. -/
def courseAfter (first : Plan host emit) (rest : List (Plan host emit)) (s : Nat) : Course E :=
  match first.finish frames s with
  | none => .never
  | some m => (sequence rest).course frames m

/-- A plan ends with the first tick by which it is over. -/
theorem finish_of_ended {p : Plan host emit} {s m : Nat}
    (hended : (p.course frames s).ended m = true)
    (hmin : ∀ j, s ≤ j → j < m → (p.course frames s).ended j = false) :
    p.finish frames s = some m := by
  obtain ⟨e, he, hle⟩ := endedBy_iff.mp hended
  rcases Nat.lt_or_eq_of_le hle with hlt | rfl
  · have hlast : (p.course frames s).ended e = true := endedBy_iff.mpr ⟨e, he, Nat.le_refl e⟩
    exact absurd hlast (by simp [hmin e (p.le_of_finish frames he) hlt])
  · exact he

/-- While the first child is not over, the others neither emit nor end. -/
theorem courseAfter_before {first : Plan host emit} {rest : List (Plan host emit)} {s j : Nat}
    (h : (first.course frames s).ended j = false) :
    (courseAfter frames first rest s).ended j = false ∧
      (courseAfter frames first rest s).emits j = [] := by
  unfold courseAfter
  split
  · exact ⟨rfl, rfl⟩
  · next m hm =>
    have hlt : j < m := by simpa [course, endedBy, hm] using h
    refine ⟨Bool.eq_false_iff.mpr fun hended => ?_, emittedOn_of_lt frames _ hlt⟩
    obtain ⟨e, he, hle⟩ := endedBy_iff.mp hended
    have hme := (sequence rest).le_of_finish frames he
    omega

/-- A sequence is over when what is left of it is. -/
theorem ended_sequence_cons (first : Plan host emit) (rest : List (Plan host emit)) (s j : Nat) :
    ((sequence (first :: rest)).course frames s).ended j =
      (courseAfter frames first rest s).ended j := by
  unfold courseAfter
  cases hm : first.finish frames s <;>
    simp [course, finish, finishInTurn, hm, endedBy, Course.never]

theorem emits_sequence_cons (first : Plan host emit) (rest : List (Plan host emit)) (s j : Nat) :
    ((sequence (first :: rest)).course frames s).emits j =
      (first.course frames s).emits j ++ (courseAfter frames first rest s).emits j := by
  unfold courseAfter
  cases hm : first.finish frames s <;>
    simp [course, engagements, engagementsInTurn, hm, emittedOn_append, Course.never]

/-- Parallel plans are over when all of them are. -/
theorem ended_parallel_cons (first : Plan host emit) (rest : List (Plan host emit)) (s j : Nat) :
    ((parallel (first :: rest)).course frames s).ended j =
      ((first.course frames s).ended j && ((parallel rest).course frames s).ended j) := by
  change endedBy ((first.finish frames s).bind _) j =
    (endedBy (first.finish frames s) j && endedBy (finishTogether frames rest s) j)
  cases first.finish frames s with
  | none => rfl
  | some e =>
    cases finishTogether frames rest s with
    | none => simp [endedBy]
    | some l => exact (decide_eq_decide.mpr Nat.max_le).trans (Bool.decide_and _ _)

theorem emits_parallel_cons (first : Plan host emit) (rest : List (Plan host emit)) (s j : Nat) :
    ((parallel (first :: rest)).course frames s).emits j =
      (first.course frames s).emits j ++ ((parallel rest).course frames s).emits j :=
  emittedOn_append _ _

/-- Every plan is on time. -/
theorem onTime (p : Plan host emit) {n s : Nat} (hn : n + s = frames.length + 1) :
    (p.course frames s).OnTime host emit frames n s p.action := by
  induction p using Plan.induction generalizing n s with
  | stint p =>
    refine Course.onTime_stint p.lasts p.advances_pos hn ?_ ?_
    · intro j hj hlen
      refine endedBy_firstFrom_of_lasting hj hlen fun i hi hle h => ?_
      simp only [decide_eq_true_eq] at h ⊢
      omega
    · intro j hj hlt
      change emittedOn j [_] = _
      rw [emittedOn_singleton, finish,
        isOn_of_before hj fun i hi hlt => decide_eq_false (by omega), Nat.zero_add]
      rfl
  | wait d =>
    refine Course.onTime_wait hn (Nat.le_refl s) ?_ ?_ ?_
    · rw [timeFrom_self]
      exact Nat.zero_add _
    · intro j hj hlen
      refine endedBy_firstFrom_of_lasting hj hlen fun i hi hle h => ?_
      simp only [decide_eq_true_eq] at h ⊢
      exact Nat.le_trans h (timeFrom_mono hi hle)
    · intro j
      change emittedOn j [_] = _
      rw [emittedOn_singleton, ite_self]
  | waitUntil condition tried =>
    refine Course.onTime_waitUntil hn (Nat.le_refl s) (fun i hi hlt => absurd hi (by omega)) ?_
    intro j hj hlen hbefore
    refine ⟨endedBy_firstFrom_of_before hj hlen hbefore, ?_⟩
    change emittedOn j [_] = _
    rw [emittedOn_singleton, finish, isOn_of_before hj hbefore]
    rfl
  | effect events =>
    have hended {j : Nat} (hj : s ≤ j) (hlen : j ≤ frames.length) :
        ((effect events : Plan host emit).course frames s).ended j = decide (s + 1 ≤ j) := by
      refine endedBy_firstFrom_of_lasting hj hlen fun i hi hle h => ?_
      simp only [decide_eq_true_eq] at h ⊢
      omega
    have hemits (j : Nat) : ((effect events : Plan host emit).course frames s).emits j =
        if (Engagement.mk s ((effect events : Plan host emit).finish frames s)
          fun t => if t = s then events else []).isOn j
        then (if j = s then events else []) else [] :=
      emittedOn_singleton _
    refine Course.onTime_effect hn (fun hlen => ?_) (fun hlen => ?_) ?_ ?_
    · rw [hended (Nat.le_refl s) hlen]
      exact decide_eq_false (Nat.not_succ_le_self s)
    · rw [hended (Nat.le_succ s) hlen]
      exact decide_eq_true (Nat.le_refl _)
    · rw [hemits, finish, isOn_of_before (Nat.le_refl s) fun i hi hlt => absurd hi (by omega)]
      simp
    · rw [hemits, if_neg (Nat.succ_ne_self s), ite_self]
  | deferred made child ih =>
    have hemits (j : Nat) : ((deferred made child).course frames s).emits j =
        (if (Engagement.mk s (child.finish frames s) fun t => if t = s then made else []).isOn j
          then (if j = s then made else []) else []) ++ (child.course frames s).emits j :=
      emittedOn_cons _ _
    refine Course.onTime_deferred (ih hn) (fun j => rfl) ?_ fun j hj => ?_
    · have hon : (child.finish frames s).all fun last => decide (s ≤ last) := by
        simpa [Option.all_eq_true] using fun e he => child.le_of_finish frames he
      rw [hemits, if_pos (by simpa [Engagement.isOn] using hon), if_pos rfl]
    · rw [hemits, if_neg (Nat.ne_of_gt hj), ite_self, List.nil_append]
  | sequence children ih =>
    induction children generalizing n s with
    | nil =>
      cases n with
      | zero => trivial
      | succ n =>
        intro w
        exact .done (by simp [course, finish, finishInTurn, endedBy]) rfl rfl
    | cons first rest hrest =>
      refine Course.OnTime.sequence (d := courseAfter frames first rest s)
        (ih first (by simp) hn) ?_ (fun j => courseAfter_before frames)
        (ended_sequence_cons frames first rest s) (emits_sequence_cons frames first rest s)
      intro k m hm hk hended hmin
      rw [courseAfter, finish_of_ended frames hended hmin]
      exact hrest (fun x hx => ih x (List.mem_cons_of_mem _ hx)) (by omega)
  | parallel children ih =>
    induction children with
    | nil =>
      exact Course.onTime_parallel_nil (by simp [course, finish, finishTogether, endedBy]) rfl
    | cons first rest hrest =>
      exact Course.OnTime.parallel (ih first (by simp) hn)
        (hrest fun x hx => ih x (List.mem_cons_of_mem _ hx))
        (ended_parallel_cons frames first rest s)
        (emits_parallel_cons frames first rest s)

end Plan

/-! ## Frame after frame -/

/-- The action of a plan, advanced by one frame after the other: on every tick up to the one that
the plan ends with it is done exactly if it is that one, and the world is what the engaged nodes
have made of it, on one tick after the other and on each from left to right. -/
theorem advances_plan_on_time {W κ E : Type} {host : Host W κ} {emit : E → W → W}
    (plan : Plan host emit) (frames : List Frame) (w : W) (t : Nat) (hpos : 1 ≤ t)
    (hlen : t ≤ frames.length) (hend : ∀ e, plan.finish frames 1 = some e → t ≤ e)
    (hoverflow : ∀ s ∈ (Action.advances host frames plan.action w).take t,
      s.outcome ≠ .error .overflow) :
    ∃ s, (Action.advances host frames plan.action w)[t - 1]? = some s ∧
      s.outcome = .ok (if plan.finish frames 1 = some t then .done else .running) ∧
      s.world = emitAll emit
        ((List.range' 1 t).flatMap fun t => emittedOn t (plan.engagements frames 1)) w := by
  obtain ⟨i, rfl⟩ : ∃ i, t = i + 1 := ⟨t - 1, by omega⟩
  have hbefore (j : Nat) (hj : j < i) : (plan.course frames 1).ended (0 + 1 + j) = false := by
    refine Bool.eq_false_iff.mpr fun hended => ?_
    obtain ⟨e, he, hle⟩ := endedBy_iff.mp hended
    have := hend e he
    omega
  obtain ⟨s, hs, houtcome, hworld⟩ :=
    (plan.onTime frames (Nat.add_comm frames.length 1 ▸ rfl)).advances rfl hlen w hbefore hoverflow
  refine ⟨s, hs, ?_, hworld⟩
  have hended : (plan.course frames 1).ended (0 + 1 + i) = true ↔
      plan.finish frames 1 = some (i + 1) := by
    rw [Nat.zero_add, Nat.add_comm 1 i]
    constructor
    · intro h
      obtain ⟨e, he, hle⟩ := endedBy_iff.mp h
      rw [he, Nat.le_antisymm hle (hend e he)]
    · intro h
      exact endedBy_iff.mpr ⟨_, h, Nat.le_refl _⟩
  simp only [houtcome, hended]

/-! ## Exercises as plans -/

namespace Rehearsal

section Drill

variable {B β : Type} (presenter : Presenter B β)

/-- A text is remarked. -/
def remarkOn (text : String) (w : World Cast B) : World Cast B := w.remark [text]

/-- The remarks of a drill on one advance. -/
def drillRemarks (name : String) (ticks k : Nat) (_ : Frame) : List String :=
  (if k = 0 then ["start " ++ name] else []) ++ if ticks ≤ k + 1 then ["end " ++ name] else []

theorem emitAll_remarkOn (texts : List String) (w : World Cast B) :
    emitAll remarkOn texts w = w.remark texts := by
  induction texts generalizing w with
  | nil => rfl
  | cons text rest ih => exact ih _

/-- A drill is done with the last of its advances. -/
theorem lasts_drill (name : String) (n k : Nat) :
    (Host.ofParts puppets presenter).Lasts remarkOn (drillRemarks name (k + n)) k n
      (.inl (.drill name (k + n) k)) := by
  induction n generalizing k with
  | zero => trivial
  | succ n ih =>
    intro frame w
    have hlast : k + (n + 1) ≤ k + 1 ↔ n = 0 := by omega
    have hstep :
        (Host.ofParts puppets presenter).step (.inl (.drill name (k + (n + 1)) k)) frame w =
          ⟨.ok (if n = 0 then .done else .running), .inl (.drill name (k + (n + 1)) (k + 1)),
            w.remark (drillRemarks name (k + (n + 1)) k frame)⟩ := by
      by_cases hn : n = 0 <;>
        simp [Host.ofParts, Host.stepActor, puppets, Part.advance, drillRemarks, hlast, hn]
    rw [hstep, emitAll_remarkOn]
    have hagain := ih (k + 1)
    rw [Nat.add_right_comm, Nat.add_assoc] at hagain
    exact ⟨rfl, rfl, hagain⟩

/-- A drill as a part of a plan. -/
def drill (name : String) (ticks : Nat) (h : 0 < ticks) :
    Stint (Host.ofParts puppets presenter) remarkOn where
  work := .inl (.drill name ticks 0)
  advances := ticks
  events := drillRemarks name ticks
  advances_pos := h
  lasts := by
    simpa using lasts_drill presenter name ticks 0

end Drill

/-- A drill for two advances, meanwhile an effect after some time. -/
def walkInTheDark : Plan (Host.ofParts puppets answering) remarkOn :=
  .parallel [.stint (drill answering "walk" 2 (by decide)),
    .sequence [.wait (.ofMillis 2), .effect ["light"]]]

/-- The effect starts on the tick that ends the wait, after the last remark of the drill. -/
theorem advances_walkInTheDark_on_time :
    let frames : List Frame := List.replicate 3 ⟨.ofMillis 1, {}⟩
    ∃ s, (Action.advances (Host.ofParts puppets answering) frames walkInTheDark.action
        ⟨.empty, ⟨[], 0⟩, .empty, .empty, #[]⟩)[2]? = some s ∧
      s.outcome = .ok .done ∧
      s.world.journal.toList = ["start walk", "end walk", "light"].map .remark := by
  intro frames
  have hfinish : walkInTheDark.finish frames 1 = some 3 := by decide
  have houtcomes : (Action.advances (Host.ofParts puppets answering) frames walkInTheDark.action
      ⟨.empty, ⟨[], 0⟩, .empty, .empty, #[]⟩).map Step.outcome =
        [.ok .running, .ok .running, .ok .done] := rfl
  have hend (e : Nat) (he : walkInTheDark.finish frames 1 = some e) : 3 ≤ e := by
    rw [hfinish] at he
    exact Nat.le_of_eq (Option.some.inj he)
  obtain ⟨s, hs, houtcome, hworld⟩ := advances_plan_on_time walkInTheDark frames
    ⟨.empty, ⟨[], 0⟩, .empty, .empty, #[]⟩ 3 (by decide) (by decide) hend fun s hs h => by
      have hmem := List.mem_map_of_mem (f := Step.outcome) (List.mem_of_mem_take hs)
      rw [houtcomes, h] at hmem
      simp at hmem
  refine ⟨s, hs, ?_, ?_⟩
  · rw [houtcome, if_pos hfinish]
  · rw [hworld, emitAll_remarkOn, World.remark, World.journal_recordAll]
    decide

end Rehearsal

end Promptbook
