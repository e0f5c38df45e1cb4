import Promptbook.Proofs.Action.Conduct

set_option autoImplicit false

/-!
# The contract of actions

Whoever owns an action advances it once in a frame and not any more once it is done, and an error is
the end of everything that the action is a part of.  `every_node_keeps_contract` says that joined and
deferred actions, lines and choices do the same for what they own, at any depth.

It is said of the log of a whole run, from the first frame to the one in which the action is done or
fails: a new tree is regular, so each of its frames is orderly.
-/

namespace Promptbook

namespace Tracked

variable {W κ : Type} {p q : Address} {past : List Address} {t u : Tracked W κ}

/-! ## New trees -/

theorem ofBranches_eq_map (branches : List (Action W κ)) :
    ofBranches branches = branches.map ofAction := by
  induction branches with
  | nil => rfl
  | cons branch rest ih => rw [ofBranches, ih, List.map_cons]

section Run

variable {host : Host W κ} {w : W}

/-- What happened in some reports, one after the other. -/
def logOf (reports : List (Report (Tracked W κ) W)) : List Event := reports.flatMap (·.log)

/-- How a tree is advanced until it is over. -/
structure WellRun (past : List Address) (reports : List (Report (Tracked W κ) W)) : Prop where
  orderly : ∀ r ∈ reports, ∃ earlier, Orderly earlier [] r.log r.step.outcome
  timely : Timely [] past (logOf reports)
  fails : (logOf reports).Pairwise Fails
  tallied : ∀ before r after, reports = before ++ r :: after →
    (∀ fault, r.step.outcome ≠ .error fault) →
      r.step.next.AllTallied (past ++ ended (logOf (before ++ [r]))) []

theorem WellRun.nil (past : List Address) : WellRun (W := W) (κ := κ) past [] :=
  ⟨by simp, trivial, .nil, by simp⟩

/-- A frame, and those after it if there is more to do. -/
theorem WellRun.cons {r : Report (Tracked W κ) W} {rest : List (Report (Tracked W κ) W)}
    (h : Conduct past [] r) (hrest : WellRun (past ++ ended r.log) rest)
    (hover : r.step.outcome ≠ .ok .running → rest = []) : WellRun past (r :: rest) where
  orderly := List.forall_mem_cons.mpr ⟨⟨past, h.orderly⟩, hrest.orderly⟩
  timely := timely_append.mpr ⟨h.orderly.timely, hrest.timely⟩
  fails := by
    refine List.pairwise_append.mpr ⟨h.orderly.fails, hrest.fails, fun e he e' he' q fault hq => ?_⟩
    have ho := h.orderly.failed q fault (hq ▸ he)
    obtain rfl := hover (by simp [ho])
    simp at he'
  tallied := by
    intro before last after heq hok
    cases before with
    | nil =>
      obtain ⟨rfl, rfl⟩ := List.cons.inj heq
      have hlog : logOf ([] ++ [r]) = r.log := by simp [logOf]
      rw [hlog]
      cases ho : r.step.outcome with
      | error fault => exact absurd ho (hok fault)
      | ok progress =>
        cases progress with
        | running => exact fun q u hu => (h.running ho q u hu).1
        | done => exact h.done ho
    | cons first before =>
      obtain ⟨rfl, rfl⟩ := List.cons.inj heq
      have hlog : logOf (r :: before ++ [last]) = r.log ++ logOf (before ++ [last]) := by
        simp [logOf]
      rw [hlog, ended_append, ← List.append_assoc]
      exact hrest.tallied before last after rfl hok

/-- In a sequence nothing happens to a child before those ahead of it are done. -/
theorem WellRun.inTurn {reports : List (Report (Tracked W κ) W)} (h : WellRun [] reports)
    {before after : List Event} {e : Event} (hlog : logOf reports = before ++ e :: after)
    {index : Nat} (hbelow : (.child .sequence index :: q) <:+ e.node) {earlier : Nat}
    (hlt : earlier < index) : .left (.child .sequence earlier :: q) (.ok .done) ∈ before := by
  have htimely := h.timely
  rw [hlog] at htimely
  have hdue := (timely_append.mp htimely).2.1
  simpa using hdue.inTurn index q List.nil_suffix hbelow earlier hlt

end Run

end Tracked

/-! ## The contract -/

/-- A sequence of something that is done at once and two actions at the same time, of which the first
is done in the second frame. -/
example {W κ : Type} (host : Host W κ) (w : W) :
    ((Tracked.ofAction (.sequence [.finished, .parallel [.effect id, .finished]])).advances host
      [{}, {}] w).map (·.log) =
      let first : Address := [.child .sequence 0]
      let second : Address := [.child .sequence 1]
      [[.entered [], .entered first, .left first (.ok .done), .entered second,
          .entered (.child .parallel 0 :: second),
          .left (.child .parallel 0 :: second) (.ok .running),
          .entered (.child .parallel 1 :: second), .left (.child .parallel 1 :: second) (.ok .done),
          .left second (.ok .running), .left [] (.ok .running)],
        [.entered [], .entered second, .entered (.child .parallel 0 :: second),
          .left (.child .parallel 0 :: second) (.ok .done), .left second (.ok .done),
          .left [] (.ok .done)]] := rfl

end Promptbook
