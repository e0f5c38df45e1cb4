import Promptbook.Proofs.Action.Appearance

set_option autoImplicit false

/-!
# The course of a choice

A choice is played in three parts: its bubble is opened, the bubble is stepped until it is done, and
the branch that was selected is played.  Each part goes as it would by itself, in the same frames
and with others doing the same to the world: a choice whose bubble is open adds nothing to what the
bubble does (`exists_drop_amid_choosing`), and once a branch was chosen it adds nothing to what the
branch does (`amid_following`).

`Undone` says up to where a run counts: what is done is not advanced any more.
-/

namespace Promptbook

/-- What others do makes no appearance. -/
def Attended.aside {ι W : Type} (change : W → W) (m : Attended ι W) : Attended ι W :=
  m.moved (change m.world)

namespace Action

variable {W κ : Type} {host : Host W κ}

/-- None of the first `k` frames was done. -/
def Undone {σ : Type} (steps : List (W × Step σ W)) (k : Nat) : Prop :=
  ∀ j < k, ∀ t, steps[j]? = some t → t.2.outcome ≠ .ok .done

/-- The same run without what others did before its first frame. -/
def resumed : List ((W → W) × Frame) → List ((W → W) × Frame)
  | [] => []
  | (_, frame) :: run => (id, frame) :: run

theorem length_amid (run : List ((W → W) × Frame)) (a : Action W κ) (w : W) :
    (amid host run a w).length = run.length := by
  induction run generalizing a w with
  | nil => rfl
  | cons r run ih =>
    rw [amid, List.length_cons, List.length_cons]
    exact congrArg (· + 1) (ih _ _)

theorem world_settle (s : Step (Action W κ) W) : (settle s).world = s.world := by
  by_cases h : s.outcome = .ok .done
  · rw [settle_of_done h]
  · rw [settle_of_ne h]

section Undone

variable {σ : Type} {t : W × Step σ W} {steps : List (W × Step σ W)} {k : Nat}

theorem Undone.head (h : Undone (t :: steps) (k + 1)) : t.2.outcome ≠ .ok .done :=
  h 0 (Nat.zero_lt_succ k) t rfl

theorem Undone.tail (h : Undone (t :: steps) (k + 1)) : Undone steps k :=
  fun j hj s hs => h (j + 1) (Nat.succ_lt_succ hj) s hs

/-- Runs with the same outcomes count up to the same frame. -/
theorem Undone.congr {V τ : Type} {other : List (V × Step τ V)} (h : Undone steps k)
    (hlength : other.length = steps.length)
    (hsame : ∀ (j : Nat) t, steps[j]? = some t →
      ∃ s, other[j]? = some s ∧ s.2.outcome = t.2.outcome) :
    Undone other k := by
  intro j hj s hs
  obtain ⟨hlt, -⟩ := List.getElem?_eq_some_iff.mp hs
  have ht : steps[j]? = some (steps[j]) := List.getElem?_eq_getElem (hlength ▸ hlt)
  obtain ⟨s', hs', houtcome⟩ := hsame j _ ht
  obtain rfl := Option.some.inj (hs.symm.trans hs')
  rw [houtcome]
  exact h j hj _ ht

end Undone

/-! ## Runs that go on -/

section Resumed

variable {run : List ((W → W) × Frame)} {change : W → W} {frame : Frame} {w v : W} {k : Nat}

theorem drop_resumed (run : List ((W → W) × Frame)) (k : Nat) :
    resumed ((resumed run).drop k) = resumed (run.drop k) := by
  cases run with
  | nil => simp [resumed]
  | cons r run => cases k <;> rfl

theorem map_snd_resumed (run : List ((W → W) × Frame)) :
    (resumed run).map Prod.snd = run.map Prod.snd := by
  cases run <;> rfl

/-- An action that begins like another one goes on like it. -/
theorem exists_of_amid_resumed {a b : Action W κ} {t : W × Step (Action W κ) W}
    (h : advance host frame a (change w) = advance host frame b v)
    (ht : (amid host (resumed ((change, frame) :: run)) b v)[k]? = some t) :
    ∃ before, (amid host ((change, frame) :: run) a w)[k]? = some (before, t.2) := by
  rw [resumed, amid] at ht
  rw [amid, h]
  cases k with
  | zero =>
    obtain rfl := Option.some.inj ht
    exact ⟨change w, rfl⟩
  | succ k => exact ⟨t.1, ht⟩

end Resumed

/-! ## While the bubble is open -/

section Choosing

variable (q : Question) (slot : Slot) (branches : List (Action W κ)) {bubble : κ} {w : W}
  {run : List ((W → W) × Frame)} {k : Nat} {t : W × Step (Action W κ) W}

/-- While its bubble is not done a choice is where the bubble by itself would be, and no branch was
begun. -/
theorem exists_drop_amid_choosing (hundone : Undone (amid host run (.machine bubble) w) k)
    (ht : (amid host run (.machine bubble) w)[k]? = some t) :
    ∃ change frame now next before,
      run.drop k = (change, frame) :: run.drop (k + 1) ∧ change before = t.1 ∧
      host.step now frame t.1 = ⟨t.2.outcome, next, t.2.world⟩ ∧
      (amid host run (.choosing q slot bubble branches) w).drop k =
        amid host (run.drop k) (.choosing q slot now branches) before := by
  induction run generalizing bubble w k with
  | nil => simp [amid] at ht
  | cons r run ih =>
    obtain ⟨change, frame⟩ := r
    rw [amid, advance] at hundone ht
    cases k with
    | zero =>
      obtain rfl := Option.some.inj ht
      exact ⟨change, frame, bubble, _, w, rfl, rfl, rfl, rfl⟩
    | succ k =>
      obtain ⟨change', frame', now, next, before, hrun, hbefore, hnow, hdrop⟩ :=
        ih hundone.tail ht
      refine ⟨change', frame', now, next, before, hrun, hbefore, hnow, ?_⟩
      rw [amid, advance, stepChoice_of_ne rfl hundone.head]
      exact hdrop

end Choosing

/-! ## When the branch was chosen -/

/-- A branch that is followed goes as it would by itself until it is done. -/
theorem amid_following {run : List ((W → W) × Frame)} {branch : Action W κ} {w : W} {k : Nat}
    {t : W × Step (Action W κ) W} (hundone : Undone (amid host run branch w) k)
    (ht : (amid host run branch w)[k]? = some t) :
    (amid host run (.following branch) w)[k]? = some (t.1, settle t.2) := by
  induction run generalizing branch w k with
  | nil => simp [amid] at ht
  | cons r run ih =>
    obtain ⟨change, frame⟩ := r
    rw [amid] at hundone ht
    rw [amid, advance]
    cases k with
    | zero =>
      obtain rfl := Option.some.inj ht
      rfl
    | succ k =>
      rw [settle_of_ne hundone.head]
      exact ih hundone.tail ht

/-- An action that begins as a branch that is followed goes on like it until it is done. -/
theorem amid_of_settle {run : List ((W → W) × Frame)} {frame : Frame} {a branch : Action W κ}
    {w v : W} {k : Nat} {t : W × Step (Action W κ) W}
    (h : advance host frame a w = settle (advance host frame branch v))
    (hundone : Undone (amid host ((id, frame) :: run) branch v) k)
    (ht : (amid host ((id, frame) :: run) branch v)[k]? = some t) :
    ∃ before, (amid host ((id, frame) :: run) a w)[k]? = some (before, settle t.2) := by
  have hfollowing := amid_following hundone ht
  have hbegins : advance host frame a (id w) = advance host frame (.following branch) v := by
    rw [advance]
    exact h
  exact exists_of_amid_resumed hbegins hfollowing

/-! ## From the opening on -/

section Prompt

variable {q : Question} {slot : Slot} {bubble : κ} (branches : List (Action W κ)) {w opened : W}
  {run : List ((W → W) × Frame)} {change : W → W} {frame : Frame} {k : Nat}
  {t : W × Step (Action W κ) W}

/-- A choice on the tick on which its bubble, opened on the first one and then stepped by itself,
comes to `t`: from then on it goes like an open choice whose bubble comes to that on the first
tick. -/
theorem exists_amid_prompt (hopen : openChoices host q (change w) = (slot, bubble, opened))
    (hundone : Undone (amid host (resumed ((change, frame) :: run)) (.machine bubble) opened) k)
    (ht : (amid host (resumed ((change, frame) :: run)) (.machine bubble) opened)[k]? = some t) :
    ∃ frame' now next,
      resumed (((change, frame) :: run).drop k) = (id, frame') :: run.drop k ∧
      host.step now frame' t.1 = ⟨t.2.outcome, next, t.2.world⟩ ∧
      ∀ j u, (amid host ((id, frame') :: run.drop k) (.choosing q slot now branches) t.1)[j]? =
          some u →
        ∃ before, (amid host ((change, frame) :: run) (.prompt q branches) w)[k + j]? =
          some (before, u.2) := by
  obtain ⟨change', frame', now, next, before, hrun, hbefore, hnow, hdrop⟩ :=
    exists_drop_amid_choosing q slot branches hundone ht
  have hrest : resumed (((change, frame) :: run).drop k) = (id, frame') :: run.drop k := by
    rw [← drop_resumed, hrun]
    rfl
  refine ⟨frame', now, next, hrest, hnow, fun j u hu => ?_⟩
  have hbegins : advance host frame (.prompt q branches) (change w) =
      advance host frame (.choosing q slot bubble branches) opened := by
    rw [advance_prompt hopen, advance]
  have hnext : advance host frame' (.choosing q slot now branches) (change' before) =
      advance host frame' (.choosing q slot now branches) t.1 := by rw [hbefore]
  obtain ⟨before', hstep⟩ := exists_of_amid_resumed hnext hu
  have hopened : (amid host (resumed ((change, frame) :: run)) (.choosing q slot bubble branches)
      opened)[k + j]? = some (before', u.2) := by
    rw [← List.getElem?_drop, hdrop, hrun]
    exact hstep
  obtain ⟨before, hprompt⟩ := exists_of_amid_resumed hbegins hopened
  exact ⟨before, hprompt⟩

/-- While the bubble is not done, neither is the choice, and all branches are as they were. -/
theorem exists_prompt_waiting (hopen : openChoices host q (change w) = (slot, bubble, opened))
    (hundone : Undone (amid host (resumed ((change, frame) :: run)) (.machine bubble) opened) k)
    (ht : (amid host (resumed ((change, frame) :: run)) (.machine bubble) opened)[k]? = some t)
    (hne : t.2.outcome ≠ .ok .done) :
    ∃ before next, (amid host ((change, frame) :: run) (.prompt q branches) w)[k]? =
      some (before, ⟨t.2.outcome, .choosing q slot next branches, t.2.world⟩) := by
  obtain ⟨frame', now, next, -, hnow, hlater⟩ := exists_amid_prompt branches hopen hundone ht
  obtain ⟨before, hstep⟩ := hlater 0 _ rfl
  rw [advance, id, stepChoice_of_ne hnow hne] at hstep
  exact ⟨before, next, hstep⟩

/-- If nothing is selected when the bubble is done, the choice fails. -/
theorem exists_prompt_unselected (hopen : openChoices host q (change w) = (slot, bubble, opened))
    (hundone : Undone (amid host (resumed ((change, frame) :: run)) (.machine bubble) opened) k)
    (ht : (amid host (resumed ((change, frame) :: run)) (.machine bubble) opened)[k]? = some t)
    (hdone : t.2.outcome = .ok .done) (hselected : host.selected t.2.world slot = none) :
    ∃ before next, (amid host ((change, frame) :: run) (.prompt q branches) w)[k]? =
      some (before, ⟨.error (.failed .noSelection), next, t.2.world⟩) := by
  obtain ⟨frame', now, next, -, hnow, hlater⟩ := exists_amid_prompt branches hopen hundone ht
  obtain ⟨before, hstep⟩ := hlater 0 _ rfl
  rw [hdone] at hnow
  rw [advance, id, stepChoice_of_none hnow hselected] at hstep
  exact ⟨before, _, hstep⟩

/-- And so it does if there is no branch of that index. -/
theorem exists_prompt_invalid (hopen : openChoices host q (change w) = (slot, bubble, opened))
    (hundone : Undone (amid host (resumed ((change, frame) :: run)) (.machine bubble) opened) k)
    (ht : (amid host (resumed ((change, frame) :: run)) (.machine bubble) opened)[k]? = some t)
    (hdone : t.2.outcome = .ok .done) {index : Nat}
    (hselected : host.selected t.2.world slot = some index) (hindex : branches.length ≤ index) :
    ∃ before next, (amid host ((change, frame) :: run) (.prompt q branches) w)[k]? =
      some (before, ⟨.error (.failed (.invalidSelection index branches.length)), next,
        host.record (.chose q.asker (q.labels.getD index "")) t.2.world⟩) := by
  obtain ⟨frame', now, next, -, hnow, hlater⟩ := exists_amid_prompt branches hopen hundone ht
  obtain ⟨before, hstep⟩ := hlater 0 _ rfl
  rw [hdone] at hnow
  have hnone (v : W) : advanceNth host frame' branches index v = none := by
    rw [advanceNth_eq, List.getElem?_eq_none hindex, Option.map_none]
  rw [advance, id, stepChoice_of_invalid hnow hselected (hnone _)] at hstep
  exact ⟨before, _, hstep⟩

/-- If there is one, it begins in the same frame, and from then on the choice goes as the branch
would by itself until it is done. -/
theorem exists_prompt_branch (hopen : openChoices host q (change w) = (slot, bubble, opened))
    (hundone : Undone (amid host (resumed ((change, frame) :: run)) (.machine bubble) opened) k)
    (ht : (amid host (resumed ((change, frame) :: run)) (.machine bubble) opened)[k]? = some t)
    (hdone : t.2.outcome = .ok .done) {index : Nat} {branch : Action W κ}
    (hselected : host.selected t.2.world slot = some index)
    (hbranch : branches[index]? = some branch) :
    let steps := amid host (resumed (((change, frame) :: run).drop k)) branch
      (host.record (.chose q.asker (q.labels.getD index "")) t.2.world)
    ∀ j u, Undone steps j → steps[j]? = some u →
      ∃ before, (amid host ((change, frame) :: run) (.prompt q branches) w)[k + j]? =
        some (before, settle u.2) := by
  intro steps j u hundone' hu
  obtain ⟨frame', now, next, hrun, hnow, hlater⟩ := exists_amid_prompt branches hopen hundone ht
  rw [hdone] at hnow
  have hfollow (v : W) : advanceNth host frame' branches index v =
      some (advance host frame' branch v) := by
    rw [advanceNth_eq, hbranch, Option.map_some]
  have hbegins : advance host frame' (.choosing q slot now branches) t.1 =
      settle (advance host frame' branch
        (host.record (.chose q.asker (q.labels.getD index "")) t.2.world)) := by
    rw [advance, stepChoice_of_branch hnow hselected (hfollow _)]
  simp only [steps, hrun] at hundone' hu
  obtain ⟨before, hsettled⟩ := amid_of_settle hbegins hundone' hu
  exact hlater j _ hsettled

end Prompt

/-! ## Named branches -/

/-- The appearances of an action that is played under a name. -/
def appearancesOf {ι : Type} (name : ι) (frames : List Frame)
    (steps : List (W × Step (Action W κ) W)) : List (Appearance ι W) :=
  List.zipWith (fun frame t => ⟨name, frame, t.1, t.2.outcome, t.2.world⟩) frames steps

theorem appearancesOf_cons {ι : Type} (name : ι) (frame : Frame) (frames : List Frame)
    (t : W × Step (Action W κ) W) (steps : List (W × Step (Action W κ) W)) :
    appearancesOf name (frame :: frames) (t :: steps) =
      [⟨name, frame, t.1, t.2.outcome, t.2.world⟩] ++ appearancesOf name frames steps := rfl

/-- The same run for a host that is attended. -/
def unattended {ι : Type} (run : List ((W → W) × Frame)) :
    List ((Attended ι W → Attended ι W) × Frame) :=
  run.map fun r => (Attended.aside r.1, r.2)

theorem resumed_unattended {ι : Type} (run : List ((W → W) × Frame)) :
    resumed (unattended run) = unattended (ι := ι) (resumed run) := by
  cases run <;> rfl

/-- A named action goes as it would without its name, and appears in every frame. -/
theorem exists_amid_named {ι : Type} (name : ι) {run : List ((W → W) × Frame)} {a : Action W κ}
    {m : Attended ι W} {k : Nat} {t : W × Step (Action W κ) W}
    (ht : (amid host run a m.world)[k]? = some t) :
    ∃ before, (amid host.attended (unattended run) (.named name a) m)[k]? =
      some (before, ⟨t.2.outcome, .named name t.2.next, t.2.world,
        m.appearances ++
          appearancesOf name (run.map Prod.snd) ((amid host run a m.world).take (k + 1))⟩) := by
  induction run generalizing a m k with
  | nil => simp [amid] at ht
  | cons r run ih =>
    obtain ⟨change, frame⟩ := r
    have hsteps : amid host ((change, frame) :: run) a m.world =
        (change m.world, advance host frame a (change m.world)) ::
          amid host run (advance host frame a (change m.world)).next
            (advance host frame a (change m.world)).world := rfl
    rw [hsteps] at ht ⊢
    rw [unattended, List.map_cons, amid, advance_named, List.take_succ_cons, List.map_cons,
      appearancesOf_cons]
    cases k with
    | zero =>
      obtain rfl := Option.some.inj ht
      rw [List.take_zero, appearancesOf, List.zipWith_nil_right, List.append_nil]
      exact ⟨_, rfl⟩
    | succ k =>
      obtain ⟨before, hstep⟩ := ih (m := ⟨(advance host frame a (change m.world)).world,
        m.appearances ++ [⟨name, frame, change m.world,
          (advance host frame a (change m.world)).outcome,
          (advance host frame a (change m.world)).world⟩]⟩) ht
      rw [List.append_assoc] at hstep
      exact ⟨before, hstep⟩

/-- A named action counts up to the same frame. -/
theorem Undone.named {ι : Type} (name : ι) {run : List ((W → W) × Frame)} {a : Action W κ}
    {m : Attended ι W} {k : Nat} (h : Undone (amid host run a m.world) k) :
    Undone (amid host.attended (unattended run) (.named name a) m) k := by
  refine h.congr (by simp [length_amid, unattended]) fun j t ht => ?_
  obtain ⟨before, hstep⟩ := exists_amid_named name ht
  exact ⟨_, hstep, rfl⟩

end Action

end Promptbook
