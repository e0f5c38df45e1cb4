import Mathlib.Data.List.Nodup
import Promptbook.Proofs.Action.Joining
import Promptbook.Proofs.Performance.Rundown
import Promptbook.Proofs.Performance.Soundness
import Promptbook.Proofs.Script.Cues

set_option autoImplicit false

/-!
# Animations at the same time

The cues of an animation line are played together.  `Host.logged` is the host that does what another
does and writes down, in one list, which animations it was asked for and how each of them went on;
works are numbered in the order in which they were taken over.

A frame of parts that are played together is one deed after the other (`Host.deeds_stepParts`): each
part is asked for if that was not done, then advanced, and the works that are left are those that are
running.  So as long as nothing fails, the works that are left are always those that are not over, and
the line is done when all are.
-/

namespace Promptbook

open Script (Statement Cue)

variable {W κ : Type}

/-! ## Deeds -/

/-- What is done about animations. -/
inductive Deed where
  /-- An actor was asked for an animation. -/
  | asked (actor : ActorId) (animation : String)
  /-- The work of that number was advanced. -/
  | advanced (number : Nat) (frame : Frame) (outcome : Outcome)
  deriving DecidableEq

/-- A world, how many works were taken over in it, and what was done. -/
structure Logged (W : Type) where
  world : W
  taken : Nat
  deeds : List Deed

namespace Logged

/-- The same log in another world. -/
def moved (w : Logged W) (world : W) : Logged W := { w with world := world }

/-- Another work is taken over. -/
def takes (w : Logged W) (deeds : List Deed) (r : κ × W) : (Nat × κ) × Logged W :=
  ((w.taken, r.1), ⟨r.2, w.taken + 1, w.deeds ++ deeds⟩)

end Logged

/-- The host that does the same and writes down what is done about animations. -/
def Host.logged (host : Host W κ) : Host (Logged W) (Nat × κ) where
  step work frame w :=
    let s := host.step work.2 frame w.world
    ⟨s.outcome, (work.1, s.next),
      ⟨s.world, w.taken, w.deeds ++ [.advanced work.1 frame s.outcome]⟩⟩
  hasParameter w := host.hasParameter w.world
  position w := host.position w.world
  setParameter actor name value w := w.moved (host.setParameter actor name value w.world)
  play actor animation w := w.takes [.asked actor animation] (host.play actor animation w.world)
  showLine text position w := w.takes [] (host.showLine text position w.world)
  showChoices labels position slot w := w.takes [] (host.showChoices labels position slot w.world)
  openSlot w :=
    let (slot, world) := host.openSlot w.world
    (slot, w.moved world)
  selected w := host.selected w.world
  setVariable id value w := w.moved (host.setVariable id value w.world)
  record note w := w.moved (host.record note w.world)

/-- The work of that number was done. -/
def Deed.ends (number : Nat) : Deed → Bool
  | advanced n _ (.ok .done) => n = number
  | _ => false

/-- Whether the work of that number is over. -/
def isOver (deeds : List Deed) (number : Nat) : Bool := deeds.any (Deed.ends number)

/-- No work failed. -/
def Unfailed (deeds : List Deed) : Prop :=
  ∀ number frame fault, .advanced number frame (.error fault) ∉ deeds

/-! ## Nothing is changed by it -/

section Erasing

variable (host : Host W κ)

/-- A part without the number of its work. -/
def unnumbered : (Nat × κ) ⊕ Cue → κ ⊕ Cue
  | .inl work => .inl work.2
  | .inr cue => .inr cue

/-- Parts are played on a host as they are on the one with a log. -/
def loggedLikeness : Likeness ((Nat × κ) ⊕ Cue) (Logged W) W (Nat × κ) κ :=
  ⟨fun part => [.ofPart host.logged part], fun part => [.ofPart host (unnumbered part)],
    Logged.world⟩

theorem stepPart_logged (frame : Frame) (part : (Nat × κ) ⊕ Cue) (w : Logged W) :
    let s := host.logged.stepPart frame part w
    host.stepPart frame (unnumbered part) w.world = ⟨s.outcome, s.next.2, s.world.world⟩ := by
  cases part with
  | inl work => rfl
  | inr cue => rfl

theorem alike_logged (frame : Frame) (part : (Nat × κ) ⊕ Cue) (w : Logged W) :
    (loggedLikeness host).Alike
      (Joint.parallel.step host.logged frame ((loggedLikeness host).left part) w)
      (Joint.parallel.step host frame ((loggedLikeness host).right part) w.world) := by
  rw [loggedLikeness, Joint.step_singleton, Joint.step_singleton, Action.advance_ofPart,
    Action.advance_ofPart, stepPart_logged]
  by_cases h : (host.logged.stepPart frame part w).outcome = .ok .done
  · rw [Step.solo_of_done (by exact h), Step.solo_of_done (by exact h)]
    exact ⟨[], rfl, rfl⟩
  · rw [Step.solo_of_ne (by exact h), Step.solo_of_ne (by exact h)]
    exact ⟨[.inl (host.logged.stepPart frame part w).next], rfl, rfl⟩

/-- The log does not change how an animation line is played. -/
theorem observations_logged (settings : Settings) (frames : List Frame) (cues : List Cue)
    (w : Logged W) :
    (Action.observations host.logged frames
        (.ofStatement host.logged settings (.animation cues)) w).map (fun o => (o.1, o.2.world)) =
      Action.observations host frames (.ofStatement host settings (.animation cues)) w.world := by
  have hsame := Likeness.observations_alike (alike_logged host) frames (cues.map .inr) w
  simpa [loggedLikeness, List.flatMap_map, ← List.map_eq_flatMap, Action.ofStatement, Joint.join,
    Action.ofPart, unnumbered] using hsame

end Erasing

/-! ## A frame of parts -/

section Frames

variable (host : Host W κ) (frame : Frame)

/-- The numbers of works, if those that are not taken over yet are numbered from `n`. -/
def numbersFrom (n : Nat) : List ((Nat × κ) ⊕ Cue) → List Nat
  | [] => []
  | .inl work :: rest => work.1 :: numbersFrom n rest
  | .inr _ :: rest => n :: numbersFrom (n + 1) rest

/-- What is done about a part before it is advanced. -/
def opening : (Nat × κ) ⊕ Cue → List Deed
  | .inl _ => []
  | .inr cue => [.asked cue.performer.actor cue.animation]

/-- What is done about parts in a frame, with what each of them came to. -/
def deedsOf (frame : Frame) (parts : List ((Nat × κ) ⊕ Cue)) (results : List (Nat × Progress)) :
    List Deed :=
  (parts.zip results).flatMap fun x => opening x.1 ++ [.advanced x.2.1 frame (.ok x.2.2)]

/-- What is done about one part. -/
theorem deeds_stepPart (part : (Nat × κ) ⊕ Cue) (w : Logged W) :
    let s := host.logged.stepPart frame part w
    s.world.deeds = w.deeds ++ opening part ++ [.advanced s.next.1 frame s.outcome] ∧
      ∀ rest, numbersFrom w.taken (part :: rest) = s.next.1 :: numbersFrom s.world.taken rest := by
  cases part with
  | inl work =>
    refine ⟨?_, fun rest => rfl⟩
    simp [Host.stepPart, Host.logged, opening]
  | inr cue =>
    refine ⟨?_, fun rest => rfl⟩
    simp [Host.stepPart, Host.logged, opening, Logged.takes, Logged.moved]

theorem deedsOf_cons (part : (Nat × κ) ⊕ Cue) (rest : List ((Nat × κ) ⊕ Cue))
    (result : Nat × Progress) (results : List (Nat × Progress)) :
    deedsOf frame (part :: rest) (result :: results) =
      opening part ++ [.advanced result.1 frame (.ok result.2)] ++ deedsOf frame rest results := by
  rw [deedsOf, List.zip_cons_cons, List.flatMap_cons]
  rfl

/-- A frame of parts of which none fails: each is asked for, if it was not, and advanced, in their
order; together they are done if each of them is, and the works that are running are left. -/
theorem deeds_stepParts (parts : List ((Nat × κ) ⊕ Cue)) (w : Logged W) :
    let s := host.logged.stepParts frame parts w
    Unfailed s.world.deeds → ∃ results : List (Nat × Progress),
      results.map (·.1) = numbersFrom w.taken parts ∧
      s.world.deeds = w.deeds ++ deedsOf frame parts results ∧
      s.outcome = .ok (if results.all fun r => r.2 = .done then .done else .running) ∧
      ∃ works : List (Nat × κ), s.next = works.map .inl ∧
        works.map (·.1) = (results.filter fun r => r.2 = .running).map (·.1) := by
  dsimp only
  induction parts generalizing w with
  | nil => exact fun _ => ⟨[], rfl, by simp [Host.stepParts, deedsOf], rfl, [], rfl, rfl⟩
  | cons part rest ih =>
    obtain ⟨hdeeds, hnumbers⟩ := deeds_stepPart host frame part w
    intro hunfailed
    rw [hnumbers]
    rw [Host.stepParts] at hunfailed ⊢
    dsimp only at hunfailed ⊢
    generalize host.logged.stepPart frame part w = s at hdeeds hunfailed ⊢
    cases ho : s.outcome with
    | error fault =>
      rw [ho] at hunfailed hdeeds
      exact absurd (by simp [hdeeds]) (hunfailed s.next.1 frame fault)
    | ok progress =>
      rw [ho] at hunfailed hdeeds
      cases progress with
      | done =>
        obtain ⟨results, hrest, hlater, houtcome, works, hnext, hworks⟩ := ih s.world hunfailed
        refine ⟨(s.next.1, .done) :: results, ?_, ?_, ?_, works, hnext, ?_⟩
        · rw [List.map_cons, hrest]
        · rw [hlater, hdeeds, deedsOf_cons frame]
          simp
        · rw [List.all_cons, decide_eq_true rfl, Bool.true_and]
          exact houtcome
        · simpa using hworks
      | running =>
        obtain ⟨results, hrest, hlater, houtcome, works, hnext, hworks⟩ := ih s.world hunfailed
        refine ⟨(s.next.1, .running) :: results, ?_, ?_, ?_, s.next :: works, ?_, ?_⟩
        · rw [List.map_cons, hrest]
        · dsimp only
          rw [hlater, hdeeds, deedsOf_cons frame]
          simp
        · dsimp only
          rw [houtcome]
          rfl
        · dsimp only
          rw [hnext, List.map_cons]
        · simpa using hworks

/-! ## What is over -/

theorem isOver_append (deeds more : List Deed) (number : Nat) :
    isOver (deeds ++ more) number = (isOver deeds number || isOver more number) :=
  List.any_append

/-- After a frame those works are over, besides those that were before, that were done in it. -/
theorem isOver_deedsOf {parts : List ((Nat × κ) ⊕ Cue)} {results : List (Nat × Progress)}
    (hlen : results.length = parts.length) (number : Nat) :
    isOver (deedsOf frame parts results) number = true ↔ (number, .done) ∈ results := by
  induction parts generalizing results with
  | nil =>
    obtain rfl := List.length_eq_zero_iff.mp hlen
    simp [deedsOf, isOver]
  | cons part rest ih =>
    cases results with
    | nil => simp at hlen
    | cons r results =>
      have hopening : isOver (opening part) number = false := by cases part <;> rfl
      have hrest := ih (show results.length = rest.length by simpa using hlen)
      obtain ⟨n, progress⟩ := r
      rw [deedsOf_cons, isOver_append, isOver_append, hopening, Bool.false_or, Bool.or_eq_true, hrest,
        List.mem_cons]
      cases progress <;> simp [isOver, Deed.ends, eq_comm]

theorem length_numbersFrom (n : Nat) (parts : List ((Nat × κ) ⊕ Cue)) :
    (numbersFrom n parts).length = parts.length := by
  induction parts generalizing n with
  | nil => rfl
  | cons part rest ih => cases part <;> simp [numbersFrom, ih]

/-- The works of `k` that are not over. -/
def ahead (k : Nat) (deeds : List Deed) : List Nat :=
  (List.range k).filter fun i => !isOver deeds i

/-- Of the works that were ahead, those are ahead after a frame that are running. -/
theorem ahead_append_deedsOf {k : Nat} {before : List Deed} {parts : List ((Nat × κ) ⊕ Cue)}
    {results : List (Nat × Progress)} (hlen : results.length = parts.length)
    (hresults : results.map (·.1) = ahead k before) :
    ahead k (before ++ deedsOf frame parts results) =
      (results.filter fun r => r.2 = .running).map (·.1) := by
  have hnodup : (results.map (·.1)).Nodup := hresults ▸ List.nodup_range.filter _
  have hsplit : ahead k (before ++ deedsOf frame parts results) =
      (ahead k before).filter fun i => !isOver (deedsOf frame parts results) i := by
    rw [ahead, ahead, List.filter_filter]
    refine List.filter_congr fun i _ => ?_
    rw [isOver_append, Bool.not_or, Bool.and_comm]
  rw [hsplit, ← hresults, List.filter_map]
  congr 1
  refine List.filter_congr fun r hr => ?_
  have hover : isOver (deedsOf frame parts results) r.1 = true ↔ r.2 = .done := by
    rw [isOver_deedsOf frame hlen]
    constructor
    · intro hmem
      exact congrArg Prod.snd (List.inj_on_of_nodup_map hnodup hr hmem rfl)
    · intro hdone
      rwa [← hdone]
  obtain ⟨n, progress⟩ := r
  cases progress <;> simp_all

/-- All works are over when none is ahead. -/
theorem all_isOver_iff {k : Nat} {deeds : List Deed} :
    (List.range k).all (isOver deeds) = true ↔ ahead k deeds = [] := by
  simp [ahead, List.filter_eq_nil_iff]

/-- A frame in which nothing fails of the parts that stand for the works ahead. -/
theorem tick_stepParts {k : Nat} {parts : List ((Nat × κ) ⊕ Cue)} {w : Logged W}
    (hparts : numbersFrom w.taken parts = ahead k w.deeds) :
    let s := host.logged.stepParts frame parts w
    Unfailed s.world.deeds → ∃ results : List (Nat × Progress),
      results.map (·.1) = ahead k w.deeds ∧
      s.world.deeds = w.deeds ++ deedsOf frame parts results ∧
      s.outcome = .ok (if (List.range k).all (isOver s.world.deeds) then .done else .running) ∧
      ∃ works : List (Nat × κ), s.next = works.map .inl ∧
        works.map (·.1) = ahead k s.world.deeds := by
  intro s hunfailed
  obtain ⟨results, hresults, hdeeds, houtcome, works, hnext, hworks⟩ :=
    deeds_stepParts host frame parts w hunfailed
  have hlen : results.length = parts.length := by
    rw [← length_numbersFrom w.taken parts, ← hresults, List.length_map]
  rw [hparts] at hresults
  have hahead : ahead k s.world.deeds = (results.filter fun r => r.2 = .running).map (·.1) := by
    rw [hdeeds]
    exact ahead_append_deedsOf frame hlen hresults
  have hall : (results.all fun r => r.2 = .done) = (List.range k).all (isOver s.world.deeds) := by
    rw [Bool.eq_iff_iff, all_isOver_iff, hahead, List.map_eq_nil_iff, List.filter_eq_nil_iff,
      List.all_eq_true]
    refine forall₂_congr fun r _ => ?_
    cases r.2 <;> simp
  exact ⟨results, hresults, hdeeds, hall ▸ houtcome, works, hnext, hahead ▸ hworks⟩

end Frames

/-! ## Frame after frame -/

section Runs

variable (host : Host W κ)

theorem numbersFrom_map_inl (n : Nat) (works : List (Nat × κ)) :
    numbersFrom n (works.map .inl) = works.map (·.1) := by
  induction works with
  | nil => rfl
  | cons work rest ih => rw [List.map_cons, numbersFrom, ih, List.map_cons]

theorem numbersFrom_map_inr (n : Nat) (cues : List Cue) :
    numbersFrom n (cues.map .inr : List ((Nat × κ) ⊕ Cue)) = List.range' n cues.length := by
  induction cues generalizing n with
  | nil => rfl
  | cons cue rest ih => rw [List.map_cons, numbersFrom, ih, List.length_cons, List.range'_succ]

/-- Works in progress are only advanced. -/
theorem deedsOf_map_inl {frame : Frame} {works : List (Nat × κ)} {results : List (Nat × Progress)}
    (hlen : results.length = works.length) :
    deedsOf frame (works.map .inl) results = results.map fun r => .advanced r.1 frame (.ok r.2) := by
  induction works generalizing results with
  | nil =>
    obtain rfl := List.length_eq_zero_iff.mp hlen
    rfl
  | cons work rest ih =>
    cases results with
    | nil => simp at hlen
    | cons r results =>
      rw [List.map_cons, deedsOf_cons, ih (by simpa using hlen)]
      rfl

/-- In their first frame cues are asked for one after the other, and each work is advanced at once. -/
theorem deedsOf_map_inr (frame : Frame) (cues : List Cue) (results : List (Nat × Progress)) :
    deedsOf frame (cues.map .inr : List ((Nat × κ) ⊕ Cue)) results =
      (cues.zip results).flatMap fun x =>
        [.asked x.1.performer.actor x.1.animation, .advanced x.2.1 frame (.ok x.2.2)] := by
  rw [deedsOf, List.zip_map_left, List.flatMap_map]
  rfl

/-- What was done stays on the log. -/
theorem deeds_begin_advances {frames : List Frame} {parts : List ((Nat × κ) ⊕ Cue)} {w : Logged W} :
    ∀ s ∈ Action.advances host.logged frames (.parallel (parts.map (.ofPart host.logged))) w,
      w.deeds <+: s.world.deeds := by
  induction frames generalizing parts w with
  | nil => simp [Action.advances]
  | cons frame frames ih =>
    have hframe : w.deeds <+: (host.logged.stepParts frame parts w).world.deeds := by
      refine (Host.stepParts_keeps (P := fun _ => True) (I := fun v : Logged W => w.deeds <+: v.deeds)
        (fun cue _ v hv => ⟨_, _, rfl, trivial, hv.trans (List.prefix_append _ _)⟩)
        (fun work v _ hv => ⟨trivial, hv.trans (List.prefix_append _ _)⟩)
        (fun _ _ => trivial) List.prefix_rfl).2
    rw [Action.advances, Action.advance, Action.advanceParallel_ofPart]
    exact List.forall_mem_cons.mpr ⟨hframe, fun s hs => hframe.trans (ih s hs)⟩

theorem Unfailed.of_begin {deeds more : List Deed} (h : Unfailed more) (hbegin : deeds <+: more) :
    Unfailed deeds := fun number frame fault hmem => h number frame fault (hbegin.subset hmem)

/-- A frame, the first or a later one, of parts that stand for the works ahead: as long as nothing
fails, the works that are ahead before it are advanced in it. -/
theorem exists_results {k : Nat} {frames : List Frame} {parts : List ((Nat × κ) ⊕ Cue)}
    {w : Logged W} (hparts : numbersFrom w.taken parts = ahead k w.deeds) {t : Nat} {frame : Frame}
    (hframe : frames[t]? = some frame) {s : Step (Action (Logged W) (Nat × κ)) (Logged W)} :
    let steps := Action.advances host.logged frames (.parallel (parts.map (.ofPart host.logged))) w
    steps[t]? = some s → Unfailed s.world.deeds →
      ∃ before results, (w.deeds :: steps.map (·.world.deeds))[t]? = some before ∧
        results.map (·.1) = ahead k before ∧
        s.world.deeds = before ++ (if t = 0 then deedsOf frame parts results
          else results.map fun r => .advanced r.1 frame (.ok r.2)) ∧
        s.outcome = .ok (if (List.range k).all (isOver s.world.deeds) then .done else .running) := by
  -- what carries the induction is `hparts`: after a frame the works that are left are those ahead
  induction frames generalizing parts w t with
  | nil => simp at hframe
  | cons f frames ih =>
    have htick := tick_stepParts host f hparts
    rw [Action.advances, Action.advance, Action.advanceParallel_ofPart]
    dsimp only at htick ⊢
    intro hs hunfailed
    cases t with
    | zero =>
      obtain rfl : f = frame := by simpa using hframe
      obtain rfl := Option.some.inj hs
      obtain ⟨results, hresults, hdeeds, houtcome, -⟩ := htick hunfailed
      exact ⟨w.deeds, results, rfl, hresults, hdeeds, houtcome⟩
    | succ t =>
      rw [List.getElem?_cons_succ] at hframe hs
      have hfirst : Unfailed (host.logged.stepParts f parts w).world.deeds :=
        hunfailed.of_begin (deeds_begin_advances host s (List.mem_of_getElem? hs))
      obtain ⟨-, -, -, -, works, hnext, hworks⟩ := htick hfirst
      have hnumbers : numbersFrom (host.logged.stepParts f parts w).world.taken (works.map .inl) =
          ahead k (host.logged.stepParts f parts w).world.deeds := by
        rw [numbersFrom_map_inl, hworks]
      rw [Step.next_mapNext, Step.next_mapNext, hnext] at hs ⊢
      obtain ⟨before, results, hbefore, hresults, hdeeds, houtcome⟩ := ih hnumbers hframe hs hunfailed
      refine ⟨before, results, hbefore, hresults, ?_, houtcome⟩
      rw [hdeeds, if_neg (Nat.succ_ne_zero t)]
      split
      · next ht =>
        subst ht
        obtain rfl : _ = before := Option.some.inj hbefore
        rw [deedsOf_map_inl]
        rw [← List.length_map (·.1), hresults, ← hworks, List.length_map]
      · rfl

end Runs

/-! ## Animation lines -/

/-- A frame of cues that are played together, and how it goes down on the log.  In the first frame each
cue is asked for, in their order, and its work is advanced at once; in a later one those works are
advanced that are not over, each of them once and in their order.  The cues are done exactly if all
works are over now. -/
def PlaysTogether (cues : List Cue) (t : Nat) (frame : Frame) (before after : List Deed)
    (outcome : Outcome) : Prop :=
  ∃ results : List (Nat × Progress),
    results.map (·.1) = ahead cues.length before ∧
    after = before ++ (if t = 0 then
        (cues.zip results).flatMap fun x =>
          [.asked x.1.performer.actor x.1.animation, .advanced x.2.1 frame (.ok x.2.2)]
      else results.map fun r => .advanced r.1 frame (.ok r.2)) ∧
    outcome = .ok (if (List.range cues.length).all (isOver after) then .done else .running)

/-- As long as none of its animations fails, an animation statement plays its cues together. -/
theorem playsTogether_of_advances (host : Host W κ) (settings : Settings) {frames : List Frame}
    (cues : List Cue) (w : W) {t : Nat} {frame : Frame} (hframe : frames[t]? = some frame) :
    let steps := Action.advances host.logged frames
      (.ofStatement host.logged settings (.animation cues)) ⟨w, 0, []⟩
    ∃ s before, steps[t]? = some s ∧ ([] :: steps.map (·.world.deeds))[t]? = some before ∧
      (Unfailed s.world.deeds → PlaysTogether cues t frame before s.world.deeds s.outcome) := by
  have haction : Action.ofStatement host.logged settings (.animation cues) =
      .parallel ((cues.map .inr).map (.ofPart host.logged)) := by
    rw [List.map_map]
    rfl
  have hparts : numbersFrom 0 (cues.map .inr : List ((Nat × κ) ⊕ Cue)) = ahead cues.length [] := by
    rw [numbersFrom_map_inr, ← List.range_eq_range']
    exact (List.filter_eq_self.mpr fun _ _ => rfl).symm
  intro steps
  have hlen : t < steps.length := by
    rw [Action.length_advances]
    exact (List.getElem?_eq_some_iff.mp hframe).1
  have hlater : t < ([] :: steps.map (·.world.deeds)).length := by
    simp only [List.length_cons, List.length_map]
    omega
  have hs : steps[t]? = some steps[t] := List.getElem?_eq_getElem hlen
  refine ⟨steps[t], _, hs, List.getElem?_eq_getElem hlater, fun hunfailed => ?_⟩
  have hspec := exists_results host (w := ⟨w, 0, []⟩) hparts hframe (s := steps[t])
  rw [← haction] at hspec
  obtain ⟨before, results, hbefore, hresults, hdeeds, houtcome⟩ := hspec hs hunfailed
  obtain rfl := Option.some.inj ((List.getElem?_eq_getElem hlater).symm.trans hbefore)
  refine ⟨results, hresults, ?_, houtcome⟩
  rw [hdeeds, deedsOf_map_inr]

/-- An animation line is read and played as a whole or not at all.

The text behind its marker is cut at every comma with a blank behind it.  One error is told for each
piece with something wrong, in their order; the line is read, as one cue for each piece, if there is
none.  Played, its cues are asked for in the first frame, in their order, every work is advanced once
a frame until it is over, and the statement is done in the frame in which the last of them ends. -/
theorem animation_line_all_or_nothing (stage : Stage) {l : Script.ScriptLine} {rest : List Char}
    (htext : l.text.toList = '!' :: rest) :
    let pieces := Text.pieces [',', ' '] rest
    let read := Script.readLine stage l
    pieces ≠ [] ∧ rest = Text.joined [',', ' '] pieces ∧
    (∀ piece ∈ pieces, ¬ [',', ' '] <:+: piece) ∧
    ∃ verdicts, List.Forall₂ (Script.Verdict stage) pieces verdicts ∧
      read.errors = (verdicts.filterMap Script.fault?).map l.error ∧
      (∀ s, read.result = .ok s ↔ ∃ cues, s = .animation cues ∧ verdicts = cues.map .ok) ∧
      ∀ cues, read.result = .ok (.animation cues) →
        ∀ (W κ : Type) (host : Host W κ) (settings : Settings) (frames : List Frame) (w : W),
          let steps := Action.advances host.logged frames
            (.ofStatement host.logged settings (.animation cues)) ⟨w, 0, []⟩
          steps.map (fun s => (s.outcome, s.world.world)) =
            Action.observations host frames (.ofStatement host settings (.animation cues)) w ∧
          ∀ t frame, frames[t]? = some frame → ∃ s before, steps[t]? = some s ∧
            ([] :: steps.map (·.world.deeds))[t]? = some before ∧
            (Unfailed s.world.deeds →
              PlaysTogether cues t frame before s.world.deeds s.outcome) := by
  have hkind : l.kind = .animation := by
    rw [Script.ScriptLine.kind, Script.kindOf, htext]
    rfl
  have hpieces : Script.cuePieces l = Text.pieces [',', ' '] rest := by
    rw [Script.cuePieces, htext, Script.withoutMarker, if_pos rfl]
  obtain ⟨hne, hjoined, hfree⟩ := Script.cuePieces_spec hkind
  obtain ⟨verdicts, hverdicts, herrors, hresult⟩ := Script.readLine_animation_eq stage hkind
  rw [hpieces] at hne hjoined hfree hverdicts
  refine ⟨hne, ?_, hfree, verdicts, hverdicts, herrors, hresult, ?_⟩
  · exact (List.cons.inj (htext.symm.trans hjoined)).2
  · intro cues _ W κ host settings frames w
    refine ⟨?_, fun t frame hframe => playsTogether_of_advances host settings cues w hframe⟩
    have hsame := observations_logged host settings frames cues ⟨w, 0, []⟩
    simpa [Action.observations, Function.comp_def] using hsame

namespace Rehearsal

open Bubble (Transcript)

/-- One puppet, who waves for two frames and nods for one. -/
def annGreets : Cast :=
  Cast.empty.enter ⟨"Ann", default, [], [{ name := "wave", ticks := 2 }, { name := "nod" }]⟩

/-- A puppet waves and nods twice, all at the same time. -/
def greeting : List Cue := ["wave", "nod", "nod"].map (Cue.mk ⟨"Ann", ⟨0⟩⟩)

/-- The greeting is read, and done in its second frame, in which only the waving is advanced. -/
theorem animation_line_all_or_nothing_greeting :
    let l : Script.ScriptLine := ⟨"!Ann: wave, Ann: nod , Ann: nod", .ofIndex 0⟩
    let host := puppets.withTranscript ⟨.zero, .zero⟩
    let w : World Cast Transcript := ⟨annGreets, .empty, .empty, .empty, #[]⟩
    let steps := Action.advances host.logged [{}, {}]
      (.ofStatement host.logged .standard (.animation greeting)) ⟨w, 0, []⟩
    l.text.toList = '!' :: "Ann: wave, Ann: nod , Ann: nod".toList ∧
    (Script.readLine (annGreets.stage ⟨[]⟩) l).result = .ok (.animation greeting) ∧
    ∃ first second,
      steps.map (fun s => (s.outcome, s.world.deeds)) = [(.ok .running, first), (.ok .done, second)] ∧
      second = first ++ [.advanced 0 {} (.ok .done)] ∧ Unfailed second ∧
      PlaysTogether greeting 1 {} first second (.ok .done) := by
  intro l host w steps
  let first : List Deed := [.asked ⟨0⟩ "wave", .advanced 0 {} (.ok .running), .asked ⟨0⟩ "nod",
    .advanced 1 {} (.ok .done), .asked ⟨0⟩ "nod", .advanced 2 {} (.ok .done)]
  let second : List Deed := first ++ [.advanced 0 {} (.ok .done)]
  have htext : l.text.toList = '!' :: "Ann: wave, Ann: nod , Ann: nod".toList := by decide +kernel
  have hread : (Script.readLine (annGreets.stage ⟨[]⟩) l).result = .ok (.animation greeting) := by
    have hkind : l.kind = .animation := by decide +kernel
    have hcues : (Script.readCues (annGreets.stage ⟨[]⟩) l).result = .ok greeting := by
      decide +kernel
    rw [Script.readLine, hkind, Script.Reading.map, hcues]
  have hsteps : steps.map (fun s => (s.outcome, s.world.deeds)) =
      [(.ok .running, first), (.ok .done, second)] := by decide +kernel
  have hunfailed : Unfailed second := by simp [Unfailed, first, second]
  obtain ⟨-, -, -, verdicts, -, -, -, hplays⟩ :=
    animation_line_all_or_nothing (annGreets.stage ⟨[]⟩) htext
  obtain ⟨-, hframes⟩ := hplays greeting hread _ _ host .standard [{}, {}] w
  obtain ⟨s, before, hs, hbefore, htogether⟩ := hframes 1 {} rfl
  have hlast : (s.outcome, s.world.deeds) = (.ok .done, second) := by
    have hmap := congrArg (·[1]?) hsteps
    simpa [steps, hs] using hmap
  have hdeeds : steps.map (·.world.deeds) = [first, second] := by
    simpa [Function.comp_def] using congrArg (List.map Prod.snd) hsteps
  obtain rfl : first = before := by
    rw [hdeeds] at hbefore
    exact Option.some.inj hbefore
  obtain ⟨houtcome, hsecond⟩ := Prod.mk.inj hlast
  rw [houtcome, hsecond] at htogether
  exact ⟨htext, hread, first, second, hsteps, rfl, hunfailed, htogether hunfailed⟩

end Rehearsal

end Promptbook
