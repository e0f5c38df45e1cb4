import Promptbook.Proofs.Action.Orderly

set_option autoImplicit false

/-!
# How nodes conduct themselves

In a regular tree nothing is over that may still be entered, and joined actions hold just the children
that are not over.  `Tracked.conduct_advance` shows, for one kind of node after the other, that a frame
of a regular tree is orderly and leaves a regular tree.
-/

namespace Promptbook

/-! ## Regular trees -/

namespace Tracked

variable {W κ : Type} {p q : Address} {s : Seat} {past more : List Address} {t u : Tracked W κ}

/-- The nodes of a tree with their addresses, those included that deferred actions may make. -/
inductive Has : Address → Tracked W κ → Address → Tracked W κ → Prop where
  | self (p : Address) (t : Tracked W κ) : Has p t p t
  | deferred {p q : Address} {prepare : W → W} {create : W → Tracked W κ} {w : W} {u : Tracked W κ}
      (h : Has (.made :: p) (create w) q u) : Has p (.deferred prepare create) q u
  | made {p q : Address} {inner u : Tracked W κ} (h : Has (.made :: p) inner q u) :
      Has p (.made inner) q u
  | child {p q : Address} {joint : Joint} {size : Nat} {children : List (Nat × Tracked W κ)}
      {c : Nat × Tracked W κ} {u : Tracked W κ} (hc : c ∈ children)
      (h : Has (.child joint c.1 :: p) c.2 q u) : Has p (.joined joint size children) q u
  | prompted {p q : Address} {question : Question} {branches : List (Tracked W κ)} {index : Nat}
      {branch u : Tracked W κ} (hbranch : branches[index]? = some branch)
      (h : Has (.branch index :: p) branch q u) : Has p (.prompt question branches) q u
  | chosen {p q : Address} {question : Question} {slot : Slot} {bubble : κ}
      {branches : List (Tracked W κ)} {index : Nat} {branch u : Tracked W κ}
      (hbranch : branches[index]? = some branch) (h : Has (.branch index :: p) branch q u) :
      Has p (.choosing question slot bubble branches) q u
  | followed {p q : Address} {index : Nat} {branch u : Tracked W κ}
      (h : Has (.branch index :: p) branch q u) : Has p (.following index branch) q u

theorem Has.suffix (h : Has p t q u) : p <:+ q := by
  induction h with
  | self p t => exact List.suffix_refl p
  | deferred _ ih | made _ ih | child _ _ ih | prompted _ _ ih | chosen _ _ ih | followed _ ih =>
    exact (List.suffix_cons _ _).trans ih

/-- Joined actions hold just the children that are not over. -/
def Tallied (past : List Address) (q : Address) : Tracked W κ → Prop
  | joined joint size children =>
    children.map Prod.fst = (List.range size).filter fun index => .child joint index :: q ∉ past
  | _ => True

/-- Neither the node nor the bubble that it has or will open is over. -/
def Unspent (past : List Address) (q : Address) : Tracked W κ → Prop
  | speak _ | speaking _ _ _ | prompt _ _ | choosing _ _ _ _ => q ∉ past ∧ .bubble :: q ∉ past
  | _ => q ∉ past

/-- That holds of every node. -/
def Everywhere (holds : Address → Tracked W κ → Prop) (p : Address) (t : Tracked W κ) : Prop :=
  ∀ q u, t.Has p q u → holds q u

/-- After those nodes are over: what may still be entered is not, and joined actions hold just the
children that are not. -/
def Regular (past : List Address) : Address → Tracked W κ → Prop :=
  Everywhere fun q u => u.Tallied past q ∧ u.Unspent past q

/-- All joined actions hold just the children that are not over. -/
def AllTallied (past : List Address) : Address → Tracked W κ → Prop :=
  Everywhere fun q u => u.Tallied past q

theorem Tallied.extend (h : u.Tallied past q) (hmore : ∀ s : Seat, s :: q ∉ more) :
    u.Tallied (past ++ more) q := by
  cases u with
  | joined joint size children =>
    rw [Tallied] at h ⊢
    rw [h]
    exact List.filter_congr fun index _ => by simp [hmore]
  | _ => trivial

theorem Unspent.extend (h : u.Unspent past q) (hq : q ∉ more) (hmore : ∀ s : Seat, s :: q ∉ more) :
    u.Unspent (past ++ more) q := by
  cases u <;> simp_all [Unspent]

/-- What happens elsewhere does no harm. -/
theorem Regular.extend (h : t.Regular past p) (hmore : ∀ q, p <:+ q → q ∉ more) :
    t.Regular (past ++ more) p := by
  intro q u hu
  obtain ⟨htallied, hunspent⟩ := h q u hu
  have hseat (s : Seat) : s :: q ∉ more := hmore _ (hu.suffix.trans (List.suffix_cons s q))
  exact ⟨htallied.extend hseat, hunspent.extend (hmore q hu.suffix) hseat⟩

theorem AllTallied.extend (h : t.AllTallied past p)
    (hmore : ∀ (s : Seat) (q : Address), p <:+ q → s :: q ∉ more) :
    t.AllTallied (past ++ more) p :=
  fun q u hu => (h q u hu).extend fun s => hmore s q hu.suffix

theorem Regular.not_over (h : t.Regular past p) : p ∉ past := by
  have hself := (h p t (.self p t)).2
  cases t <;> simp_all [Unspent]

/-! ## Conduct -/

theorem not_ended_of_below {log : List Event} (h : ∀ e ∈ log, (s :: p) <:+ e.node) :
    p ∉ ended log := by
  intro hin
  exact not_cons_suffix (List.suffix_refl p) (h _ (mem_ended.mp hin))

/-- What happens below one seat is not below another. -/
theorem not_ended_of_ne {s' : Seat} {log : List Event} (h : ∀ e ∈ log, (s :: p) <:+ e.node)
    (hne : s' ≠ s) (hq : (s' :: p) <:+ q) : q ∉ ended log :=
  fun hin => hne (seat_eq_of_suffix hq (h _ (mem_ended.mp hin)))

/-- How a frame goes inside a node. -/
structure Inside (past : List Address) (p : Address) (r : Report (Tracked W κ) W) : Prop where
  orderly : Orderly past p r.log r.step.outcome
  within : ∀ e ∈ r.log, e = .created p ∨ ∃ s : Seat, (s :: p) <:+ e.node
  running : r.step.outcome = .ok .running → r.step.next.Regular (past ++ ended r.log) p
  done : r.step.outcome = .ok .done → r.step.next.AllTallied (past ++ ended r.log) p

/-- How a frame of a node goes. -/
structure Conduct (past : List Address) (p : Address) (r : Report (Tracked W κ) W) : Prop where
  orderly : Orderly past p r.log r.step.outcome
  ends : p ∈ ended r.log ↔ r.step.outcome = .ok .done
  running : r.step.outcome = .ok .running → r.step.next.Regular (past ++ ended r.log) p
  done : r.step.outcome = .ok .done → r.step.next.AllTallied (past ++ ended r.log) p

theorem Inside.not_ended {r : Report (Tracked W κ) W} (h : Inside past p r) : p ∉ ended r.log := by
  intro hin
  rcases h.within _ (mem_ended.mp hin) with heq | ⟨s, hs⟩
  · simp at heq
  · exact not_cons_suffix (List.suffix_refl p) hs

theorem Inside.visit {r : Report (Tracked W κ) W} (h : Inside past p r) (hp : p ∉ past) :
    Conduct past p (r.visit p) := by
  have hended : ended (r.visit p).log =
      ended r.log ++ if r.step.outcome = .ok .done then [p] else [] := by
    simp [Report.visit, Event.ended_left]
  refine ⟨h.orderly.visit hp h.within, ?_, fun hrunning => ?_, fun hdone => ?_⟩
  · rw [hended, List.mem_append]
    constructor
    · rintro (hin | hin)
      · exact absurd hin h.not_ended
      · by_contra hne
        rw [Report.step_visit] at hne
        simp [hne] at hin
    · intro hdone
      rw [Report.step_visit] at hdone
      simp [hdone]
  · rw [Report.step_visit] at hrunning
    rw [hended, hrunning, if_neg (by simp), List.append_nil]
    exact h.running hrunning
  · rw [Report.step_visit] at hdone
    rw [hended, hdone, if_pos rfl, ← List.append_assoc]
    refine (h.done hdone).extend fun s q hq hin => ?_
    rw [← List.mem_singleton.mp hin] at hq
    exact not_cons_suffix hq (List.suffix_refl _)

/-! ## Single nodes -/

section Nodes

variable {host : Host W κ} {frame : Frame} {w : W}

theorem everywhere_whole {holds : Address → Tracked W κ → Prop} {a : Action W κ}
    (h : holds p (.whole a)) : (whole a).Everywhere holds p := by
  intro q u hu
  cases hu with
  | self => exact h

theorem Everywhere.made {holds : Address → Tracked W κ → Prop} (h : holds p (.made t))
    (ht : t.Everywhere holds (.made :: p)) : (Tracked.made t).Everywhere holds p := by
  intro q u hu
  cases hu with
  | self => exact h
  | made hu => exact ht q u hu

theorem Everywhere.following {holds : Address → Tracked W κ → Prop} {index : Nat}
    (h : holds p (.following index t)) (ht : t.Everywhere holds (.branch index :: p)) :
    (Tracked.following index t).Everywhere holds p := by
  intro q u hu
  cases hu with
  | self => exact h
  | followed hu => exact ht q u hu

/-- A node whose only child was advanced. -/
theorem Conduct.inside {r : Report (Tracked W κ) W} {f : Step (Tracked W κ) W → Step (Tracked W κ) W}
    (h : Conduct past (s :: p) r) (hseat : ∀ index, s ≠ .child .sequence index)
    (houtcome : (f r.step).outcome = r.step.outcome)
    (hrunning : r.step.outcome = .ok .running → (f r.step).next.Regular (past ++ ended r.log) p)
    (hdone : r.step.outcome = .ok .done → (f r.step).next.AllTallied (past ++ ended r.log) p) :
    Inside past p ⟨f r.step, r.log⟩ where
  orderly := by
    rw [houtcome]
    exact h.orderly.above fun index hs => absurd hs (hseat index)
  within e he := .inr ⟨s, h.orderly.below e he⟩
  running ho := hrunning (houtcome ▸ ho)
  done ho := hdone (houtcome ▸ ho)

/-- A node without others inside it. -/
theorem Inside.leaf {s : Step (Tracked W κ) W} (h : s.next.Regular past p) :
    Inside past p ⟨s, []⟩ where
  orderly := .nil past p _
  within := by simp
  running _ := by simpa using h
  done _ q u hu := by simpa using (h q u hu).1

theorem inside_whole_conduct (a : Action W κ) (hp : p ∉ past) :
    Inside past p ((whole a).inside host frame p w) := by
  rw [inside]
  exact .leaf (everywhere_whole ⟨trivial, hp⟩)

theorem inside_machine_conduct (work : κ) (hp : p ∉ past) :
    Inside past p ((machine work).inside host frame p w) := by
  rw [inside]
  refine .leaf fun q u hu => ?_
  cases hu with
  | self => exact ⟨trivial, hp⟩

theorem inside_made_conduct (hp : p ∉ past)
    (h : Conduct past (.made :: p) (t.advance host frame (.made :: p) w)) :
    Inside past p ((Tracked.made t).inside host frame p w) := by
  rw [inside_made]
  have hnot := List.not_mem_append hp (not_ended_of_below h.orderly.below)
  refine h.inside (f := Step.mapNext .made) (by simp) rfl (fun ho => ?_) fun ho => ?_
  · exact (h.running ho).made ⟨trivial, hnot⟩
  · exact (h.done ho).made trivial

theorem inside_following_conduct {index : Nat} (hp : p ∉ past)
    (h : Conduct past (.branch index :: p) (t.advance host frame (.branch index :: p) w)) :
    Inside past p ((Tracked.following index t).inside host frame p w) := by
  rw [inside_following]
  have hnot := List.not_mem_append hp (not_ended_of_below h.orderly.below)
  refine h.inside (f := settle index) (by simp) rfl (fun ho => ?_) fun ho => ?_
  · rw [settle, if_neg (by simp [ho])]
    exact (h.running ho).following ⟨trivial, hnot⟩
  · rw [settle, if_pos ho]
    exact everywhere_whole trivial

/-- Something else may happen before, below other seats. -/
theorem Inside.after {first : List Event} {outcome : Outcome} {r : Report (Tracked W κ) W}
    (hfirst : Orderly past p first outcome) (hok : ∀ fault, outcome ≠ .error fault)
    (hwithin : ∀ e ∈ first, e = .created p ∨ ∃ s : Seat, (s :: p) <:+ e.node)
    (h : Inside (past ++ ended first) p r) (hapart : ∀ e ∈ first, ∀ e' ∈ r.log, e.node ≠ e'.node) :
    Inside past p ⟨r.step, first ++ r.log⟩ where
  orderly := hfirst.append hok h.orderly hapart
  within := List.forall_mem_append.mpr ⟨hwithin, h.within⟩
  running ho := by
    rw [ended_append, ← List.append_assoc]
    exact h.running ho
  done ho := by
    rw [ended_append, ← List.append_assoc]
    exact h.done ho

theorem orderly_created (past : List Address) (p : Address) :
    Orderly past p [.created p] (.ok .running) where
  below := List.forall_mem_singleton.mpr (List.suffix_refl p)
  once := List.pairwise_singleton _ _
  timely := ⟨⟨by simp, fun _ _ hq hbelow => absurd hbelow (not_cons_suffix hq)⟩, trivial⟩
  fails := List.pairwise_singleton _ _
  failed := by simp

/-- What was deferred is made and advanced at once. -/
theorem inside_deferred_conduct {prepare : W → W} {create : W → Tracked W κ} (hp : p ∉ past)
    (h : Conduct past (.made :: p) ((create w).advance host frame (.made :: p) (prepare w))) :
    Inside past p ((Tracked.deferred prepare create).inside host frame p w) := by
  have hmade := inside_made_conduct hp h
  rw [inside_made] at hmade
  rw [inside_deferred]
  refine Inside.after (orderly_created past p) (by simp) (by simp) (by simpa using hmade) ?_
  intro e he e' he' heq
  rw [List.mem_singleton.mp he] at heq
  exact not_cons_suffix (List.suffix_refl p) (by simpa [← heq] using h.orderly.below e' he')

/-! ## Bubbles -/

section Bubbles

variable {bubble : κ}

theorem orderly_stepBubble (hb : .bubble :: p ∉ past) :
    Orderly past p (stepBubble host frame bubble p w).log
      (stepBubble host frame bubble p w).step.outcome :=
  ((Orderly.nil past (.bubble :: p) _).visit hb (by simp)).above (by simp)

theorem stepBubble_below :
    ∀ e ∈ (stepBubble host frame bubble p w).log, (Seat.bubble :: p) <:+ e.node := by
  simp [stepBubble, Report.visit]

theorem stepBubble_within :
    ∀ e ∈ (stepBubble host frame bubble p w).log, e = .created p ∨ ∃ s : Seat, (s :: p) <:+ e.node :=
  fun e he => .inr ⟨_, stepBubble_below e he⟩

theorem ended_stepBubble (hne : (stepBubble host frame bubble p w).step.outcome ≠ .ok .done) :
    ended (stepBubble host frame bubble p w).log = [] := by
  rw [stepBubble, Report.step_visit] at hne
  simp [stepBubble, Report.visit, Event.ended_left, hne]

/-- A line goes on with its bubble, or is over with it. -/
theorem inside_line_conduct {d : Delivery} {talking : Bool} (hp : p ∉ past)
    (hb : .bubble :: p ∉ past) :
    Inside past p (insideLine host frame d talking bubble p w) := by
  have hlog : Orderly past p (stepBubble host frame bubble p w).log _ := orderly_stepBubble hb
  rw [insideLine]
  split
  · next hdone =>
    rw [hdone] at hlog
    exact ⟨hlog, stepBubble_within, by simp, fun _ => everywhere_whole trivial⟩
  · next hne =>
    refine ⟨hlog, stepBubble_within, fun _ => ?_, fun ho => absurd ho hne⟩
    rw [ended_stepBubble hne, List.append_nil]
    intro q u hu
    cases hu with
    | self => exact ⟨trivial, hp, hb⟩

/-- A choice goes on with its bubble, fails, or follows the branch that was selected. -/
theorem inside_choice_conduct {question : Question} {slot : Slot} {branches : List (Tracked W κ)}
    (hp : p ∉ past) (hb : .bubble :: p ∉ past)
    (hbranches : ∀ (index : Nat) (branch : Tracked W κ), branches[index]? = some branch →
      branch.Regular past (.branch index :: p))
    (ih : ∀ branch ∈ branches, ∀ (past : List Address) (p : Address) (w : W),
      branch.Regular past p → Conduct past p (branch.advance host frame p w)) :
    Inside past p (insideChoice host frame question slot bubble branches
      (fun index => insideNth host frame branches index (.branch index :: p)) p w) := by
  have hlog : Orderly past p (stepBubble host frame bubble p w).log _ := orderly_stepBubble hb
  rw [insideChoice]
  dsimp only
  split
  · next hdone =>
    rw [hdone] at hlog
    split
    · exact ⟨hlog.ofOutcome (by simp), stepBubble_within, by simp, by simp⟩
    · next index hselected =>
      rw [insideNth_eq]
      cases hbranch : branches[index]? with
      | none => exact ⟨hlog.ofOutcome (by simp), stepBubble_within, by simp, by simp⟩
      | some branch =>
        have hne : Seat.branch index ≠ .bubble := by simp
        have hregular : branch.Regular (past ++ ended (stepBubble host frame bubble p w).log)
            (.branch index :: p) :=
          (hbranches index branch hbranch).extend fun q hq => not_ended_of_ne stepBubble_below hne hq
        have h := ih branch (List.mem_of_getElem? hbranch) _ _
          (host.record (.chose question.asker (question.labels.getD index ""))
            (stepBubble host frame bubble p w).step.world) hregular
        have hfollow := inside_following_conduct
          (List.not_mem_append hp (not_ended_of_below stepBubble_below)) h
        rw [inside_following] at hfollow
        refine Inside.after hlog (by simp) stepBubble_within hfollow fun e he e' he' heq => hne ?_
        exact seat_eq_of_suffix (h.orderly.below e' he') (heq ▸ stepBubble_below e he)
  · next hne =>
    refine ⟨hlog, stepBubble_within, fun _ => ?_, fun ho => absurd ho hne⟩
    rw [ended_stepBubble hne, List.append_nil]
    intro q u hu
    cases hu with
    | self => exact ⟨trivial, hp, hb⟩
    | chosen hbranch hu => exact hbranches _ _ hbranch q u hu

end Bubbles

end Nodes

/-! ## Joined actions -/

section Children

variable {host : Host W κ} {frame : Frame} {joint : Joint}

/-- How a frame goes inside joined actions. -/
structure InsideChildren (past : List Address) (p : Address) (joint : Joint) (indices : List Nat)
    (r : Report (List (Nat × Tracked W κ)) W) : Prop where
  orderly : Orderly past p r.log r.step.outcome
  within : ∀ e ∈ r.log, ∃ index ∈ indices, (.child joint index :: p) <:+ e.node
  tallied : (∀ fault, r.step.outcome ≠ .error fault) →
    r.step.next.map Prod.fst =
      indices.filter fun index => .child joint index :: p ∉ ended r.log
  regular : r.step.outcome = .ok .running →
    ∀ c ∈ r.step.next, c.2.Regular (past ++ ended r.log) (.child joint c.1 :: p)
  done : r.step.outcome = .ok .done → r.step.next = []

section First

variable {index : Nat} {indices : List Nat} {r : Report (Tracked W κ) W}
  {t : Report (List (Nat × Tracked W κ)) W}

/-- What happens at the first child does not end the others. -/
theorem Conduct.not_ended (h : Conduct past (.child joint index :: p) r) (hnot : index ∉ indices)
    {other : Nat} (hother : other ∈ indices) (hq : (.child joint other :: p) <:+ q) :
    q ∉ ended r.log := by
  refine not_ended_of_ne h.orderly.below ?_ hq
  rw [ne_eq, Seat.child.injEq]
  rintro ⟨-, rfl⟩
  exact hnot hother

/-- What happens at the other children does not end the first. -/
theorem InsideChildren.not_ended (ht : InsideChildren past p joint indices t) (hnot : index ∉ indices)
    (hq : (.child joint index :: p) <:+ q) : q ∉ ended t.log := by
  intro hin
  obtain ⟨other, hother, hbelow⟩ := ht.within _ (mem_ended.mp hin)
  obtain ⟨-, rfl⟩ := Seat.child.inj (seat_eq_of_suffix hq hbelow)
  exact hnot hother

theorem InsideChildren.apart {more : List Address} (h : Conduct past (.child joint index :: p) r)
    (ht : InsideChildren more p joint indices t) (hnot : index ∉ indices) :
    ∀ e ∈ r.log, ∀ e' ∈ t.log, e.node ≠ e'.node := by
  intro e he e' he' heq
  obtain ⟨other, hother, hbelow⟩ := ht.within e' he'
  obtain ⟨-, rfl⟩ := Seat.child.inj (seat_eq_of_suffix hbelow (heq ▸ h.orderly.below e he))
  exact hnot hother

/-- The first child is not done, and the others are not reached. -/
theorem InsideChildren.stop {rest : List (Nat × Tracked W κ)}
    (h : Conduct past (.child joint index :: p) r)
    (horderly : Orderly past p r.log r.step.outcome) (hne : r.step.outcome ≠ .ok .done)
    (hnot : index ∉ rest.map Prod.fst)
    (hrest : ∀ c ∈ rest, c.2.Regular past (.child joint c.1 :: p)) :
    InsideChildren past p joint (index :: rest.map Prod.fst)
      ⟨⟨r.step.outcome, (index, r.step.next) :: rest, r.step.world⟩, r.log⟩ where
  orderly := horderly
  within e he := ⟨index, List.mem_cons_self, h.orderly.below e he⟩
  tallied _ := by
    rw [List.map_cons, List.filter_eq_self.mpr]
    refine List.forall_mem_cons.mpr ⟨decide_eq_true (mt h.ends.mp hne), fun other hother => ?_⟩
    exact decide_eq_true (h.not_ended hnot hother (List.suffix_refl _))
  regular ho := by
    refine List.forall_mem_cons.mpr ⟨h.running ho, fun c hc => (hrest c hc).extend fun q hq => ?_⟩
    exact h.not_ended hnot (List.mem_map_of_mem hc) hq
  done ho := absurd ho hne

/-- The first child is done, and the others are advanced. -/
theorem InsideChildren.afterDone (h : Conduct past (.child joint index :: p) r)
    (horderly : Orderly past p r.log r.step.outcome) (hdone : r.step.outcome = .ok .done)
    (hnot : index ∉ indices) (ht : InsideChildren (past ++ ended r.log) p joint indices t) :
    InsideChildren past p joint (index :: indices) ⟨t.step, r.log ++ t.log⟩ where
  orderly := horderly.append (by simp [hdone]) ht.orderly (ht.apart h hnot)
  within := by
    refine List.forall_mem_append.mpr ⟨fun e he => ?_, fun e he => ?_⟩
    · exact ⟨index, List.mem_cons_self, h.orderly.below e he⟩
    · obtain ⟨other, hother, hbelow⟩ := ht.within e he
      exact ⟨other, List.mem_cons_of_mem _ hother, hbelow⟩
  tallied hok := by
    have hover : .child joint index :: p ∈ ended r.log := h.ends.mpr hdone
    rw [ht.tallied hok, List.filter_cons_of_neg (by simp [-mem_ended, hover])]
    refine List.filter_congr fun other hother => ?_
    simp [-mem_ended, h.not_ended hnot hother (List.suffix_refl _)]
  regular ho := by
    rw [ended_append, ← List.append_assoc]
    exact ht.regular ho
  done := ht.done

/-- The first child is running, and the others are advanced at the same time. -/
theorem InsideChildren.alongside (h : Conduct past (.child joint index :: p) r)
    (horderly : Orderly past p r.log r.step.outcome) (hrunning : r.step.outcome = .ok .running)
    (hnot : index ∉ indices) (ht : InsideChildren (past ++ ended r.log) p joint indices t) :
    InsideChildren past p joint (index :: indices)
      ⟨⟨t.step.outcome.map fun _ => .running, (index, r.step.next) :: t.step.next, t.step.world⟩,
        r.log ++ t.log⟩ where
  orderly := by
    refine (horderly.append (by simp [hrunning]) ht.orderly (ht.apart h hnot)).ofOutcome ?_
    intro fault ho
    rw [ho]
    rfl
  within := by
    refine List.forall_mem_append.mpr ⟨fun e he => ?_, fun e he => ?_⟩
    · exact ⟨index, List.mem_cons_self, h.orderly.below e he⟩
    · obtain ⟨other, hother, hbelow⟩ := ht.within e he
      exact ⟨other, List.mem_cons_of_mem _ hother, hbelow⟩
  tallied hok := by
    have hopen : .child joint index :: p ∉ ended r.log := by
      rw [h.ends, hrunning]
      simp
    have hopen' := ht.not_ended hnot (List.suffix_refl _)
    rw [List.map_cons, ht.tallied fun fault ho => hok fault (by rw [ho]; rfl),
      List.filter_cons_of_pos (by simp [-mem_ended, hopen, hopen'])]
    congr 1
    refine List.filter_congr fun other hother => ?_
    simp [-mem_ended, h.not_ended hnot hother (List.suffix_refl _)]
  regular ho := by
    rw [ended_append, ← List.append_assoc]
    refine List.forall_mem_cons.mpr
      ⟨(h.running hrunning).extend fun q hq => ht.not_ended hnot hq, ?_⟩
    cases hrest : t.step.outcome with
    | error fault => simp [hrest, Except.map] at ho
    | ok progress =>
      cases progress with
      | done => simp [ht.done hrest]
      | running => exact ht.regular hrest
  done ho := absurd ho (Action.map_running_ne_done _)

end First

variable (host frame) in
/-- Each child is advanced after those before it, if at all. -/
theorem insideChildren_conduct {children : List (Nat × Tracked W κ)} (w : W)
    (hsorted : (children.map Prod.fst).Pairwise (· < ·))
    (hregular : ∀ c ∈ children, c.2.Regular past (.child joint c.1 :: p))
    (hturn : joint = .sequence → ∀ index ∈ children.map Prod.fst, ∀ earlier < index,
      earlier ∉ children.map Prod.fst → .child .sequence earlier :: p ∈ past)
    (ih : ∀ c ∈ children, ∀ (past : List Address) (p : Address) (w : W),
      c.2.Regular past p → Conduct past p (c.2.advance host frame p w)) :
    InsideChildren past p joint (children.map Prod.fst)
      (insideChildren host frame joint children p w) := by
  induction children generalizing past w with
  | nil =>
    rw [insideChildren]
    exact ⟨.nil past p _, by simp, by simp, by simp, fun _ => rfl⟩
  | cons c rest ihrest =>
    obtain ⟨index, child⟩ := c
    rw [List.map_cons] at hsorted hturn ⊢
    obtain ⟨hlt, hsorted⟩ := List.pairwise_cons.mp hsorted
    obtain ⟨hchild, hrest⟩ := List.forall_mem_cons.mp hregular
    obtain ⟨ihchild, ih⟩ := List.forall_mem_cons.mp ih
    have hnot : index ∉ rest.map Prod.fst := fun hin => Nat.lt_irrefl _ (hlt index hin)
    have h := ihchild past (.child joint index :: p) w hchild
    -- In a sequence the children before this one are over, or it would not be the first.
    have horderly := h.orderly.above fun i hi earlier hearlier => by
      obtain ⟨hjoint, rfl⟩ := Seat.child.inj hi
      refine hturn hjoint index List.mem_cons_self earlier hearlier ?_
      rintro (_ | ⟨_, hin⟩)
      · exact absurd hearlier (Nat.lt_irrefl _)
      · exact absurd hearlier (Nat.lt_asymm (hlt earlier hin))
    let more := ended (child.advance host frame (.child joint index :: p) w).log
    have hothers := @ihrest (past ++ more)
      (child.advance host frame (.child joint index :: p) w).step.world hsorted
      (fun c hc => (hrest c hc).extend fun q hq => h.not_ended hnot (List.mem_map_of_mem hc) hq)
    cases ho : (child.advance host frame (.child joint index :: p) w).step.outcome with
    | error fault =>
      rw [insideChildren_of_ne (by simp [ho]) (by simp [ho])]
      exact .stop h horderly (by simp [ho]) hnot hrest
    | ok progress =>
      cases progress with
      | done =>
        rw [insideChildren_of_done ho]
        refine .afterDone h horderly ho hnot (hothers ?_ ih)
        intro hjoint later hlater earlier hearlier hout
        by_cases heq : earlier = index
        · subst heq hjoint
          exact List.mem_append_right _ (h.ends.mpr ho)
        · refine List.mem_append_left _ (hturn hjoint later (.tail _ hlater) earlier hearlier ?_)
          simpa [heq] using hout
      | running =>
        cases joint with
        | sequence =>
          rw [insideChildren_of_ne (by simp [ho]) (by simp)]
          exact .stop h horderly (by simp [ho]) hnot hrest
        | parallel =>
          rw [insideChildren_of_running ho]
          exact .alongside h horderly ho hnot (hothers (by simp) ih)

end Children

/-! ## Trees -/

section Trees

variable {host : Host W κ} {frame : Frame}

theorem inside_joined_conduct {joint : Joint} {size : Nat} {children : List (Nat × Tracked W κ)}
    {w : W} (h : (joined joint size children).Regular past p)
    (ih : ∀ c ∈ children, ∀ (past : List Address) (p : Address) (w : W),
      c.2.Regular past p → Conduct past p (c.2.advance host frame p w)) :
    Inside past p ((joined joint size children).inside host frame p w) := by
  have htallied : children.map Prod.fst =
      (List.range size).filter fun index => .child joint index :: p ∉ past :=
    (h p _ (.self p _)).1
  have hp := h.not_over
  have hchildren := insideChildren_conduct host frame w
    (by rw [htallied]; exact List.pairwise_lt_range.filter _)
    (fun c hc q u hu => h q u (.child hc hu))
    (by
      rintro rfl index hindex earlier hlt hout
      rw [htallied, List.mem_filter, List.mem_range] at hindex hout
      by_contra hopen
      exact hout ⟨Nat.lt_trans hlt hindex.1, decide_eq_true hopen⟩) ih
  rw [inside]
  generalize insideChildren host frame joint children p w = r at hchildren
  have hnot : p ∉ ended r.log := by
    intro hin
    obtain ⟨index, -, hbelow⟩ := hchildren.within _ (mem_ended.mp hin)
    exact not_cons_suffix (List.suffix_refl p) hbelow
  have htally (hok : ∀ fault, r.step.outcome ≠ .error fault) :
      (joined joint size r.step.next).Tallied (past ++ ended r.log) p := by
    rw [Tallied, hchildren.tallied hok, htallied, List.filter_filter]
    exact List.filter_congr fun index _ => by simp [-mem_ended, Bool.and_comm]
  refine ⟨hchildren.orderly, fun e he => ?_, fun ho => ?_, fun ho => ?_⟩
  · obtain ⟨index, -, hbelow⟩ := hchildren.within e he
    exact .inr ⟨_, hbelow⟩
  · intro q u hu
    cases hu with
    | self =>
      refine ⟨htally fun fault hfault => ?_, List.not_mem_append hp hnot⟩
      simp [show r.step.outcome = _ from ho] at hfault
    | child hc hu => exact hchildren.regular ho _ hc q u hu
  · intro q u hu
    cases hu with
    | self => exact htally fun fault hfault => by simp [show r.step.outcome = _ from ho] at hfault
    | child hc hu =>
      have hnil := hchildren.done ho
      simp [hnil] at hc

variable (host frame) in
/-- A frame of a regular tree is orderly, and leaves a regular tree. -/
theorem conduct_advance (t : Tracked W κ) (past : List Address) (p : Address) (w : W)
    (h : t.Regular past p) : Conduct past p (t.advance host frame p w) := by
  induction t using induction generalizing past p w with
  | whole a => exact (inside_whole_conduct a h.not_over).visit h.not_over
  | machine work => exact (inside_machine_conduct work h.not_over).visit h.not_over
  | deferred prepare create ih =>
    refine Inside.visit (inside_deferred_conduct h.not_over ?_) h.not_over
    exact ih w past _ _ fun q u hu => h q u (.deferred hu)
  | made inner ih =>
    refine Inside.visit (inside_made_conduct h.not_over ?_) h.not_over
    exact ih past _ w fun q u hu => h q u (.made hu)
  | joined joint size children ih => exact (inside_joined_conduct h ih).visit h.not_over
  | speak d =>
    obtain ⟨hp, hb⟩ := (h p _ (.self p _)).2
    rw [advance, inside]
    exact (inside_line_conduct hp hb).visit hp
  | speaking d talking bubble =>
    obtain ⟨hp, hb⟩ := (h p _ (.self p _)).2
    rw [advance, inside]
    exact (inside_line_conduct hp hb).visit hp
  | prompt q branches ih =>
    obtain ⟨hp, hb⟩ := (h p _ (.self p _)).2
    rw [advance, inside]
    exact (inside_choice_conduct hp hb
      (fun index branch hbranch q u hu => h q u (.prompted hbranch hu)) ih).visit hp
  | choosing q slot bubble branches ih =>
    obtain ⟨hp, hb⟩ := (h p _ (.self p _)).2
    rw [advance, inside]
    exact (inside_choice_conduct hp hb
      (fun index branch hbranch q u hu => h q u (.chosen hbranch hu)) ih).visit hp
  | following index branch ih =>
    refine Inside.visit (inside_following_conduct h.not_over ?_) h.not_over
    exact ih past _ w fun q u hu => h q u (.followed hu)

end Trees

end Tracked

end Promptbook
