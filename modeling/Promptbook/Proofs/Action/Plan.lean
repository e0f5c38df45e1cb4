import Promptbook.Proofs.Action.Stepping

set_option autoImplicit false

/-!
# Plans

A plan is a tree of actions whose course is known beforehand: how long its leaves take and what is
emitted by each of them.  `Plan.finish` is the tick with which a part of the plan ends that begins
with a given tick, and `Plan.engagements` lists, from left to right, from which tick to which every
node is engaged and what it emits on a tick.  Ticks are counted from one, and both are found without
advancing anything.
-/

namespace Promptbook

/-! ## Frames by tick -/

/-- The frame of a tick. -/
def frameAt (frames : List Frame) (t : Nat) : Frame := frames.getD (t - 1) default

/-- The time that passes on the ticks from `s` to `t`, in nanoseconds. -/
def timeFrom (frames : List Frame) (s t : Nat) : Nat :=
  (List.range' s (t + 1 - s)).foldl (fun passed i => passed + (frameAt frames i).delta.nanos) 0

/-- The first tick from `s` on of which something holds. -/
def firstFrom (frames : List Frame) (s : Nat) (p : Nat → Bool) : Option Nat :=
  (List.range' s (frames.length + 1 - s)).find? p

/-- Whether an end has come by a tick. -/
def endedBy (last : Option Nat) (t : Nat) : Bool := last.any fun e => decide (e ≤ t)

theorem endedBy_iff {last : Option Nat} {t : Nat} :
    endedBy last t = true ↔ ∃ e, last = some e ∧ e ≤ t := by
  cases last <;> simp [endedBy]

section Ticks

variable {frames : List Frame} {s t : Nat}

theorem drop_eq_frameAt_cons (h : t < frames.length) :
    frames.drop t = frameAt frames (t + 1) :: frames.drop (t + 1) := by
  rw [List.drop_eq_getElem_cons h, frameAt, Nat.add_sub_cancel, List.getD_eq_getElem?_getD,
    List.getElem?_eq_getElem h, Option.getD_some]

theorem timeFrom_self (frames : List Frame) (s : Nat) :
    timeFrom frames s s = (frameAt frames s).delta.nanos := by
  simp [timeFrom]

theorem timeFrom_succ (h : s ≤ t + 1) :
    timeFrom frames s (t + 1) = timeFrom frames s t + (frameAt frames (t + 1)).delta.nanos := by
  obtain ⟨n, hn⟩ := Nat.exists_eq_add_of_le h
  have hlast : t + 1 + 1 - s = n + 1 := by omega
  have hbefore : t + 1 - s = n := by omega
  rw [timeFrom, timeFrom, hlast, hbefore, List.range'_concat]
  simp [hn]

theorem timeFrom_mono {i : Nat} (hs : s ≤ i) (h : i ≤ t) :
    timeFrom frames s i ≤ timeFrom frames s t := by
  induction h with
  | refl => exact Nat.le_refl _
  | step h ih =>
    rw [timeFrom_succ (Nat.le_succ_of_le (Nat.le_trans hs h))]
    exact Nat.le_add_right_of_le ih

theorem le_of_firstFrom {p : Nat → Bool} {e : Nat} (h : firstFrom frames s p = some e) : s ≤ e := by
  have hmem := List.mem_of_find?_eq_some h
  exact (List.mem_range'_1.mp hmem).1

/-- The first tick of which something holds has come as soon as it held of some tick. -/
theorem endedBy_firstFrom {p : Nat → Bool} (ht : t ≤ frames.length) :
    endedBy (firstFrom frames s p) t = true ↔ ∃ i, s ≤ i ∧ i ≤ t ∧ p i = true := by
  rw [endedBy_iff]
  constructor
  · rintro ⟨e, he, hle⟩
    exact ⟨e, le_of_firstFrom he, hle, List.find?_some he⟩
  · rintro ⟨i, hs, hle, hi⟩
    have hmem : i ∈ List.range' s (frames.length + 1 - s) := List.mem_range'_1.mpr (by omega)
    obtain ⟨e, he⟩ := Option.isSome_iff_exists.mp (List.find?_isSome.mpr ⟨i, hmem, hi⟩)
    obtain ⟨-, -, hmin⟩ := List.find?_range'_eq_some.mp he
    refine ⟨e, he, Nat.le_trans (Nat.le_of_not_lt fun hlt => ?_) hle⟩
    simpa [hi] using hmin i hs hlt

/-- What holds from some tick on is over on the ticks of which it holds. -/
theorem endedBy_firstFrom_of_lasting {p : Nat → Bool} (hs : s ≤ t) (ht : t ≤ frames.length)
    (hlasting : ∀ i, s ≤ i → i ≤ t → p i = true → p t = true) :
    endedBy (firstFrom frames s p) t = p t := by
  rw [Bool.eq_iff_iff, endedBy_firstFrom ht]
  constructor
  · rintro ⟨i, hi, hle, hp⟩
    exact hlasting i hi hle hp
  · intro h
    exact ⟨t, hs, Nat.le_refl t, h⟩

/-- What did not hold before is over on a tick if it holds of it. -/
theorem endedBy_firstFrom_of_before {p : Nat → Bool} (hs : s ≤ t) (ht : t ≤ frames.length)
    (hbefore : ∀ i, s ≤ i → i < t → p i = false) :
    endedBy (firstFrom frames s p) t = p t := by
  rw [Bool.eq_iff_iff, endedBy_firstFrom ht]
  constructor
  · rintro ⟨i, hi, hle, hp⟩
    rcases Nat.lt_or_eq_of_le hle with hlt | rfl
    · simp [hbefore i hi hlt] at hp
    · exact hp
  · intro h
    exact ⟨t, hs, Nat.le_refl t, h⟩

end Ticks

/-! ## Work -/

/-- The world after some events. -/
def emitAll {E W : Type} (emit : E → W → W) (events : List E) (w : W) : W :=
  events.foldl (fun w e => emit e w) w

theorem emitAll_append {E W : Type} (emit : E → W → W) (events more : List E) (w : W) :
    emitAll emit (events ++ more) w = emitAll emit more (emitAll emit events w) :=
  List.foldl_append

/-- Work that was advanced `k` times and is done with the `n`-th advance from now, whatever the
frames and worlds; `events` are what it emits, by the number of advances before and by the frame. -/
def Host.Lasts {W κ E : Type} (host : Host W κ) (emit : E → W → W)
    (events : Nat → Frame → List E) : Nat → Nat → κ → Prop
  | _, 0, _ => True
  | k, n + 1, work => ∀ frame w,
    (host.step work frame w).outcome = .ok (if n = 0 then .done else .running) ∧
    (host.step work frame w).world = emitAll emit (events k frame) w ∧
    Lasts host emit events (k + 1) n (host.step work frame w).next

/-- Work that is done with the last of a fixed number of advances. -/
structure Stint {W κ E : Type} (host : Host W κ) (emit : E → W → W) where
  work : κ
  advances : Nat
  events : Nat → Frame → List E
  advances_pos : 0 < advances
  lasts : host.Lasts emit events 0 advances work

/-! ## Trees -/

/-- A tree of actions whose course is known beforehand. -/
inductive Plan {W κ E : Type} (host : Host W κ) (emit : E → W → W) where
  | stint (stint : Stint host emit)
  | wait (duration : Duration)
  /-- Wait until a condition holds; events are emitted whenever it is tried. -/
  | waitUntil (condition : Frame → Bool) (tried : Frame → List E)
  | effect (events : List E)
  /-- A plan that is only made when it is reached, with events. -/
  | deferred (made : List E) (child : Plan host emit)
  | sequence (children : List (Plan host emit))
  | parallel (children : List (Plan host emit))

/-- From which tick to which a node is engaged, if it ends at all, and what it emits on a tick. -/
structure Engagement (E : Type) where
  first : Nat
  last : Option Nat
  events : Nat → List E

/-- Whether a node is engaged on a tick. -/
def Engagement.isOn {E : Type} (t : Nat) (g : Engagement E) : Bool :=
  decide (g.first ≤ t) && g.last.all fun last => decide (t ≤ last)

/-- What engaged nodes emit on a tick, from left to right. -/
def emittedOn {E : Type} (t : Nat) (gs : List (Engagement E)) : List E :=
  (gs.filter (Engagement.isOn t)).flatMap fun g => g.events t

section Engagements

variable {E : Type} {t : Nat}

theorem emittedOn_append (gs more : List (Engagement E)) :
    emittedOn t (gs ++ more) = emittedOn t gs ++ emittedOn t more := by
  simp [emittedOn]

theorem emittedOn_cons (g : Engagement E) (gs : List (Engagement E)) :
    emittedOn t (g :: gs) = (if g.isOn t then g.events t else []) ++ emittedOn t gs := by
  unfold emittedOn
  rw [List.filter_cons]
  split <;> simp

@[simp] theorem emittedOn_nil : emittedOn t ([] : List (Engagement E)) = [] := rfl

theorem emittedOn_singleton (g : Engagement E) :
    emittedOn t [g] = if g.isOn t then g.events t else [] := by
  rw [emittedOn_cons, emittedOn_nil, List.append_nil]

/-- A node is engaged up to the tick that ends it. -/
theorem isOn_of_before {frames : List Frame} {s : Nat} {p : Nat → Bool} {events : Nat → List E}
    (hs : s ≤ t) (hbefore : ∀ i, s ≤ i → i < t → p i = false) :
    (Engagement.mk s (firstFrom frames s p) events).isOn t = true := by
  rw [Engagement.isOn, decide_eq_true hs, Bool.true_and]
  cases h : firstFrom frames s p with
  | none => rfl
  | some e =>
    have hnot : ¬e < t := fun hlt => by
      simpa [List.find?_some h] using hbefore e (le_of_firstFrom h) hlt
    simpa using Nat.le_of_not_lt hnot

theorem emittedOn_eq_nil {gs : List (Engagement E)} (h : ∀ g ∈ gs, g.isOn t = false) :
    emittedOn t gs = [] := by
  have hnone : gs.filter (Engagement.isOn t) = [] := by simpa using h
  rw [emittedOn, hnone]
  rfl

end Engagements

namespace Plan

variable {W κ E : Type} {host : Host W κ} {emit : E → W → W}

/-- Induction over plans; a combinator comes with the property of all its children. -/
@[elab_as_elim]
theorem induction {motive : Plan host emit → Prop} (stint : ∀ p, motive (.stint p))
    (wait : ∀ d, motive (.wait d)) (waitUntil : ∀ c tried, motive (.waitUntil c tried))
    (effect : ∀ events, motive (.effect events))
    (deferred : ∀ made child, motive child → motive (.deferred made child))
    (sequence : ∀ children, (∀ c ∈ children, motive c) → motive (.sequence children))
    (parallel : ∀ children, (∀ c ∈ children, motive c) → motive (.parallel children))
    (p : Plan host emit) : motive p := by
  refine @Plan.rec W κ E host emit motive (fun children => ∀ c ∈ children, motive c) stint wait
    waitUntil effect deferred sequence parallel ?_ ?_ p
  · simp
  · intro c rest hc hrest
    simpa using ⟨hc, hrest⟩

mutual

/-- The action of a plan. -/
def action : Plan host emit → Action W κ
  | stint p => .machine p.work
  | wait d => .pause d
  | waitUntil condition tried =>
    .waitUntil fun frame w => (condition frame, emitAll emit (tried frame) w)
  | effect events => .effect (emitAll emit events)
  | deferred made child =>
    let action := child.action
    .deferred (emitAll emit made) fun _ => action
  | sequence children => .sequence (actions children)
  | parallel children => .parallel (actions children)

/-- The actions of plans. -/
def actions : List (Plan host emit) → List (Action W κ)
  | [] => []
  | c :: rest => c.action :: actions rest

end

section Course

variable (frames : List Frame)

mutual

/-- The tick with which a plan that begins with tick `s` ends, if there are frames enough. -/
def finish : Plan host emit → Nat → Option Nat
  | stint p, s => firstFrom frames s fun t => decide (s + p.advances ≤ t + 1)
  | wait d, s => firstFrom frames s fun t => decide (d.nanos ≤ timeFrom frames s t)
  | waitUntil condition _, s => firstFrom frames s fun t => condition (frameAt frames t)
  | effect _, s => firstFrom frames s fun t => decide (s + 1 ≤ t)
  | deferred _ child, s => child.finish s
  | sequence children, s => finishInTurn children s
  | parallel children, s => finishTogether children s

/-- The end of plans each of which begins with the end of the one before. -/
def finishInTurn : List (Plan host emit) → Nat → Option Nat
  | [], s => some s
  | c :: rest, s => (c.finish s).bind (finishInTurn rest)

/-- The last end of plans that begin with the same tick. -/
def finishTogether : List (Plan host emit) → Nat → Option Nat
  | [], s => some s
  | c :: rest, s => (c.finish s).bind fun e => (finishTogether rest s).map (max e)

end

mutual

/-- The engagements of the nodes of a plan that begins with tick `s`, from left to right. -/
def engagements : Plan host emit → Nat → List (Engagement E)
  | p@(stint leaf), s =>
    [⟨s, p.finish frames s, fun t => leaf.events (t - s) (frameAt frames t)⟩]
  | p@(wait _), s => [⟨s, p.finish frames s, fun _ => []⟩]
  | p@(waitUntil _ tried), s => [⟨s, p.finish frames s, fun t => tried (frameAt frames t)⟩]
  | p@(effect events), s => [⟨s, p.finish frames s, fun t => if t = s then events else []⟩]
  | deferred made child, s =>
    ⟨s, child.finish frames s, fun t => if t = s then made else []⟩ :: child.engagements s
  | sequence children, s => engagementsInTurn children s
  | parallel children, s => engagementsTogether children s

/-- The engagements of plans each of which begins with the end of the one before. -/
def engagementsInTurn : List (Plan host emit) → Nat → List (Engagement E)
  | [], _ => []
  | c :: rest, s =>
    c.engagements s ++ (c.finish frames s).elim [] (engagementsInTurn rest)

/-- The engagements of plans that begin with the same tick. -/
def engagementsTogether : List (Plan host emit) → Nat → List (Engagement E)
  | [], _ => []
  | c :: rest, s => c.engagements s ++ engagementsTogether rest s

end

/-! ## Laws -/

/-- No plan ends before it begins. -/
theorem le_of_finish (p : Plan host emit) {s e : Nat} (h : p.finish frames s = some e) : s ≤ e := by
  induction p using Plan.induction generalizing s e with
  | stint p => exact le_of_firstFrom h
  | wait d => exact le_of_firstFrom h
  | waitUntil c tried => exact le_of_firstFrom h
  | effect events => exact le_of_firstFrom h
  | deferred made child ih => exact ih h
  | sequence children ih =>
    rw [finish] at h
    induction children generalizing s with
    | nil =>
      obtain rfl : s = e := by simpa [finishInTurn] using h
      exact Nat.le_refl s
    | cons c rest hrest =>
      obtain ⟨m, hm, he⟩ := Option.bind_eq_some_iff.mp h
      exact Nat.le_trans (ih c (by simp) hm)
        (hrest (fun x hx => ih x (List.mem_cons_of_mem _ hx)) he)
  | parallel children ih =>
    rw [finish] at h
    induction children generalizing e with
    | nil =>
      obtain rfl : s = e := by simpa [finishTogether] using h
      exact Nat.le_refl s
    | cons c rest hrest =>
      obtain ⟨m, hm, he⟩ := Option.bind_eq_some_iff.mp h
      obtain ⟨l, -, rfl⟩ := Option.map_eq_some_iff.mp he
      exact Nat.le_trans (ih c (by simp) hm) (Nat.le_max_left m l)

/-- No node is engaged before the plan begins. -/
theorem le_first {p : Plan host emit} {s : Nat} {g : Engagement E}
    (hg : g ∈ p.engagements frames s) : s ≤ g.first := by
  induction p using Plan.induction generalizing s with
  | stint p =>
    obtain rfl := List.mem_singleton.mp hg
    exact Nat.le_refl s
  | wait d =>
    obtain rfl := List.mem_singleton.mp hg
    exact Nat.le_refl s
  | waitUntil c tried =>
    obtain rfl := List.mem_singleton.mp hg
    exact Nat.le_refl s
  | effect events =>
    obtain rfl := List.mem_singleton.mp hg
    exact Nat.le_refl s
  | deferred made child ih =>
    rcases List.mem_cons.mp hg with rfl | hg
    · exact Nat.le_refl s
    · exact ih hg
  | sequence children ih =>
    rw [engagements] at hg
    induction children generalizing s with
    | nil => simp [engagementsInTurn] at hg
    | cons c rest hrest =>
      rcases List.mem_append.mp hg with hg | hg
      · exact ih c (by simp) hg
      · cases hm : c.finish frames s with
        | none => simp [hm] at hg
        | some m =>
          rw [hm] at hg
          exact Nat.le_trans (c.le_of_finish frames hm)
            (hrest (fun x hx => ih x (List.mem_cons_of_mem _ hx)) hg)
  | parallel children ih =>
    rw [engagements] at hg
    induction children with
    | nil => simp [engagementsTogether] at hg
    | cons c rest hrest =>
      rcases List.mem_append.mp hg with hg | hg
      · exact ih c (by simp) hg
      · exact hrest (fun x hx => ih x (List.mem_cons_of_mem _ hx)) hg

/-- No node is engaged after the plan has ended. -/
theorem last_le {p : Plan host emit} {s e : Nat} {g : Engagement E}
    (hg : g ∈ p.engagements frames s) (he : p.finish frames s = some e) :
    ∃ last, g.last = some last ∧ last ≤ e := by
  induction p using Plan.induction generalizing s e with
  | stint p =>
    obtain rfl := List.mem_singleton.mp hg
    exact ⟨e, he, Nat.le_refl e⟩
  | wait d =>
    obtain rfl := List.mem_singleton.mp hg
    exact ⟨e, he, Nat.le_refl e⟩
  | waitUntil c tried =>
    obtain rfl := List.mem_singleton.mp hg
    exact ⟨e, he, Nat.le_refl e⟩
  | effect events =>
    obtain rfl := List.mem_singleton.mp hg
    exact ⟨e, he, Nat.le_refl e⟩
  | deferred made child ih =>
    rcases List.mem_cons.mp hg with rfl | hg
    · exact ⟨e, he, Nat.le_refl e⟩
    · exact ih hg he
  | sequence children ih =>
    rw [engagements] at hg
    rw [finish] at he
    induction children generalizing s with
    | nil => simp [engagementsInTurn] at hg
    | cons c rest hrest =>
      obtain ⟨m, hm, he⟩ := Option.bind_eq_some_iff.mp he
      rw [engagementsInTurn, hm] at hg
      rcases List.mem_append.mp hg with hg | hg
      · obtain ⟨last, hlast, hle⟩ := ih c (by simp) hg hm
        exact ⟨last, hlast, Nat.le_trans hle ((sequence rest).le_of_finish frames he)⟩
      · exact hrest (fun x hx => ih x (List.mem_cons_of_mem _ hx)) hg he
  | parallel children ih =>
    rw [engagements] at hg
    rw [finish] at he
    induction children generalizing e with
    | nil => simp [engagementsTogether] at hg
    | cons c rest hrest =>
      obtain ⟨m, hm, he⟩ := Option.bind_eq_some_iff.mp he
      obtain ⟨l, hl, rfl⟩ := Option.map_eq_some_iff.mp he
      rcases List.mem_append.mp hg with hg | hg
      · obtain ⟨last, hlast, hle⟩ := ih c (by simp) hg hm
        exact ⟨last, hlast, Nat.le_trans hle (Nat.le_max_left m l)⟩
      · obtain ⟨last, hlast, hle⟩ := hrest (fun x hx => ih x (List.mem_cons_of_mem _ hx)) hg hl
        exact ⟨last, hlast, Nat.le_trans hle (Nat.le_max_right m l)⟩

/-- Nothing is emitted before a plan begins. -/
theorem emittedOn_of_lt (p : Plan host emit) {s t : Nat} (h : t < s) :
    emittedOn t (p.engagements frames s) = [] := by
  apply emittedOn_eq_nil
  intro g hg
  have hfirst := le_first frames hg
  simp [Engagement.isOn, Nat.not_le_of_lt (Nat.lt_of_lt_of_le h hfirst)]

end Course

end Plan

end Promptbook
