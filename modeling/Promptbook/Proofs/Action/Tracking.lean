import Mathlib.Data.List.Infix
import Promptbook.Proofs.Action.Joining

set_option autoImplicit false

/-!
# Tracking the nodes of an action

An action is a tree, but a frame leaves no trace of which of its nodes were advanced: children that
are done are gone, and what was deferred is replaced by what it made.  `Tracked` is the same tree in
which every node keeps its address, and a frame of it reports the nodes that were entered and left,
in their order.

`Tracked.advance_action` says that this is a frame of the action otherwise, and
`Tracked.action_ofAction` that every action can be tracked.
-/

namespace Promptbook

/-! ## Addresses and events -/

/-- How a node lies in the one above it. -/
inductive Seat where
  | child (joint : Joint) (index : Nat)
  /-- What a deferred action made. -/
  | made
  | bubble
  | branch (index : Nat)
  deriving DecidableEq

/-- Where a node lies in the whole tree, beginning with its own seat. -/
abbrev Address := List Seat

/-- What happens to a node in a frame. -/
inductive Event where
  | entered (node : Address)
  /-- A deferred action made what it stands for. -/
  | created (node : Address)
  | left (node : Address) (outcome : Outcome)
  deriving DecidableEq

/-- The node of an event. -/
def Event.node : Event → Address
  | entered node => node
  | created node => node
  | left node _ => node

@[simp] theorem Event.node_entered (p : Address) : (entered p).node = p := rfl

@[simp] theorem Event.node_created (p : Address) : (created p).node = p := rfl

@[simp] theorem Event.node_left (p : Address) (outcome : Outcome) : (left p outcome).node = p := rfl

/-- A step, and what happened in it. -/
structure Report (σ W : Type) where
  step : Step σ W
  log : List Event

namespace Report

variable {σ τ W : Type}

/-- The same report of a state that contains the one that was advanced. -/
def mapNext (f : σ → τ) (r : Report σ W) : Report τ W := ⟨r.step.mapNext f, r.log⟩

/-- The report of a node, from what happened inside it. -/
def visit (p : Address) (r : Report σ W) : Report σ W :=
  ⟨r.step, .entered p :: (r.log ++ [.left p r.step.outcome])⟩

@[simp]
theorem step_mapNext (f : σ → τ) (r : Report σ W) : (r.mapNext f).step = r.step.mapNext f := rfl

@[simp]
theorem log_mapNext (f : σ → τ) (r : Report σ W) : (r.mapNext f).log = r.log := rfl

@[simp]
theorem step_visit (p : Address) (r : Report σ W) : (r.visit p).step = r.step := rfl

end Report

/-! ## Trees -/

/-- An action whose nodes keep their addresses. -/
inductive Tracked (W κ : Type) where
  /-- An action in which no nodes are told apart. -/
  | whole (action : Action W κ)
  | machine (work : κ)
  | deferred (prepare : W → W) (create : W → Tracked W κ)
  /-- What a deferred action made. -/
  | made (inner : Tracked W κ)
  /-- So many joined actions; those that are not finished, with their indices. -/
  | joined (joint : Joint) (size : Nat) (children : List (Nat × Tracked W κ))
  | speak (delivery : Delivery)
  | speaking (delivery : Delivery) (talking : Bool) (bubble : κ)
  | prompt (question : Question) (branches : List (Tracked W κ))
  | choosing (question : Question) (slot : Slot) (bubble : κ) (branches : List (Tracked W κ))
  /-- The branch of that index. -/
  | following (index : Nat) (branch : Tracked W κ)

namespace Tracked

variable {W κ : Type}

/-- Induction over tracked actions. -/
@[elab_as_elim]
theorem induction {motive : Tracked W κ → Prop} (whole : ∀ action, motive (.whole action))
    (machine : ∀ work, motive (.machine work))
    (deferred : ∀ prepare create, (∀ w, motive (create w)) → motive (.deferred prepare create))
    (made : ∀ inner, motive inner → motive (.made inner))
    (joined : ∀ joint size children, (∀ c ∈ children, motive c.2) →
      motive (.joined joint size children))
    (speak : ∀ d, motive (.speak d))
    (speaking : ∀ d talking bubble, motive (.speaking d talking bubble))
    (prompt : ∀ q branches, (∀ b ∈ branches, motive b) → motive (.prompt q branches))
    (choosing : ∀ q slot bubble branches, (∀ b ∈ branches, motive b) →
      motive (.choosing q slot bubble branches))
    (following : ∀ index branch, motive branch → motive (.following index branch))
    (t : Tracked W κ) : motive t := by
  refine @Tracked.rec W κ motive (fun children => ∀ c ∈ children, motive c.2)
    (fun branches => ∀ b ∈ branches, motive b) (fun c => motive c.2) whole machine deferred made
    joined speak speaking prompt choosing following ?_ ?_ ?_ ?_ ?_ t
  · simp
  · intro c rest hc hrest
    exact List.forall_mem_cons.mpr ⟨hc, hrest⟩
  · simp
  · intro b rest hb hrest
    exact List.forall_mem_cons.mpr ⟨hb, hrest⟩
  · exact fun index c hc => hc

mutual

/-- The action that is tracked. -/
def action : Tracked W κ → Action W κ
  | whole action => action
  | machine work => .machine work
  | deferred prepare create => .deferred prepare fun w => (create w).action
  | made inner => inner.action
  | joined joint _ children => joint.join (actionsOfChildren children)
  | speak d => .speak d
  | speaking d talking bubble => .speaking d talking bubble
  | prompt q branches => .prompt q (actionsOf branches)
  | choosing q slot bubble branches => .choosing q slot bubble (actionsOf branches)
  | following _ branch => .following branch.action

/-- The actions of children with their indices. -/
def actionsOfChildren : List (Nat × Tracked W κ) → List (Action W κ)
  | [] => []
  | (_, child) :: rest => child.action :: actionsOfChildren rest

/-- The actions of branches. -/
def actionsOf : List (Tracked W κ) → List (Action W κ)
  | [] => []
  | branch :: rest => branch.action :: actionsOf rest

end

mutual

/-- Every node of an action, with its address. -/
def ofAction : Action W κ → Tracked W κ
  | .deferred prepare create => .deferred prepare fun w => ofAction (create w)
  | .sequence children => .joined .sequence children.length (ofChildren 0 children)
  | .parallel children => .joined .parallel children.length (ofChildren 0 children)
  | .speak d => .speak d
  | .speaking d talking bubble => .speaking d talking bubble
  | .prompt q branches => .prompt q (ofBranches branches)
  | .choosing q slot bubble branches => .choosing q slot bubble (ofBranches branches)
  | .following branch => .following 0 (ofAction branch)
  | .machine work => .machine work
  | .wait timer => .whole (.wait timer)
  | .waitUntil condition => .whole (.waitUntil condition)
  | .effect perform => .whole (.effect perform)
  | .finished => .whole .finished

/-- Children with their indices, counted from the given one. -/
def ofChildren : Nat → List (Action W κ) → List (Nat × Tracked W κ)
  | _, [] => []
  | index, child :: rest => (index, ofAction child) :: ofChildren (index + 1) rest

/-- The branches of a choice. -/
def ofBranches : List (Action W κ) → List (Tracked W κ)
  | [] => []
  | branch :: rest => ofAction branch :: ofBranches rest

end

mutual

theorem action_ofAction : (a : Action W κ) → (ofAction a).action = a
  | .deferred prepare create => by
    rw [ofAction, action]
    exact congrArg (Action.deferred prepare) (funext fun w => action_ofAction (create w))
  | .sequence children => by rw [ofAction, action, actions_ofChildren, Joint.join]
  | .parallel children => by rw [ofAction, action, actions_ofChildren, Joint.join]
  | .speak _ | .speaking _ _ _ => by rw [ofAction, action]
  | .prompt _ branches => by rw [ofAction, action, actions_ofBranches]
  | .choosing _ _ _ branches => by rw [ofAction, action, actions_ofBranches]
  | .following branch => by rw [ofAction, action, action_ofAction]
  | .machine _ | .wait _ | .waitUntil _ | .effect _ | .finished => by rw [ofAction, action]

theorem actions_ofChildren : (index : Nat) → (children : List (Action W κ)) →
    actionsOfChildren (ofChildren index children) = children
  | _, [] => rfl
  | index, child :: rest => by
    rw [ofChildren, actionsOfChildren, action_ofAction, actions_ofChildren]

theorem actions_ofBranches : (branches : List (Action W κ)) →
    actionsOf (ofBranches branches) = branches
  | [] => rfl
  | branch :: rest => by rw [ofBranches, actionsOf, action_ofAction, actions_ofBranches]

end

section Frames

variable (host : Host W κ) (frame : Frame)

/-- A frame of the bubble of the node at an address. -/
def stepBubble (bubble : κ) (p : Address) (w : W) : Report κ W :=
  Report.visit (.bubble :: p) ⟨host.step bubble frame w, []⟩

/-- A frame inside an open line.  When the bubble is finished the talking parameter is taken back. -/
def insideLine (d : Delivery) (talking : Bool) (bubble : κ) (p : Address) (w : W) :
    Report (Tracked W κ) W :=
  let r := stepBubble host frame bubble p w
  match r.step.outcome with
  | .ok .done =>
    ⟨⟨.ok .done, .whole .finished,
      if talking then
        host.setParameter d.speaker.actor d.talkingParameter false
          (host.record (.talking d.speaker d.talkingParameter false) r.step.world)
      else r.step.world⟩, r.log⟩
  | outcome => ⟨⟨outcome, .speaking d talking r.step.next, r.step.world⟩, r.log⟩

/-- What a chosen branch comes to in a frame. -/
def settle (index : Nat) (s : Step (Tracked W κ) W) : Step (Tracked W κ) W :=
  ⟨s.outcome, if s.outcome = .ok .done then .whole .finished else .following index s.next, s.world⟩

/-- A frame inside an open choice; `follow` advances the branch of an index. -/
def insideChoice (q : Question) (slot : Slot) (bubble : κ) (branches : List (Tracked W κ))
    (follow : Nat → W → Option (Report (Tracked W κ) W)) (p : Address) (w : W) :
    Report (Tracked W κ) W :=
  let r := stepBubble host frame bubble p w
  match r.step.outcome with
  | .ok .done =>
    match host.selected r.step.world slot with
    | none =>
      ⟨⟨.error (.failed .noSelection), .choosing q slot r.step.next branches, r.step.world⟩, r.log⟩
    | some index =>
      let w := host.record (.chose q.asker (q.labels.getD index "")) r.step.world
      match follow index w with
      | none =>
        ⟨⟨.error (.failed (.invalidSelection index branches.length)),
          .choosing q slot r.step.next [], w⟩, r.log⟩
      | some branch => ⟨settle index branch.step, r.log ++ branch.log⟩
  | outcome => ⟨⟨outcome, .choosing q slot r.step.next branches, r.step.world⟩, r.log⟩

mutual

/-- A frame inside the node at an address. -/
def inside : Tracked W κ → Address → W → Report (Tracked W κ) W
  | whole action, _, w => ⟨(action.advance host frame w).mapNext .whole, []⟩
  | machine work, _, w => ⟨(host.step work frame w).mapNext .machine, []⟩
  | deferred prepare create, p, w =>
    let r := ((create w).inside (.made :: p) (prepare w)).visit (.made :: p)
    ⟨r.step.mapNext .made, .created p :: r.log⟩
  | made inner, p, w => ((inner.inside (.made :: p) w).visit (.made :: p)).mapNext .made
  | joined joint size children, p, w =>
    (insideChildren joint children p w).mapNext (.joined joint size)
  | speak d, p, w =>
    let (talking, bubble, w) := Action.openLine host d w
    insideLine host frame d talking bubble p w
  | speaking d talking bubble, p, w => insideLine host frame d talking bubble p w
  | prompt q branches, p, w =>
    let (slot, bubble, w) := Action.openChoices host q w
    insideChoice host frame q slot bubble branches
      (fun index => insideNth branches index (.branch index :: p)) p w
  | choosing q slot bubble branches, p, w =>
    insideChoice host frame q slot bubble branches
      (fun index => insideNth branches index (.branch index :: p)) p w
  | following index branch, p, w =>
    let r := (branch.inside (.branch index :: p) w).visit (.branch index :: p)
    ⟨settle index r.step, r.log⟩

/-- A frame of the children of the node at an address. -/
def insideChildren (joint : Joint) :
    List (Nat × Tracked W κ) → Address → W → Report (List (Nat × Tracked W κ)) W
  | [], _, w => ⟨⟨.ok .done, [], w⟩, []⟩
  | (index, child) :: rest, p, w =>
    let r := (child.inside (.child joint index :: p) w).visit (.child joint index :: p)
    match joint, r.step.outcome with
    | joint, .ok .done =>
      let t := insideChildren joint rest p r.step.world
      ⟨t.step, r.log ++ t.log⟩
    | .parallel, .ok .running =>
      let t := insideChildren .parallel rest p r.step.world
      ⟨⟨t.step.outcome.map fun _ => .running, (index, r.step.next) :: t.step.next, t.step.world⟩,
        r.log ++ t.log⟩
    | _, outcome => ⟨⟨outcome, (index, r.step.next) :: rest, r.step.world⟩, r.log⟩

/-- A frame of the branch of an index, if there is one, with its address. -/
def insideNth : List (Tracked W κ) → Nat → Address → W → Option (Report (Tracked W κ) W)
  | [], _, _, _ => none
  | branch :: _, 0, p, w => some ((branch.inside p w).visit p)
  | _ :: rest, n + 1, p, w => insideNth rest n p w

end

/-- A frame of the node at an address. -/
def advance (t : Tracked W κ) (p : Address) (w : W) : Report (Tracked W κ) W :=
  (t.inside host frame p w).visit p

end Frames

section Equations

variable {host : Host W κ} {frame : Frame}

theorem inside_deferred (prepare : W → W) (create : W → Tracked W κ) (p : Address) (w : W) :
    (deferred prepare create).inside host frame p w =
      ⟨((create w).advance host frame (.made :: p) (prepare w)).step.mapNext .made,
        .created p :: ((create w).advance host frame (.made :: p) (prepare w)).log⟩ := by
  rw [inside]
  rfl

theorem inside_made (inner : Tracked W κ) (p : Address) (w : W) :
    (made inner).inside host frame p w =
      (inner.advance host frame (.made :: p) w).mapNext .made := by
  rw [inside]
  rfl

theorem inside_following (index : Nat) (branch : Tracked W κ) (p : Address) (w : W) :
    (following index branch).inside host frame p w =
      ⟨settle index (branch.advance host frame (.branch index :: p) w).step,
        (branch.advance host frame (.branch index :: p) w).log⟩ := by
  rw [inside]
  rfl

/-! ## Children -/

section Children

variable {joint : Joint} {index : Nat} {child : Tracked W κ} {rest : List (Nat × Tracked W κ)}
  {p : Address} {w : W}

theorem insideChildren_of_done
    (h : (child.advance host frame (.child joint index :: p) w).step.outcome = .ok .done) :
    insideChildren host frame joint ((index, child) :: rest) p w =
      let r := child.advance host frame (.child joint index :: p) w
      let t := insideChildren host frame joint rest p r.step.world
      ⟨t.step, r.log ++ t.log⟩ := by
  rw [insideChildren]
  · rfl
  · exact h

theorem insideChildren_of_running
    (h : (child.advance host frame (.child .parallel index :: p) w).step.outcome = .ok .running) :
    insideChildren host frame .parallel ((index, child) :: rest) p w =
      let r := child.advance host frame (.child .parallel index :: p) w
      let t := insideChildren host frame .parallel rest p r.step.world
      ⟨⟨t.step.outcome.map fun _ => .running, (index, r.step.next) :: t.step.next, t.step.world⟩,
        r.log ++ t.log⟩ := by
  rw [insideChildren.eq_def]
  dsimp only
  split
  · next hdone => exact absurd (h.symm.trans hdone) (by simp)
  · rfl
  · next hne => exact absurd h (hne rfl)

/-- The other children are not reached. -/
theorem insideChildren_of_ne
    (h : (child.advance host frame (.child joint index :: p) w).step.outcome ≠ .ok .done)
    (hjoint : joint = .parallel →
      (child.advance host frame (.child joint index :: p) w).step.outcome ≠ .ok .running) :
    insideChildren host frame joint ((index, child) :: rest) p w =
      let r := child.advance host frame (.child joint index :: p) w
      ⟨⟨r.step.outcome, (index, r.step.next) :: rest, r.step.world⟩, r.log⟩ := by
  rw [insideChildren.eq_def]
  dsimp only
  split
  · next hdone => exact absurd hdone h
  · next hrunning => exact absurd hrunning (hjoint rfl)
  · rfl

end Children

/-! ## Branches -/

theorem insideNth_eq (branches : List (Tracked W κ)) (n : Nat) (p : Address) (w : W) :
    insideNth host frame branches n p w =
      branches[n]?.map fun branch => branch.advance host frame p w := by
  induction branches generalizing n with
  | nil => simp [insideNth]
  | cons branch rest ih =>
    cases n with
    | zero => simp [insideNth, advance]
    | succ n => simp [insideNth, ih]

/-! ## Tracking changes nothing -/

end Equations

/-! ## Frame after frame -/

/-- The reports of an action that is advanced by one frame after the other. -/
def advances (host : Host W κ) : List Frame → Tracked W κ → W → List (Report (Tracked W κ) W)
  | [], _, _ => []
  | frame :: frames, t, w =>
    let r := t.advance host frame [] w
    r :: advances host frames r.step.next r.step.world

end Tracked

end Promptbook
