import Promptbook.Proofs.Action.Joining

set_option autoImplicit false

/-!
# Nested combinators

However the children of a sequence are grouped into sequences of sequences, what happens is what
happens in the one sequence of all of them; and so it is for parallel actions.  A `Nesting` is such
a grouping.  What a frame leaves of it is again a nesting, and its children are what the same frame
leaves of the flat list: `Nesting.alike_action` says so of one frame and `advances_nested_eq_flat`
of all.
-/

namespace Promptbook

/-! ## Groupings -/

/-- A grouping of children, to any depth and with empty groups anywhere. -/
inductive Nesting (α : Type) where
  | child (a : α)
  | group (members : List (Nesting α))

namespace Nesting

/-- Induction over groupings; a group comes with the property of all its members. -/
@[elab_as_elim]
theorem induction {α : Type} {motive : Nesting α → Prop} (child : ∀ a, motive (.child a))
    (group : ∀ members, (∀ m ∈ members, motive m) → motive (.group members)) (n : Nesting α) :
    motive n := by
  refine @Nesting.rec α motive (fun members => ∀ m ∈ members, motive m) child group ?_ ?_ n
  · simp
  · intro m rest hm hrest
    simpa using ⟨hm, hrest⟩

section Children

variable {α β : Type}

mutual

/-- The children from left to right. -/
def children : Nesting α → List α
  | child a => [a]
  | group members => childrenOf members

/-- The children of all members from left to right. -/
def childrenOf : List (Nesting α) → List α
  | [] => []
  | m :: rest => m.children ++ childrenOf rest

end

mutual

/-- The same grouping of other children. -/
def map (f : α → β) : Nesting α → Nesting β
  | child a => child (f a)
  | group members => group (mapAll f members)

/-- The same groupings of other children. -/
def mapAll (f : α → β) : List (Nesting α) → List (Nesting β)
  | [] => []
  | m :: rest => m.map f :: mapAll f rest

end

theorem childrenOf_eq_flatMap (members : List (Nesting α)) :
    childrenOf members = members.flatMap children := by
  induction members with
  | nil => rfl
  | cons m rest ih => rw [childrenOf, ih, List.flatMap_cons]

theorem children_map (f : α → β) (n : Nesting α) : (n.map f).children = n.children.map f := by
  induction n using Nesting.induction with
  | child a => rfl
  | group members ih =>
    rw [map, children, children]
    induction members with
    | nil => rfl
    | cons m rest hrest =>
      rw [mapAll, childrenOf, childrenOf, List.map_append, ih m (by simp),
        hrest fun n hn => ih n (List.mem_cons_of_mem _ hn)]

/-- Pairs from the left, beginning with nothing. -/
def pairs (as : List α) : Nesting α :=
  as.foldl (fun sofar a => group [sofar, child a]) (group [])

theorem children_pairs (as : List α) : (pairs as).children = as := by
  have hfold : ∀ sofar : Nesting α,
      (as.foldl (fun sofar a => group [sofar, child a]) sofar).children = sofar.children ++ as := by
    induction as with
    | nil => simp
    | cons a rest ih => simp [ih, children, childrenOf]
  exact hfold (group [])

theorem exists_pairs_eq_group (as : List α) : ∃ members, pairs as = group members := by
  rcases List.eq_nil_or_concat as with rfl | ⟨init, a, rfl⟩
  · exact ⟨[], rfl⟩
  · refine ⟨[pairs init, child a], ?_⟩
    rw [pairs, List.concat_eq_append, List.foldl_append]
    rfl

end Children

section Actions

variable {W κ : Type} (joint : Joint)

mutual

/-- The action of a grouping: a node for every group. -/
def action : Nesting (Action W κ) → Action W κ
  | child a => a
  | group members => joint.join (actionsOf members)

/-- The actions of the members of a group. -/
def actionsOf : List (Nesting (Action W κ)) → List (Action W κ)
  | [] => []
  | m :: rest => m.action :: actionsOf rest

end

theorem actionsOf_eq_flatMap (members : List (Nesting (Action W κ))) :
    actionsOf joint members = members.flatMap fun m => [m.action joint] := by
  induction members with
  | nil => rfl
  | cons m rest ih => rw [actionsOf, ih, List.flatMap_cons, List.singleton_append]

/-- Pairs from the left are what a fold makes of actions. -/
theorem action_pairs (actions : List (Action W κ)) :
    (pairs actions).action joint = actions.foldl joint.pair (joint.join []) := by
  have hfold : ∀ sofar : Nesting (Action W κ),
      (actions.foldl (fun sofar a => group [sofar, child a]) sofar).action joint =
        actions.foldl joint.pair (sofar.action joint) := by
    induction actions with
    | nil => simp
    | cons a rest ih =>
      intro sofar
      rw [List.foldl_cons, List.foldl_cons, ih, Joint.pair_eq_join]
      rfl
  exact hfold (group [])

end Actions

/-! ## Nestings as their children -/

section Flat

variable {W κ : Type} (joint : Joint)

/-- A member of a group as a node and as its children. -/
def likeness : Likeness (Nesting (Action W κ)) W W κ κ :=
  ⟨fun n => [n.action joint], children, id⟩

variable {joint} {host : Host W κ} {frame : Frame}

theorem left_child (a : Action W κ) : (likeness joint).left (child a) = [a] := rfl

theorem left_group (members : List (Nesting (Action W κ))) :
    (likeness joint).left (group members) =
      [joint.join (members.flatMap (likeness joint).left)] :=
  congrArg (fun children => [joint.join children]) (actionsOf_eq_flatMap joint members)

theorem right_group (members : List (Nesting (Action W κ))) :
    (likeness joint).right (group members) = members.flatMap (likeness joint).right :=
  childrenOf_eq_flatMap members

/-- What a frame leaves of a group is a group of what it leaves of the members. -/
theorem alike_group {s t : Step (List (Action W κ)) W} (h : (likeness joint).Alike s t)
    (hdone : t.outcome = .ok .done → t.next = []) :
    (likeness joint).Alike (s.mapNext joint.join).solo t := by
  obtain ⟨members, hs, rfl⟩ := h
  by_cases ho : s.outcome = .ok .done
  · have hnone : members.flatMap (likeness joint).right = [] := hdone ho
    rw [Step.solo_of_done (s := s.mapNext joint.join) ho, hnone, ho]
    exact ⟨[], rfl, rfl⟩
  · rw [Step.solo_of_ne (s := s.mapNext joint.join) ho]
    refine ⟨[group members], ?_, ?_⟩
    · rw [Step.next_mapNext, hs, List.flatMap_singleton, left_group]
    · rw [List.flatMap_singleton, right_group]
      rfl

/-- A frame of a nested action is a frame of its children. -/
theorem alike_action (n : Nesting (Action W κ)) (w : W) :
    (likeness joint).Alike (joint.step host frame ((likeness joint).left n) w)
      (joint.step host frame ((likeness joint).right n) w) := by
  induction n using Nesting.induction generalizing w with
  | child a =>
    rw [left_child, Joint.step_singleton]
    change (likeness joint).Alike _ (joint.step host frame [a] w)
    rw [Joint.step_singleton]
    by_cases h : (Action.advance host frame a w).outcome = .ok .done
    · rw [Step.solo_of_done h]
      exact ⟨[], rfl, rfl⟩
    · rw [Step.solo_of_ne h]
      exact ⟨[child (Action.advance host frame a w).next], rfl, rfl⟩
  | group members ih =>
    rw [left_group, right_group, Joint.step_singleton, Joint.advance_join]
    exact alike_group (Likeness.alike_step ih w) Joint.next_step

/-- Frame after frame, what can be seen of a group is what can be seen of its children. -/
theorem observations_group (frames : List Frame) (members : List (Nesting (Action W κ))) (w : W) :
    Action.observations host frames ((group members).action joint) w =
      Action.observations host frames (joint.join (group members).children) w := by
  have halike (frame : Frame) (n : Nesting (Action W κ)) (w : W) :
      (likeness joint).Alike (joint.step host frame ((likeness joint).left n) w)
        (joint.step host frame ((likeness joint).right n) w) := alike_action n w
  have hsame := Likeness.observations_alike halike frames members w
  rw [action, children, actionsOf_eq_flatMap, childrenOf_eq_flatMap]
  simpa [likeness] using hsame

/-- Pairs from the left come to the same as all at once. -/
theorem observations_foldl_pair (frames : List Frame) (actions : List (Action W κ)) (w : W) :
    Action.observations host frames (actions.foldl joint.pair (joint.join [])) w =
      Action.observations host frames (joint.join actions) w := by
  obtain ⟨members, hmembers⟩ := exists_pairs_eq_group actions
  rw [← action_pairs, hmembers, observations_group, ← hmembers, children_pairs]

end Flat

end Nesting

/-! ## Watching the children -/

/-- However children are grouped, the same happens in every frame, be it after the end or after an
error: the outcome and the world are those of the flat list, and the same children are advanced in
the same order. -/
theorem advances_nested_eq_flat {ι W κ : Type} (host : Host W κ) (joint : Joint)
    (members : List (Nesting (ι × Action W κ))) (frames : List Frame) (w : W) :
    let nest := Nesting.group members
    let name (c : ι × Action W κ) := Action.named c.1 c.2
    let watched := Action.observations host.attended frames
      (joint.join (nest.children.map name)) ⟨w, []⟩
    let plain := Action.observations host frames (joint.join (nest.children.map (·.2))) w
    Action.observations host.attended frames ((nest.map name).action joint) ⟨w, []⟩ = watched ∧
    Action.observations host frames ((nest.map (·.2)).action joint) w = plain ∧
    watched.map (fun o => (o.1, o.2.world)) = plain := by
  dsimp only
  refine ⟨?_, ?_, observations_named host joint frames _ _⟩
  · rw [← Nesting.children_map]
    exact Nesting.observations_group frames _ _
  · rw [← Nesting.children_map]
    exact Nesting.observations_group frames _ _

end Promptbook
