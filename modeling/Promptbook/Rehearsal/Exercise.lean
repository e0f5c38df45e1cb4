import Promptbook.Rehearsal.Puppet

set_option autoImplicit false

/-!
# Exercises

Trees of actions that only remark on what happens to them, for rehearsing how actions combine.
-/

namespace Promptbook.Rehearsal

/-- What a frame has to bring for a condition to hold. -/
inductive Condition where
  | submit
  | next
  | previous
  /-- The frame is at least that long. -/
  | delta (atLeast : Duration)
  | never
  deriving DecidableEq, Inhabited

/-- Whether a frame brings it. -/
def Condition.holds : Condition → Frame → Bool
  | submit, f => f.input.submit
  | next, f => f.input.next
  | previous, f => f.input.previous
  | delta d, f => decide (d ≤ f.delta)
  | never, _ => false

/-- A tree of actions. -/
inductive Exercise where
  | part (part : Part)
  | wait (duration : Duration)
  | waitUntil (name : String) (condition : Condition)
  | effect (name : String)
  | deferred (name : String) (child : Exercise)
  | sequence (children : List Exercise)
  | parallel (children : List Exercise)
  /-- Pairs of actions, one after the other, from the left and beginning with nothing. -/
  | sequencePairs (children : List Exercise)
  /-- Pairs of actions at the same time, from the left and beginning with nothing. -/
  | parallelPairs (children : List Exercise)
  deriving Inhabited

namespace Exercise

variable {A B κ : Type}

/-- Pairs from the left, beginning with a sequence of nothing. -/
def foldSequence (actions : List (Action (World A B) κ)) : Action (World A B) κ :=
  actions.foldl Action.andThen (.sequence [])

/-- Pairs from the left, beginning with nothing in parallel. -/
def foldParallel (actions : List (Action (World A B) κ)) : Action (World A B) κ :=
  actions.foldl Action.alongside (.parallel [])

mutual

/-- The action of an exercise; `take` hands a part over to whoever works on it. -/
def action (take : Part → κ) : Exercise → Action (World A B) κ
  | .part p => .machine (take p)
  | .wait d => .pause d
  | .waitUntil name condition =>
    .waitUntil fun frame w => (condition.holds frame, w.remark ["check " ++ name])
  | .effect name => .effect fun w => w.remark ["effect " ++ name]
  | .deferred name child =>
    let made := action take child
    .deferred (fun w => w.remark ["create " ++ name]) (fun _ => made)
  | .sequence children => .sequence (actions take children)
  | .parallel children => .parallel (actions take children)
  | .sequencePairs children => foldSequence (actions take children)
  | .parallelPairs children => foldParallel (actions take children)

/-- The actions of exercises. -/
def actions (take : Part → κ) : List Exercise → List (Action (World A B) κ)
  | [] => []
  | e :: rest => action take e :: actions take rest

end

end Exercise

end Promptbook.Rehearsal
