import Mathlib.Data.List.Infix
import Promptbook.Proofs.Script.Tree

set_option autoImplicit false

/-!
# Printing scripts

The lines that a script is written as.  A statement takes one line, except for a choice, which takes
its header, for each branch the label and the lines of its statements indented by one more space,
and a terminator.

`Statement.Writable` is what has to hold of the names and texts in a statement for its lines to be
unambiguous, and `Statement.StandsOn` says that a stage finds what they name.  `placedFrom` and
`noticesFrom` are the origins that printed statements have and the warnings they deserve.
-/

namespace Promptbook

/-- The stage finds that actor by its name. -/
def Stage.Knows (stage : Stage) (actor : ActorRef) : Prop :=
  stage.findActor actor.name = some actor.actor

/-- A stage on which every name stands for something and no parameter is declared. -/
def Stage.bare : Stage :=
  ⟨fun name => some ⟨name.length⟩, fun _ _ => true, fun _ _ => false, fun _ => some ⟨0⟩⟩

namespace Script

/-! ## Lines -/

/-- A cue as it is written. -/
def Cue.written (cue : Cue) : List Char :=
  cue.performer.name.toList ++ [':', ' '] ++ cue.animation.toList

/-- The target of an assignment as it is written. -/
def StoreTarget.written : StoreTarget → String
  | contextVariable name _ => name
  | parameter owner name => owner.name ++ "." ++ name

/-- The beginning of a line that stores a value. -/
def storeHead : Bool → String
  | true => "[True] -> "
  | false => "[False] -> "

/-- The line one level further in. -/
def indent (text : String) : String := " " ++ text

mutual

/-- The lines of a statement. -/
def Statement.lines : Statement → List String
  | .dialogue speech => [speech.speaker.name ++ ": " ++ speech.text]
  | .animation cues => [String.ofList ('!' :: Text.joined [',', ' '] (cues.map Cue.written))]
  | .store assignment => [storeHead assignment.value ++ assignment.target.written]
  | .choice asker branches _ =>
      ("?" ++ asker.name) :: (linesOfBranches branches ++ [terminator])

/-- The lines of a script. -/
def linesOf : List Statement → List String
  | [] => []
  | s :: rest => s.lines ++ linesOf rest

/-- The lines of the branches of a choice. -/
def linesOfBranches : List (String × List Statement) → List String
  | [] => []
  | (label, script) :: rest =>
      label :: ((linesOf script).map indent ++ linesOfBranches rest)

end

/-- The text of a script: its lines with line feeds between them. -/
def written (script : List Statement) : String :=
  String.ofList (Text.joined ['\n'] ((linesOf script).map String.toList))

theorem linesOf_eq_flatMap (script : List Statement) :
    linesOf script = script.flatMap Statement.lines := by
  induction script with
  | nil => rfl
  | cons s rest ih => rw [linesOf, ih, List.flatMap_cons]

theorem linesOfBranches_eq_flatMap (branches : List (String × List Statement)) :
    linesOfBranches branches = branches.flatMap fun b => b.1 :: (linesOf b.2).map indent := by
  induction branches with
  | nil => rfl
  | cons b rest ih => rw [linesOfBranches, ih, List.flatMap_cons, List.cons_append]

/-! ## Parts -/

mutual

/-- A statement and all statements in its branches. -/
def Statement.parts : Statement → List Statement
  | .dialogue speech => [.dialogue speech]
  | .animation cues => [.animation cues]
  | .store assignment => [.store assignment]
  | .choice asker branches origin => .choice asker branches origin :: partsOfBranches branches

/-- All statements of a script, those in branches included. -/
def partsOf : List Statement → List Statement
  | [] => []
  | s :: rest => s.parts ++ partsOf rest

/-- All statements in the branches of a choice. -/
def partsOfBranches : List (String × List Statement) → List Statement
  | [] => []
  | (_, script) :: rest => partsOf script ++ partsOfBranches rest

end

theorem mem_partsOf {t : Statement} {script : List Statement} :
    t ∈ partsOf script ↔ ∃ s ∈ script, t ∈ s.parts := by
  induction script with
  | nil => simp [partsOf]
  | cons s rest ih => simp [partsOf, ih]

theorem mem_partsOfBranches {t : Statement} {branches : List (String × List Statement)} :
    t ∈ partsOfBranches branches ↔ ∃ b ∈ branches, t ∈ partsOf b.2 := by
  induction branches with
  | nil => simp [partsOfBranches]
  | cons b rest ih => simp [partsOfBranches, ih]

theorem partsOf_append (first second : List Statement) :
    partsOf (first ++ second) = partsOf first ++ partsOf second := by
  induction first with
  | nil => rfl
  | cons s rest ih => rw [List.cons_append, partsOf, partsOf, ih, List.append_assoc]

/-- A statement is a part of itself. -/
theorem Statement.self_mem_parts (s : Statement) : s ∈ s.parts := by
  cases s <;> simp [parts]

/-- What holds of all parts of a choice holds of all parts of its branches. -/
theorem Statement.forall_parts_branch {p : Statement → Prop} {asker : ActorRef}
    {branches : List (String × List Statement)} {origin : Origin}
    (h : ∀ t ∈ (choice asker branches origin).parts, p t) {b : String × List Statement}
    (hb : b ∈ branches) {s : Statement} (hs : s ∈ b.2) : ∀ t ∈ s.parts, p t := by
  intro t ht
  apply h
  rw [parts]
  exact List.mem_cons_of_mem _
    (mem_partsOfBranches.mpr ⟨b, hb, mem_partsOf.mpr ⟨s, hs, ht⟩⟩)

/-- So it holds of everything in its branches. -/
theorem Statement.forall_partsOf_branch {p : Statement → Prop} {asker : ActorRef}
    {branches : List (String × List Statement)} {origin : Origin}
    (h : ∀ t ∈ (choice asker branches origin).parts, p t) :
    ∀ b ∈ branches, ∀ t ∈ partsOf b.2, p t := by
  intro b hb t ht
  obtain ⟨s, hs, ht⟩ := mem_partsOf.mp ht
  exact forall_parts_branch h hb hs t ht

/-! ## What can be written -/

/-- A string that stays on one line. -/
def OneLine (s : String) : Prop := '\n' ∉ s.toList ∧ '\r' ∉ s.toList

instance (s : String) : Decidable (OneLine s) := inferInstanceAs (Decidable (_ ∧ _))

/-- Names and texts of a cue that can be told apart again. -/
def Cue.Writable (cue : Cue) : Prop :=
  OneLine cue.performer.name ∧ OneLine cue.animation ∧
    ¬ [':', ' '] <:+: cue.performer.name.toList ∧ ¬ [',', ' '] <:+: cue.performer.name.toList ∧
    ¬ [',', ' '] <:+: cue.animation.toList ∧
    (∀ c ∈ cue.animation.toList.head?, Text.isBlank c = false) ∧
    ∀ c ∈ cue.animation.toList.getLast?, Text.isBlank c = false

/-- Names of a target that can be told apart again. -/
def StoreTarget.Writable : StoreTarget → Prop
  | contextVariable name _ => OneLine name ∧ '.' ∉ name.toList
  | parameter owner name =>
      OneLine owner.name ∧ '.' ∉ owner.name.toList ∧ OneLine name ∧ '.' ∉ name.toList

/-- A label that is not taken for anything else. -/
def IsLabel (label : String) : Prop :=
  OneLine label ∧ label ≠ "" ∧ label.toList.head? ≠ some ' ' ∧ label ≠ terminator

/-- What has to hold of a statement, apart from those in its branches, so that it can be read again
from its lines. -/
def Statement.Writable : Statement → Prop
  | dialogue speech =>
      OneLine speech.speaker.name ∧ OneLine speech.text ∧
        ¬ [':', ' '] <:+: speech.speaker.name.toList ∧
        speech.speaker.name.toList.head? ∉ [some '!', some '?', some '[']
  | animation cues => cues ≠ [] ∧ ∀ cue ∈ cues, cue.Writable
  | store assignment => assignment.target.Writable
  | choice asker branches _ =>
      OneLine asker.name ∧ branches ≠ [] ∧ (labelsOf branches).Nodup ∧
        ∀ b ∈ branches, IsLabel b.1 ∧ b.2 ≠ []

/-- Everything that a statement names, apart from those in its branches, is what the stage finds. -/
def Statement.StandsOn (stage : Stage) : Statement → Prop
  | dialogue speech => stage.Knows speech.speaker
  | animation cues =>
      ∀ cue ∈ cues, stage.Knows cue.performer ∧
        stage.hasAnimation cue.performer.actor cue.animation = true
  | store ⟨.contextVariable name id, _⟩ => stage.findVariable name = some id
  | store ⟨.parameter owner _, _⟩ => stage.Knows owner
  | choice asker _ _ => stage.Knows asker

instance (stage : Stage) (actor : ActorRef) : Decidable (stage.Knows actor) :=
  inferInstanceAs (Decidable (_ = _))

instance (cue : Cue) : Decidable cue.Writable :=
  -- a property of an optional character is decided by looking at it, not at all characters
  have : Decidable (∀ c ∈ cue.animation.toList.head?, Text.isBlank c = false) :=
    Option.decidableForallMem _
  have : Decidable (∀ c ∈ cue.animation.toList.getLast?, Text.isBlank c = false) :=
    Option.decidableForallMem _
  inferInstanceAs (Decidable (_ ∧ _))

instance : (target : StoreTarget) → Decidable target.Writable
  | .contextVariable _ _ => inferInstanceAs (Decidable (_ ∧ _))
  | .parameter _ _ => inferInstanceAs (Decidable (_ ∧ _))

instance (label : String) : Decidable (IsLabel label) := inferInstanceAs (Decidable (_ ∧ _))

instance : (s : Statement) → Decidable s.Writable
  | .dialogue _ => inferInstanceAs (Decidable (_ ∧ _))
  | .animation _ => inferInstanceAs (Decidable (_ ∧ _))
  | .store assignment => inferInstanceAs (Decidable assignment.target.Writable)
  | .choice _ _ _ => inferInstanceAs (Decidable (_ ∧ _))

instance (stage : Stage) : (s : Statement) → Decidable (s.StandsOn stage)
  | .dialogue speech => inferInstanceAs (Decidable (stage.Knows speech.speaker))
  | .animation cues => inferInstanceAs (Decidable (∀ cue ∈ cues, _ ∧ _))
  | .store ⟨.contextVariable _ _, _⟩ => inferInstanceAs (Decidable (_ = _))
  | .store ⟨.parameter owner _, _⟩ => inferInstanceAs (Decidable (stage.Knows owner))
  | .choice asker _ _ => inferInstanceAs (Decidable (stage.Knows asker))

/-! ## What is read of printed lines -/

mutual

/-- The statement with the origins of its lines, of which the first has that index. -/
def Statement.placed (n : Nat) : Statement → Statement
  | .dialogue speech => .dialogue { speech with origin := .ofIndex n }
  | .animation cues => .animation cues
  | .store assignment => .store assignment
  | .choice asker branches _ => .choice asker (placedBranches (n + 1) branches) (.ofIndex n)

/-- The statements with the origins of their lines. -/
def placedFrom (n : Nat) : List Statement → List Statement
  | [] => []
  | s :: rest => s.placed n :: placedFrom (n + s.lines.length) rest

/-- The branches with the origins of their lines. -/
def placedBranches (n : Nat) : List (String × List Statement) → List (String × List Statement)
  | [] => []
  | (label, script) :: rest =>
      (label, placedFrom (n + 1) script) ::
        placedBranches (n + 1 + (linesOf script).length) rest

end

/-- The warning that a target deserves: a parameter that is not declared. -/
def StoreTarget.notices (stage : Stage) (n : Nat) : StoreTarget → List Notice
  | contextVariable _ _ => []
  | parameter owner name =>
      if stage.hasParameter owner.actor name then []
      else [⟨.unknownParameter owner.name name, .ofIndex n⟩]

mutual

/-- The warnings that a statement deserves when the first of its lines has that index. -/
def Statement.notices (stage : Stage) (n : Nat) : Statement → List Notice
  | .dialogue _ => []
  | .animation _ => []
  | .store assignment => assignment.target.notices stage n
  | .choice _ branches _ => noticesFromBranches stage (n + 1) branches

/-- The warnings that statements deserve. -/
def noticesFrom (stage : Stage) (n : Nat) : List Statement → List Notice
  | [] => []
  | s :: rest => s.notices stage n ++ noticesFrom stage (n + s.lines.length) rest

/-- The warnings that the branches of a choice deserve. -/
def noticesFromBranches (stage : Stage) (n : Nat) : List (String × List Statement) → List Notice
  | [] => []
  | (_, script) :: rest =>
      noticesFrom stage (n + 1) script ++
        noticesFromBranches stage (n + 1 + (linesOf script).length) rest

end

end Script

end Promptbook
