import Promptbook.Script.Outline
import Promptbook.Script.Statement
import Promptbook.Script.Warning
import Promptbook.Text.Blank

set_option autoImplicit false

/-!
# Reading scripts

A script is read in two steps: its outline, then the statements, whose names are looked up on a
stage.  A broken statement does not stop the reading: the errors of all statements are collected in
their order, and a script with any error is rejected as a whole.  The warnings that were found on
the way are kept in either case.

`readSections_eq_map` and `readBranches_eq_map` say that the parts of a script are read one by one.
-/

namespace Promptbook.Script

/-! ## What reading gives -/

/-- The warnings found while reading, and what was read or why it is broken. -/
structure Reading (α : Type) where
  notices : List Notice
  result : Except (List LineError) α

namespace Reading

variable {α β : Type}

/-- The errors of a reading; none if it succeeded. -/
def errors (r : Reading α) : List LineError :=
  match r.result with
  | .ok _ => []
  | .error es => es

/-- What was read, if nothing was broken. -/
def value? (r : Reading α) : Option α :=
  match r.result with
  | .ok a => some a
  | .error _ => none

/-- A reading without warnings that gives one error or a value. -/
def ofExcept (r : Except LineError α) : Reading α :=
  ⟨[], match r with
    | .ok a => .ok a
    | .error e => .error [e]⟩

/-- Change what was read. -/
def map (f : α → β) (r : Reading α) : Reading β :=
  ⟨r.notices, match r.result with
    | .ok a => .ok (f a)
    | .error es => .error es⟩

/-- The results of all readings, or the errors of all; the warnings of all in either case. -/
def collect (rs : List (Reading α)) : Reading (List α) :=
  ⟨rs.flatMap notices,
    if (rs.flatMap errors).isEmpty then .ok (rs.filterMap value?)
    else .error (rs.flatMap errors)⟩

end Reading

/-! ## Single lines -/

/-- The text after a marker. -/
def withoutMarker (marker : Char) : List Char → List Char
  | [] => []
  | c :: cs => if c = marker then cs else c :: cs

/-- The actor of that name, looked up for a line. -/
def findActor (stage : Stage) (l : ScriptLine) (name : List Char) : Except LineError ActorRef :=
  let name := String.ofList name
  match stage.findActor name with
  | some actor => .ok ⟨name, actor⟩
  | none => .error (l.error (.unknownActor name))

/-- A line of dialogue: an actor, then a text that is kept exactly as it is written. -/
def readSpeech (stage : Stage) (l : ScriptLine) : Except LineError Speech :=
  match Text.cutAt [':', ' '] l.text.toList with
  | none => .error (l.error (.malformedLine dialogueForm))
  | some (name, text) =>
    (findActor stage l name).map fun speaker => ⟨speaker, String.ofList text, l.origin⟩

/-- One piece of an animation line: an actor and one of its animations. -/
def readCue (stage : Stage) (l : ScriptLine) (piece : List Char) : Except LineError Cue :=
  match Text.cutAt [':', ' '] piece with
  | none => .error (l.error (.malformedLine cueForm))
  | some (name, rest) =>
    match findActor stage l name with
    | .error e => .error e
    | .ok performer =>
      let animation := String.ofList (Text.trimmed rest)
      if stage.hasAnimation performer.actor animation then .ok ⟨performer, animation⟩
      else .error (l.error (.unknownAnimation performer.name animation))

/-- The pieces of an animation line. -/
def cuePieces (l : ScriptLine) : List (List Char) :=
  Text.pieces [',', ' '] (withoutMarker '!' l.text.toList)

/-- An animation line: one cue for each piece. -/
def readCues (stage : Stage) (l : ScriptLine) : Reading (List Cue) :=
  Reading.collect ((cuePieces l).map fun piece => .ofExcept (readCue stage l piece))

/-- What stands between the brackets, if the text is bracketed. -/
def bracketed? : List Char → Option (List Char)
  | '[' :: cs => if cs.getLast? = some ']' then some cs.dropLast else none
  | _ => none

/-- The value that a line stores. -/
def readValue (l : ScriptLine) (written : List Char) : Except LineError Bool :=
  match bracketed? written with
  | none => .error (l.error (.malformedLine storeForm))
  | some literal =>
    if literal = ['T', 'r', 'u', 'e'] then .ok true
    else if literal = ['F', 'a', 'l', 's', 'e'] then .ok false
    else .error (l.error (.invalidLiteral (String.ofList literal)))

/-- The target that a line stores into: a variable, or a parameter of an actor.  A parameter that
the actor does not declare is only warned of. -/
def readTarget (stage : Stage) (l : ScriptLine) (written : List Char) : Reading StoreTarget :=
  match Text.pieces ['.'] written with
  | [name] =>
    let name := String.ofList name
    match stage.findVariable name with
    | some id => ⟨[], .ok (.contextVariable name id)⟩
    | none => ⟨[], .error [l.error (.unknownVariable name)]⟩
  | [owner, parameter] =>
    match findActor stage l owner with
    | .error e => ⟨[], .error [e]⟩
    | .ok owner =>
      let parameter := String.ofList parameter
      ⟨if stage.hasParameter owner.actor parameter then []
        else [⟨.unknownParameter owner.name parameter, l.origin⟩],
        .ok (.parameter owner parameter)⟩
  | _ => ⟨[], .error [l.error (.invalidTarget (String.ofList written))]⟩

/-- A line that stores a value; the value is checked before the target. -/
def readAssignment (stage : Stage) (l : ScriptLine) : Reading Assignment :=
  match Text.cutAt [' ', '-', '>', ' '] l.text.toList with
  | none => ⟨[], .error [l.error (.malformedLine storeForm)]⟩
  | some (written, target) =>
    match readValue l written with
    | .error e => ⟨[], .error [e]⟩
    | .ok value => (readTarget stage l target).map fun target => ⟨target, value⟩

/-- The actor above which a choice is put. -/
def readAsker (stage : Stage) (header : ScriptLine) : Except LineError ActorRef :=
  findActor stage header (withoutMarker '?' header.text.toList)

/-- A statement of a single line. -/
def readLine (stage : Stage) (l : ScriptLine) : Reading Statement :=
  match l.kind with
  | .animation => (readCues stage l).map .animation
  | .store => (readAssignment stage l).map .store
  | _ => (Reading.ofExcept (readSpeech stage l)).map .dialogue

/-! ## Blocks -/

/-- The error of a block that cannot be cut into branches. -/
def flawError (header : ScriptLine) : BlockFlaw → LineError
  | .unclosed => header.error .missingTerminator
  | .empty => header.error .noBranches
  | .misplaced l => l.error .misplacedContent

/-- A block that cannot be cut into branches; its actor is looked up all the same. -/
def readFlawed (stage : Stage) (header : ScriptLine) (flaw : BlockFlaw) : Reading Statement :=
  ⟨[], .error (match readAsker stage header with
    | .ok _ => [flawError header flaw]
    | .error e => [e, flawError header flaw])⟩

/-- A choice from its header and its branches as they were read. -/
def readChoice (stage : Stage) (header : ScriptLine) (repeats : List ScriptLine)
    (branches : List (Reading (String × List Statement))) : Reading Statement :=
  let content := Reading.collect branches
  ⟨(repeats.map fun l => ⟨.duplicateBranch l.text, l.origin⟩) ++ content.notices,
    match readAsker stage header, content.result with
    | .ok asker, .ok branches => .ok (.choice asker branches header.origin)
    | .ok _, .error es => .error es
    | .error e, _ => .error (e :: content.errors)⟩

/-- A branch from its label and the statements of its content as they were read. -/
def readBranch (label : ScriptLine) (content : List (Reading Statement)) :
    Reading (String × List Statement) :=
  if content.isEmpty then ⟨[], .error [label.error (.emptyBranch label.text)]⟩
  else (Reading.collect content).map fun script => (label.text, script)

mutual

/-- A statement from its section. -/
def readSection (stage : Stage) : Section → Reading Statement
  | .line l => readLine stage l
  | .flawed header flaw => readFlawed stage header flaw
  | .choice header repeats branches =>
    readChoice stage header repeats (readBranches stage branches)

/-- The statements of a list of sections. -/
def readSections (stage : Stage) : List Section → List (Reading Statement)
  | [] => []
  | s :: rest => readSection stage s :: readSections stage rest

/-- The branches of a choice. -/
def readBranches (stage : Stage) :
    List (ScriptLine × List Section) → List (Reading (String × List Statement))
  | [] => []
  | (label, content) :: rest =>
    readBranch label (readSections stage content) :: readBranches stage rest

end

theorem readSections_eq_map (stage : Stage) (sections : List Section) :
    readSections stage sections = sections.map (readSection stage) := by
  induction sections with
  | nil => rfl
  | cons s rest ih => rw [readSections, ih, List.map_cons]

theorem readBranches_eq_map (stage : Stage) (branches : List (ScriptLine × List Section)) :
    readBranches stage branches =
      branches.map fun b => readBranch b.1 (readSections stage b.2) := by
  induction branches with
  | nil => rfl
  | cons b rest ih => rw [readBranches, ih, List.map_cons]

/-! ## Scripts -/

/-- The script of a list of lines. -/
def readLines (stage : Stage) (lines : List ScriptLine) : Reading (List Statement) :=
  Reading.collect (readSections stage (outline lines))

/-- The script of a text, every name in it looked up on the stage. -/
def readScript (stage : Stage) (content : String) : Reading (List Statement) :=
  readLines stage (scriptLines (withoutReturns content))

/-- The warnings of a valid script, or everything that is wrong with it. -/
def validate (stage : Stage) (content : String) : Except ParseError WarningLog :=
  let reading := readScript stage content
  match reading.result with
  | .ok _ => .ok reading.notices
  | .error es => .error ⟨es⟩

end Promptbook.Script
