import Promptbook.Data.Encode
import Promptbook.Data.Number

set_option autoImplicit false

/-!
# Reading values from JSON

A structure is read from an object of its fields or from an array of them in their order.  A field
may be given once only; other members of an object are ignored, and elements beyond the fields are
refused.  Settings take what is not given from the standard settings; all other fields are needed.
-/

namespace Promptbook.Data

/-! ## Parts -/

/-- A text. -/
def toText? : Json → Option String := Json.text?

/-- A number in single precision, for which an integer is good as well. -/
def toSingle? : Json → Option Float32
  | .number n => n.single?
  | _ => none

/-- An integer that is not negative and at most `largest`. -/
def toNatural? (largest : Nat) : Json → Option Nat
  | .number n => n.natural?.filter (· ≤ largest)
  | _ => none

/-- Every element of a list, if all can be read. -/
def toList? {α : Type} (read : Json → Option α) : Json → Option (List α)
  | .array es => es.mapM read
  | _ => none

/-- The texts of the names in an object. -/
def named? : List (List StringItem × Json) → Option (List (String × Json))
  | [] => some []
  | (name, value) :: rest =>
    match textOf? name, named? rest with
    | some name, some rest => some ((name, value) :: rest)
    | _, _ => none

/-- The value of a field among members: none if it is missing, no answer if it is repeated. -/
def field? (members : List (String × Json)) (name : String) : Option (Option Json) :=
  match members.filter fun m => m.1 == name with
  | [] => some none
  | [m] => some (some m.2)
  | _ => none

/-- The values of the fields of a structure, in their order. -/
def fields? (names : List String) : Json → Option (List (Option Json))
  | .object members => (named? members).bind fun members => names.mapM (field? members)
  | .array es =>
    if es.length ≤ names.length then
      some (es.map some ++ List.replicate (names.length - es.length) none)
    else none
  | _ => none

/-- A field that is needed. -/
def required {α : Type} (read : Json → Option α) (value : Option Json) : Option α :=
  value.bind read

/-- A field that may be missing. -/
def optional {α : Type} (otherwise : α) (read : Json → Option α) : Option Json → Option α
  | none => some otherwise
  | some value => read value

/-- The name and the content of an alternative. -/
def alternative? : Json → Option (String × Json)
  | .object [(name, content)] => (textOf? name).map fun name => (name, content)
  | _ => none

/-! ## Values -/

/-- A duration.  Other members are refused; nanoseconds carry over into seconds. -/
def toDuration? (j : Json) : Option Duration :=
  let known := match j with
    | .object members =>
      members.all fun m => textOf? m.1 == some "secs" || textOf? m.1 == some "nanos"
    | _ => true
  if known then
    match fields? ["secs", "nanos"] j with
    | some [secs, nanos] =>
      match required (toNatural? Numeral.largest) secs, required (toNatural? 4294967295) nanos with
      | some secs, some nanos => Duration.ofNanos? (secs * nanosPerSecond + nanos)
      | _, _ => none
    | _ => none
  else none

/-- A position. -/
def toPosition? (j : Json) : Option Position :=
  match fields? ["x", "y"] j with
  | some [x, y] =>
    match required toSingle? x, required toSingle? y with
    | some x, some y => some ⟨x, y⟩
    | _, _ => none
  | _ => none

/-- Settings. -/
def toSettings? (j : Json) : Option Settings :=
  match fields? ["talking_parameter", "bubble_height", "open_delay", "reveal_delay"] j with
  | some [talking, height, opening, reveal] =>
    let d := Settings.standard
    match optional d.talkingParameter toText? talking, optional d.bubbleHeight toSingle? height,
      optional d.openDelay toDuration? opening, optional d.revealDelay toDuration? reveal with
    | some talking, some height, some opening, some reveal =>
      some ⟨talking, height, opening, reveal⟩
    | _, _, _, _ => none
  | _ => none

/-- The index of a line. -/
def toOrigin? (j : Json) : Option Script.Origin :=
  match fields? ["line_index"] j with
  | some [index] => (required (toNatural? 4294967295) index).map Script.Origin.ofIndex
  | _ => none

/-- The kind of that name. -/
def kindNamed? (name : String) : Option Script.StatementKind :=
  [.dialogue, .animation, .choice, .store].find? fun k => kindName k == name

/-- A kind of statement. -/
def toKind? : Json → Option Script.StatementKind
  | .string items => (textOf? items).bind kindNamed?
  | j =>
    match alternative? j with
    | some (name, .null) => kindNamed? name
    | _ => none

/-- A warning. -/
def toWarning? (j : Json) : Option Script.Warning :=
  match alternative? j with
  | some ("UnknownParameter", content) =>
    match fields? ["actor", "parameter"] content with
    | some [actor, parameter] =>
      match required toText? actor, required toText? parameter with
      | some actor, some parameter => some (.unknownParameter actor parameter)
      | _, _ => none
    | _ => none
  | some ("DuplicateBranch", content) =>
    match fields? ["label"] content with
    | some [label] => (required toText? label).map .duplicateBranch
    | _ => none
  | _ => none

/-- A notice. -/
def toNotice? (j : Json) : Option Script.Notice :=
  match fields? ["warning", "meta_data"] j with
  | some [warning, origin] =>
    match required toWarning? warning, required toOrigin? origin with
    | some warning, some origin => some ⟨warning, origin⟩
    | _, _ => none
  | _ => none

/-- An entry of a transcript. -/
def toEntry? (j : Json) : Option Bubble.Entry :=
  match alternative? j with
  | some ("Line", content) =>
    match fields? ["text", "position"] content with
    | some [text, position] =>
      match required toText? text, required toPosition? position with
      | some text, some position => some (.line text position)
      | _, _ => none
    | _ => none
  | some ("Choice", content) =>
    match fields? ["labels", "selected", "position"] content with
    | some [labels, selected, position] =>
      match required (toList? toText?) labels, required (toNatural? Numeral.largest) selected,
        required toPosition? position with
      | some labels, some selected, some position => some (.choice labels selected position)
      | _, _, _ => none
    | _ => none
  | _ => none

/-- The entries of a transcript. -/
def toEntries? : Json → Option (List Bubble.Entry) := toList? toEntry?

end Promptbook.Data
