import Promptbook.Bubble.Transcript
import Promptbook.Data.Json
import Promptbook.Script.Kind
import Promptbook.Script.Warning
import Promptbook.Settings
import Promptbook.Text.Hex

set_option autoImplicit false

/-!
# Writing values as JSON

Structures are objects of their fields, alternatives are objects whose only member names the
alternative, or its name alone if it has no fields.  A number in single precision is written as its
bits, so that it is exact; one that is not finite is null.
-/

namespace Promptbook.Data

/-- A number in single precision. -/
def ofSingle (x : Float32) : Json :=
  if x.isFinite then .ofMembers [("f32", .ofText (Text.singleBits x))] else .null

/-- A duration as whole seconds and the nanoseconds beyond them. -/
def ofDuration (d : Duration) : Json :=
  .ofMembers [("nanos", .ofNat d.subsecond), ("secs", .ofNat d.seconds)]

/-- A position. -/
def ofPosition (p : Position) : Json := .ofMembers [("x", ofSingle p.x), ("y", ofSingle p.y)]

/-- Settings. -/
def ofSettings (s : Settings) : Json :=
  .ofMembers [("bubble_height", ofSingle s.bubbleHeight), ("open_delay", ofDuration s.openDelay),
    ("reveal_delay", ofDuration s.revealDelay), ("talking_parameter", .ofText s.talkingParameter)]

/-- The index of a line. -/
def ofOrigin (o : Script.Origin) : Json := .ofMembers [("line_index", .ofNat o.lineIndex.toNat)]

/-- The name of a kind of statement. -/
def kindName : Script.StatementKind → String
  | .dialogue => "Dialogue"
  | .animation => "Animation"
  | .choice => "Choice"
  | .store => "StoreVariable"

/-- A kind of statement. -/
def ofKind (k : Script.StatementKind) : Json := .ofText (kindName k)

/-- A warning. -/
def ofWarning : Script.Warning → Json
  | .unknownParameter actor parameter =>
    .ofMembers [("UnknownParameter",
      .ofMembers [("actor", .ofText actor), ("parameter", .ofText parameter)])]
  | .duplicateBranch label =>
    .ofMembers [("DuplicateBranch", .ofMembers [("label", .ofText label)])]

/-- A notice. -/
def ofNotice (n : Script.Notice) : Json :=
  .ofMembers [("meta_data", ofOrigin n.origin), ("warning", ofWarning n.warning)]

/-- An entry of a transcript. -/
def ofEntry : Bubble.Entry → Json
  | .line text position =>
    .ofMembers [("Line", .ofMembers [("position", ofPosition position), ("text", .ofText text)])]
  | .choice labels selected position =>
    .ofMembers [("Choice", .ofMembers [("labels", .array (labels.map .ofText)),
      ("position", ofPosition position), ("selected", .ofNat selected)])]

/-- The entries of a transcript. -/
def ofEntries (es : List Bubble.Entry) : Json := .array (es.map ofEntry)

end Promptbook.Data
