import Promptbook.Text.Hex

set_option autoImplicit false

/-!
# JSON documents

The values of the JSON format, a reader that follows its grammar exactly, and a printer.

Two things are kept as they were written, because what reads them later decides whether they are
acceptable: a number is a `Numeral`, its digits and sign, and a string is a list of `StringItem`s,
in which an escape may name half of a surrogate pair.  `Json.text?` is the text of a string, if its
surrogates come in pairs.
-/

namespace Promptbook.Data

/-! ## Values -/

/-- A number as it is written: no fraction digits means that there was no point. -/
structure Numeral where
  negative : Bool := false
  whole : List Nat
  fraction : List Nat := []
  exponent : Option (Bool × List Nat) := none
  deriving DecidableEq, Inhabited

/-- One character of a string as it is written: itself, or the code unit of a `\u` escape. -/
inductive StringItem where
  | char (c : Char)
  | unit (code : Nat)
  deriving DecidableEq, Inhabited

/-- A JSON value; an object keeps its members in order, repeated names included. -/
inductive Json where
  | null
  | bool (value : Bool)
  | number (numeral : Numeral)
  | string (items : List StringItem)
  | array (elements : List Json)
  | object (members : List (List StringItem × Json))
  deriving Inhabited

/-- The characters that a string stands for; none if half of a surrogate pair stands alone. -/
def assemble : List StringItem → Option (List Char)
  | [] => some []
  | .char c :: rest => (assemble rest).map (c :: ·)
  | .unit high :: .unit low :: rest =>
    if 0xD800 ≤ high && high < 0xDC00 then
      if 0xDC00 ≤ low && low < 0xE000 then
        (assemble rest).map
          (Char.ofNat (0x10000 + (high - 0xD800) * 0x400 + (low - 0xDC00)) :: ·)
      else none
    else if 0xDC00 ≤ high && high < 0xE000 then none
    else (assemble (.unit low :: rest)).map (Char.ofNat high :: ·)
  | .unit code :: rest =>
    if 0xD800 ≤ code && code < 0xE000 then none
    else (assemble rest).map (Char.ofNat code :: ·)

/-- The text of the items of a string. -/
def textOf? (items : List StringItem) : Option String := (assemble items).map String.ofList

/-- The items of a text, which need no escape. -/
def itemsOf (s : String) : List StringItem := s.toList.map .char

theorem assemble_map_char (cs : List Char) : assemble (cs.map .char) = some cs := by
  induction cs with
  | nil => rfl
  | cons c cs ih => simp [assemble, ih]

/-- A text survives being made a string. -/
@[simp]
theorem textOf?_itemsOf (s : String) : textOf? (itemsOf s) = some s := by
  simp [textOf?, itemsOf, assemble_map_char]

namespace Json

/-- The text of a string value. -/
def text? : Json → Option String
  | .string items => textOf? items
  | _ => none

/-- A text as a value. -/
def ofText (s : String) : Json := .string (itemsOf s)

/-- The decimal digits of a number, most significant first. -/
def digitsOf (n : Nat) : List Nat := (Nat.toDigits 10 n).map fun c => c.toNat - 48

/-- A natural number as a value. -/
def ofNat (n : Nat) : Json := .number { whole := digitsOf n }

/-- An object from its members. -/
def ofMembers (members : List (String × Json)) : Json :=
  .object (members.map fun (name, value) => (itemsOf name, value))

/-- The first member of that name. -/
def member? (name : String) : Json → Option Json
  | .object members => (members.find? fun m => textOf? m.1 == some name).map (·.2)
  | _ => none

end Json

/-! ## Reading -/

namespace Reader

/-- Drop the white space of the grammar: space, line feed, carriage return and tab. -/
def skipSpace (s : List Char) : List Char :=
  s.dropWhile fun c => c == ' ' || c == '\n' || c == '\r' || c == '\t'

/-- The value of a decimal digit. -/
def digitOf (c : Char) : Nat := c.toNat - 48

/-- The longest run of digits and what follows it. -/
def digits (s : List Char) : List Nat × List Char :=
  ((s.takeWhile Char.isDigit).map digitOf, s.dropWhile Char.isDigit)

/-- The digits after a point, at least one; none written when there is no point. -/
def fraction : List Char → Option (List Nat × List Char)
  | '.' :: s =>
    match digits s with
    | ([], _) => none
    | found => some found
  | s => some ([], s)

/-- The sign and digits of an exponent, at least one digit. -/
def exponentDigits (negative : Bool) (s : List Char) :
    Option (Option (Bool × List Nat) × List Char) :=
  match digits s with
  | ([], _) => none
  | (ds, rest) => some (some (negative, ds), rest)

/-- An exponent, if one is written. -/
def exponent : List Char → Option (Option (Bool × List Nat) × List Char)
  | c :: s =>
    if c == 'e' || c == 'E' then
      match s with
      | '+' :: t => exponentDigits false t
      | '-' :: t => exponentDigits true t
      | t => exponentDigits false t
    else some (none, c :: s)
  | [] => some (none, [])

/-- The digits before the point: a zero, or digits that do not begin with one. -/
def whole (s : List Char) : Option (List Nat × List Char) :=
  match digits s with
  | ([], _) => none
  | (0 :: _ :: _, _) => none
  | found => some found

/-- A number. -/
def numeral (s : List Char) : Option (Numeral × List Char) :=
  let (negative, s) := match s with
    | '-' :: t => (true, t)
    | t => (false, t)
  (whole s).bind fun (w, s) =>
    (fraction s).bind fun (f, s) =>
      (exponent s).map fun (e, s) => (⟨negative, w, f, e⟩, s)

/-- The value of a hexadecimal digit. -/
def hexDigit? (c : Char) : Option Nat :=
  if c.isDigit then some (c.toNat - 48)
  else if 'a' ≤ c && c ≤ 'f' then some (c.toNat - 87)
  else if 'A' ≤ c && c ≤ 'F' then some (c.toNat - 55)
  else none

/-- The code unit of four hexadecimal digits. -/
def hexUnit? (a b c d : Char) : Option Nat :=
  match hexDigit? a, hexDigit? b, hexDigit? c, hexDigit? d with
  | some a, some b, some c, some d => some (((a * 16 + b) * 16 + c) * 16 + d)
  | _, _, _, _ => none

/-- What a one-letter escape stands for. -/
def escape? : Char → Option Char
  | '"' => some '"'
  | '\\' => some '\\'
  | '/' => some '/'
  | 'b' => some '\x08'
  | 'f' => some '\x0c'
  | 'n' => some '\n'
  | 'r' => some '\r'
  | 't' => some '\t'
  | _ => none

/-- The items of a string up to its closing quote, and what follows the quote. -/
def stringItems : List Char → Option (List StringItem × List Char)
  | [] => none
  | '"' :: rest => some ([], rest)
  | '\\' :: 'u' :: a :: b :: c :: d :: rest =>
    match hexUnit? a b c d with
    | some code => (stringItems rest).map fun (items, s) => (.unit code :: items, s)
    | none => none
  | '\\' :: e :: rest =>
    match escape? e with
    | some c => (stringItems rest).map fun (items, s) => (.char c :: items, s)
    | none => none
  | c :: rest =>
    if c.toNat < 0x20 || c == '\\' then none
    else (stringItems rest).map fun (items, s) => (.char c :: items, s)

mutual

/-- A value, within that many nested steps. -/
def value : Nat → List Char → Option (Json × List Char)
  | 0, _ => none
  | depth + 1, s =>
    match skipSpace s with
    | 'n' :: 'u' :: 'l' :: 'l' :: rest => some (.null, rest)
    | 't' :: 'r' :: 'u' :: 'e' :: rest => some (.bool true, rest)
    | 'f' :: 'a' :: 'l' :: 's' :: 'e' :: rest => some (.bool false, rest)
    | '"' :: rest => (stringItems rest).map fun (items, s) => (.string items, s)
    | '[' :: rest =>
      match skipSpace rest with
      | ']' :: rest => some (.array [], rest)
      | rest => (elements depth rest).map fun (es, s) => (.array es, s)
    | '{' :: rest =>
      match skipSpace rest with
      | '}' :: rest => some (.object [], rest)
      | rest => (members depth rest).map fun (ms, s) => (.object ms, s)
    | rest => (numeral rest).map fun (n, s) => (.number n, s)

/-- The elements of an array, at least one, up to its closing bracket. -/
def elements : Nat → List Char → Option (List Json × List Char)
  | 0, _ => none
  | depth + 1, s =>
    (value depth s).bind fun (e, s) =>
      match skipSpace s with
      | ',' :: rest => (elements depth rest).map fun (es, s) => (e :: es, s)
      | ']' :: rest => some ([e], rest)
      | _ => none

/-- The members of an object, at least one, up to its closing brace. -/
def members : Nat → List Char → Option (List (List StringItem × Json) × List Char)
  | 0, _ => none
  | depth + 1, s =>
    match skipSpace s with
    | '"' :: rest =>
      (stringItems rest).bind fun (name, s) =>
        match skipSpace s with
        | ':' :: rest =>
          (value depth rest).bind fun (v, s) =>
            match skipSpace s with
            | ',' :: rest => (members depth rest).map fun (ms, s) => ((name, v) :: ms, s)
            | '}' :: rest => some ([(name, v)], rest)
            | _ => none
        | _ => none
    | _ => none

end

end Reader

namespace Json

/-- The value of a document: one value with nothing but white space around it. -/
def parse? (document : String) : Option Json :=
  let s := document.toList
  match Reader.value (2 * s.length + 2) s with
  | some (v, rest) => if (Reader.skipSpace rest).isEmpty then some v else none
  | none => none

/-! ## Printing -/

/-- The `\u` escape of a code unit. -/
def escapeUnit (n : Nat) : List Char := '\\' :: 'u' :: Text.hexDigits 4 n

/-- One item inside the quotes. -/
def renderItem : StringItem → List Char
  | .unit code => escapeUnit code
  | .char '"' => ['\\', '"']
  | .char '\\' => ['\\', '\\']
  | .char c => if c.toNat < 0x20 then escapeUnit c.toNat else [c]

/-- A string with its quotes. -/
def renderString (items : List StringItem) : String :=
  String.ofList ('"' :: items.flatMap renderItem ++ ['"'])

/-- A run of digits. -/
def renderDigits (ds : List Nat) : String := String.ofList (ds.map fun d => Char.ofNat (48 + d))

/-- A number. -/
def renderNumeral (n : Numeral) : String :=
  (if n.negative then "-" else "") ++ renderDigits n.whole ++
    (if n.fraction.isEmpty then "" else "." ++ renderDigits n.fraction) ++
    match n.exponent with
    | none => ""
    | some (negative, ds) => (if negative then "e-" else "e") ++ renderDigits ds

mutual

/-- A value as compact text. -/
def render : Json → String
  | .null => "null"
  | .bool true => "true"
  | .bool false => "false"
  | .number n => renderNumeral n
  | .string items => renderString items
  | .array [] => "[]"
  | .array (e :: es) => "[" ++ render e ++ renderElements es ++ "]"
  | .object [] => "\x7b\x7d"
  | .object ((name, v) :: ms) =>
    "\x7b" ++ renderString name ++ ":" ++ render v ++ renderMembers ms ++ "\x7d"

/-- The elements after the first. -/
def renderElements : List Json → String
  | [] => ""
  | e :: es => "," ++ render e ++ renderElements es

/-- The members after the first. -/
def renderMembers : List (List StringItem × Json) → String
  | [] => ""
  | (name, v) :: ms => "," ++ renderString name ++ ":" ++ render v ++ renderMembers ms

end

end Json

end Promptbook.Data
