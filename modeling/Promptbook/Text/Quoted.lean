import Promptbook.Text.Printable

set_option autoImplicit false

/-!
# Quoted text

A text between double quotes in which everything can be seen.  Quotes, backslashes and the common
control characters are escaped by a letter; a character that cannot be printed, or that would be drawn
onto the one before it, is written as its number.
-/

namespace Promptbook.Text

/-- The escape of a character by its number. -/
def numberEscape (c : Char) : List Char :=
  ['\\', 'u', '\x7b'] ++ Nat.toDigits 16 c.toNat ++ ['\x7d']

/-- A character as it is written between quotes. -/
def quotedChar : Char → List Char
  | '\x00' => ['\\', '0']
  | '\t' => ['\\', 't']
  | '\r' => ['\\', 'r']
  | '\n' => ['\\', 'n']
  | '\\' => ['\\', '\\']
  | '"' => ['\\', '"']
  | c => if isExtending c || !isPrintable c then numberEscape c else [c]

/-- A text between quotes. -/
def quoted (s : String) : String :=
  String.ofList ('"' :: s.toList.flatMap quotedChar ++ ['"'])

end Promptbook.Text
