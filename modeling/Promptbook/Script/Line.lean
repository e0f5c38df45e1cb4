import Promptbook.Text.Split

set_option autoImplicit false

/-!
# Script lines

A script is text that is read line by line.  Lines end at a line feed; carriage returns are removed
from a whole script before it is cut.  Every line keeps the index it has in the text, counted from
zero with empty lines included, and empty lines themselves are dropped.
-/

namespace Promptbook.Script

/-- Where in a script something comes from: the index of its line, counted from zero. -/
structure Origin where
  lineIndex : UInt32
  deriving DecidableEq, Inhabited

namespace Origin

/-- The origin at that line of a text; indices are kept to 32 bits. -/
def ofIndex (n : Nat) : Origin := ⟨UInt32.ofNat n⟩

/-- The text of an origin, which counts lines from one. -/
def describe (o : Origin) : String := "line " ++ Nat.repr (o.lineIndex.toNat + 1)

end Origin

/-- A line of a script together with where it stands. -/
structure ScriptLine where
  text : String
  origin : Origin
  deriving DecidableEq, Inhabited

namespace ScriptLine

/-- The first character of a line. -/
def first? (l : ScriptLine) : Option Char := l.text.toList.head?

/-- Whether a line belongs to the branch above it: it begins with a space. -/
def isIndented (l : ScriptLine) : Bool := l.first? == some ' '

/-- The line without its first character, at the same place. -/
def outdented (l : ScriptLine) : ScriptLine := ⟨String.ofList l.text.toList.tail, l.origin⟩

/-- Whether nothing is written on a line. -/
def isEmpty (l : ScriptLine) : Bool := l.text.toList.isEmpty

end ScriptLine

/-- The text without its carriage returns. -/
def withoutReturns (content : String) : String :=
  String.ofList (content.toList.filter (· ≠ '\r'))

/-- Every line of a text, empty ones included, without its line feed. -/
def rawLines (content : String) : List String :=
  (Text.pieces ['\n'] content.toList).map String.ofList

/-- Lines numbered from `start`, without the empty ones. -/
def numbered (start : Nat) : List String → List ScriptLine
  | [] => []
  | t :: ts =>
    if t.toList.isEmpty then numbered (start + 1) ts
    else ⟨t, Origin.ofIndex start⟩ :: numbered (start + 1) ts

/-- The non-empty lines of a text, each with its index in the text. -/
def scriptLines (content : String) : List ScriptLine := numbered 0 (rawLines content)

theorem numbered_append (start : Nat) (ts us : List String) :
    numbered start (ts ++ us) = numbered start ts ++ numbered (start + ts.length) us := by
  induction ts generalizing start with
  | nil => simp [numbered]
  | cons t ts ih =>
    have hlen : start + (ts.length + 1) = start + 1 + ts.length := by omega
    simp only [List.cons_append, numbered, List.length_cons, hlen]
    split <;> simp [ih]

/-- No line of a script is empty. -/
theorem isEmpty_of_mem_numbered {start : Nat} {ts : List String} {l : ScriptLine}
    (h : l ∈ numbered start ts) : l.isEmpty = false := by
  induction ts generalizing start with
  | nil => simp [numbered] at h
  | cons t ts ih =>
    rw [numbered] at h
    split at h
    · exact ih h
    · next ht =>
      rcases List.mem_cons.1 h with rfl | h
      · simpa [ScriptLine.isEmpty] using ht
      · exact ih h

end Promptbook.Script
