set_option autoImplicit false

/-!
# Blank characters

The characters with the Unicode property `White_Space`, and trimming a text of them at both ends.
-/

namespace Promptbook.Text

/-- Whether a character has the Unicode property `White_Space`. -/
def isBlank (c : Char) : Bool :=
  let n := c.toNat
  (0x09 ≤ n && n ≤ 0x0D) || n == 0x20 || n == 0x85 || n == 0xA0 || n == 0x1680 ||
    (0x2000 ≤ n && n ≤ 0x200A) || n == 0x2028 || n == 0x2029 || n == 0x202F || n == 0x205F ||
    n == 0x3000

/-- Every character that core calls white space is blank. -/
theorem isBlank_of_isWhitespace {c : Char} (h : c.isWhitespace = true) : isBlank c = true := by
  simp only [Char.isWhitespace, Bool.or_eq_true, decide_eq_true_eq] at h
  rcases h with ((h | h) | h) | h <;> subst h <;> decide

/-- The text without the blank characters at its beginning and end. -/
def trimmed (s : List Char) : List Char :=
  ((s.dropWhile isBlank).reverse.dropWhile isBlank).reverse

/-- A text that neither begins nor ends with a blank character is left as it is. -/
theorem trimmed_eq_self {s : List Char} (hfirst : ∀ c ∈ s.head?, isBlank c = false)
    (hlast : ∀ c ∈ s.getLast?, isBlank c = false) : trimmed s = s := by
  have hkeep : ∀ t : List Char, (∀ c ∈ t.head?, isBlank c = false) → t.dropWhile isBlank = t := by
    intro t ht
    cases t with
    | nil => rfl
    | cons c cs => simp [ht c (by simp)]
  rw [trimmed, hkeep s hfirst, hkeep s.reverse (by simpa using hlast), List.reverse_reverse]

/-- Trimming leaves a part of the text. -/
theorem trimmed_infix (s : List Char) : trimmed s <:+: s := by
  have hbegin : trimmed s <+: s.dropWhile isBlank := by
    rw [← List.reverse_suffix, trimmed, List.reverse_reverse]
    exact List.dropWhile_suffix _
  exact hbegin.isInfix.trans (List.dropWhile_suffix _).isInfix

end Promptbook.Text
