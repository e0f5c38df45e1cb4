set_option autoImplicit false

/-!
# Cutting text at separators

Text is cut over its list of characters.  `cutAt` cuts once, at the first occurrence of a separator;
`pieces` cuts at every occurrence, from left to right and without overlap; `joined` puts pieces
together again.  The laws say that no character is lost: a cut gives the text back with the
separator in between, and joining the pieces gives the text back.
-/

namespace Promptbook.Text

/-! ## One cut -/

/-- The text before and after the first occurrence of `separator`, if it occurs. -/
def cutAt (separator : List Char) : List Char → Option (List Char × List Char)
  | [] => if separator.isPrefixOf [] then some ([], []) else none
  | c :: cs =>
    if separator.isPrefixOf (c :: cs) then some ([], (c :: cs).drop separator.length)
    else (cutAt separator cs).map fun (before, after) => (c :: before, after)

/-- A cut loses nothing but the separator. -/
theorem append_of_cutAt {separator s before after : List Char}
    (h : cutAt separator s = some (before, after)) : before ++ separator ++ after = s := by
  induction s generalizing before after with
  | nil =>
    cases separator with
    | nil =>
      simp [cutAt] at h
      simp [h]
    | cons x xs => simp [cutAt] at h
  | cons c cs ih =>
    rw [cutAt] at h
    split at h
    · next hp =>
      obtain ⟨t, ht⟩ := List.isPrefixOf_iff_prefix.1 hp
      simp only [Option.some.injEq, Prod.mk.injEq] at h
      obtain ⟨rfl, rfl⟩ := h
      simp [← ht]
    · obtain ⟨⟨b, a⟩, hc, he⟩ := Option.map_eq_some_iff.1 h
      simp only [Prod.mk.injEq] at he
      obtain ⟨rfl, rfl⟩ := he
      simpa using ih hc

/-! ## All cuts -/

/-- Put a character in front of the first piece. -/
def consFirst (c : Char) : List (List Char) → List (List Char)
  | [] => [[c]]
  | p :: ps => (c :: p) :: ps

/-- The pieces that follow, when the next `skip` characters still belong to a separator. -/
def piecesAfter (separator : List Char) : Nat → List Char → List (List Char)
  | _, [] => [[]]
  | skip + 1, _ :: cs => piecesAfter separator skip cs
  | 0, c :: cs =>
    if separator.isPrefixOf (c :: cs) then
      [] :: piecesAfter separator (separator.length - 1) cs
    else consFirst c (piecesAfter separator 0 cs)

/-- The pieces between the occurrences of `separator`; a text without one is a single piece. -/
def pieces (separator s : List Char) : List (List Char) := piecesAfter separator 0 s

/-- The pieces put together with `separator` between them. -/
def joined (separator : List Char) : List (List Char) → List Char
  | [] => []
  | [p] => p
  | p :: q :: ps => p ++ separator ++ joined separator (q :: ps)

theorem piecesAfter_ne_nil (separator : List Char) (skip : Nat) (s : List Char) :
    piecesAfter separator skip s ≠ [] := by
  induction s generalizing skip with
  | nil => simp [piecesAfter]
  | cons c cs ih =>
    cases skip with
    | succ skip => simpa [piecesAfter] using ih skip
    | zero =>
      rw [piecesAfter]
      split
      · simp
      · cases piecesAfter separator 0 cs <;> simp [consFirst]

theorem pieces_ne_nil (separator s : List Char) : pieces separator s ≠ [] :=
  piecesAfter_ne_nil separator 0 s

theorem joined_consFirst (separator : List Char) (c : Char) {ps : List (List Char)} (h : ps ≠ []) :
    joined separator (consFirst c ps) = c :: joined separator ps := by
  match ps, h with
  | [_], _ => rfl
  | _ :: _ :: _, _ => rfl

theorem joined_cons (separator p : List Char) {ps : List (List Char)} (h : ps ≠ []) :
    joined separator (p :: ps) = p ++ separator ++ joined separator ps := by
  match ps, h with
  | _ :: _, _ => rfl

theorem joined_piecesAfter {separator : List Char} (h : separator ≠ []) (skip : Nat) (s : List Char) :
    joined separator (piecesAfter separator skip s) = s.drop skip := by
  induction s generalizing skip with
  | nil => simp [piecesAfter, joined]
  | cons c cs ih =>
    cases skip with
    | succ skip => simpa [piecesAfter] using ih skip
    | zero =>
      rw [piecesAfter]
      split
      · next hp =>
        obtain ⟨t, ht⟩ := List.isPrefixOf_iff_prefix.1 hp
        rw [joined_cons _ _ (piecesAfter_ne_nil _ _ _), ih]
        cases separator with
        | nil => exact absurd rfl h
        | cons x xs =>
          simp only [List.cons_append, List.cons.injEq] at ht
          obtain ⟨rfl, rfl⟩ := ht
          simp
      · rw [joined_consFirst _ _ (piecesAfter_ne_nil _ _ _), ih]
        simp

/-- Joining the pieces gives the text back. -/
theorem joined_pieces {separator : List Char} (h : separator ≠ []) (s : List Char) :
    joined separator (pieces separator s) = s := by
  simpa [pieces] using joined_piecesAfter h 0 s

end Promptbook.Text
