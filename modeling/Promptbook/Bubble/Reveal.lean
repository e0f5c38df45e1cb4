import Promptbook.Timer

set_option autoImplicit false

/-!
# Revealing text

The text of a bubble appears one character at a time.  Time that has passed but was not enough for
another character is kept for the next frame, so what can be seen depends on the time that has passed
in total and not on how it was divided into frames.
-/

namespace Promptbook.Bubble

/-- A text of which some characters can be seen. -/
structure Reveal where
  /-- How many characters can be seen. -/
  revealed : Nat
  pending : List Char
  elapsed : Duration
  delay : Duration
  deriving DecidableEq, Inhabited

/-- The characters that are due, those that are not, and the time that is left. -/
def dueCharacters (delay : Duration) : List Char → Duration → List Char × List Char × Duration
  | [], elapsed => ([], [], elapsed)
  | c :: cs, elapsed =>
    if delay ≤ elapsed then
      let (due, rest, left) := dueCharacters delay cs (elapsed.sub delay)
      (c :: due, rest, left)
    else ([], c :: cs, elapsed)

/-- No character is lost or moved. -/
theorem dueCharacters_append (delay : Duration) (cs : List Char) (elapsed : Duration) :
    (dueCharacters delay cs elapsed).1 ++ (dueCharacters delay cs elapsed).2.1 = cs := by
  induction cs generalizing elapsed with
  | nil => rfl
  | cons c cs ih =>
    rw [dueCharacters]
    split
    · simpa using ih _
    · rfl

namespace Reveal

/-- A text of which nothing can be seen yet. -/
def start (text : String) (delay : Duration) : Reveal := ⟨0, text.toList, .zero, delay⟩

/-- Let the time of a frame pass.  The first characters replace whatever was displayed before. -/
def advance (r : Reveal) (delta : Duration) (display : String) : Step Reveal String :=
  let display := if r.revealed = 0 then "" else display
  match r.elapsed.add? delta with
  | none => ⟨.error .overflow, r, display⟩
  | some elapsed =>
    let (due, pending, left) := dueCharacters r.delay r.pending elapsed
    ⟨.ok (if pending.isEmpty then .done else .running),
      { r with revealed := r.revealed + due.length, pending := pending, elapsed := left },
      display ++ String.ofList due⟩

end Reveal

end Promptbook.Bubble
