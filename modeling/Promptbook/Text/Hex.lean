set_option autoImplicit false

/-!
# Hexadecimal text

Numbers written with a fixed count of lower-case hexadecimal digits, and numbers in single precision
written as their bits.
-/

namespace Promptbook.Text

/-- A hexadecimal digit. -/
def hexChar (n : Nat) : Char := if n < 10 then Char.ofNat (48 + n) else Char.ofNat (87 + n)

/-- The last `width` hexadecimal digits of a number, most significant first. -/
def hexDigits : Nat → Nat → List Char
  | 0, _ => []
  | width + 1, n => hexDigits width (n / 16) ++ [hexChar (n % 16)]

@[simp]
theorem length_hexDigits (width n : Nat) : (hexDigits width n).length = width := by
  induction width generalizing n with
  | zero => rfl
  | succ width ih => simp [hexDigits, ih]

/-- The bits of a number in single precision as eight digits; all NaNs are written alike. -/
def singleBits (x : Float32) : String :=
  if x.isNaN then "NaN" else String.ofList (hexDigits 8 x.toBits.toNat)

end Promptbook.Text
