import Promptbook.Data.Json

set_option autoImplicit false

/-!
# The value of a written number

A number is an integer if it is written with neither point nor exponent.  Otherwise, or if it does
not fit into 64 bits, it is a floating-point number: its leading digits as a 64-bit significand,
multiplied or divided by a power of ten in double precision.  A number too large for double precision
has no value at all.
-/

namespace Promptbook.Data.Numeral

/-- The largest integer of 64 bits. -/
def largest : Nat := 18446744073709551615

/-- Take digits into a significand for as long as it fits into 64 bits: the significand, and how
many digits were taken. -/
def takeDigits (significand : Nat) : List Nat → Nat × Nat
  | [] => (significand, 0)
  | d :: ds =>
    if significand * 10 + d ≤ largest then
      let (s, n) := takeDigits (significand * 10 + d) ds
      (s, n + 1)
    else (significand, 0)

/-- The number that a list of digits stands for. -/
def ofDigits (ds : List Nat) : Nat := ds.foldl (fun n d => n * 10 + d) 0

/-- Whether a number is written as an integer. -/
def isInteger (n : Numeral) : Bool := n.fraction.isEmpty && n.exponent.isNone

/-- The power of ten in the exponent of a number. -/
def power (n : Numeral) : Int :=
  match n.exponent with
  | none => 0
  | some (negative, ds) => if negative then -(ofDigits ds : Int) else ofDigits ds

/-- The significand of a number and the power of ten that belongs to it. -/
def parts (n : Numeral) : Nat × Int :=
  let (s, taken) := takeDigits 0 n.whole
  let (s, fractional) := takeDigits s n.fraction
  (s, (n.whole.length - taken : Nat) - (fractional : Int) + n.power)

/-- A power of ten in double precision. -/
def powerOfTen (n : Nat) : Float := Float.ofScientific 1 false n

/-- A significand times a power of ten; none if it is too large. -/
def scaled (s : Float) (power : Int) : Option Float :=
  match power with
  | .ofNat n =>
    if n ≤ 308 then
      let f := s * powerOfTen n
      if f.isInf then none else some f
    else if s == 0 then some s
    else none
  | .negSucc n =>
    if n + 1 ≤ 308 then some (s / powerOfTen (n + 1))
    else if n + 1 ≤ 616 then some (s / powerOfTen 308 / powerOfTen (n + 1 - 308))
    else some 0

/-- The value of a number in double precision. -/
def double? (n : Numeral) : Option Float :=
  let (s, power) := n.parts
  (scaled (UInt64.ofNat s).toFloat power).map fun f => if n.negative then -f else f

/-- The value of an integer that is not negative and fits into 64 bits. -/
def natural? (n : Numeral) : Option Nat :=
  if n.isInteger && !n.negative && ofDigits n.whole ≤ largest then some (ofDigits n.whole)
  else none

/-- The value of a number in single precision.  An integer of 64 bits is rounded once, any other
number to double precision first. -/
def single? (n : Numeral) : Option Float32 :=
  let whole := ofDigits n.whole
  if n.isInteger && !n.negative && whole ≤ largest then some (UInt64.ofNat whole).toFloat32
  else if n.isInteger && n.negative && 0 < whole && whole ≤ UInt64.size / 2 then
    some (-(UInt64.ofNat whole).toFloat32)
  else n.double?.map Float.toFloat32

/-- A natural number has exactly the digits it is written with. -/
theorem natural?_le {n : Numeral} {v : Nat} (h : n.natural? = some v) : v ≤ largest := by
  unfold natural? at h
  split at h
  · next hc =>
    simp only [Bool.and_eq_true, decide_eq_true_eq] at hc
    simp only [Option.some.injEq] at h
    exact h ▸ hc.2
  · simp at h

end Promptbook.Data.Numeral
