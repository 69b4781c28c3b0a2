import ResourceAccessors.Number.Magnitude

/-! Numbers in binary floating point with 53 significant bits, and how rational numbers are rounded
to them. The significand of a number that is not tiny has all its bits, so that every number has
one form. -/
namespace ResourceAccessors
set_option autoImplicit false

/-- A number `± significand · 2 ^ exponent`, an infinite one, or the result of an undefined
operation. -/
inductive Double where
  | finite (negative : Bool) (significand : Nat) (exponent : Int)
  | infinite (negative : Bool)
  | undefined
  deriving DecidableEq

namespace Double
open Number

/-- The exponents of the smallest and of the largest numbers. -/
def lowestExponent : Int := -1074
def highestExponent : Int := 971

/-- The least significand that has all its bits. -/
def fullSignificand : Nat := Nat.pow 2 52

/-- The exponent at which the significand of a positive magnitude has all its bits, or the lowest
one. -/
def exponentFor (r : Magnitude) : Int :=
  let guess : Int := (r.numerator.log2 : Int) - r.denominator.log2 - 52
  let exact := if (r.scale 2 (-guess)).floor < fullSignificand then guess - 1 else guess
  max exact lowestExponent

/-- The nearest number of a magnitude; one that is too large becomes infinite. -/
def ofMagnitude (negative : Bool) (r : Magnitude) : Double :=
  if r.numerator = 0 then finite negative 0 lowestExponent
  else
    let exponent := exponentFor r
    let significand := (r.scale 2 (-exponent)).round
    let (significand, exponent) :=
      if significand = 2 * fullSignificand then (fullSignificand, exponent + 1)
      else (significand, exponent)
    if highestExponent < exponent then infinite negative
    else finite negative significand exponent

/-- The nearest number of `± digits · 10 ^ power`. Far beyond the range no power is computed. -/
def ofDecimal (negative : Bool) (digits : Nat) (power : Int) : Double :=
  let size : Int := (Nat.toDigits 10 digits).length + power
  if digits = 0 || size < -400 then finite negative 0 lowestExponent
  else if 400 < size then infinite negative
  else ofMagnitude negative ((⟨digits, 1⟩ : Magnitude).scale 10 power)

/-- The nearest number of an integer, if there is a finite one. -/
def ofInt? (n : Int) : Option Double :=
  match ofMagnitude (n < 0) ⟨n.natAbs, 1⟩ with
  | finite negative significand exponent => some (finite negative significand exponent)
  | _ => none

/-- The value of a finite number without its sign. -/
def magnitudeOf (significand : Nat) (exponent : Int) : Magnitude :=
  (⟨significand, 1⟩ : Magnitude).scale 2 exponent

end Double

end ResourceAccessors
