import ResourceAccessors.Number.Double

/-! The shortest decimals of binary numbers: of all decimals that are rounded to a number, one with
the fewest digits, and of these the nearest. -/
namespace ResourceAccessors.Double
open Number
set_option autoImplicit false

/-- Whether a decimal is rounded to `significand · 2 ^ exponent`: it lies between the points half
way to the neighbouring numbers, or at one of them if the significand is even. Below the least full
significand the neighbour is half as far away. -/
def readsBack (significand : Nat) (exponent : Int) (d : Decimal) : Bool :=
  let isNarrow := significand = fullSignificand && lowestExponent < exponent
  let lower := magnitudeOf (4 * significand - if isNarrow then 1 else 2) (exponent - 2)
  let upper := magnitudeOf (4 * significand + 2) (exponent - 2)
  let isEven := significand % 2 = 0
  let fromLower := d.magnitude.compare lower
  let fromUpper := d.magnitude.compare upper
  (fromLower = .gt || (isEven && fromLower = .eq)) &&
    (fromUpper = .lt || (isEven && fromUpper = .eq))

/-- The better of the two neighbours of a number among the decimals of one place: the nearer one,
if it is rounded to the number, else the other one. -/
def candidate? (significand : Nat) (exponent : Int) (place : Int) : Option Decimal :=
  let r := magnitudeOf significand exponent
  let below := (r.scale 10 (-place)).floor
  let near := r.toPlace place
  let far : Decimal := ⟨2 * below + 1 - near.digits, place⟩
  [near, far].find? (readsBack significand exponent)

/-- The most digits that are ever needed. -/
def mostDigits : Nat := 17

def shortest (significand : Nat) (exponent : Int) : Decimal :=
  let r := magnitudeOf significand exponent
  let found := (List.range mostDigits).findSome? fun (n : Nat) =>
    candidate? significand exponent (r.leadingPlace - n)
  found.getD (r.toDigits mostDigits)

end ResourceAccessors.Double
