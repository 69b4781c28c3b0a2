/-! Non-negative rational numbers and how they are rounded: to the nearest natural number, to the
nearest multiple of a power of ten, or to a number of decimal digits. A half goes to the even
neighbour. Main statements: a rounded quotient is within a half of the exact one, and a half gives
an even number. -/
namespace ResourceAccessors.Number
set_option autoImplicit false

/-- The quotient rounded to the nearest natural number. -/
def roundDiv (num den : Nat) : Nat :=
  let q := num / den
  let r := num % den
  if 2 * r < den then q else if den < 2 * r then q + 1 else q + q % 2

theorem roundDiv_near (num den : Nat) (h : 0 < den) :
    2 * (roundDiv num den * den) ≤ 2 * num + den ∧
      2 * num ≤ 2 * (roundDiv num den * den) + den := by
  have hsum : den * (num / den) + num % den = num := Nat.div_add_mod num den
  have hlt : num % den < den := Nat.mod_lt _ h
  simp only [roundDiv]
  generalize num / den = q at *
  generalize num % den = r at *
  have hq : q * den = den * q := Nat.mul_comm ..
  have hs : (q + 1) * den = den * q + den := by rw [Nat.add_mul, Nat.one_mul, hq]
  split
  · omega
  · split
    · omega
    · rcases Nat.mod_two_eq_zero_or_one q with e | e <;> simp only [e, Nat.add_zero] <;> omega

theorem roundDiv_half_even (num den : Nat) (h : 2 * (num % den) = den) :
    roundDiv num den % 2 = 0 := by
  simp only [roundDiv, h, Nat.lt_irrefl, if_false]
  omega

/-- The number `numerator / denominator`; the denominator is positive wherever one is made. -/
structure Magnitude where
  numerator : Nat
  denominator : Nat
  deriving DecidableEq

/-- The number `digits · 10 ^ place`. -/
structure Decimal where
  digits : Nat
  place : Int
  deriving DecidableEq

namespace Magnitude

/-- The magnitude times a power. -/
def scale (r : Magnitude) (base : Nat) (power : Int) : Magnitude :=
  ⟨r.numerator * base.pow power.toNat, r.denominator * base.pow (-power).toNat⟩

def floor (r : Magnitude) : Nat :=
  r.numerator / r.denominator

def round (r : Magnitude) : Nat :=
  roundDiv r.numerator r.denominator

/-- Compares two magnitudes by multiplying crosswise. -/
def compare (r s : Magnitude) : Ordering :=
  Ord.compare (r.numerator * s.denominator) (s.numerator * r.denominator)

/-- The exponent of the power of ten that the first digit counts; that of zero counts ones. -/
def leadingPlace (r : Magnitude) : Int :=
  if r.numerator = 0 then 0
  else if r.denominator ≤ r.numerator then (Nat.toDigits 10 r.floor).length - 1
  else -(Nat.toDigits 10 ((r.denominator - 1) / r.numerator)).length

/-- The nearest multiple of a power of ten. -/
def toPlace (r : Magnitude) (place : Int) : Decimal :=
  ⟨(r.scale 10 (-place)).round, place⟩

/-- The nearest number of so many decimal digits. -/
def toDigits (r : Magnitude) (count : Nat) : Decimal :=
  let place := r.leadingPlace - (count - 1)
  let near := r.toPlace place
  if near.digits = Nat.pow 10 count then ⟨Nat.pow 10 (count - 1), place + 1⟩ else near

end Magnitude

def Decimal.magnitude (d : Decimal) : Magnitude :=
  (⟨d.digits, 1⟩ : Magnitude).scale 10 d.place

end ResourceAccessors.Number
