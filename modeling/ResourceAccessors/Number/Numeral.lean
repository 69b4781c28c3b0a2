import ResourceAccessors.Number.Shortest

/-! How numbers are written. A numeral has digits before and behind the point, and an exponent if
it is scientific; the point is left out where no digit is behind it, unless it is asked for.

* With fixed places, a number is rounded to them and written in full.
* In scientific notation, one digit stands before the point, and the exponent has a sign and at
  least two digits.
* In general notation, a number of some significant digits is written in full if its exponent is at
  least -4 and smaller than their count, and scientifically otherwise; zeros at its end are left
  out.
* The plain text of a number has the fewest digits that are rounded to it, is written in full for
  exponents from -4 to 15, and always has a point or an exponent. -/
namespace ResourceAccessors.Number
set_option autoImplicit false

structure Numeral where
  whole : List Char
  fraction : List Char
  exponent : Option Int
  deriving DecidableEq

def zeros (n : Nat) : List Char :=
  List.replicate n '0'

/-- The digits with zeros in front, up to a width. -/
def padDigits (width : Nat) (digits : List Char) : List Char :=
  zeros (width - digits.length) ++ digits

/-- The digits without the zeros at their end. -/
def trimDigits (digits : List Char) : List Char :=
  (digits.reverse.dropWhile (· = '0')).reverse

/-- The exponent with its sign and at least two digits. -/
def exponentText (e : Int) : List Char :=
  (if e < 0 then '-' else '+') :: padDigits 2 (Nat.toDigits 10 e.natAbs)

namespace Numeral

/-- The text of a numeral; `mark` stands before the exponent. -/
def text (n : Numeral) (mark : Char) (keepsPoint : Bool) : List Char :=
  let point := if n.fraction.isEmpty && !keepsPoint then [] else '.' :: n.fraction
  let power := match n.exponent with
    | some e => mark :: exponentText e
    | none => []
  n.whole ++ point ++ power

/-- The numeral without zeros at the end of its fraction. -/
def trim (n : Numeral) : Numeral :=
  { n with fraction := trimDigits n.fraction }

/-- Digits of which the first counts the power of ten `leading`, written in full. -/
def positional (digits : List Char) (leading : Int) : Numeral :=
  if leading < 0 then ⟨['0'], zeros (leading.natAbs - 1) ++ digits, none⟩
  else
    let count := leading.toNat + 1
    ⟨digits.take count ++ zeros (count - digits.length), digits.drop count, none⟩

/-- The same digits with an exponent. -/
def scientific (digits : List Char) (leading : Int) : Numeral :=
  ⟨digits.take 1, digits.drop 1, some leading⟩

/-- A magnitude with so many places behind the point. -/
def ofPlaces (r : Magnitude) (places : Nat) : Numeral :=
  let digits := padDigits (places + 1) (Nat.toDigits 10 (r.toPlace (-places)).digits)
  let count := digits.length - places
  ⟨digits.take count, digits.drop count, none⟩

/-- So many significant digits of a magnitude, and the power of ten that the first one counts. -/
def significant (r : Magnitude) (count : Nat) : List Char × Int :=
  let d := r.toDigits count
  (padDigits count (Nat.toDigits 10 d.digits), d.place + (count - 1))

/-- A magnitude in scientific notation, with so many places behind the point. -/
def ofScientific (r : Magnitude) (places : Nat) : Numeral :=
  let (digits, leading) := significant r (places + 1)
  scientific digits leading

/-- A magnitude in general notation, with the zeros at its end. -/
def ofGeneral (r : Magnitude) (count : Nat) : Numeral :=
  let count := max 1 count
  let (digits, leading) := significant r count
  if -4 ≤ leading && leading < count then positional digits leading
  else scientific digits leading

end Numeral

end ResourceAccessors.Number

namespace ResourceAccessors.Double
open Number

def infiniteText : List Char := ['i', 'n', 'f']

def undefinedText : List Char := ['n', 'a', 'n']

/-- The sign of a number; one that is undefined has none. -/
def isNegative : Double → Bool
  | finite negative _ _ | infinite negative => negative
  | undefined => false

/-- The plain numeral of `significand · 2 ^ exponent`. -/
def plainNumeral (significand : Nat) (exponent : Int) : Numeral :=
  if significand = 0 then ⟨['0'], ['0'], none⟩
  else
    let d := shortest significand exponent
    let all := Nat.toDigits 10 d.digits
    let digits := trimDigits all
    let leading := d.place + (all.length - 1)
    if -4 ≤ leading && leading < 16 then
      let n := Numeral.positional digits leading
      if n.fraction.isEmpty then { n with fraction := ['0'] } else n
    else Numeral.scientific digits leading

def plainChars : Double → List Char
  | finite _ significand exponent => (plainNumeral significand exponent).text 'e' false
  | infinite _ => infiniteText
  | undefined => undefinedText

/-- The plain text of a number. -/
def text (x : Double) : String :=
  String.ofList ((if x.isNegative then ['-'] else []) ++ x.plainChars)

end ResourceAccessors.Double
