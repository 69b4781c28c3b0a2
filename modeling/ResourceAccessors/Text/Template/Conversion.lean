import ResourceAccessors.Text.Template.Argument
import ResourceAccessors.Text.Template.Fault
import ResourceAccessors.Text.Template.Slot

/-! Conversions: how one argument is written into a slot.

* `s`, `r` and `a` show any argument: as it is, quoted, or quoted in ASCII characters. A precision
  cuts what is shown.
* `d`, `i` and `u` write a number without its fraction, `o`, `x` and `X` an integer in base 8 or
  16, with a prefix if the alternate form is asked for. A precision is the least count of digits.
* `e`, `f` and `g`, and the same in capitals, write a real number, with six digits unless a precision
  is given. The alternate form keeps the point and, in general notation, the zeros at the end.
* `c` writes the character that an argument is, or of which it is the code point.

What is narrower than the width is padded: with blanks on the left or, where the flag says so, on
the right, or with zeros between the sign of a number and its digits. -/
namespace ResourceAccessors.Text
open Number
set_option autoImplicit false

/-- What is written into a slot, before it is padded. -/
structure Written where
  sign : List Char
  base : List Char
  body : List Char
  isNumber : Bool
  deriving DecidableEq

namespace Written

def plain (body : List Char) : Written :=
  ⟨[], [], body, false⟩

def length (w : Written) : Nat :=
  w.sign.length + w.base.length + w.body.length

def pad (w : Written) (flags : Flags) (width : Nat) : List Char :=
  let missing := width - w.length
  if flags.left then w.sign ++ w.base ++ w.body ++ List.replicate missing ' '
  else if w.isNumber && flags.zero then w.sign ++ w.base ++ zeros missing ++ w.body
  else List.replicate missing ' ' ++ w.sign ++ w.base ++ w.body

theorem length_pad (w : Written) (flags : Flags) (width : Nat) :
    (w.pad flags width).length = max width w.length := by
  simp only [pad, length, zeros]
  split
  · simp only [List.length_append, List.length_replicate]
    omega
  · split <;> simp only [List.length_append, List.length_replicate] <;> omega

end Written

namespace Conversion

/-- The most digits that a precision may ask of an integer. -/
def mostDigits : Nat := Nat.pow 2 31 - 4

/-- No text is as long as this. -/
def longest : Nat := Nat.pow 2 26

/-- No number is written with more digits than this, zeros at its end apart. -/
def mostSignificant : Nat := Nat.pow 2 10

def defaultPlaces : Nat := 6

def signOf (flags : Flags) (negative : Bool) : List Char :=
  if negative then ['-'] else if flags.sign then ['+'] else if flags.blank then [' '] else []

def cut (precision : Option Nat) (shown : String) : Written :=
  .plain ((precision.map fun n => shown.toList.take n).getD shown.toList)

/-- The integer that an argument is when its fraction is dropped. -/
def truncate (c : Char) (a : Argument) : Except TemplateFault Int :=
  match a with
  | .real (.finite negative significand exponent) =>
    let n := (Double.magnitudeOf significand exponent).floor
    .ok (if negative then -n else n)
  | .real (.infinite _) => .error .infiniteInteger
  | .real .undefined => .error .undefinedInteger
  | a =>
    match a.toInt? with
    | some n => .ok n
    | none => .error (.noNumber c a.kind)

def exactly (c : Char) (a : Argument) : Except TemplateFault Int :=
  match a.toInt? with
  | some n => .ok n
  | none => .error (.noInteger c a.kind)

def writeInteger (flags : Flags) (precision : Option Nat) (radix : Nat) (base : List Char)
    (n : Int) : Except TemplateFault Written :=
  if mostDigits < precision.getD 0 then .error .digitsTooMany
  else if longest ≤ precision.getD 0 then .error .outOfMemory
  else
    let digits := padDigits (precision.getD 0) (Nat.toDigits radix n.natAbs)
    .ok ⟨signOf flags (n < 0), if flags.alternate then base else [], digits, true⟩

def toReal (a : Argument) : Except TemplateFault Double :=
  match a with
  | .real x => .ok x
  | a =>
    match a.toInt? with
    | none => .error (.noReal a.kind)
    | some n =>
      match Double.ofInt? n with
      | some x => .ok x
      | none => .error .integerTooLarge

/-- The notations of real numbers. -/
inductive Style where
  | scientific
  | fixed
  | general
  deriving DecidableEq

def numeral (style : Style) (alternate : Bool) (precision : Nat) (r : Magnitude) : Numeral :=
  match style with
  | .scientific => .ofScientific r precision
  | .fixed => .ofPlaces r precision
  | .general =>
    if alternate then .ofGeneral r precision
    else (Numeral.ofGeneral r (min precision mostSignificant)).trim

def writeReal (flags : Flags) (precision : Option Nat) (style : Style) (x : Double) :
    Except TemplateFault Written :=
  let places := precision.getD defaultPlaces
  if longest ≤ places && (style ≠ .general || flags.alternate) then .error .outOfMemory
  else
    let body :=
      match x with
      | .finite _ significand exponent =>
        let n := numeral style flags.alternate places (Double.magnitudeOf significand exponent)
        n.text 'e' flags.alternate
      | .infinite _ => Double.infiniteText
      | .undefined => Double.undefinedText
    .ok ⟨signOf flags x.isNegative, [], body, true⟩

/-- The character that an argument is or has the code point of. -/
def toCharacter (a : Argument) : Except TemplateFault Char :=
  match a with
  | .text s =>
    match s.toList with
    | [c] => .ok c
    | _ => .error .noCharacter
  | a =>
    match a.toInt? with
    | none => .error .noCharacter
    | some n =>
      if 0 ≤ n && n < 0x110000 then .ok (Char.ofNat n.toNat) else .error .characterOutOfRange

def capitals (w : Written) : Written :=
  { w with base := w.base.map Char.toUpper, body := w.body.map Char.toUpper }

/-- Writes an argument; `index` is where the conversion stands in the template. -/
def write (flags : Flags) (precision : Option Nat) (c : Char) (index : Nat) (a : Argument) :
    Except TemplateFault Written :=
  match c with
  | 's' => .ok (cut precision a.shown)
  | 'r' => .ok (cut precision a.quoted)
  | 'a' => .ok (cut precision a.escaped)
  | 'd' | 'i' | 'u' => truncate c a >>= writeInteger flags precision 10 []
  | 'o' => exactly c a >>= writeInteger flags precision 8 ['0', 'o']
  | 'x' => exactly c a >>= writeInteger flags precision 16 ['0', 'x']
  | 'X' => (exactly c a >>= writeInteger flags precision 16 ['0', 'x']).map capitals
  | 'e' => toReal a >>= writeReal flags precision .scientific
  | 'f' => toReal a >>= writeReal flags precision .fixed
  | 'g' => toReal a >>= writeReal flags precision .general
  | 'E' => (toReal a >>= writeReal flags precision .scientific).map capitals
  | 'F' => (toReal a >>= writeReal flags precision .fixed).map capitals
  | 'G' => (toReal a >>= writeReal flags precision .general).map capitals
  | 'c' => (toCharacter a).map fun c => .plain [c]
  | c => .error (.unknownConversion c index)

/-- Writes an argument and pads what is written. -/
def fill (flags : Flags) (width precision : Option Nat) (c : Char) (index : Nat) (a : Argument) :
    Except TemplateFault (List Char) :=
  match write flags precision c index a with
  | .error fault => .error fault
  | .ok w =>
    if longest ≤ width.getD 0 then .error .outOfMemory else .ok (w.pad flags (width.getD 0))

end Conversion

end ResourceAccessors.Text
