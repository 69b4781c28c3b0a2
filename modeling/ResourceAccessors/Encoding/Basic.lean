import ResourceAccessors.Text.Quoted

/-! Text encodings and what can go wrong with them. A scheme fixes the bytes of every character;
an encoding is a scheme by itself or a family of schemes told apart by the byte order mark that a
file starts with. Positions count bytes in a decoding and characters in an encoding fault. -/
namespace ResourceAccessors
set_option autoImplicit false

inductive ByteOrder where
  | little
  | big
  deriving DecidableEq

inductive Scheme where
  | utf8
  | utf16 (order : ByteOrder)
  | utf32 (order : ByteOrder)
  | latin1
  | ascii
  | cp1252
  deriving DecidableEq

/-- The width of the units of the encodings whose byte order a mark decides. -/
inductive Wide where
  | utf16
  | utf32
  deriving DecidableEq

inductive Encoding where
  | plain (scheme : Scheme)
  | signedUtf8
  | marked (width : Wide)
  deriving DecidableEq

/-- What is wrong with the bytes of a character. -/
inductive Flaw where
  | startByte
  | continuationByte
  | endOfData
  | byteOutOfRange
  | unassignedByte
  | truncatedUnit
  | loneSurrogate
  | unpairedSurrogate
  | codePointOutOfRange
  | surrogateCodePoint
  deriving DecidableEq

/-- Why bytes are no text: those from `position` on do not belong to the scheme, or there is no
byte order mark before text that needs one. -/
inductive DecodeFault where
  | malformed (scheme : Scheme) (position : Nat) (offending : List UInt8) (flaw : Flaw)
  | unmarked (width : Wide)
  deriving DecidableEq

/-- The characters from `position` on that a scheme has no bytes for. -/
structure EncodeFault where
  scheme : Scheme
  position : Nat
  offending : List Char
  deriving DecidableEq

/-! ## Wording -/

def Scheme.label : Scheme → String
  | utf8 => "utf-8"
  | utf16 .little => "utf-16-le"
  | utf16 .big => "utf-16-be"
  | utf32 .little => "utf-32-le"
  | utf32 .big => "utf-32-be"
  | latin1 => "latin-1"
  | ascii => "ascii"
  | cp1252 => "charmap"

def Wide.label : Wide → String
  | utf16 => "UTF-16"
  | utf32 => "UTF-32"

/-- The wording for a character that a scheme of few characters does not have. -/
def Scheme.rangeText : Scheme → String
  | ascii => "ordinal not in range(128)"
  | latin1 => "ordinal not in range(256)"
  | _ => "character maps to <undefined>"

def Flaw.text (scheme : Scheme) : Flaw → String
  | startByte => "invalid start byte"
  | continuationByte => "invalid continuation byte"
  | endOfData => "unexpected end of data"
  | byteOutOfRange | unassignedByte => scheme.rangeText
  | truncatedUnit => "truncated data"
  | loneSurrogate => "illegal encoding"
  | unpairedSurrogate => "illegal UTF-16 surrogate"
  | codePointOutOfRange => "code point not in range(0x110000)"
  | surrogateCodePoint => "code point in surrogate code point range(0xd800, 0xe000)"

def DecodeFault.message : DecodeFault → String
  | .malformed scheme position [byte] flaw =>
    let shown := Text.hexadecimal 2 byte.toNat
    s!"'{scheme.label}' codec can't decode byte 0x{shown} in position {position}: {flaw.text scheme}"
  | .malformed scheme position offending flaw =>
    let final := position + offending.length - 1
    s!"'{scheme.label}' codec can't decode bytes in position {position}-{final}: {flaw.text scheme}"
  | .unmarked width => s!"{width.label} stream does not start with BOM"

def EncodeFault.message : EncodeFault → String
  | ⟨scheme, position, [c]⟩ =>
    let shown := Text.codePointEscape c
    s!"'{scheme.label}' codec can't encode character '{shown}' in position {position}: {scheme.rangeText}"
  | ⟨scheme, position, offending⟩ =>
    let final := position + offending.length - 1
    s!"'{scheme.label}' codec can't encode characters in position {position}-{final}: {scheme.rangeText}"

end ResourceAccessors
