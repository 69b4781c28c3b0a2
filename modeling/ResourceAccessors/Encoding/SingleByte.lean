import ResourceAccessors.Encoding.Basic

/-! Schemes with one byte for every character they have: ASCII, ISO 8859-1, and the Windows code
page 1252, which differs from ISO 8859-1 between `0x80` and `0x9f` and leaves five bytes there
without a character. -/
namespace ResourceAccessors.SingleByte
set_option autoImplicit false

/-- The code points of the bytes from `0x80` to `0x9f` of code page 1252; none is written as zero. -/
def cp1252Middle : List Nat :=
  [0x20ac, 0, 0x201a, 0x192, 0x201e, 0x2026, 0x2020, 0x2021, 0x2c6, 0x2030, 0x160, 0x2039, 0x152, 0,
    0x17d, 0, 0, 0x2018, 0x2019, 0x201c, 0x201d, 0x2022, 0x2013, 0x2014, 0x2dc, 0x2122, 0x161,
    0x203a, 0x153, 0, 0x17e, 0x178]

/-- The code point that a byte stands for. -/
def codePoint? (scheme : Scheme) (b : UInt8) : Option Nat :=
  let n := b.toNat
  match scheme with
  | .ascii => if n < 0x80 then some n else none
  | .cp1252 =>
    if n < 0x80 || 0xa0 ≤ n then some n
    else
      match cp1252Middle[n - 0x80]? with
      | none | some 0 => none
      | some code => some code
  | _ => some n

/-- The byte that stands for a code point. -/
def byte? (scheme : Scheme) (c : Char) : Option UInt8 :=
  let n := c.toNat
  match scheme with
  | .ascii => if n < 0x80 then some (.ofNat n) else none
  | .cp1252 =>
    if n < 0x80 || (0xa0 ≤ n && n < 0x100) then some (.ofNat n)
    else (cp1252Middle.idxOf? n).map fun i => .ofNat (0x80 + i)
  | _ => if n < 0x100 then some (.ofNat n) else none

/-- Encodes from a position of the text on. Characters without a byte that follow one another are
reported together. -/
def encodeFrom (scheme : Scheme) (position : Nat) : List Char → Except EncodeFault (List UInt8)
  | [] => .ok []
  | c :: rest =>
    match byte? scheme c with
    | some b => (encodeFrom scheme (position + 1) rest).map (b :: ·)
    | none => .error ⟨scheme, position, c :: rest.takeWhile fun d => (byte? scheme d).isNone⟩

/-- The flaw of a byte without a character. -/
def flaw : Scheme → Flaw
  | .cp1252 => .unassignedByte
  | _ => .byteOutOfRange

/-- Decodes from a position of the input on. -/
def decodeFrom (scheme : Scheme) (position : Nat) : List UInt8 → Except DecodeFault (List Char)
  | [] => .ok []
  | b :: rest =>
    match codePoint? scheme b with
    | some code => (decodeFrom scheme (position + 1) rest).map (.ofNat code :: ·)
    | none => .error (.malformed scheme position [b] (flaw scheme))

end ResourceAccessors.SingleByte
