import ResourceAccessors.Encoding.Basic

/-! UTF-16 in either byte order: a character is one unit of two bytes, or a high and a low
surrogate. -/
namespace ResourceAccessors.Utf16
set_option autoImplicit false

def unitBytes (order : ByteOrder) (unit : Nat) : List UInt8 :=
  match order with
  | .little => [.ofNat (unit % 0x100), .ofNat (unit / 0x100)]
  | .big => [.ofNat (unit / 0x100), .ofNat (unit % 0x100)]

def unitValue (order : ByteOrder) (a b : UInt8) : Nat :=
  match order with
  | .little => a.toNat + b.toNat * 0x100
  | .big => a.toNat * 0x100 + b.toNat

def encodeChar (order : ByteOrder) (c : Char) : List UInt8 :=
  let n := c.toNat
  if n < 0x10000 then unitBytes order n
  else
    unitBytes order (0xd800 + (n - 0x10000) / 0x400) ++
      unitBytes order (0xdc00 + (n - 0x10000) % 0x400)

def encode (order : ByteOrder) (cs : List Char) : List UInt8 :=
  cs.flatMap (encodeChar order)

def isHigh (unit : Nat) : Bool := 0xd800 ≤ unit && unit < 0xdc00
def isLow (unit : Nat) : Bool := 0xdc00 ≤ unit && unit < 0xe000

/-- Decodes from a position of the input on. A high surrogate that the input ends behind is
reported with all that is left. -/
def decodeFrom (order : ByteOrder) (position : Nat) : List UInt8 → Except DecodeFault (List Char)
  | [] => .ok []
  | [a] => .error (.malformed (.utf16 order) position [a] .truncatedUnit)
  | a :: b :: rest =>
    let unit := unitValue order a b
    let bad (offending : List UInt8) (flaw : Flaw) : Except DecodeFault (List Char) :=
      .error (.malformed (.utf16 order) position offending flaw)
    if isLow unit then bad [a, b] .loneSurrogate
    else if isHigh unit then
      match rest with
      | [] => bad [a, b] .endOfData
      | [c] => bad [a, b, c] .endOfData
      | c :: d :: rest =>
        let low := unitValue order c d
        if isLow low then
          (decodeFrom order (position + 4) rest).map
            (.ofNat (0x10000 + (unit - 0xd800) * 0x400 + (low - 0xdc00)) :: ·)
        else bad [a, b] .unpairedSurrogate
    else (decodeFrom order (position + 2) rest).map (.ofNat unit :: ·)

/-- U+FEFF, which shows the byte order when it comes first. -/
def mark (order : ByteOrder) : List UInt8 :=
  unitBytes order 0xfeff

end ResourceAccessors.Utf16
