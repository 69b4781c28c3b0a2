import ResourceAccessors.Encoding.Basic

/-! UTF-32 in either byte order: four bytes for every character. -/
namespace ResourceAccessors.Utf32
set_option autoImplicit false

def unitBytes (order : ByteOrder) (unit : Nat) : List UInt8 :=
  let bytes : List UInt8 := [.ofNat (unit % 0x100), .ofNat (unit / 0x100 % 0x100),
    .ofNat (unit / 0x10000 % 0x100), .ofNat (unit / 0x1000000)]
  match order with
  | .little => bytes
  | .big => bytes.reverse

def unitValue (order : ByteOrder) (a b c d : UInt8) : Nat :=
  match order with
  | .little => a.toNat + b.toNat * 0x100 + c.toNat * 0x10000 + d.toNat * 0x1000000
  | .big => a.toNat * 0x1000000 + b.toNat * 0x10000 + c.toNat * 0x100 + d.toNat

def encode (order : ByteOrder) (cs : List Char) : List UInt8 :=
  cs.flatMap fun c => unitBytes order c.toNat

/-- Decodes from a position of the input on. -/
def decodeFrom (order : ByteOrder) (position : Nat) : List UInt8 → Except DecodeFault (List Char)
  | [] => .ok []
  | a :: b :: c :: d :: rest =>
    let unit := unitValue order a b c d
    if 0xd800 ≤ unit && unit < 0xe000 then
      .error (.malformed (.utf32 order) position [a, b, c, d] .surrogateCodePoint)
    else if 0x110000 ≤ unit then
      .error (.malformed (.utf32 order) position [a, b, c, d] .codePointOutOfRange)
    else (decodeFrom order (position + 4) rest).map (.ofNat unit :: ·)
  | short => .error (.malformed (.utf32 order) position short .truncatedUnit)

/-- U+FEFF, which shows the byte order when it comes first. -/
def mark (order : ByteOrder) : List UInt8 :=
  unitBytes order 0xfeff

end ResourceAccessors.Utf32
