import ResourceAccessors.Encoding.Basic

/-! UTF-8. The first byte of a character decides how many follow and which values the second may
have, so that no character has two spellings and no surrogate has one. -/
namespace ResourceAccessors.Utf8
set_option autoImplicit false

def encodeChar (c : Char) : List UInt8 :=
  let n := c.toNat
  if n < 0x80 then [.ofNat n]
  else if n < 0x800 then [.ofNat (0xc0 + n / 0x40), .ofNat (0x80 + n % 0x40)]
  else if n < 0x10000 then
    [.ofNat (0xe0 + n / 0x1000), .ofNat (0x80 + n / 0x40 % 0x40), .ofNat (0x80 + n % 0x40)]
  else
    [.ofNat (0xf0 + n / 0x40000), .ofNat (0x80 + n / 0x1000 % 0x40),
      .ofNat (0x80 + n / 0x40 % 0x40), .ofNat (0x80 + n % 0x40)]

def encode (cs : List Char) : List UInt8 :=
  cs.flatMap encodeChar

/-- The value of a byte that follows a first byte: `0x80` to `0xbf`. -/
def isTail (b : UInt8) : Bool :=
  0x80 ≤ b.toNat && b.toNat < 0xc0

/-- Whether the second byte of three or four may follow the first. -/
def isSecond (first second : UInt8) : Bool :=
  isTail second &&
    match first.toNat with
    | 0xe0 => 0xa0 ≤ second.toNat
    | 0xed => second.toNat < 0xa0
    | 0xf0 => 0x90 ≤ second.toNat
    | 0xf4 => second.toNat < 0x90
    | _ => true

/-- The code point that a first byte, less its length bits, and the bytes after it spell. -/
def assemble (lead : Nat) (tails : List UInt8) : Char :=
  .ofNat (tails.foldl (fun n b => n * 0x40 + (b.toNat - 0x80)) lead)

/-- Decodes from a position of the input on. A character cut short by the end of the input is
reported with all its bytes, a wrong byte with the bytes before it. -/
def decodeFrom (position : Nat) : List UInt8 → Except DecodeFault (List Char)
  | [] => .ok []
  | a :: rest =>
    let bad (offending : List UInt8) (flaw : Flaw) : Except DecodeFault (List Char) :=
      .error (.malformed .utf8 position offending flaw)
    if a.toNat < 0x80 then
      (decodeFrom (position + 1) rest).map (assemble a.toNat [] :: ·)
    else if a.toNat < 0xc2 || 0xf4 < a.toNat then bad [a] .startByte
    else
      match rest with
      | [] => bad [a] .endOfData
      | b :: rest =>
        if a.toNat < 0xe0 then
          if isTail b then
            (decodeFrom (position + 2) rest).map (assemble (a.toNat - 0xc0) [b] :: ·)
          else bad [a] .continuationByte
        else if !isSecond a b then bad [a] .continuationByte
        else
          match rest with
          | [] => bad [a, b] .endOfData
          | c :: rest =>
            if !isTail c then bad [a, b] .continuationByte
            else if a.toNat < 0xf0 then
              (decodeFrom (position + 3) rest).map (assemble (a.toNat - 0xe0) [b, c] :: ·)
            else
              match rest with
              | [] => bad [a, b, c] .endOfData
              | d :: rest =>
                if isTail d then
                  (decodeFrom (position + 4) rest).map
                    (assemble (a.toNat - 0xf0) [b, c, d] :: ·)
                else bad [a, b, c] .continuationByte

/-- The bytes of the mark that may stand before UTF-8 text. -/
def signature : List UInt8 := [0xef, 0xbb, 0xbf]

end ResourceAccessors.Utf8
