import ResourceAccessors.Encoding.SingleByte
import ResourceAccessors.Encoding.Utf16
import ResourceAccessors.Encoding.Utf32
import ResourceAccessors.Encoding.Utf8

/-! The bytes of a text and the text of bytes, for every scheme and every encoding. A marked
encoding writes the little-endian mark and reads either; signed UTF-8 writes its signature and
reads text with or without it. -/
namespace ResourceAccessors
set_option autoImplicit false

namespace Scheme

def encode (scheme : Scheme) (cs : List Char) : Except EncodeFault (List UInt8) :=
  match scheme with
  | utf8 => .ok (Utf8.encode cs)
  | utf16 order => .ok (Utf16.encode order cs)
  | utf32 order => .ok (Utf32.encode order cs)
  | latin1 => SingleByte.encodeFrom .latin1 0 cs
  | ascii => SingleByte.encodeFrom .ascii 0 cs
  | cp1252 => SingleByte.encodeFrom .cp1252 0 cs

/-- Decodes bytes that stand at a position of the input. -/
def decodeFrom (scheme : Scheme) (position : Nat) (bytes : List UInt8) :
    Except DecodeFault (List Char) :=
  match scheme with
  | utf8 => Utf8.decodeFrom position bytes
  | utf16 order => Utf16.decodeFrom order position bytes
  | utf32 order => Utf32.decodeFrom order position bytes
  | latin1 => SingleByte.decodeFrom .latin1 position bytes
  | ascii => SingleByte.decodeFrom .ascii position bytes
  | cp1252 => SingleByte.decodeFrom .cp1252 position bytes

def decode (scheme : Scheme) (bytes : List UInt8) : Except DecodeFault (List Char) :=
  scheme.decodeFrom 0 bytes

end Scheme

namespace Wide

def scheme (width : Wide) (order : ByteOrder) : Scheme :=
  match width with
  | utf16 => .utf16 order
  | utf32 => .utf32 order

def mark (width : Wide) (order : ByteOrder) : List UInt8 :=
  match width with
  | utf16 => Utf16.mark order
  | utf32 => Utf32.mark order

def encode (width : Wide) (order : ByteOrder) (cs : List Char) : List UInt8 :=
  match width with
  | utf16 => Utf16.encode order cs
  | utf32 => Utf32.encode order cs

/-- Text without a mark is read in little-endian order, so that its faults come first, and then
refused unless there is none. -/
def decode (width : Wide) (bytes : List UInt8) : Except DecodeFault (List Char) :=
  let size := (width.mark .little).length
  if bytes.take size = width.mark .little then
    (width.scheme .little).decodeFrom size (bytes.drop size)
  else if bytes.take size = width.mark .big then
    (width.scheme .big).decodeFrom size (bytes.drop size)
  else
    match (width.scheme .little).decode bytes with
    | .error fault => .error fault
    | .ok [] => .ok []
    | .ok (_ :: _) => .error (.unmarked width)

end Wide

namespace Encoding

def encode (e : Encoding) (text : String) : Except EncodeFault (List UInt8) :=
  match e with
  | plain scheme => scheme.encode text.toList
  | signedUtf8 => .ok (Utf8.signature ++ Utf8.encode text.toList)
  | marked width => .ok (width.mark .little ++ width.encode .little text.toList)

/-- A signature cut short by the end of the file is not taken for text. Positions count from
behind the signature. -/
def decodeSigned (bytes : List UInt8) : Except DecodeFault (List Char) :=
  if bytes.length < 3 && bytes = Utf8.signature.take bytes.length then .ok []
  else if bytes.take 3 = Utf8.signature then Scheme.utf8.decode (bytes.drop 3)
  else Scheme.utf8.decode bytes

def decode (e : Encoding) (bytes : List UInt8) : Except DecodeFault String :=
  let decoded :=
    match e with
    | plain scheme => scheme.decode bytes
    | signedUtf8 => decodeSigned bytes
    | marked width => width.decode bytes
  decoded.map String.ofList

end Encoding

end ResourceAccessors
