import ResourceAccessors.Conversion.Value
import ResourceAccessors.Encoding.Name
import ResourceAccessors.Encoding.Octets
import ResourceAccessors.FileSystem.Change

/-! Text files in a named encoding, read and written whole: line ends and byte order marks are
content like any other character. -/
namespace ResourceAccessors
set_option autoImplicit false

inductive CodecFault where
  | unknown (name : String)
  | transformRead (name : String)
  | transformWritten (name : String)
  | foreign (name : String)
  | nulInName
  deriving DecidableEq

def CodecFault.message : CodecFault → String
  | unknown name => s!"unknown encoding: {name}"
  | transformRead name =>
    s!"'{name}' is not a text encoding; use codecs.open() to handle arbitrary codecs"
  | transformWritten name =>
    s!"'{name}' is not a text encoding; use codecs.encode() to handle arbitrary codecs"
  | foreign name => s!"unsupported encoding: {name}"
  | nulInName => "embedded null character"

inductive TextFault where
  | file (fault : FileFault)
  | decode (fault : DecodeFault)
  | encode (fault : EncodeFault)
  | codec (fault : CodecFault)
  | notText (kind : String)
  deriving DecidableEq

namespace TextFault

def message : TextFault → String
  | file fault => fault.message
  | decode fault => fault.message
  | encode fault => fault.message
  | codec fault => fault.message
  | notText kind => s!"'{kind}' object has no attribute 'encode'"

/-- Whether the file or its bytes are at fault, and not the way in which they were asked for. -/
def isOfFile : TextFault → Bool
  | file (.obstructed _ _) | decode _ | encode _ => true
  | file .nulInPath | file (.tooNested _) | codec _ | notText _ => false

end TextFault

namespace TextFile

def hasNul (name : String) : Bool :=
  name.toList.contains '\x00'

/-- The encoding of a name; `transform` words the fault of a codec that is no encoding. -/
def encodingOf (transform : String → CodecFault) (name : String) : Except CodecFault Encoding :=
  if hasNul name then .error .nulInName
  else
    match Codec.ofName? name with
    | some (.text encoding) => .ok encoding
    | some .transform => .error (transform name)
    | some .foreign => .error (.foreign name)
    | none => .error (.unknown name)

/-- The name that means, for a file that is read, the encoding of the surroundings, which is
UTF-8. -/
def surroundings : String := "locale"

/-- The encoding of a name, for a file that is read. -/
def readingEncoding (name : String) : Except CodecFault Encoding :=
  if name = surroundings then .ok (.plain .utf8) else encodingOf .transformRead name

/-- The text of a file. The file is opened before the encoding is looked up. -/
def read (fs : FileSystem) (p : Path) (encoding : String) : Except TextFault String :=
  if hasNul encoding then .error (.codec .nulInName)
  else
    match fs.read p with
    | .error fault => .error (.file fault)
    | .ok bytes =>
      match readingEncoding encoding with
      | .error fault => .error (.codec fault)
      | .ok e =>
        match e.decode bytes with
        | .error fault => .error (.decode fault)
        | .ok text => .ok text

/-- Whether a file is missing or holds another text. -/
def differs (fs : FileSystem) (p : Path) (content : Value) (encoding : String) :
    Except TextFault Bool :=
  match fs.hasEntry p with
  | .error fault => .error (.file fault)
  | .ok false => .ok true
  | .ok true =>
    match read fs p encoding with
    | .error fault => .error fault
    | .ok old =>
      match content with
      | .text new => .ok (old ≠ new)
      | _ => .ok true

/-- The bytes of a content that is to be written. -/
def bytesOf (content : Value) (encoding : String) : Except TextFault (List UInt8) :=
  match content with
  | .text s =>
    match encodingOf .transformWritten encoding with
    | .error fault => .error (.codec fault)
    | .ok e =>
      match e.encode s with
      | .error fault => .error (.encode fault)
      | .ok bytes => .ok bytes
  | v => .error (.notText v.kind)

/-- Writes bytes, after adding the directories above the file. -/
def writeBytes (fs : FileSystem) (p : Path) (bytes : List UInt8) :
    Except TextFault Unit × FileSystem :=
  match fs.makeDirectories fs.limits.outputs p.parent with
  | (.error fault, partway) => (.error (.file fault), partway)
  | (.ok (), ready) =>
    match ready.write p bytes with
    | .error fault => (.error (.file fault), ready)
    | .ok written => (.ok (), written)

/-- Writes a text. It is encoded before anything is touched. -/
def write (fs : FileSystem) (p : Path) (content : Value) (encoding : String) :
    Except TextFault Unit × FileSystem :=
  match bytesOf content encoding with
  | .error fault => (.error fault, fs)
  | .ok bytes => writeBytes fs p bytes

end TextFile

end ResourceAccessors
