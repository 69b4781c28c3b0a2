import ResourceAccessors.Path

/-! What a converter may hand back, and which of it is a conversion result: a destination together
with a content, or a pair of a path and a text. In a pair both are checked here. A destination with
a content is accepted whatever they are; that one is no path, or the other no text, is found out
when the content is written. -/
namespace ResourceAccessors
set_option autoImplicit false

/-- A value of a converter. Only the kinds that a result can be made of are told apart; of the
others the name of the kind is enough. -/
inductive Value where
  | text (s : String)
  | path (p : Path)
  | bytes
  | tuple (items : List Value)
  | result (destination content : Value)
  | other (kind : String)
  deriving Inhabited

/-- The generated source of one resource file and where it belongs. -/
structure Generated where
  destination : Path
  content : Value

/-- Why a value is no conversion result. -/
inductive ShapeFault where
  | notText (kind : String)
  | notPath (kind : String)
  | bytesAsPath
  | notResult (kind : String)
  deriving DecidableEq

def ShapeFault.message : ShapeFault → String
  | notText kind => s!"转换结果必须是字符串，实际为 {kind}"
  | notPath kind => s!"expected str, bytes or os.PathLike object, not {kind}"
  | bytesAsPath =>
    "argument should be a str object or an os.PathLike object returning str, not <class 'bytes'>"
  | notResult kind => s!"无法识别的转换器返回值: {kind}"

/-- A conversion result: a generated source, or a content whose destination is no path. -/
inductive Answer where
  | generated (g : Generated)
  | misplaced (fault : ShapeFault)

namespace Value

def kind : Value → String
  | text _ => "str"
  | path _ => "PosixPath"
  | bytes => "bytes"
  | tuple _ => "tuple"
  | result _ _ => "ConversionResult"
  | other kind => kind

def isText : Value → Bool
  | text _ => true
  | _ => false

def toPath : Value → Except ShapeFault Path
  | text s => .ok (.ofString s)
  | path p => .ok p
  | bytes => .error .bytesAsPath
  | v => .error (.notPath v.kind)

/-- In a pair the content is looked at before the path. -/
def toAnswer : Value → Except ShapeFault Answer
  | result destination content =>
    match destination.toPath with
    | .error fault => .ok (.misplaced fault)
    | .ok p => .ok (.generated ⟨p, content⟩)
  | tuple [place, content] =>
    if content.isText then place.toPath.map fun p => .generated ⟨p, content⟩
    else .error (.notText content.kind)
  | v => .error (.notResult v.kind)

end Value

end ResourceAccessors
