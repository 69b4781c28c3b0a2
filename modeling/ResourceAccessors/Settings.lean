import ResourceAccessors.TextFile
import ResourceAccessors.Text.Blank

/-! What a run is asked to do, and which of that is refused before anything is looked at. -/
namespace ResourceAccessors
set_option autoImplicit false

/-- The file name patterns as they were given: not at all, as one text where a list belongs, or as
a list in which items may be missing. -/
inductive PatternList where
  | absent
  | single (text : String)
  | several (items : List (Option String))
  deriving DecidableEq

/-- The patterns that are there. -/
def PatternList.texts : PatternList → List String
  | absent => []
  | single text => text.toList.map String.singleton
  | several items => items.filterMap id

def defaultPatterns : PatternList :=
  .several [some "LocalizedText.resx"]

def defaultEncoding : String := "utf-8"

/-- `accessorNamespace` and `internal` are handed to the converter as they are. -/
structure Settings where
  input : Option String
  accessorNamespace : String
  internal : Bool
  patterns : PatternList
  recursive : Bool
  encoding : String
  report : Option Path
  deriving DecidableEq

inductive SettingsFault where
  | patternsNotListed
  | noPatterns
  | blankPattern
  | patternNotName (pattern : String)
  | unknownEncoding (name : String)
  | unreadableEncoding (fault : CodecFault)
  deriving DecidableEq

def SettingsFault.message : SettingsFault → String
  | patternsNotListed => "file_patterns 必须是字符串序列"
  | noPatterns => "至少需要一个文件匹配规则"
  | blankPattern => "文件匹配规则不能为空"
  | patternNotName pattern => s!"文件匹配规则只能包含文件名: {pattern}"
  | unknownEncoding name => s!"未知的编码: {name}"
  | unreadableEncoding fault => fault.message

/-- Whether the settings are refused for what they say; an encoding name that cannot be looked up
is a fault of another kind. -/
def SettingsFault.isRefusal : SettingsFault → Bool
  | unreadableEncoding _ => false
  | _ => true

namespace Settings

/-- A pattern is matched against names, so it holds no separator of either kind. -/
def checkPattern (pattern : Option String) : Except SettingsFault Unit :=
  match pattern with
  | none => .error .blankPattern
  | some text =>
    if Text.isBlankText text then .error .blankPattern
    else if text.toList.contains '/' || text.toList.contains '\\' then
      .error (.patternNotName text)
    else .ok ()

def checkPatterns : PatternList → Except SettingsFault Unit
  | .single _ => .error .patternsNotListed
  | .absent | .several [] => .error .noPatterns
  | .several items => items.forM checkPattern

/-- Any codec that is known by name passes. A name with a NUL character is not even looked up. -/
def checkEncoding (name : String) : Except SettingsFault Unit :=
  if TextFile.hasNul name then .error (.unreadableEncoding .nulInName)
  else if (Codec.ofName? name).isSome then .ok ()
  else .error (.unknownEncoding name)

/-- The patterns are checked before the encoding, and the first fault counts. -/
def check (s : Settings) : Except SettingsFault Unit :=
  match checkPatterns s.patterns with
  | .error fault => .error fault
  | .ok () => checkEncoding s.encoding

end Settings

end ResourceAccessors
