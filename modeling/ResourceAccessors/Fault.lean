import ResourceAccessors.Conversion.Converter
import ResourceAccessors.Message
import ResourceAccessors.Settings

/-! Everything that can end an action, with its wording. -/
namespace ResourceAccessors
set_option autoImplicit false

/-- A generated file that could not be compared or written. -/
inductive OutputFault where
  | reading (destination : Path) (cause : TextFault)
  | writing (destination : Path) (cause : TextFault)
  deriving DecidableEq

def OutputFault.message : OutputFault → String
  | reading destination cause => s!"读取已有文件失败: {destination}: {cause.message}"
  | writing destination cause => s!"写入文件失败: {destination}: {cause.message}"

/-- Why no converter could be loaded. -/
inductive LoadFault where
  | noSpecification
  | malformed (specification : String)
  | noMember (moduleName member : String)
  | noFile (path : Path)
  | notLoadable (path : Path)
  | executionFailed (path : Path) (reason : String)
  | importFailed (moduleName reason : String)
  | unknownName (name : String) (known : List String)
  | registrationFailed (name reason : String)
  | notInstantiable (specification reason : String)
  | notCallable (specification : String)
  deriving DecidableEq

def LoadFault.message : LoadFault → String
  | noSpecification => "未指定转换器"
  | malformed specification =>
    let shown := Text.quoted specification
    s!"转换器描述格式应为 module:attribute，实际为 {shown}"
  | noMember moduleName member => s!"模块 {moduleName} 中不存在 {member}"
  | noFile path => s!"转换器文件不存在: {path}"
  | notLoadable path => s!"无法从 {path} 加载转换器模块"
  | executionFailed path reason => s!"执行转换器模块 {path} 失败: {reason}"
  | importFailed moduleName reason => s!"无法导入转换器模块 {moduleName}: {reason}"
  | unknownName name known =>
    let shown := Text.quoted name
    let list := if known.isEmpty then "无" else ", ".intercalate known
    s!"未找到名为 {shown} 的转换器。已注册：{list}"
  | registrationFailed name reason =>
    let shown := Text.quoted name
    s!"加载 entry point {shown} 失败: {reason}"
  | notInstantiable specification reason => s!"无法实例化转换器 {specification}: {reason}"
  | notCallable specification => s!"{specification} 不是可调用对象"

inductive Fault where
  | file (fault : FileFault)
  | text (fault : TextFault)
  | shape (fault : ShapeFault)
  | settings (fault : SettingsFault)
  | rootMissing (root : Path)
  | output (fault : OutputFault)
  | load (fault : LoadFault)
  | linkLoop (path : Path)
  | unknownHome
  | patternsNotIterable
  | relativeImport (moduleName : String)
  | raised (fault : Raised)
  deriving DecidableEq

def Fault.message : Fault → String
  | file fault => fault.message
  | text fault => fault.message
  | shape fault => fault.message
  | settings fault => fault.message
  | rootMissing root => (Message.rootMissing root).text
  | output fault => fault.message
  | load fault => fault.message
  | linkLoop path =>
    let shown := Text.quoted path.toString
    s!"Symlink loop from {shown}"
  | unknownHome => "Could not determine home directory."
  | patternsNotIterable => "'NoneType' object is not iterable"
  | relativeImport moduleName =>
    let shown := Text.quoted moduleName
    s!"the 'package' argument is required to perform a relative import for {shown}"
  | raised fault => fault.text

end ResourceAccessors
