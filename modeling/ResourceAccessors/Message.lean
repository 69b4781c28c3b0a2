import ResourceAccessors.Outcome

/-! The messages a run has for its user, and their wording. -/
namespace ResourceAccessors
set_option autoImplicit false

inductive Tone where
  | info
  | success
  | warning
  | error
  deriving DecidableEq

inductive Message where
  | blank
  | rootMissing (root : Path)
  | starting (root : Path)
  | fileConverted (relative : Path)
  | fileFailed (relative : Path)
  | fileUnchanged (relative : Path)
  | problem (text : String)
  | totals (processed converted failed : Nat)
  | allConverted
  | someFailed
  | nothingFound (root : Path)
  deriving DecidableEq

namespace Message

def tone : Message → Tone
  | rootMissing _ | problem _ | someFailed => .error
  | allConverted => .success
  | nothingFound _ => .warning
  | blank | starting _ | fileConverted _ | fileFailed _ | fileUnchanged _ | totals _ _ _ => .info

def text : Message → String
  | blank => ""
  | rootMissing root => s!"目录 {root} 不存在。"
  | starting root => s!"开始转换 '{root}' 目录中的 `.resx` 文件："
  | fileConverted relative => s!"\t* '{relative}' 文件转换成功"
  | fileFailed relative => s!"\t* '{relative}' 文件转换失败"
  | fileUnchanged relative => s!"\t* '{relative}' 文件没有变化"
  | problem text => text
  | totals processed converted failed =>
    s!"文件总数：{processed}。已转换：{converted}。失败：{failed}。"
  | allConverted => "转换成功。"
  | someFailed => "转换失败。"
  | nothingFound root => s!"在 '{root}' 目录中没有找到 resx 文件。"

/-- What stands for the message of a failed file that has none. -/
def unknownProblem : String := "未知错误"

/-- The messages about one file: its line, and for a failed file the reason. -/
def ofOutcome (o : Outcome) : List Message :=
  match o.status with
  | .converted => [fileConverted o.relative]
  | .failed =>
    let reason := o.message.getD ""
    [fileFailed o.relative, problem (if reason = "" then unknownProblem else reason)]
  | _ => [fileUnchanged o.relative]

end Message

end ResourceAccessors
