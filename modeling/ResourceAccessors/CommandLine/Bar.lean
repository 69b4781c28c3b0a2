import ResourceAccessors.Progress

/-! The progress bar: what is shown after a number of updates. -/
namespace ResourceAccessors.CommandLine
set_option autoImplicit false

structure Bar where
  description : String
  total : Int
  completed : Int
  deriving DecidableEq

namespace Bar

/-- The bar after one more update. An update of nothing to do shows no bar. -/
def step (bar : Option Bar) (p : Progress) : Option Bar :=
  if p.total = 0 then bar
  else
    let shown := bar.getD ⟨"转换 resx 文件", p.total, 0⟩
    let final := if p.status = .done then "转换完成" else "转换结束（有失败）"
    some { shown with
      completed := p.completed
      description := if p.isFinal then final else shown.description }

def after (updates : List Progress) : Option Bar :=
  updates.foldl step none

end Bar

end ResourceAccessors.CommandLine
