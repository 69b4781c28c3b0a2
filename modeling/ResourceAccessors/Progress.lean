/-! Progress updates. A run gives one after every file and a last one when it is over. -/
namespace ResourceAccessors
set_option autoImplicit false

namespace Progress

inductive Status where
  | running
  | done
  | failed
  | other (label : String)
  deriving DecidableEq

def Status.label : Status → String
  | running => "running"
  | done => "done"
  | failed => "failed"
  | other label => label

def Status.ofLabel (s : String) : Status :=
  if s = "running" then running
  else if s = "done" then done
  else if s = "failed" then failed
  else other s

end Progress

structure Progress where
  total : Int
  completed : Int
  message : Option String
  status : Progress.Status
  deriving DecidableEq

/-- An update that no other follows in a run. -/
def Progress.isFinal (p : Progress) : Bool :=
  p.status ≠ .running

end ResourceAccessors
