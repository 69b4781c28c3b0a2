import ResourceAccessors.Action

/-! Writing generated files, and only where the text differs from the one that is there. -/
namespace ResourceAccessors.Output
set_option autoImplicit false

/-- A fault of the file itself is a fault of the output; any other ends the action as it is. -/
def wrap (side : TextFault → OutputFault) (fault : TextFault) : Fault :=
  if fault.isOfFile then .output (side fault) else .text fault

def write (encoding : String) (generated : Generated) : Action Unit := do
  Action.change fun fs =>
    let after := TextFile.write fs generated.destination generated.content encoding
    (after.1.mapError (wrap (.writing generated.destination)), after.2)
  Action.note (.written generated.destination)

/-- Tells whether the file was written. -/
def writeIfChanged (encoding : String) (generated : Generated) : Action Bool := do
  let differs ← Action.ask fun fs =>
    TextFile.differs fs generated.destination generated.content encoding
  match differs with
  | .error fault => Action.fail (wrap (.reading generated.destination) fault)
  | .ok false => do
    Action.note (.unchanged generated.destination)
    return false
  | .ok true => do
    write encoding generated
    return true

end ResourceAccessors.Output
