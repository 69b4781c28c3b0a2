import ResourceAccessors.Output

/-! The conversion of one resource file: the converter is asked, its answer is checked, and the
generated source is written if it differs from what is there. A fault of the converter, of its
answer or of the output file makes the file a failed one. -/
namespace ResourceAccessors.Conversion
set_option autoImplicit false

def failed (source : SourceFile) (output : Option Path) (message : String) : Outcome where
  source := source.source
  relative := source.relative
  status := .failed
  output := output
  message := some message

def finished (source : SourceFile) (output : Path) (written : Bool) : Outcome where
  source := source.source
  relative := source.relative
  status := if written then .converted else .unchanged
  output := some output
  message := none

/-- The answer of the converter as a conversion result. -/
def consult (converter : Converter) (request : Request) (fs : FileSystem) :
    Except Thrown Answer :=
  match converter fs request with
  | .error thrown => .error thrown
  | .ok value =>
    match value.toAnswer with
    | .error fault => .error ⟨⟨.typing, "TypeError", fault.message⟩, none⟩
    | .ok answer => .ok answer

/-- The text of what a converter raised. -/
def textOf (thrown : Thrown) : Except Fault String :=
  match thrown.instead with
  | none => .ok thrown.raised.text
  | some breakdown => .error (.raised breakdown.raised)

def outputFault? : Fault → Option OutputFault
  | .output fault => some fault
  | _ => none

/-- Converts one file. A failure that the converter announces is told in its own words, any other
fault of it with the name of its class; an interruption ends the action, and so does a fault whose
text cannot be told or a destination that is no path. -/
def step (settings : Settings) (converter : Converter) (ordinal : Nat) (source : SourceFile) :
    Action Outcome := do
  let request : Request :=
    ⟨source.source, settings.accessorNamespace, settings.internal, ordinal⟩
  Action.emit (.call request)
  match ← Action.ask (consult converter request) with
  | .error thrown =>
    match thrown.raised.family with
    | .interruption | .cancellation => Action.fail (.raised thrown.raised)
    | .conversion => do
      let text ← Action.ofExcept (textOf thrown)
      return failed source none text
    | _ => do
      Action.note (.converterRaised source.source)
      let text ← Action.ofExcept (textOf thrown)
      return failed source none s!"{thrown.raised.name}: {text}"
  | .ok (.misplaced fault) => Action.fail (.shape fault)
  | .ok (.generated generated) =>
    match ← Action.contain outputFault? (Output.writeIfChanged settings.encoding generated) with
    | .error fault => return failed source (some generated.destination) fault.message
    | .ok written => return finished source generated.destination written

end ResourceAccessors.Conversion
