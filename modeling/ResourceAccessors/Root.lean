import ResourceAccessors.FileSystem.Access
import ResourceAccessors.Fault

/-! The root directory of a run. It is worked out from what was given without looking at the files:
no link is followed. -/
namespace ResourceAccessors.Root
set_option autoImplicit false

/-- Backslashes separate names like slashes. -/
def normalizeSeparators (s : String) : String :=
  String.ofList (s.toList.map fun c => if c = '\\' then '/' else c)

/-- An input of nothing but blanks is the directory it would be read from, as that was given. Any
other input is read from there and from the working directory of the process, and normalized. -/
def resolve (process : Path) (base : Option Path) (input : Option String) : Path :=
  let here := base.getD process
  match input with
  | none => here
  | some s =>
    if Text.isBlankText s then here
    else
      let given := Path.ofString (normalizeSeparators (Text.trim s))
      (process.join (here.join given)).lexicallyNormal

/-- Refuses a root that is no directory. -/
def require (fs : FileSystem) (root : Path) : Except Fault Unit :=
  match fs.isDirectory root with
  | .error fault => .error (.file fault)
  | .ok false => .error (.rootMissing root)
  | .ok true => .ok ()

end ResourceAccessors.Root
