import ResourceAccessors.FileSystem.Lookup

/-! Asking what a path leads to, and reading files. -/
namespace ResourceAccessors.FileSystem
set_option autoImplicit false

/-- Whether a path leads to an entry that passes the test. A path that leads nowhere or cannot
name anything does not; an obstacle that leaves the question open is reported. -/
def leadsTo (fs : FileSystem) (test : Entry → Bool) (p : Path) : Except FileFault Bool :=
  match fs.locate p with
  | .ok loc => .ok ((fs.entryAt loc).any test)
  | .error .nulInPath => .ok false
  | .error (.obstructed obstacle q) =>
    if obstacle.meansAbsent then .ok false else .error (.obstructed obstacle q)
  | .error (.tooNested reason) => .error (.tooNested reason)

def hasEntry (fs : FileSystem) (p : Path) : Except FileFault Bool :=
  fs.leadsTo (fun _ => true) p

def isFile (fs : FileSystem) (p : Path) : Except FileFault Bool :=
  fs.leadsTo (fun | .file _ => true | _ => false) p

def isDirectory (fs : FileSystem) (p : Path) : Except FileFault Bool :=
  fs.leadsTo (fun | .directory => true | _ => false) p

/-- The bytes of the file a path leads to. -/
def read (fs : FileSystem) (p : Path) : Except FileFault (List UInt8) :=
  match fs.locate p with
  | .error fault => .error fault
  | .ok loc =>
    match fs.entryAt loc with
    | some (.file content) => .ok content
    | some .directory => .error (.obstructed .isDirectory p)
    | some (.link _) | none => .error (.obstructed .notFound p)

end ResourceAccessors.FileSystem
