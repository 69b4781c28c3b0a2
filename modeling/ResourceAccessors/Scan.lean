import ResourceAccessors.FileSystem.Access
import ResourceAccessors.Outcome
import ResourceAccessors.Pattern.Basic

/-! Finding resource files: the files in a directory, or in it and all directories below it, whose
names a pattern accepts. Links to files are files; links to directories are not entered, except
that the directory itself may be reached through links. The files come in the order of their names,
directory by directory. A tree with more levels than listings may wait for one another is not
scanned. -/
namespace ResourceAccessors
set_option autoImplicit false

namespace FileSystem

/-- The relative names of all entries down to a depth below a directory, each directory before what
is in it. -/
def below (fs : FileSystem) : (depth : Nat) → Location → List (List String)
  | 0, _ => []
  | depth + 1, dir =>
    (fs.children dir).flatMap fun name =>
      let deeper :=
        if fs.entryAt (dir ++ [name]) = some .directory then fs.below depth (dir ++ [name]) else []
      [name] :: deeper.map (name :: ·)

/-- More than the length of any location. -/
def depth (fs : FileSystem) : Nat :=
  fs.entries.keys.foldl (fun d loc => max d loc.length) 0 + 1

end FileSystem

namespace Scan

/-- What a scan does one after the other: it looks at an entry, or lists a directory for the
directories in it. The names are relative to where the scan started. -/
inductive Visit where
  | entry (names : List String)
  | listing (names : List String)
  deriving DecidableEq

/-- The same visit, as seen from the directory above. -/
def Visit.under (name : String) : Visit → Visit
  | entry names => entry (name :: names)
  | listing names => listing (name :: names)

/-- The visits down to a depth below a directory: all entries of a directory come before what is in
one of them. -/
def visits (fs : FileSystem) : (depth : Nat) → Location → List Visit
  | 0, _ => []
  | depth + 1, dir =>
    let names := fs.children dir
    let deeper := names.flatMap fun name =>
      if fs.entryAt (dir ++ [name]) = some .directory then
        (visits fs depth (dir ++ [name])).map (.under name)
      else []
    names.map (fun name => .entry [name]) ++ .listing [] :: deeper

/-- How deep a scan goes. -/
def depthOf (fs : FileSystem) (recursive : Bool) : Nat :=
  if recursive then fs.depth else 1

def sourceFile (root : Path) (names : List String) : SourceFile :=
  ⟨⟨root.anchor, root.names ++ names⟩, root, ⟨.relative, names⟩⟩

/-- Why it cannot be told whether an entry is a file, if it cannot. -/
def faultAt (fs : FileSystem) (root : Path) (names : List String) : Option FileFault :=
  match fs.isFile (sourceFile root names).source with
  | .error fault => some fault
  | .ok _ => none

/-- Why a scan comes no further than a visit, if it does not: it cannot be told whether an entry is
a file, or as many listings wait as may. -/
def stopAt (fs : FileSystem) (root : Path) (recursive : Bool) : Visit → Option FileFault
  | .entry names => faultAt fs root names
  | .listing names =>
    if recursive && fs.limits.listings.calls < names.length then
      some (.tooNested fs.limits.listings.reason)
    else none

def isFileAt (fs : FileSystem) (source : SourceFile) : Bool :=
  match fs.isFile source.source with
  | .error _ => false
  | .ok isFile => isFile

/-- The files below a directory, unless one of the visits stops the scan. -/
def files (fs : FileSystem) (root : Path) (dir : Location) (recursive : Bool) :
    Except FileFault (List SourceFile) :=
  let depth := depthOf fs recursive
  match (visits fs depth dir).findSome? (stopAt fs root recursive) with
  | some fault => .error fault
  | none => .ok (((fs.below depth dir).map (sourceFile root)).filter (isFileAt fs))

/-- The resource files of a directory; what is no directory has none. -/
def run (fs : FileSystem) (root : Path) (patterns : List String) (recursive : Bool) :
    Except FileFault (List SourceFile) :=
  match fs.isDirectory root with
  | .error fault => .error fault
  | .ok false => .ok []
  | .ok true =>
    match fs.locate root with
    | .error fault => .error fault
    | .ok dir =>
      match files fs root dir recursive with
      | .error fault => .error fault
      | .ok found => .ok (found.filter fun f => Pattern.anyAccepts patterns f.source.name)

end Scan

end ResourceAccessors
