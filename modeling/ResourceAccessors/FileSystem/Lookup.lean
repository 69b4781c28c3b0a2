import ResourceAccessors.FileSystem.Basic
import ResourceAccessors.FileSystem.Fault

/-! Following a path through directories and symbolic links.

* `descend` walks names until it meets a link, an end or an obstacle.
* `follow` replaces a link by its target and walks on, a bounded number of times.
* `arrive` does so for a path, from the working directory or the root, and says what is there:
  an entry that is no link, or the free name of a directory.
* `arriveToWrite` does so where a file is to be written. A link whose target ends in a slash then
  leads to nothing that could be written, whatever is there. -/
namespace ResourceAccessors
set_option autoImplicit false

/-- The most bytes a path may have, the most bytes a name may have, and the most links that are
followed on the way to one entry. -/
def maxPathBytes : Nat := 4095
def maxNameBytes : Nat := 255
def maxLinks : Nat := 40

/-- What is found at the end of a walk. -/
inductive Place where
  | found (loc : Location)
  | vacant (dir : Location) (name : String)
  deriving DecidableEq

/-- A place, and whether a slash behind the last name asks for a directory. -/
structure Arrival where
  place : Place
  slashed : Bool
  deriving DecidableEq

/-- How far names lead without following a link. -/
inductive Descent where
  | at (place : Place)
  | link (dir : Location) (target : String) (rest : List String)
  | blocked (obstacle : Obstacle)
  deriving DecidableEq

namespace FileSystem

/-- Walks from a directory. `.` stays and `..` goes to the directory above; a name behind a file
is an obstacle, a missing last name is not. -/
def descend (fs : FileSystem) : Location → List String → Descent
  | dir, [] => .at (.found dir)
  | dir, name :: rest =>
    if name = "." then descend fs dir rest
    else if name = ".." then descend fs dir.dropLast rest
    else if maxNameBytes < name.utf8ByteSize then .blocked .nameTooLong
    else
      match fs.entryAt (dir ++ [name]) with
      | none => if rest.isEmpty then .at (.vacant dir name) else .blocked .notFound
      | some .directory => descend fs (dir ++ [name]) rest
      | some (.file _) =>
        if rest.isEmpty then .at (.found (dir ++ [name])) else .blocked .notDirectory
      | some (.link target) => .link dir target rest

/-- The names of a link's target. -/
def targetNames (target : String) : List String :=
  (Text.split '/' target).filter (· ≠ "")

/-- The directory a link's target is read from. -/
def targetStart (dir : Location) (target : String) : Location :=
  if target.toList.head? = some '/' then [] else dir

def endsInSlash (target : String) : Bool :=
  target.toList.getLast? = some '/'

/-- Walks on through at most `links` links. -/
def follow (fs : FileSystem) : (links : Nat) → (slashed : Bool) → Location → List String →
    Except Obstacle Arrival
  | links, slashed, dir, names =>
    match descend fs dir names with
    | .at place => .ok ⟨place, slashed⟩
    | .blocked obstacle => .error obstacle
    | .link dir target rest =>
      match links with
      | 0 => .error .tooManyLinks
      | links + 1 =>
        follow fs links (slashed || (rest.isEmpty && endsInSlash target))
          (targetStart dir target) (targetNames target ++ rest)

/-- Walks on to a directory. -/
def followToDirectory (fs : FileSystem) (links : Nat) (dir : Location) (names : List String) :
    Except Obstacle Location :=
  match follow fs links false dir names with
  | .error obstacle => .error obstacle
  | .ok ⟨.vacant _ _, _⟩ => .error .notFound
  | .ok ⟨.found loc, _⟩ =>
    if fs.entryAt loc = some .directory then .ok loc else .error .notDirectory

/-- Whether the last of the names is that of an entry. -/
def endsInEntryName (names : List String) : Bool :=
  names.getLast?.any Path.isEntryName

/-- Walks on to where a file is to be written. Where a directory is asked for instead, only the way
to it is looked at. -/
def followToWrite (fs : FileSystem) : (links : Nat) → Location → List String →
    Except Obstacle Place
  | links, dir, names =>
    match descend fs dir names with
    | .at place => .ok place
    | .blocked obstacle => .error obstacle
    | .link dir target rest =>
      match links with
      | 0 => .error .tooManyLinks
      | links + 1 =>
        let start := targetStart dir target
        let names := targetNames target
        if rest.isEmpty && endsInSlash target && endsInEntryName names then
          match followToDirectory fs links start names.dropLast with
          | .error obstacle => .error obstacle
          | .ok _ => .error .isDirectory
        else followToWrite fs links start (names ++ rest)

def start (fs : FileSystem) (p : Path) : Location :=
  if p.isAbsolute then [] else fs.workingDirectory

/-- Refuses a path that no lookup is tried for. -/
def checkPath (p : Path) : Except FileFault Unit :=
  if p.toString.toList.contains '\x00' then .error .nulInPath
  else if maxPathBytes < p.toString.utf8ByteSize then .error (.obstructed .nameTooLong p)
  else .ok ()

def arrive (fs : FileSystem) (p : Path) : Except FileFault Arrival :=
  match checkPath p with
  | .error fault => .error fault
  | .ok () =>
    match follow fs maxLinks false (fs.start p) p.names with
    | .error obstacle => .error (.obstructed obstacle p)
    | .ok arrival => .ok arrival

def arriveToWrite (fs : FileSystem) (p : Path) : Except FileFault Place :=
  match checkPath p with
  | .error fault => .error fault
  | .ok () =>
    match followToWrite fs maxLinks (fs.start p) p.names with
    | .error obstacle => .error (.obstructed obstacle p)
    | .ok place => .ok place

/-- The location of the entry a path leads to, links followed. -/
def locate (fs : FileSystem) (p : Path) : Except FileFault Location :=
  match fs.arrive p with
  | .error fault => .error fault
  | .ok ⟨.vacant _ _, _⟩ => .error (.obstructed .notFound p)
  | .ok ⟨.found loc, slashed⟩ =>
    if slashed && fs.entryAt loc ≠ some .directory then .error (.obstructed .notDirectory p)
    else .ok loc

end FileSystem

end ResourceAccessors
