import ResourceAccessors.FileSystem.Access

/-! The two changes that are ever made: a file is written whole, and a directory is added. -/
namespace ResourceAccessors.FileSystem
set_option autoImplicit false

/-- Writes a file, in place of the bytes of the file a path leads to or under the free name it
ends at. -/
def write (fs : FileSystem) (p : Path) (content : List UInt8) : Except FileFault FileSystem :=
  match fs.arriveToWrite p with
  | .error fault => .error fault
  | .ok (.vacant dir name) => .ok (fs.set (dir ++ [name]) (.file content))
  | .ok (.found loc) =>
    match fs.entryAt loc with
    | some (.file _) => .ok (fs.set loc (.file content))
    | _ => .error (.obstructed .isDirectory p)

/-- The directory in which the last name of a path is looked up, links followed. -/
def holder (fs : FileSystem) (p : Path) : Except Obstacle Location :=
  followToDirectory fs maxLinks (fs.start p) p.names.dropLast

/-- Adds one directory. Its last name must be free: a link there counts as an entry. -/
def makeDirectory (fs : FileSystem) (p : Path) : Except FileFault FileSystem :=
  match checkPath p with
  | .error fault => .error fault
  | .ok () =>
    match fs.holder p with
    | .error obstacle => .error (.obstructed obstacle p)
    | .ok dir =>
      match p.names.getLast? with
      | none | some ".." => .error (.obstructed .taken p)
      | some name =>
        if maxNameBytes < name.utf8ByteSize then .error (.obstructed .nameTooLong p)
        else
          match fs.entryAt (dir ++ [name]) with
          | some _ => .error (.obstructed .taken p)
          | none => .ok (fs.set (dir ++ [name]) .directory)

/-- Adds one directory, unless the path leads to a directory already. -/
def ensureDirectory (fs : FileSystem) (p : Path) : Except FileFault FileSystem :=
  match fs.makeDirectory p with
  | .ok added => .ok added
  | .error .nulInPath => .error .nulInPath
  | .error (.obstructed .notFound q) => .error (.obstructed .notFound q)
  | .error fault =>
    match fs.isDirectory p with
    | .ok true => .ok fs
    | .ok false => .error fault
    | .error other => .error other

/-- Adds the directory of the first `n` names of a path, and those above it that are missing.
The directories added before an obstacle stay. -/
def makeDirectoriesTo (fs : FileSystem) (p : Path) : Nat → Except FileFault Unit × FileSystem
  | 0 => (.ok (), fs)
  | n + 1 =>
    match fs.ensureDirectory (p.take (n + 1)) with
    | .ok added => (.ok (), added)
    | .error (.obstructed .notFound _) =>
      match makeDirectoriesTo fs p n with
      | (.error fault, partway) => (.error fault, partway)
      | (.ok (), above) =>
        match above.ensureDirectory (p.take (n + 1)) with
        | .ok added => (.ok (), added)
        | .error fault => (.error fault, above)
    | .error fault => (.error fault, fs)

/-- How many of the first `n` directories of a path, counted upwards, wait for the one above them
to be added. -/
def waiting (fs : FileSystem) (p : Path) : Nat → Nat
  | 0 => 0
  | n + 1 =>
    match fs.ensureDirectory (p.take (n + 1)) with
    | .error (.obstructed .notFound _) => fs.waiting p n + 1
    | _ => 0

/-- Adds the directory a path names and those above it. Each waits for the one above it, and where
more would wait than may, nothing is added. -/
def makeDirectories (fs : FileSystem) (limit : CallLimit) (p : Path) :
    Except FileFault Unit × FileSystem :=
  if limit.calls < fs.waiting p p.names.length then (.error (.tooNested limit.reason), fs)
  else fs.makeDirectoriesTo p p.names.length

end ResourceAccessors.FileSystem
