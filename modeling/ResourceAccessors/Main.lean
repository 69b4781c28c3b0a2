import ResourceAccessors.CommandLine.Execute
import ResourceAccessors.FileSystem.Difference

/-! The program: the command line is executed on a picture of the disk, and what changed in the
picture is written to the disk. The picture holds what is below the working directory and below the
root of the run. -/
namespace ResourceAccessors.Program
set_option autoImplicit false

/-- The text of a location of the disk. -/
def placeOf (loc : Location) : String :=
  (⟨.root, loc⟩ : Path).toString

/-- No directory of the disk is deeper. -/
def deepest : Nat := maxPathBytes

/-- Adds a directory and those above it to a picture. -/
def addDirectories (fs : FileSystem) (loc : Location) : FileSystem :=
  (List.range loc.length).foldl (fun fs n => fs.set (loc.take (n + 1)) .directory) fs

/-- What `act` makes of a picture, or the picture as it is where the disk refuses. -/
def orKeep (fs : FileSystem) (act : IO FileSystem) : IO FileSystem := do
  try act catch _ => return fs

/-- Adds what is in a directory of the disk to a picture. A link is taken to lead to where it leads
in the end; what cannot be read is left out. -/
def addTree : (depth : Nat) → Location → FileSystem → IO FileSystem
  | 0, _, fs => return fs
  | depth + 1, dir, fs => orKeep fs do
    let items ← (← IO.FS.realPath (placeOf dir)).readDir
    items.foldlM (fun fs item => orKeep fs do
      let here := dir ++ [item.fileName]
      match (← item.path.symlinkMetadata).type with
      | .dir => addTree depth here (fs.set here .directory)
      | .file => return fs.set here (.file (← IO.FS.readBinFile (placeOf here)).toList)
      | .symlink => return fs.set here (.link (← IO.FS.realPath (placeOf here)).toString)
      | .other => return fs) fs

/-- The picture for a command line, from a working directory. -/
def pictureFor (here : Location) (args : List String) : IO FileSystem := do
  let root : Location :=
    match CommandLine.parse args with
    | .ok (.run o) => (Root.resolve ⟨.root, here⟩ none o.input).names
    | _ => here
  let near ← addTree deepest here (addDirectories ⟨∅, here, .usual⟩ here)
  if here.isPrefixOf root then return near
  else
    orKeep near do
      let real := (Path.ofString (← IO.FS.realPath (placeOf root)).toString).names
      if real = root then addTree deepest root (addDirectories near root) else return near

/-- Makes the changes of the picture on the disk. -/
def store (change : Location × Entry) : IO Unit :=
  match change.2 with
  | .directory => IO.FS.createDirAll (placeOf change.1)
  | .file content => IO.FS.writeBinFile (placeOf change.1) ⟨content.toArray⟩
  | .link _ => return ()

/-- One line of the log; the time is that since the start of the computer. -/
def logLine (setup : Log.Setup) (time : Nat) (r : LogRecord) : String :=
  if setup.threshold = .debug then s!"{time} {r.severity.label} {r.text}" else r.text

/-- Prints a line; styles are kept only for a terminal. -/
def printLine (stream : IO.FS.Stream) (line : String) : IO Unit := do
  stream.putStrLn (if ← stream.isTty then line else Text.withoutStyles line)

variable {κ : Type}

/-- Executes a command line with the converters of an environment, and gives the code to exit
with. -/
def runIn (env : CommandLine.Environment κ) (args : List String) : IO UInt32 := do
  let before ← pictureFor (Path.ofString (← IO.currentDir).toString).names args
  let done := CommandLine.execute env before [] args
  (done.files.changesSince before).forM store
  if let some setup := done.log then
    for record in done.records do
      IO.eprintln (logLine setup (← IO.monoMsNow) record)
  done.complaints.forM (printLine (← IO.getStderr))
  done.output.forM (printLine (← IO.getStdout))
  match done.ending with
  | .exit _ | .cutShort _ => pure ()
  | .aborted => IO.eprintln "Aborted."
  | .refused fault => IO.eprintln fault.message
  | .escaped fault => IO.eprintln fault.message
  return .ofNat done.ending.code

/-- An environment without registered converters, in which no module can be executed. -/
def bare (home : Option Path) : CommandLine.Environment Converter where
  host := ⟨fun _ => .error ⟨.importing, "ImportError", "modules cannot be executed"⟩, []⟩
  converter := id
  home := home

end ResourceAccessors.Program

def main (args : List String) : IO UInt32 := do
  let home ← IO.getEnv "HOME"
  ResourceAccessors.Program.runIn (ResourceAccessors.Program.bare (home.map .ofString)) args
