import ResourceAccessors.Fault
import ResourceAccessors.FileSystem.Access

/-! Modules of converters and how they are found and imported.

A module is looked for below the working directory: `a.b` is the module `b` of the package `a`. In
a directory, a name is a package with an initial module, else a module file, else a directory
that is a package without members. What has been imported is kept and not looked for again; a
module that could not be executed is not kept. Importing a module of a package makes it a member of
the package. The import of a module waits for that of its package, and where more would wait than
may, nothing is looked for. -/
namespace ResourceAccessors
set_option autoImplicit false

/-- What a module binds to a name: something that can be called, a class whose making may fail or
yield something that cannot be called, or a plain value. -/
inductive Member (κ : Type) where
  | callable (converter : κ)
  | factory (make : Except Raised (Option κ))
  | value

abbrev Members (κ : Type) := List (String × Member κ)

/-- A named converter that is announced to the program. -/
structure Registration (κ : Type) where
  name : String
  load : Except Raised (Member κ)

/-- What the surroundings of the program provide: the execution of the source of a module, and the
registered converters. -/
structure Host (κ : Type) where
  execute : List UInt8 → Except Raised (Members κ)
  registrations : List (Registration κ)

/-- An imported module, with the directory of its own modules if it is a package. -/
structure Imported (κ : Type) where
  members : Members κ
  directory : Option Path

abbrev Imports (κ : Type) := List (String × Imported κ)

namespace Loading

variable {κ : Type}

/-- Where the source of a module was found. -/
inductive Origin where
  | package (directory : Path)
  | file (source : Path)
  | bareDirectory (directory : Path)

def isFileAt (fs : FileSystem) (p : Path) : Bool :=
  match fs.isFile p with
  | .ok found => found
  | .error _ => false

def isDirectoryAt (fs : FileSystem) (p : Path) : Bool :=
  match fs.isDirectory p with
  | .ok found => found
  | .error _ => false

def initialModule : String := "__init__.py"

def sourceEnding : String := ".py"

def inside (dir : Path) (name : String) : Path :=
  ⟨dir.anchor, dir.names ++ [name]⟩

/-- Looks for a module in a directory. -/
def origin? (fs : FileSystem) (dir : Path) (name : String) : Option Origin :=
  let directory := inside dir name
  let source := inside dir (name ++ sourceEnding)
  let named := Path.isEntryName name
  if named && isFileAt fs (inside directory initialModule) then some (.package directory)
  else if Path.isEntryName (name ++ sourceEnding) && isFileAt fs source then some (.file source)
  else if named && isDirectoryAt fs directory then some (.bareDirectory directory)
  else none

def moduleNotFound (text : String) : Raised :=
  ⟨.importing, "ModuleNotFoundError", text⟩

/-- Executes the source of a module. -/
def executeFile (host : Host κ) (fs : FileSystem) (source : Path) : Except Fault (Members κ) :=
  match fs.read source with
  | .error fault => .error (.file fault)
  | .ok bytes => (host.execute bytes).mapError .raised

def importFrom (host : Host κ) (fs : FileSystem) : Origin → Except Fault (Imported κ)
  | .package directory =>
    (executeFile host fs (inside directory initialModule)).map fun m => ⟨m, some directory⟩
  | .file source => (executeFile host fs source).map fun m => ⟨m, none⟩
  | .bareDirectory directory => .ok ⟨[], some directory⟩

/-- Makes a module a member of the package it is in. -/
def bindMember (package part : String) (imports : Imports κ) : Imports κ :=
  imports.map fun entry =>
    if entry.1 = package then
      (entry.1, { entry.2 with members := (part, .value) :: entry.2.members })
    else entry

/-- Imports the package or module `part` of the package `parent`, or at the top. -/
def importPart (host : Host κ) (fs : FileSystem) (imports : Imports κ)
    (parent : Option (String × Imported κ)) (part : String) :
    Except Fault (Imported κ × Imports κ) :=
  let fullName := (parent.map fun p => p.1 ++ "." ++ part).getD part
  let shown := Text.quoted fullName
  let directory := (parent.map fun p => p.2.directory).getD (some .here)
  match imports.lookup fullName, directory with
  | some known, _ => .ok (known, imports)
  | none, none =>
    let package := Text.quoted ((parent.map fun p => p.1).getD "")
    .error (.raised (moduleNotFound s!"No module named {shown}; {package} is not a package"))
  | none, some dir =>
    match origin? fs dir part with
    | none => .error (.raised (moduleNotFound s!"No module named {shown}"))
    | some origin =>
      match importFrom host fs origin with
      | .error fault => .error fault
      | .ok imported =>
        let kept := (fullName, imported) :: imports
        .ok (imported, (parent.map fun p => bindMember p.1 part kept).getD kept)

/-- Imports the parts of a dotted name from left to right. What was imported before a fault is
kept. -/
def importParts (host : Host κ) (fs : FileSystem) (imports : Imports κ)
    (parent : Option (String × Imported κ)) : List String →
    Except Fault (Members κ) × Imports κ
  | [] => (.ok ((parent.map fun p => p.2.members).getD []), imports)
  | part :: rest =>
    match importPart host fs imports parent part with
    | .error fault => (.error fault, imports)
    | .ok (imported, after) =>
      let fullName := (parent.map fun p => p.1 ++ "." ++ part).getD part
      importParts host fs after (some (fullName, imported)) rest

/-- How many of the first `n` parts of a dotted name, counted from the last one, wait for the import
of the one before them. -/
def waiting (imports : Imports κ) (parts : List String) : Nat → Nat
  | 0 => 0
  | n + 1 =>
    match imports.lookup (".".intercalate (parts.take (n + 1))) with
    | some _ => 0
    | none => waiting imports parts n + 1

def recursionExceeded (text : String) : Raised :=
  ⟨.other, "RecursionError", text⟩

def importModule (host : Host κ) (fs : FileSystem) (imports : Imports κ) (name : String) :
    Except Fault (Members κ) × Imports κ :=
  let parts := Text.split '.' name
  if name.toList.head? = some '.' then (.error (.relativeImport name), imports)
  else if fs.limits.imports.calls < waiting imports parts parts.length then
    (.error (.raised (recursionExceeded fs.limits.imports.reason)), imports)
  else importParts host fs imports none parts

end Loading

end ResourceAccessors
