import ResourceAccessors.Action
import ResourceAccessors.Loading.Module

/-! Loading a converter from its specification: `module:member` imports a module, `file.py:member`
executes a file, and a name without a colon is looked up among the registered converters. A class
is made into a converter. -/
namespace ResourceAccessors.Loading
set_option autoImplicit false

variable {κ : Type}

/-- The names of the registered converters, in order, each as often as it is registered. -/
def available (host : Host κ) : List String :=
  (host.registrations.map Registration.name).mergeSort (· ≤ ·)

/-- Splits at the last colon, if there is one. -/
def splitSpecification (s : String) : Option (String × String) :=
  match (Text.split ':' s).reverse with
  | member :: part :: parts => some (":".intercalate (part :: parts).reverse, member)
  | _ => none

/-- A fault of a module that is executed is the loader's own fault, unless it is an interruption. -/
def wrapExecution (source : Path) : Fault → Fault
  | .raised r =>
    if r.family.interrupts then .raised r else .load (.executionFailed source r.text)
  | fault => .load (.executionFailed source fault.message)

/-- Of the faults of an import only a failed import is the loader's own. -/
def wrapImport (name : String) : Fault → Fault
  | .raised r =>
    if r.family = .importing then .load (.importFailed name r.text) else .raised r
  | fault => fault

/-- The members of a module file. -/
def membersOfFile (host : Host κ) (fs : FileSystem) (source : Path) : Except Fault (Members κ) :=
  match fs.isFile source with
  | .error fault => .error (.file fault)
  | .ok false => .error (.load (.noFile source))
  | .ok true =>
    if sourceEnding.toList.isSuffixOf source.toString.toList then
      (executeFile host fs source).mapError (wrapExecution source)
    else .error (.load (.notLoadable source))

/-- The members of what stands before the colon: a file if it looks like one or is one, else a
module. -/
def membersOf (host : Host κ) (fs : FileSystem) (imports : Imports κ) (name : String) :
    Except Fault (Members κ) × Imports κ :=
  let source := Path.ofString name
  let looksLikeFile : Except FileFault Bool :=
    if source.suffix = sourceEnding then .ok true else fs.isFile source
  match looksLikeFile with
  | .error fault => (.error (.file fault), imports)
  | .ok true => (membersOfFile host fs source, imports)
  | .ok false =>
    let (members, after) := importModule host fs imports name
    (members.mapError (wrapImport name), after)

/-- The registered converter of a name; of several the first. -/
def registered (host : Host κ) (name : String) : Except Fault (Member κ) :=
  match host.registrations.find? fun r => r.name = name with
  | none => .error (.load (.unknownName name (available host)))
  | some registration =>
    match registration.load with
    | .ok found => .ok found
    | .error r =>
      if r.family.interrupts then .error (.raised r)
      else .error (.load (.registrationFailed name r.text))

/-- Makes a converter of a member. Of the faults of a class only one of its arguments is the
loader's own. -/
def make (specification : String) : Member κ → Except Fault κ
  | .callable converter | .factory (.ok (some converter)) => .ok converter
  | .factory (.ok none) | .value => .error (.load (.notCallable specification))
  | .factory (.error r) =>
    if r.family = .typing then .error (.load (.notInstantiable specification r.text))
    else .error (.raised r)

/-- The member that a specification without blanks at its ends names. -/
def find (host : Host κ) (fs : FileSystem) (imports : Imports κ) (specification : String) :
    Except Fault (Member κ) × Imports κ :=
  if specification = "" then (.error (.load .noSpecification), imports)
  else
    match splitSpecification specification with
    | none => (registered host specification, imports)
    | some (name, member) =>
      if name = "" || member = "" then (.error (.load (.malformed specification)), imports)
      else
        match membersOf host fs imports name with
        | (.error fault, after) => (.error fault, after)
        | (.ok members, after) =>
          match members.lookup member with
          | none => (.error (.load (.noMember name member)), after)
          | some found => (.ok found, after)

def load (host : Host κ) (fs : FileSystem) (imports : Imports κ) (specification : Option String) :
    Except Fault κ × Imports κ :=
  let trimmed := Text.trim (specification.getD "")
  match find host fs imports trimmed with
  | (.error fault, after) => (.error fault, after)
  | (.ok found, after) => (make trimmed found, after)

/-- The note on a converter that was loaded. -/
def loadedNote (specification : Option String) : Note :=
  .loaded (Text.trim (specification.getD ""))

end ResourceAccessors.Loading
