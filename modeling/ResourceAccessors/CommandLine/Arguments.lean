import ResourceAccessors.Settings

/-! Reading the arguments of the command line.

The first argument is the command. Options may stand before, between and behind the other arguments
of a command; `--` ends them. A long option takes its value from behind an equals sign or from the
next argument, whatever that looks like; short options can be written together, and one with a
value takes the rest of the argument or the next one. Of an option given twice the last counts. -/
namespace ResourceAccessors.CommandLine
set_option autoImplicit false

/-- What `run` is asked for; `converter` is missing only while the arguments are being read. -/
structure RunOptions where
  input : Option String
  converter : Option String
  accessorNamespace : String
  internal : Bool
  patterns : List String
  recursive : Bool
  encoding : String
  report : Option String
  verbose : Bool
  deriving DecidableEq

def RunOptions.initial : RunOptions where
  input := none
  converter := none
  accessorNamespace := ""
  internal := false
  patterns := []
  recursive := true
  encoding := defaultEncoding
  report := none
  verbose := false

inductive Command where
  | run (options : RunOptions)
  | converters
  deriving DecidableEq

inductive UsageFault where
  | noCommand
  | unknownCommand (name : String)
  | unknownOption (name : String)
  | valueMissing (name : String)
  | valueUnwanted (name : String)
  | converterMissing
  | extraArguments (arguments : List String)
  | badConverter (reason : String)
  | nulInReport
  deriving DecidableEq

def UsageFault.message : UsageFault → String
  | noCommand => "Missing command."
  | unknownCommand name => s!"No such command '{name}'."
  | unknownOption name => s!"No such option: {name}"
  | valueMissing name => s!"Option '{name}' requires an argument."
  | valueUnwanted name => s!"Option '{name}' does not take a value."
  | converterMissing => "Missing option '--converter' / '-c'."
  | extraArguments arguments =>
    let list := " ".intercalate arguments
    s!"Got unexpected extra arguments ({list})"
  | badConverter reason => s!"Invalid value for --converter: {reason}"
  | nulInReport => FileFault.nulInPath.message

/-- The options that take a value. -/
inductive Setting where
  | converter
  | accessorNamespace
  | pattern
  | encoding
  | report
  deriving DecidableEq

/-- The options that take none. -/
inductive Switch where
  | internal
  | exposed
  | recursive
  | shallow
  | verbose
  deriving DecidableEq

inductive Flag where
  | setting (s : Setting)
  | switch (s : Switch)
  deriving DecidableEq

def longFlags : List (String × Flag) := [
  ("--converter", .setting .converter), ("--namespace", .setting .accessorNamespace),
  ("--pattern", .setting .pattern), ("--encoding", .setting .encoding),
  ("--report", .setting .report), ("--internal", .switch .internal),
  ("--public", .switch .exposed), ("--recursive", .switch .recursive),
  ("--no-recursive", .switch .shallow), ("--verbose", .switch .verbose)]

def shortFlags : List (Char × Flag) := [
  ('c', .setting .converter), ('n', .setting .accessorNamespace), ('p', .setting .pattern),
  ('v', .switch .verbose)]

namespace RunOptions

def set (o : RunOptions) (s : Setting) (value : String) : RunOptions :=
  match s with
  | .converter => { o with converter := some value }
  | .accessorNamespace => { o with accessorNamespace := value }
  | .pattern => { o with patterns := o.patterns ++ [value] }
  | .encoding => { o with encoding := value }
  | .report => { o with report := some value }

def turn (o : RunOptions) (s : Switch) : RunOptions :=
  match s with
  | .internal => { o with internal := true }
  | .exposed => { o with internal := false }
  | .recursive => { o with recursive := true }
  | .shallow => { o with recursive := false }
  | .verbose => { o with verbose := true }

end RunOptions

/-- Whether an argument is read as an option: a lone hyphen is not. -/
def isOption (arg : String) : Bool :=
  arg.toList.head? = some '-' && arg ≠ "-"

def isLong (arg : String) : Bool :=
  ['-', '-'].isPrefixOf arg.toList

/-- Splits at the first equals sign. -/
def splitValue (arg : String) : String × Option String :=
  let cs := arg.toList
  let name := cs.takeWhile (· ≠ '=')
  if cs.contains '=' then
    (String.ofList name, some (String.ofList (cs.drop (name.length + 1))))
  else (arg, none)

/-- What reading one argument leaves open: nothing, or the value of an option. -/
inductive Pending where
  | none
  | value (name : String) (s : Setting)
  deriving DecidableEq

/-- Reads short options written together, without the hyphen. -/
def readShort (o : RunOptions) : List Char → Except UsageFault (RunOptions × Pending)
  | [] => .ok (o, .none)
  | c :: rest =>
    let name := String.ofList ['-', c]
    match shortFlags.lookup c with
    | none => .error (.unknownOption name)
    | some (.switch s) => readShort (o.turn s) rest
    | some (.setting s) =>
      if rest.isEmpty then .ok (o, .value name s) else .ok (o.set s (String.ofList rest), .none)

/-- Reads one option. -/
def readOption (o : RunOptions) (arg : String) : Except UsageFault (RunOptions × Pending) :=
  let (name, explicit) := splitValue arg
  match longFlags.lookup name, explicit with
  | some (.setting s), some value => .ok (o.set s value, .none)
  | some (.setting s), none => .ok (o, .value name s)
  | some (.switch _), some _ => .error (.valueUnwanted name)
  | some (.switch s), none => .ok (o.turn s, .none)
  | none, _ => if isLong arg then .error (.unknownOption name) else readShort o (arg.toList.drop 1)

/-- Reads the arguments of `run`; `plain` holds those that are no options, so far. -/
def readRun (o : RunOptions) (plain : List String) :
    List String → Except UsageFault (RunOptions × List String)
  | [] => .ok (o, plain)
  | arg :: rest =>
    if arg = "--" then .ok (o, plain ++ rest)
    else if !isOption arg then readRun o (plain ++ [arg]) rest
    else
      match readOption o arg with
      | .error fault => .error fault
      | .ok (o, .none) => readRun o plain rest
      | .ok (o, .value name s) =>
        match rest with
        | [] => .error (.valueMissing name)
        | value :: rest => readRun (o.set s value) plain rest

/-- The command `run`. The path of the report is looked at first. A converter must be given, and at
most one directory may be. -/
def parseRun (args : List String) : Except UsageFault Command :=
  match readRun .initial [] args with
  | .error fault => .error fault
  | .ok (o, plain) =>
    if o.report.any TextFile.hasNul then .error .nulInReport
    else if o.converter = none then .error .converterMissing
    else
      match plain with
      | [] => .ok (.run o)
      | [input] => .ok (.run { o with input := some input })
      | _ :: extra => .error (.extraArguments extra)

/-- Arguments where no option is known and none is wanted. -/
def readNone (plain : List String) : List String → Except UsageFault (List String)
  | [] => .ok plain
  | arg :: rest =>
    if arg = "--" then .ok (plain ++ rest)
    else if isOption arg then .error (.unknownOption (splitValue arg).1)
    else readNone (plain ++ [arg]) rest

def parseConverters (args : List String) : Except UsageFault Command :=
  match readNone [] args with
  | .error fault => .error fault
  | .ok [] => .ok .converters
  | .ok extra => .error (.extraArguments extra)

def parseNamed (name : String) (args : List String) : Except UsageFault Command :=
  if name = "run" then parseRun args
  else if name = "converters" then parseConverters args
  else .error (.unknownCommand name)

def parse : List String → Except UsageFault Command
  | [] | ["--"] => .error .noCommand
  | "--" :: name :: args => parseNamed name args
  | name :: args =>
    if isOption name then .error (.unknownOption (splitValue name).1) else parseNamed name args

end ResourceAccessors.CommandLine
