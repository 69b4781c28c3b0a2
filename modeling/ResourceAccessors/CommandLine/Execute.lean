import ResourceAccessors.BuildStep
import ResourceAccessors.CommandLine.Arguments
import ResourceAccessors.CommandLine.Bar
import ResourceAccessors.FileSystem.Canonical
import ResourceAccessors.Loading.Load
import ResourceAccessors.Log
import ResourceAccessors.Text.Lines
import ResourceAccessors.Text.Styles

/-! Executing a command line: what it prints, the code it exits with, and what it leaves behind. -/
namespace ResourceAccessors.CommandLine
set_option autoImplicit false

/-- How a command line ends: with an exit code, cut short with one because nobody listens, aborted
because nothing more can be read, refused for the way it is used, or in a fault. -/
inductive Ending where
  | exit (code : Nat)
  | cutShort (code : Nat)
  | aborted
  | refused (fault : UsageFault)
  | escaped (fault : Fault)

/-- The code that the program exits with. -/
def Ending.code : Ending → Nat
  | exit code | cutShort code => code
  | aborted | escaped _ => 1
  | refused _ => 2

/-- The end of a command line: the lines printed, the complaints printed beside the log, the
progress bars shown (one at most in each display), and how the log was set up, if it was. -/
structure Invocation (κ : Type) where
  ending : Ending
  files : FileSystem
  imports : Imports κ
  events : List Event
  output : List String
  complaints : List String
  bars : List (Option Bar)
  log : Option Log.Setup

/-- The environment of a command line: the surroundings of the program, the converter behind a
loaded one, and the home directory of the user. -/
structure Environment (κ : Type) where
  host : Host κ
  converter : κ → Converter
  home : Option Path

/-- Replaces a leading `~` by the home directory. The home directories of other users are not
known. -/
def expandHome (home : Option Path) (p : Path) : Except Fault Path :=
  match p.anchor, p.names with
  | .relative, first :: rest =>
    if first = "~" then
      match home with
      | some h => .ok ⟨h.anchor, h.names ++ rest⟩
      | none => .error .unknownHome
    else if first.toList.head? = some '~' then .error .unknownHome
    else .ok p
  | _, _ => .ok p

/-- The absolute path without links of a report. -/
def reportPath (home : Option Path) (fs : FileSystem) (given : String) : Except Fault Path :=
  match expandHome home (.ofString given) with
  | .error fault => .error fault
  | .ok p =>
    match fs.canonical p with
    | .error fault => .error (.file fault)
    | .ok resolved =>
      if fs.isLinkLoop resolved then .error (.linkLoop resolved) else .ok resolved

def settings (o : RunOptions) (report : Option Path) : Settings where
  input := some (o.input.getD "")
  accessorNamespace := o.accessorNamespace
  internal := o.internal
  patterns := if o.patterns.isEmpty then defaultPatterns else .several (o.patterns.map some)
  recursive := o.recursive
  encoding := o.encoding
  report := report

def summaryLine (s : Summary) : String :=
  s!"处理完成：共 {s.processed} 个，转换 {s.converted} 个，未变化 {s.unchanged} 个，失败 {s.failed} 个。"

def reportLine (report : Path) : String :=
  s!"报告文件：{report}"

def refusalLine (fault : Fault) : String :=
  s!"配置错误：{fault.message}"

/-- The lines printed after a run. -/
def closingLines (s : Summary) (report : Option Path) : List String :=
  if s.rootMissing then []
  else summaryLine s :: (report.map reportLine).toList

/-- Whether a fault is a refusal of the settings. -/
def isRefusal : Fault → Bool
  | .settings fault => fault.isRefusal
  | .rootMissing _ => true
  | .raised r => r.family = .configuration
  | _ => false

/-- Whether a fault is one of loading a converter. -/
def isLoadFault : Fault → Bool
  | .load _ => true
  | .raised r => r.family = .loading
  | _ => false

/-- The code to exit with when the user cancels. -/
def cancelledCode : Nat := 130

/-- The code to exit with when a pipe is broken. -/
def cutShortCode : Nat := 1

/-- The ending for a fault that nothing contains. -/
def endingOf : Fault → Ending
  | .raised r =>
    match r.family with
    | .cancellation => .exit cancelledCode
    | .endOfInput => .aborted
    | .brokenPipe => .cutShort cutShortCode
    | _ => .escaped (.raised r)
  | fault => .escaped fault

/-- The bar hears every update and never stops a run. -/
def barListener : Listener :=
  fun _ _ => none

variable {κ : Type}

/-- Ends in a fault that nothing contains. An aborted command line leaves an empty line among the
complaints. -/
def Invocation.fail (inv : Invocation κ) (fault : Fault) : Invocation κ :=
  match endingOf fault with
  | .aborted => { inv with ending := .aborted, complaints := inv.complaints ++ [""] }
  | ending => { inv with ending := ending }

/-- The run of loaded settings. -/
def runLoaded (before : Invocation κ) (converter : Converter) (chosen : Settings) :
    Invocation κ :=
  match BuildStep.create converter chosen with
  | .error fault => before.fail fault
  | .ok step =>
    let (trace, after) := step.execute (some barListener) before.files
    let shown := { before with
      files := trace.files
      events := before.events ++ trace.events
      bars := [Bar.after (Log.updates trace.events)] }
    match trace.result with
    | .error fault =>
      if isRefusal fault then
        { shown with ending := .exit 2, complaints := [refusalLine fault] }
      else shown.fail fault
    | .ok succeeded =>
      { shown with
        ending := .exit (if succeeded then 0 else 1)
        output := (after.lastSummary.map fun s => closingLines s chosen.report).getD [] }

/-- The command `run`. The converter is loaded first, then the path of the report is worked out. -/
def executeRun (env : Environment κ) (fs : FileSystem) (imports : Imports κ) (o : RunOptions) :
    Invocation κ :=
  let (loaded, after) := Loading.load env.host fs imports o.converter
  let before : Invocation κ :=
    { ending := .exit 0, files := fs, imports := after, events := [.note .argumentsRead],
      output := [], complaints := [], bars := [], log := some (Log.setup o.verbose) }
  match loaded with
  | .error fault =>
    if isLoadFault fault then { before with ending := .refused (.badConverter fault.message) }
    else before.fail fault
  | .ok found =>
    let before := { before with
      events := before.events ++ [.note (Loading.loadedNote o.converter)] }
    match o.report.mapM (reportPath env.home fs) with
    | .error fault => before.fail fault
    | .ok report => runLoaded before (env.converter found) (settings o report)

def listingLines (names : List String) : List String :=
  if names.isEmpty then ["没有已注册的转换器。"] else names.map fun name => "  " ++ name

/-- Executes the arguments of the command line. A report whose path cannot be looked up is a fault
of the path, not of the way in which the command line is used. -/
def execute (env : Environment κ) (fs : FileSystem) (imports : Imports κ) (args : List String) :
    Invocation κ :=
  let idle : Invocation κ :=
    { ending := .exit 0, files := fs, imports := imports, events := [], output := [],
      complaints := [], bars := [], log := none }
  match parse args with
  | .error .nulInReport => idle.fail (.file .nulInPath)
  | .error fault => { idle with ending := .refused fault }
  | .ok .converters => { idle with output := listingLines (Loading.available env.host) }
  | .ok (.run o) => executeRun env fs imports o

namespace Invocation

/-- The records of the log that are shown. -/
def records (inv : Invocation κ) : List LogRecord :=
  match inv.log with
  | some setup => (Log.records inv.events).filter setup.shows
  | none => []

/-- The lines that appear on the standard output, where styles mean nothing. -/
def outputLines (inv : Invocation κ) : List String :=
  Text.streamLines (inv.output.map Text.withoutStyles)

/-- The lines that appear on the standard error output: the log and then the complaints, where
styles mean nothing. -/
def errorLines (inv : Invocation κ) : List String :=
  Text.streamLines (inv.records.map LogRecord.text ++ inv.complaints.map Text.withoutStyles)

end Invocation

end ResourceAccessors.CommandLine
