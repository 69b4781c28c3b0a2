import ResourceAccessors.Conversion.Step
import ResourceAccessors.Report
import ResourceAccessors.Root
import ResourceAccessors.Scan

/-! A run: the settings are checked, the root is worked out and scanned, every file found is
converted in order whatever became of those before it, and at the end the summary is told and the
report written. -/
namespace ResourceAccessors
set_option autoImplicit false

/-- Who follows the progress of a run. A listener hears the number of updates before this one and
the update, and may answer with a fault, which ends the run. -/
abbrev Listener := Nat → Progress → Option Raised

namespace Run

/-- Tells the listener, if there is one, its `ordinal`-th update. -/
def announce (listener : Option Listener) (ordinal : Nat) (update : Progress) : Action Unit :=
  match listener with
  | none => return ()
  | some hear => do
    Action.emit (.progress update)
    match hear ordinal update with
    | some raised => Action.fail (.raised raised)
    | none => return ()

def sayAll : List Message → Action Unit
  | [] => return ()
  | m :: rest => do
    Action.say m
    sayAll rest

/-- The update after a file. -/
def fileUpdate (index total : Nat) (o : Outcome) : Progress :=
  ⟨total, index, some s!"完成 {o.relative}", .running⟩

/-- The update after the last file. -/
def lastUpdate (total : Nat) (succeeded : Bool) : Progress :=
  ⟨total, total, some "处理完成", if succeeded then .done else .failed⟩

/-- The only update of a run that found nothing. -/
def emptyUpdate : Progress :=
  ⟨0, 0, some "没有需要转换的文件", .done⟩

/-- Converts the files from the `index`-th on, counted from zero. -/
def convertFrom (settings : Settings) (converter : Converter) (listener : Option Listener)
    (total index : Nat) (summary : Summary) : List SourceFile → Action Summary
  | [] => return summary
  | source :: rest => do
    let outcome ← Conversion.step settings converter index source
    sayAll (Message.ofOutcome outcome)
    announce listener index (fileUpdate (index + 1) total outcome)
    convertFrom settings converter listener total (index + 1) (summary.record outcome) rest

/-- Tells how the run went. It succeeded if no file failed. -/
def conclude (listener : Option Listener) (total : Nat) (summary : Summary) : Action Summary := do
  if 0 < summary.processed then
    let succeeded := decide (summary.failed = 0)
    Action.say .blank
    Action.say (.totals summary.processed summary.converted summary.failed)
    Action.say (if succeeded then .allConverted else .someFailed)
    announce listener total (lastUpdate total succeeded)
    Action.say .blank
    return { summary with succeeded := succeeded }
  else
    announce listener total emptyUpdate
    Action.say (.nothingFound summary.root)
    Action.say .blank
    return summary

/-- Writes the report where one is wanted. A report that cannot be written is only noted, unless
its path cannot be looked up at all or has too many levels. -/
def writeReport (report : Option Path) (summary : Summary) : Action Unit :=
  match report with
  | none => return ()
  | some p => do
    let result ← Action.change fun fs =>
      let after := Report.write fs p summary.outcomes
      (.ok after.1, after.2)
    match result with
    | .ok () => return ()
    | .error .nulInPath => Action.fail (.file .nulInPath)
    | .error (.tooNested reason) => Action.fail (.file (.tooNested reason))
    | .error fault => Action.note (.reportFailed fault)

/-- The part of a run behind the check of the root. -/
def convertAll (settings : Settings) (converter : Converter) (listener : Option Listener)
    (root : Path) : Action Summary := do
  Action.say .blank
  Action.say (.starting root)
  Action.say .blank
  let found ← Action.ask fun fs =>
    Scan.run fs root settings.patterns.texts settings.recursive
  let sources ← Action.ofExcept (found.mapError .file)
  Action.note (.candidates sources.length)
  let converted ←
    convertFrom settings converter listener sources.length 0 (Summary.empty root) sources
  let summary ← conclude listener sources.length converted
  writeReport settings.report summary
  return summary

/-- The working directory of the process, as a path. -/
def processDirectory (fs : FileSystem) : Path :=
  ⟨.root, fs.workingDirectory⟩

end Run

/-- Runs the settings with a converter. `base` is the directory that the input is read from, if it
is not the working directory. A root that is no directory is told and makes the run a failed one. -/
def run (settings : Settings) (converter : Converter) (listener : Option Listener)
    (base : Option Path) : Action Summary := do
  Action.ofExcept (settings.check.mapError .settings)
  let root ← Action.ask fun fs => Root.resolve (Run.processDirectory fs) base settings.input
  match ← Action.ask fun fs => Root.require fs root with
  | .error (.rootMissing missing) => do
    Action.say (.rootMissing missing)
    return { Summary.empty root with succeeded := false, rootMissing := true }
  | .error fault => Action.fail fault
  | .ok () => Run.convertAll settings converter listener root

end ResourceAccessors
