import ResourceAccessors.Action
import ResourceAccessors.Text.Template

/-! The log of an action: which of its events are logged, by whom, and how severe they are. Progress
and calls of the converter are not logged. -/
namespace ResourceAccessors
set_option autoImplicit false

inductive Severity where
  | debug
  | info
  | warning
  | error
  deriving DecidableEq

def Severity.label : Severity → String
  | debug => "DEBUG"
  | info => "INFO"
  | warning => "WARNING"
  | error => "ERROR"

def Severity.rank : Severity → Nat
  | debug => 0
  | info => 1
  | warning => 2
  | error => 3

/-- Who speaks in the log: the run to its user, or one of its parts about itself. -/
inductive Channel where
  | user
  | run
  | conversion
  | output
  | loading
  | commandLine
  deriving DecidableEq

structure LogRecord where
  severity : Severity
  channel : Channel
  text : String
  deriving DecidableEq

/-- Success is news like any other. -/
def Tone.severity : Tone → Severity
  | info | success => .info
  | warning => .warning
  | error => .error

def Message.logged (m : Message) : LogRecord :=
  ⟨m.tone.severity, .user, m.text⟩

/-- The record of a message in words of its own: a template, and what is put into it. -/
def Tone.record (tone : Tone) (template : Text.Argument) (arguments : List Text.Argument) :
    Except Text.TemplateFault LogRecord :=
  (Text.fill template.shown arguments).map fun text => ⟨tone.severity, .user, text⟩

def Note.logged (n : Note) : LogRecord :=
  match n with
  | argumentsRead => ⟨.debug, .commandLine, n.text⟩
  | loaded _ => ⟨.debug, .loading, n.text⟩
  | candidates _ => ⟨.debug, .run, n.text⟩
  | converterRaised _ => ⟨.debug, .conversion, n.text⟩
  | unchanged _ | written _ => ⟨.debug, .output, n.text⟩
  | reportFailed _ => ⟨.error, .run, n.text⟩

def Event.logged? : Event → Option LogRecord
  | message m => some m.logged
  | note n => some n.logged
  | progress _ | call _ => none

namespace Log

def records (events : List Event) : List LogRecord :=
  events.filterMap Event.logged?

def messages (events : List Event) : List Message :=
  events.filterMap fun | .message m => some m | _ => none

def updates (events : List Event) : List Progress :=
  events.filterMap fun | .progress p => some p | _ => none

def calls (events : List Event) : List Request :=
  events.filterMap fun | .call r => some r | _ => none

/-- How the log of the program is set up: the least severity shown and the form of a line. -/
structure Setup where
  threshold : Severity
  format : String
  deriving DecidableEq

def quiet : Setup := ⟨.info, "%(message)s"⟩

def verbose : Setup := ⟨.debug, "%(asctime)s %(levelname)s %(name)s: %(message)s"⟩

def setup (isVerbose : Bool) : Setup :=
  if isVerbose then verbose else quiet

def Setup.shows (s : Setup) (r : LogRecord) : Bool :=
  s.threshold.rank ≤ r.severity.rank

end Log

end ResourceAccessors
