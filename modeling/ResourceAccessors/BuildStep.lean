import ResourceAccessors.Run

/-! A step of a build: settings and a converter kept together, run any number of times, with the
summary of the last run that ended. -/
namespace ResourceAccessors
set_option autoImplicit false

structure BuildStep where
  converter : Converter
  settings : Settings
  lastSummary : Option Summary

namespace BuildStep

/-- Patterns are taken for a sequence: a single text is that of its characters. -/
def patternSequence : PatternList → Except Fault PatternList
  | .absent => .error .patternsNotIterable
  | .single text => .ok (.several (text.toList.map fun c => some (String.singleton c)))
  | .several items => .ok (.several items)

/-- A new step. An input that is not given is the empty one. -/
def create (converter : Converter) (settings : Settings) : Except Fault BuildStep :=
  match patternSequence settings.patterns with
  | .error fault => .error fault
  | .ok patterns =>
    .ok ⟨converter, { settings with input := some (settings.input.getD ""), patterns := patterns },
      none⟩

/-- Runs the step and tells whether the run succeeded; the step afterwards remembers the summary. A
run that ends in a fault leaves the step as it was. -/
def execute (step : BuildStep) (listener : Option Listener) (fs : FileSystem) :
    Trace Bool × BuildStep :=
  match (run step.settings step.converter listener none).run fs with
  | ⟨.ok summary, files, events⟩ =>
    (⟨.ok summary.succeeded, files, events⟩, { step with lastSummary := some summary })
  | ⟨.error fault, files, events⟩ => (⟨.error fault, files, events⟩, step)

end BuildStep

end ResourceAccessors
