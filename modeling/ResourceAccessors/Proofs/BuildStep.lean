import ResourceAccessors.BuildStep
import ResourceAccessors.Proofs.Conversion.Escape
import ResourceAccessors.Proofs.Run.Course

/-! Steps of a build against runs. A step whose patterns are a list does what a run of its settings
does, and remembers the summary of it. A step takes other patterns for a sequence before its settings
are checked, so it agrees with the run, which refuses them, only where it is refused itself. -/
namespace ResourceAccessors
set_option autoImplicit false

open ResourceAccessors.Action

/-- Whether a fault refuses the settings. -/
def Fault.isRefusal : Fault → Bool
  | settings fault => fault.isRefusal
  | _ => false

/-- Two faults are of a kind if both are refusals of settings or they are the same. -/
def Fault.Alike (f g : Fault) : Prop :=
  f = g ∨ (f.isRefusal = true ∧ g.isRefusal = true)

namespace BuildStep

variable {settings : Settings} {converter : Converter} {listener : Option Listener}
  {last : Option Summary} {fs : FileSystem} {text : String}

/-- Making a step and executing it does what a run of the settings does: it ends in the same value or
in a fault of the same kind, leaves the same files, and tells the same. A step whose run ended in a
summary remembers that; any other remembers what it did before. -/
def Agrees (settings : Settings) (converter : Converter) (listener : Option Listener)
    (last : Option Summary) (fs : FileSystem) : Prop :=
  match create converter settings, (run settings converter listener none).run fs with
  | .error fault, ⟨result, after, events⟩ =>
    (∃ other, result = .error other ∧ fault.Alike other) ∧ after = fs ∧ events = []
  | .ok step, ⟨.ok summary, after, events⟩ =>
    execute { step with lastSummary := last } listener fs =
      (⟨.ok summary.succeeded, after, events⟩, { step with lastSummary := some summary })
  | .ok step, ⟨.error fault, after, events⟩ =>
    ∃ other, fault.Alike other ∧ execute { step with lastSummary := last } listener fs =
      (⟨.error other, after, events⟩, { step with lastSummary := last })

/-! ## Lists of patterns -/

theorem resolve_getD (process : Path) (base : Option Path) (input : Option String) :
    Root.resolve process base (some (input.getD "")) = Root.resolve process base input := by
  cases input with
  | some s => rfl
  | none => rfl

/-- An input that is not given may as well be the empty one. -/
theorem run_getD (settings : Settings) (converter : Converter) (listener : Option Listener)
    (base : Option Path) (fs : FileSystem) :
    (run { settings with input := some (settings.input.getD "") } converter listener base).run fs =
      (run settings converter listener base).run fs := by
  have hroot : Run.rootOf { settings with input := some (settings.input.getD "") } base fs =
      Run.rootOf settings base fs := resolve_getD _ _ _
  have hcheck : Settings.check { settings with input := some (settings.input.getD "") } =
      settings.check := rfl
  have hconvert : ∀ root, (Run.convertAll { settings with input := some (settings.input.getD "") }
      converter listener root).run fs = (Run.convertAll settings converter listener root).run fs := by
    intro root
    have hfound : ∀ sources, Run.convertFound
        { settings with input := some (settings.input.getD "") } converter listener root sources =
          Run.convertFound settings converter listener root sources := by
      intro sources
      unfold Run.convertFound
      rw [Run.convertSources_congr]
      rfl
    simp only [Run.run_convertAll, hfound]
  rw [Run.run_eq, Run.run_eq, hroot, hcheck]
  simp only [hconvert]

theorem execute_eq (step : BuildStep) (listener : Option Listener) (fs : FileSystem) :
    step.execute listener fs =
      match (run step.settings step.converter listener none).run fs with
      | ⟨.ok summary, after, events⟩ =>
        (⟨.ok summary.succeeded, after, events⟩, { step with lastSummary := some summary })
      | ⟨.error fault, after, events⟩ => (⟨.error fault, after, events⟩, step) := rfl

theorem create_of_several {items : List (Option String)} (h : settings.patterns = .several items) :
    create converter settings =
      .ok ⟨converter, { settings with input := some (settings.input.getD "") }, none⟩ := by
  cases settings
  simp only at h
  subst h
  rfl

theorem agrees_of_several {items : List (Option String)} (h : settings.patterns = .several items) :
    Agrees settings converter listener last fs := by
  have hsame := run_getD settings converter listener none fs
  unfold Agrees
  rw [create_of_several h]
  cases hrun : (run settings converter listener none).run fs with
  | mk result after events =>
    rw [hrun] at hsame
    cases result with
    | ok summary => simp only [execute_eq, hsame]
    | error fault => exact ⟨fault, .inl rfl, by simp only [execute_eq, hsame]⟩

/-! ## Other patterns -/

/-- The settings of a step whose pattern is a single text. -/
def taken (settings : Settings) (text : String) : Settings :=
  { settings with
    input := some (settings.input.getD "")
    patterns := .several (text.toList.map fun c => some (String.singleton c)) }

theorem create_of_single (h : settings.patterns = .single text) :
    create converter settings = .ok ⟨converter, taken settings text, none⟩ := by
  simp only [create, h, patternSequence, taken]

theorem run_of_refused {fault : SettingsFault} {base : Option Path}
    (h : settings.check = .error fault) :
    (run settings converter listener base).run fs = ⟨.error (.settings fault), fs, []⟩ := by
  rw [Run.run_eq, h]

/-- Settings that pass their check are not refused without a word. -/
theorem not_refused_of_check {base : Option Path} {fault : Fault} {after : FileSystem}
    (h : settings.check = .ok ())
    (hrun : (run settings converter listener base).run fs = ⟨.error fault, after, []⟩) :
    fault.isRefusal = false := by
  rw [Run.run_eq, h] at hrun
  cases hdir : fs.isDirectory (Run.rootOf settings base fs) with
  | error cause =>
    simp only [hdir, Trace.mk.injEq, Except.error.injEq] at hrun
    exact hrun.1 ▸ rfl
  | ok isDir =>
    cases isDir with
    | false => simp [hdir] at hrun
    | true =>
      simp only [hdir, Run.run_convertAll] at hrun
      split at hrun <;> simp [Run.heading] at hrun

theorem agrees_single_iff (h : settings.patterns = .single text) :
    Agrees settings converter listener last fs ↔
      ∃ fault, (taken settings text).check = .error fault ∧ fault.isRefusal = true := by
  have hcheck : settings.check = .error .patternsNotListed := by
    simp only [Settings.check, h, Settings.checkPatterns]
  unfold Agrees
  rw [create_of_single h, run_of_refused hcheck]
  simp only [execute_eq]
  constructor
  · intro ⟨other, halike, hexecute⟩
    have hother : other.isRefusal = true := by
      rcases halike with rfl | ⟨-, h⟩
      · rfl
      · exact h
    cases htaken : (taken settings text).check with
    | error fault =>
      simp only [run_of_refused htaken, Prod.mk.injEq, Trace.mk.injEq, Except.error.injEq]
        at hexecute
      obtain ⟨⟨rfl, -⟩, -⟩ := hexecute
      exact ⟨fault, rfl, hother⟩
    | ok =>
      cases hrun : (run (taken settings text) converter listener none).run fs with
      | mk result after events =>
        cases result with
        | ok summary => simp [hrun] at hexecute
        | error fault =>
          simp only [hrun, Prod.mk.injEq, Trace.mk.injEq, Except.error.injEq] at hexecute
          obtain ⟨⟨rfl, -, rfl⟩, -⟩ := hexecute
          simp [not_refused_of_check htaken hrun] at hother
  · rintro ⟨fault, hfault, hrefusal⟩
    exact ⟨.settings fault, .inr ⟨rfl, hrefusal⟩, by rw [run_of_refused hfault]⟩

theorem not_agrees_of_absent (h : settings.patterns = .absent) :
    ¬ Agrees settings converter listener last fs := by
  have hcheck : settings.check = .error .noPatterns := by
    simp only [Settings.check, h, Settings.checkPatterns]
  have hcreate : create converter settings = .error .patternsNotIterable := by
    simp only [create, h, patternSequence]
  unfold Agrees
  rw [hcreate, run_of_refused hcheck]
  rintro ⟨⟨other, hother, heq | ⟨hrefusal, -⟩⟩, -⟩
  · rw [Except.error.injEq] at hother
    simp [← hother] at heq
  · simp [Fault.isRefusal] at hrefusal

theorem agrees_iff : Agrees settings converter listener last fs ↔
    (∃ items, settings.patterns = .several items) ∨
      ∃ text fault, settings.patterns = .single text ∧
        (taken settings text).check = .error fault ∧ fault.isRefusal = true := by
  cases h : settings.patterns with
  | absent => simp [not_agrees_of_absent h]
  | single text =>
    rw [agrees_single_iff h]
    simp
  | several items => simp [agrees_of_several h]

/-! ## A text in the place of a list -/

def singleText : Settings :=
  { Conversion.plainSettings with patterns := .single "ab" }

/-- A step need not agree with the run of its settings. -/
theorem not_always_agrees :
    ¬ ∀ (settings : Settings) (converter : Converter) (listener : Option Listener)
      (last : Option Summary) (fs : FileSystem), Agrees settings converter listener last fs := by
  intro h
  have htaken : (taken singleText "ab").check = .ok () := rfl
  obtain ⟨fault, hfault, -⟩ := (agrees_single_iff rfl).1
    (h singleText Conversion.nulConverter none none (.empty .usual))
  rw [htaken] at hfault
  simp at hfault

end BuildStep

end ResourceAccessors
