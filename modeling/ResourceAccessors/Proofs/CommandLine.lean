import ResourceAccessors.CommandLine.Execute
import ResourceAccessors.Proofs.BuildStep
import ResourceAccessors.Proofs.Run.Accounting
import ResourceAccessors.Proofs.Run.Quiet

/-! Command lines against runs. The command `run` loads its converter, works out what its options ask
for, and does what a run of these settings does. The code it exits with tells a refusal, a failure
and a success apart. -/
namespace ResourceAccessors
set_option autoImplicit false

open ResourceAccessors.Action

namespace Run

variable {settings : Settings} {converter : Converter} {listener : Option Listener}
  {base : Option Path} {fs after : FileSystem} {summary : Summary}

end Run

namespace CommandLine

variable {κ : Type} {env : Environment κ} {fs : FileSystem} {imports loaded : Imports κ}
  {args : List String} {o : RunOptions} {found : κ} {s : Settings} {report : Option Path}
  {listener : Option Listener} {fault : Fault} {summary : Summary} {after : FileSystem}
  {events : List Event}

/-! ## What the options ask for -/

/-- The settings that the options of a command line stand for. -/
structure Meant (home : Option Path) (fs : FileSystem) (o : RunOptions) (s : Settings) : Prop where
  input : s.input = some (o.input.getD "")
  accessorNamespace : s.accessorNamespace = o.accessorNamespace
  internal : s.internal = o.internal
  patterns : s.patterns =
    .several (if o.patterns = [] then [some "LocalizedText.resx"] else o.patterns.map some)
  recursive : s.recursive = o.recursive
  encoding : s.encoding = o.encoding
  report : match o.report with
    | none => s.report = none
    | some given => ∃ p q, expandHome home (.ofString given) = .ok p ∧ fs.canonical p = .ok q ∧
      fs.isLinkLoop q = false ∧ s.report = some q

theorem Meant.settings_eq {home : Option Path} (h : Meant home fs o s) :
    o.report.mapM (reportPath home fs) = .ok s.report ∧ s = settings o s.report := by
  constructor
  · have hreport := h.report
    split at hreport
    · next hnone =>
      rw [hnone, hreport]
      rfl
    · next given hgiven =>
      obtain ⟨p, q, hexpand, hcanonical, hloop, hs⟩ := hreport
      have hpath : reportPath home fs given = .ok q := by
        simp [reportPath, hexpand, hcanonical, hloop]
      rw [hgiven, hs, Option.mapM_some, hpath]
      rfl
  · have hpatterns := h.patterns
    obtain ⟨input, accessorNamespace, internal, patterns, recursive, encoding, report⟩ := s
    unfold settings
    simp only at hpatterns
    rw [Settings.mk.injEq]
    refine ⟨h.input, h.accessorNamespace, h.internal, ?_, h.recursive, h.encoding, rfl⟩
    rw [hpatterns]
    cases o.patterns with
    | nil => rfl
    | cons p ps => rfl

/-! ## How a command line ends -/

theorem execute_of_parse (hparse : parse args = .ok (.run o)) :
    execute env fs imports args = executeRun env fs imports o := by
  unfold execute
  rw [hparse]

/-- What is known of a command line when its run begins. -/
def begun (fs : FileSystem) (loaded : Imports κ) (o : RunOptions) : Invocation κ where
  ending := .exit 0
  files := fs
  imports := loaded
  events := [.note .argumentsRead, .note (Loading.loadedNote o.converter)]
  output := []
  complaints := []
  bars := []
  log := some (Log.setup o.verbose)

theorem executeRun_of_loaded
    (hload : Loading.load env.host fs imports o.converter = (.ok found, loaded))
    (hreport : o.report.mapM (reportPath env.home fs) = .ok report) :
    executeRun env fs imports o =
      runLoaded (begun fs loaded o) (env.converter found) (settings o report) := by
  unfold executeRun
  rw [hload]
  simp only [hreport]
  rfl

theorem Meant.create_eq {home : Option Path} (h : Meant home fs o s) (converter : Converter) :
    BuildStep.create converter s = .ok ⟨converter, s, none⟩ := by
  have hinput : { s with input := some (s.input.getD "") } = s := by
    rw [h.input, Option.getD_some, ← h.input]
  rw [BuildStep.create_of_several h.patterns, hinput]

variable {before : Invocation κ} {converter : Converter}

theorem runLoaded_returns (hcreate : BuildStep.create converter s = .ok ⟨converter, s, none⟩)
    (h : (run s converter (some barListener) none).run before.files =
      ⟨.ok summary, after, events⟩) :
    runLoaded before converter s =
      { before with
        files := after
        events := before.events ++ events
        bars := [Bar.after (Log.updates events)]
        ending := .exit (if summary.succeeded then 0 else 1)
        output := closingLines summary s.report } := by
  unfold runLoaded
  rw [hcreate]
  simp only [BuildStep.execute_eq, h]
  rfl

theorem barListener_quiet : Run.Quiet (some barListener) := by
  intro ordinal update hear h
  rw [← Option.some.inj h]
  rfl

/-- Surroundings in which one converter is registered. -/
def registered (converter : Converter) : Environment Unit where
  host := ⟨fun _ => .ok [], [⟨"x", .ok (.callable ())⟩]⟩
  converter := fun _ => converter
  home := none

end CommandLine

end ResourceAccessors
