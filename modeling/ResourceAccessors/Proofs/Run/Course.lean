import ResourceAccessors.Proofs.Run.Loop

/-! The course of a run. Before anything is converted a run can come to an end in four ways: its
settings are refused, its root is no directory, it cannot be told whether it is one, or the scan of it
stops. None of them touches a file or asks the converter anything. In all other runs the files that
the scan found are converted, the end is told, and the report is written. -/
namespace ResourceAccessors.Run
set_option autoImplicit false

open ResourceAccessors.Action

variable {settings : Settings} {converter : Converter} {listener : Option Listener}
  {base : Option Path} {fs : FileSystem} {source : SourceFile} {sources : List SourceFile}

/-- What a run tells before it scans its root. -/
def heading (root : Path) : List Event :=
  [.message .blank, .message (.starting root), .message .blank]

/-- The summary of a run whose root is no directory. -/
def missingRoot (root : Path) : Summary :=
  { Summary.empty root with succeeded := false, rootMissing := true }

/-- The conversion of the files found, and what is told of it at its end. -/
def convertSources (settings : Settings) (converter : Converter) (listener : Option Listener)
    (root : Path) (sources : List SourceFile) : Action Summary := do
  let converted ←
    convertFrom settings converter listener sources.length 0 (Summary.empty root) sources
  conclude listener sources.length converted

/-- The part of a run behind its scan. -/
def convertFound (settings : Settings) (converter : Converter) (listener : Option Listener)
    (root : Path) (sources : List SourceFile) : Action Summary := do
  let summary ← convertSources settings converter listener root sources
  writeReport settings.report summary
  return summary

theorem convertSources_returns_iff {root : Path} {summary : Summary} {after : FileSystem} :
    (convertSources settings converter listener root sources).Returns fs summary after ↔
      ∃ os, Converts settings converter listener sources.length 0 fs sources os after ∧
        Heard listener sources.length (finalUpdate sources.length (Summary.recorded root os)) ∧
        summary = concluded (Summary.recorded root os) := by
  simp only [convertSources, returns_bind_iff, convertFrom_returns_iff, conclude_returns_iff]
  constructor
  · rintro ⟨_, mid, ⟨os, hos, rfl⟩, hheard, rfl, rfl⟩
    exact ⟨os, hos, hheard, rfl⟩
  · rintro ⟨os, hos, hheard, rfl⟩
    exact ⟨_, after, ⟨os, hos, rfl⟩, hheard, rfl, rfl⟩

theorem run_writeReport (p : Path) (summary : Summary) (fs : FileSystem) :
    (writeReport (some p) summary).run fs =
      match Report.write fs p summary.outcomes with
      | (.ok (), after) => ⟨.ok (), after, []⟩
      | (.error .nulInPath, after) => ⟨.error (.file .nulInPath), after, []⟩
      | (.error (.tooNested reason), after) => ⟨.error (.file (.tooNested reason)), after, []⟩
      | (.error fault, after) => ⟨.ok (), after, [.note (.reportFailed fault)]⟩ := by
  have hchange : (change fun fs =>
      let written := Report.write fs p summary.outcomes
      (.ok written.1, written.2)).run fs =
        ⟨.ok (Report.write fs p summary.outcomes).1, (Report.write fs p summary.outcomes).2, []⟩ :=
    rfl
  unfold writeReport
  rw [run_bind_ok hchange]
  cases Report.write fs p summary.outcomes with
  | mk result after =>
    cases result with
    | ok => rfl
    | error fault => cases fault <;> rfl

/-- A run that wants a report writes it when all else is done. -/
theorem run_convertFound (settings : Settings) (converter : Converter)
    (listener : Option Listener) (root : Path) (sources : List SourceFile) (fs : FileSystem) :
    (convertFound settings converter listener root sources).run fs =
      match (convertSources settings converter listener root sources).run fs with
      | ⟨.ok summary, mid, events⟩ =>
        let told := (writeReport settings.report summary).run mid
        ⟨told.result.map fun _ => summary, told.files, events ++ told.events⟩
      | ⟨.error fault, mid, events⟩ => ⟨.error fault, mid, events⟩ := by
  unfold convertFound
  cases hsources : (convertSources settings converter listener root sources).run fs with
  | mk result mid events =>
    cases result with
    | error fault => rw [run_bind_error hsources]
    | ok summary =>
      rw [run_bind_ok hsources]
      cases hreport : (writeReport settings.report summary).run mid with
      | mk result after more =>
        cases result with
        | error fault =>
          rw [run_bind_error hreport]
          simp only [hreport, Except.map]
        | ok =>
          rw [run_bind_ok hreport, run_pure]
          simp only [hreport, Except.map, List.append_nil]

/-! ## From the beginning -/

theorem run_eq (settings : Settings) (converter : Converter) (listener : Option Listener)
    (base : Option Path) (fs : FileSystem) :
    (run settings converter listener base).run fs =
      match settings.check, fs.isDirectory (rootOf settings base fs) with
      | .error fault, _ => ⟨.error (.settings fault), fs, []⟩
      | .ok (), .error fault => ⟨.error (.file fault), fs, []⟩
      | .ok (), .ok false => ⟨.ok (missingRoot (rootOf settings base fs)), fs,
          [.message (.rootMissing (rootOf settings base fs))]⟩
      | .ok (), .ok true =>
        (convertAll settings converter listener (rootOf settings base fs)).run fs := by
  have hroot : (ask fun fs => Root.resolve (processDirectory fs) base settings.input).run fs =
      ⟨.ok (rootOf settings base fs), fs, []⟩ := rfl
  have hrequire : (ask fun fs' => Root.require fs' (rootOf settings base fs)).run fs =
      ⟨.ok (Root.require fs (rootOf settings base fs)), fs, []⟩ := rfl
  unfold ResourceAccessors.run
  cases settings.check with
  | error fault => rfl
  | ok =>
    have hchecked : (ofExcept ((Except.ok () : Except SettingsFault Unit).mapError
        Fault.settings)).run fs = ⟨.ok (), fs, []⟩ := rfl
    rw [run_bind_ok hchecked, run_bind_ok hroot, run_bind_ok hrequire, Root.require]
    cases fs.isDirectory (rootOf settings base fs) with
    | error fault => rfl
    | ok isDir =>
      cases isDir with
      | false => rfl
      | true => simp only [List.nil_append]

theorem run_convertAll (settings : Settings) (converter : Converter) (listener : Option Listener)
    (root : Path) (fs : FileSystem) :
    (convertAll settings converter listener root).run fs =
      match Scan.run fs root settings.patterns.texts settings.recursive with
      | .error fault => ⟨.error (.file fault), fs, heading root⟩
      | .ok sources =>
        let rest := (convertFound settings converter listener root sources).run fs
        ⟨rest.result, rest.files,
          heading root ++ .note (.candidates sources.length) :: rest.events⟩ := by
  have hemit : ∀ e, (emit e).run fs = ⟨.ok (), fs, [e]⟩ := fun _ => rfl
  have hask : (ask fun fs => Scan.run fs root settings.patterns.texts settings.recursive).run fs =
      ⟨.ok (Scan.run fs root settings.patterns.texts settings.recursive), fs, []⟩ := rfl
  unfold convertAll say note
  rw [run_bind_ok (hemit _), run_bind_ok (hemit _), run_bind_ok (hemit _), run_bind_ok hask]
  cases Scan.run fs root settings.patterns.texts settings.recursive with
  | error fault => rfl
  | ok sources =>
    have hfound : (ofExcept ((Except.ok sources : Except FileFault (List SourceFile)).mapError
        Fault.file)).run fs = ⟨.ok sources, fs, []⟩ := rfl
    rw [run_bind_ok hfound, run_bind_ok (hemit _)]
    simp only [convertFound, convertSources, bind_assoc]
    rfl

/-- Where a scan finds something, it has scanned a directory. -/
theorem isDirectory_of_scan {root : Path} {patterns : List String} {recursive : Bool} {k : Nat}
    (hscan : Scan.run fs root patterns recursive = .ok sources)
    (hsource : sources[k]? = some source) : fs.isDirectory root = .ok true := by
  unfold Scan.run at hscan
  split at hscan
  · simp at hscan
  · rw [Except.ok.injEq] at hscan
    simp [← hscan] at hsource
  · next hdir => exact hdir

/-! ## Faults -/

theorem conclude_fails {total : Nat} {summary : Summary} {fault : Fault}
    (h : (conclude listener total summary).Fails fs fault) : ∃ raised, fault = .raised raised := by
  have hend : ∀ {update : Progress} {last : Action Summary},
      (∀ fs, ¬ last.Fails fs fault) →
      (announce listener total update >>= fun _ => last).Fails fs fault →
        ∃ raised, fault = .raised raised := by
    intro update last hlast h
    rcases fails_bind_iff.1 h with htold | ⟨_, mid, -, h⟩
    · obtain ⟨_, raised, _, _, rfl⟩ := announce_fails_iff.1 htold
      exact ⟨raised, rfl⟩
    · exact absurd h (hlast mid)
  unfold conclude at h
  split at h
  · simp only [say, fails_bind_of_returns (returns_emit _)] at h
    refine hend (fun fs => ?_) h
    rw [fails_bind_of_returns (returns_emit _)]
    exact returns_pure.not_fails
  · refine hend (fun fs => ?_) h
    simp only [say, fails_bind_of_returns (returns_emit _)]
    exact returns_pure.not_fails

theorem writeReport_fails {report : Option Path} {summary : Summary} {fault : Fault}
    (h : (writeReport report summary).Fails fs fault) :
    ∃ cause, fault = .file cause := by
  cases report with
  | none => exact absurd h returns_pure.not_fails
  | some p =>
    rw [Fails, run_writeReport] at h
    split at h
    · simp at h
    · exact ⟨_, (Except.error.inj h).symm⟩
    · exact ⟨_, (Except.error.inj h).symm⟩
    · simp at h

/-- A run ends in a fault of a text file exactly if the conversion of the files found does. -/
theorem run_fails_text_iff {fault : TextFault} :
    (run settings converter listener base).Fails fs (.text fault) ↔
      settings.check = .ok () ∧ fs.isDirectory (rootOf settings base fs) = .ok true ∧
        ∃ sources, Scan.run fs (rootOf settings base fs) settings.patterns.texts
            settings.recursive = .ok sources ∧
          (convertFrom settings converter listener sources.length 0
            (Summary.empty (rootOf settings base fs)) sources).Fails fs (.text fault) := by
  have hfound : ∀ root sources,
      (convertFound settings converter listener root sources).Fails fs (.text fault) ↔
        (convertFrom settings converter listener sources.length 0 (Summary.empty root)
          sources).Fails fs (.text fault) := by
    intro root sources
    unfold convertFound convertSources
    rw [fails_bind_iff, fails_bind_iff]
    constructor
    · rintro ((h | ⟨_, _, -, h⟩) | ⟨_, mid, -, h⟩)
      · exact h
      · obtain ⟨raised, h⟩ := conclude_fails h
        simp at h
      · rcases fails_bind_iff.1 h with h | ⟨_, _, -, h⟩
        · obtain ⟨cause, hcause⟩ := writeReport_fails h
          simp at hcause
        · exact absurd h returns_pure.not_fails
    · exact fun h => .inl (.inl h)
  rw [Fails, run_eq]
  cases settings.check with
  | error cause => simp
  | ok =>
    cases fs.isDirectory (rootOf settings base fs) with
    | error cause => simp
    | ok isDir =>
      cases isDir with
      | false => simp
      | true =>
        simp only [run_convertAll, true_and]
        cases Scan.run fs (rootOf settings base fs) settings.patterns.texts
            settings.recursive with
        | error cause => simp
        | ok sources =>
          simp only [Except.ok.injEq, exists_eq_left']
          exact hfound _ sources

/-! ## Other settings -/

/-- Behind its scan a run depends on how its settings convert a file and on the report. -/
theorem convertFrom_congr {other : Settings}
    (h : Conversion.step settings converter = Conversion.step other converter)
    (total index : Nat) (summary : Summary) (sources : List SourceFile) :
    convertFrom settings converter listener total index summary sources =
      convertFrom other converter listener total index summary sources := by
  induction sources generalizing index summary with
  | nil => rfl
  | cons source rest ih => simp only [convertFrom, h, ih]

theorem convertSources_congr {other : Settings}
    (h : Conversion.step settings converter = Conversion.step other converter) (root : Path)
    (sources : List SourceFile) :
    convertSources settings converter listener root sources =
      convertSources other converter listener root sources := by
  unfold convertSources
  rw [convertFrom_congr h]

end ResourceAccessors.Run
