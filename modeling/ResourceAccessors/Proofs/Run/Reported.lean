import ResourceAccessors.Proofs.Run.Accounting
import ResourceAccessors.Proofs.Run.Footprint
import ResourceAccessors.Proofs.Run.Course

/-! Runs with a report and without. A run that wants a report is the run that wants none, with the
report written behind it: it comes to the same summary, tells the same on the way, and a report that
cannot be written is one note more. The summary is lost where a path is refused: it holds a NUL
character and the directories above it can be made, or too many of these are missing. -/
namespace ResourceAccessors
set_option autoImplicit false

open ResourceAccessors.Action FileSystem

variable {fs mid after : FileSystem} {p : Path} {os : List Outcome} {summary : Summary}

/-- Two file systems differ at most in the file that a path leads to, and in new directories that the
path names on its way. -/
def FileSystem.DifferOnlyAt (p : Path) (fs after : FileSystem) : Prop :=
  ∀ loc, after.entryAt loc ≠ fs.entryAt loc →
    (after.locate p = .ok loc ∧ ∃ bytes, after.entryAt loc = some (.file bytes)) ∨
      (fs.entryAt loc = none ∧ after.entryAt loc = some .directory ∧
        ∃ n < p.names.length, after.Names (p.take n) loc)

theorem FileSystem.Touched.differOnlyAt (h : Touched [p] [p] fs after) :
    DifferOnlyAt p fs after := by
  intro loc hne
  cases he : after.entryAt loc with
  | none =>
    cases hfs : fs.entryAt loc with
    | none => exact absurd (he.trans hfs.symm) hne
    | some old =>
      obtain ⟨e, hthere, -⟩ := h.keeps.entry hfs
      simp [he] at hthere
  | some e =>
    rcases h.others he fun hfs => hne (he.trans hfs.symm) with
      ⟨bytes, q, rfl, hq, hloc⟩ | ⟨rfl, hfree, q, hq, hn⟩
    all_goals
      rw [List.mem_singleton] at hq
      subst hq
    · exact .inl ⟨hloc, bytes, rfl⟩
    · exact .inr ⟨hfree, rfl, hn⟩

namespace Report

theorem write_refuses_iff (os : List Outcome) {fault : FileFault} :
    ((write fs p os).1 = .error fault ∧ ∀ o q, fault ≠ .obstructed o q) ↔
      fs.Refuses fs.limits.reports p fault :=
  save_refuses_iff _

theorem touched_of_write_error {fault : FileFault} (h : write fs p os = (.error fault, after)) :
    Touched [] [p] fs after :=
  (made_of_save_error (write_eq fs p os ▸ h)).touched

theorem file_of_write (htree : fs.IsTree) (h : write fs p os = (.ok (), after)) :
    ∃ loc, after.locate p = .ok loc ∧
      after.entryAt loc = some (.file (Utf8.encode (text os).toList)) := by
  obtain ⟨ready, place, hmade, hplace⟩ := written_of_save (write_eq fs p os ▸ h)
  exact ⟨_, hplace.locate (hmade.isTree htree), hplace.entryAt_location⟩

end Report

namespace Run

variable {settings : Settings} {converter : Converter} {listener : Option Listener}
  {base : Option Path} {root : Path} {sources : List SourceFile} {events : List Event}

theorem convertFound_with_report (report : Option Path) (hnone : settings.report = none)
    (hfound : (convertFound settings converter listener root sources).run fs =
      ⟨.ok summary, mid, events⟩) :
    summary.rootMissing = false ∧
      (convertFound { settings with report := report } converter listener root sources).run fs =
        let told := (writeReport report summary).run mid
        ⟨told.result.map fun _ => summary, told.files, events ++ told.events⟩ := by
  have hsame : convertSources { settings with report := report } converter listener root sources =
      convertSources settings converter listener root sources := by
    apply convertSources_congr
    rfl
  rw [run_convertFound, hnone] at hfound
  rw [run_convertFound, hsame]
  cases hs : (convertSources settings converter listener root sources).run fs with
  | mk result after told =>
    cases result with
    | error fault => simp [hs] at hfound
    | ok final =>
      simp only [hs, writeReport, run_pure, Except.map, List.append_nil, Trace.mk.injEq,
        Except.ok.injEq] at hfound
      obtain ⟨rfl, rfl, rfl⟩ := hfound
      obtain ⟨os, -, -, rfl⟩ := convertSources_returns_iff.1 ⟨told, hs⟩
      refine ⟨?_, rfl⟩
      rw [concluded_recorded, Summary.recorded_eq]

/-- A run that comes to a summary without a report comes to the same place with one, and there is
the report left to write, unless the root is missing. -/
theorem run_with_report {report : Option Path} (hnone : settings.report = none)
    (hrun : (run settings converter listener base).run fs = ⟨.ok summary, mid, events⟩) :
    (run { settings with report := report } converter listener base).run fs =
      if summary.rootMissing then ⟨.ok summary, mid, events⟩
      else
        let told := (writeReport report summary).run mid
        ⟨told.result.map fun _ => summary, told.files, events ++ told.events⟩ := by
  have hroot : rootOf { settings with report := report } base fs = rootOf settings base fs := rfl
  have hcheck : Settings.check { settings with report := report } = settings.check := rfl
  rw [run_eq, hcheck, hroot]
  rw [run_eq] at hrun
  cases hc : settings.check with
  | error fault => simp [hc] at hrun
  | ok =>
    cases hdir : fs.isDirectory (rootOf settings base fs) with
    | error fault => simp [hc, hdir] at hrun
    | ok isDir =>
      cases isDir with
      | false =>
        simp only [hc, hdir, Trace.mk.injEq, Except.ok.injEq] at hrun ⊢
        obtain ⟨rfl, rfl, rfl⟩ := hrun
        rfl
      | true =>
        simp only [hc, hdir, run_convertAll] at hrun ⊢
        cases hscan : Scan.run fs (rootOf settings base fs) settings.patterns.texts
            settings.recursive with
        | error fault => simp [hscan] at hrun
        | ok sources =>
          cases hfound : (convertFound settings converter listener (rootOf settings base fs)
              sources).run fs with
          | mk result mid told =>
            simp only [hscan, hfound, Trace.mk.injEq] at hrun ⊢
            obtain ⟨rfl, rfl, rfl⟩ := hrun
            obtain ⟨hthere, hreported⟩ := convertFound_with_report report hnone hfound
            simp [hreported, hthere]

theorem run_reports (htree : fs.IsTree) (hnone : settings.report = none)
    (hrun : (run settings converter listener base).run fs = ⟨.ok summary, mid, events⟩) :
    (summary.rootMissing = true →
      (run { settings with report := some p } converter listener base).run fs =
        ⟨.ok summary, mid, events⟩) ∧
    (summary.rootMissing = false → (∀ fault, ¬ mid.Refuses mid.limits.reports p fault) →
      ∃ after notes,
      (run { settings with report := some p } converter listener base).run fs =
          ⟨.ok summary, after, events ++ notes⟩ ∧
        DifferOnlyAt p mid after ∧
        ((notes = [] ∧ ∃ loc, after.locate p = .ok loc ∧
            after.entryAt loc = some (.file (Utf8.encode (Report.text summary.outcomes).toList))) ∨
          ∃ fault, notes = [.note (.reportFailed fault)] ∧
            ∀ loc bytes, after.entryAt loc = some (.file bytes) ↔
              mid.entryAt loc = some (.file bytes))) ∧
    (summary.rootMissing = false → ∀ fault, mid.Refuses mid.limits.reports p fault → ∃ after,
      (run { settings with report := some p } converter listener base).run fs =
          ⟨.error (.file fault), after, events⟩ ∧
        DifferOnlyAt p mid after ∧
        ∀ loc bytes, after.entryAt loc = some (.file bytes) ↔
          mid.entryAt loc = some (.file bytes)) := by
  have hmid : mid.IsTree := by
    obtain ⟨sources, _, hcomposed⟩ := composed_of_returns ⟨events, hrun⟩
    have hreported := hcomposed.reported
    rw [hnone] at hreported
    exact hreported.eq_of_none ▸ (hcomposed.converts.touched htree).2
  have htold := run_writeReport p summary mid
  have htouched := Report.touched hmid p summary.outcomes
  rw [run_with_report hnone hrun]
  cases hwrite : Report.write mid p summary.outcomes with
  | mk result after =>
    rw [hwrite] at htold htouched
    have hrefuses : ∀ {fault}, (result = .error fault ∧ ∀ o q, fault ≠ .obstructed o q) ↔
        mid.Refuses mid.limits.reports p fault := by
      intro fault
      rw [← Report.write_refuses_iff summary.outcomes, hwrite]
    have hsame : ∀ {fault}, result = .error fault → ∀ loc bytes,
        after.entryAt loc = some (.file bytes) ↔ mid.entryAt loc = some (.file bytes) := by
      rintro fault rfl loc bytes
      have hfiles := Report.touched_of_write_error hwrite
      exact ⟨hfiles.file_eq, hfiles.entryAt_eq⟩
    refine ⟨fun hmissing => if_pos hmissing, fun hthere haccepted => ?_,
      fun hthere fault hrefused => ?_⟩
    · cases result with
      | ok =>
        refine ⟨after, [], ?_, htouched.differOnlyAt, .inl ⟨rfl, Report.file_of_write hmid hwrite⟩⟩
        simp [hthere, htold, Except.map]
      | error fault =>
        cases fault with
        | nulInPath => exact absurd (hrefuses.1 ⟨rfl, by simp⟩) (haccepted _)
        | tooNested reason => exact absurd (hrefuses.1 ⟨rfl, by simp⟩) (haccepted _)
        | obstructed obstacle q =>
          refine ⟨after, [.note (.reportFailed (.obstructed obstacle q))], ?_,
            htouched.differOnlyAt, .inr ⟨_, rfl, hsame rfl⟩⟩
          simp [hthere, htold, Except.map]
    · obtain ⟨rfl, hnot⟩ := hrefuses.2 hrefused
      refine ⟨after, ?_, htouched.differOnlyAt, hsame rfl⟩
      cases fault with
      | obstructed obstacle q => exact absurd rfl (hnot obstacle q)
      | nulInPath | tooNested => simp [hthere, htold, Except.map]

/-! ## A report where a directory is -/

def overDirectory : Settings :=
  { Conversion.plainSettings with report := some ⟨.root, ["a"]⟩ }

/-- Both resources have the same output, so the second of them finds it as it is. -/
def oneOutputSummary : Summary :=
  concluded (Summary.recorded ⟨.root, []⟩
    [Conversion.finished (resourceOf "a") ⟨.root, ["l"]⟩ true,
      Conversion.finished (resourceOf "b") ⟨.root, ["l"]⟩ false])

theorem returns_oneOutput :
    (run Conversion.plainSettings linkedConverter none none).Returns twoResources oneOutputSummary
      (twoResources.set ["l"] (.file [0x63])) :=
  returns_iff.2 ⟨rfl, rfl⟩

theorem run_reports_overDirectory :
    ∃ events after notes,
      (run Conversion.plainSettings linkedConverter none none).run twoResources =
        ⟨.ok oneOutputSummary, twoResources.set ["l"] (.file [0x63]), events⟩ ∧
      (run overDirectory linkedConverter none none).run twoResources =
        ⟨.ok oneOutputSummary, after, events ++ notes⟩ ∧
      oneOutputSummary.processed = 2 := by
  obtain ⟨events, hrun⟩ := returns_oneOutput
  have haccepted : ∀ fault, ¬ (twoResources.set ["l"] (.file [0x63])).Refuses
      (twoResources.set ["l"] (.file [0x63])).limits.reports ⟨.root, ["a"]⟩ fault := by
    intro fault hrefused
    cases hrefused with
    | nul hnul _ =>
      obtain ⟨name, hname, hmem⟩ := hnul
      rw [List.mem_singleton] at hname
      subst hname
      exact absurd hmem (by decide)
    | tooNested hdeep => exact absurd hdeep (by decide +kernel)
  obtain ⟨after, notes, htold, -⟩ := (run_reports twoResources_isTree rfl hrun).2.1 rfl haccepted
  exact ⟨events, after, notes, hrun, htold, rfl⟩

/-! ## A report that cannot be named -/

/-- The summary of a run may be lost to its report. -/
theorem not_run_always_reports :
    ¬ ∀ (settings : Settings) (converter : Converter) (listener : Option Listener)
      (base : Option Path) (p : Path) (fs mid : FileSystem) (summary : Summary), fs.IsTree →
      settings.report = none → (run settings converter listener base).Returns fs summary mid →
      ∃ after, (run { settings with report := some p } converter listener base).Returns fs summary
        after := by
  intro h
  obtain ⟨after, hreturns⟩ := h Conversion.plainSettings linkedConverter none none
    ⟨.root, ["r\x00"]⟩ twoResources _ _ twoResources_isTree rfl returns_oneOutput
  obtain ⟨events, hrun⟩ := returns_oneOutput
  have hfault : ((run { Conversion.plainSettings with report := some ⟨.root, ["r\x00"]⟩ }
      linkedConverter none none).run twoResources).result = .error (.file .nulInPath) := by
    rw [run_with_report rfl hrun]
    rfl
  rw [(returns_iff.1 hreturns).1] at hfault
  simp at hfault

end Run

end ResourceAccessors
