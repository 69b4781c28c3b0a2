import ResourceAccessors.Proofs.CommandLine
import ResourceAccessors.Proofs.Run.Noted

/-! The line that names the report. A command line that wants a report prints it exactly if its run
returns and had a root, whether or not the report could be written. What is told apart in the log is
not told apart in the lines printed. -/
namespace ResourceAccessors.CommandLine
set_option autoImplicit false

open ResourceAccessors.Action

variable {κ : Type} {env : Environment κ} {fs after : FileSystem} {imports loaded : Imports κ}
  {args : List String} {o : RunOptions} {found : κ} {s : Settings} {report : Option Path}
  {home : Option Path} {p : Path} {fault : Fault} {summary : Summary} {events : List Event}
  {before : Invocation κ} {converter : Converter}

/-! ## Command lines whose run returns -/

/-- The command `run` comes to a run that wants its report at a path, returns, and had a root. -/
def Ran (env : Environment κ) (fs : FileSystem) (imports : Imports κ) (o : RunOptions) (p : Path)
    (summary : Summary) (after : FileSystem) : Prop :=
  ∃ found loaded s, Loading.load env.host fs imports o.converter = (.ok found, loaded) ∧
    Meant env.home fs o s ∧ s.report = some p ∧
    (run s (env.converter found) none none).Returns fs summary after ∧ summary.rootMissing = false

theorem Meant.unique {other : Settings} (h : Meant home fs o s) (hother : Meant home fs o other) :
    s = other := by
  obtain ⟨hreport, hs⟩ := h.settings_eq
  obtain ⟨hreport', hother⟩ := hother.settings_eq
  have hsame : s.report = other.report := Except.ok.inj (hreport.symm.trans hreport')
  rw [hs, hother, hsame]

theorem Meant.exists_report (h : Meant home fs o s) (hreport : o.report.isSome = true) :
    ∃ p, s.report = some p := by
  obtain ⟨given, hgiven⟩ := Option.isSome_iff_exists.1 hreport
  have hpath := h.report
  rw [hgiven] at hpath
  obtain ⟨_, q, -, -, -, hq⟩ := hpath
  exact ⟨q, hq⟩

/-- The bar that follows the run of a command line makes no difference to what it comes to. -/
theorem ran_iff (hload : Loading.load env.host fs imports o.converter = (.ok found, loaded))
    (hmeant : Meant env.home fs o s) : Ran env fs imports o p summary after ↔ s.report = some p ∧
      (run s (env.converter found) (some barListener) none).Returns fs summary after ∧
      summary.rootMissing = false := by
  constructor
  · rintro ⟨found', loaded', s', hload', hmeant', hp, ⟨events, hrun⟩, hthere⟩
    obtain rfl := Except.ok.inj (Prod.mk.inj (hload.symm.trans hload')).1
    obtain rfl := hmeant.unique hmeant'
    exact ⟨hp, Run.run_of_quiet Run.quiet_none barListener_quiet hrun, hthere⟩
  · rintro ⟨hp, ⟨events, hrun⟩, hthere⟩
    exact ⟨found, loaded, s, hload, hmeant, hp,
      Run.run_of_quiet barListener_quiet Run.quiet_none hrun, hthere⟩

theorem Ran.unique {q : Path} {other : Summary} {later : FileSystem}
    (h : Ran env fs imports o p summary after) (hother : Ran env fs imports o q other later) :
    p = q ∧ summary = other := by
  obtain ⟨found, loaded, s, hload, hmeant, hp, hrun, -⟩ := h
  obtain ⟨found', loaded', s', hload', hmeant', hq, hrun', -⟩ := hother
  obtain rfl := Except.ok.inj (Prod.mk.inj (hload.symm.trans hload')).1
  obtain rfl := hmeant.unique hmeant'
  exact ⟨Option.some.inj (hp.symm.trans hq), (hrun.unique hrun').1⟩

/-! ## What is printed -/

theorem reportPath_eq_ok {given : String} (h : reportPath home fs given = .ok p) :
    ∃ q, expandHome home (.ofString given) = .ok q ∧ fs.canonical q = .ok p ∧
      fs.isLinkLoop p = false := by
  unfold reportPath at h
  split at h
  · simp at h
  · next q hexpand =>
    split at h
    · simp at h
    · next resolved hcanonical =>
      split at h
      · simp at h
      · next hloop =>
        obtain rfl := Except.ok.inj h
        exact ⟨q, hexpand, hcanonical, by simpa using hloop⟩

theorem meant_settings (h : o.report.mapM (reportPath home fs) = .ok report) :
    Meant home fs o (settings o report) := by
  refine ⟨rfl, rfl, rfl, ?_, rfl, rfl, ?_⟩
  · simp only [settings, List.isEmpty_iff]
    split <;> rfl
  · cases hgiven : o.report with
    | none =>
      rw [hgiven] at h
      exact (Except.ok.inj h).symm
    | some given =>
      rw [hgiven, Option.mapM_some] at h
      cases hpath : reportPath home fs given with
      | error fault =>
        rw [hpath] at h
        cases h
      | ok p =>
        rw [hpath] at h
        obtain ⟨q, hexpand, hcanonical, hloop⟩ := reportPath_eq_ok hpath
        exact ⟨q, p, hexpand, hcanonical, hloop, (Except.ok.inj h).symm⟩

theorem fail_output (inv : Invocation κ) (fault : Fault) :
    (inv.fail fault).output = inv.output ∧ (inv.fail fault).events = inv.events := by
  unfold Invocation.fail
  split <;> exact ⟨rfl, rfl⟩

theorem runLoaded_fails (hcreate : BuildStep.create converter s = .ok ⟨converter, s, none⟩)
    (h : (run s converter (some barListener) none).run before.files =
      ⟨.error fault, after, events⟩) :
    (runLoaded before converter s).output = before.output ∧
      (runLoaded before converter s).events = before.events ++ events := by
  unfold runLoaded
  rw [hcreate]
  simp only [BuildStep.execute_eq, h]
  split
  · exact ⟨rfl, rfl⟩
  · exact fail_output _ _

/-- A command line that does not come to a run prints nothing. -/
theorem executeRun_unbegun
    (h : ∀ found loaded s, Loading.load env.host fs imports o.converter = (.ok found, loaded) →
      ¬ Meant env.home fs o s) :
    (executeRun env fs imports o).output = [] ∧
      ¬ Run.ReportFailed (executeRun env fs imports o).events := by
  unfold executeRun
  cases hload : Loading.load env.host fs imports o.converter with
  | mk result loaded =>
    cases result with
    | error fault =>
      simp only
      split
      · exact ⟨rfl, by simp [Run.ReportFailed, Event.isReportFailure]⟩
      · rw [(fail_output _ _).1, (fail_output _ _).2]
        exact ⟨rfl, by simp [Run.ReportFailed, Event.isReportFailure]⟩
    | ok found =>
      cases hreport : o.report.mapM (reportPath env.home fs) with
      | error fault =>
        simp only
        rw [(fail_output _ _).1, (fail_output _ _).2]
        exact ⟨rfl, by simp [Run.ReportFailed, Loading.loadedNote, Event.isReportFailure]⟩
      | ok report => exact absurd (meant_settings hreport) (h found loaded _ hload)

theorem begun_silent (fs : FileSystem) (loaded : Imports κ) (o : RunOptions) :
    ¬ Run.ReportFailed (begun fs loaded o).events := by
  simp [Run.ReportFailed, begun, Loading.loadedNote, Event.isReportFailure]

/-- A line of the output names a report. -/
def Invocation.Announces (inv : Invocation κ) : Prop :=
  ∃ p, reportLine p ∈ inv.output

/-- How a command line goes that wants a report: it comes to no run that returns and had a root,
prints nothing, and notes no failure of the report; or it comes to such a run and names the report,
which is there unless the failure is noted. -/
inductive Went (env : Environment κ) (fs : FileSystem) (imports : Imports κ) (o : RunOptions)
    (inv : Invocation κ) : Prop
  | unannounced : (∀ p summary, ¬ Ran env fs imports o p summary inv.files) → inv.output = [] →
      ¬ Run.ReportFailed inv.events → Went env fs imports o inv
  | announced {p : Path} {summary : Summary} : Ran env fs imports o p summary inv.files →
      inv.output = [summaryLine summary, reportLine p] →
      (Report.Holds inv.files p summary.outcomes ↔ ¬ Run.ReportFailed inv.events) →
      Went env fs imports o inv

theorem went_of_loaded (htree : fs.IsTree) (hreport : o.report.isSome = true)
    (hload : Loading.load env.host fs imports o.converter = (.ok found, loaded))
    (hmeant : Meant env.home fs o s) :
    Went env fs imports o (runLoaded (begun fs loaded o) (env.converter found) s) := by
  obtain ⟨p, hp⟩ := hmeant.exists_report hreport
  have hcreate := hmeant.create_eq (env.converter found)
  cases hrun : (run s (env.converter found) (some barListener) none).run fs with
  | mk result after events =>
    have hnote := Run.returns_of_reportFailed htree hp hrun
    have hsilent : ¬ Run.ReportFailed events →
        ¬ Run.ReportFailed ((begun fs loaded o).events ++ events) :=
      fun hnone hboth => (Run.reportFailed_append.1 hboth).elim (begun_silent fs loaded o) hnone
    cases result with
    | error fault =>
      obtain ⟨houtput, hevents⟩ :
          (runLoaded (begun fs loaded o) (env.converter found) s).output = [] ∧
            (runLoaded (begun fs loaded o) (env.converter found) s).events =
              (begun fs loaded o).events ++ events := runLoaded_fails hcreate hrun
      refine .unannounced (fun q other hran => ?_) houtput ?_
      · obtain ⟨-, ⟨told, hreturns⟩, -⟩ := (ran_iff hload hmeant).1 hran
        simp [hrun] at hreturns
      · rw [hevents]
        apply hsilent
        intro hfailed
        obtain ⟨_, hok, -⟩ := hnote hfailed
        simp at hok
    | ok summary =>
      rw [runLoaded_returns hcreate hrun]
      cases hmissing : summary.rootMissing with
      | true =>
        refine .unannounced (fun q other hran => ?_) (by simp [closingLines, hmissing]) ?_
        · obtain ⟨-, ⟨told, hreturns⟩, hthere⟩ := (ran_iff hload hmeant).1 hran
          obtain rfl : summary = other := by simp_all
          simp [hmissing] at hthere
        · apply hsilent
          intro hfailed
          obtain ⟨_, hok, hthere⟩ := hnote hfailed
          rw [← Except.ok.inj hok, hmissing] at hthere
          simp at hthere
      | false =>
        have hran : Ran env fs imports o p summary after :=
          (ran_iff hload hmeant).2 ⟨hp, ⟨events, hrun⟩, hmissing⟩
        refine .announced hran (by simp [closingLines, hmissing, hp]) ?_
        rw [Run.holds_iff htree hp hrun hmissing, Run.reportFailed_append]
        simp only [begun_silent, false_or]

theorem went (env : Environment κ) (imports : Imports κ) (htree : fs.IsTree)
    (hreport : o.report.isSome = true) :
    Went env fs imports o (executeRun env fs imports o) := by
  by_cases hbegun : ∃ found loaded s,
      Loading.load env.host fs imports o.converter = (.ok found, loaded) ∧ Meant env.home fs o s
  · obtain ⟨found, loaded, s, hload, hmeant⟩ := hbegun
    obtain ⟨hpath, hs⟩ := hmeant.settings_eq
    rw [executeRun_of_loaded hload hpath, ← hs]
    exact went_of_loaded htree hreport hload hmeant
  · have hnone : ∀ found loaded s,
        Loading.load env.host fs imports o.converter = (.ok found, loaded) →
          ¬ Meant env.home fs o s :=
      fun found loaded s hload hmeant => hbegun ⟨found, loaded, s, hload, hmeant⟩
    obtain ⟨houtput, hevents⟩ := executeRun_unbegun hnone
    refine .unannounced (fun p summary hran => ?_) houtput hevents
    obtain ⟨found, loaded, s, hload, hmeant, -⟩ := hran
    exact hnone found loaded s hload hmeant

/-- A command line names its report exactly if its run returns and had a root. The report is there
then exactly if the log does not say that it could not be written. So the command lines that name
exactly the reports they wrote are those whose log does not say that. -/
theorem execute_announces (env : Environment κ) (imports : Imports κ) (htree : fs.IsTree)
    (hparse : parse args = .ok (.run o)) (hreport : o.report.isSome = true) :
    let inv := execute env fs imports args
    (inv.Announces ↔ ∃ p summary, Ran env fs imports o p summary inv.files) ∧
    (∀ p summary, Ran env fs imports o p summary inv.files →
      inv.output = [summaryLine summary, reportLine p] ∧
        (Report.Holds inv.files p summary.outcomes ↔ ¬ Run.ReportFailed inv.events)) ∧
    ((inv.Announces ↔ ∃ p summary, Ran env fs imports o p summary inv.files ∧
        Report.Holds inv.files p summary.outcomes) ↔ ¬ Run.ReportFailed inv.events) := by
  rw [execute_of_parse hparse]
  intro inv
  have hwent : Went env fs imports o inv := went env imports htree hreport
  cases hwent with
  | unannounced hnone houtput hsilent =>
    have hunnamed : ¬ inv.Announces := by simp [Invocation.Announces, houtput]
    refine ⟨iff_of_false hunnamed ?_, fun p summary hran => absurd hran (hnone p summary),
      iff_of_true (iff_of_false hunnamed ?_) hsilent⟩
    · rintro ⟨p, summary, hran⟩
      exact hnone p summary hran
    · rintro ⟨p, summary, hran, -⟩
      exact hnone p summary hran
  | @announced p summary hran houtput hholds =>
    have hnamed : inv.Announces := ⟨p, by simp [houtput]⟩
    refine ⟨iff_of_true hnamed ⟨p, summary, hran⟩, fun q other hother => ?_, ?_⟩
    · obtain ⟨rfl, rfl⟩ := hran.unique hother
      exact ⟨houtput, hholds⟩
    · rw [← hholds, iff_true_left hnamed]
      constructor
      · rintro ⟨q, other, hother, hthere⟩
        obtain ⟨rfl, rfl⟩ := hran.unique hother
        exact hthere
      · exact fun hthere => ⟨p, summary, hran, hthere⟩

theorem execute_announces_secondOnly :
    let inv := execute (registered Run.secondOnly) Run.twoResources []
      ["run", "-c", "x", "--report", "r.csv"]
    inv.output = ["处理完成：共 2 个，转换 1 个，未变化 0 个，失败 1 个。", "报告文件：/r.csv"] ∧
      ∃ p summary, Ran (registered Run.secondOnly) Run.twoResources []
          { RunOptions.initial with converter := some "x", report := some "r.csv" } p summary
          inv.files ∧
        Report.Holds inv.files p summary.outcomes := by
  intro inv
  have hparse : parse ["run", "-c", "x", "--report", "r.csv"] =
      .ok (.run { RunOptions.initial with converter := some "x", report := some "r.csv" }) := rfl
  have houtput : inv.output =
      ["处理完成：共 2 个，转换 1 个，未变化 0 个，失败 1 个。", "报告文件：/r.csv"] := by
    decide +kernel
  have hnone : ¬ Run.ReportFailed inv.events := by decide +kernel
  obtain ⟨-, -, hthere⟩ :=
    execute_announces (registered Run.secondOnly) [] Run.twoResources_isTree hparse rfl
  refine ⟨houtput, (hthere.2 hnone).1 ⟨⟨.root, ["r.csv"]⟩, ?_⟩⟩
  change _ ∈ inv.output
  rw [houtput]
  decide +kernel

/-- The report is to be where a directory is. -/
theorem not_execute_always_announces :
    ¬ ∀ (env : Environment Unit) (fs : FileSystem) (imports : Imports Unit) (args : List String)
      (o : RunOptions), fs.IsTree → parse args = .ok (.run o) → o.report.isSome = true →
      (∃ code, (execute env fs imports args).ending = .exit code) →
      ((execute env fs imports args).Announces ↔ ∃ p summary,
        Ran env fs imports o p summary (execute env fs imports args).files ∧
          Report.Holds (execute env fs imports args).files p summary.outcomes) := by
  intro h
  have hparse : parse ["run", "-c", "x", "--report", "a"] =
      .ok (.run { RunOptions.initial with converter := some "x", report := some "a" }) := rfl
  have hsame := h (registered Run.secondOnly) Run.twoResources [] _ _ Run.twoResources_isTree hparse
    rfl ⟨1, rfl⟩
  have hnote : Run.ReportFailed (execute (registered Run.secondOnly) Run.twoResources []
      ["run", "-c", "x", "--report", "a"]).events := by decide +kernel
  have hwent : Went (registered Run.secondOnly) Run.twoResources []
      { RunOptions.initial with converter := some "x", report := some "a" } _ :=
    went _ [] Run.twoResources_isTree rfl
  rw [← execute_of_parse hparse] at hwent
  cases hwent with
  | unannounced _ _ hsilent => exact hsilent hnote
  | @announced p summary hran houtput hholds =>
    obtain ⟨q, other, hother, hthere⟩ := hsame.1 ⟨p, by simp [houtput]⟩
    obtain ⟨rfl, rfl⟩ := hran.unique hother
    exact hholds.1 hthere hnote

end ResourceAccessors.CommandLine
