import ResourceAccessors.Proofs.FileSystem.Unsaved
import ResourceAccessors.Proofs.Report

/-! What becomes of a wanted report. A run that returns has written its report or noted that it could
not, unless it has no root, and nothing else in it makes that note. A report is there to be read
afterwards exactly if the note is not made. -/
namespace ResourceAccessors
set_option autoImplicit false

open ResourceAccessors.Action

variable {fs after : FileSystem} {p : Path} {os : List Outcome} {fault : FileFault}

/-- Notes that a report could not be written. -/
def Event.isReportFailure : Event → Bool
  | note (.reportFailed _) => true
  | _ => false

namespace Report

/-- A path leads to a regular file with the records of some outcomes. -/
def Holds (fs : FileSystem) (p : Path) (os : List Outcome) : Prop :=
  ∃ content, TextFile.read fs p "utf-8" = .ok content ∧ read? content = some (table os)

theorem holds_of_write (htree : fs.IsTree) (h : write fs p os = (.ok (), after)) :
    Holds after p os :=
  ⟨text os, TextFile.read_of_bytesOf (bytesOf_text (text os)) (read_of_write htree h), read?_text os⟩

/-- Where writing fails no report is left, not even an old one. -/
theorem not_holds_of_write_error (htree : fs.IsTree) (h : write fs p os = (.error fault, after)) :
    ¬ Holds after p os := by
  rintro ⟨content, hread, -⟩
  rw [write_eq] at h
  unfold TextFile.read at hread
  split at hread
  · simp at hread
  · split at hread
    · simp at hread
    · next hbytes => exact FileSystem.not_read_of_save_error htree h hbytes

end Report

namespace Run

variable {settings : Settings} {converter : Converter} {listener : Option Listener}
  {base : Option Path} {events : List Event}

/-! ## The note -/

/-- Some event notes that the report could not be written. -/
def ReportFailed (events : List Event) : Prop :=
  ∃ e ∈ events, e.isReportFailure = true

instance (events : List Event) : Decidable (ReportFailed events) :=
  inferInstanceAs (Decidable (∃ e ∈ events, e.isReportFailure = true))

/-- An event of any other kind. -/
def Silent (e : Event) : Prop :=
  e.isReportFailure = false

theorem reportFailed_append {more : List Event} :
    ReportFailed (events ++ more) ↔ ReportFailed events ∨ ReportFailed more := by
  simp only [ReportFailed, List.mem_append, or_and_right, exists_or]

theorem not_reportFailed_of_silent (h : ∀ e ∈ events, Silent e) : ¬ ReportFailed events := by
  rintro ⟨e, he, hfailure⟩
  rw [h e he] at hfailure
  simp at hfailure

theorem step_tells (index : Nat) (source : SourceFile) :
    (Conversion.step settings converter index source).Tells Silent := by
  intro fs
  have hs := Conversion.stepped settings converter index source fs
  generalize (Conversion.step settings converter index source).run fs = trace at hs
  cases hs with
  | complained thrown _ _ | unspoken thrown _ _ _ _ =>
    unfold Conversion.complaint
    split <;> simp [Silent, Event.isReportFailure]
  | _ => simp [Silent, Event.isReportFailure]

theorem say_tells (m : Message) : (say m).Tells Silent := tells_emit rfl

theorem sayAll_tells (messages : List Message) : (sayAll messages).Tells Silent := by
  induction messages with
  | nil => exact tells_pure ()
  | cons m messages ih => exact (say_tells m).bind fun _ => ih

theorem announce_tells (ordinal : Nat) (update : Progress) :
    (announce listener ordinal update).Tells Silent := by
  unfold announce
  cases listener with
  | none => exact tells_pure ()
  | some hear =>
    have hupdate : (emit (.progress update)).Tells Silent := tells_emit rfl
    apply hupdate.bind
    intro _
    cases hear ordinal update with
    | none => exact tells_pure ()
    | some raised => exact tells_fail _

theorem convertFrom_tells (total index : Nat) (summary : Summary) (sources : List SourceFile) :
    (convertFrom settings converter listener total index summary sources).Tells Silent := by
  induction sources generalizing index summary with
  | nil => exact tells_pure summary
  | cons source rest ih =>
    apply (step_tells index source).bind
    intro o
    apply (sayAll_tells _).bind
    intro _
    apply (announce_tells _ _).bind
    intro _
    exact ih _ _

theorem conclude_tells (total : Nat) (summary : Summary) :
    (conclude listener total summary).Tells Silent := by
  unfold conclude
  split
  · exact (say_tells _).bind fun _ => (say_tells _).bind fun _ => (say_tells _).bind fun _ =>
      (announce_tells _ _).bind fun _ => (say_tells _).bind fun _ => tells_pure _
  · exact (announce_tells _ _).bind fun _ => (say_tells _).bind fun _ =>
      (say_tells _).bind fun _ => tells_pure _

theorem convertSources_tells (settings : Settings) (converter : Converter)
    (listener : Option Listener) (root : Path) (sources : List SourceFile) :
    (convertSources settings converter listener root sources).Tells Silent :=
  (convertFrom_tells _ _ _ _).bind fun _ => conclude_tells _ _

/-! ## Ends of runs -/

/-- How a run ends that wants a report: in a fault, without a root, with the report written, or with
a note that it is not. -/
inductive Ended (p : Path) : Trace Summary → Prop
  | stopped {cause : Fault} {after : FileSystem} {events : List Event} : ¬ ReportFailed events →
      Ended p ⟨.error cause, after, events⟩
  | rootless {summary : Summary} {after : FileSystem} {events : List Event} :
      summary.rootMissing = true → ¬ ReportFailed events → Ended p ⟨.ok summary, after, events⟩
  | written {summary : Summary} {mid after : FileSystem} {events : List Event} :
      summary.rootMissing = false → mid.IsTree →
      Report.write mid p summary.outcomes = (.ok (), after) → ¬ ReportFailed events →
      Ended p ⟨.ok summary, after, events⟩
  | unwritten {summary : Summary} {mid after : FileSystem} {events : List Event}
      {fault : FileFault} : summary.rootMissing = false → mid.IsTree →
      Report.write mid p summary.outcomes = (.error fault, after) → ReportFailed events →
      Ended p ⟨.ok summary, after, events⟩

/-- What is told before the end of a run does not matter, if it is not the note. -/
theorem Ended.behind {trace : Trace Summary} (h : Ended p trace) (hsilent : ¬ ReportFailed events) :
    Ended p ⟨trace.result, trace.files, events ++ trace.events⟩ := by
  have hquiet : ∀ {more}, ¬ ReportFailed more → ¬ ReportFailed (events ++ more) :=
    fun hmore hboth => (reportFailed_append.1 hboth).elim hsilent hmore
  cases h with
  | stopped hnone => exact .stopped (hquiet hnone)
  | rootless hmissing hnone => exact .rootless hmissing (hquiet hnone)
  | written hthere htree hwrite hnone => exact .written hthere htree hwrite (hquiet hnone)
  | unwritten hthere htree hwrite hnote =>
    exact .unwritten hthere htree hwrite (reportFailed_append.2 (.inr hnote))

theorem ended_of_convertFound (htree : fs.IsTree) (hreport : settings.report = some p)
    (root : Path) (sources : List SourceFile) :
    Ended p ((convertFound settings converter listener root sources).run fs) := by
  have htells := convertSources_tells settings converter listener root sources fs
  rw [run_convertFound, hreport]
  cases hsources : (convertSources settings converter listener root sources).run fs with
  | mk result mid told =>
    rw [hsources] at htells
    have hsilent : ¬ ReportFailed told := not_reportFailed_of_silent htells
    cases result with
    | error cause => exact .stopped hsilent
    | ok summary =>
      obtain ⟨os, hconverts, -, hsummary⟩ := convertSources_returns_iff.1 ⟨told, hsources⟩
      have hthere : summary.rootMissing = false := by
        rw [hsummary, concluded_recorded, Summary.recorded_eq]
      have hmid : mid.IsTree := (hconverts.touched htree).2
      simp only [run_writeReport]
      cases hwrite : Report.write mid p summary.outcomes with
      | mk result after =>
        cases result with
        | ok => exact Ended.behind (.written hthere hmid hwrite (by simp [ReportFailed])) hsilent
        | error fault =>
          cases fault with
          | nulInPath | tooNested =>
            exact Ended.behind (.stopped (by simp [ReportFailed])) hsilent
          | obstructed obstacle q =>
            exact Ended.behind
              (.unwritten hthere hmid hwrite ⟨_, List.mem_singleton_self _, rfl⟩) hsilent

theorem ended (htree : fs.IsTree) (hreport : settings.report = some p) (converter : Converter)
    (listener : Option Listener) (base : Option Path) :
    Ended p ((run settings converter listener base).run fs) := by
  rw [run_eq]
  cases settings.check with
  | error cause => exact .stopped (by simp [ReportFailed])
  | ok =>
    cases fs.isDirectory (rootOf settings base fs) with
    | error cause => exact .stopped (by simp [ReportFailed])
    | ok isDir =>
      cases isDir with
      | false => exact .rootless rfl (by simp [ReportFailed, Event.isReportFailure])
      | true =>
        simp only [run_convertAll]
        cases Scan.run fs (rootOf settings base fs) settings.patterns.texts settings.recursive with
        | error cause => exact .stopped (by simp [ReportFailed, heading, Event.isReportFailure])
        | ok sources =>
          have hheading : ¬ ReportFailed (heading (rootOf settings base fs) ++
              [.note (.candidates sources.length)]) := by
            simp [ReportFailed, heading, Event.isReportFailure]
          simpa using (ended_of_convertFound htree hreport (rootOf settings base fs) sources).behind
            hheading

/-- A run that had a root leaves its report exactly if it does not note that it could not. -/
theorem holds_iff {summary : Summary} (htree : fs.IsTree) (hreport : settings.report = some p)
    (h : (run settings converter listener base).run fs = ⟨.ok summary, after, events⟩)
    (hthere : summary.rootMissing = false) :
    Report.Holds after p summary.outcomes ↔ ¬ ReportFailed events := by
  have hended := ended htree hreport converter listener base
  rw [h] at hended
  cases hended with
  | rootless hmissing => simp [hthere] at hmissing
  | written _ hmid hwrite hnone => exact iff_of_true (Report.holds_of_write hmid hwrite) hnone
  | unwritten _ hmid hwrite hnote =>
    exact iff_of_false (Report.not_holds_of_write_error hmid hwrite) fun hnone => hnone hnote

/-- Only a run that returns and had a root makes the note. -/
theorem returns_of_reportFailed {result : Except Fault Summary} (htree : fs.IsTree)
    (hreport : settings.report = some p)
    (h : (run settings converter listener base).run fs = ⟨result, after, events⟩)
    (hnote : ReportFailed events) :
    ∃ summary, result = .ok summary ∧ summary.rootMissing = false := by
  have hended := ended htree hreport converter listener base
  rw [h] at hended
  cases hended with
  | stopped hnone => exact absurd hnote hnone
  | rootless _ hnone => exact absurd hnote hnone
  | written _ _ _ hnone => exact absurd hnote hnone
  | unwritten hthere => exact ⟨_, rfl, hthere⟩

end Run

end ResourceAccessors
