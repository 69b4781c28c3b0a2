import ResourceAccessors.Proofs.Conversion.Effect
import ResourceAccessors.Proofs.Run.Repeated

/-! What a run may touch, links or not. Each conversion touches the output it writes and the way to
the output it tried to write, and so does the report; nothing else is different after a run. -/
namespace ResourceAccessors
set_option autoImplicit false

open ResourceAccessors.Action FileSystem

variable {fs mid after : FileSystem}

theorem Report.write_eq (fs : FileSystem) (p : Path) (os : List Outcome) :
    write fs p os = fs.save fs.limits.reports p (Utf8.encode (text os).toList) := rfl

theorem Report.touched (htree : fs.IsTree) (p : Path) (os : List Outcome) :
    Touched [p] [p] fs (write fs p os).2 := by
  have hways : ∀ {ready}, Touched [] [p] fs ready → Touched [p] [p] fs ready :=
    fun h => h.mono (List.nil_subset _) (List.Subset.refl _)
  cases hsave : fs.save fs.limits.reports p (Utf8.encode (text os).toList) with
  | mk result after =>
    rw [write_eq, hsave]
    cases result with
    | error fault => exact hways (made_of_save_error hsave).touched
    | ok =>
      obtain ⟨ready, place, hmade, hplace⟩ := written_of_save hsave
      exact (hways hmade.touched).trans (hplace.touched (hmade.isTree htree))

namespace Run

variable {settings : Settings} {converter : Converter} {listener : Option Listener}
  {total index : Nat} {sources : List SourceFile} {os : List Outcome} {summary : Summary}

theorem Converts.touched
    (h : Converts settings converter listener total index fs sources os after)
    (htree : fs.IsTree) :
    Touched (os.flatMap Outcome.written) (os.flatMap (·.output.toList)) fs after ∧
      after.IsTree := by
  induction h with
  | nil index fs => exact ⟨.refl _ _ fs, htree⟩
  | @cons index fs mid after source rest o os hstep hheard hrest ih =>
    have heffect := Conversion.effect_of_step hstep
    obtain ⟨hmore, htafter⟩ := ih (heffect.isTree htree)
    rw [List.flatMap_cons, List.flatMap_cons]
    refine ⟨((heffect.touched htree).mono ?_ ?_).trans (hmore.mono ?_ ?_), htafter⟩
    all_goals first
      | exact List.subset_append_left _ _
      | exact List.subset_append_right _ _

/-- A run touches the outputs it converted and the report, and the ways to all outputs. -/
theorem Composed.touched {root : Path}
    (h : Composed settings converter listener root fs sources mid summary after)
    (htree : fs.IsTree) :
    Touched (summary.outcomes.flatMap Outcome.written ++ settings.report.toList)
      (summary.outcomes.flatMap (·.output.toList) ++ settings.report.toList) fs after := by
  obtain ⟨hloop, htmid⟩ := h.converts.touched htree
  have hfirst := hloop.mono (List.subset_append_left _ settings.report.toList)
    (List.subset_append_left _ settings.report.toList)
  rcases h.reported with rfl | ⟨p, hp, rfl⟩
  · exact hfirst
  · refine hfirst.trans ((Report.touched htmid p summary.outcomes).mono ?_ ?_)
    all_goals
      rw [hp]
      exact List.subset_append_right _ _

theorem mem_flatMap_written {p : Path} :
    p ∈ os.flatMap Outcome.written ↔ ∃ o ∈ os, o.status = .converted ∧ o.output = some p := by
  rw [List.mem_flatMap]
  refine exists_congr fun o => and_congr_right fun _ => ?_
  unfold Outcome.written
  split <;> simp_all

/-- Where nothing was converted and no report is wanted, nothing was written. -/
theorem written_eq_nil {root : Path}
    (h : Composed settings converter listener root fs sources mid summary after)
    (hnone : summary.converted = 0) : summary.outcomes.flatMap Outcome.written = [] := by
  rw [h.converted, List.countP_eq_zero] at hnone
  rw [List.flatMap_eq_nil_iff]
  intro o ho
  have hnot : ¬ o.status = .converted := by simpa using hnone o ho
  exact if_neg hnot

/-- A file that a run may write: an output that it converted, or the report. -/
def MayWrite (settings : Settings) (summary : Summary) (p : Path) : Prop :=
  (∃ o ∈ summary.outcomes, o.status = .converted ∧ o.output = some p) ∨ settings.report = some p

/-- A path on whose way a run may add directories: an output that it knows, or the report. -/
def MayReach (settings : Settings) (summary : Summary) (p : Path) : Prop :=
  (∃ o ∈ summary.outcomes, o.output = some p) ∨ settings.report = some p

theorem run_touches {base : Option Path} (htree : fs.IsTree)
    (hreturns : (run settings converter listener base).Returns fs summary after) :
    (∀ loc e, fs.entryAt loc = some e → ∃ e', after.entryAt loc = some e' ∧ e.SameKind e') ∧
    (∀ loc bytes, after.entryAt loc = some (.file bytes) →
      fs.entryAt loc ≠ some (.file bytes) →
        ∃ p, MayWrite settings summary p ∧ after.locate p = .ok loc) ∧
    (∀ loc, after.entryAt loc = some .directory → fs.entryAt loc ≠ some .directory →
      fs.entryAt loc = none ∧ ∃ p, MayReach settings summary p ∧
        ∃ n < p.names.length, after.Names (p.take n) loc) ∧
    (∀ loc target, after.entryAt loc = some (.link target) ↔
      fs.entryAt loc = some (.link target)) ∧
    (summary.converted = 0 → settings.report = none →
      ∀ loc bytes, after.entryAt loc = some (.file bytes) ↔
        fs.entryAt loc = some (.file bytes)) := by
  obtain ⟨sources, mid, hcomposed⟩ := composed_of_returns hreturns
  have htouched := hcomposed.touched htree
  refine ⟨fun loc e he => htouched.keeps.entry he, fun loc bytes hfile hne => ?_,
    fun loc hdir hne => ?_, fun loc target => ⟨fun hlink => ?_, htouched.keeps.link⟩,
    fun hnone hreport loc bytes => ?_⟩
  · rcases htouched.others hfile hne with ⟨_, p, _, hp, hloc⟩ | ⟨hdir, _⟩
    · rw [List.mem_append, mem_flatMap_written, Option.mem_toList] at hp
      exact ⟨p, hp, hloc⟩
    · simp at hdir
  · rcases htouched.others hdir hne with ⟨_, _, hfile, _⟩ | ⟨_, hfree, p, hp, hnames⟩
    · simp at hfile
    · simp only [List.mem_append, List.mem_flatMap, Option.mem_toList] at hp
      exact ⟨hfree, p, hp, hnames⟩
  · refine Classical.byContradiction fun hne => ?_
    rcases htouched.others hlink hne with ⟨_, _, hfile, _⟩ | ⟨hdir, _⟩
    · simp at hfile
    · simp at hdir
  · rw [written_eq_nil hcomposed hnone, hreport] at htouched
    exact ⟨htouched.file_eq, htouched.entryAt_eq⟩

/-! ## An output behind a link -/

def linkedOutput : FileSystem :=
  singleSource.set ["l"] (.link "d/out")

def linkedSettings : Settings :=
  { singleSettings with report := some ⟨.root, ["r", "report"]⟩ }

/-- Has one text and one link for it, whatever it is asked. -/
def linkedConverter : Converter := fun _ _ => .ok (.tuple [.text "/l", .text "c"])

def linkedRun : Trace Summary :=
  (run linkedSettings linkedConverter none none).run linkedOutput

def linkedSummary : Summary :=
  concluded (Summary.recorded ⟨.root, []⟩
    [Conversion.finished (Scan.sourceFile ⟨.root, []⟩ ["d", "a"]) ⟨.root, ["l"]⟩ true])

theorem linkedOutput_isTree : linkedOutput.IsTree :=
  singleSource_isTree.set_child (entryAt_nil _) rfl

theorem run_touches_linkedOutput :
    (run linkedSettings linkedConverter none none).Returns linkedOutput linkedSummary
        linkedRun.files ∧
      linkedRun.files.entryAt ["d", "out"] = some (.file [0x63]) ∧
      ∃ p, MayWrite linkedSettings linkedSummary p ∧
        linkedRun.files.locate p = .ok ["d", "out"] := by
  have hreturns : (run linkedSettings linkedConverter none none).Returns linkedOutput linkedSummary
      linkedRun.files := returns_iff.2 ⟨rfl, rfl⟩
  have hfile : linkedRun.files.entryAt ["d", "out"] = some (.file [0x63]) := rfl
  have hfree : linkedOutput.entryAt ["d", "out"] ≠ some (.file [0x63]) := by decide
  exact ⟨hreturns, hfile, (run_touches linkedOutput_isTree hreturns).2.1 _ _ hfile hfree⟩

end Run

end ResourceAccessors
