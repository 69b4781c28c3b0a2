import ResourceAccessors.Proofs.Message
import ResourceAccessors.Proofs.Run.Interrupted

/-! What a run that returns has told. Its events are those of its heading, of the loop, of its end and
of the report, in this order, so what the listener heard and what the user was told can be read off
the outcomes. -/
namespace ResourceAccessors
set_option autoImplicit false

open ResourceAccessors.Action

namespace Log

theorem messages_eq (events : List Event) : messages events = events.filterMap Event.message? := by
  unfold messages
  congr 1
  funext e
  cases e <;> rfl

theorem updates_eq (events : List Event) : updates events = events.filterMap Event.update? := by
  unfold updates
  congr 1
  funext e
  cases e <;> rfl

end Log

namespace Run

variable {settings : Settings} {converter : Converter} {listener : Option Listener}
  {base : Option Path} {total : Nat} {fs after : FileSystem} {sources : List SourceFile}
  {os : List Outcome} {root : Path} {summary : Summary} {events : List Event}

/-! ## The end of a run -/

/-- What the end of a run tells the listener. -/
def farewell (listener : Option Listener) (total : Nat) (summary : Summary) : List Event :=
  if listener.isSome then [.progress (finalUpdate total summary)] else []

/-- What the end of a run tells. -/
def closing (listener : Option Listener) (total : Nat) (summary : Summary) : List Event :=
  if 0 < summary.processed then
    [.message .blank,
      .message (.totals summary.processed summary.converted summary.failed),
      .message (if summary.failed = 0 then .allConverted else .someFailed)] ++
        (farewell listener total summary ++ [.message .blank])
  else
    farewell listener total summary ++ [.message (.nothingFound summary.root), .message .blank]

theorem run_conclude (h : Heard listener total (finalUpdate total summary)) (fs : FileSystem) :
    (conclude listener total summary).run fs =
      ⟨.ok (concluded summary), fs, closing listener total summary⟩ := by
  have hsay : ∀ m, (say m).run fs = ⟨.ok (), fs, [.message m]⟩ := fun _ => rfl
  have htold : (announce listener total (finalUpdate total summary)).run fs =
      ⟨.ok (), fs, farewell listener total summary⟩ := run_announce h
  unfold conclude concluded closing
  unfold finalUpdate at htold
  split
  · next hpos =>
    rw [if_pos hpos] at htold
    simp only [decide_eq_true_eq]
    rw [run_bind_ok (hsay _), run_bind_ok (hsay _), run_bind_ok (hsay _), run_bind_ok htold,
      run_bind_ok (hsay _)]
    rfl
  · next hpos =>
    rw [if_neg hpos] at htold
    rw [run_bind_ok htold, run_bind_ok (hsay _), run_bind_ok (hsay _)]
    rfl

theorem events_of_writeReport (report : Option Path) (summary : Summary) (fs : FileSystem) :
    ((writeReport report summary).run fs).events.filterMap Event.message? = [] ∧
      ((writeReport report summary).run fs).events.filterMap Event.update? = [] := by
  cases report with
  | none => exact ⟨rfl, rfl⟩
  | some p =>
    rw [run_writeReport]
    split <;> exact ⟨rfl, rfl⟩

/-! ## A run in full -/

theorem Converts.relative_eq {index : Nat}
    (h : Converts settings converter listener total index fs sources os after) :
    os.map Outcome.relative = sources.map SourceFile.relative := by
  induction h with
  | nil => rfl
  | cons hstep _ _ ih =>
    have hrelative := (Conversion.outcome_of_step (returns_iff.1 hstep).1).2.1
    rw [List.map_cons, List.map_cons, ih, hrelative]

theorem run_convertSources (root : Path)
    (hc : Converts settings converter listener sources.length 0 fs sources os after)
    (hheard : Heard listener sources.length (finalUpdate sources.length (Summary.recorded root os))) :
    ∃ loop, Told settings listener sources.length 0 sources os loop ∧
      (convertSources settings converter listener root sources).run fs =
        ⟨.ok (concluded (Summary.recorded root os)), after,
          loop ++ closing listener sources.length (Summary.recorded root os)⟩ := by
  obtain ⟨loop, htold, hrun⟩ := hc.run_append (Summary.empty root) []
  rw [List.append_nil, convertFrom, run_pure, List.append_nil] at hrun
  refine ⟨loop, htold, ?_⟩
  unfold convertSources
  rw [run_bind_ok hrun]
  exact congrArg (fun t : Trace Summary => (⟨t.result, t.files, loop ++ t.events⟩ : Trace Summary))
    (run_conclude hheard after)

/-- The events of a run that found its root. -/
theorem events_of_run
    (h : (run settings converter listener base).run fs = ⟨.ok summary, after, events⟩)
    (hthere : summary.rootMissing = false) :
    ∃ sources os mid loop, Finishes settings converter listener (rootOf settings base fs) fs sources
        os mid ∧
      summary = concluded (Summary.recorded (rootOf settings base fs) os) ∧
      Told settings listener sources.length 0 sources os loop ∧
      events = heading (rootOf settings base fs) ++ .note (.candidates sources.length) ::
        (loop ++ closing listener sources.length (Summary.recorded (rootOf settings base fs) os) ++
          ((writeReport settings.report summary).run mid).events) := by
  have hreturns : (run settings converter listener base).Returns fs summary after := ⟨events, h⟩
  have hdir := isDirectory_of_returns hreturns hthere
  obtain ⟨hcheck, hall⟩ := (run_returns_iff_convertAll hdir).1 hreturns
  obtain ⟨sources, os, mid, hf, hsummary, -⟩ := convertAll_returns_iff_reported.1 hall
  obtain ⟨loop, htold, hrun⟩ := run_convertSources (rootOf settings base fs) hf.converts hf.told
  refine ⟨sources, os, mid, loop, hf, hsummary, htold, ?_⟩
  rw [run_eq, hcheck, hdir] at h
  simp only [run_convertAll, hf.scanned, run_convertFound, hrun, ← hsummary, Trace.mk.injEq] at h
  exact h.2.2.symm

/-! ## Messages -/

theorem messages_of_closing (listener : Option Listener) (total : Nat) (summary : Summary) :
    (closing listener total summary).filterMap Event.message? =
      if 0 < summary.processed then
        [.blank, .totals summary.processed summary.converted summary.failed,
          if summary.failed = 0 then .allConverted else .someFailed, .blank]
      else [.nothingFound summary.root, .blank] := by
  have hfarewell : (farewell listener total summary).filterMap Event.message? = [] := by
    unfold farewell
    split <;> rfl
  unfold closing
  split
  · rw [List.filterMap_append, List.filterMap_append, hfarewell]
    rfl
  · rw [List.filterMap_append, hfarewell]
    rfl

/-- The messages of a run over a root with some outcomes. -/
def spoken (root : Path) (os : List Outcome) : List Message :=
  [.blank, .starting root, .blank] ++ os.flatMap Message.ofOutcome ++
    (if os = [] then [.nothingFound root]
    else [.blank, .totals os.length (os.countP (·.status = .converted))
        (os.countP (·.status = .failed)),
      if os.countP (·.status = .failed) = 0 then .allConverted else .someFailed]) ++ [.blank]

theorem messages_of_run
    (h : (run settings converter listener base).run fs = ⟨.ok summary, after, events⟩)
    (hthere : summary.rootMissing = false) :
    ∃ sources, Scan.run fs (rootOf settings base fs) settings.patterns.texts settings.recursive =
        .ok sources ∧
      summary.outcomes.map Outcome.relative = sources.map SourceFile.relative ∧
      Log.messages events = spoken (rootOf settings base fs) summary.outcomes := by
  obtain ⟨sources, os, mid, loop, hf, rfl, htold, rfl⟩ := events_of_run h hthere
  rw [outcomes_concluded]
  refine ⟨sources, hf.scanned, hf.converts.relative_eq, ?_⟩
  have hheading : (heading (rootOf settings base fs)).filterMap Event.message? =
      [.blank, .starting (rootOf settings base fs), .blank] := rfl
  have hnote : (Event.note (.candidates sources.length)).message? = none := rfl
  rw [Log.messages_eq, List.filterMap_append, hheading, List.filterMap_cons_none hnote,
    List.filterMap_append, List.filterMap_append, htold.messages, messages_of_closing,
    (events_of_writeReport _ _ _).1, Summary.recorded_eq]
  unfold spoken
  cases os with
  | nil => rfl
  | cons o os => simp

/-! ## Wording -/

/-- The line about a file: where it is, and what became of it. -/
def line (o : Outcome) : String :=
  match o.status with
  | .converted => s!"\t* '{o.relative}' 文件转换成功"
  | .failed => s!"\t* '{o.relative}' 文件转换失败"
  | .unchanged | .other _ => s!"\t* '{o.relative}' 文件没有变化"

/-- The line behind that of a failed file. -/
def complaints (o : Outcome) : List (Tone × String) :=
  if o.status = .failed then
    [(.error, if o.message.getD "" = "" then "未知错误" else o.message.getD "")]
  else []

/-- The last lines of a run, without the blank one. -/
def banner (root : Path) (os : List Outcome) : List (Tone × String) :=
  let converted := os.countP (·.status = .converted)
  let failed := os.countP (·.status = .failed)
  if os = [] then [(.warning, s!"在 '{root}' 目录中没有找到 resx 文件。")]
  else [(.info, ""), (.info, s!"文件总数：{os.length}。已转换：{converted}。失败：{failed}。"),
    if failed = 0 then (.success, "转换成功。") else (.error, "转换失败。")]

/-- All that a run says over a root with some outcomes. -/
def transcript (root : Path) (os : List Outcome) : List (Tone × String) :=
  [(.info, ""), (.info, s!"开始转换 '{root}' 目录中的 `.resx` 文件："), (.info, "")] ++
    os.flatMap (fun o => (.info, line o) :: complaints o) ++ banner root os ++ [(.info, "")]

theorem lines_ofOutcome (o : Outcome) :
    (Message.ofOutcome o).map (fun m => (m.tone, m.text)) = (.info, line o) :: complaints o := by
  obtain ⟨source, relative, status, output, message⟩ := o
  cases status with
  | converted => rfl
  | unchanged => rfl
  | failed => rfl
  | other label => rfl

theorem lines_spoken (root : Path) (os : List Outcome) :
    (spoken root os).map (fun m => (m.tone, m.text)) = transcript root os := by
  unfold spoken transcript banner
  rw [List.map_append, List.map_append, List.map_append, List.map_flatMap]
  simp only [lines_ofOutcome]
  congr 2
  split
  · rfl
  · split <;> rfl

theorem errors_spoken (root : Path) (os : List Outcome) :
    (spoken root os).countP (·.tone = .error) =
      os.countP (·.status = .failed) + if 0 < os.countP (·.status = .failed) then 1 else 0 := by
  have hone : ∀ o : Outcome, (Message.ofOutcome o).countP (·.tone = .error) =
      if o.status = .failed then 1 else 0 := by
    intro o
    obtain ⟨source, relative, status, output, message⟩ := o
    cases status <;> rfl
  have hall : (os.flatMap Message.ofOutcome).countP (·.tone = .error) =
      os.countP (·.status = .failed) := by
    induction os with
    | nil => rfl
    | cons o os ih =>
      rw [List.flatMap_cons, List.countP_append, ih, hone, List.countP_cons, Nat.add_comm]
      simp only [decide_eq_true_eq]
  have hstart : [Message.blank, .starting root, .blank].countP (·.tone = .error) = 0 := rfl
  have hblank : [Message.blank].countP (·.tone = .error) = 0 := rfl
  unfold spoken
  rw [List.countP_append, List.countP_append, List.countP_append, hstart, hall, hblank,
    Nat.zero_add, Nat.add_zero]
  congr 1
  cases os with
  | nil => rfl
  | cons o os =>
    rw [if_neg (List.cons_ne_nil o os)]
    cases (o :: os).countP (·.status = .failed) with
    | zero => rfl
    | succ n => rfl

/-- The messages of a run that returns and had a root, in full. Each of them is logged as the template
it is sent with, filled with its arguments, so percent signs in a path or in a complaint stay. -/
theorem run_tells
    (h : (run settings converter listener base).run fs = ⟨.ok summary, after, events⟩)
    (hthere : summary.rootMissing = false) :
    ∃ sources, Scan.run fs (rootOf settings base fs) settings.patterns.texts settings.recursive =
        .ok sources ∧
      summary.outcomes.map Outcome.relative = sources.map SourceFile.relative ∧
      (Log.messages events).map (fun m => (m.tone, m.text)) =
        transcript (rootOf settings base fs) summary.outcomes ∧
      (Log.messages events).countP (·.tone = .error) =
        summary.outcomes.countP (·.status = .failed) +
          (if 0 < summary.outcomes.countP (·.status = .failed) then 1 else 0) ∧
      ∀ m ∈ Log.messages events, m.tone.record (.text m.template) m.arguments =
        .ok ⟨m.tone.severity, .user, m.text⟩ := by
  obtain ⟨sources, hscan, hrelative, hmessages⟩ := messages_of_run h hthere
  refine ⟨sources, hscan, hrelative, ?_, ?_, fun m _ => m.record_template⟩
  · rw [hmessages]
    exact lines_spoken _ _
  · rw [hmessages]
    exact errors_spoken _ _

theorem run_tells_secondOnly :
    ∃ summary after events, (run Conversion.plainSettings secondOnly none none).run twoResources =
        ⟨.ok summary, after, events⟩ ∧
      summary.rootMissing = false ∧ (Log.messages events).countP (·.tone = .error) = 2 := by
  obtain ⟨events, hrun⟩ := run_secondOnly heard_none
  obtain ⟨sources, -, -, -, herrors, -⟩ := run_tells hrun rfl
  rw [outcomes_concluded] at herrors
  exact ⟨_, _, events, hrun, rfl, herrors⟩

end Run

end ResourceAccessors
